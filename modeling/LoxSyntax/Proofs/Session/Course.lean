import LoxSyntax.Proofs.Session.Rendering
import LoxSyntax.Proofs.Text.Lines

namespace LoxSyntax

namespace Session

/-- What a session does about a source: it writes what the source shows and a newline, or nothing
if that is nothing, or tells why it shows nothing. -/
def told (settings : Settings) (source : String) : List Event :=
  match settings.render source with
  | .ok text => if text = "" then [] else [.out (text ++ "\n")]
  | .error f => [.failure f]

/-- No failure of a source ends a session. -/
theorem answer_render (settings : Settings) (source : String) :
    answer (settings.render source) = .goOn (told settings source) := by
  unfold told
  cases shown : settings.render source with
  | ok text => simp only [answer, String.isEmpty_iff]
  | error f =>
    rcases Settings.render_error shown with ⟨_, rfl⟩ | ⟨_, _, rfl⟩ <;> rfl

/-- The lines that a session ends at. -/
def EndsAt (line : Bytes) : Prop := line = [] ∨ ¬ Utf8.IsText line

/-- The fault of a line that is no text. -/
def faultAt (line : Bytes) : Option InputFault :=
  match Utf8.decode line with
  | .ok _ => none
  | .error e => some (.lineNotText e)

theorem faultAt_isSome_iff (line : Bytes) : (faultAt line).isSome ↔ ¬ Utf8.IsText line := by
  rw [← Utf8.decode_eq_error_iff]
  unfold faultAt
  cases Utf8.decode line with
  | ok => simp
  | error => simp

theorem turn_endsAt (settings : Settings) {line : Bytes} (h : EndsAt line) :
    turn settings line = .stop (faultAt line) := by
  rcases h with rfl | notText
  · rfl
  · obtain ⟨e, read⟩ := Utf8.decode_eq_error_iff.mpr notText
    simp only [turn, faultAt, read]

theorem turn_encode (settings : Settings) {source : String} (some : source ≠ "") :
    turn settings (Utf8.encode source) = .goOn (told settings source) := by
  have read : Utf8.decode (Utf8.encode source) = .ok source := Utf8.decode_eq_ok_iff.mpr rfl
  have solid : ¬ source.isEmpty = true := by rwa [String.isEmpty_iff]
  simp only [turn, read, if_neg solid, answer_render]

/-- A line is that of a source that is not empty, or the session ends at it. -/
theorem encode_or_endsAt (line : Bytes) :
    (∃ source ≠ "", Utf8.encode source = line) ∨ EndsAt line := by
  by_cases text : Utf8.IsText line
  · obtain ⟨source, rfl⟩ := text
    by_cases none : source = ""
    · subst none
      exact .inr (.inl rfl)
    · exact .inl ⟨source, none, rfl⟩
  · exact .inr (.inr text)

/-- The events of a session that takes these sources, and no line behind them. -/
def eventsOf (settings : Settings) (sources : List String) : List Event :=
  sources.flatMap (fun source => .out settings.prompt :: told settings source) ++
    [.out settings.prompt]

theorem eventsOf_cons (settings : Settings) (source : String) (sources : List String) :
    eventsOf settings (source :: sources) =
      .out settings.prompt :: told settings source ++ eventsOf settings sources := by
  simp only [eventsOf, List.flatMap_cons, List.cons_append, List.append_assoc]

/-- A session takes the lines up to the first one that it ends at. -/
theorem ofLines_append (settings : Settings) {sources : List String} {rest : List Bytes}
    (some : ∀ source ∈ sources, source ≠ "") (ends : ∀ line ∈ rest.head?, EndsAt line) :
    ofLines settings (sources.map Utf8.encode ++ rest) =
      ⟨eventsOf settings sources, rest.head?.bind faultAt⟩ := by
  induction sources with
  | nil =>
    cases rest with
    | nil => rfl
    | cons line lines =>
      have stop := turn_endsAt settings (ends line rfl)
      simp only [List.map_nil, List.nil_append, ofLines, stop]
      rfl
  | cons source sources ih =>
    obtain ⟨first, others⟩ := List.forall_mem_cons.mp some
    have goOn := turn_encode settings first
    simp only [List.map_cons, List.cons_append, ofLines, goOn, ih others, eventsOf_cons]

theorem exists_sources (lines : List Bytes) :
    ∃ (sources : List String) (rest : List Bytes), lines = sources.map Utf8.encode ++ rest ∧
      (∀ source ∈ sources, source ≠ "") ∧ ∀ line ∈ rest.head?, EndsAt line := by
  induction lines with
  | nil => exact ⟨[], [], rfl, nofun, nofun⟩
  | cons line lines ih =>
    rcases encode_or_endsAt line with ⟨source, some, rfl⟩ | ends
    · obtain ⟨sources, rest, rfl, others, stop⟩ := ih
      exact ⟨source :: sources, rest, rfl, List.forall_mem_cons.mpr ⟨some, others⟩, stop⟩
    · exact ⟨[], line :: lines, rfl, nofun, fun _ first => Option.some.inj first ▸ ends⟩

/-- Lines behind one that the session ends at make no difference. -/
theorem ofLines_ended (settings : Settings) {lines : List Bytes}
    (ended : ∃ line ∈ lines, EndsAt line) (more more' : List Bytes) :
    ofLines settings (lines ++ more) = ofLines settings (lines ++ more') := by
  obtain ⟨sources, rest, rfl, some, stop⟩ := exists_sources lines
  cases rest with
  | nil =>
    obtain ⟨line, inside, ends⟩ := ended
    rw [List.append_nil] at inside
    obtain ⟨source, taken, rfl⟩ := List.mem_map.mp inside
    rcases ends with none | notText
    · exact absurd none (Utf8.encode_ne_nil (some source taken))
    · exact absurd ⟨source, rfl⟩ notText
  | cons line rest =>
    have taken (more : List Bytes) :
        ofLines settings (sources.map Utf8.encode ++ line :: (rest ++ more)) =
          ⟨eventsOf settings sources, faultAt line⟩ := ofLines_append settings some stop
    rw [List.append_assoc, List.append_assoc]
    exact (taken more).trans (taken more').symm

end Session

open Session

/-- The course of a session, under any settings and for any input. Of the lines that the input is
cut into, it takes those in front of the first one that is empty or no text, each as a source: it
writes the prompt, and then what is told of that source alone. It ends behind one more prompt, with
a fault exactly if it ends at a line that is no text; no source ends it by what is wrong with it,
and no byte behind the line that it ends at makes a difference. -/
theorem session_course (settings : Settings) (input : Bytes) :
    ∃ (lines : List Bytes) (sources : List String) (rest : List Bytes),
      CutIntoLines 10 13 input lines ∧ lines = sources.map Utf8.encode ++ rest ∧
      (∀ source ∈ sources, source ≠ "") ∧
      (∀ line ∈ rest.head?, line = [] ∨ ¬ Utf8.IsText line) ∧
      (settings.session input).events =
        sources.flatMap (fun source => .out settings.prompt :: told settings source) ++
          [.out settings.prompt] ∧
      ((settings.session input).fault.isSome ↔ ∃ line ∈ rest.head?, ¬ Utf8.IsText line) ∧
      (∀ source f, settings.render source = .error f →
        (∃ diagnostics, f = .source diagnostics) ∨ ∃ size limit, f = .tooLarge size limit) ∧
      ∀ ahead behind first, input = ahead ++ 10 :: behind →
        CutIntoLines 10 13 (ahead ++ [10]) first →
        (∃ line ∈ first, line = [] ∨ ¬ Utf8.IsText line) →
        ∀ behind', settings.session (ahead ++ 10 :: behind') = settings.session input := by
  obtain ⟨sources, rest, whole, some, ends⟩ := exists_sources (linesOfBytes input)
  have course : settings.session input = ⟨eventsOf settings sources, rest.head?.bind faultAt⟩ := by
    rw [Settings.session, whole, ofLines_append settings some ends]
  refine ⟨_, sources, rest, cutIntoLines_linesOf input, whole, some, ends, ?_, ?_,
    fun _ _ => Settings.render_error, ?_⟩
  · rw [course]
    rfl
  · rw [course]
    cases rest with
    | nil => simp
    | cons line rest => simp [faultAt_isSome_iff]
  · rintro ahead behind first rfl cut ended behind'
    have lines (more : Bytes) :
        linesOfBytes (ahead ++ 10 :: more) = first ++ linesOfBytes more := by
      rw [← cut.linesOf_eq]
      exact linesOf_append_newline 10 13 ahead more
    rw [Settings.session, Settings.session, lines, lines]
    exact ofLines_ended settings ended _ _

/-- A source, a line that ends in a carriage return, and a byte that begins no character. -/
example : ({} : Settings).session (Utf8.encode "print -1;\n// \r\n" ++ [0xFF, 0x0A, 0x31]) =
    ⟨[.out "> ", .out "print -1;\n", .out "> ", .out "> "], some (.lineNotText ⟨0, some 1⟩)⟩ := by
  decide +kernel

end LoxSyntax
