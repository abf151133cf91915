import LoxSyntax.Proofs.Parse.Concatenation
import LoxSyntax.Proofs.Print.Sequence
import LoxSyntax.Proofs.Print.Words
import LoxSyntax.Proofs.Session.Course

namespace LoxSyntax

/-- A program does not start with an `else`. -/
theorem head_ne_else_of_accepted {tokens : List Token} (accepted : (parse tokens).errors = []) :
    ∀ t ∈ tokens.head?, t.kind ≠ .elseKw := by
  obtain ⟨final, ⟨D, -, read⟩, done⟩ := Parse.program_reads _ accepted
  have ahead : tokens.takeWhile (·.kind != .eof) = D.tokens ++ final.ahead := read.ahead
  rw [done] at ahead
  intro t first is
  cases tokens with
  | nil => cases first
  | cons u us =>
    obtain rfl := Option.some.inj first
    have stays : (u.kind != .eof) = true := by rw [is]; rfl
    have begins : u :: us.takeWhile (·.kind != .eof) = D.tokens ++ [] := by
      rw [← ahead, List.takeWhile_cons, if_pos stays]
    have none : ∀ t ∈ ([] : List Token).head?, t.kind ≠ .elseKw := nofun
    exact Grammar.declarations_head_ne_else D none u (by rw [← begins]; rfl) is

/-- Two programs with a newline between them are one program, with the second one further down. -/
theorem readProgram_append {a b : String} {program program' : List Stmt}
    (ha : readProgram a = .ok program) (hb : readProgram b = .ok program') :
    readProgram (a ++ "\n" ++ b) =
      .ok (program ++ program'.map (Stmt.relabel (Token.lowered (a.toList.count '\n' + 1)))) := by
  obtain ⟨clean, accepted, rfl⟩ := readProgram_ok hb
  have errors := scan_errors_below ha b
  have parsed := parse_below ha (head_ne_else_of_accepted accepted)
  rw [clean] at errors
  rw [accepted] at parsed
  rw [readProgram_of_errors errors (by rw [parsed]; rfl), parsed]

theorem readProgram_empty : readProgram "" = .ok [] := by
  have nothing : scan "" = ⟨[.eof 1], []⟩ := by decide +kernel
  unfold readProgram
  rw [nothing]
  rfl

/-- The program of a script is that of its lines, each further down. -/
theorem readProgram_intercalate {programOf : String → List Stmt} {lines : List String}
    (h : ∀ line ∈ lines, readProgram line = .ok (programOf line)) :
    ∃ program, readProgram ("\n".intercalate lines) = .ok program ∧
      program.map Stmt.text = (lines.map programOf).flatMap (·.map Stmt.text) := by
  induction lines with
  | nil => exact ⟨[], readProgram_empty, rfl⟩
  | cons line lines ih =>
    obtain ⟨first, others⟩ := List.forall_mem_cons.mp h
    cases lines with
    | nil => exact ⟨programOf line, by rwa [String.intercalate_singleton], by simp⟩
    | cons second more =>
      obtain ⟨later, read, texts⟩ := ih others
      let lowered := Stmt.relabel (Token.lowered (line.toList.count '\n' + 1))
      have alike : SpelledAlike (Token.lowered (line.toList.count '\n' + 1)) := fun _ => rfl
      have same : (later.map lowered).map Stmt.text = later.map Stmt.text := by
        rw [List.map_map]
        exact List.map_congr_left fun s _ => s.text_relabel alike
      refine ⟨programOf line ++ later.map lowered, ?_, ?_⟩
      · rw [String.intercalate_cons_cons]
        exact readProgram_append first read
      · rw [List.map_append, same, texts]
        rfl

/-- A source that a session can be given as one line. -/
structure IsLine (source : String) : Prop where
  solid : source ≠ ""
  newline : '\n' ∉ source.toList
  returned : source.toList.getLast? ≠ some '\r'

namespace IsLine

theorem newline_not_mem {line : String} (h : IsLine line) : 10 ∉ Utf8.encode line :=
  Utf8.not_mem_encode (c := '\n') (by decide) h.newline

theorem withoutReturn_eq {line : String} (h : IsLine line) :
    withoutReturn 13 (Utf8.encode line) = Utf8.encode line :=
  if_neg (Utf8.getLast?_encode_ne (c := '\r') (by decide) h.returned)

/-- Lines that each end in a newline are those that the bytes are cut into. -/
theorem linesOfBytes_terminated {lines : List String} (h : ∀ line ∈ lines, IsLine line) :
    linesOfBytes (lines.flatMap fun line => Utf8.encode line ++ [10]) =
      lines.map Utf8.encode := by
  induction lines with
  | nil => rfl
  | cons line lines ih =>
    obtain ⟨first, others⟩ := List.forall_mem_cons.mp h
    rw [List.flatMap_cons, List.append_assoc, List.singleton_append, linesOfBytes,
      linesOf_line first.newline_not_mem, first.withoutReturn_eq, List.map_cons]
    exact congrArg _ (ih others)

/-- So are lines that are joined by newlines. -/
theorem linesOfBytes_intercalate {lines : List String} (h : ∀ line ∈ lines, IsLine line) :
    linesOfBytes (Utf8.encode ("\n".intercalate lines)) = lines.map Utf8.encode := by
  induction lines with
  | nil => rfl
  | cons line lines ih =>
    obtain ⟨first, others⟩ := List.forall_mem_cons.mp h
    cases lines with
    | nil =>
      rw [String.intercalate_singleton]
      exact linesOf_last (Utf8.encode_ne_nil first.solid) first.newline_not_mem
    | cons next lines =>
      have newline : Utf8.encode "\n" = [10] := by decide
      rw [String.intercalate_cons_cons, Utf8.encode_append, Utf8.encode_append, newline,
        List.append_assoc, List.singleton_append, linesOfBytes, linesOf_line first.newline_not_mem,
        first.withoutReturn_eq, List.map_cons]
      exact congrArg _ (ih others)

end IsLine

theorem mapM_eq_ok {α β ε : Type} {f : α → Except ε β} {g : α → β} {items : List α}
    (h : ∀ item ∈ items, f item = .ok (g item)) : items.mapM f = .ok (items.map g) := by
  induction items with
  | nil => rfl
  | cons item items ih =>
    obtain ⟨first, others⟩ := List.forall_mem_cons.mp h
    rw [List.mapM_cons, first, ih others]
    rfl

namespace Settings

theorem render_program {settings : Settings} (ast : settings.emit = .ast)
    (unlimited : settings.maxSourceBytes = none) {source : String} {program : List Stmt}
    (read : readProgram source = .ok program) :
    settings.render source = .ok (programText program) := by
  have admitted : settings.Admits source := by simp [Admits, unlimited]
  rw [render_of_admits admitted, ast, read]

/-- What a session writes of sources that all show something or nothing: a prompt and the text of
each, if there is one, and a prompt in the end. -/
def eventsOfTexts (settings : Settings) (texts : List String) : List Event :=
  (texts.flatMap fun text =>
    .out settings.prompt :: if text = "" then [] else [.out (text ++ "\n")]) ++
    [.out settings.prompt]

theorem failure_not_mem_eventsOfTexts {settings : Settings} (texts : List String) (f : Failure) :
    .failure f ∉ settings.eventsOfTexts texts := by
  intro inside
  rcases List.mem_append.mp inside with shown | last
  · obtain ⟨text, -, is⟩ := List.mem_flatMap.mp shown
    split at is <;> simp at is
  · simp at last

/-- A session on lines that all show something or nothing. -/
theorem session_eq {settings : Settings} {lines : List String} {textOf : String → String}
    {input : Bytes} (plain : ∀ line ∈ lines, IsLine line)
    (shows : ∀ line ∈ lines, settings.render line = .ok (textOf line))
    (cut : linesOfBytes input = lines.map Utf8.encode) :
    settings.session input = ⟨settings.eventsOfTexts (lines.map textOf), none⟩ := by
  have course : Session.ofLines settings (lines.map Utf8.encode ++ []) =
      ⟨Session.eventsOf settings lines, none⟩ :=
    Session.ofLines_append settings (fun line is => (plain line is).solid) nofun
  have told : ∀ line ∈ lines, Session.told settings line =
      if textOf line = "" then [] else [.out (textOf line ++ "\n")] := by
    intro line is
    rw [Session.told, shows line is]
  have events : Session.eventsOf settings lines = settings.eventsOfTexts (lines.map textOf) := by
    simp only [Session.eventsOf, eventsOfTexts, List.flatMap_def, List.map_map]
    rw [List.map_congr_left fun line is => by rw [told line is]]
    rfl
  rw [session, cut, ← events, ← course, List.append_nil]

end Settings

/-- The prompt and a script agree. Of lines that are each a program of their own, a session under
settings that show programs tells of no failure, whether the last line ends in a newline or not; and
the script of the lines joined by newlines shows the texts that the session wrote, those that are
not empty, joined by newlines. -/
theorem session_agrees_with_script {settings : Settings} {lines : List String}
    (ast : settings.emit = .ast) (unlimited : settings.maxSourceBytes = none)
    (plain : ∀ line ∈ lines, IsLine line)
    (accepted : ∀ line ∈ lines, ∃ program, readProgram line = .ok program) :
    ∃ texts : List String, lines.mapM settings.render = .ok texts ∧
      (∀ input, input = Utf8.encode ("\n".intercalate lines) ∨
          input = (lines.flatMap fun line => Utf8.encode line ++ [10]) →
        settings.session input = ⟨settings.eventsOfTexts texts, none⟩ ∧
          ∀ f, .failure f ∉ (settings.session input).events) ∧
      settings.render ("\n".intercalate lines) = .ok ("\n".intercalate (texts.filter (· ≠ ""))) ∧
      settings.renderFile (.ok (Utf8.encode ("\n".intercalate lines))) =
        .ok ("\n".intercalate (texts.filter (· ≠ ""))) := by
  let programOf (line : String) : List Stmt := (parse (scan line).tokens).statements
  have read : ∀ line ∈ lines, readProgram line = .ok (programOf line) := by
    intro line is
    obtain ⟨program, read⟩ := accepted line is
    rw [read, ← (readProgram_ok read).2.2]
  have shows : ∀ line ∈ lines, settings.render line = .ok (programText (programOf line)) :=
    fun line is => Settings.render_program ast unlimited (read line is)
  obtain ⟨program, whole, texts⟩ := readProgram_intercalate read
  have joined : settings.render ("\n".intercalate lines) =
      .ok ("\n".intercalate ((lines.map (programText ∘ programOf)).filter (· ≠ ""))) := by
    rw [Settings.render_program ast unlimited whole, programText_flatten texts, List.map_map]
  refine ⟨lines.map (programText ∘ programOf), mapM_eq_ok shows, ?_, joined, ?_⟩
  · intro input fed
    have cut : linesOfBytes input = lines.map Utf8.encode := by
      rcases fed with rfl | rfl
      · exact IsLine.linesOfBytes_intercalate plain
      · exact IsLine.linesOfBytes_terminated plain
    have course := Settings.session_eq plain shows cut
    refine ⟨course, fun f => ?_⟩
    rw [course]
    exact Settings.failure_not_mem_eventsOfTexts _ f
  · have text : FileContent.text (.ok (Utf8.encode ("\n".intercalate lines))) =
        .ok ("\n".intercalate lines) := by
      rw [FileContent.text, Utf8.decode_eq_ok_iff.mpr rfl]
    rw [Settings.renderFile, text]
    exact joined

/-- An `if` that the next line could go on, a line that shows nothing, and two statements. -/
def commented : List String := ["if (a) b;", "// nothing", "var x = 1 + 2; print x;"]

theorem session_agrees_with_script_commented :
    (∀ line ∈ commented, IsLine line) ∧
      (∀ line ∈ commented, ∃ program, readProgram line = .ok program) ∧
      ∃ texts : List String, commented.mapM ({} : Settings).render = .ok texts ∧
        (∀ input, input = Utf8.encode ("\n".intercalate commented) ∨
            input = (commented.flatMap fun line => Utf8.encode line ++ [10]) →
          ({} : Settings).session input = ⟨({} : Settings).eventsOfTexts texts, none⟩ ∧
            ∀ f, .failure f ∉ (({} : Settings).session input).events) ∧
        ({} : Settings).render ("\n".intercalate commented) =
          .ok ("\n".intercalate (texts.filter (· ≠ ""))) ∧
        ({} : Settings).renderFile (.ok (Utf8.encode ("\n".intercalate commented))) =
          .ok ("\n".intercalate (texts.filter (· ≠ ""))) :=
  have plain : ∀ line ∈ commented, IsLine line := by
    simp only [commented, List.forall_mem_cons]
    exact ⟨⟨by decide, by decide, by decide⟩, ⟨by decide, by decide, by decide⟩,
      ⟨by decide, by decide, by decide⟩, nofun⟩
  have accepted : ∀ line ∈ commented, ∃ program, readProgram line = .ok program := by
    simp only [commented, List.forall_mem_cons]
    exact ⟨⟨_, readProgram_of_errors (by decide +kernel) (by decide +kernel)⟩,
      ⟨_, readProgram_of_errors (by decide +kernel) (by decide +kernel)⟩,
      ⟨_, readProgram_of_errors (by decide +kernel) (by decide +kernel)⟩, nofun⟩
  ⟨plain, accepted, session_agrees_with_script rfl rfl plain accepted⟩

end LoxSyntax
