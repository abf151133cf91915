import LoxSyntax.Proofs.Parse.Relabelling
import LoxSyntax.Proofs.Print.Tree

namespace LoxSyntax

/-- Tokens are replaced by others that are spelled alike. -/
def SpelledAlike (f : Token → Token) : Prop := ∀ t, (f t).lexeme = t.lexeme

mutual

/-- The text shows of a token only how it is spelled. -/
theorem Expr.text_relabel {f : Token → Token} (alike : SpelledAlike f) (e : Expr) :
    (e.relabel f).text = e.text :=
  match e with
  | .assign _ value => by simp only [relabel, text, alike _, value.text_relabel alike]
  | .binary left _ right | .logical left _ right => by
    simp only [relabel, text, alike _, left.text_relabel alike, right.text_relabel alike]
  | .call callee _ arguments => by
    simp only [relabel, text, callee.text_relabel alike, texts_relabelAll alike arguments]
  | .get object _ => by simp only [relabel, text, alike _, object.text_relabel alike]
  | .grouping inner => by
    have own : (inner.relabel f).isParenthesized = inner.isParenthesized := by cases inner <;> rfl
    simp only [relabel, text, own, inner.text_relabel alike]
  | .set object _ value => by
    simp only [relabel, text, alike _, object.text_relabel alike, value.text_relabel alike]
  | .unary _ right => by simp only [relabel, text, alike _, right.text_relabel alike]
  | .super .. | .reference _ => by simp only [relabel, text, alike _]
  | .constant _ | .this _ => rfl

theorem Expr.texts_relabelAll {f : Token → Token} (alike : SpelledAlike f) (es : List Expr) :
    texts (relabelAll f es) = texts es :=
  match es with
  | [] => rfl
  | e :: es => by simp only [relabelAll, texts, e.text_relabel alike, texts_relabelAll alike es]

end

mutual

theorem Stmt.text_relabel {f : Token → Token} (alike : SpelledAlike f) (s : Stmt) :
    (s.relabel f).text = s.text :=
  match s with
  | .block body => by simp only [relabel, text, texts_relabelAll alike body]
  | .classDecl _ none methods => by
    simp only [relabel, text, Option.map, alike _, methodTexts_relabel alike methods]
  | .classDecl _ (some _) methods => by
    simp only [relabel, text, Option.map, alike _, methodTexts_relabel alike methods]
  | .expression value | .print value => by simp only [relabel, text, value.text_relabel alike]
  | .function decl => by simp only [relabel, text, functionText_relabel alike decl]
  | .ifElse condition thenBranch none => by
    simp only [relabel, text, condition.text_relabel alike, thenBranch.text_relabel alike]
  | .ifElse condition thenBranch (some elseBranch) => by
    simp only [relabel, text, condition.text_relabel alike, thenBranch.text_relabel alike,
      elseBranch.text_relabel alike]
  | .ret _ none => rfl
  | .varDecl _ none => by simp only [relabel, text, Option.map, alike _]
  | .ret _ (some value) | .varDecl _ (some value) => by
    simp only [relabel, text, Option.map, alike _, value.text_relabel alike]
  | .whileLoop condition body => by
    simp only [relabel, text, condition.text_relabel alike, body.text_relabel alike]

theorem Stmt.texts_relabelAll {f : Token → Token} (alike : SpelledAlike f) (ss : List Stmt) :
    texts (relabelAll f ss) = texts ss :=
  match ss with
  | [] => rfl
  | s :: ss => by simp only [relabelAll, texts, s.text_relabel alike, texts_relabelAll alike ss]

theorem Stmt.functionText_relabel {f : Token → Token} (alike : SpelledAlike f) (decl : Function) :
    functionText (relabelFunction f decl) = functionText decl :=
  match decl with
  | ⟨_, params, body⟩ => by
    have names : (params.map f).map (·.lexeme) = params.map (·.lexeme) := by
      rw [List.map_map]
      exact List.map_congr_left fun t _ => alike t
    simp only [relabelFunction, functionText, alike _, names, texts_relabelAll alike body]

theorem Stmt.methodTexts_relabel {f : Token → Token} (alike : SpelledAlike f) (ms : List Function) :
    methodTexts (relabelMethods f ms) = methodTexts ms :=
  match ms with
  | [] => rfl
  | m :: ms => by
    simp only [relabelMethods, methodTexts, functionText_relabel alike m,
      methodTexts_relabel alike ms]

end

theorem braced_ne_empty (parts : List String) : braced parts ≠ "" := by
  unfold braced
  split <;> simp

/-- Every statement has a text. -/
theorem Stmt.text_ne_empty (s : Stmt) : s.text ≠ "" := by
  cases s with
  | block body => exact braced_ne_empty _
  | ifElse _ _ elseBranch | ret _ elseBranch | varDecl _ elseBranch =>
    cases elseBranch <;> simp [Stmt.text]
  | _ => simp [Stmt.text]

theorem intercalate_ne_empty (separator : String) {parts : List String} (some : parts ≠ [])
    (solid : ∀ part ∈ parts, part ≠ "") : separator.intercalate parts ≠ "" := by
  cases parts with
  | nil => exact absurd rfl some
  | cons part parts =>
    obtain ⟨first, -⟩ := List.forall_mem_cons.mp solid
    cases parts with
    | nil => rwa [String.intercalate_singleton]
    | cons next parts => simp [String.intercalate_cons_cons, first]

/-- Parts may be joined group by group, if groups of no parts are left out. -/
theorem intercalate_flatten (separator : String) (groups : List (List String))
    (solid : ∀ parts ∈ groups, ∀ part ∈ parts, part ≠ "") :
    separator.intercalate groups.flatten =
      separator.intercalate ((groups.map separator.intercalate).filter (· ≠ "")) := by
  induction groups with
  | nil => rfl
  | cons parts groups ih =>
    obtain ⟨first, others⟩ := List.forall_mem_cons.mp solid
    have later := ih others
    rcases Decidable.em (parts = []) with rfl | some
    · rw [List.flatten_cons, List.nil_append, later, List.map_cons, String.intercalate_nil,
        List.filter_cons_of_neg (by simp)]
    have whole := intercalate_ne_empty separator some first
    rw [List.flatten_cons, List.map_cons, List.filter_cons_of_pos (by simpa using whole)]
    rcases Decidable.em (groups.flatten = []) with none | more
    · have nothing : (groups.map separator.intercalate).filter (· ≠ "") = [] := by
        rw [List.filter_eq_nil_iff]
        intro text inside
        obtain ⟨parts', is, rfl⟩ := List.mem_map.mp inside
        rw [List.flatten_eq_nil_iff.mp none parts' is]
        simp
      rw [none, nothing, List.append_nil, String.intercalate_singleton]
    · have rest : (groups.map separator.intercalate).filter (· ≠ "") ≠ [] := by
        intro none
        rw [none, String.intercalate_nil] at later
        refine intercalate_ne_empty separator more (fun part is => ?_) later
        obtain ⟨parts', inside, is⟩ := List.mem_flatten.mp is
        exact others parts' inside part is
      rw [String.intercalate_append_of_ne_nil some more, String.intercalate_cons_of_ne_nil rest,
        later]

/-- The text of programs one behind another, whose tokens may have been moved. -/
theorem programText_flatten {program : List Stmt} {programs : List (List Stmt)}
    (texts : program.map Stmt.text = programs.flatMap (·.map Stmt.text)) :
    programText program =
      "\n".intercalate ((programs.map programText).filter (· ≠ "")) := by
  have solid : ∀ parts ∈ programs.map (·.map Stmt.text), ∀ part ∈ parts, part ≠ "" := by
    simp only [List.forall_mem_map]
    exact fun _ _ s _ => s.text_ne_empty
  have same : programs.map programText = (programs.map (·.map Stmt.text)).map "\n".intercalate := by
    rw [List.map_map]
    exact List.map_congr_left fun p _ => congrArg _ (Stmt.texts_eq_map p)
  rw [programText, Stmt.texts_eq_map, texts, same, List.flatMap_def,
    intercalate_flatten _ _ solid]

end LoxSyntax
