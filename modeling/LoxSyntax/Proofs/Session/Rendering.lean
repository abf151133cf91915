import LoxSyntax.Proofs.Text.Utf8
import LoxSyntax.Session

namespace LoxSyntax

/-- The file is there, and holds this text. -/
def FileContent.Reads (content : FileContent) (source : String) : Prop :=
  content = .ok (Utf8.encode source)

namespace FileContent

end FileContent

namespace Settings

/-- The source is not past the limit. -/
def Admits (settings : Settings) (source : String) : Prop :=
  ∀ limit ∈ settings.maxSourceBytes, source.utf8ByteSize ≤ limit

theorem checkSize_of_admits {settings : Settings} {source : String}
    (admitted : settings.Admits source) : settings.checkSize source = .ok () := by
  unfold checkSize
  split
  next limit sized => rw [if_neg (Nat.not_lt.mpr (admitted limit sized))]
  · rfl

theorem checkSize_of_not_admits {settings : Settings} {source : String}
    (large : ¬ settings.Admits source) :
    ∃ size limit, settings.checkSize source = .error (.tooLarge size limit) := by
  unfold checkSize
  cases sized : settings.maxSourceBytes with
  | none => exact absurd (by simp [Admits, sized]) large
  | some limit =>
    have beyond : limit < source.utf8ByteSize :=
      Nat.lt_of_not_le fun within => large (by simpa [Admits, sized] using within)
    exact ⟨_, _, if_pos beyond⟩

/-- Within the limit, the mode says what is shown. -/
theorem render_of_admits {settings : Settings} {source : String}
    (admitted : settings.Admits source) :
    settings.render source =
      match settings.emit with
      | .tokens =>
        if (scan source).errors = [] then
          .ok ("\n".intercalate ((scan source).tokens.map Token.text))
        else .error (.source ⟨(scan source).errors, []⟩)
      | .ast =>
        match readProgram source with
        | .ok program => .ok (programText program)
        | .error diagnostics => .error (.source diagnostics) := by
  unfold render
  rw [checkSize_of_admits admitted]
  simp only [List.isEmpty_iff]
  rfl

theorem render_of_not_admits {settings : Settings} {source : String}
    (large : ¬ settings.Admits source) :
    ∃ size limit, settings.render source = .error (.tooLarge size limit) := by
  obtain ⟨size, limit, refused⟩ := checkSize_of_not_admits large
  refine ⟨size, limit, ?_⟩
  rw [render, refused]
  rfl

/-- Only what is wrong with a source keeps it from being shown. -/
theorem render_error {settings : Settings} {source : String} {f : Failure}
    (h : settings.render source = .error f) :
    (∃ diagnostics, f = .source diagnostics) ∨ ∃ size limit, f = .tooLarge size limit := by
  by_cases admitted : settings.Admits source
  · rw [render_of_admits admitted] at h
    refine .inl ?_
    split at h
    · split at h
      · cases h
      · exact ⟨_, (Except.error.inj h).symm⟩
    · split at h
      · cases h
      · exact ⟨_, (Except.error.inj h).symm⟩
  · obtain ⟨size, limit, refused⟩ := render_of_not_admits admitted
    exact .inr ⟨size, limit, Except.error.inj (h.symm.trans refused)⟩

end Settings

end LoxSyntax
