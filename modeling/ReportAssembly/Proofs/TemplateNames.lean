import ReportAssembly.Placeholder.Basic
import ReportAssembly.Placeholder.Reference
import ReportAssembly.Proofs.Trimming

namespace ReportAssembly

/-- An identifier in double quotes, with blanks on either side of each quote. -/
def Quotes (expression name : String) : Prop :=
  ∃ as bs cs ds : List Char,
    Text.Blanks as ∧ Text.Blanks bs ∧ Text.Blanks cs ∧ Text.Blanks ds ∧
    expression.toList = as ++ '"' :: (bs ++ name.toList ++ cs) ++ '"' :: ds ∧
    isIdentifier name = true

/-- A text stands between quotes exactly if it begins and ends with one. -/
theorem betweenQuotes?_eq_some_iff (cs inner : List Char) :
    betweenQuotes? cs = some inner ↔ cs = '"' :: (inner ++ ['"']) := by
  constructor
  · intro h
    unfold betweenQuotes? at h
    split at h
    · next cs =>
      split at h
      · next hl =>
        obtain ⟨front, rfl⟩ := List.getLast?_eq_some_iff.mp hl
        rw [List.dropLast_concat] at h
        rw [Option.some.inj h]
      · exact nomatch h
    · exact nomatch h
  · rintro rfl
    simp [betweenQuotes?]

theorem trimChars_quoted (as inner ds : List Char) (ha : Text.Blanks as) (hd : Text.Blanks ds) :
    Text.trimChars (as ++ '"' :: inner ++ '"' :: ds) = '"' :: (inner ++ ['"']) := by
  have hs : as ++ '"' :: inner ++ '"' :: ds = as ++ ('"' :: (inner ++ ['"'])) ++ ds := by simp
  have hq : Text.isBlank '"' = false := by decide
  rw [hs, Text.trimChars_append ha hd]
  apply Text.trimChars_eq_self
  · intro c hc
    rw [← Option.some.inj hc]
    exact hq
  · intro c hc
    rw [← List.cons_append, List.getLast?_concat] at hc
    rw [← Option.some.inj hc]
    exact hq

/-- The name is read exactly from its quoted forms. -/
theorem templateName_eq_ok_iff (expression name : String) :
    templateName expression = .ok name ↔ Quotes expression name := by
  constructor
  · intro h
    unfold templateName at h
    split at h
    · exact nomatch h
    · next inner hi =>
      obtain ⟨as, ds, ha, hd, he⟩ := Text.exists_blanks_around expression.toList
      obtain ⟨bs, cs, hb, hc, hin⟩ := Text.exists_blanks_around inner
      rw [(betweenQuotes?_eq_some_iff _ inner).mp hi] at he
      dsimp only at h
      split_ifs at h with hempty hident
      obtain rfl := Except.ok.inj h
      rw [readsBack_eq_isIdentifier] at hident
      refine ⟨as, bs, cs, ds, ha, hb, hc, hd, ?_, hident⟩
      rw [he, String.toList_ofList, ← hin]
      simp
  · rintro ⟨as, bs, cs, ds, ha, hb, hc, hd, he, hident⟩
    have hne : name.toList ≠ [] := toList_ne_nil_of_isIdentifier hident
    have hbetween : betweenQuotes? (Text.trimChars expression.toList) =
        some (bs ++ name.toList ++ cs) := by
      rw [he, trimChars_quoted _ _ _ ha hd]
      exact (betweenQuotes?_eq_some_iff _ _).mpr rfl
    have hname : Text.trimChars (bs ++ name.toList ++ cs) = name.toList := by
      rw [Text.trimChars_append hb hc, trimChars_of_isIdentifier hident]
    unfold templateName
    rw [hbetween]
    dsimp only
    rw [hname, String.ofList_toList, readsBack_eq_isIdentifier, if_neg (by simpa using hne),
      if_pos hident]

/-- Only identifiers are quoted as names. -/
theorem Quotes.isIdentifier {expression name : String} (h : Quotes expression name) :
    isIdentifier name = true := by
  obtain ⟨_, _, _, _, _, _, _, _, _, hname⟩ := h
  exact hname

def Placeholder.name? (p : Placeholder) : Option String :=
  (ReportAssembly.templateName p.expression).toOption

theorem Placeholder.name?_eq_some_iff (p : Placeholder) (name : String) :
    p.name? = some name ↔ Quotes p.expression name := by
  rw [← templateName_eq_ok_iff, Placeholder.name?]
  cases ReportAssembly.templateName p.expression <;> simp [Except.toOption]

def Design.references (d : Design) : List String :=
  d.placeholders.filterMap Placeholder.name?

def Design.Quoted (d : Design) : Prop :=
  ∀ p ∈ d.placeholders, ∃ name, Quotes p.expression name

/-- A design refers to the names that its placeholders quote. -/
theorem Design.mem_references_iff (d : Design) (name : String) :
    name ∈ d.references ↔ ∃ p ∈ d.placeholders, Quotes p.expression name := by
  simp only [Design.references, List.mem_filterMap, Placeholder.name?_eq_some_iff]

end ReportAssembly
