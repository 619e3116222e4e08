import Mathlib.Data.List.TakeWhile
import ReportAssembly.Design.Token
import ReportAssembly.Text.Blank

namespace ReportAssembly.Text

def Blanks (cs : List Char) : Prop :=
  ∀ c ∈ cs, isBlank c = true

/-- Blanks at the end are dropped with those before them. -/
theorem trimRight_append {cs ds : List Char} (hd : Blanks ds) :
    trimRight (cs ++ ds) = trimRight cs := by
  unfold trimRight
  rw [List.reverse_append, List.dropWhile_append_of_pos]
  intro c hc
  exact hd c (List.mem_reverse.mp hc)

/-- Blanks at the ends make no difference. -/
theorem trimChars_append {as cs ds : List Char} (ha : Blanks as) (hd : Blanks ds) :
    trimChars (as ++ cs ++ ds) = trimChars cs := by
  unfold trimChars
  rw [List.append_assoc, List.dropWhile_append_of_pos ha, List.dropWhile_append]
  split
  · next h =>
    have hcs : cs.dropWhile isBlank = [] := List.isEmpty_iff.mp h
    have hds : ds.dropWhile isBlank = [] := List.dropWhile_eq_nil_iff.mpr hd
    rw [hcs, hds]
  · exact trimRight_append hd

/-- A text is its trimmed form with blanks around it. -/
theorem exists_blanks_around (cs : List Char) :
    ∃ as ds, Blanks as ∧ Blanks ds ∧ cs = as ++ trimChars cs ++ ds := by
  have hr (xs : List Char) : xs = trimRight xs ++ (xs.reverse.takeWhile isBlank).reverse := by
    unfold trimRight
    rw [← List.reverse_append, List.takeWhile_append_dropWhile, List.reverse_reverse]
  refine ⟨cs.takeWhile isBlank, ((cs.dropWhile isBlank).reverse.takeWhile isBlank).reverse,
    ?_, ?_, ?_⟩
  · intro c hc
    exact List.all_eq_true.mp List.all_takeWhile c hc
  · intro c hc
    exact List.all_eq_true.mp List.all_takeWhile c (List.mem_reverse.mp hc)
  · unfold trimChars
    rw [List.append_assoc, ← hr, List.takeWhile_append_dropWhile]

/-- Blanks are dropped to the last. -/
theorem trimChars_eq_nil_iff {cs : List Char} : trimChars cs = [] ↔ Blanks cs := by
  constructor
  · intro h
    obtain ⟨as, ds, has, hds, hcs⟩ := exists_blanks_around cs
    rw [h, List.append_nil] at hcs
    rw [hcs]
    exact List.forall_mem_append.mpr ⟨has, hds⟩
  · intro h
    have hnil : Blanks [] := fun _ hc => nomatch hc
    have htrim : trimChars (cs ++ [] ++ []) = trimChars [] := trimChars_append h hnil
    rwa [List.append_nil, List.append_nil] at htrim

/-- Nothing is dropped between two characters that are not blank. -/
theorem trimChars_eq_self {cs : List Char} (hh : ∀ c ∈ cs.head?, isBlank c = false)
    (hl : ∀ c ∈ cs.getLast?, isBlank c = false) : trimChars cs = cs := by
  have hd (xs : List Char) (h : ∀ c ∈ xs.head?, isBlank c = false) :
      xs.dropWhile isBlank = xs := by
    cases xs with
    | nil => rfl
    | cons c xs => rw [List.dropWhile_cons, h c rfl]; rfl
  unfold trimChars trimRight
  rw [hd cs hh, hd cs.reverse (by rwa [List.head?_reverse]), List.reverse_reverse]

structure Trimmed (cs : List Char) : Prop where
  first : ∀ c ∈ cs.head?, isBlank c = false
  last : ∀ c ∈ cs.getLast?, isBlank c = false

theorem Trimmed.trimChars_eq {cs : List Char} (h : Trimmed cs) : trimChars cs = cs :=
  trimChars_eq_self h.first h.last

/-- What is trimmed has no blanks at its ends. -/
theorem trimmed_trimChars (cs : List Char) : Trimmed (trimChars cs) := by
  have hdrop (xs : List Char) : ∀ c ∈ (xs.dropWhile isBlank).head?, isBlank c = false := by
    intro c hc
    have hfirst := List.head?_dropWhile_not isBlank xs
    rwa [Option.mem_def.mp hc] at hfirst
  constructor
  case first =>
    intro c hc
    obtain ⟨ds, hds⟩ : trimChars cs <+: cs.dropWhile isBlank := by
      have hsuffix := List.dropWhile_suffix isBlank (l := (cs.dropWhile isBlank).reverse)
      have hprefix := List.reverse_prefix.mpr hsuffix
      rwa [List.reverse_reverse] at hprefix
    apply hdrop cs
    rw [← hds, List.head?_append, Option.mem_def.mp hc]
    rfl
  case last =>
    intro c hc
    apply hdrop (cs.dropWhile isBlank).reverse
    rwa [trimChars, trimRight, List.getLast?_reverse] at hc

theorem mem_of_mem_trimChars {c : Char} {cs : List Char} (h : c ∈ trimChars cs) : c ∈ cs := by
  obtain ⟨as, ds, -, -, hcs⟩ := exists_blanks_around cs
  rw [hcs]
  exact List.mem_append_left _ (List.mem_append_right _ h)

theorem trimChars_eq_self_of_forall {cs : List Char} (h : ∀ c ∈ cs, isBlank c = false) :
    trimChars cs = cs :=
  trimChars_eq_self (fun c hc => h c (List.mem_of_mem_head? hc))
    (fun c hc => h c (List.mem_of_getLast? hc))

end ReportAssembly.Text

namespace ReportAssembly

/-- The characters of words by their numbers. -/
theorem isWordPart_iff (c : Char) :
    isWordPart c = true ↔ (65 ≤ c.toNat ∧ c.toNat ≤ 90) ∨ (97 ≤ c.toNat ∧ c.toNat ≤ 122) ∨
      (48 ≤ c.toNat ∧ c.toNat ≤ 57) ∨ c.toNat = 95 := by
  have hupper : c.isUpper = true ↔ 65 ≤ c.toNat ∧ c.toNat ≤ 90 := decide_eq_true_iff
  have hlower : c.isLower = true ↔ 97 ≤ c.toNat ∧ c.toNat ≤ 122 :=
    Bool.and_eq_true_iff.trans (and_congr decide_eq_true_iff decide_eq_true_iff)
  have hdigit : c.isDigit = true ↔ 48 ≤ c.toNat ∧ c.toNat ≤ 57 :=
    Bool.and_eq_true_iff.trans (and_congr decide_eq_true_iff decide_eq_true_iff)
  have hunderscore : (c == '_') = true ↔ c.toNat = 95 := by
    rw [beq_iff_eq]
    exact Char.toNat_inj.symm
  have hpart : isWordPart c = (((c.isUpper || c.isLower) || c.isDigit) || c == '_') := rfl
  rw [hpart, Bool.or_eq_true, Bool.or_eq_true, Bool.or_eq_true, hupper, hlower, hdigit,
    hunderscore, or_assoc, or_assoc]

theorem isBlank_eq_false_of_isWordPart {c : Char} (h : isWordPart c = true) :
    Text.isBlank c = false := by
  have hc := (isWordPart_iff c).mp h
  simp only [Text.isBlank, Bool.or_eq_false_iff, Bool.and_eq_false_iff, decide_eq_false_iff_not,
    beq_eq_false_iff_ne]
  omega

theorem isWordPart_of_isWordStart {c : Char} (h : isWordStart c = true) : isWordPart c = true := by
  simp only [isWordStart, isWordPart, Char.isAlphanum, Bool.or_eq_true] at h ⊢
  exact h.imp_left Or.inl

/-- An identifier is a word. -/
theorem isWordPart_of_isIdentifier {s : String} (h : isIdentifier s = true) :
    ∀ c ∈ s.toList, isWordPart c = true := by
  unfold isIdentifier at h
  split at h
  · exact absurd h Bool.false_ne_true
  · next c cs hs =>
    simp only [Bool.and_eq_true] at h
    rw [hs]
    intro d hd
    rcases List.mem_cons.mp hd with rfl | hd
    · exact isWordPart_of_isWordStart h.1.1
    · exact List.all_eq_true.mp h.1.2 d hd

theorem toList_ne_nil_of_isIdentifier {s : String} (h : isIdentifier s = true) :
    s.toList ≠ [] := by
  intro hs
  rw [isIdentifier, hs] at h
  exact Bool.false_ne_true h

/-- Trimming leaves an identifier as it is. -/
theorem trimChars_of_isIdentifier {s : String} (h : isIdentifier s = true) :
    Text.trimChars s.toList = s.toList :=
  Text.trimChars_eq_self_of_forall fun c hc =>
    isBlank_eq_false_of_isWordPart (isWordPart_of_isIdentifier h c hc)

end ReportAssembly
