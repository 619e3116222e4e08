import Mathlib.Data.List.Basic
import ReportAssembly.Interpolation
import ReportAssembly.Proofs.Trimming

namespace ReportAssembly.Interpolation

theorem map_eq_ok {α β ε : Type} {x : Except ε α} {f : α → β} {b : β} (h : x.map f = .ok b) :
    ∃ a, x = .ok a ∧ f a = b := by
  cases x with
  | error e => exact nomatch h
  | ok a => exact ⟨a, rfl, Except.ok.inj h⟩

theorem map_eq_error {α β ε : Type} {x : Except ε α} {f : α → β} {e : ε}
    (h : x.map f = .error e) : x = .error e := by
  cases x with
  | error e' => exact congrArg _ (Except.error.inj h)
  | ok a => exact nomatch h

/-- The name of a reference goes on up to a closing brace. -/
theorem read_inside (kind : ReferenceKind) (offset : Nat) {cs : List Char} (h : '}' ∉ cs)
    (name : List Char) (pos : Nat) (rest : List Char) :
    read (.inside kind offset name) pos (cs ++ rest) =
      read (.inside kind offset (cs.reverse ++ name)) (pos + byteLength cs) rest := by
  induction cs generalizing name pos with
  | nil => rfl
  | cons c cs ih =>
    obtain ⟨hc, hcs⟩ := not_or.mp (mt List.mem_cons.mpr h)
    rw [List.cons_append, read, if_neg (Ne.symm hc), ih hcs, byteLength_cons,
      List.reverse_cons, List.append_assoc, List.singleton_append, Nat.add_assoc]

/-- A reference is read up to its first closing brace, without the blanks around its name. -/
theorem read_reference (kind : ReferenceKind) {cs : List Char} (h : '}' ∉ cs)
    (hne : Text.trimChars cs ≠ []) (pos : Nat) (rest : List Char) :
    read .literal pos (kind.opener ++ cs ++ '}' :: rest) =
      (read .literal (pos + 3 + byteLength cs + 1) rest).map
        (.reference kind (.ofList (Text.trimChars cs)) :: ·) := by
  have hopen : read .literal pos (kind.opener ++ cs ++ '}' :: rest) =
      read (.inside kind pos []) (pos + 3) (cs ++ '}' :: rest) := by
    cases kind <;> rfl
  rw [hopen, read_inside kind pos h, read, if_pos rfl]
  simp [hne]

/-- The reference to an identifier is one chunk and nothing else. -/
theorem parse_parameterReference {name : String} (h : isIdentifier name = true) :
    parse (parameterReference name) = .ok [.reference .parameter name] := by
  have hbrace : '}' ∉ name.toList := fun hmem =>
    absurd (isWordPart_of_isIdentifier h _ hmem) (by decide)
  have htrim : Text.trimChars name.toList = name.toList := trimChars_of_isIdentifier h
  have hne : Text.trimChars name.toList ≠ [] := by
    rw [htrim]
    exact toList_ne_nil_of_isIdentifier h
  have htext : (parameterReference name).toList =
      ReferenceKind.opener .parameter ++ name.toList ++ ['}'] := by
    simp [parameterReference, ReferenceKind.opener]
  rw [parse, htext, read_reference .parameter hbrace hne, htrim, String.ofList_toList, read]
  rfl

theorem mem_references_iff {kind : ReferenceKind} {chunks : Interpolation} {n : String} :
    n ∈ chunks.references kind ↔ .reference kind n ∈ chunks := by
  rw [references, List.mem_filterMap]
  constructor
  · rintro ⟨c, hc, hn⟩
    cases c with
    | text content => exact nomatch hn
    | reference k name =>
      dsimp only at hn
      split_ifs at hn with hk
      obtain rfl := Option.some.inj hn
      exact hk ▸ hc
  · intro h
    exact ⟨_, h, if_pos rfl⟩

theorem mem_of_meaningful_eq {chunks : Interpolation} {c : Chunk} (h : chunks.meaningful = [c]) :
    c ∈ chunks := by
  have hmem : c ∈ chunks.meaningful := by
    rw [h]
    exact List.mem_singleton_self c
  exact List.mem_of_mem_filter hmem

theorem name_unique {chunks : Interpolation} {n m : String}
    (hn : chunks.meaningful = [.reference .parameter n])
    (hm : chunks.meaningful = [.reference .parameter m]) : n = m := by
  have hchunk : Chunk.reference .parameter n = .reference .parameter m :=
    List.singleton_injective (hn.symm.trans hm)
  exact (Chunk.reference.inj hchunk).2

/-- One reference and blanks are read as the reference alone. -/
theorem asReference?_eq_some_iff {kind : ReferenceKind} {chunks : Interpolation} {n : String} :
    chunks.asReference? kind = some n ↔ chunks.meaningful = [.reference kind n] := by
  constructor
  · intro h
    unfold asReference? at h
    split at h
    · next k name hone =>
      split_ifs at h with hk
      rw [hone, hk, Option.some.inj h]
    · exact nomatch h
  · intro h
    rw [asReference?, h]
    exact if_pos rfl

end ReportAssembly.Interpolation
