import ReportAssembly.Proofs.CanonicalChunks

namespace ReportAssembly.Interpolation

/-- A reference that begins at byte `offset` is at fault, for what stands behind its opening: it is
never closed, or it is closed with nothing but blanks in it. -/
inductive FaultyFrom (kind : ReferenceKind) (offset : Nat) : List Char → ReferenceError → Prop
  | unterminated {rest : List Char} (h : '}' ∉ rest) :
      FaultyFrom kind offset rest (.unterminated kind offset)
  | empty {name more : List Char} (hclose : '}' ∉ name) (hname : Text.Blanks name) :
      FaultyFrom kind offset (name ++ '}' :: more) (.empty kind offset)

structure FaultyAt (text front : List Char) (kind : ReferenceKind) (rest : List Char)
    (e : ReferenceError) : Prop where
  split : text = front ++ kind.opener ++ rest
  front_read : ∃ chunks, parse (.ofList front) = .ok chunks
  fault : FaultyFrom kind (byteLength front) rest e

variable {kind : ReferenceKind} {c : Char} {cs front rest : List Char} {pos : Nat}
  {chunks : Interpolation} {e : ReferenceError}

theorem byteLength_opener (kind : ReferenceKind) : byteLength kind.opener = 3 := by
  cases kind <;> rfl

theorem byteLength_closed (kind : ReferenceKind) (pos : Nat) (name more : List Char) :
    pos + 3 + byteLength name + 1 + byteLength more =
      pos + byteLength (kind.opener ++ name ++ '}' :: more) := by
  have hone : '}'.utf8Size = 1 := rfl
  simp only [byteLength_append, byteLength_cons, byteLength_opener, hone]
  omega

/-- A reference at fault is read as its error. -/
theorem FaultyFrom.read (h : FaultyFrom kind pos rest e) :
    read .literal pos (kind.opener ++ rest) = .error e := by
  rw [read_opener]
  cases h with
  | unterminated hclose =>
    have hinside := read_inside kind pos hclose [] (pos + 3) []
    rw [List.append_nil] at hinside
    rw [hinside, Interpolation.read]
  | @empty name more hclose hname =>
    have htrim : Text.trimChars name = [] := Text.trimChars_eq_nil_iff.mpr hname
    rw [read_inside kind pos hclose, Interpolation.read, if_pos rfl, List.append_nil,
      List.reverse_reverse]
    simp [htrim]

/-- A reference is at fault, or it is closed behind a name. -/
theorem faulty_or_closed (kind : ReferenceKind) (pos : Nat) (cs : List Char) :
    (∃ e, FaultyFrom kind pos cs e) ∨
    ∃ name more, cs = name ++ '}' :: more ∧ '}' ∉ name ∧ Text.trimChars name ≠ [] := by
  by_cases hmem : '}' ∈ cs
  · obtain ⟨name, more, rfl, hclose⟩ := List.eq_append_cons_of_mem hmem
    by_cases hname : Text.trimChars name = []
    · exact .inl ⟨_, .empty hclose (Text.trimChars_eq_nil_iff.mp hname)⟩
    · exact .inr ⟨name, more, rfl, hclose, hname⟩
  · exact .inl ⟨_, .unterminated hmem⟩

/-- A reference that is read is the first chunk. -/
theorem head?_of_read_opener (h : read .literal pos (kind.opener ++ cs) = .ok chunks) :
    ∀ b ∈ chunks.head?, b.isText = false := by
  rw [read_opener] at h
  obtain ⟨_, _, _, _, -, -, -, -, rfl⟩ := exists_of_read_inside h
  intro b hb
  obtain rfl := Option.some.inj hb
  rfl

/-- Literal text is put in front of what is read, whatever follows that is no text. -/
theorem consChar_append {more : Interpolation} (h : ∀ b ∈ more.head?, b.isText = false)
    (c : Char) (chunks : Interpolation) :
    consChar c (chunks ++ more) = consChar c chunks ++ more := by
  cases chunks with
  | nil =>
    rw [List.nil_append]
    cases more with
    | nil => rfl
    | cons b more =>
      have hb := h b rfl
      cases b with
      | text content => exact absurd hb.symm Bool.false_ne_true
      | reference kind name => rfl
  | cons b chunks => cases b <;> rfl

/-- What is read keeps its chunks when a reference follows. -/
theorem read_append_opener (h : read .literal pos front = .ok chunks) (kind : ReferenceKind)
    (rest : List Char) :
    read .literal pos (front ++ (kind.opener ++ rest)) =
      (read .literal (pos + byteLength front) (kind.opener ++ rest)).map (chunks ++ ·) := by
  induction hlength : front.length using Nat.strong_induction_on generalizing front chunks pos with
  | h n ih =>
    subst hlength
    by_cases hopener : ∃ kind : ReferenceKind, kind.opener <+: front
    · obtain ⟨kind', ds, rfl⟩ := hopener
      have hinside := h
      rw [read_opener] at hinside
      obtain ⟨name, more, -, -, rfl, hclose, hname, -⟩ := exists_of_read_inside hinside
      rw [List.reverse_nil, List.nil_append] at hname
      have hassoc : kind'.opener ++ (name ++ '}' :: more) = kind'.opener ++ name ++ '}' :: more :=
        (List.append_assoc _ _ _).symm
      rw [hassoc] at h ih ⊢
      rw [read_reference kind' hclose hname] at h
      obtain ⟨chunks', hread, rfl⟩ := map_eq_ok h
      have hrest := ih more.length (by simp; omega) hread rfl
      have hfront : kind'.opener ++ name ++ '}' :: more ++ (kind.opener ++ rest) =
          kind'.opener ++ name ++ '}' :: (more ++ (kind.opener ++ rest)) := by simp
      rw [hfront, read_reference kind' hclose hname, hrest, byteLength_closed kind']
      cases read .literal (pos + byteLength (kind'.opener ++ name ++ '}' :: more))
        (kind.opener ++ rest) <;> rfl
    · have hliteral (kind : ReferenceKind) : ¬kind.opener <+: front :=
        fun hfront => hopener ⟨kind, hfront⟩
      cases front with
      | nil =>
        obtain rfl := Except.ok.inj h
        rw [List.nil_append, byteLength_nil, Nat.add_zero]
        cases read .literal pos (kind.opener ++ rest) <;> rfl
      | cons c cs =>
        rw [read_literal_cons hliteral] at h
        obtain ⟨chunks', hread, rfl⟩ := map_eq_ok h
        have hrest := ih cs.length (by simp) hread rfl
        have hdollar : ∀ d ∈ (kind.opener ++ rest).head?, d = '$' := by
          intro d hd
          cases kind <;> exact (Option.some.inj hd).symm
        rw [List.cons_append, read_literal_cons (opener_not_in_front hliteral hdollar), hrest,
          byteLength_cons, Nat.add_assoc]
        cases hreference : read .literal (pos + (c.utf8Size + byteLength cs))
            (kind.opener ++ rest) with
        | error e => rfl
        | ok more =>
          exact congrArg Except.ok (consChar_append (head?_of_read_opener hreference) c chunks')

/-- A text that is not read has a reference at fault behind what is read. -/
theorem exists_faulty_of_read (h : read .literal pos cs = .error e) :
    ∃ front kind rest chunks, cs = front ++ kind.opener ++ rest ∧
      read .literal pos front = .ok chunks ∧ FaultyFrom kind (pos + byteLength front) rest e := by
  induction hlength : cs.length using Nat.strong_induction_on generalizing cs pos with
  | h n ih =>
    subst hlength
    by_cases hopener : ∃ kind : ReferenceKind, kind.opener <+: cs
    · obtain ⟨kind, ds, rfl⟩ := hopener
      obtain ⟨e', hfaulty⟩ | ⟨name, more, rfl, hclose, hname⟩ := faulty_or_closed kind pos ds
      · obtain rfl := Except.error.inj (h.symm.trans hfaulty.read)
        exact ⟨[], kind, ds, [], rfl, rfl, hfaulty⟩
      · rw [← List.append_assoc, read_reference kind hclose hname] at h
        obtain ⟨front, kind', rest, chunks, rfl, hfront, hfaulty⟩ :=
          ih _ (by simp; omega) (map_eq_error h) rfl
        refine ⟨kind.opener ++ name ++ '}' :: front, kind', rest,
          .reference kind (.ofList (Text.trimChars name)) :: chunks, by simp, ?_, ?_⟩
        · rw [read_reference kind hclose hname, hfront]
          rfl
        · rwa [← byteLength_closed]
    · cases cs with
      | nil => exact nomatch h
      | cons c cs =>
        have hliteral (kind : ReferenceKind) : ¬kind.opener <+: c :: cs :=
          fun hfront => hopener ⟨kind, hfront⟩
        rw [read_literal_cons hliteral] at h
        obtain ⟨front, kind, rest, chunks, rfl, hfront, hfaulty⟩ :=
          ih cs.length (by simp) (map_eq_error h) rfl
        refine ⟨c :: front, kind, rest, consChar c chunks, rfl, ?_, ?_⟩
        · have hshort (kind' : ReferenceKind) : ¬kind'.opener <+: c :: front := by
            intro hprefix
            apply hliteral kind'
            rw [List.append_assoc, ← List.cons_append]
            exact hprefix.trans (List.prefix_append _ _)
          rw [read_literal_cons hshort, hfront]
          rfl
        · rwa [byteLength_cons, ← Nat.add_assoc]

/-- A text with a reference at fault is read as the error of the reference. -/
theorem FaultyAt.parse_eq {text : String} (h : FaultyAt text.toList front kind rest e) :
    parse text = .error e := by
  obtain ⟨hsplit, ⟨chunks, hfront⟩, hfaulty⟩ := h
  rw [parse, String.toList_ofList] at hfront
  rw [parse, hsplit, List.append_assoc, read_append_opener hfront, Nat.zero_add, hfaulty.read]
  rfl

/-- Which byte is named in an error, whatever its kind. -/
theorem FaultyFrom.offset_eq (h : FaultyFrom kind pos rest e) : e.offset = pos := by
  cases h <;> rfl

/-- A text has one first reference at fault: its error names the byte where it begins. -/
theorem FaultyAt.unique {text : String} {front' rest' : List Char} {kind' : ReferenceKind}
    {e' : ReferenceError} (h : FaultyAt text.toList front kind rest e)
    (h' : FaultyAt text.toList front' kind' rest' e') :
    front = front' ∧ kind = kind' ∧ rest = rest' ∧ e = e' := by
  obtain rfl := Except.error.inj (h.parse_eq.symm.trans h'.parse_eq)
  have hlength : byteLength front = byteLength front' :=
    h.fault.offset_eq.symm.trans h'.fault.offset_eq
  have hsplit := h.split.symm.trans h'.split
  rw [List.append_assoc, List.append_assoc] at hsplit
  obtain ⟨rfl, hbehind⟩ := append_inj_of_byteLength hsplit hlength
  cases kind <;> cases kind' <;> simp_all [ReferenceKind.opener]

/-- A text that is not read has a reference at fault. -/
theorem exists_faultyAt_of_parse {text : String} (h : parse text = .error e) :
    ∃ front kind rest, FaultyAt text.toList front kind rest e := by
  obtain ⟨front, kind, rest, chunks, hsplit, hfront, hfaulty⟩ := exists_faulty_of_read h
  rw [Nat.zero_add] at hfaulty
  exact ⟨front, kind, rest, hsplit, ⟨chunks, by rwa [parse, String.toList_ofList]⟩, hfaulty⟩

end ReportAssembly.Interpolation
