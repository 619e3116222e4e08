import ReportAssembly.Proofs.FaultyReferences

namespace ReportAssembly

/-- The text in two parts of which the first has `n` bytes, unless it has fewer bytes than that or
the cut goes through a character. -/
def cutAt? : Nat → List Char → Option (List Char × List Char)
  | 0, cs => some ([], cs)
  | _ + 1, [] => none
  | n + 1, c :: cs =>
    if c.utf8Size ≤ n + 1 then
      (cutAt? (n + 1 - c.utf8Size) cs).map fun parts => (c :: parts.1, parts.2)
    else none

def slice? (start stop : Nat) (cs : List Char) : Option (List Char) :=
  if start ≤ stop then do
    let (_, tail) ← cutAt? start cs
    let (inner, _) ← cutAt? (stop - start) tail
    return inner
  else none

/-- Cuts can be made between characters and nowhere else. -/
theorem cutAt?_eq_some_iff {n : Nat} {cs as bs : List Char} :
    cutAt? n cs = some (as, bs) ↔ cs = as ++ bs ∧ byteLength as = n := by
  fun_induction cutAt? n cs generalizing as with
  | case1 cs =>
    constructor
    · intro h
      obtain ⟨rfl, rfl⟩ := Prod.mk.inj (Option.some.inj h)
      exact ⟨rfl, rfl⟩
    · rintro ⟨rfl, has⟩
      cases as with
      | nil => rfl
      | cons a as =>
        have hpos := a.utf8Size_pos
        simp only [byteLength_cons] at has
        omega
  | case2 n =>
    constructor
    · intro h
      exact nomatch h
    · rintro ⟨h, has⟩
      obtain ⟨rfl, rfl⟩ := List.append_eq_nil_iff.mp h.symm
      exact nomatch has
  | case3 n c cs hle ih =>
    rw [Option.map_eq_some_iff]
    constructor
    · rintro ⟨⟨as', bs'⟩, hcut, heq⟩
      obtain ⟨rfl, rfl⟩ := Prod.mk.inj heq
      obtain ⟨rfl, hlength⟩ := ih.mp hcut
      exact ⟨rfl, by rw [byteLength_cons, hlength]; omega⟩
    · rintro ⟨h, has⟩
      cases as with
      | nil => exact nomatch has
      | cons a as =>
        obtain ⟨rfl, rfl⟩ := List.cons.inj h
        rw [byteLength_cons] at has
        exact ⟨(as, bs), ih.mpr ⟨rfl, by omega⟩, rfl⟩
  | case4 n c cs hgt =>
    constructor
    · intro h
      exact nomatch h
    · rintro ⟨h, has⟩
      cases as with
      | nil => exact nomatch has
      | cons a as =>
        obtain ⟨rfl, rfl⟩ := List.cons.inj h
        rw [byteLength_cons] at has
        omega

theorem cutAt?_append {n : Nat} {as : List Char} (h : byteLength as = n) (bs : List Char) :
    cutAt? n (as ++ bs) = some (as, bs) :=
  cutAt?_eq_some_iff.mpr ⟨rfl, h⟩

theorem slice?_append {start stop : Nat} {as bs : List Char} (has : byteLength as = start)
    (hbs : start + byteLength bs = stop) (cs : List Char) :
    slice? start stop (as ++ bs ++ cs) = some bs := by
  have hcut : cutAt? (stop - start) (bs ++ cs) = some (bs, cs) := cutAt?_append (by omega) cs
  rw [slice?, if_pos (by omega), List.append_assoc, cutAt?_append has]
  simp [hcut]

namespace Interpolation

def closingAt? (cs : List Char) : Option Nat :=
  if '}' ∈ cs then some (byteLength (cs.takeWhile (· ≠ '}'))) else none

def openedBy? (cs : List Char) : Option ReferenceKind :=
  [.parameter, .field].find? fun kind => kind.opener.isPrefixOf cs

/-- A reader that keeps its text in bytes: the chunks it has found, the literal text since the last
of them, the byte that it has reached, and the text from there on. -/
structure Cursor where
  chunks : Interpolation
  literal : List Char
  offset : Nat
  rest : List Char

namespace Cursor

def start (text : String) : Cursor :=
  ⟨[], [], 0, text.toList⟩

def settled (s : Cursor) : Interpolation :=
  if s.literal = [] then s.chunks else s.chunks ++ [.text (.ofList s.literal)]

def turn? (s : Cursor) : Option (Except ReferenceError Cursor) :=
  match openedBy? s.rest with
  | none => do
    let c ← s.rest.head?
    let (_, rest) ← cutAt? c.utf8Size s.rest
    return .ok ⟨s.chunks, s.literal ++ [c], s.offset + c.utf8Size, rest⟩
  | some kind => do
    let (_, inner) ← cutAt? 3 s.rest
    match closingAt? inner with
    | none => return .error (.unterminated kind s.offset)
    | some close =>
      let name := Text.trimChars (← slice? 3 (3 + close) s.rest)
      if name = [] then return .error (.empty kind s.offset)
      let (_, rest) ← cutAt? (3 + close + 1) s.rest
      return .ok ⟨s.settled ++ [.reference kind (.ofList name)], [], s.offset + (3 + close + 1),
        rest⟩

inductive Yields : Cursor → Except ReferenceError Interpolation → Prop
  | ended {s : Cursor} (hend : s.rest = []) : Yields s (.ok s.settled)
  | failed {s : Cursor} {e : ReferenceError} (hmore : s.rest ≠ [])
      (hturn : s.turn? = some (.error e)) : Yields s (.error e)
  | turned {s s' : Cursor} {r : Except ReferenceError Interpolation} (hmore : s.rest ≠ [])
      (hturn : s.turn? = some (.ok s')) (h : Yields s' r) : Yields s r

def join (s : Cursor) (chunks : Interpolation) : Interpolation :=
  s.chunks ++ s.literal.foldr consChar chunks

theorem join_of_settled (s : Cursor) {chunks : Interpolation}
    (h : ∀ b ∈ chunks.head?, b.isText = false) : s.join chunks = s.settled ++ chunks := by
  unfold join settled
  by_cases hliteral : s.literal = []
  · rw [if_pos hliteral, hliteral, List.foldr_nil]
  · rw [if_neg hliteral, foldr_consChar hliteral h, List.append_assoc, List.singleton_append]

end Cursor

variable {kind : ReferenceKind} {c : Char} {cs : List Char}

theorem openedBy?_opener (kind : ReferenceKind) (cs : List Char) :
    openedBy? (kind.opener ++ cs) = some kind := by
  cases kind <;> simp [openedBy?, ReferenceKind.opener]

theorem openedBy?_eq_none (h : ∀ kind : ReferenceKind, ¬kind.opener <+: cs) :
    openedBy? cs = none := by
  simp [openedBy?, h]

theorem closingAt?_append {name : List Char} (h : '}' ∉ name) (more : List Char) :
    closingAt? (name ++ '}' :: more) = some (byteLength name) := by
  have hname : ∀ d ∈ name, decide (d ≠ '}') = true := by
    intro d hd
    rw [decide_eq_true_eq]
    rintro rfl
    exact h hd
  rw [closingAt?, if_pos (by simp), List.takeWhile_append_of_pos hname]
  simp

namespace Cursor

variable {s : Cursor}

/-- A character that begins no reference joins the literal text. -/
theorem turn?_literal (hrest : s.rest = c :: cs)
    (h : ∀ kind : ReferenceKind, ¬kind.opener <+: c :: cs) :
    s.turn? = some (.ok ⟨s.chunks, s.literal ++ [c], s.offset + c.utf8Size, cs⟩) := by
  have hcut : cutAt? c.utf8Size ([c] ++ cs) = some ([c], cs) := cutAt?_append (by simp) cs
  rw [List.singleton_append] at hcut
  unfold turn?
  rw [hrest, openedBy?_eq_none h]
  simp [hcut]

/-- A reference at fault ends the reader with its error. -/
theorem turn?_faulty (hrest : s.rest = kind.opener ++ cs) {e : ReferenceError}
    (h : FaultyFrom kind s.offset cs e) : s.turn? = some (.error e) := by
  have hopening := cutAt?_append (byteLength_opener kind) cs
  unfold turn?
  rw [hrest, openedBy?_opener]
  cases h with
  | unterminated hclose => simp [hopening, closingAt?, hclose]
  | @empty name more hclose hname =>
    have hslice : slice? 3 (3 + byteLength name) (kind.opener ++ name ++ '}' :: more) = some name :=
      slice?_append (byteLength_opener kind) rfl _
    rw [List.append_assoc] at hslice
    simp [hopening, closingAt?_append hclose, hslice, Text.trimChars_eq_nil_iff.mpr hname]

/-- A reference that is closed becomes a chunk, behind the literal text before it. -/
theorem turn?_closed {name more : List Char} (hrest : s.rest = kind.opener ++ (name ++ '}' :: more))
    (hclose : '}' ∉ name) (hname : Text.trimChars name ≠ []) :
    s.turn? = some (.ok ⟨s.settled ++ [.reference kind (.ofList (Text.trimChars name))], [],
      s.offset + (3 + byteLength name + 1), more⟩) := by
  have hopening := cutAt?_append (byteLength_opener kind) (name ++ '}' :: more)
  have hslice : slice? 3 (3 + byteLength name) (kind.opener ++ name ++ '}' :: more) = some name :=
    slice?_append (byteLength_opener kind) rfl _
  have hlength : byteLength (kind.opener ++ name ++ ['}']) = 3 + byteLength name + 1 := by
    have hone : '}'.utf8Size = 1 := rfl
    simp [byteLength_opener, hone, Nat.add_assoc]
  have hbehind := cutAt?_append hlength more
  simp only [List.append_assoc, List.singleton_append] at hslice hbehind
  unfold turn?
  rw [hrest, openedBy?_opener]
  simp [hopening, closingAt?_append hclose, hslice, hname, hbehind]

/-- From any cursor the turns lead to what is read of the rest of its text, character by
character. -/
theorem yields_read (s : Cursor) : s.Yields ((read .literal s.offset s.rest).map s.join) := by
  induction hlength : s.rest.length using Nat.strong_induction_on generalizing s with
  | h n ih =>
    subst hlength
    by_cases hopener : ∃ kind : ReferenceKind, kind.opener <+: s.rest
    · obtain ⟨kind, ds, hds⟩ := hopener
      have hmore : s.rest ≠ [] := by
        rw [← hds]
        cases kind <;> exact List.cons_ne_nil _ _
      obtain ⟨e, hfaulty⟩ | ⟨name, more, rfl, hclose, hname⟩ := faulty_or_closed kind s.offset ds
      · rw [← hds, hfaulty.read]
        exact .failed hmore (turn?_faulty hds.symm hfaulty)
      · have hturn := turn?_closed hds.symm hclose hname
        refine .turned hmore hturn ?_
        have hrest := ih more.length (by rw [← hds]; simp; omega)
          ⟨s.settled ++ [.reference kind (.ofList (Text.trimChars name))], [],
            s.offset + (3 + byteLength name + 1), more⟩ rfl
        have hpos : s.offset + 3 + byteLength name + 1 = s.offset + (3 + byteLength name + 1) := by
          omega
        rw [← hds, ← List.append_assoc, read_reference kind hclose hname, hpos]
        cases hread : read .literal (s.offset + (3 + byteLength name + 1)) more with
        | error e =>
          rw [hread] at hrest
          exact hrest
        | ok chunks =>
          rw [hread] at hrest
          have hjoin : s.join (.reference kind (.ofList (Text.trimChars name)) :: chunks) =
              s.settled ++ [.reference kind (.ofList (Text.trimChars name))] ++ chunks := by
            rw [s.join_of_settled (by simp [Chunk.isText]), List.append_assoc,
              List.singleton_append]
          change Yields _ (.ok (s.join _))
          rw [hjoin]
          exact hrest
    · have hliteral (kind : ReferenceKind) : ¬kind.opener <+: s.rest :=
        fun hfront => hopener ⟨kind, hfront⟩
      cases hs : s.rest with
      | nil =>
        have hjoin : s.join [] = s.settled := by
          rw [s.join_of_settled (by simp), List.append_nil]
        have hended := Yields.ended hs
        rwa [← hjoin] at hended
      | cons c cs =>
        rw [hs] at hliteral
        have hturn := turn?_literal hs hliteral
        refine .turned (by rw [hs]; exact List.cons_ne_nil c cs) hturn ?_
        have hrest := ih cs.length (by simp [hs])
          ⟨s.chunks, s.literal ++ [c], s.offset + c.utf8Size, cs⟩ rfl
        rw [read_literal_cons hliteral]
        cases hread : read .literal (s.offset + c.utf8Size) cs with
        | error e =>
          rw [hread] at hrest
          exact hrest
        | ok chunks =>
          rw [hread] at hrest
          have hjoin : (s.literal ++ [c]).foldr consChar chunks =
              s.literal.foldr consChar (consChar c chunks) := List.foldr_append
          change Yields _ (.ok (s.chunks ++ s.literal.foldr consChar (consChar c chunks)))
          rw [← hjoin]
          exact hrest

/-- A text is read by cuts as it is read character by character. -/
theorem yields_parse (text : String) : (start text).Yields (parse text) := by
  have hyields := (start text).yields_read
  have hjoin : (start text).join = id := rfl
  rw [hjoin] at hyields
  rw [parse]
  cases hread : read .literal 0 text.toList <;> simpa [start, hread, Except.map] using hyields

end Cursor

/-- A text is not read exactly if it is read up to a reference that is at fault. There is one such
reference at most, its error is the error, and every other text is read. No cut fails either way. -/
theorem chunking_errors_located (text : String) :
    (∀ e, parse text = .error e ↔ ∃ front kind rest, FaultyAt text.toList front kind rest e) ∧
    (∀ front kind rest e front' kind' rest' e', FaultyAt text.toList front kind rest e →
      FaultyAt text.toList front' kind' rest' e' →
        front = front' ∧ kind = kind' ∧ rest = rest' ∧ e = e') ∧
    ((∃ chunks, parse text = .ok chunks) ↔
      ¬∃ front kind rest e, FaultyAt text.toList front kind rest e) ∧
    (Cursor.start text).Yields (parse text) := by
  refine ⟨fun e => ⟨exists_faultyAt_of_parse, ?_⟩, ?_, ?_, Cursor.yields_parse text⟩
  · rintro ⟨front, kind, rest, hfaulty⟩
    exact hfaulty.parse_eq
  · intro front kind rest e front' kind' rest' e' h h'
    exact h.unique h'
  · constructor
    · rintro ⟨chunks, hok⟩ ⟨front, kind, rest, e, hfaulty⟩
      exact nomatch hok.symm.trans hfaulty.parse_eq
    · intro hnone
      cases hparse : parse text with
      | ok chunks => exact ⟨chunks, rfl⟩
      | error e =>
        obtain ⟨front, kind, rest, hfaulty⟩ := exists_faultyAt_of_parse hparse
        exact absurd ⟨front, kind, rest, e, hfaulty⟩ hnone

/-- The opening inside the first reference is part of a name, and what is blank in the second is a
character of three bytes. -/
theorem chunking_errors_located_behind_name :
    FaultyAt "$P\x7b$F\x7b \x7dé$F\x7b\u3000\x7d".toList "$P\x7b$F\x7b \x7dé".toList .field
      ['\u3000', '}'] (.empty .field 10) ∧
    parse "$P\x7b$F\x7b \x7dé$F\x7b\u3000\x7d" = .error (.empty .field 10) ∧
    (∀ front kind rest e, FaultyAt "$P\x7b$F\x7b \x7dé$F\x7b\u3000\x7d".toList front kind rest e →
      "$P\x7b$F\x7b \x7dé".toList = front ∧ .field = kind ∧ ['\u3000', '}'] = rest ∧
        .empty .field 10 = e) ∧
    (Cursor.start "$P\x7b$F\x7b \x7dé$F\x7b\u3000\x7d").Yields (.error (.empty .field 10)) := by
  have hblank : Text.Blanks ['\u3000'] := by
    intro c hc
    obtain rfl := List.mem_singleton.mp hc
    decide
  have hfault : FaultyFrom .field 10 (['\u3000'] ++ '}' :: []) (.empty .field 10) :=
    .empty (by decide) hblank
  have hfaulty : FaultyAt "$P\x7b$F\x7b \x7dé$F\x7b\u3000\x7d".toList
      "$P\x7b$F\x7b \x7dé".toList .field ['\u3000', '}'] (.empty .field 10) := by
    constructor
    case split => decide
    case front_read => exact ⟨[.reference .parameter "$F\x7b", .text "é"], rfl⟩
    case fault => exact hfault
  obtain ⟨herror, hunique, -, hyields⟩ :=
    chunking_errors_located "$P\x7b$F\x7b \x7dé$F\x7b\u3000\x7d"
  have hparse := (herror _).mpr ⟨_, _, _, hfaulty⟩
  exact ⟨hfaulty, hparse, fun _ _ _ _ => hunique _ _ _ _ _ _ _ _ hfaulty, hparse ▸ hyields⟩

end Interpolation

end ReportAssembly
