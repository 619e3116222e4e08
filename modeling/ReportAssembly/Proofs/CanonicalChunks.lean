import Mathlib.Data.List.Chain
import Mathlib.Data.List.Forall2
import ReportAssembly.Proofs.Chunking

namespace ReportAssembly

namespace Chunk

/-- A chunk as reading finds it: text that is not empty and has no beginning of a reference in it,
or a reference to a name without closing brace that is not empty and has no blanks around it. -/
inductive Canonical : Chunk → Prop
  | text {content : String} (hne : content ≠ "")
      (hplain : ∀ kind : ReferenceKind, ¬kind.opener <:+: content.toList) :
      Canonical (.text content)
  | reference {kind : ReferenceKind} {name : String} (hne : name ≠ "")
      (htrimmed : Text.Trimmed name.toList) (hbrace : '}' ∉ name.toList) :
      Canonical (.reference kind name)

def isText : Chunk → Bool
  | text _ => true
  | reference .. => false

/-- The texts for a chunk: its source, but for blanks just inside the braces of a reference. -/
inductive Spelled : Chunk → List Char → Prop
  | text {content : String} : Spelled (.text content) content.toList
  | reference {kind : ReferenceKind} {name : String} {as ds : List Char} (has : Text.Blanks as)
      (hds : Text.Blanks ds) :
      Spelled (.reference kind name) (kind.opener ++ (as ++ name.toList ++ ds) ++ ['}'])

theorem spelled_render (c : Chunk) : c.Spelled c.render := by
  cases c with
  | text content => exact .text
  | reference kind name =>
    have hnil : Text.Blanks [] := fun _ hc => nomatch hc
    have hspelled : Spelled (.reference kind name)
        (kind.opener ++ ([] ++ name.toList ++ []) ++ ['}']) := .reference hnil hnil
    rwa [List.nil_append, List.append_nil] at hspelled

end Chunk

namespace Interpolation

/-- Chunks in the form in which they are found: no two of them that are text stand side by side. -/
structure Canonical (chunks : Interpolation) : Prop where
  each : ∀ c ∈ chunks, c.Canonical
  apart : chunks.IsChain fun a b => a.isText = false ∨ b.isText = false

def SpelledBy (chunks : Interpolation) (cs : List Char) : Prop :=
  ∃ pieces, List.Forall₂ Chunk.Spelled chunks pieces ∧ cs = pieces.flatten

variable {c : Char} {cs rest : List Char} {chunk : Chunk} {chunks : Interpolation}

theorem spelledBy_render (chunks : Interpolation) : chunks.SpelledBy chunks.render.toList := by
  refine ⟨chunks.map Chunk.render, ?_, ?_⟩
  · rw [List.forall₂_map_right_iff, List.forall₂_same]
    exact fun c _ => c.spelled_render
  · rw [render, String.toList_ofList, List.flatMap_def]

theorem Canonical.nil : Canonical [] :=
  ⟨by simp, List.isChain_nil⟩

theorem Canonical.cons (hchunk : chunk.Canonical) (h : Canonical chunks)
    (hapart : ∀ b ∈ chunks.head?, chunk.isText = false ∨ b.isText = false) :
    Canonical (chunk :: chunks) :=
  ⟨List.forall_mem_cons.mpr ⟨hchunk, h.each⟩, List.isChain_cons.mpr ⟨hapart, h.apart⟩⟩

theorem Canonical.head (h : Canonical (chunk :: chunks)) : chunk.Canonical :=
  h.each chunk List.mem_cons_self

theorem Canonical.tail (h : Canonical (chunk :: chunks)) : Canonical chunks :=
  ⟨fun c hc => h.each c (List.mem_cons_of_mem _ hc), h.apart.tail⟩

theorem read_opener (kind : ReferenceKind) (pos : Nat) (cs : List Char) :
    read .literal pos (kind.opener ++ cs) = read (.inside kind pos []) (pos + 3) cs := by
  cases kind <;> rfl

/-- A character that begins no reference is read as literal text. -/
theorem read_literal_cons (h : ∀ kind : ReferenceKind, ¬kind.opener <+: c :: cs) (pos : Nat) :
    read .literal pos (c :: cs) = (read .literal (pos + c.utf8Size) cs).map (consChar c) := by
  rw [read]
  · rintro ds rfl rfl
    exact h .parameter ⟨ds, rfl⟩
  · rintro ds rfl rfl
    exact h .field ⟨ds, rfl⟩

/-- No reference begins in a text and ends its beginning in what follows, if that is a reference. -/
theorem opener_not_in_front (hfront : ∀ kind : ReferenceKind, ¬kind.opener <+: c :: cs)
    (hrest : ∀ d ∈ rest.head?, d = '$') (kind : ReferenceKind) :
    ¬kind.opener <+: c :: (cs ++ rest) := by
  intro hopener
  rw [← List.cons_append] at hopener
  rcases List.prefix_or_prefix_of_prefix hopener (List.prefix_append (c :: cs) rest) with h | h
  · exact hfront kind h
  · obtain ⟨more, hmore⟩ := h
    cases more with
    | nil =>
      rw [List.append_nil] at hmore
      exact hfront kind (hmore ▸ List.prefix_refl _)
    | cons d more =>
      obtain ⟨back, hback⟩ : d :: more <+: rest := by
        rw [← hmore] at hopener
        exact (List.prefix_append_right_inj _).mp hopener
      have hd : d = '$' := hrest d (by rw [← hback]; rfl)
      have htail : '$' ∈ kind.opener.tail := by
        rw [← hmore, hd]
        simp
      cases kind <;> simp [ReferenceKind.opener] at htail

/-- Literal text in front of a reference makes one chunk. -/
theorem foldr_consChar (hne : cs ≠ []) (h : ∀ b ∈ chunks.head?, b.isText = false) :
    cs.foldr consChar chunks = .text (.ofList cs) :: chunks := by
  induction cs with
  | nil => exact absurd rfl hne
  | cons c cs ih =>
    rw [List.foldr_cons]
    cases cs with
    | nil =>
      cases chunks with
      | nil => rfl
      | cons b chunks =>
        have hb := h b rfl
        cases b with
        | text content => exact absurd hb.symm Bool.false_ne_true
        | reference kind name => rfl
    | cons d cs =>
      rw [ih (List.cons_ne_nil d cs), consChar, String.toList_ofList]

/-- Text without a beginning of a reference is read as it stands. -/
theorem read_text (hplain : ∀ kind : ReferenceKind, ¬kind.opener <:+: cs)
    (hrest : ∀ d ∈ rest.head?, d = '$') (pos : Nat) :
    read .literal pos (cs ++ rest) =
      (read .literal (pos + byteLength cs) rest).map fun chunks => cs.foldr consChar chunks := by
  induction cs generalizing pos with
  | nil =>
    rw [List.nil_append, byteLength_nil, Nat.add_zero]
    cases read .literal pos rest <;> rfl
  | cons c cs ih =>
    have hcs (kind : ReferenceKind) : ¬kind.opener <:+: cs :=
      fun h => hplain kind (List.infix_cons h)
    have hfront := opener_not_in_front (fun kind h => hplain kind h.isInfix) hrest
    rw [List.cons_append, read_literal_cons hfront, ih hcs, byteLength_cons, Nat.add_assoc]
    cases read .literal (pos + (c.utf8Size + byteLength cs)) rest <;> rfl

/-- Behind literal text a dollar sign stands first, since no text follows it. -/
theorem head?_of_spelled {pieces : List (List Char)}
    (h : List.Forall₂ Chunk.Spelled chunks pieces)
    (hchunks : ∀ b ∈ chunks.head?, b.isText = false) : ∀ d ∈ pieces.flatten.head?, d = '$' := by
  cases h with
  | nil => simp
  | cons hfirst _ =>
    cases hfirst with
    | text => exact absurd (hchunks _ rfl).symm Bool.false_ne_true
    | @reference kind name as ds has hds =>
      intro d hd
      cases kind <;> exact (Option.some.inj hd).symm

theorem notMem_of_blanks (h : Text.Blanks cs) : '}' ∉ cs := by
  intro hmem
  have hblank := h '}' hmem
  exact absurd hblank (by decide)

/-- Canonical chunks are read from every text that spells them. -/
theorem read_spelled {pieces : List (List Char)} (h : List.Forall₂ Chunk.Spelled chunks pieces)
    (hcanonical : Canonical chunks) (pos : Nat) :
    read .literal pos pieces.flatten = .ok chunks := by
  induction h generalizing pos with
  | nil => rfl
  | @cons chunk piece chunks pieces hfirst hrest ih =>
    have hread := ih hcanonical.tail
    have hapart := (List.isChain_cons.mp hcanonical.apart).1
    rw [List.flatten_cons]
    cases hfirst with
    | @text content =>
      cases hcanonical.head with
      | text hne hplain =>
        have hnext (b : Chunk) (hb : b ∈ chunks.head?) : b.isText = false :=
          (hapart b hb).resolve_left fun h => Bool.false_ne_true h.symm
        have hchars : content.toList ≠ [] := by
          intro hnil
          exact hne (String.toList_inj.mp hnil)
        rw [read_text hplain (head?_of_spelled hrest hnext), hread]
        change Except.ok (content.toList.foldr consChar chunks) = _
        rw [foldr_consChar hchars hnext, String.ofList_toList]
    | @reference kind name as ds has hds =>
      cases hcanonical.head with
      | reference hne htrimmed hbrace =>
        have htrim : Text.trimChars (as ++ name.toList ++ ds) = name.toList := by
          rw [Text.trimChars_append has hds, htrimmed.trimChars_eq]
        have hinner : '}' ∉ as ++ name.toList ++ ds := by
          rw [List.mem_append, List.mem_append]
          rintro ((hmem | hmem) | hmem)
          · exact notMem_of_blanks has hmem
          · exact hbrace hmem
          · exact notMem_of_blanks hds hmem
        have hname : Text.trimChars (as ++ name.toList ++ ds) ≠ [] := by
          rw [htrim]
          intro hnil
          exact hne (String.toList_inj.mp hnil)
        rw [List.append_assoc _ ['}'], List.singleton_append, read_reference kind hinner hname,
          hread, htrim, String.ofList_toList]
        rfl

/-- Reading on in a reference leads to its closing brace. -/
theorem exists_of_read_inside {kind : ReferenceKind} {offset pos : Nat} {name : List Char}
    (h : read (.inside kind offset name) pos cs = .ok chunks) :
    ∃ inner rest chunks' pos', cs = inner ++ '}' :: rest ∧ '}' ∉ inner ∧
      Text.trimChars (name.reverse ++ inner) ≠ [] ∧ read .literal pos' rest = .ok chunks' ∧
      chunks = .reference kind (.ofList (Text.trimChars (name.reverse ++ inner))) :: chunks' := by
  induction cs generalizing name pos with
  | nil => cases h
  | cons c cs ih =>
    rw [read] at h
    by_cases hc : c = '}'
    · rw [if_pos hc] at h
      dsimp only at h
      split_ifs at h with hempty
      obtain ⟨chunks', hread, rfl⟩ := map_eq_ok h
      refine ⟨[], cs, chunks', pos + 1, by rw [hc]; rfl, List.not_mem_nil, ?_, hread, ?_⟩
      · rw [List.append_nil]
        exact fun hnil => hempty (List.isEmpty_iff.mpr hnil)
      · rw [List.append_nil]
    · rw [if_neg hc] at h
      obtain ⟨inner, rest, chunks', pos', rfl, hbrace, hname, hread, rfl⟩ := ih h
      rw [List.reverse_cons, List.append_assoc, List.singleton_append] at hname ⊢
      refine ⟨c :: inner, rest, chunks', pos', rfl, ?_, hname, hread, rfl⟩
      exact fun hmem => hbrace ((List.mem_cons.mp hmem).resolve_left fun he => hc he.symm)

theorem spelled_trimChars (kind : ReferenceKind) (inner : List Char) :
    Chunk.Spelled (.reference kind (.ofList (Text.trimChars inner)))
      (kind.opener ++ inner ++ ['}']) := by
  obtain ⟨as, ds, has, hds, hinner⟩ := Text.exists_blanks_around inner
  have hspelled : Chunk.Spelled (.reference kind (.ofList (Text.trimChars inner)))
      (kind.opener ++ (as ++ (String.ofList (Text.trimChars inner)).toList ++ ds) ++ ['}']) :=
    .reference has hds
  rwa [String.toList_ofList, ← hinner] at hspelled

theorem canonical_reference {kind : ReferenceKind} {inner : List Char} (hbrace : '}' ∉ inner)
    (hne : Text.trimChars inner ≠ []) :
    Chunk.Canonical (.reference kind (.ofList (Text.trimChars inner))) := by
  refine .reference ?_ ?_ ?_
  · intro hempty
    rw [← String.toList_inj, String.toList_ofList] at hempty
    exact hne hempty
  · rw [String.toList_ofList]
    exact Text.trimmed_trimChars inner
  · rw [String.toList_ofList]
    exact fun hmem => hbrace (Text.mem_of_mem_trimChars hmem)

/-- A character in front of a reference, or at the end, is text of its own. -/
theorem canonical_newText (hcanonical : Canonical chunks) (hspelled : chunks.SpelledBy cs)
    (hnext : ∀ b ∈ chunks.head?, b.isText = false) :
    Canonical (.text (.ofList [c]) :: chunks) ∧
      SpelledBy (.text (.ofList [c]) :: chunks) (c :: cs) := by
  obtain ⟨pieces, hpieces, rfl⟩ := hspelled
  have hplain (kind : ReferenceKind) : ¬kind.opener <:+: [c] := by
    intro hinfix
    have hlength := hinfix.length_le
    cases kind <;> simp [ReferenceKind.opener] at hlength
  have htext : Chunk.Spelled (.text (.ofList [c])) (String.ofList [c]).toList := .text
  rw [String.toList_ofList] at htext
  refine ⟨?_, [c] :: pieces, .cons htext hpieces, rfl⟩
  exact hcanonical.cons (.text (by simp [← String.toList_inj]) (by simpa using hplain))
    fun b hb => .inr (hnext b hb)

/-- A character in front of a text is part of its first chunk, if that is text. -/
theorem canonical_consChar (hopener : ∀ kind : ReferenceKind, ¬kind.opener <+: c :: cs)
    (hcanonical : Canonical chunks) (hspelled : chunks.SpelledBy cs) :
    Canonical (consChar c chunks) ∧ (consChar c chunks).SpelledBy (c :: cs) := by
  unfold consChar
  split
  · next content chunks =>
    obtain ⟨pieces, hpieces, rfl⟩ := hspelled
    cases hpieces with
    | @cons _ piece _ pieces hfirst hrest =>
      cases hfirst with
      | text =>
        cases hcanonical.head with
        | text hne hplain =>
          have hnext := (List.isChain_cons.mp hcanonical.apart).1
          constructor
          · refine hcanonical.tail.cons (.text (by simp [← String.toList_inj]) ?_) hnext
            rw [String.toList_ofList]
            intro kind hinfix
            rcases List.infix_cons_iff.mp hinfix with hfront | hinfix
            · refine hopener kind (hfront.trans ?_)
              exact List.cons_prefix_cons.mpr ⟨rfl, List.prefix_append _ _⟩
            · exact hplain kind hinfix
          · refine ⟨(c :: content.toList) :: pieces, .cons ?_ hrest, rfl⟩
            have htext : Chunk.Spelled (.text (.ofList (c :: content.toList)))
                (String.ofList (c :: content.toList)).toList := .text
            rwa [String.toList_ofList] at htext
  · next hother =>
    refine canonical_newText hcanonical hspelled fun b hb => ?_
    cases chunks with
    | nil => cases hb
    | cons b' chunks =>
      obtain rfl := Option.some.inj hb
      cases b' with
      | text content => exact absurd rfl (hother content chunks)
      | reference kind name => rfl

/-- What is read is canonical and spells the text. -/
theorem canonical_of_read {pos : Nat} (h : read .literal pos cs = .ok chunks) :
    Canonical chunks ∧ chunks.SpelledBy cs := by
  induction hlength : cs.length using Nat.strong_induction_on generalizing cs chunks pos with
  | h n ih =>
    subst hlength
    by_cases hopener : ∃ kind : ReferenceKind, kind.opener <+: cs
    · obtain ⟨kind, ds, rfl⟩ := hopener
      rw [read_opener] at h
      obtain ⟨inner, rest, chunks', pos', rfl, hbrace, hname, hread, rfl⟩ :=
        exists_of_read_inside h
      rw [List.reverse_nil, List.nil_append] at hname ⊢
      obtain ⟨hcanonical, pieces, hpieces, rfl⟩ := ih _ (by simp; omega) hread rfl
      refine ⟨hcanonical.cons (canonical_reference hbrace hname) fun _ _ => .inl rfl,
        (kind.opener ++ inner ++ ['}']) :: pieces, .cons (spelled_trimChars kind inner) hpieces, ?_⟩
      simp
    · cases cs with
      | nil =>
        obtain rfl := Except.ok.inj h
        exact ⟨.nil, [], .nil, rfl⟩
      | cons c cs =>
        have hliteral (kind : ReferenceKind) : ¬kind.opener <+: c :: cs :=
          fun hfront => hopener ⟨kind, hfront⟩
        rw [read_literal_cons hliteral] at h
        obtain ⟨chunks', hread, rfl⟩ := map_eq_ok h
        obtain ⟨hcanonical, hspelled⟩ := ih cs.length (by simp) hread rfl
        exact canonical_consChar hliteral hcanonical hspelled

/-- A text is read as the canonical chunks that it spells. -/
theorem parse_eq_ok_iff {text : String} :
    parse text = .ok chunks ↔ Canonical chunks ∧ chunks.SpelledBy text.toList := by
  constructor
  · exact canonical_of_read
  · rintro ⟨hcanonical, pieces, hpieces, htext⟩
    rw [parse, htext]
    exact read_spelled hpieces hcanonical 0

theorem render_parameterReference (n : String) :
    render [.reference .parameter n] = parameterReference n := by
  rw [← String.toList_inj]
  simp [render, parameterReference, Chunk.render, ReferenceKind.opener]

/-- Canonical chunks are read back from their source. What is read from a text are canonical chunks
for which it is a text, and no others are. So the reference to a parameter is read as that exactly
if its name can stand in a canonical chunk. -/
theorem chunking_inverts_rendering :
    (∀ chunks : Interpolation, Canonical chunks → parse chunks.render = .ok chunks) ∧
    (∀ (text : String) (chunks : Interpolation),
      parse text = .ok chunks ↔ Canonical chunks ∧ chunks.SpelledBy text.toList) ∧
    ∀ n : String,
      (∃ chunks, parse (parameterReference n) = .ok chunks ∧
        chunks.asReference? .parameter = some n) ↔
      n ≠ "" ∧ Text.Trimmed n.toList ∧ '}' ∉ n.toList := by
  have hback (chunks : Interpolation) (h : Canonical chunks) : parse chunks.render = .ok chunks :=
    parse_eq_ok_iff.mpr ⟨h, spelledBy_render chunks⟩
  refine ⟨hback, fun _ _ => parse_eq_ok_iff, ?_⟩
  intro n
  constructor
  · rintro ⟨chunks, hparse, hname⟩
    have hmem := mem_of_meaningful_eq (asReference?_eq_some_iff.mp hname)
    cases (parse_eq_ok_iff.mp hparse).1.each _ hmem with
    | reference hne htrimmed hbrace => exact ⟨hne, htrimmed, hbrace⟩
  · rintro ⟨hne, htrimmed, hbrace⟩
    have hcanonical : Canonical [.reference .parameter n] :=
      Canonical.nil.cons (.reference hne htrimmed hbrace) (by simp)
    have hparse := hback _ hcanonical
    rw [render_parameterReference] at hparse
    exact ⟨_, hparse, asReference?_eq_some_iff.mpr rfl⟩

theorem chunking_inverts_rendering_nested :
    Canonical [.text "$$P", .reference .parameter "a $F\x7b", .text "\x7d $F",
      .reference .field "é"] ∧
    parse "$$P$P\x7ba $F\x7b\x7d\x7d $F$F\x7bé\x7d" = .ok [.text "$$P",
      .reference .parameter "a $F\x7b", .text "\x7d $F", .reference .field "é"] := by
  have htext {content : String} (hne : content ≠ "")
      (hp : ¬['$', 'P', '{'] <:+: content.toList) (hf : ¬['$', 'F', '{'] <:+: content.toList) :
      Chunk.Canonical (.text content) := .text hne fun kind => by cases kind <;> assumption
  have hname {kind : ReferenceKind} {name : String} (hne : name ≠ "")
      (htrimmed : Text.trimChars name.toList = name.toList) (hbrace : '}' ∉ name.toList) :
      Chunk.Canonical (.reference kind name) :=
    .reference hne (htrimmed ▸ Text.trimmed_trimChars name.toList) hbrace
  have hcanonical : Canonical [.text "$$P", .reference .parameter "a $F\x7b", .text "\x7d $F",
      .reference .field "é"] := by
    constructor
    case each =>
      simp only [List.forall_mem_cons]
      refine ⟨?_, ?_, ?_, ?_, by simp⟩
      · exact htext (by decide) (by decide) (by decide)
      · exact hname (by decide) (by decide) (by decide)
      · exact htext (by decide) (by decide) (by decide)
      · exact hname (by decide) (by decide) (by decide)
    case apart => simp [Chunk.isText]
  exact ⟨hcanonical, chunking_inverts_rendering.1 _ hcanonical⟩

end Interpolation

end ReportAssembly
