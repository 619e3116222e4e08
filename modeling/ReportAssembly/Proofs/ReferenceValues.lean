import ReportAssembly.Fill.Evaluation
import ReportAssembly.Proofs.CanonicalChunks

namespace ReportAssembly

namespace Interpolation

/-- Every chunk of a text is read from its own source too. -/
theorem parse_render_of_mem {text : String} {chunks : Interpolation} (h : parse text = .ok chunks)
    {c : Chunk} (hc : c ∈ chunks) : parse (render [c]) = .ok [c] := by
  have hchunk : c.Canonical := (parse_eq_ok_iff.mp h).1.each c hc
  have hcanonical : Canonical [c] := Canonical.nil.cons hchunk (by simp)
  exact parse_eq_ok_iff.mpr ⟨hcanonical, spelledBy_render [c]⟩

/-- Quotes around a text are part of no beginning of a reference. -/
theorem opener_not_in_quotes {cs : List Char} (h : ∀ kind : ReferenceKind, ¬kind.opener <:+: cs)
    (kind : ReferenceKind) : ¬kind.opener <:+: '"' :: (cs ++ ['"']) := by
  intro hinfix
  rcases List.infix_cons_iff.mp hinfix with hfront | hinfix
  · cases kind <;> simp [ReferenceKind.opener] at hfront
  · rcases List.infix_concat_iff.mp hinfix with hback | hinfix
    · obtain hnil | ⟨ds, hds, -⟩ := List.suffix_concat_iff.mp hback
      · cases kind <;> cases hnil
      · have hlast := congrArg List.getLast? hds
        rw [List.getLast?_concat] at hlast
        cases kind <;> exact absurd hlast (by decide)
    · exact h kind hinfix

/-- A text in quotes is one chunk. -/
theorem parse_quoted {t : String} (h : ∀ kind : ReferenceKind, ¬kind.opener <:+: t.toList) :
    parse ("\"" ++ t ++ "\"") = .ok [.text ("\"" ++ t ++ "\"")] := by
  have hchars : ("\"" ++ t ++ "\"").toList = '"' :: (t.toList ++ ['"']) := by simp
  have hchunk : Chunk.Canonical (.text ("\"" ++ t ++ "\"")) := by
    refine .text ?_ ?_
    · rw [ne_eq, ← String.toList_inj, hchars]
      exact List.cons_ne_nil _ _
    · rw [hchars]
      exact opener_not_in_quotes h
  have hparse := parse_eq_ok_iff.mpr ⟨Canonical.nil.cons hchunk (by simp), spelledBy_render _⟩
  rwa [render, List.flatMap_singleton, Chunk.render, String.ofList_toList] at hparse

end Interpolation

namespace Environment

variable {α : Type} (env : Environment α)

/-- A chunk as text: literal text as it stands, and for a reference the value that it has as an
expression of its own. -/
def textAlone : Chunk → String
  | .text content => content
  | .reference kind name => env.formatted (Interpolation.render [.reference kind name])

structure AgreesOn (env env' : Environment α) (chunks : Interpolation) : Prop where
  parameters : ∀ n ∈ chunks.references .parameter, env.parameters.get? n = env'.parameters.get? n
  fields : ∀ path ∈ chunks.references .field, env.fields.get? path = env'.fields.get? path

variable {env} {expression : String} {chunks : Interpolation}

theorem value?_of_parse (h : Interpolation.parse expression = .ok chunks) :
    env.value? expression = env.chunksValue? chunks := by
  rw [value?, h]

/-- A single reference has the value referred to. -/
theorem chunksValue?_of_asReference? {kind : ReferenceKind} {n : String}
    (h : chunks.asReference? kind = some n) : env.chunksValue? chunks = env.lookup? kind n := by
  rw [chunksValue?, Interpolation.asReference?_eq_some_iff.mp h]

/-- More than one chunk that is not blank makes a text of all chunks. -/
theorem chunksValue?_of_several (h : 2 ≤ chunks.meaningful.length) :
    env.chunksValue? chunks = some (.text (String.join (chunks.map env.chunkText))) := by
  unfold chunksValue?
  split
  · next hnone => simp [hnone] at h
  · next content hone => simp [hone] at h
  · next kind name hone => simp [hone] at h
  · rfl

/-- In a text a reference stands for the value it has alone. -/
theorem chunkText_eq_textAlone (h : Interpolation.parse expression = .ok chunks) {c : Chunk}
    (hc : c ∈ chunks) : env.chunkText c = env.textAlone c := by
  cases c with
  | text content => rfl
  | reference kind name =>
    have halone := Interpolation.parse_render_of_mem h hc
    rw [textAlone, formatted, value?_of_parse halone]
    rfl

theorem chunksValue?_quoted (t : String) :
    env.chunksValue? [.text ("\"" ++ t ++ "\"")] = some (.text t) := by
  have hchars : ("\"" ++ t ++ "\"").toList = '"' :: (t.toList ++ ['"']) := by simp
  have hquote : Text.isBlank '"' = false := by decide
  have hmeaningful : Interpolation.meaningful [.text ("\"" ++ t ++ "\"")] =
      [.text ("\"" ++ t ++ "\"")] := by
    simp [Interpolation.meaningful, Chunk.isBlank, Text.allBlank, hquote]
  have htrim : Text.trimChars ('"' :: (t.toList ++ ['"'])) = '"' :: (t.toList ++ ['"']) := by
    apply Text.trimChars_eq_self
    · simp [hquote]
    · rw [← List.cons_append, List.getLast?_concat]
      simp [hquote]
  rw [chunksValue?, hmeaningful]
  dsimp only
  rw [hchars, htrim, unquoted, List.getLast?_concat, if_pos rfl, List.dropLast_concat,
    String.ofList_toList]

theorem AgreesOn.lookup?_eq {env' : Environment α} (h : env.AgreesOn env' chunks)
    {kind : ReferenceKind} {n : String} (hn : .reference kind n ∈ chunks) :
    env.lookup? kind n = env'.lookup? kind n := by
  have hmem := Interpolation.mem_references_iff.mpr hn
  cases kind with
  | parameter => exact h.parameters n hmem
  | field => exact h.fields n hmem

/-- Chunks have the same value in both environments. -/
theorem AgreesOn.chunksValue?_eq {env' : Environment α} (h : env.AgreesOn env' chunks) :
    env.chunksValue? chunks = env'.chunksValue? chunks := by
  have htexts : chunks.map env.chunkText = chunks.map env'.chunkText := by
    apply List.map_congr_left
    intro c hc
    cases c with
    | text content => rfl
    | reference kind name => rw [chunkText, chunkText, h.lookup?_eq hc]
  rw [chunksValue?, chunksValue?, htexts]
  split
  · rfl
  · rfl
  · next kind name hone => exact h.lookup?_eq (Interpolation.mem_of_meaningful_eq hone)
  · rfl

/-- Without chunks there is no value, one reference has the value referred to, more chunks make a
text of what each of them is alone, and a text in quotes is the text. Nothing but what is referred
to has a say in it. -/
theorem value_from_references (env : Environment α) :
    (∀ expression, (∀ chunks, Interpolation.parse expression ≠ .ok chunks) →
      env.value? expression = none) ∧
    (∀ expression chunks, Interpolation.parse expression = .ok chunks →
      (∀ n, chunks.asReference? .parameter = some n →
        env.value? expression = env.parameters.get? n) ∧
      (∀ path, chunks.asReference? .field = some path →
        env.value? expression = env.fields.get? path) ∧
      (2 ≤ chunks.meaningful.length →
        env.value? expression = some (.text (String.join (chunks.map env.textAlone)))) ∧
      ∀ env', env.AgreesOn env' chunks →
        env.value? expression = env'.value? expression ∧
        env.formatted expression = env'.formatted expression) ∧
    ∀ t : String, (∀ kind : ReferenceKind, ¬kind.opener <:+: t.toList) →
      env.value? ("\"" ++ t ++ "\"") = some (.text t) := by
  refine ⟨?_, ?_, ?_⟩
  · intro expression hnone
    rw [value?]
    split
    · next chunks hparse => exact absurd hparse (hnone chunks)
    · rfl
  · intro expression chunks hparse
    have hvalue (e : Environment α) : e.value? expression = e.chunksValue? chunks :=
      value?_of_parse hparse
    refine ⟨fun n hn => ?_, fun path hpath => ?_, fun hseveral => ?_, fun env' hagrees => ?_⟩
    · rw [hvalue, chunksValue?_of_asReference? hn]
      rfl
    · rw [hvalue, chunksValue?_of_asReference? hpath]
      rfl
    · have htexts : chunks.map env.chunkText = chunks.map env.textAlone :=
        List.map_congr_left fun c hc => chunkText_eq_textAlone hparse hc
      rw [hvalue, chunksValue?_of_several hseveral, htexts]
    · have hsame : env.value? expression = env'.value? expression := by
        rw [hvalue, hvalue, hagrees.chunksValue?_eq]
      exact ⟨hsame, by rw [formatted, formatted, hsame]⟩
  · intro t ht
    rw [value?_of_parse (Interpolation.parse_quoted ht), chunksValue?_quoted]

def billValues : Environment Nat :=
  ⟨[("Currency", .text "AUD"), ("Lines", .report 7)], [("paid", .boolean true)]⟩

def otherBillValues : Environment Nat :=
  ⟨[("Currency", .text "AUD")], [("total", .boolean false), ("paid", .boolean true)]⟩

/-- The blank between two references is kept, and a reference to nothing leaves nothing behind. -/
theorem value_from_references_joined :
    billValues.value? "$P\x7bopen" = none ∧
    billValues.value? " $P\x7bLines\x7d " = some (.report 7) ∧
    billValues.value? "$F\x7b paid \x7d" = some (.boolean true) ∧
    billValues.value? "$F\x7b paid \x7d $P\x7bCurrency\x7d$P\x7bTax\x7d" =
      some (.text "true AUD") ∧
    otherBillValues.value? "$F\x7b paid \x7d $P\x7bCurrency\x7d$P\x7bTax\x7d" =
      some (.text "true AUD") ∧
    billValues.value? "\"$P $F\"" = some (.text "$P $F") := by
  have hopen : Interpolation.parse "$P\x7bopen" = .error (.unterminated .parameter 0) := rfl
  have hnone : ∀ chunks, Interpolation.parse "$P\x7bopen" ≠ .ok chunks := by simp [hopen]
  have hlines : Interpolation.parse " $P\x7bLines\x7d " =
      .ok [.text " ", .reference .parameter "Lines", .text " "] := rfl
  have hpaid : Interpolation.parse "$F\x7b paid \x7d" = .ok [.reference .field "paid"] := rfl
  have hjoined : Interpolation.parse "$F\x7b paid \x7d $P\x7bCurrency\x7d$P\x7bTax\x7d" =
      .ok [.reference .field "paid", .text " ", .reference .parameter "Currency",
        .reference .parameter "Tax"] := rfl
  have hagrees : billValues.AgreesOn otherBillValues [.reference .field "paid", .text " ",
      .reference .parameter "Currency", .reference .parameter "Tax"] := by
    constructor <;> decide
  have hplain : ∀ kind : ReferenceKind, ¬kind.opener <:+: "$P $F".toList := by
    intro kind
    cases kind <;> decide
  obtain ⟨hfails, hparsed, hquoted⟩ := value_from_references billValues
  obtain ⟨-, -, hseveral, hsame⟩ := hparsed _ _ hjoined
  have hvalue : billValues.value? "$F\x7b paid \x7d $P\x7bCurrency\x7d$P\x7bTax\x7d" =
      some (.text "true AUD") := (hseveral (by decide)).trans rfl
  exact ⟨hfails _ hnone, (hparsed _ _ hlines).1 "Lines" rfl,
    (hparsed _ _ hpaid).2.1 "paid" rfl, hvalue, (hsame _ hagrees).1.symm.trans hvalue,
    hquoted "$P $F" hplain⟩

end Environment

end ReportAssembly
