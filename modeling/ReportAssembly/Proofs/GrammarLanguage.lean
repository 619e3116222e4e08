import ReportAssembly.Proofs.RoundTrip

namespace ReportAssembly

/-- One pass over the tokens, from left to right, that leaves out every type `string` behind an
expression, unless `keep` holds of the tokens behind it. -/
def dropStringTypes (keep : List Token → Bool) : List Token → List Token
  | .expression text :: .colon :: .identifier word :: ts =>
    if word = "string" ∧ keep ts = false then .expression text :: dropStringTypes keep ts
    else .expression text :: .colon :: .identifier word :: dropStringTypes keep ts
  | t :: ts => t :: dropStringTypes keep ts
  | [] => []

def colonNext (ts : List Token) : Bool :=
  ts.head? == some .colon

/-- The source has the tokens of the printed design, but for types `string` that are written. -/
structure Design.SpelledBy (d : Design) (keep : List Token → Bool) (source : String) : Prop where
  spellable : d.Spellable
  tokens : ∃ ts, tokens? source = some ts ∧ tokens? d.print = some (dropStringTypes keep ts)

variable {keep : List Token → Bool}

theorem dropStringTypes_cons_of_ne {t : Token} (h : ∀ text, t ≠ .expression text)
    (ts : List Token) : dropStringTypes keep (t :: ts) = t :: dropStringTypes keep ts := by
  rw [dropStringTypes]
  exact fun text _ _ ht _ => h text ht

theorem dropStringTypes_untyped {t : Token} (h : t ≠ .colon) (text : String) (ts : List Token) :
    dropStringTypes keep (.expression text :: t :: ts) =
      .expression text :: dropStringTypes keep (t :: ts) := by
  rw [dropStringTypes]
  exact fun _ _ _ _ hts => h (List.cons.inj hts).1

theorem dropStringTypes_typed {t : Token} (h : ∀ text, t ≠ .expression text)
    (hstring : t ≠ .identifier "string") (text : String) (ts : List Token) :
    dropStringTypes keep (.expression text :: .colon :: t :: ts) =
      .expression text :: .colon :: t :: dropStringTypes keep ts := by
  by_cases hword : ∃ word, t = .identifier word
  · obtain ⟨word, rfl⟩ := hword
    have hne : word ≠ "string" := fun he => hstring (he ▸ rfl)
    rw [dropStringTypes, if_neg fun hand => hne hand.1]
  · have hcolon : dropStringTypes keep (.colon :: t :: ts) =
        .colon :: dropStringTypes keep (t :: ts) :=
      dropStringTypes_cons_of_ne (t := .colon) (fun _ he => nomatch he) _
    rw [dropStringTypes, hcolon, dropStringTypes_cons_of_ne h]
    intro _ word _ _ hts
    exact hword ⟨word, (List.cons.inj (List.cons.inj hts).2).1⟩

/-- A type string is left out where nothing keeps it. -/
theorem dropStringTypes_string {ts : List Token} (h : keep ts = false) (text : String) :
    dropStringTypes keep (.expression text :: .colon :: .identifier "string" :: ts) =
      .expression text :: dropStringTypes keep ts := by
  rw [dropStringTypes, if_pos ⟨rfl, h⟩]

theorem ValueType.keyword_of_ofKeyword? {word : String} {type : ValueType}
    (h : ofKeyword? word = some type) : word = type.keyword := by
  have hfound := List.find?_some h
  exact (beq_iff_eq.mp hfound).symm

theorem SectionKind.keyword_of_ofKeyword? {word : String} {kind : SectionKind}
    (h : ofKeyword? word = some kind) : word = kind.keyword := by
  have hfound := List.find?_some h
  exact (beq_iff_eq.mp hfound).symm

/-- A type has one token: the word `report` is never an identifier. -/
theorem Token.NamesType.eq_token {t : Token} {type : ValueType} (h : t.NamesType type)
    (ht : t.Lexical) : t = type.token := by
  cases h with
  | report => rfl
  | word hword =>
    obtain rfl := ValueType.keyword_of_ofKeyword? hword
    cases type with
    | report =>
      have hkeyword : isIdentifier "report" = false := by decide
      exact absurd ht (Bool.eq_false_iff.mp hkeyword)
    | _ => rfl

theorem Token.NamesType.ne_expression {t : Token} {type : ValueType} (h : t.NamesType type)
    (text : String) : t ≠ .expression text := by
  rintro rfl
  cases h

theorem Token.NamesType.ne_string {t : Token} {type : ValueType} (h : t.NamesType type)
    (hne : type ≠ .string) : t ≠ .identifier "string" := by
  rintro rfl
  cases h with
  | word hword =>
    exact hne (Option.some.inj (hword.symm.trans (ValueType.ofKeyword?_keyword .string)))

namespace Place

def settled : Place → List Token
  | start => []
  | reportName => [.keyword .report]
  | bodyOpening name => [.keyword .report, .string name]
  | declarations draft | sections draft => draft.tokens.dropLast
  | parameterName draft _ => draft.tokens.dropLast ++ [.keyword .parameter]
  | parameterColon draft _ name =>
    draft.tokens.dropLast ++ [.keyword .parameter, .identifier name]
  | parameterType draft _ name =>
    draft.tokens.dropLast ++ [.keyword .parameter, .identifier name, .colon]
  | sectionKind draft => draft.tokens.dropLast ++ [.keyword .band]
  | sectionOpening draft kind =>
    draft.tokens.dropLast ++ [.keyword .band, .identifier kind.keyword]
  | elements draft band => draft.tokens.dropLast ++ band.tokens.dropLast
  | textContent draft band _ => draft.tokens.dropLast ++ band.tokens.dropLast ++ [.keyword .text]
  | expressionText draft band _ carrier =>
    draft.tokens.dropLast ++ band.tokens.dropLast ++ [.keyword carrier.keyword]
  | afterExpression draft band e | expressionType draft band e =>
    draft.tokens.dropLast ++ band.tokens.dropLast ++ [.keyword e.carrier.keyword]
  | complete d => d.tokens

def pending : Place → List Token
  | afterExpression _ _ e => [.expression e.text]
  | expressionType _ _ e => [.expression e.text, .colon]
  | _ => []

def Ordered : Place → Prop
  | declarations draft | parameterName draft _ | parameterColon draft _ _
  | parameterType draft _ _ => draft.sections = []
  | _ => True

/-- A step keeps the parameters before the sections. -/
theorem Step.ordered {p p' : Place} {t : Located Token} (h : Step p t p') (hp : p.Ordered) :
    p'.Ordered := by
  cases h with
  | openReport => rfl
  | parameter => exact hp
  | parameterName => exact hp
  | parameterColon => exact hp
  | parameterType _ => exact hp
  | _ => trivial

end Place

theorem Design.dropLast_tokens (d : Design) :
    d.tokens.dropLast = [.keyword .report, .string d.name, .braceOpen] ++
      d.parameters.flatMap (fun p => p.value.tokens) ++ d.sections.flatMap Section.tokens := by
  rw [tokens, List.dropLast_concat]

theorem Section.dropLast_tokens (s : Section) :
    s.tokens.dropLast = [.keyword .band, .identifier s.kind.keyword, .braceOpen] ++
      s.elements.flatMap (fun e => e.value.tokens) := by
  rw [tokens, List.dropLast_concat]

theorem Design.dropLast_tokens_append (d : Design) :
    d.tokens.dropLast ++ [.braceClose] = d.tokens := by
  rw [tokens, List.dropLast_concat]

theorem Section.dropLast_tokens_append (s : Section) :
    s.tokens.dropLast ++ [.braceClose] = s.tokens := by
  rw [tokens, List.dropLast_concat]

theorem Design.dropLast_tokens_declare {d : Design} (h : d.sections = []) (q : Located Parameter) :
    (d.declare q).tokens.dropLast = d.tokens.dropLast ++ q.value.tokens := by
  simp [dropLast_tokens, declare, h]

theorem Design.dropLast_tokens_addSection (d : Design) (s : Section) :
    (d.addSection s).tokens.dropLast = d.tokens.dropLast ++ s.tokens := by
  simp [dropLast_tokens, addSection]

theorem Section.dropLast_tokens_add (s : Section) (e : Located Element) :
    (s.add e).tokens.dropLast = s.tokens.dropLast ++ e.value.tokens := by
  simp [dropLast_tokens, add]

theorem Carrier.tokens_element_untyped (carrier : Carrier) (text : String) :
    (carrier.element ⟨text, .string⟩).tokens = [.keyword carrier.keyword, .expression text] := by
  cases carrier <;> rfl

theorem Carrier.tokens_element_typed (carrier : Carrier) (text : String) {type : ValueType}
    (h : type ≠ .string) : (carrier.element ⟨text, type⟩).tokens =
      [.keyword carrier.keyword, .expression text, .colon, type.token] := by
  cases type with
  | string => exact absurd rfl h
  | _ => cases carrier <;> rfl

namespace Place

/-- A token where a section may come next is settled behind the draft. -/
theorem AtSections.settled_cons {draft : Design} {p : Place} (h : AtSections draft p) {t : Token}
    (ht : ∀ text, t ≠ .expression text) (ts : List Token) :
    p.settled ++ dropStringTypes keep (p.pending ++ t :: ts) =
      draft.tokens.dropLast ++ [t] ++ dropStringTypes keep ts := by
  have hcons : dropStringTypes keep (t :: ts) = t :: dropStringTypes keep ts :=
    dropStringTypes_cons_of_ne ht ts
  cases h <;> simp [settled, pending, hcons]

/-- A token where an element may come next is settled behind the open section. -/
theorem AtElements.settled_cons {draft : Design} {band : Section} {p : Place}
    (h : AtElements draft band p) {t : Token} (ht : ∀ text, t ≠ .expression text)
    (hcolon : t ≠ .colon) (ts : List Token) :
    p.settled ++ dropStringTypes keep (p.pending ++ t :: ts) =
      draft.tokens.dropLast ++ band.tokens.dropLast ++ [t] ++ dropStringTypes keep ts := by
  have hcons : dropStringTypes keep (t :: ts) = t :: dropStringTypes keep ts :=
    dropStringTypes_cons_of_ne ht ts
  cases h with
  | elements => simp [settled, pending, hcons]
  | @afterExpression band e =>
    have hband : (band.add e.untyped).tokens.dropLast =
        band.tokens.dropLast ++ [.keyword e.carrier.keyword, .expression e.text] := by
      rw [band.dropLast_tokens_add]
      exact congrArg _ (e.carrier.tokens_element_untyped e.text)
    simp [settled, pending, dropStringTypes_untyped hcolon, hcons, hband]

/-- A list of tokens is read by a step and the reading of the rest. -/
theorem exists_step_of_after {p q : Place} {t : Located Token} {ts : List (Located Token)}
    (h : p.after (t :: ts) = .ok q) : ∃ p', Step p t p' ∧ p'.after ts = .ok q := by
  rw [after, List.foldlM_cons] at h
  cases hnext : p.next t with
  | error e =>
    rw [hnext] at h
    cases h
  | ok p' =>
    rw [hnext] at h
    exact ⟨p', Step.of_next_eq_ok hnext, h⟩

/-- One more token read is one more token settled, but for a type `string`. -/
theorem Step.settled_cons {p p' : Place} {t : Located Token} (h : Step p t p')
    (ht : t.value.Lexical) (hp : p.Ordered) {ts : List Token}
    (hts : ∀ draft band, p' = elements draft band → keep ts = false) :
    p.settled ++ dropStringTypes keep (p.pending ++ t.value :: ts) =
      p'.settled ++ dropStringTypes keep (p'.pending ++ ts) := by
  have hcons {t : Token} (ht : ∀ text, t ≠ .expression text) :
      dropStringTypes keep (t :: ts) = t :: dropStringTypes keep ts :=
    dropStringTypes_cons_of_ne ht ts
  cases h with
  | report => simp [settled, pending, hcons]
  | reportName => simp [settled, pending, hcons]
  | openReport => simp [settled, pending, hcons, Design.dropLast_tokens]
  | parameter => simp [settled, pending, hcons]
  | parameterName => simp [settled, pending, hcons]
  | parameterColon => simp [settled, pending, hcons]
  | @parameterType draft begun name t type h =>
    have hnext := hcons h.ne_expression
    have htype := h.eq_token ht
    rw [htype] at hnext
    simp [settled, pending, htype, hnext, draft.dropLast_tokens_declare hp, Parameter.tokens]
  | band h => exact h.settled_cons (by simp) ts
  | @closeReport draft p span h =>
    calc p.settled ++ dropStringTypes keep (p.pending ++ .braceClose :: ts)
        = draft.tokens.dropLast ++ [.braceClose] ++ dropStringTypes keep ts :=
          h.settled_cons (by simp) ts
      _ = draft.tokens ++ dropStringTypes keep ts := by rw [draft.dropLast_tokens_append]
  | sectionKind h =>
    obtain rfl := SectionKind.keyword_of_ofKeyword? h
    simp [settled, pending, hcons]
  | openSection => simp [settled, pending, hcons, Section.dropLast_tokens]
  | text h => exact h.settled_cons (by simp) (by simp) ts
  | carrier _ h => exact h.settled_cons (by simp) (by simp) ts
  | @closeSection draft band p span h =>
    calc p.settled ++ dropStringTypes keep (p.pending ++ .braceClose :: ts)
        = draft.tokens.dropLast ++ band.tokens.dropLast ++ [.braceClose] ++
            dropStringTypes keep ts := h.settled_cons (by simp) (by simp) ts
      _ = (draft.addSection band).tokens.dropLast ++ dropStringTypes keep ts := by
          rw [List.append_assoc draft.tokens.dropLast, band.dropLast_tokens_append,
            draft.dropLast_tokens_addSection]
  | textContent => simp [settled, pending, hcons, Section.dropLast_tokens_add, Element.tokens]
  | expressionText => rfl
  | expressionColon => rfl
  | @expressionType draft band e t type h =>
    have htype := h.eq_token ht
    by_cases hstring : type = .string
    · subst hstring
      have helement : (e.typed .string t.span.stop).value.tokens =
          [.keyword e.carrier.keyword, .expression e.text] :=
        e.carrier.tokens_element_untyped e.text
      have hdrop : dropStringTypes keep
          (.expression e.text :: .colon :: ValueType.string.token :: ts) =
            .expression e.text :: dropStringTypes keep ts :=
        dropStringTypes_string (hts _ _ rfl) e.text
      simp [settled, pending, htype, Section.dropLast_tokens_add, helement, hdrop]
    · have helement : (e.typed type t.span.stop).value.tokens =
          [.keyword e.carrier.keyword, .expression e.text, .colon, t.value] := by
        rw [htype]
        exact e.carrier.tokens_element_typed e.text hstring
      have hdrop : dropStringTypes keep (.expression e.text :: .colon :: t.value :: ts) =
          .expression e.text :: .colon :: t.value :: dropStringTypes keep ts :=
        dropStringTypes_typed h.ne_expression (h.ne_string hstring) e.text ts
      simp [settled, pending, Section.dropLast_tokens_add, helement, hdrop]

/-- No colon can follow a complete element. -/
theorem colonNext_of_after {draft d : Design} {band : Section} {ts : List (Located Token)}
    (h : (elements draft band).after ts = .ok (complete d)) :
    colonNext (ts.map (·.value)) = false := by
  cases ts with
  | nil => exact nomatch h
  | cons t ts =>
    obtain ⟨p', hstep, -⟩ := exists_step_of_after h
    obtain ⟨value, span⟩ := t
    have hne : value ≠ .colon := by
      rintro rfl
      cases hstep
    simpa [colonNext] using hne

/-- A design that is read to its end has the tokens that were read, but for types `string`. -/
theorem settled_of_after {p : Place} {ts : List (Located Token)} {d : Design}
    (h : p.after ts = .ok (complete d)) (hts : ∀ t ∈ ts, t.value.Lexical) (hp : p.Ordered) :
    p.settled ++ dropStringTypes colonNext (p.pending ++ ts.map (·.value)) = d.tokens := by
  induction ts generalizing p with
  | nil =>
    obtain rfl := Except.ok.inj h
    exact List.append_nil _
  | cons t ts ih =>
    obtain ⟨ht, hts⟩ := List.forall_mem_cons.mp hts
    obtain ⟨p', hstep, hafter⟩ := exists_step_of_after h
    have hcolon (draft : Design) (band : Section) (hp' : p' = elements draft band) :
        colonNext (ts.map (·.value)) = false :=
      colonNext_of_after (hp' ▸ hafter)
    rw [List.map_cons, hstep.settled_cons ht hp hcolon]
    exact ih hafter hts (hstep.ordered hp)

/-- An element is complete without its type, if no colon comes next. -/
theorem after_of_untyped {draft d : Design} {band : Section} {e : OpenElement}
    {ts : List (Located Token)} (h : (afterExpression draft band e).after ts = .ok (complete d))
    (hts : colonNext (ts.map (·.value)) = false) :
    (elements draft (band.add e.untyped)).after ts = .ok (complete d) := by
  cases ts with
  | nil => exact nomatch h
  | cons t ts =>
    obtain ⟨p', hstep, hafter⟩ := exists_step_of_after h
    have hclosed : Step (elements draft (band.add e.untyped)) t p' := by
      cases hstep with
      | band hat => cases hat
      | closeReport hat => cases hat
      | text hat => cases hat; exact .text .elements
      | carrier carrier hat => cases hat; exact .carrier carrier .elements
      | closeSection hat => cases hat; exact .closeSection .elements
      | expressionColon => exact nomatch hts
    rw [hclosed.after_cons, hafter]

end Place

def joinStringTypes : List (Located Token) → List (Located Token)
  | ⟨.expression text, s⟩ :: ⟨.colon, s'⟩ :: ⟨.identifier word, s''⟩ :: ts =>
    if word = "string" ∧ colonNext (ts.map (·.value)) = false then
      ⟨.expression text, ⟨s.start, s''.stop⟩⟩ :: joinStringTypes ts
    else ⟨.expression text, s⟩ :: ⟨.colon, s'⟩ :: ⟨.identifier word, s''⟩ :: joinStringTypes ts
  | t :: ts => t :: joinStringTypes ts
  | [] => []

/-- Joining the types leaves the values that are left when types are dropped. -/
theorem values_joinStringTypes (ts : List (Located Token)) :
    (joinStringTypes ts).map (·.value) = dropStringTypes colonNext (ts.map (·.value)) := by
  fun_induction joinStringTypes ts with
  | case1 text s s' word s'' ts hdrop ih =>
    rw [List.map_cons, ih]
    exact (if_pos hdrop).symm
  | case2 text s s' word s'' ts hkeep ih =>
    rw [List.map_cons, List.map_cons, List.map_cons, ih]
    exact (if_neg hkeep).symm
  | case3 t ts hother ih =>
    rw [List.map_cons, List.map_cons, ih, dropStringTypes]
    intro text word us ht hus
    obtain ⟨s', _, rfl, hrest⟩ := exists_of_values_eq_cons hus
    obtain ⟨s'', us', rfl, -⟩ := exists_of_values_eq_cons hrest
    obtain ⟨_, s⟩ := t
    exact hother text s s' word s'' us' (congrArg (Located.mk · s) ht) rfl
  | case4 => rfl

namespace Place

/-- Types `string` make no difference to what is read. -/
theorem after_of_joinStringTypes {p : Place} {ts : List (Located Token)} {d : Design}
    (h : p.after (joinStringTypes ts) = .ok (complete d)) : p.after ts = .ok (complete d) := by
  fun_induction joinStringTypes ts generalizing p with
  | case1 text s s' word s'' ts hdrop ih =>
    obtain ⟨rfl, hcolon⟩ := hdrop
    obtain ⟨p', hstep, hafter⟩ := exists_step_of_after h
    cases hstep with
    | expressionText =>
      have htype : Token.NamesType (.identifier "string") .string := .word rfl
      have hrest := after_of_untyped (ih hafter) hcolon
      rw [Step.expressionText.after_cons, Step.expressionColon.after_cons,
        (Step.expressionType htype).after_cons]
      exact hrest
    | parameterType htype => cases htype
    | expressionType htype => cases htype
  | case2 text s s' word s'' ts hkeep ih =>
    obtain ⟨p₁, hstep, h₁⟩ := exists_step_of_after h
    obtain ⟨p₂, hstep', h₂⟩ := exists_step_of_after h₁
    obtain ⟨p₃, hstep'', h₃⟩ := exists_step_of_after h₂
    rw [hstep.after_cons, hstep'.after_cons, hstep''.after_cons, ih h₃]
  | case3 t ts hother ih =>
    obtain ⟨p', hstep, hafter⟩ := exists_step_of_after h
    rw [hstep.after_cons, ih hafter]
  | case4 => exact h

end Place

/-- A design is finished exactly at the end of the grammar. -/
theorem Place.finish_eq_ok_iff {p : Place} {span : Span} {d : Design} :
    p.finish span = .ok d ↔ p = complete d := by
  cases p <;> simp [finish]

/-- Tokens spell a design exactly if they lead to its end. -/
theorem Design.ofTokens_eq_ok_iff {length : Nat} {ts : List (Located Token)} {d : Design} :
    Design.ofTokens length ts = .ok d ↔ Place.start.after ts = .ok (.complete d) := by
  rw [ofTokens]
  cases hafter : Place.start.after ts with
  | error e =>
    constructor
    · intro h
      cases h
    · intro h
      cases h
  | ok p =>
    have hfinish : (do
        let place ← (.ok p : Except SyntaxError Place)
        place.finish (endSpan length ts)) = p.finish (endSpan length ts) := rfl
    rw [hfinish, Place.finish_eq_ok_iff, Except.ok.injEq]

theorem Design.tokens?_print {d : Design} (h : d.Spellable) : tokens? d.print = some d.tokens :=
  (tokens?_eq_some_iff _ _).mpr (reads_print h)

/-- Designs that differ in spans have the same tokens. -/
theorem Design.SameContent.tokens_eq {d d' : Design} (h : d.SameContent d') :
    d.tokens = d'.tokens := by
  have hparameters (x : Design) : (x.parameters.flatMap fun p => p.value.tokens) =
      (x.parameters.map (·.value)).flatMap Parameter.tokens := by
    rw [List.flatMap_map]
  have hsections (x : Design) : x.sections.flatMap Section.tokens =
      (x.sections.map Section.content).flatMap fun s =>
        [.keyword .band, .identifier s.1.keyword, .braceOpen] ++ s.2.flatMap Element.tokens ++
          [.braceClose] := by
    rw [List.flatMap_map]
    simp only [Section.content, List.flatMap_map]
    rfl
  rw [tokens, tokens, hparameters, hparameters d', hsections, hsections d', h.name, h.parameters,
    h.sections]

/-- A design is parsed from a source exactly if the source spells it. -/
theorem Design.exists_parse_iff_spelledBy (d : Design) (source : String) :
    (∃ d', Design.parse source = .ok d' ∧ d'.SameContent d) ↔ d.SpelledBy colonNext source := by
  constructor
  · rintro ⟨d', hparse, hsame⟩
    have hd' := spellable_of_parse hparse
    have hd := hsame.spellable hd'
    obtain ⟨ts, hlex, hread⟩ := (parse_eq_ok_iff source d').mp hparse
    have hreads : Reads source.toList (ts.map (·.value)) :=
      (exists_lex_iff_reads source _).mp ⟨ts, hlex, rfl⟩
    have hlexical : ∀ t ∈ ts, t.value.Lexical := fun t ht =>
      hreads.lexical t.value (List.mem_map_of_mem ht)
    have htokens : dropStringTypes colonNext (ts.map (·.value)) = d'.tokens :=
      Place.settled_of_after (ofTokens_eq_ok_iff.mp hread) hlexical trivial
    refine ⟨hd, ts.map (·.value), (tokens?_eq_some_iff _ _).mpr hreads, ?_⟩
    rw [tokens?_print hd, htokens, hsame.tokens_eq]
  · rintro ⟨hd, ts, hsource, hprint⟩
    rw [tokens?_print hd] at hprint
    have hreads := (tokens?_eq_some_iff source ts).mp hsource
    obtain ⟨located, hlex, rfl⟩ := (exists_lex_iff_reads source ts).mpr hreads
    have htokens : (joinStringTypes located).map (·.value) = d.tokens := by
      rw [values_joinStringTypes, Option.some.inj hprint]
    obtain ⟨d', hafter, hsame⟩ := Place.exists_after_tokens htokens
    have hread : Design.ofTokens (byteLength source.toList) located = .ok d' :=
      ofTokens_eq_ok_iff.mpr (Place.after_of_joinStringTypes hafter)
    exact ⟨d', (parse_eq_ok_iff source d').mpr ⟨located, hlex, hread⟩, hsame⟩

/-- A source is parsed to the designs that it spells, and it spells only one, up to spans. -/
theorem parsed_iff_spelled (source : String) :
    (∀ d : Design, (∃ d', Design.parse source = .ok d' ∧ d'.SameContent d) ↔
      d.SpelledBy colonNext source) ∧
    ∀ d₁ d₂ : Design, d₁.SpelledBy colonNext source → d₂.SpelledBy colonNext source →
      d₁.SameContent d₂ := by
  refine ⟨fun d => d.exists_parse_iff_spelledBy source, ?_⟩
  intro d₁ d₂ h₁ h₂
  obtain ⟨e₁, hparse₁, hsame₁⟩ := (d₁.exists_parse_iff_spelledBy source).mpr h₁
  obtain ⟨e₂, hparse₂, hsame₂⟩ := (d₂.exists_parse_iff_spelledBy source).mpr h₂
  obtain rfl := Except.ok.inj (hparse₁.symm.trans hparse₂)
  exact hsame₁.symm.trans hsame₂

theorem parsed_iff_spelled_typed :
    ∃ d, Design.parse
        "report \"R\" \x7b section detail \x7b textfield `a`: string text \"b\" \x7d \x7d" = .ok d ∧
      d.SpelledBy colonNext
        "report \"R\" \x7b section detail \x7b textfield `a`: string text \"b\" \x7d \x7d" ∧
      ∀ d' : Design, d'.SpelledBy colonNext
        "report \"R\" \x7b section detail \x7b textfield `a`: string text \"b\" \x7d \x7d" →
          d.SameContent d' :=
  have hparse : Design.parse
      "report \"R\" \x7b section detail \x7b textfield `a`: string text \"b\" \x7d \x7d" =
        .ok ⟨"R", [], [⟨.detail, [⟨.field ⟨"a", .string⟩, ⟨30, 51⟩⟩,
          ⟨.text "b", ⟨52, 60⟩⟩]⟩]⟩ := by decide +kernel
  have hspelled := ((parsed_iff_spelled _).1 _).mp ⟨_, hparse, rfl, rfl, rfl⟩
  ⟨_, hparse, hspelled, fun _ => (parsed_iff_spelled _).2 _ _ hspelled⟩

/-- A second type behind a type `string` is not read, though without the first it would be. -/
theorem twice_typed_expression_not_parsed :
    (⟨"R", [], [⟨.detail, [⟨.field ⟨"a", .number⟩, ⟨30, 59⟩⟩]⟩]⟩ : Design).SpelledBy
      (fun _ => false)
      "report \"R\" \x7b section detail \x7b textfield `a`: string: number \x7d \x7d" ∧
    ∀ d, Design.parse
      "report \"R\" \x7b section detail \x7b textfield `a`: string: number \x7d \x7d" ≠ .ok d := by
  constructor
  · refine ⟨⟨by simp, ?_⟩, [.keyword .report, .string "R", .braceOpen, .keyword .band,
      .identifier "detail", .braceOpen, .keyword .textField, .expression "a", .colon,
      .identifier "string", .colon, .identifier "number", .braceClose, .braceClose], ?_, ?_⟩
    · simp [Section.Spellable, Element.Spellable, Element.expression?]
    · decide +kernel
    · decide +kernel
  · intro d h
    have hrefused : (Design.parse
        "report \"R\" \x7b section detail \x7b textfield `a`: string: number \x7d \x7d").toOption =
          none := by decide +kernel
    rw [h] at hrefused
    cases hrefused

end ReportAssembly
