import ReportAssembly.Proofs.GrammarLanguage

/-!
The entries of a design, which are its declarations and its elements, among the tokens of its
source. Main statement: the tokens that are read as a design hold its entries in document order,
each in a row of tokens from its keyword to the last token that belongs to it.
-/

namespace ReportAssembly

inductive Entry
  | parameter (p : Parameter)
  | element (e : Element)
  deriving DecidableEq, Repr

namespace Entry

def keyword : Entry → Keyword
  | parameter _ => .parameter
  | element (.text _) => .text
  | element (.field _) => .textField
  | element (.subreport _) => .subreport

@[simp] theorem keyword_carrier (carrier : Carrier) (e : Expression) :
    (element (carrier.element e)).keyword = carrier.keyword := by
  cases carrier <;> rfl

theorem keyword_ne (x : Entry) : x.keyword ≠ .report ∧ x.keyword ≠ .band := by
  rcases x with _ | _ | _ | _ <;> exact ⟨Keyword.noConfusion, Keyword.noConfusion⟩

inductive SpelledBy : Entry → List Token → Prop
  | parameter {name : String} {type : ValueType} {t : Token} (h : t.NamesType type) :
      SpelledBy (.parameter ⟨name, type⟩) [.keyword .parameter, .identifier name, .colon, t]
  | text {content : String} :
      SpelledBy (.element (.text content)) [.keyword .text, .string content]
  | untyped {carrier : Carrier} {text : String} :
      SpelledBy (.element (carrier.element ⟨text, .string⟩))
        [.keyword carrier.keyword, .expression text]
  | typed {carrier : Carrier} {text : String} {type : ValueType} {t : Token}
      (h : t.NamesType type) :
      SpelledBy (.element (carrier.element ⟨text, type⟩))
        [.keyword carrier.keyword, .expression text, .colon, t]

theorem SpelledBy.exists_cons {x : Entry} {ts : List Token} (h : x.SpelledBy ts) :
    ∃ rest, ts = .keyword x.keyword :: rest := by
  cases h with
  | parameter => exact ⟨_, rfl⟩
  | text => exact ⟨_, rfl⟩
  | untyped => exact ⟨_, by rw [keyword_carrier]⟩
  | typed => exact ⟨_, by rw [keyword_carrier]⟩

/-- Behind the keyword of an entry no keyword of an entry follows in its row. -/
theorem SpelledBy.ne_keyword {x : Entry} {t : Token} {ts : List Token} (h : x.SpelledBy (t :: ts)) :
    ∀ u ∈ ts, ∀ y : Entry, u ≠ .keyword y.keyword := by
  have htype {u : Token} {type : ValueType} (hu : u.NamesType type) (y : Entry) :
      u ≠ .keyword y.keyword := by
    cases hu with
    | report => exact fun he => y.keyword_ne.1 (Token.keyword.inj he).symm
    | word => exact Token.noConfusion
  cases h with
  | parameter hu => simp [htype hu]
  | text => simp
  | untyped => simp
  | typed hu => simp [htype hu]

end Entry

def Section.entries (s : Section) : List (Located Entry) :=
  s.elements.map fun e => ⟨.element e.value, e.span⟩

def Design.entries (d : Design) : List (Located Entry) :=
  (d.parameters.map fun p => ⟨.parameter p.value, p.span⟩) ++ d.sections.flatMap Section.entries

theorem Section.entries_add (s : Section) (e : Located Element) :
    (s.add e).entries = s.entries ++ [⟨.element e.value, e.span⟩] := by
  simp [entries, add]

theorem Design.entries_declare {d : Design} (h : d.sections = []) (q : Located Parameter) :
    (d.declare q).entries = d.entries ++ [⟨.parameter q.value, q.span⟩] := by
  simp [entries, declare, h]

theorem Design.entries_addSection (d : Design) (s : Section) :
    (d.addSection s).entries = d.entries ++ s.entries := by
  simp [entries, addSection]

/-- A row of tokens is that of an entry: the entry is spelled by it, begins where the row begins and
stops where it stops. No colon comes next, so a type that is written for it is in the row. -/
structure Occupies (x : Located Entry) (own : List (Located Token)) (next : Lookahead) : Prop where
  spelled : x.value.SpelledBy (own.map (·.value))
  start : own.head?.map (·.span.start) = some x.span.start
  stop : own.getLast?.map (·.span.stop) = some x.span.stop
  ended : next ≠ some .colon

def lookahead (ts : List (Located Token)) : Lookahead :=
  ts.head?.map (·.value)

inductive Holds : List (Located Entry) → List (Located Token) → Prop
  | nil : Holds [] []
  | other {xs : List (Located Entry)} {t : Located Token} {ts : List (Located Token)}
      (ht : ∀ x : Entry, t.value ≠ .keyword x.keyword) (h : Holds xs ts) : Holds xs (t :: ts)
  | entry {x : Located Entry} {xs : List (Located Entry)} {own ts : List (Located Token)}
      (hx : Occupies x own (lookahead ts)) (h : Holds xs ts) : Holds (x :: xs) (own ++ ts)

namespace Holds

variable {xs : List (Located Entry)} {ts : List (Located Token)}

/-- Each entry that is held occupies a row of the tokens. -/
theorem exists_of_mem (h : Holds xs ts) {x : Located Entry} (hx : x ∈ xs) :
    ∃ before own after, ts = before ++ own ++ after ∧ Occupies x own (lookahead after) := by
  induction h with
  | nil => exact absurd hx List.not_mem_nil
  | @other _ t ts _ _ ih =>
    obtain ⟨before, own, after, rfl, hown⟩ := ih hx
    exact ⟨t :: before, own, after, rfl, hown⟩
  | @entry y xs own ts hy _ ih =>
    obtain rfl | hx := List.mem_cons.mp hx
    · exact ⟨[], own, ts, rfl, hy⟩
    · obtain ⟨before, own', after, rfl, hown⟩ := ih hx
      refine ⟨own ++ before, own', after, ?_, hown⟩
      simp only [List.append_assoc]

/-- Wherever the keyword of an entry stands an entry begins. -/
theorem exists_of_keyword (h : Holds xs ts) {t : Located Token} (ht : t ∈ ts) {y : Entry}
    (hy : t.value = .keyword y.keyword) :
    ∃ x ∈ xs, x.value.keyword = y.keyword ∧ x.span.start = t.span.start := by
  induction h with
  | nil => exact absurd ht List.not_mem_nil
  | other hother _ ih =>
    obtain rfl | ht := List.mem_cons.mp ht
    · exact absurd hy (hother y)
    · exact ih ht
  | @entry x xs own ts hx _ ih =>
    rcases List.mem_append.mp ht with hown | hbehind
    · obtain ⟨first, hfirst, hstart⟩ := Option.map_eq_some_iff.mp hx.start
      obtain ⟨own, rfl⟩ := List.head?_eq_some_iff.mp hfirst
      obtain rfl | hinner := List.mem_cons.mp hown
      · obtain ⟨values, hvalues⟩ := hx.spelled.exists_cons
        have hfirst : t.value = .keyword x.value.keyword := (List.cons.inj hvalues).1
        have hkeyword := Token.keyword.inj (hfirst.symm.trans hy)
        exact ⟨x, List.mem_cons_self, hkeyword, hstart.symm⟩
      · exact absurd hy (hx.spelled.ne_keyword t.value (List.mem_map_of_mem hinner) y)
    · obtain ⟨z, hz, hsame⟩ := ih hbehind
      exact ⟨z, List.mem_cons_of_mem x hz, hsame⟩

/-- Where the tokens stand apart, so do the entries. -/
theorem apart (h : Holds xs ts)
    (hts : ts.Pairwise fun t u => t.span.stop ≤ u.span.start) :
    xs.Pairwise fun x y => x.span.stop ≤ y.span.start := by
  induction h with
  | nil => exact .nil
  | other _ _ ih => exact ih hts.of_cons
  | @entry x xs own ts hx h ih =>
    obtain ⟨-, hrest, hbetween⟩ := List.pairwise_append.mp hts
    refine List.pairwise_cons.mpr ⟨fun y hy => ?_, ih hrest⟩
    obtain ⟨before, own', after, rfl, hown⟩ := h.exists_of_mem hy
    obtain ⟨last, hlast, hstop⟩ := Option.map_eq_some_iff.mp hx.stop
    obtain ⟨first, hfirst, hstart⟩ := Option.map_eq_some_iff.mp hown.start
    have hmem : first ∈ before ++ own' ++ after :=
      List.mem_append_left _ (List.mem_append_right _ (List.mem_of_head? hfirst))
    rw [← hstop, ← hstart]
    exact hbetween last (List.mem_of_getLast? hlast) first hmem

end Holds

namespace Place

def entries : Place → List (Located Entry)
  | start | reportName | bodyOpening _ => []
  | declarations draft | parameterName draft _ | parameterColon draft _ _
  | parameterType draft _ _ | sections draft | sectionKind draft | sectionOpening draft _ =>
    draft.entries
  | elements draft band | textContent draft band _ | expressionText draft band _ _
  | afterExpression draft band _ | expressionType draft band _ => draft.entries ++ band.entries
  | complete d => d.entries

def Begun : Place → List (Located Token) → Prop
  | parameterName _ begun, own => ∃ s, own = [⟨.keyword .parameter, s⟩] ∧ s.start = begun
  | parameterColon _ begun name, own =>
    ∃ s s', own = [⟨.keyword .parameter, s⟩, ⟨.identifier name, s'⟩] ∧ s.start = begun
  | parameterType _ begun name, own =>
    ∃ s s' s'', own = [⟨.keyword .parameter, s⟩, ⟨.identifier name, s'⟩, ⟨.colon, s''⟩] ∧
      s.start = begun
  | textContent _ _ begun, own => ∃ s, own = [⟨.keyword .text, s⟩] ∧ s.start = begun
  | expressionText _ _ begun carrier, own =>
    ∃ s, own = [⟨.keyword carrier.keyword, s⟩] ∧ s.start = begun
  | afterExpression _ _ e, own =>
    ∃ s s', own = [⟨.keyword e.carrier.keyword, s⟩, ⟨.expression e.text, s'⟩] ∧
      s.start = e.start ∧ s'.stop = e.stop
  | expressionType _ _ e, own =>
    ∃ s s' s'', own = [⟨.keyword e.carrier.keyword, s⟩, ⟨.expression e.text, s'⟩, ⟨.colon, s''⟩] ∧
      s.start = e.start
  | _, own => own = []

/-- The token goes on with an entry that has begun, ends one, or stands outside of all: what is then
held behind it is held before it, with the entries that it completes in front. -/
def Passes (p : Place) (own : List (Located Token)) (t : Located Token) (p' : Place)
    (ts : List (Located Token)) : Prop :=
  ∃ own' done, p'.Begun own' ∧ p'.entries = p.entries ++ done ∧
    ∀ xs, Holds xs (own' ++ ts) → Holds (done ++ xs) (own ++ t :: ts)

variable {p p' : Place} {draft : Design} {band : Section} {own ts : List (Located Token)}
  {t : Located Token}

theorem Passes.outside (hp' : p'.Begun []) (hentries : p'.entries = p.entries)
    (ht : ∀ x : Entry, t.value ≠ .keyword x.keyword) : p.Passes [] t p' ts :=
  ⟨[], [], hp', by rw [hentries, List.append_nil], fun _ h => .other ht h⟩

theorem Passes.inside (hp' : p'.Begun (own ++ [t])) (hentries : p'.entries = p.entries) :
    p.Passes own t p' ts := by
  refine ⟨own ++ [t], [], hp', by rw [hentries, List.append_nil], fun xs h => ?_⟩
  rwa [List.append_assoc] at h

/-- The last token of an entry completes it. -/
theorem Passes.last {x : Located Entry} (hp' : p'.Begun [])
    (hentries : p'.entries = p.entries ++ [x]) (hx : Occupies x (own ++ [t]) (lookahead ts)) :
    p.Passes own t p' ts := by
  refine ⟨[], [x], hp', hentries, fun xs h => ?_⟩
  have hheld : Holds (x :: xs) (own ++ [t] ++ ts) := .entry hx h
  rwa [List.append_assoc] at hheld

theorem Passes.last_element {e : Located Element}
    (hentries : p.entries = draft.entries ++ band.entries)
    (he : Occupies ⟨.element e.value, e.span⟩ (own ++ [t]) (lookahead ts)) :
    p.Passes own t (elements draft (band.add e)) ts := by
  refine .last rfl ?_ he
  rw [entries, band.entries_add, hentries, List.append_assoc]

/-- Before an element or the end of a section, an element without a type is ended by what comes
next. -/
theorem AtElements.exists_done (h : AtElements draft band p) (hown : p.Begun own) :
    ∃ done, draft.entries ++ band.entries = p.entries ++ done ∧
      ∀ xs ts, lookahead ts ≠ some .colon → Holds xs ts → Holds (done ++ xs) (own ++ ts) := by
  cases h with
  | elements =>
    obtain rfl : own = [] := hown
    exact ⟨[], (List.append_nil _).symm, fun _ _ _ h => h⟩
  | @afterExpression band e =>
    obtain ⟨s, s', rfl, hstart, hstop⟩ := hown
    refine ⟨[⟨.element e.untyped.value, e.untyped.span⟩], ?_, fun xs ts hts h => .entry ?_ h⟩
    · rw [band.entries_add, ← List.append_assoc]
      rfl
    · exact ⟨.untyped, congrArg some hstart, congrArg some hstop, hts⟩

/-- The next token does not belong to the entry before it. -/
theorem AtElements.passes (h : AtElements draft band p) (hown : p.Begun own)
    (ht : t.value ≠ .colon) {own' : List (Located Token)} (hp' : p'.Begun own')
    (hentries : p'.entries = draft.entries ++ band.entries)
    (hholds : ∀ xs, Holds xs (own' ++ ts) → Holds xs (t :: ts)) : p.Passes own t p' ts := by
  obtain ⟨done, hdone, hheld⟩ := h.exists_done hown
  have hnext : lookahead (t :: ts) ≠ some .colon := fun he => ht (Option.some.inj he)
  exact ⟨own', done, hp', hentries.trans hdone, fun xs hxs => hheld xs _ hnext (hholds xs hxs)⟩

theorem AtSections.entries_eq (h : AtSections draft p) : p.entries = draft.entries := by
  cases h <;> rfl

theorem AtSections.begun (h : AtSections draft p) (hown : p.Begun own) : own = [] := by
  cases h <;> exact hown

/-- Every step of the grammar passes its token. -/
theorem Step.passes (h : Step p t p') (hp : p.Ordered) (hown : p.Begun own)
    (hts : p'.Begun [] → lookahead ts ≠ some .colon) : p.Passes own t p' ts := by
  have hother {t : Token} (ht : ∀ k, t ≠ .keyword k) (x : Entry) : t ≠ .keyword x.keyword :=
    ht x.keyword
  cases h with
  | report =>
    obtain rfl : own = [] := hown
    exact .outside rfl rfl fun x hx => x.keyword_ne.1 (Token.keyword.inj hx).symm
  | reportName =>
    obtain rfl : own = [] := hown
    exact .outside rfl rfl (hother (by simp))
  | openReport =>
    obtain rfl : own = [] := hown
    exact .outside rfl rfl (hother (by simp))
  | parameter =>
    obtain rfl : own = [] := hown
    exact .inside ⟨_, rfl, rfl⟩ rfl
  | parameterName =>
    obtain ⟨s, rfl, hs⟩ := hown
    exact .inside ⟨s, _, rfl, hs⟩ rfl
  | parameterColon =>
    obtain ⟨s, s', rfl, hs⟩ := hown
    exact .inside ⟨s, s', _, rfl, hs⟩ rfl
  | parameterType h =>
    obtain ⟨s, s', s'', rfl, hs⟩ := hown
    exact .last rfl (Design.entries_declare hp _)
      ⟨.parameter h, congrArg some hs, rfl, hts rfl⟩
  | band h =>
    obtain rfl := h.begun hown
    exact .outside rfl h.entries_eq.symm fun x hx => x.keyword_ne.2 (Token.keyword.inj hx).symm
  | closeReport h =>
    obtain rfl := h.begun hown
    exact .outside rfl h.entries_eq.symm (hother (by simp))
  | sectionKind =>
    obtain rfl : own = [] := hown
    exact .outside rfl rfl (hother (by simp))
  | openSection =>
    obtain rfl : own = [] := hown
    exact .outside rfl (List.append_nil _) (hother (by simp))
  | text h => exact h.passes hown (by simp) ⟨_, rfl, rfl⟩ rfl fun _ hxs => hxs
  | carrier _ h => exact h.passes hown (by simp) ⟨_, rfl, rfl⟩ rfl fun _ hxs => hxs
  | closeSection h =>
    exact h.passes hown (by simp) rfl (Design.entries_addSection _ _)
      fun _ hxs => .other (hother (by simp)) hxs
  | textContent =>
    obtain ⟨s, rfl, hs⟩ := hown
    exact .last_element rfl ⟨.text, congrArg some hs, rfl, hts rfl⟩
  | expressionText =>
    obtain ⟨s, rfl, hs⟩ := hown
    exact .inside ⟨s, _, rfl, hs, rfl⟩ rfl
  | expressionColon =>
    obtain ⟨s, s', rfl, hs, -⟩ := hown
    exact .inside ⟨s, s', _, rfl, hs⟩ rfl
  | expressionType h =>
    obtain ⟨s, s', s'', rfl, hs⟩ := hown
    exact .last_element rfl ⟨.typed h, congrArg some hs, rfl, hts rfl⟩

/-- A colon comes only behind the name of a parameter and behind an expression. -/
theorem lookahead_ne_colon {d : Design} (h : p.after ts = .ok (complete d)) (hp : p.Begun []) :
    lookahead ts ≠ some .colon := by
  cases ts with
  | nil => exact nofun
  | cons t ts =>
    obtain ⟨p', hstep, -⟩ := exists_step_of_after h
    obtain ⟨value, span⟩ := t
    intro hcolon
    obtain rfl : value = .colon := Option.some.inj hcolon
    cases hstep with
    | parameterColon => simp [Begun] at hp
    | expressionColon => simp [Begun] at hp
    | parameterType h => cases h
    | expressionType h => cases h

/-- Tokens that are read to the end of a design hold the entries that they add to it. -/
theorem exists_holds_of_after {d : Design} (h : p.after ts = .ok (complete d)) (hp : p.Ordered)
    (hown : p.Begun own) : ∃ xs, d.entries = p.entries ++ xs ∧ Holds xs (own ++ ts) := by
  -- The tokens of the entry that has begun are carried along, for the place has only its text.
  induction ts generalizing p own with
  | nil =>
    obtain rfl := Except.ok.inj h
    obtain rfl : own = [] := hown
    exact ⟨[], (List.append_nil _).symm, .nil⟩
  | cons t ts ih =>
    obtain ⟨p', hstep, hafter⟩ := exists_step_of_after h
    obtain ⟨own', done, hown', hentries, hheld⟩ :=
      hstep.passes hp hown fun hp' => lookahead_ne_colon hafter hp'
    obtain ⟨xs, hxs, hholds⟩ := ih hafter (hstep.ordered hp) hown'
    refine ⟨done ++ xs, ?_, hheld xs hholds⟩
    rw [hxs, hentries, List.append_assoc]

end Place

/-- The tokens of a source hold the entries of its design, in document order. -/
theorem Design.holds_entries {length : Nat} {ts : List (Located Token)} {d : Design}
    (h : Design.ofTokens length ts = .ok d) : Holds d.entries ts := by
  obtain ⟨xs, hxs, hholds⟩ :=
    Place.exists_holds_of_after (ofTokens_eq_ok_iff.mp h) trivial (rfl : Place.start.Begun [])
  exact hxs ▸ hholds

end ReportAssembly
