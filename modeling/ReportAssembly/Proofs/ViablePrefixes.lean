import ReportAssembly.Proofs.PlacelessReading
import ReportAssembly.Proofs.GrammarLanguage

/-!
The beginnings of designs. Every place of the grammar can be left for the end of a design, so what
the grammar has not refused can still become one. Main statements: a list of tokens begins a design
exactly if the grammar has a place behind it, and may go on with a token, or end, exactly if that
place allows it.
-/

namespace ReportAssembly

def Parsable (ts : List Token) : Prop :=
  ∃ source d, tokens? source = some ts ∧ Design.parse source = .ok d

def Viable (ts : List Token) : Prop :=
  ∃ us, Parsable (ts ++ us)

/-- What stands next may stand behind these tokens: with it they begin a design, or are one if it is
the end. -/
def Lookahead.Continues (ts : List Token) : Lookahead → Prop
  | some t => Viable (ts ++ [t])
  | none => Parsable ts

theorem Token.Lexical.exists_spells {t : Token} (h : t.Lexical) : ∃ cs, Spells cs [t] := by
  cases t with
  | keyword k => exact ⟨_, spells_keyword k⟩
  | braceOpen => exact ⟨_, spells_brace_open⟩
  | braceClose => exact ⟨_, spells_brace_close⟩
  | colon => exact ⟨_, spells_colon⟩
  | identifier name => exact ⟨_, spells_identifier h⟩
  | string value => exact ⟨_, spells_quote value⟩
  | expression text =>
    have hspells := spells_expression h
    rw [String.ofList_toList] at hspells
    exact ⟨_, hspells⟩

/-- Tokens that have written forms have a source together. -/
theorem exists_source {ts : List Token} (h : ∀ t ∈ ts, t.Lexical) :
    ∃ source, tokens? source = some ts := by
  have hspells : ∃ cs, Spells cs ts := by
    -- A blank behind each token keeps it apart from the next.
    induction ts with
    | nil => exact ⟨[], spells_nil⟩
    | cons t ts ih =>
      obtain ⟨ht, hts⟩ := List.forall_mem_cons.mp h
      obtain ⟨cs, hcs⟩ := ht.exists_spells
      obtain ⟨ds, hds⟩ := ih hts
      exact ⟨cs ++ ' ' :: ds, hcs.append_space hds⟩
  obtain ⟨cs, hcs⟩ := hspells
  refine ⟨.ofList cs, (tokens?_eq_some_iff _ _).mpr ?_⟩
  rw [String.toList_ofList]
  exact hcs.reads

variable {ts : List (Located Token)}

/-- It does not matter where the tokens of a design stand. -/
theorem parsable_iff :
    Parsable (ts.map (·.value)) ↔
      (∀ t ∈ ts, t.value.Lexical) ∧ ∃ d, Place.start.after ts = .ok (.complete d) := by
  constructor
  · rintro ⟨source, d, htokens, hparse⟩
    have hreads := (tokens?_eq_some_iff _ _).mp htokens
    refine ⟨fun t ht => hreads.lexical t.value (List.mem_map_of_mem ht), ?_⟩
    obtain ⟨us, hlex, hread⟩ := (Design.parse_eq_ok_iff source d).mp hparse
    have hvalues : us.map (·.value) = ts.map (·.value) := by
      rw [tokens?, hlex] at htokens
      exact Option.some.inj htokens
    obtain ⟨-, d', -, hok, -⟩ | ⟨e, -, herror, -⟩ :=
      Design.ofTokens_alike hvalues (byteLength source.toList) 0
    · exact ⟨d', Design.ofTokens_eq_ok_iff.mp hok⟩
    · cases hread.symm.trans herror
  · rintro ⟨hlexical, d, hafter⟩
    have hread : Design.ofTokens 0 ts = .ok d := Design.ofTokens_eq_ok_iff.mpr hafter
    obtain ⟨source, htokens⟩ := exists_source (List.forall_mem_map.mpr hlexical)
    obtain ⟨us, hlex, hvalues⟩ :=
      (exists_lex_iff_reads source _).mpr ((tokens?_eq_some_iff _ _).mp htokens)
    obtain ⟨-, d', -, hok, -⟩ | ⟨e, -, herror, -⟩ :=
      Design.ofTokens_alike hvalues.symm 0 (byteLength source.toList)
    · exact ⟨source, d', htokens, (Design.parse_eq_ok_iff source d').mpr ⟨us, hlex, hok⟩⟩
    · cases hread.symm.trans herror

namespace Place

/-- Tokens in a row are read one part after the other. -/
theorem after_append_eq_ok_iff {p q : Place} {us : List (Located Token)} :
    p.after (ts ++ us) = .ok q ↔ ∃ p', p.after ts = .ok p' ∧ p'.after us = .ok q := by
  rw [after, List.foldlM_append]
  constructor
  · intro h
    cases hfront : p.after ts with
    | error e =>
      rw [after] at hfront
      rw [hfront] at h
      cases h
    | ok p' =>
      rw [after] at hfront
      rw [hfront] at h
      exact ⟨p', rfl, h⟩
  · rintro ⟨p', hfront, hrest⟩
    rw [after] at hfront
    rw [hfront]
    exact hrest

theorem after_singleton_eq_ok_iff {p q : Place} {t : Located Token} :
    p.after [t] = .ok q ↔ Step p t q := by
  rw [after, List.foldlM_cons, ← next_eq_ok_iff]
  cases p.next t <;> rfl

def Completable (p : Place) : Prop :=
  ∃ ts, (∀ t ∈ ts, t.value.Lexical) ∧ ∃ d, p.after ts = .ok (complete d)

/-- A place that a step leaves for a completable one is completable. -/
theorem Step.completable {p q : Place} {t : Located Token} (h : Step p t q) (ht : t.value.Lexical)
    (hq : q.Completable) : p.Completable := by
  obtain ⟨ts, hlexical, d, hafter⟩ := hq
  exact ⟨t :: ts, List.forall_mem_cons.mpr ⟨ht, hlexical⟩, d, (h.after_cons ts).trans hafter⟩

/-- Every place can be left for the end of a design. -/
theorem completable (p : Place) : p.Completable := by
  -- The shortest way out, from the end of a design backwards.
  have hcomplete (d : Design) : (complete d).Completable :=
    ⟨[], by simp, d, rfl⟩
  have hsections {draft : Design} {p : Place} (hp : AtSections draft p) : p.Completable :=
    Step.completable (t := ⟨.braceClose, .nowhere⟩) (.closeReport hp) trivial (hcomplete draft)
  have helements {draft : Design} {band : Section} {p : Place} (hp : AtElements draft band p) :
      p.Completable :=
    Step.completable (t := ⟨.braceClose, .nowhere⟩) (.closeSection hp) trivial (hsections .sections)
  have hopening (draft : Design) (kind : SectionKind) : (sectionOpening draft kind).Completable :=
    Step.completable (t := ⟨.braceOpen, .nowhere⟩) .openSection trivial (helements .elements)
  have htype (draft : Design) (begun : Nat) (name : String) :
      (parameterType draft begun name).Completable :=
    Step.completable (t := ⟨.keyword .report, .nowhere⟩) (.parameterType .report) trivial
      (hsections .declarations)
  have hcolon (draft : Design) (begun : Nat) (name : String) :
      (parameterColon draft begun name).Completable :=
    Step.completable (t := ⟨.colon, .nowhere⟩) .parameterColon trivial (htype draft begun name)
  have hbody (name : String) : (bodyOpening name).Completable :=
    Step.completable (t := ⟨.braceOpen, .nowhere⟩) .openReport trivial (hsections .declarations)
  have hname : reportName.Completable :=
    Step.completable (t := ⟨.string "", .nowhere⟩) .reportName trivial (hbody "")
  cases p with
  | start => exact Step.completable (t := ⟨.keyword .report, .nowhere⟩) .report trivial hname
  | reportName => exact hname
  | bodyOpening name => exact hbody name
  | declarations draft => exact hsections .declarations
  | parameterName draft begun =>
    have hlexical : (Token.identifier "p").Lexical := (by decide : isIdentifier "p" = true)
    exact Step.completable (t := ⟨.identifier "p", .nowhere⟩) .parameterName hlexical
      (hcolon draft begun "p")
  | parameterColon draft begun name => exact hcolon draft begun name
  | parameterType draft begun name => exact htype draft begun name
  | sections draft => exact hsections .sections
  | sectionKind draft =>
    have hkind := SectionKind.ofKeyword?_keyword .detail
    exact Step.completable (t := ⟨.identifier SectionKind.detail.keyword, .nowhere⟩)
      (.sectionKind hkind) (SectionKind.isIdentifier_keyword .detail) (hopening draft .detail)
  | sectionOpening draft kind => exact hopening draft kind
  | elements draft band => exact helements .elements
  | textContent draft band begun =>
    exact Step.completable (t := ⟨.string "", .nowhere⟩) .textContent trivial (helements .elements)
  | expressionText draft band begun carrier =>
    have hlexical : (Token.expression "").Lexical := List.not_mem_nil
    exact Step.completable (t := ⟨.expression "", .nowhere⟩) .expressionText hlexical
      (helements .afterExpression)
  | afterExpression draft band e => exact helements .afterExpression
  | expressionType draft band e =>
    exact Step.completable (t := ⟨.keyword .report, .nowhere⟩) (.expressionType .report) trivial
      (helements .elements)
  | complete d => exact hcomplete d

end Place

/-- Tokens begin a design if the grammar has a place behind them, and only then. -/
theorem viable_iff :
    Viable (ts.map (·.value)) ↔
      (∀ t ∈ ts, t.value.Lexical) ∧ ∃ p, Place.start.after ts = .ok p := by
  constructor
  · rintro ⟨us, hparsable⟩
    have hvalues : ts.map (·.value) ++ us =
        (ts ++ us.map fun u => (⟨u, .nowhere⟩ : Located Token)).map (·.value) := by
      simp [Function.comp_def]
    rw [hvalues, parsable_iff] at hparsable
    obtain ⟨hlexical, d, hafter⟩ := hparsable
    refine ⟨fun t ht => hlexical t (List.mem_append_left _ ht), ?_⟩
    obtain ⟨p, hfront, -⟩ := Place.after_append_eq_ok_iff.mp hafter
    exact ⟨p, hfront⟩
  · rintro ⟨hlexical, p, hafter⟩
    obtain ⟨us, hlexical', d, hafter'⟩ := p.completable
    refine ⟨us.map (·.value), ?_⟩
    rw [← List.map_append, parsable_iff]
    refine ⟨List.forall_mem_append.mpr ⟨hlexical, hlexical'⟩, d, ?_⟩
    rw [Place.after_append hafter, hafter']

def Lookahead.Fixed : Lookahead → Prop
  | some (.keyword _) | some .braceOpen | some .braceClose | some .colon | none => True
  | some (.identifier _) | some (.string _) | some (.expression _) => False

theorem Lookahead.Fixed.lexical {l : Lookahead} (h : l.Fixed) : ∀ t ∈ l, t.Lexical := by
  rintro t rfl
  cases t with
  | identifier | expression => exact h.elim
  | _ => trivial

namespace Place

def Takes (p : Place) : Lookahead → Prop
  | some t => ∃ q, Step p ⟨t, .nowhere⟩ q
  | none => ∃ d, p = complete d

/-- What may stand next is what the place takes. -/
theorem continues_iff {p : Place} (hlexical : ∀ t ∈ ts, t.value.Lexical)
    (hp : start.after ts = .ok p) (l : Lookahead) :
    l.Continues (ts.map (·.value)) ↔ (∀ t ∈ l, t.Lexical) ∧ p.Takes l := by
  cases l with
  | none =>
    rw [Lookahead.Continues, parsable_iff, and_iff_right hlexical, hp]
    simp [Takes]
  | some t =>
    have hvalues : ts.map (·.value) ++ [t] =
        (ts ++ [(⟨t, .nowhere⟩ : Located Token)]).map (·.value) := by
      simp
    have hafter (q : Place) :
        start.after (ts ++ [⟨t, .nowhere⟩]) = .ok q ↔ Step p ⟨t, .nowhere⟩ q := by
      rw [after_append hp, after_singleton_eq_ok_iff]
    rw [Lookahead.Continues, hvalues, viable_iff, List.forall_mem_append, and_iff_right hlexical]
    simp only [hafter]
    simp [Takes]

/-- What a place expects is what it takes, as far as that is fixed. -/
theorem mem_expected_iff (p : Place) (l : Lookahead) : l ∈ p.expected ↔ l.Fixed ∧ p.Takes l := by
  constructor
  · have hsections {draft : Design} {p : Place} (hp : AtSections draft p) :
        ∀ l ∈ [some (.keyword .band), some .braceClose], Lookahead.Fixed l ∧ p.Takes l := by
      simp only [List.forall_mem_cons]
      exact ⟨⟨trivial, _, .band hp⟩, ⟨trivial, _, .closeReport hp⟩, by simp⟩
    have helements {draft : Design} {band : Section} {p : Place} (hp : AtElements draft band p) :
        ∀ l ∈ elementStarts, l.Fixed ∧ p.Takes l := by
      simp only [elementStarts, List.forall_mem_cons]
      exact ⟨⟨trivial, _, .text hp⟩, ⟨trivial, _, .carrier .field hp⟩,
        ⟨trivial, _, .carrier .subreport hp⟩, ⟨trivial, _, .closeSection hp⟩, by simp⟩
    have hsingle {p : Place} {l' : Lookahead} (hl : l'.Fixed ∧ p.Takes l') :
        ∀ l ∈ [l'], l.Fixed ∧ p.Takes l := by
      simpa using hl
    revert l
    cases p with
    | start => exact hsingle ⟨trivial, _, .report⟩
    | bodyOpening => exact hsingle ⟨trivial, _, .openReport⟩
    | declarations =>
      exact List.forall_mem_cons.mpr ⟨⟨trivial, _, .parameter⟩, hsections .declarations⟩
    | parameterColon => exact hsingle ⟨trivial, _, .parameterColon⟩
    | parameterType => exact hsingle ⟨trivial, _, .parameterType .report⟩
    | sections => exact hsections .sections
    | sectionOpening => exact hsingle ⟨trivial, _, .openSection⟩
    | elements => exact helements .elements
    | afterExpression =>
      exact List.forall_mem_cons.mpr ⟨⟨trivial, _, .expressionColon⟩, helements .afterExpression⟩
    | expressionType => exact hsingle ⟨trivial, _, .expressionType .report⟩
    | complete => exact hsingle ⟨trivial, _, rfl⟩
    | reportName | parameterName | sectionKind | textContent | expressionText =>
      exact fun _ => nofun
  · rintro ⟨hfixed, htakes⟩
    cases l with
    | none =>
      obtain ⟨d, rfl⟩ := htakes
      exact List.mem_singleton_self _
    | some t =>
      obtain ⟨q, hstep⟩ := htakes
      cases hstep with
      | parameterType h | expressionType h =>
        cases h with
        | report => exact List.mem_singleton_self _
        | word => exact hfixed.elim
      | band h | closeReport h => cases h <;> simp [expected]
      | text h | closeSection h => cases h <;> simp [expected, elementStarts]
      | carrier carrier h =>
        cases h <;> cases carrier <;> simp [expected, elementStarts, Carrier.keyword]
      | reportName | parameterName | sectionKind | textContent | expressionText =>
        exact hfixed.elim
      | _ => simp [expected]

/-- Nothing is expected twice, nor do two things that are expected have the same name. -/
theorem nodup_expected (p : Place) : (p.expected.map Lookahead.describe).Nodup := by
  cases p <;> simp only [expected] <;> decide

end Place

end ReportAssembly
