import ReportAssembly.Proofs.ViablePrefixes

namespace ReportAssembly

/-- What an error says of the tokens before it and of what it found behind them. -/
structure SyntaxError.Explains (e : SyntaxError) (before : List Token) (found : Lookahead) :
    Prop where
  viable : Viable before
  stuck : ¬ found.Continues before
  section_iff : ∀ word, e.fault = .unknownSection word ↔
    before.getLast? = some (.keyword .band) ∧ found = some (.identifier word) ∧
      SectionKind.ofKeyword? word = none
  type_iff : ∀ word, e.fault = .unknownType word ↔
    before.getLast? = some .colon ∧ found = some (.identifier word) ∧
      ValueType.ofKeyword? word = none
  otherwise : (∀ word, e.fault ≠ .unknownSection word ∧ e.fault ≠ .unknownType word) →
    e.fault = .unexpected found ∧ e.notice.expected.Nodup ∧
      ∀ name, name ∈ e.notice.expected ↔
        ∃ l : Lookahead, l.Fixed ∧ l.Continues before ∧ l.describe = name

namespace Place

def ReadsKind : Place → Prop
  | sectionKind _ => True
  | _ => False

def ReadsType : Place → Prop
  | parameterType .. | expressionType .. => True
  | _ => False

variable {p q : Place} {t : Located Token} {ts : List (Located Token)} {e : SyntaxError}
  {found : Lookahead} {span : Span}

/-- The kind of a section is read exactly behind its keyword. -/
theorem Step.readsKind_iff (h : Step p t q) : q.ReadsKind ↔ t.value = .keyword .band := by
  obtain ⟨value, span⟩ := t
  cases h with
  | parameterType h | expressionType h => cases h <;> simp [ReadsKind]
  | carrier carrier => cases carrier <;> simp [ReadsKind, Carrier.keyword]
  | _ => simp [ReadsKind]

/-- A type is read exactly behind a colon. -/
theorem Step.readsType_iff (h : Step p t q) : q.ReadsType ↔ t.value = .colon := by
  obtain ⟨value, span⟩ := t
  cases h with
  | parameterType h | expressionType h => cases h <;> simp [ReadsType]
  | _ => simp [ReadsType]

/-- Kinds are read behind `section` and types behind a colon, and nowhere else. -/
theorem reads_iff_of_after (h : start.after ts = .ok q) :
    (q.ReadsKind ↔ (ts.map (·.value)).getLast? = some (.keyword .band)) ∧
      (q.ReadsType ↔ (ts.map (·.value)).getLast? = some .colon) := by
  obtain rfl | ⟨us, t, rfl⟩ := ts.eq_nil_or_concat
  · obtain rfl := Except.ok.inj h
    simp [ReadsKind, ReadsType]
  · rw [List.concat_eq_append] at h ⊢
    obtain ⟨p, -, hlast⟩ := after_append_eq_ok_iff.mp h
    have hstep := after_singleton_eq_ok_iff.mp hlast
    rw [hstep.readsKind_iff, hstep.readsType_iff]
    simp

inductive Refusal (p : Place) (span : Span) : Lookahead → SyntaxError → Prop
  | unknownSection {word : String} (hp : p.ReadsKind) (h : SectionKind.ofKeyword? word = none) :
      Refusal p span (some (.identifier word)) ⟨span, .unknownSection word, []⟩
  | unknownType {word : String} (hp : p.ReadsType) (h : ValueType.ofKeyword? word = none) :
      Refusal p span (some (.identifier word)) ⟨span, .unknownType word, []⟩
  | unexpected {found : Lookahead}
      (h : p.ReadsKind ∨ p.ReadsType → ∀ word, found ≠ some (.identifier word)) :
      Refusal p span found (p.reject found span)

theorem refusal_of_readType_eq_error (hp : p.ReadsType) (h : p.readType t = .error e) :
    p.Refusal t.span (some t.value) e := by
  unfold readType at h
  split at h
  · cases h
  · next word hword =>
    split at h
    · cases h
    · next hnone =>
      rw [← Except.error.inj h, hword]
      exact .unknownType hp hnone
  · next hother =>
    rw [← Except.error.inj h]
    exact .unexpected fun _ word hfound => hother word (Option.some.inj hfound)

/-- The grammar refuses a token in one of the ways listed. -/
theorem refusal_of_next_eq_error (h : p.next t = .error e) :
    p.Refusal t.span (some t.value) e := by
  have hunexpected (hp : ¬ (p.ReadsKind ∨ p.ReadsType)) :
      p.Refusal t.span (some t.value) (p.reject (some t.value) t.span) :=
    .unexpected fun hreads => absurd hreads hp
  have htype {f : ValueType → Place} (hp : p.ReadsType)
      (h : (do return f (← p.readType t)) = Except.error e) :
      p.Refusal t.span (some t.value) e := by
    cases hread : p.readType t with
    | ok type =>
      rw [hread] at h
      cases h
    | error e' =>
      rw [hread] at h
      obtain rfl := Except.error.inj h
      exact refusal_of_readType_eq_error hp hread
  cases p with
  | parameterType | expressionType => exact htype trivial h
  | sectionKind draft =>
    simp only [next] at h
    split at h
    · next word hword =>
      split at h
      · cases h
      · next hnone =>
        rw [← Except.error.inj h, hword]
        exact .unknownSection trivial hnone
    · next hother =>
      rw [← Except.error.inj h]
      exact .unexpected fun _ word hfound => hother word (Option.some.inj hfound)
  | complete design =>
    rw [← Except.error.inj h]
    exact hunexpected (by simp [ReadsKind, ReadsType])
  | _ =>
    simp only [next] at h
    repeat' split at h
    all_goals cases h
    all_goals exact hunexpected (by simp [ReadsKind, ReadsType])

/-- The grammar refuses the end in one of the ways listed. -/
theorem refusal_of_finish_eq_error (h : p.finish span = .error e) : p.Refusal span none e := by
  unfold finish at h
  split at h
  · cases h
  · rw [← Except.error.inj h]
    exact .unexpected fun _ _ => nofun

theorem not_readsType_of_readsKind (hp : p.ReadsKind) : ¬ p.ReadsType := by
  cases p <;> simp [ReadsKind, ReadsType] at hp ⊢

/-- A section is called unknown exactly where its kind is read and the word is none. -/
theorem Refusal.unknownSection_iff (h : p.Refusal span found e) (word : String) :
    e.fault = .unknownSection word ↔
      p.ReadsKind ∧ found = some (.identifier word) ∧ SectionKind.ofKeyword? word = none := by
  cases h with
  | @unknownSection word' hp hword =>
    constructor
    · intro hfault
      obtain rfl := SyntaxFault.unknownSection.inj hfault
      exact ⟨hp, rfl, hword⟩
    · rintro ⟨-, hfound, -⟩
      rw [Token.identifier.inj (Option.some.inj hfound)]
  | unknownType hp => simpa using fun hkind => absurd hp (not_readsType_of_readsKind hkind)
  | unexpected h => simpa [reject] using fun hkind hfound => absurd hfound (h (.inl hkind) word)

/-- A type is called unknown exactly where a type is read and the word is none. -/
theorem Refusal.unknownType_iff (h : p.Refusal span found e) (word : String) :
    e.fault = .unknownType word ↔
      p.ReadsType ∧ found = some (.identifier word) ∧ ValueType.ofKeyword? word = none := by
  cases h with
  | unknownSection hp => simpa using fun htype => absurd htype (not_readsType_of_readsKind hp)
  | @unknownType word' hp hword =>
    constructor
    · intro hfault
      obtain rfl := SyntaxFault.unknownType.inj hfault
      exact ⟨hp, rfl, hword⟩
    · rintro ⟨-, hfound, -⟩
      rw [Token.identifier.inj (Option.some.inj hfound)]
  | unexpected h => simpa [reject] using fun htype hfound => absurd hfound (h (.inr htype) word)

/-- Any other refusal lists what could stand there. -/
theorem Refusal.eq_reject (h : p.Refusal span found e)
    (he : ∀ word, e.fault ≠ .unknownSection word ∧ e.fault ≠ .unknownType word) :
    e = p.reject found span := by
  cases h with
  | @unknownSection word => exact absurd rfl (he word).1
  | @unknownType word => exact absurd rfl (he word).2
  | unexpected => rfl

/-- A refusal explains the error. -/
theorem Refusal.explains (h : p.Refusal span found e) (hlexical : ∀ t ∈ ts, t.value.Lexical)
    (hp : start.after ts = .ok p) (hstuck : ¬ found.Continues (ts.map (·.value))) :
    e.Explains (ts.map (·.value)) found := by
  obtain ⟨hkind, htype⟩ := reads_iff_of_after hp
  have hexpected (l : Lookahead) :
      l ∈ p.expected ↔ l.Fixed ∧ l.Continues (ts.map (·.value)) := by
    rw [mem_expected_iff, continues_iff hlexical hp]
    exact and_congr_right fun hl => (and_iff_right hl.lexical).symm
  refine ⟨viable_iff.mpr ⟨hlexical, p, hp⟩, hstuck, ?_, ?_, ?_⟩
  · intro word
    rw [← hkind, h.unknownSection_iff]
  · intro word
    rw [← htype, h.unknownType_iff]
  · intro he
    obtain rfl := h.eq_reject he
    refine ⟨rfl, p.nodup_expected, fun name => ?_⟩
    rw [SyntaxError.notice, reject, List.mem_map]
    simp only [hexpected, and_assoc]

/-- What has been refused in a list of tokens: the first that is, at the place before it. -/
theorem exists_refused_of_after (h : p.after ts = .error e) :
    ∃ before t rest q, ts = before ++ t :: rest ∧ p.after before = .ok q ∧
      q.next t = .error e := by
  induction ts generalizing p with
  | nil => cases h
  | cons t ts ih =>
    rw [after, List.foldlM_cons] at h
    cases hnext : p.next t with
    | error e' =>
      rw [hnext] at h
      obtain rfl := Except.error.inj h
      exact ⟨[], t, ts, p, rfl, rfl, hnext⟩
    | ok p' =>
      rw [hnext] at h
      obtain ⟨before, u, rest, q, rfl, hbefore, hq⟩ := ih h
      have hstep := Step.of_next_eq_ok hnext
      exact ⟨t :: before, u, rest, q, rfl, (hstep.after_cons before).trans hbefore, hq⟩

end Place

/-- An error of the grammar explains where the tokens stop being a design. -/
theorem Design.explains_of_ofTokens {length : Nat} {ts : List (Located Token)} {e : SyntaxError}
    (hlexical : ∀ t ∈ ts, t.value.Lexical) (h : ofTokens length ts = .error e) :
    ∃ before rest, ts = before ++ rest ∧
      e.Explains (before.map (·.value)) (rest.head?.map (·.value)) ∧
      e.span = rest.head?.elim (endSpan length ts) (·.span) := by
  rw [ofTokens] at h
  cases hafter : Place.start.after ts with
  | ok p =>
    rw [hafter] at h
    have hfinish : p.finish (endSpan length ts) = .error e := h
    refine ⟨ts, [], (List.append_nil ts).symm, ?_, Place.span_of_finish_eq_error hfinish⟩
    refine (Place.refusal_of_finish_eq_error hfinish).explains hlexical hafter ?_
    intro hparsable
    obtain ⟨-, d, hd⟩ := parsable_iff.mp hparsable
    obtain rfl := Except.ok.inj (hafter.symm.trans hd)
    cases hfinish
  | error e' =>
    rw [hafter] at h
    obtain rfl := Except.error.inj h
    obtain ⟨before, t, rest, p, rfl, hbefore, hnext⟩ := Place.exists_refused_of_after hafter
    refine ⟨before, t :: rest, rfl, ?_, Place.span_of_next_eq_error hnext⟩
    have hlexical' : ∀ u ∈ before, u.value.Lexical := fun u hu =>
      hlexical u (List.mem_append_left _ hu)
    refine (Place.refusal_of_next_eq_error hnext).explains hlexical' hbefore ?_
    intro hviable
    have hvalues : before.map (·.value) ++ [t.value] = (before ++ [t]).map (·.value) := by
      simp
    rw [Lookahead.Continues, hvalues, viable_iff] at hviable
    obtain ⟨-, q, hq⟩ := hviable
    obtain ⟨p', hp', hlast⟩ := Place.after_append_eq_ok_iff.mp hq
    obtain rfl := Except.ok.inj (hbefore.symm.trans hp')
    have hstep := Place.after_singleton_eq_ok_iff.mp hlast
    cases hnext.symm.trans hstep.next_eq_ok

/-- A source whose tokens are no design has one error. It stands at the first token that cannot
continue those before it, or at the end if there is none, and says what could stand there. -/
theorem syntax_error_at_first_stuck_token {source : String} {ts : List (Located Token)}
    {errors : List SyntaxError} (hlex : lex source = .ok ts)
    (hparse : Design.parse source = .error errors) :
    ∃ e before rest, errors = [e] ∧ ts = before ++ rest ∧
      e.Explains (before.map (·.value)) (rest.head?.map (·.value)) ∧
      e.span = rest.head?.elim (endSpan (byteLength source.toList) ts) (·.span) := by
  have hreads : Reads source.toList (ts.map (·.value)) :=
    (exists_lex_iff_reads source _).mp ⟨ts, hlex, rfl⟩
  have hlexical : ∀ t ∈ ts, t.value.Lexical := fun t ht =>
    hreads.lexical t.value (List.mem_map_of_mem ht)
  rw [Design.parse_of_lex hlex] at hparse
  cases hread : Design.ofTokens (byteLength source.toList) ts with
  | ok d =>
    rw [hread] at hparse
    cases hparse
  | error e =>
    rw [hread] at hparse
    obtain ⟨before, rest, hexplained⟩ := Design.explains_of_ofTokens hlexical hread
    exact ⟨e, before, rest, (Except.error.inj hparse).symm, hexplained⟩

/-- Behind its name a report has to be opened before it can be closed. -/
theorem syntax_error_at_first_stuck_token_unopened :
    lex "report \"R\" \x7d" =
      .ok [⟨.keyword .report, ⟨0, 6⟩⟩, ⟨.string "R", ⟨7, 10⟩⟩, ⟨.braceClose, ⟨11, 12⟩⟩] ∧
    Design.parse "report \"R\" \x7d" =
      .error [⟨⟨11, 12⟩, .unexpected (some .braceClose), [some .braceOpen]⟩] ∧
    ∃ before rest : List (Located Token),
      [⟨.keyword .report, ⟨0, 6⟩⟩, ⟨.string "R", ⟨7, 10⟩⟩, ⟨.braceClose, ⟨11, 12⟩⟩] =
        before ++ rest ∧
      SyntaxError.Explains ⟨⟨11, 12⟩, .unexpected (some .braceClose), [some .braceOpen]⟩
        (before.map (·.value)) (rest.head?.map (·.value)) := by
  have hlex : lex "report \"R\" \x7d" =
      .ok [⟨.keyword .report, ⟨0, 6⟩⟩, ⟨.string "R", ⟨7, 10⟩⟩, ⟨.braceClose, ⟨11, 12⟩⟩] := by
    decide +kernel
  have hparse : Design.parse "report \"R\" \x7d" =
      .error [⟨⟨11, 12⟩, .unexpected (some .braceClose), [some .braceOpen]⟩] := by
    decide +kernel
  obtain ⟨e, before, rest, he, hts, hexplains, -⟩ := syntax_error_at_first_stuck_token hlex hparse
  obtain rfl := List.singleton_inj.mp he
  exact ⟨hlex, hparse, before, rest, hts, hexplains⟩

/-- An error at the end of a source begins there and stops before that, at the end of the last
token, if anything stands behind it. -/
theorem syntax_error_at_end_runs_back :
    Design.parse "report \"R\" \x7b " = .error [⟨⟨13, 12⟩, .unexpected none,
      [some (.keyword .parameter), some (.keyword .band), some .braceClose]⟩] ∧
    byteLength "report \"R\" \x7b ".toList = 13 ∧ (⟨13, 12⟩ : Span) ≠ ⟨13, 13⟩ := by
  refine ⟨?_, ?_, ?_⟩
  · decide +kernel
  · decide
  · decide

end ReportAssembly
