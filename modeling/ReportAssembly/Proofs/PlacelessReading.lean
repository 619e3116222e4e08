import ReportAssembly.Proofs.Unplaced

namespace ReportAssembly

variable {α β : Type}

theorem Design.declare_unplaced (d : Design) (q : Located Parameter) :
    (d.declare q).unplaced = d.unplaced.declare q.unplaced := by
  rw [declare, unplaced, List.map_append]
  rfl

theorem Design.addSection_unplaced (d : Design) (s : Section) :
    (d.addSection s).unplaced = d.unplaced.addSection s.unplaced := by
  rw [addSection, unplaced, List.map_append]
  rfl

theorem Section.add_unplaced (s : Section) (e : Located Element) :
    (s.add e).unplaced = s.unplaced.add e.unplaced := by
  rw [add, unplaced, List.map_append]
  rfl

def OpenElement.unplaced (e : OpenElement) : OpenElement :=
  ⟨0, e.carrier, e.text, 0⟩

def SyntaxError.unplaced (e : SyntaxError) : SyntaxError :=
  { e with span := .nowhere }

/-- Two outcomes that are the same without spans both succeed or both fail. -/
theorem alike_of_unplaced_eq {f : α → β} {x x' : Except SyntaxError α}
    (h : (x.map f).mapError SyntaxError.unplaced = (x'.map f).mapError SyntaxError.unplaced) :
    (∃ a a', x = .ok a ∧ x' = .ok a' ∧ f a = f a') ∨
    ∃ e e', x = .error e ∧ x' = .error e' ∧ e.unplaced = e'.unplaced := by
  cases x with
  | ok a =>
    cases x' with
    | ok a' => exact .inl ⟨a, a', rfl, rfl, Except.ok.inj h⟩
    | error e' => exact nomatch h
  | error e =>
    cases x' with
    | ok a' => exact nomatch h
    | error e' => exact .inr ⟨e, e', rfl, rfl, Except.error.inj h⟩

namespace Place

def unplaced : Place → Place
  | start => start
  | reportName => reportName
  | bodyOpening name => bodyOpening name
  | declarations draft => declarations draft.unplaced
  | parameterName draft _ => parameterName draft.unplaced 0
  | parameterColon draft _ name => parameterColon draft.unplaced 0 name
  | parameterType draft _ name => parameterType draft.unplaced 0 name
  | sections draft => sections draft.unplaced
  | sectionKind draft => sectionKind draft.unplaced
  | sectionOpening draft kind => sectionOpening draft.unplaced kind
  | elements draft band => elements draft.unplaced band.unplaced
  | textContent draft band _ => textContent draft.unplaced band.unplaced 0
  | expressionText draft band _ carrier => expressionText draft.unplaced band.unplaced 0 carrier
  | afterExpression draft band e => afterExpression draft.unplaced band.unplaced e.unplaced
  | expressionType draft band e => expressionType draft.unplaced band.unplaced e.unplaced
  | complete design => complete design.unplaced

theorem expected_unplaced (p : Place) : p.unplaced.expected = p.expected := by
  cases p <;> rfl

/-- The grammar refuses the same tokens without spans, with the same fault. -/
theorem reject_unplaced (p : Place) (found : Lookahead) (span : Span) :
    p.unplaced.reject found .nowhere = (p.reject found span).unplaced := by
  rw [reject, expected_unplaced]
  rfl

/-- A type is read without spans. -/
theorem readType_unplaced (p : Place) (t : Located Token) :
    p.unplaced.readType t.unplaced = (p.readType t).mapError SyntaxError.unplaced := by
  obtain ⟨value, span⟩ := t
  cases value with
  | keyword k => cases k with
    | report => rfl
    | _ => exact congrArg Except.error (p.reject_unplaced _ span)
  | identifier word =>
    simp only [readType, Located.unplaced]
    cases ValueType.ofKeyword? word <;> rfl
  | _ => exact congrArg Except.error (p.reject_unplaced _ span)

theorem enterElement?_unplaced (draft : Design) (band : Section) (t : Located Token) :
    enterElement? draft.unplaced band.unplaced t.unplaced =
      (enterElement? draft band t).map unplaced := by
  obtain ⟨value, span⟩ := t
  cases value with
  | keyword k => cases k <;> rfl
  | braceClose => exact congrArg (fun d => some (sections d)) (draft.addSection_unplaced band).symm
  | _ => rfl

/-- A token leads on without spans where it does with them, and is refused for the same reason. -/
theorem next_unplaced (p : Place) (t : Located Token) :
    p.unplaced.next t.unplaced = ((p.next t).map unplaced).mapError SyntaxError.unplaced := by
  obtain ⟨value, span⟩ := t
  cases p with
  | start => cases value with
    | keyword k => cases k <;> rfl
    | _ => rfl
  | reportName => cases value <;> rfl
  | bodyOpening name => cases value <;> rfl
  | declarations draft => cases value with
    | keyword k => cases k <;> rfl
    | _ => rfl
  | parameterName draft begun => cases value <;> rfl
  | parameterColon draft begun name => cases value <;> rfl
  | parameterType draft begun name =>
    have htype := (parameterType draft begun name).readType_unplaced ⟨value, span⟩
    simp only [unplaced] at htype
    simp only [next, unplaced, htype]
    cases (parameterType draft begun name).readType ⟨value, span⟩ with
    | ok type =>
      have hdraft := draft.declare_unplaced ⟨⟨name, type⟩, ⟨begun, span.stop⟩⟩
      exact congrArg (fun d => Except.ok (declarations d)) hdraft.symm
    | error e => rfl
  | sections draft => cases value with
    | keyword k => cases k <;> rfl
    | _ => rfl
  | sectionKind draft => cases value with
    | identifier word =>
      simp only [next, unplaced, Located.unplaced]
      cases SectionKind.ofKeyword? word <;> rfl
    | _ => rfl
  | sectionOpening draft kind => cases value <;> rfl
  | elements draft band =>
    simp only [next, unplaced, enterElement?_unplaced]
    cases enterElement? draft band ⟨value, span⟩ <;> rfl
  | textContent draft band begun => cases value with
    | string content =>
      have hband := band.add_unplaced ⟨.text content, ⟨begun, span.stop⟩⟩
      exact congrArg (fun s => Except.ok (elements draft.unplaced s)) hband.symm
    | _ => rfl
  | expressionText draft band begun carrier => cases value <;> rfl
  | afterExpression draft band e =>
    have hband : band.unplaced.add e.unplaced.untyped = (band.add e.untyped).unplaced :=
      (band.add_unplaced e.untyped).symm
    have henter := enterElement?_unplaced draft (band.add e.untyped) ⟨value, span⟩
    rw [← hband] at henter
    cases value with
    | colon => rfl
    | _ =>
      simp only [next, unplaced, Located.unplaced] at henter ⊢
      rw [henter]
      cases enterElement? draft (band.add e.untyped) ⟨_, span⟩ <;> rfl
  | expressionType draft band e =>
    have htype := (expressionType draft band e).readType_unplaced ⟨value, span⟩
    simp only [unplaced] at htype
    simp only [next, unplaced, htype]
    cases (expressionType draft band e).readType ⟨value, span⟩ with
    | ok type =>
      have hband := band.add_unplaced (e.typed type span.stop)
      exact congrArg (fun s => Except.ok (elements draft.unplaced s)) hband.symm
    | error e => rfl
  | complete design => rfl

/-- An error about a type stands at its token. -/
theorem span_of_readType_eq_error {p : Place} {t : Located Token} {e : SyntaxError}
    (h : p.readType t = .error e) : e.span = t.span := by
  unfold readType at h
  split at h
  · cases h
  · split at h
    · cases h
    · rw [← Except.error.inj h]
  · rw [← Except.error.inj h, reject]

theorem span_of_readType_bind {p : Place} {f : ValueType → Place} {t : Located Token}
    {e : SyntaxError} (h : (do return f (← p.readType t)) = Except.error e) : e.span = t.span := by
  cases htype : p.readType t with
  | ok type =>
    rw [htype] at h
    cases h
  | error e' =>
    rw [htype] at h
    rw [← Except.error.inj h, span_of_readType_eq_error htype]

/-- A refused token is where the error is. -/
theorem span_of_next_eq_error {p : Place} {t : Located Token} {e : SyntaxError}
    (h : p.next t = .error e) : e.span = t.span := by
  cases p with
  | parameterType | expressionType => exact span_of_readType_bind h
  | complete design =>
    rw [← Except.error.inj h, reject]
  | _ =>
    simp only [next] at h
    repeat' split at h
    all_goals cases h
    all_goals rfl

/-- Two places that differ in spans at most stay so along tokens of the same values, up to tokens of
the same number that both refuse. -/
theorem after_alike {p p' : Place} (hp : p.unplaced = p'.unplaced) {ts us : List (Located Token)}
    (h : ts.map (·.value) = us.map (·.value)) :
    (∃ q q', p.after ts = .ok q ∧ p'.after us = .ok q' ∧ q.unplaced = q'.unplaced) ∨
    ∃ e e', p.after ts = .error e ∧ p'.after us = .error e' ∧ e.unplaced = e'.unplaced ∧
      ∃ x ∈ ts.zip us, e.span = x.1.span ∧ e'.span = x.2.span := by
  induction ts generalizing p p' us with
  | nil =>
    obtain rfl := List.map_eq_nil_iff.mp h.symm
    exact .inl ⟨p, p', rfl, rfl, hp⟩
  | cons t ts ih =>
    obtain ⟨u, us, rfl, hvalue, htail⟩ := List.map_eq_cons_iff.mp h.symm
    have ht : t.unplaced = u.unplaced := by
      rw [Located.unplaced, Located.unplaced, hvalue]
    have hnext : ((p.next t).map unplaced).mapError SyntaxError.unplaced =
        ((p'.next u).map unplaced).mapError SyntaxError.unplaced := by
      rw [← next_unplaced, ← next_unplaced, hp, ht]
    rw [after, List.foldlM_cons, after, List.foldlM_cons]
    obtain ⟨q, q', hq, hq', hqq⟩ | ⟨e, e', he, he', hfault⟩ := alike_of_unplaced_eq hnext
    · rw [hq, hq']
      obtain hok | ⟨e, e', he, he', hfault, x, hx, hspan⟩ := ih hqq htail.symm
      · exact .inl hok
      · exact .inr ⟨e, e', he, he', hfault, x, List.mem_cons_of_mem _ hx, hspan⟩
    · rw [he, he']
      exact .inr ⟨e, e', rfl, rfl, hfault, (t, u), List.mem_cons_self,
        span_of_next_eq_error he, span_of_next_eq_error he'⟩

/-- A design is finished, or refused, without spans. -/
theorem finish_unplaced (p : Place) (span : Span) :
    p.unplaced.finish .nowhere =
      ((p.finish span).map Design.unplaced).mapError SyntaxError.unplaced := by
  cases p <;> rfl

theorem span_of_finish_eq_error {p : Place} {span : Span} {e : SyntaxError}
    (h : p.finish span = .error e) : e.span = span := by
  unfold finish at h
  split at h
  · cases h
  · rw [← Except.error.inj h, reject]

end Place

/-- Designs that are the same without spans have the same content. -/
theorem Design.sameContent_of_unplaced_eq {d d' : Design} (h : d.unplaced = d'.unplaced) :
    d.SameContent d' :=
  d.unplaced_sameContent.symm.trans (h ▸ d'.unplaced_sameContent)

/-- Errors that say the same of corresponding places: of two tokens of the same number, or of the
ends of both sources. -/
structure SyntaxError.Corresponds (e e' : SyntaxError) (length length' : Nat)
    (ts us : List (Located Token)) : Prop where
  message : e.notice.message = e'.notice.message
  expected : e.notice.expected = e'.notice.expected
  place : (∃ x ∈ ts.zip us, e.span = x.1.span ∧ e'.span = x.2.span) ∨
    e.span = endSpan length ts ∧ e'.span = endSpan length' us

/-- Errors that are the same without spans say the same. -/
theorem SyntaxError.notice_of_unplaced_eq {e e' : SyntaxError} (h : e.unplaced = e'.unplaced) :
    e.notice.message = e'.notice.message ∧ e.notice.expected = e'.notice.expected := by
  obtain ⟨-, hfault, hexpected⟩ := SyntaxError.mk.inj h
  rw [notice, notice, hfault, hexpected]
  exact ⟨rfl, rfl⟩

/-- What the grammar makes of tokens depends on their values alone, but for where things stand. -/
theorem Design.ofTokens_alike {ts us : List (Located Token)}
    (h : ts.map (·.value) = us.map (·.value)) (length length' : Nat) :
    (∃ d d', ofTokens length ts = .ok d ∧ ofTokens length' us = .ok d' ∧ d.SameContent d') ∨
    ∃ e e', ofTokens length ts = .error e ∧ ofTokens length' us = .error e' ∧
      e.Corresponds e' length length' ts us := by
  have hstart : Place.start.unplaced = Place.start.unplaced := rfl
  rw [ofTokens, ofTokens]
  obtain ⟨q, q', hq, hq', hqq⟩ | ⟨e, e', he, he', hfault, hspan⟩ := Place.after_alike hstart h
  · have hfinish : ((q.finish (endSpan length ts)).map unplaced).mapError SyntaxError.unplaced =
        ((q'.finish (endSpan length' us)).map unplaced).mapError SyntaxError.unplaced := by
      rw [← Place.finish_unplaced, ← Place.finish_unplaced, hqq]
    rw [hq, hq']
    obtain ⟨d, d', hd, hd', hdd⟩ | ⟨e, e', he, he', hfault⟩ := alike_of_unplaced_eq hfinish
    · exact .inl ⟨d, d', hd, hd', sameContent_of_unplaced_eq hdd⟩
    · obtain ⟨hmessage, hexpected⟩ := SyntaxError.notice_of_unplaced_eq hfault
      have hends := And.intro (Place.span_of_finish_eq_error he) (Place.span_of_finish_eq_error he')
      exact .inr ⟨e, e', he, he', hmessage, hexpected, .inr hends⟩
  · obtain ⟨hmessage, hexpected⟩ := SyntaxError.notice_of_unplaced_eq hfault
    rw [he, he']
    exact .inr ⟨e, e', rfl, rfl, hmessage, hexpected, .inl hspan⟩

end ReportAssembly
