import ReportAssembly.Proofs.Descents

namespace ReportAssembly

variable {α ε : Type}

namespace Design

variable {d : Design} {n : String} {type : ValueType}

def LastDeclares (d : Design) (n : String) (type : ValueType) : Prop :=
  ∃ before span after, d.parameters = before ++ ⟨⟨n, type⟩, span⟩ :: after ∧
    ∀ q ∈ after, q.value.name ≠ n

/-- A name is declared last with a type exactly if its last declaration has it. -/
theorem lastDeclared?_eq_some_iff : d.lastDeclared? n = some type ↔ d.LastDeclares n type := by
  simp only [lastDeclared?, Option.map_eq_some_iff, List.find?_eq_some_iff_append]
  constructor
  · rintro ⟨⟨⟨name, _⟩, span⟩, ⟨hname, after, before, hsplit, hafter⟩, rfl⟩
    obtain rfl : name = n := beq_iff_eq.mp hname
    refine ⟨before.reverse, span, after.reverse, ?_, ?_⟩
    · rw [← List.reverse_inj, hsplit]
      simp
    · intro q hq
      simpa using hafter q (List.mem_reverse.mp hq)
  · rintro ⟨before, span, after, hsplit, hafter⟩
    refine ⟨⟨⟨n, type⟩, span⟩, ⟨beq_self_eq_true n, after.reverse, before.reverse, ?_, ?_⟩, rfl⟩
    · rw [hsplit]
      simp
    · intro q hq
      simpa using hafter q (List.mem_reverse.mp hq)

theorem exists_parameter?_eq (h : d.Declares n) : ∃ first, d.parameter? n = some ⟨n, first⟩ := by
  obtain ⟨⟨name, first⟩, hfirst⟩ := Option.ne_none_iff_exists'.mp fun hnone =>
    (d.parameter?_eq_none_iff n).mp hnone h
  obtain rfl : name = n := beq_iff_eq.mp (List.find?_some hfirst :)
  exact ⟨first, hfirst⟩

end Design

/-- A new binder reports the first declaration of a name. -/
theorem Binder.bind_empty_of_parameter? {d : Design} {n : String} {q : Parameter}
    (h : d.parameter? n = some q) (p : Placeholder) :
    (Binder.empty.bind d p n : Binder.Bound ε).result =
      .error (.bindingConflict n q.type p.span) := by
  have hconflict : Binder.empty.conflict? d n = some q := h
  rw [bind_of_conflict hconflict]
  rfl

namespace Composer

variable (c : Composer α ε) (master : Design)

def KeepsReserved : Moment α ε → Prop
  | .working inner outer s => c.Linked master inner outer ∧
      ∀ n, s.isCompiled n = true → master.lastDeclared? n = none
  | .ended run => ∀ n existing span, run.outcome = .error (.bindingConflict n existing span) →
      master.Declares n → master.lastDeclared? n = some existing

variable {c master} {inner : InHand} {outer : List InHand} {s : Progress α} {n : String}

/-- A step that fails, but not with a conflict over a name of the master, keeps to it. -/
theorem keepsReserved_error {e : ComposeError ε}
    (h : ∀ n existing span, e = .bindingConflict n existing span → master.Declares n →
      master.lastDeclared? n = some existing) :
    c.KeepsReserved master (.after inner outer ⟨s, .error e⟩) := by
  rintro n existing span ⟨⟩ hn
  exact h n existing span rfl hn

theorem isCompiled_of_isCompiled_compileTemplate {d : Design} {m : String}
    (h : (c.compileTemplate n d s).progress.isCompiled m = true) :
    m = n ∨ s.isCompiled m = true := by
  unfold compileTemplate at h
  cases hd : c.compile d with
  | error cause =>
    rw [hd] at h
    exact .inr h
  | ok artifact =>
    rw [hd, isCompiled_iff] at h
    have hmem : m ∈ s.compiled.map (·.1) ++ [n] := by
      simpa [Progress.complete, Progress.record] using h
    rw [isCompiled_iff]
    exact (List.mem_append.mp hmem).symm.imp_left List.mem_singleton.mp

theorem keepsReserved_compileTemplate (hlinked : c.Linked master inner outer)
    (hcompiled : ∀ m, s.isCompiled m = true → master.lastDeclared? m = none)
    (hn : master.lastDeclared? n = none) (d : Design) :
    c.KeepsReserved master (.after inner outer (c.compileTemplate n d s)) := by
  apply Moment.after_cases
  · intro _
    refine ⟨hlinked, fun m hm => ?_⟩
    obtain rfl | hm := isCompiled_of_isCompiled_compileTemplate hm
    · exact hn
    · exact hcompiled m hm
  · intro e he m existing span hconflict
    obtain ⟨cause, rfl⟩ := compileTemplate_eq_error he
    cases hconflict

/-- A template in hand has a name that the master does not declare. -/
theorem Linked.lastDeclared?_eq_none {next : InHand}
    (h : c.Linked master inner (next :: outer)) : master.lastDeclared? inner.name = none := by
  cases h with
  | inner _ _ _ _ free => exact free

/-- Each move keeps the reserved names. -/
theorem Moves.keepsReserved {m : Moment α ε} (h : c.Moves master.lastDeclared? inner s outer m)
    (hlinked : c.Linked master inner outer)
    (hcompiled : ∀ n, s.isCompiled n = true → master.lastDeclared? n = none) :
    c.KeepsReserved master m := by
  have hdescends : c.Descends master m := h.descends hlinked
  cases h with
  | unnamed _ name =>
    obtain ⟨fault, rfl⟩ := Placeholder.templateName_eq_error name
    apply keepsReserved_error
    rintro n existing span ⟨⟩
  | @unbound _ p _ n _ _ _ known bind =>
    have hfree : ¬master.Declares n :=
      (master.lastDeclared?_eq_none_iff n).mp (hcompiled n known)
    apply keepsReserved_error
    obtain ⟨q, -, rfl⟩ | ⟨-, rfl⟩ := Binder.bind_eq_error bind
    · rintro n existing span ⟨⟩ hn
      exact absurd hn hfree
    · rintro n existing span ⟨⟩
  | bound => exact ⟨hdescends, hcompiled⟩
  | conflict _ _ _ taken =>
    apply keepsReserved_error
    rintro n existing span ⟨⟩ _
    exact taken
  | circular =>
    apply keepsReserved_error
    rintro n existing span ⟨⟩
  | missing _ _ _ _ _ lost =>
    apply keepsReserved_error
    obtain rfl | ⟨cause, rfl⟩ := Answer.design_eq_error lost <;> rintro n existing span ⟨⟩
  | entered => exact ⟨hdescends, hcompiled⟩
  | plain _ _ _ free =>
    apply keepsReserved_compileTemplate hlinked _ free
    exact hcompiled
  | returned =>
    exact keepsReserved_compileTemplate hlinked.around hcompiled hlinked.lastDeclared?_eq_none _
  | closed =>
    intro n existing span he
    obtain ⟨cause, hcause⟩ := close_eq_error he
    cases hcause

/-- A composition keeps the reserved names to its end. -/
theorem keepsReserved_compose : c.KeepsReserved master (.ended (c.compose master)) := by
  apply c.compose_induction
  · exact ⟨.ofDesign master, fun n hn => nomatch hn⟩
  · exact fun inner outer s m hmove h => hmove.keepsReserved h.1 h.2

end Composer

/-- A conflict over a name that the master declares, at whatever depth, is reported with the type
of the last declaration. The look-up of a parameter and the binder take the first, and so report the
same only where the first declaration has the type of the last. -/
theorem conflict_reports_last_declaration (c : Composer α ε) (master : Design) {n : String}
    {existing : ValueType} {span : Span}
    (h : (c.compose master).outcome = .error (.bindingConflict n existing span))
    (hn : master.Declares n) :
    master.LastDeclares n existing ∧ ∃ first, master.parameter? n = some ⟨n, first⟩ ∧
      (∀ p, (Binder.empty.bind master p n : Binder.Bound ε).result =
        .error (.bindingConflict n first p.span)) ∧
      (existing = first ↔ master.LastDeclares n first) := by
  have hlast : master.lastDeclared? n = some existing :=
    Composer.keepsReserved_compose n existing span h hn
  obtain ⟨first, hfirst⟩ := Design.exists_parameter?_eq hn
  refine ⟨Design.lastDeclared?_eq_some_iff.mp hlast, first, hfirst,
    Binder.bind_empty_of_parameter? hfirst, ?_⟩
  rw [← Design.lastDeclared?_eq_some_iff, hlast, Option.some_inj]

def twiceDeclaring : Design :=
  { Design.placing "M" ["\"A\""] with
    parameters := [⟨⟨"T", .string⟩, ⟨0, 10⟩⟩, ⟨⟨"T", .number⟩, ⟨10, 20⟩⟩] }

theorem conflict_reports_last_declaration_nested :
    ∃ (c : Composer String Empty) (span : Span), c.nested = true ∧
      (c.compose twiceDeclaring).outcome = .error (.bindingConflict "T" .number span) ∧
      twiceDeclaring.LastDeclares "T" .number := by
  let templates : Registry := .ofDesigns [.placing "A" ["\"T\""]]
  let c : Composer String Empty := ⟨templates.toStore, fun d => .ok d.name, true⟩
  have herror : (c.compose twiceDeclaring).outcome =
      .error (.bindingConflict "T" .number ⟨0, 0⟩) := by cbv
  have hdeclares : twiceDeclaring.Declares "T" := List.mem_cons_self
  exact ⟨c, _, rfl, herror, (conflict_reports_last_declaration c _ herror hdeclares).1⟩

/-- With its name declared twice, the one placeholder is refused as `number` by the composition and
as `string` by the binder. -/
theorem repeated_declaration_reported_twofold :
    ∃ (c : Composer String Empty) (master : Design) (p : Placeholder),
      Design.parse ("report \"M\" \x7b parameter A: string parameter A: number " ++
        "section detail \x7b subreport `\"A\"` \x7d \x7d") = .ok master ∧
      master.placeholders = [p] ∧
      (c.compose master).outcome = .error (.bindingConflict "A" .number p.span) ∧
      master.parameter? "A" = some ⟨"A", .string⟩ ∧
      (Binder.empty.bind master p "A" : Binder.Bound Empty).result =
        .error (.bindingConflict "A" .string p.span) := by
  let templates : Registry := .ofDesigns [.placing "A" []]
  let c : Composer String Empty := ⟨templates.toStore, fun d => .ok d.name, false⟩
  let p : Placeholder := ⟨⟨0, 0⟩, "\"A\"", ⟨70, 85⟩⟩
  let master : Design := ⟨"M", [⟨⟨"A", .string⟩, ⟨13, 32⟩⟩, ⟨⟨"A", .number⟩, ⟨33, 52⟩⟩],
    [⟨.detail, [⟨.subreport ⟨"\"A\"", .string⟩, p.span⟩]⟩]⟩
  refine ⟨c, master, p, ?_, ?_, ?_, ?_, ?_⟩
  · cbv
  · cbv
  · cbv
  · cbv
  · cbv

end ReportAssembly
