import Mathlib.Data.List.Basic
import Mathlib.Data.List.Induction
import ReportAssembly.Proofs.BoundForms

namespace ReportAssembly

namespace Binder

structure Call where
  placeholder : Placeholder
  name : String

def lastAt? (calls : List Call) (pos : Position) : Option Call :=
  calls.reverse.find? (·.placeholder.pos == pos)

/-- The declaration of a name by some calls. It has the span of the first call with the name. -/
def declaration? (calls : List Call) (name : String) : Option (Located Parameter) :=
  (calls.find? (·.name == name)).map fun c => ⟨⟨name, .report⟩, c.placeholder.span⟩

def declarations (calls : List Call) : List (Located Parameter) :=
  (calls.map (·.name)).eraseDups.filterMap (declaration? calls)

end Binder

/-- The design with some calls carried out: each name is declared behind the parameters that were
there, and an element takes its report from the parameter of the last call for it. -/
def Design.boundBy (d : Design) (calls : List Binder.Call) : Design where
  name := d.name
  parameters := d.parameters ++ Binder.declarations calls
  sections := (d.mapElements fun pos e =>
    (Binder.lastAt? calls pos).elim e fun c => Binder.boundElement c.name).sections

namespace Binder

section Run

variable (ε : Type)

def call (s : Binder × Design) (c : Call) : Bound ε :=
  s.1.bind s.2 c.placeholder c.name

def answer (s : Binder × Design) (c : Call) : Except (ComposeError ε) (Binder × Design) :=
  (call ε s c).result

def attempt (s : Binder × Design) (c : Call) : Binder × Design :=
  ((call ε s c).binder, (call ε s c).design)

def after (d : Design) (calls : List Call) : Binder × Design :=
  calls.foldl (attempt ε) (empty, d)

def successes (s : Binder × Design) : List Call → List Call
  | [] => []
  | c :: calls =>
    if (answer ε s c).isOk then c :: successes (attempt ε s c) calls
    else successes (attempt ε s c) calls

theorem successes_concat (s : Binder × Design) (calls : List Call) (c : Call) :
    successes ε s (calls ++ [c]) = successes ε s calls ++
      if (answer ε (calls.foldl (attempt ε) s) c).isOk then [c] else [] := by
  induction calls generalizing s with
  | nil => rfl
  | cons x calls ih =>
    rw [List.cons_append, successes, successes, ih, List.foldl_cons]
    split
    · rfl
    · rfl

theorem after_concat (d : Design) (calls : List Call) (c : Call) :
    after ε d (calls ++ [c]) = attempt ε (after ε d calls) c := by
  rw [after, List.foldl_append]
  rfl

variable {d : Design} {calls : List Call} {c : Call}

/-- A call that fails leaves the binder and the design as they were. -/
theorem attempt_of_error {s : Binder × Design} {e : ComposeError ε} (h : answer ε s c = .error e) :
    attempt ε s c = s := by
  have hrefused := bind_of_error (Bound.result_eq_error_iff.mp h)
  rw [attempt, call, hrefused]

/-- A call that succeeds leaves what it answers. -/
theorem attempt_of_ok {s s' : Binder × Design} (h : answer ε s c = .ok s') :
    attempt ε s c = s' :=
  (Bound.result_eq_ok_iff.mp h).2

/-- A call that fails changes nothing. -/
theorem concat_of_error {e : ComposeError ε} (h : answer ε (after ε d calls) c = .error e) :
    after ε d (calls ++ [c]) = after ε d calls ∧
      successes ε (empty, d) (calls ++ [c]) = successes ε (empty, d) calls := by
  have hfold : answer ε (calls.foldl (attempt ε) (empty, d)) c = .error e := h
  rw [after_concat, attempt_of_error ε h, successes_concat, hfold]
  exact ⟨rfl, List.append_nil _⟩

theorem concat_of_ok {s : Binder × Design} (h : answer ε (after ε d calls) c = .ok s) :
    after ε d (calls ++ [c]) = s ∧
      successes ε (empty, d) (calls ++ [c]) = successes ε (empty, d) calls ++ [c] := by
  have hfold : answer ε (calls.foldl (attempt ε) (empty, d)) c = .ok s := h
  rw [after_concat, attempt_of_ok ε h, successes_concat, hfold]
  exact ⟨rfl, rfl⟩

end Run

/-- The answer to a call, when the calls `bound` have succeeded on the design `d` before it. A name
that is new must not be declared by the design. Then the position decides. -/
structure Settled {ε : Type} (d : Design) (bound : List Call) (c : Call)
    (answer : Except (ComposeError ε) (Binder × Design)) : Prop where
  conflict : ∀ type, answer = .error (.bindingConflict c.name type c.placeholder.span) ↔
    c.name ∉ bound.map (·.name) ∧ ∃ p, d.parameter? c.name = some p ∧ p.type = type
  unknown : answer = .error (.unknownPlaceholder c.placeholder.pos) ↔
    (c.name ∈ bound.map (·.name) ∨ ¬d.Declares c.name) ∧
      ∀ e span, d.element? c.placeholder.pos ≠ some ⟨.subreport e, span⟩
  success : answer.isOk = true ↔
    (c.name ∈ bound.map (·.name) ∨ ¬d.Declares c.name) ∧
      ∃ e span, d.element? c.placeholder.pos = some ⟨.subreport e, span⟩

end Binder

namespace Binder

variable {calls : List Call} {c : Call} {name : String}

theorem lastAt?_concat (calls : List Call) (c : Call) (pos : Position) :
    lastAt? (calls ++ [c]) pos = if c.placeholder.pos = pos then some c else lastAt? calls pos := by
  rw [lastAt?, List.reverse_concat, List.find?_cons]
  by_cases hpos : c.placeholder.pos = pos
  · rw [if_pos hpos, beq_iff_eq.mpr hpos]
  · rw [if_neg hpos, beq_eq_false_iff_ne.mpr hpos]
    rfl

/-- A name keeps the declaration of its first call. -/
theorem declaration?_concat_of_mem (h : name ∈ calls.map (·.name)) :
    declaration? (calls ++ [c]) name = declaration? calls name := by
  obtain ⟨x, hx, hname⟩ := List.mem_map.mp h
  have hfound : (calls.find? (·.name == name)).isSome = true :=
    List.find?_isSome.mpr ⟨x, hx, beq_iff_eq.mpr hname⟩
  rw [declaration?, List.find?_append, Option.or_of_isSome hfound, declaration?]

theorem declarations_concat (calls : List Call) (c : Call) :
    declarations (calls ++ [c]) = declarations calls ++
      if c.name ∈ calls.map (·.name) then [] else [⟨⟨c.name, .report⟩, c.placeholder.span⟩] := by
  have hold : (calls.map (·.name)).eraseDups.filterMap (declaration? (calls ++ [c])) =
      declarations calls := by
    apply List.filterMap_congr
    intro n hn
    exact declaration?_concat_of_mem (List.mem_eraseDups.mp hn)
  rw [declarations, List.map_append, List.eraseDups_append, List.filterMap_append, hold]
  congr 1
  by_cases hname : c.name ∈ calls.map (·.name)
  · have hremaining : ([c].map (·.name)).removeAll (calls.map (·.name)) = [] := by
      rw [List.removeAll, List.filter_eq_nil_iff]
      simpa using hname
    rw [hremaining, if_pos hname]
    rfl
  · have hnone : calls.find? (·.name == c.name) = none := by
      rw [List.find?_eq_none]
      intro x hx hxc
      exact hname (List.mem_map.mpr ⟨x, hx, beq_iff_eq.mp hxc⟩)
    have hdeclared : declaration? (calls ++ [c]) c.name =
        some ⟨⟨c.name, .report⟩, c.placeholder.span⟩ := by
      simp [declaration?, List.find?_append, hnone]
    have hremaining : ([c].map (·.name)).removeAll (calls.map (·.name)) = [c.name] := by
      apply List.filter_eq_self.mpr
      simpa using hname
    rw [hremaining, if_neg hname]
    simp [List.eraseDups_cons, hdeclared]

theorem name_mem_of_mem_declarations {q : Located Parameter} (h : q ∈ declarations calls) :
    q.value.name ∈ calls.map (·.name) := by
  obtain ⟨n, hn, hq⟩ := List.mem_filterMap.mp h
  obtain ⟨x, -, rfl⟩ := Option.map_eq_some_iff.mp hq
  exact List.mem_eraseDups.mp hn

end Binder

namespace Design

theorem boundBy_nil (d : Design) : d.boundBy [] = d := by
  simp [boundBy, Binder.lastAt?, Binder.declarations, d.mapElements_self]

/-- An element takes its report from the name of the last call for it, and keeps its span. -/
theorem element?_boundBy (d : Design) (calls : List Binder.Call) (pos : Position) :
    (d.boundBy calls).element? pos = (d.element? pos).map fun e =>
      ⟨(Binder.lastAt? calls pos).elim e.value fun c => Binder.boundElement c.name, e.span⟩ :=
  d.element?_mapElements
    (fun pos e => (Binder.lastAt? calls pos).elim e fun c => Binder.boundElement c.name) pos

/-- A call declares its name if that is new, and changes its element. -/
theorem boundBy_concat (d : Design) (calls : List Binder.Call) (c : Binder.Call) :
    d.boundBy (calls ++ [c]) =
      if c.name ∈ calls.map (·.name) then
        (d.boundBy calls).modifyElement c.placeholder.pos fun _ => Binder.boundElement c.name
      else ((d.boundBy calls).modifyElement c.placeholder.pos
        fun _ => Binder.boundElement c.name).declare ⟨⟨c.name, .report⟩, c.placeholder.span⟩ := by
  have hmap : (d.mapElements fun pos e =>
      (Binder.lastAt? (calls ++ [c]) pos).elim e fun x => Binder.boundElement x.name) =
      (d.mapElements fun pos e =>
        (Binder.lastAt? calls pos).elim e fun x => Binder.boundElement x.name).modifyElement
          c.placeholder.pos fun _ => Binder.boundElement c.name := by
    rw [modifyElement_eq_mapElements, mapElements_mapElements]
    apply mapElements_congr
    intro pos e _
    rw [Binder.lastAt?_concat]
    by_cases hpos : c.placeholder.pos = pos
    · rw [if_pos hpos, if_pos hpos.symm]
      rfl
    · rw [if_neg hpos, if_neg (Ne.symm hpos)]
  have hsections := congrArg Design.sections hmap
  unfold boundBy
  rw [hsections, Binder.declarations_concat]
  split
  · rw [List.append_nil]
    rfl
  · rw [← List.append_assoc]
    rfl

/-- Calls declare no name but their own. -/
theorem parameter?_boundBy (d : Design) {calls : List Binder.Call} {name : String}
    (h : name ∉ calls.map (·.name)) : (d.boundBy calls).parameter? name = d.parameter? name := by
  have hnone : ((Binder.declarations calls).map (·.value)).find? (·.name == name) = none := by
    rw [List.find?_eq_none]
    intro q hq hname
    obtain ⟨l, hl, rfl⟩ := List.mem_map.mp hq
    exact h (beq_iff_eq.mp hname ▸ Binder.name_mem_of_mem_declarations hl)
  simp only [parameter?, boundBy, List.map_append, List.find?_append, hnone, Option.or_none]

end Design

namespace Binder

structure LedBy (d : Design) (bound : List Call) (s : Binder × Design) : Prop where
  design_eq : s.2 = d.boundBy bound
  mem_declared : ∀ n, n ∈ s.1.declared ↔ n ∈ bound.map (·.name)
  subreports : ∀ c ∈ bound, ∃ e span, d.element? c.placeholder.pos = some ⟨.subreport e, span⟩

theorem ledBy_nil (d : Design) : LedBy d [] (empty, d) :=
  ⟨d.boundBy_nil.symm, fun n => by simp [empty], by simp⟩

variable {d : Design} {bound : List Call} {s : Binder × Design} {c : Call} {ε : Type}

theorem isSubreportAt_iff (d : Design) (pos : Position) :
    isSubreportAt d pos = true ↔ ∃ e span, d.element? pos = some ⟨.subreport e, span⟩ := by
  unfold isSubreportAt
  split
  · next e span he => exact ⟨fun _ => ⟨e, span, he⟩, fun _ => rfl⟩
  · next hother =>
    refine ⟨fun h => absurd h Bool.false_ne_true, ?_⟩
    rintro ⟨e, span, he⟩
    exact absurd he (hother e span)

/-- The shape of the design is kept, so a position holds a sub-report if it did at first. -/
theorem LedBy.isSubreportAt_iff (h : LedBy d bound s) (pos : Position) :
    isSubreportAt s.2 pos = true ↔ ∃ e span, d.element? pos = some ⟨.subreport e, span⟩ := by
  rw [Binder.isSubreportAt_iff, h.design_eq]
  simp only [d.element?_boundBy]
  cases hlast : lastAt? bound pos with
  | none => simp only [Option.elim_none, Option.map_id']
  | some c =>
    have hc : c ∈ bound := List.mem_reverse.mp (List.mem_of_find?_eq_some hlast)
    have hfound := List.find?_some hlast
    have hpos : c.placeholder.pos = pos := beq_iff_eq.mp hfound
    obtain ⟨e, span, he⟩ := h.subreports c hc
    rw [hpos] at he
    simp [he, boundElement]

/-- Names that are bound are in no conflict; for the others it is the design that decides. -/
theorem LedBy.conflict?_eq (h : LedBy d bound s) :
    s.1.conflict? s.2 c.name =
      if c.name ∈ bound.map (·.name) then none else d.parameter? c.name := by
  unfold conflict?
  by_cases hname : c.name ∈ bound.map (·.name)
  · rw [if_pos ((h.mem_declared c.name).mpr hname), if_pos hname]
  · rw [if_neg fun hd => hname ((h.mem_declared c.name).mp hd), if_neg hname, h.design_eq,
      d.parameter?_boundBy hname]

theorem LedBy.conflict?_eq_none (h : LedBy d bound s)
    (hname : c.name ∈ bound.map (·.name) ∨ d.parameter? c.name = none) :
    s.1.conflict? s.2 c.name = none := by
  rw [h.conflict?_eq]
  split_ifs with hmem
  · rfl
  · exact hname.resolve_left hmem

/-- A call whose name is free and whose position holds a sub-report is carried out. -/
theorem LedBy.concat (h : LedBy d bound s)
    (hname : c.name ∈ bound.map (·.name) ∨ d.parameter? c.name = none)
    (hpos : ∃ e span, d.element? c.placeholder.pos = some ⟨.subreport e, span⟩) :
    ∃ s', answer ε s c = .ok s' ∧ LedBy d (bound ++ [c]) s' := by
  have hconflict := h.conflict?_eq_none hname
  have hsub : isSubreportAt s.2 c.placeholder.pos = true := (h.isSubreportAt_iff _).mpr hpos
  have hnext := d.boundBy_concat bound c
  have hsubreports : ∀ x ∈ bound ++ [c],
      ∃ e span, d.element? x.placeholder.pos = some ⟨.subreport e, span⟩ :=
    List.forall_mem_append.mpr ⟨h.subreports, List.forall_mem_singleton.mpr hpos⟩
  by_cases hmem : c.name ∈ bound.map (·.name)
  · refine ⟨(s.1, s.2.modifyElement c.placeholder.pos fun _ => boundElement c.name), ?_, ?_, ?_,
      hsubreports⟩
    · rw [answer, call, bind_of_declared hconflict hsub ((h.mem_declared c.name).mpr hmem)]
      rfl
    · rw [hnext, if_pos hmem, h.design_eq]
    · intro n
      rw [h.mem_declared, List.map_append, List.mem_append]
      exact ⟨Or.inl, fun hn => hn.elim id fun he => List.mem_singleton.mp he ▸ hmem⟩
  · have hdeclared : c.name ∉ s.1.declared := fun hd => hmem ((h.mem_declared c.name).mp hd)
    refine ⟨(⟨c.name :: s.1.declared⟩, (s.2.modifyElement c.placeholder.pos
      fun _ => boundElement c.name).declare ⟨⟨c.name, .report⟩, c.placeholder.span⟩), ?_, ?_, ?_,
      hsubreports⟩
    · rw [answer, call, bind_of_new hconflict hsub hdeclared]
      rfl
    · rw [hnext, if_neg hmem, h.design_eq]
    · intro n
      rw [List.mem_cons, h.mem_declared, List.map_append, List.mem_append, List.map_singleton,
        List.mem_singleton, or_comm]

/-- The three answers to a call, with what each of them takes. -/
theorem LedBy.answer_cases (ε : Type) (h : LedBy d bound s) (c : Call) :
    (∃ p, c.name ∉ bound.map (·.name) ∧ d.parameter? c.name = some p ∧
      answer ε s c = .error (.bindingConflict c.name p.type c.placeholder.span)) ∨
    ((c.name ∈ bound.map (·.name) ∨ d.parameter? c.name = none) ∧
      (¬∃ e span, d.element? c.placeholder.pos = some ⟨.subreport e, span⟩) ∧
      answer ε s c = .error (.unknownPlaceholder c.placeholder.pos)) ∨
    ((c.name ∈ bound.map (·.name) ∨ d.parameter? c.name = none) ∧
      (∃ e span, d.element? c.placeholder.pos = some ⟨.subreport e, span⟩) ∧
      ∃ s', answer ε s c = .ok s' ∧ LedBy d (bound ++ [c]) s') := by
  by_cases hfree : c.name ∈ bound.map (·.name) ∨ d.parameter? c.name = none
  · by_cases hpos : ∃ e span, d.element? c.placeholder.pos = some ⟨.subreport e, span⟩
    · exact .inr (.inr ⟨hfree, hpos, h.concat hfree hpos⟩)
    · have hsub : isSubreportAt s.2 c.placeholder.pos = false :=
        Bool.eq_false_iff.mpr fun hsub => hpos ((h.isSubreportAt_iff _).mp hsub)
      refine .inr (.inl ⟨hfree, hpos, ?_⟩)
      rw [answer, call, bind_of_elsewhere (h.conflict?_eq_none hfree) hsub]
      rfl
  · obtain ⟨hmem, hp⟩ := not_or.mp hfree
    obtain ⟨p, hp⟩ := Option.ne_none_iff_exists'.mp hp
    have hconflict : s.1.conflict? s.2 c.name = some p := by
      rw [h.conflict?_eq, if_neg hmem, hp]
    refine .inl ⟨p, hmem, hp, ?_⟩
    rw [answer, call, bind_of_conflict hconflict]
    rfl

/-- The calls that have succeeded settle the answer to the next. -/
theorem LedBy.settled (h : LedBy d bound s) (c : Call) : Settled d bound c (answer ε s c) := by
  have hdeclares := d.parameter?_eq_none_iff c.name
  constructor
  case conflict =>
    intro type
    rcases h.answer_cases ε c with ⟨p, hmem, hp, ha⟩ | ⟨hfree, -, ha⟩ | ⟨hfree, -, s', ha, -⟩
    · simp [ha, hmem, hp]
    · rcases hfree with hmem | hp
      · simp [ha, hmem]
      · simp [ha, hp]
    · rcases hfree with hmem | hp
      · simp [ha, hmem]
      · simp [ha, hp]
  case unknown =>
    rw [← hdeclares]
    rcases h.answer_cases ε c with ⟨p, hmem, hp, ha⟩ | ⟨hfree, hpos, ha⟩ | ⟨hfree, hpos, s', ha, -⟩
    · simp [ha, hmem, hp]
    · refine iff_of_true ha ⟨hfree, ?_⟩
      intro e span he
      exact hpos ⟨e, span, he⟩
    · obtain ⟨e, span, he⟩ := hpos
      simp [ha, he]
  case success =>
    rw [← hdeclares]
    rcases h.answer_cases ε c with ⟨p, hmem, hp, ha⟩ | ⟨hfree, hpos, ha⟩ | ⟨hfree, hpos, s', ha, -⟩
    · simp [ha, hmem, hp, Except.isOk, Except.toBool]
    · refine iff_of_false ?_ fun hboth => hpos hboth.2
      simp [ha, Except.isOk, Except.toBool]
    · exact iff_of_true (by simp [ha, Except.isOk, Except.toBool]) ⟨hfree, hpos⟩

/-- A run leads where the calls that succeed in it lead. -/
theorem ledBy_after (ε : Type) (d : Design) (calls : List Call) :
    LedBy d (successes ε (empty, d) calls) (after ε d calls) := by
  induction calls using List.reverseRecOn with
  | nil => exact ledBy_nil d
  | append_singleton calls c ih =>
    rcases ih.answer_cases ε c with ⟨p, -, -, ha⟩ | ⟨-, -, ha⟩ | ⟨-, -, s, ha, hs⟩
    · obtain ⟨hafter, hsuccesses⟩ := concat_of_error ε ha
      rwa [hafter, hsuccesses]
    · obtain ⟨hafter, hsuccesses⟩ := concat_of_error ε ha
      rwa [hafter, hsuccesses]
    · obtain ⟨hafter, hsuccesses⟩ := concat_of_ok ε ha
      rwa [hafter, hsuccesses]

/-- Whatever has been called on a design, the answer to the next call is settled by the design as it
was at first and by the calls that have succeeded. A call that fails leaves everything as it is. At
the end exactly the calls that have succeeded are carried out, and these are for sub-reports. -/
theorem runs_of_bindings (ε : Type) (d : Design) (calls : List Call) :
    (∀ c, Settled d (successes ε (empty, d) calls) c (answer ε (after ε d calls) c) ∧
      (∀ e, answer ε (after ε d calls) c = .error e →
        after ε d (calls ++ [c]) = after ε d calls ∧
        successes ε (empty, d) (calls ++ [c]) = successes ε (empty, d) calls) ∧
      ∀ s, answer ε (after ε d calls) c = .ok s →
        after ε d (calls ++ [c]) = s ∧
        successes ε (empty, d) (calls ++ [c]) = successes ε (empty, d) calls ++ [c]) ∧
    (after ε d calls).2 = d.boundBy (successes ε (empty, d) calls) ∧
    ∀ c ∈ successes ε (empty, d) calls,
      ∃ e span, d.element? c.placeholder.pos = some ⟨.subreport e, span⟩ := by
  have hled := ledBy_after ε d calls
  refine ⟨fun c => ⟨hled.settled c, ?_, ?_⟩, hled.design_eq, hled.subreports⟩
  · intro e he
    exact concat_of_error ε he
  · intro s hs
    exact concat_of_ok ε hs

theorem runs_of_bindings_refused :
    ∃ (d : Design) (calls : List Call) (c : Call),
      answer String (after String d calls) c = .error (.bindingConflict "A" .number ⟨30, 40⟩) ∧
      after String d (calls ++ [c]) = after String d calls ∧
      (after String d (calls ++ [c])).2 =
        ⟨"R", [⟨⟨"A", .number⟩, ⟨0, 10⟩⟩, ⟨⟨"A", .string⟩, ⟨10, 20⟩⟩, ⟨⟨"B", .report⟩, ⟨30, 40⟩⟩],
          [⟨.detail, [⟨.text "x", ⟨20, 30⟩⟩, ⟨.subreport ⟨"$P{B}", .report⟩, ⟨30, 40⟩⟩]⟩]⟩ := by
  let d : Design := ⟨"R", [⟨⟨"A", .number⟩, ⟨0, 10⟩⟩, ⟨⟨"A", .string⟩, ⟨10, 20⟩⟩],
    [⟨.detail, [⟨.text "x", ⟨20, 30⟩⟩, ⟨.subreport ⟨"\"A\"", .string⟩, ⟨30, 40⟩⟩]⟩]⟩
  let p : Placeholder := ⟨⟨0, 1⟩, "\"A\"", ⟨30, 40⟩⟩
  let calls : List Call := [⟨p, "B"⟩, ⟨⟨⟨0, 0⟩, "", ⟨20, 30⟩⟩, "C"⟩]
  have hrefused : answer String (after String d calls) ⟨p, "A"⟩ =
      .error (.bindingConflict "A" .number ⟨30, 40⟩) := rfl
  have hkept := (((runs_of_bindings String d calls).1 ⟨p, "A"⟩).2.1 _ hrefused).1
  have hdesign := (runs_of_bindings String d (calls ++ [⟨p, "A"⟩])).2.1
  refine ⟨d, calls, ⟨p, "A"⟩, hrefused, hkept, hdesign.trans ?_⟩
  rfl

end Binder

end ReportAssembly
