import Mathlib.Data.List.Induction
import ReportAssembly.Proofs.CompiledForms
import ReportAssembly.Proofs.PackageOrder
import ReportAssembly.Proofs.Registrations

namespace ReportAssembly

namespace Registry

def Succeeds (calls before : List Registration) (x : Registration) (d : Design) : Prop :=
  (∃ rest, calls = before ++ x :: rest) ∧ x.design? = some d ∧
    ((empty.after before).call x).outcome = .ok ()

def FirstRegisters (calls : List Registration) (n : String) (d : Design) : Prop :=
  ∃ before x, Succeeds calls before x d ∧ d.name = n ∧
    ∀ before' x' d', Succeeds before before' x' d' → d'.name ≠ n

def Filed (r : Registry) : Prop :=
  ∀ n d, r.get? n = some d → d.name = n

variable {r : Registry} {n : String} {d : Design} {calls before : List Registration}
  {x : Registration}

/-- A call with a design succeeds if the name of the design is free. -/
theorem outcome_call_eq_ok_iff (r : Registry) (h : x.design? = some d) :
    (r.call x).outcome = .ok () ↔ d.name ∉ r.names := by
  rw [r.call_of_design?_eq_some h]
  rcases r.register_cases d with ⟨hmem, hcall⟩ | ⟨hfree, hcall⟩
  · rw [hcall]
    exact iff_of_false (fun hok => nomatch hok) (not_not_intro hmem)
  · rw [hcall]
    exact iff_of_true rfl hfree

/-- A call fails for a source that does not parse or a name that is taken, and for nothing else. -/
theorem outcome_call_eq_error_iff {e : TemplateError} : (r.call x).outcome = .error e ↔
    (∃ text errors, x = .source text ∧ Design.parse text = .error errors ∧
      e = .malformed "<source>" errors) ∨
    ∃ d, x.design? = some d ∧ d.name ∈ r.names ∧ e = .duplicate d.name := by
  cases hx : x.design? with
  | none =>
    obtain ⟨text, errors, rfl, htext, hcall⟩ := r.call_of_design?_eq_none hx
    simp [hcall, htext, eq_comm]
  | some d =>
    have hparses : ¬∃ text errors, x = .source text ∧ Design.parse text = .error errors ∧
        e = .malformed "<source>" errors := by
      rintro ⟨text, errors, rfl, htext, -⟩
      rw [Registration.design?, htext] at hx
      cases hx
    rw [r.call_of_design?_eq_some hx, or_iff_right hparses]
    rcases r.register_cases d with ⟨hmem, hcall⟩ | ⟨hfree, hcall⟩
    · simp [hcall, hmem, eq_comm]
    · simp [hcall, hfree]

/-- A call that fails leaves the registry as it was. -/
theorem registry_call_of_error {e : TemplateError} (h : (r.call x).outcome = .error e) :
    (r.call x).registry = r := by
  cases hx : x.design? with
  | none =>
    obtain ⟨text, errors, -, -, hcall⟩ := r.call_of_design?_eq_none hx
    rw [hcall]
  | some d =>
    rw [r.call_of_design?_eq_some hx] at h ⊢
    rcases r.register_cases d with ⟨-, hcall⟩ | ⟨-, hcall⟩
    · rw [hcall]
    · rw [hcall] at h
      exact nomatch h

/-- A call adds the name of its design to those that are taken. -/
theorem names_attempt (r : Registry) (x : Registration) :
    (r.attempt x).names = r.names ++ (x.design?.toList.map (·.name)).removeAll r.names := by
  rw [attempt]
  cases hx : x.design? with
  | none =>
    obtain ⟨text, errors, -, -, hcall⟩ := r.call_of_design?_eq_none hx
    rw [hcall]
    exact (List.append_nil _).symm
  | some d =>
    rw [r.call_of_design?_eq_some hx]
    rcases r.register_cases d with ⟨hmem, hcall⟩ | ⟨hfree, hcall⟩
    · simp [hcall, List.removeAll, hmem]
    · simp [hcall, names_insert, List.removeAll, hfree]

/-- A call keeps every design under its own name. -/
theorem Filed.attempt (h : r.Filed) (x : Registration) : (r.attempt x).Filed := by
  intro n d hd
  rw [get?_attempt, Option.or_eq_some_iff] at hd
  rcases hd with hd | ⟨-, hd⟩
  · exact h n d hd
  · exact beq_iff_eq.mp (Option.filter_eq_some_iff.mp hd).2

/-- Every call keeps designs under their own names. -/
theorem Filed.after (h : r.Filed) (calls : List Registration) : (r.after calls).Filed := by
  induction calls generalizing r with
  | nil => exact h
  | cons x calls ih => exact ih (h.attempt x)

theorem filed_empty : empty.Filed :=
  fun _ _ h => nomatch h

/-- After calls a name has the design it had before, or that of the first call with this name. -/
theorem get?_after (r : Registry) (calls : List Registration) (n : String) :
    (r.after calls).get? n =
      (r.get? n).or ((calls.filterMap Registration.design?).find? (·.name == n)) := by
  induction calls generalizing r with
  | nil => exact (Option.or_none).symm
  | cons x calls ih =>
    have hafter : (r.after (x :: calls)).get? n = ((r.attempt x).after calls).get? n := rfl
    rw [hafter, ih, get?_attempt, Option.or_assoc, List.filterMap_cons]
    cases x.design? with
    | none => rfl
    | some d =>
      rw [List.find?_cons, Option.filter_some]
      cases d.name == n <;> rfl

/-- The names that calls have taken are those of their designs, each once. -/
theorem names_after (calls : List Registration) : (empty.after calls).names =
    ((calls.filterMap Registration.design?).map (·.name)).eraseDups := by
  -- From the back, since the calls before one decide whether its name is free.
  induction calls using List.reverseRecOn with
  | nil => rfl
  | append_singleton calls x ih =>
    have hafter : empty.after (calls ++ [x]) = (empty.after calls).attempt x := by
      rw [after, List.foldl_append]
      rfl
    have hsingle : ([x].filterMap Registration.design?) = x.design?.toList := by
      cases hx : x.design? <;> simp [hx]
    rw [hafter, names_attempt, ih, List.filterMap_append, hsingle, List.map_append,
      List.eraseDups_append]
    congr 1
    cases x.design? with
    | none => rfl
    | some d =>
      by_cases hmem : d.name ∈ (calls.filterMap Registration.design?).map (·.name)
      · simp [List.removeAll, hmem, List.mem_eraseDups.mpr hmem]
      · simp [List.removeAll, hmem, List.mem_eraseDups, List.eraseDups_cons]

/-- The calls that succeed are those whose name no call before them has brought. -/
theorem succeeds_iff : Succeeds calls before x d ↔
    (∃ rest, calls = before ++ x :: rest) ∧ x.design? = some d ∧
      d.name ∉ (before.filterMap Registration.design?).map (·.name) := by
  refine and_congr_right fun _ => and_congr_right fun hx => ?_
  rw [outcome_call_eq_ok_iff _ hx, names_after, List.mem_eraseDups]

/-- The first call that succeeds with a name is the first call with it. -/
theorem firstRegisters_iff : FirstRegisters calls n d ↔
    (calls.filterMap Registration.design?).find? (·.name == n) = some d := by
  rw [List.find?_eq_some_iff_append]
  constructor
  · rintro ⟨before, x, hsucceeds, rfl, -⟩
    obtain ⟨⟨rest, rfl⟩, hdesign, hfree⟩ := succeeds_iff.mp hsucceeds
    refine ⟨beq_self_eq_true d.name, before.filterMap Registration.design?,
      rest.filterMap Registration.design?, ?_, ?_⟩
    · rw [List.filterMap_append, List.filterMap_cons_some hdesign]
    · intro a ha
      rw [Bool.not_eq_true', beq_eq_false_iff_ne]
      exact fun hname => hfree (List.mem_map.mpr ⟨a, ha, hname⟩)
  · rintro ⟨hname, front, back, hsplit, hfront⟩
    obtain rfl : d.name = n := beq_iff_eq.mp hname
    obtain ⟨before, behind, rfl, rfl, hbehind⟩ := List.filterMap_eq_append_iff.mp hsplit
    obtain ⟨sourceless, x, rest, rfl, hsourceless, hdesign, -⟩ :=
      List.filterMap_eq_cons_iff.mp hbehind
    have hdesigns : (before ++ sourceless).filterMap Registration.design? =
        before.filterMap Registration.design? := by
      rw [List.filterMap_append, List.filterMap_eq_nil_iff.mpr hsourceless, List.append_nil]
    have hfree : d.name ∉ ((before ++ sourceless).filterMap Registration.design?).map (·.name) := by
      rw [hdesigns]
      intro hmem
      obtain ⟨a, ha, hsame⟩ := List.mem_map.mp hmem
      simpa [hsame] using hfront a ha
    refine ⟨before ++ sourceless, x, succeeds_iff.mpr ⟨⟨rest, by simp⟩, hdesign, hfree⟩, rfl, ?_⟩
    intro before' x' d' hearlier hsame
    obtain ⟨⟨rest', hrest'⟩, hdesign', -⟩ := succeeds_iff.mp hearlier
    have hmem : d' ∈ (before ++ sourceless).filterMap Registration.design? := by
      rw [hrest']
      exact List.mem_filterMap.mpr ⟨x', by simp, hdesign'⟩
    exact hfree (List.mem_map.mpr ⟨d', hmem, hsame⟩)

/-- A name is brought by a call if and only if one succeeds with it. -/
theorem exists_succeeds_iff : (∃ before x d, Succeeds calls before x d ∧ d.name = n) ↔
    n ∈ (calls.filterMap Registration.design?).map (·.name) := by
  constructor
  · rintro ⟨before, x, d, hsucceeds, rfl⟩
    obtain ⟨⟨rest, rfl⟩, hdesign, -⟩ := succeeds_iff.mp hsucceeds
    exact List.mem_map.mpr ⟨d, List.mem_filterMap.mpr ⟨x, by simp, hdesign⟩, rfl⟩
  · intro hmem
    obtain ⟨d, hd, hname⟩ := List.mem_map.mp hmem
    have hfound : ((calls.filterMap Registration.design?).find? (·.name == n)).isSome = true :=
      List.find?_isSome.mpr ⟨d, hd, beq_iff_eq.mpr hname⟩
    obtain ⟨first, hfirst⟩ := Option.isSome_iff_exists.mp hfound
    obtain ⟨before, x, hsucceeds, hsame, -⟩ := firstRegisters_iff.mpr hfirst
    exact ⟨before, x, first, hsucceeds, hsame⟩

/-- A registry that some calls have filled when it was empty. -/
structure FilledBy (r : Registry) (calls : List Registration) : Prop where
  found : ∀ n d, r.lookup n = .ok d ↔ FirstRegisters calls n d
  missing : ∀ n, r.lookup n = .error (.notFound n) ↔
    ∀ before x d, Succeeds calls before x d → d.name ≠ n
  filed : r.Filed
  mem_names : ∀ n, n ∈ r.names ↔ ∃ before x d, Succeeds calls before x d ∧ d.name = n
  nodup_names : r.names.Nodup
  size : r.size = ((calls.filterMap Registration.design?).map (·.name)).eraseDups.length
  refused : ∀ x e, (r.call x).outcome = .error e ↔
    (∃ text errors, x = .source text ∧ Design.parse text = .error errors ∧
      e = .malformed "<source>" errors) ∨
    ∃ d, x.design? = some d ∧ d.name ∈ r.names ∧ e = .duplicate d.name
  unchanged : ∀ x e, (r.call x).outcome = .error e → (r.call x).registry = r

/-- The calls decide what is registered, and under which names. -/
theorem filledBy_after (calls : List Registration) : (empty.after calls).FilledBy calls where
  found n d := by
    rw [lookup_eq_ok_iff, get?_after, firstRegisters_iff]
    rfl
  missing n := by
    have hnames : n ∉ (empty.after calls).names ↔
        ∀ before x d, Succeeds calls before x d → d.name ≠ n := by
      rw [names_after, List.mem_eraseDups, ← exists_succeeds_iff]
      push Not
      rfl
    rw [lookup_eq_notFound_iff, get?_eq_none_iff, hnames]
  filed := filed_empty.after calls
  mem_names n := by rw [names_after, List.mem_eraseDups, exists_succeeds_iff]
  nodup_names := (empty.after calls).nodup_keys
  size := by rw [← names_after, names, List.length_map, Registry.size]
  refused x e := outcome_call_eq_error_iff
  unchanged x e := registry_call_of_error

/-- Where every design has its own name for a key, the sub-report of a name has been compiled from a
design of this name, and has it too. -/
theorem Filed.name_of_mem_bindings (hfiled : r.Filed) {nested : Bool} {master : Design}
    {package : Package Report} (hok : ((⟨r.toStore, Report.compile, nested⟩ :
      Composer Report Report.CompileError).compose master).outcome = .ok package)
    {artifact : Report} (hmem : (n, artifact) ∈ package.bindings) : artifact.name = n := by
  obtain ⟨made, h⟩ := Composer.Completed.of_compose_eq_ok _ hok
  rw [h.bindings] at hmem
  obtain ⟨m, hm, hbinding⟩ := List.mem_map.mp hmem
  obtain ⟨rfl, rfl⟩ := Prod.mk.inj hbinding
  have hmade := h.makes m hm
  have hname : m.design.name = m.name := hfiled _ _ (lookup_eq_ok_iff.mp hmade.stored)
  obtain ⟨-, hartifact⟩ := Report.compile_eq_ok_iff.mp hmade.accepted
  rw [hartifact]
  cases nested with
  | true => exact hname
  | false => exact hname

end Registry

/-- A registry that was empty has what the first successful call of each name has registered,
whatever other calls have failed. So the sub-reports of a composition from it are named as they are
bound. -/
theorem registry_filled_by_calls (calls : List Registration) :
    (Registry.empty.after calls).FilledBy calls ∧
      ∀ nested master package,
        ((⟨(Registry.empty.after calls).toStore, Report.compile, nested⟩ :
          Composer Report Report.CompileError).compose master).outcome = .ok package →
        ∀ n artifact, (n, artifact) ∈ package.bindings → artifact.name = n :=
  have hfilled := Registry.filledBy_after calls
  ⟨hfilled, fun _ _ _ hok _ _ hmem => hfilled.filed.name_of_mem_bindings hok hmem⟩

def partlyFailingCalls : List Registration :=
  [.design (.placing "A" []), .source "report \"A\" \x7b parameter P: string \x7d",
    .source "report \"B\" \x7b",
    .source "report \"B\" \x7b section detail \x7b subreport `\"A\"` \x7d \x7d"]

def containingTemplate : Design :=
  ⟨"B", [], [⟨.detail, [⟨.subreport ⟨"\"A\"", .string⟩, ⟨30, 45⟩⟩]⟩]⟩

theorem registry_filled_by_calls_failing :
    (Registry.empty.after partlyFailingCalls).entries =
        [("A", .placing "A" []), ("B", containingTemplate)] ∧
      Registry.FirstRegisters partlyFailingCalls "A" (.placing "A" []) ∧
      ∃ package, ((⟨(Registry.empty.after partlyFailingCalls).toStore, Report.compile, true⟩ :
          Composer Report Report.CompileError).compose (.placing "M" ["\"B\""])).outcome =
          .ok package ∧ package.names = ["A", "B"] ∧
        ∀ n artifact, (n, artifact) ∈ package.bindings → artifact.name = n := by
  have hlookup : (Registry.empty.after partlyFailingCalls).lookup "A" =
      .ok (.placing "A" []) := by cbv
  obtain ⟨hfilled, hartifacts⟩ := registry_filled_by_calls partlyFailingCalls
  have hok : ((⟨(Registry.empty.after partlyFailingCalls).toStore, Report.compile, true⟩ :
      Composer Report Report.CompileError).compose (.placing "M" ["\"B\""])).outcome =
        .ok ⟨⟨"M", [⟨"B", .report⟩], [⟨.detail, [.subreportParameter "B"]⟩]⟩,
          [("A", ⟨"A", [], [⟨.detail, []⟩]⟩),
            ("B", ⟨"B", [⟨"A", .report⟩], [⟨.detail, [.subreportParameter "A"]⟩]⟩)]⟩ := by cbv
  exact ⟨by cbv, (hfilled.found _ _).mp hlookup, _, hok, rfl, hartifacts true _ _ hok⟩

end ReportAssembly
