import ReportAssembly.Proofs.CompiledForms
import ReportAssembly.Proofs.PackageOrder
import ReportAssembly.Proofs.SingleLevel

namespace ReportAssembly

/-- The sub-reports of a nested package are wanted and supplied within the package. -/
structure Package.Closed (package : Package Report) : Prop where
  report : package.report.Slotted
  subreports : ∀ r ∈ package.subreports, r.Slotted
  report_supplied : ∀ n ∈ package.report.subreportParameters, n ∈ package.names
  subreports_supplied : ∀ (i : Nat) (r : Report), package.subreports[i]? = some r →
    ∀ n ∈ r.subreportParameters, ∃ j < i, package.names[j]? = some n
  used : ∀ (i : Nat) (n : String), package.names[i]? = some n →
    n ∈ package.report.subreportParameters ∨
      ∃ j > i, ∃ r, package.subreports[j]? = some r ∧ n ∈ r.subreportParameters

structure Package.FlatlyClosed (package : Package Report) (master : Design) : Prop where
  report : package.report.Slotted
  references : package.report.subreportParameters = master.references
  names : ∀ n, n ∈ package.report.subreportParameters ↔ n ∈ package.names

namespace Composer.Completed

open Report (CompileError compile_bound)

variable {store : Store} {master : Design} {package : Package Report} {made : List (Made Report)}

/-- The report of a package takes its sub-reports where the master refers to them. -/
theorem report_slotted {nested : Bool}
    (h : (⟨store, Report.compile, nested⟩ : Composer Report CompileError).Completed master package
      made) :
    package.report.Slotted ∧ package.report.subreportParameters = master.references :=
  compile_bound h.bindable.quoted h.accepted

section Nested

variable (h : (⟨store, Report.compile, true⟩ : Composer Report CompileError).Completed master
  package made)

include h

/-- Each sub-report takes its own where its stored template refers to them. -/
theorem subreport_slotted {m : Made Report} (hm : m ∈ made) :
    m.artifact.Slotted ∧ m.artifact.subreportParameters = store.references m.name := by
  have hmade := h.makes m hm
  rw [Store.references_eq hmade.stored]
  exact compile_bound (hmade.bindable rfl).quoted hmade.accepted

/-- What a sub-report takes from a parameter stands before it. -/
theorem exists_supplier {i : Nat} {r : Report} (hr : package.subreports[i]? = some r) {n : String}
    (hn : n ∈ r.subreportParameters) : ∃ j < i, package.names[j]? = some n := by
  rw [h.subreports_eq, List.getElem?_map] at hr
  obtain ⟨m, hi, rfl⟩ := Option.map_eq_some_iff.mp hr
  have hname : package.names[i]? = some m.name := by
    rw [h.names_eq, List.getElem?_map, hi, Option.map_some]
  rw [(h.subreport_slotted (List.mem_of_getElem? hi)).2] at hn
  obtain ⟨hmem, hlt⟩ := h.layered_names.idxOf_lt_of_refers (List.mem_of_getElem? hname) hn
  rw [h.idxOf_names hname] at hlt
  exact ⟨package.names.idxOf n, hlt, List.getElem?_idxOf hmem⟩

/-- No sub-report is there for nothing. -/
theorem exists_user {i : Nat} {n : String} (hn : package.names[i]? = some n) :
    n ∈ package.report.subreportParameters ∨
      ∃ j > i, ∃ r, package.subreports[j]? = some r ∧ n ∈ r.subreportParameters := by
  have hreached := (h.mem_names_iff_reached n).mp (List.mem_of_getElem? hn)
  obtain ⟨root, hroot, hreach⟩ := hreached
  rcases Relation.ReflTransGen.cases_tail hreach with rfl | ⟨k, hk, hrefers⟩
  · rw [h.report_slotted.2]
    exact Or.inl hroot
  · have hmem : k ∈ package.names := (h.mem_names_iff_reached k).mpr ⟨root, hroot, hk⟩
    obtain ⟨-, hlt⟩ := h.layered_names.idxOf_lt_of_refers hmem hrefers
    rw [h.idxOf_names hn] at hlt
    obtain ⟨m, hm, rfl, hsub, -⟩ := h.getElem?_subreports (List.getElem?_idxOf hmem)
    refine Or.inr ⟨package.names.idxOf m.name, hlt, m.artifact, hsub, ?_⟩
    rw [(h.subreport_slotted hm).2]
    exact hrefers

/-- A nested package is closed under the references of its sub-reports. -/
theorem closed : package.Closed := by
  constructor
  case report => exact h.report_slotted.1
  case subreports =>
    intro r hr
    rw [h.subreports_eq] at hr
    obtain ⟨m, hm, rfl⟩ := List.mem_map.mp hr
    exact (h.subreport_slotted hm).1
  case report_supplied =>
    intro n hn
    rw [h.report_slotted.2] at hn
    rw [h.mem_names_iff]
    exact h.exists_made hn
  case subreports_supplied => exact fun i r hr n hn => h.exists_supplier hr hn
  case used => exact fun i n hn => h.exists_user hn

end Nested

theorem flatlyClosed
    (h : (⟨store, Report.compile, false⟩ : Composer Report CompileError).Completed master package
      made) : package.FlatlyClosed master := by
  obtain ⟨hslotted, hreferences⟩ := h.report_slotted
  refine ⟨hslotted, hreferences, ?_⟩
  intro n
  rw [hreferences, h.flatlyPackaged.names, List.mem_eraseDups]

end Composer.Completed

/-- A package made with the built-in compiler is closed. -/
theorem composed_package_closed (store : Store) (nested : Bool) (master : Design)
    (package : Package Report)
    (hok : ((⟨store, Report.compile, nested⟩ : Composer Report Report.CompileError).compose
      master).outcome = .ok package) :
    (nested = true → package.Closed) ∧ (nested = false → package.FlatlyClosed master) := by
  obtain ⟨made, h⟩ := Composer.Completed.of_compose_eq_ok _ hok
  constructor
  · rintro rfl
    exact h.closed
  · rintro rfl
    exact h.flatlyClosed

def chainedTemplates : Registry :=
  .ofDesigns [.placing "A" ["\"B\""], .placing "B" []]

def chainedMaster : Design :=
  .placing "M" ["\"A\""]

theorem composed_package_closed_chained :
    (∃ package, ((⟨chainedTemplates.toStore, Report.compile, true⟩ :
        Composer Report Report.CompileError).compose chainedMaster).outcome = .ok package ∧
      package.names = ["B", "A"] ∧ package.Closed) ∧
    ∃ package, ((⟨chainedTemplates.toStore, Report.compile, false⟩ :
        Composer Report Report.CompileError).compose chainedMaster).outcome = .ok package ∧
      package.names = ["A"] ∧ package.FlatlyClosed chainedMaster :=
  have hnested : ((⟨chainedTemplates.toStore, Report.compile, true⟩ :
      Composer Report Report.CompileError).compose chainedMaster).outcome =
        .ok ⟨⟨"M", [⟨"A", .report⟩], [⟨.detail, [.subreportParameter "A"]⟩]⟩,
          [("B", ⟨"B", [], [⟨.detail, []⟩]⟩),
            ("A", ⟨"A", [⟨"B", .report⟩], [⟨.detail, [.subreportParameter "B"]⟩]⟩)]⟩ := by cbv
  have hflat : ((⟨chainedTemplates.toStore, Report.compile, false⟩ :
      Composer Report Report.CompileError).compose chainedMaster).outcome =
        .ok ⟨⟨"M", [⟨"A", .report⟩], [⟨.detail, [.subreportParameter "A"]⟩]⟩,
          [("A", ⟨"A", [], [⟨.detail, [.subreportExpression [.text "\"B\""]]⟩]⟩)]⟩ := by cbv
  ⟨⟨_, hnested, rfl, (composed_package_closed _ _ _ _ hnested).1 rfl⟩,
    ⟨_, hflat, rfl, (composed_package_closed _ _ _ _ hflat).2 rfl⟩⟩

end ReportAssembly
