import Mathlib.Tactic.FinCases
import ReportAssembly.Proofs.PackageOrder
import ReportAssembly.Proofs.SingleLevel

namespace ReportAssembly

variable {α ε : Type}

structure Design.Shallow (master : Design) (store : Store) : Prop where
  leaves : ∀ n ∈ master.references, ∀ d, (store.lookup n).outcome = .ok d → d.placeholders = []
  apart : master.name ∉ master.references

namespace Composer

variable {store : Store} {compile : Design → Except ε α}

/-- A template without placeholders is compiled as it is stored, in either mode. -/
theorem prepare_of_leaf (reserved : String → Option ValueType) {chain : List String} {name : String}
    (hapart : name ∉ chain)
    (hleaf : ∀ d, (store.lookup name).outcome = .ok d → d.placeholders = [])
    (p : Placeholder) (s : Progress α) :
    (⟨store, compile, true⟩ : Composer α ε).prepare reserved chain p name s =
      (⟨store, compile, false⟩ : Composer α ε).prepare reserved chain p name s := by
  have hnested : ¬(true = true ∧ name ∈ chain) := fun h => hapart h.2
  have hflat : ¬(false = true ∧ name ∈ chain) := fun h => nomatch h.1
  cases hres : reserved name with
  | some existing => rw [prepare, prepare, hres]
  | none =>
    cases hd : ((store.lookup name).design name p : Except (ComposeError ε) Design) with
    | error e =>
      rw [prepare_of_missing _ _ hres hnested hd, prepare_of_missing _ _ hres hflat hd]
    | ok d =>
      have hnone : d.placeholders = [] := hleaf d (Answer.design_eq_ok hd)
      rw [prepare_of_design _ _ hres hnested hd, prepare_of_design _ _ hres hflat hd, if_pos rfl,
        if_neg Bool.false_ne_true, hnone, bindAll, finish_of_ok _ rfl]
      rfl

/-- Placeholders of templates without placeholders are bound alike in both modes. -/
theorem bindAll_of_leaves (reserved : String → Option ValueType) {chain : List String}
    {ps : List Placeholder}
    (h : ∀ n ∈ ps.filterMap Placeholder.name?, n ∉ chain ∧
      ∀ d, (store.lookup n).outcome = .ok d → d.placeholders = [])
    (b : Binder) (d : Design) (s : Progress α) :
    (⟨store, compile, true⟩ : Composer α ε).bindAll reserved chain ps b d s =
      (⟨store, compile, false⟩ : Composer α ε).bindAll reserved chain ps b d s := by
  induction ps generalizing b d s with
  | nil => rw [bindAll, bindAll]
  | cons p ps ih =>
    rw [bindAll_cons, bindAll_cons]
    cases htemplate : (p.templateName : Except (ComposeError ε) String) with
    | error e => rfl
    | ok name =>
      have hname : p.name? = some name := (p.templateName_eq_ok_iff_name? name).mp htemplate
      rw [List.filterMap_cons_some hname] at h
      obtain ⟨⟨hapart, hleaf⟩, hrest⟩ := List.forall_mem_cons.mp h
      have hensure : (⟨store, compile, true⟩ : Composer α ε).ensure reserved chain p name s =
          (⟨store, compile, false⟩ : Composer α ε).ensure reserved chain p name s := by
        rw [ensure, ensure, prepare_of_leaf reserved hapart hleaf]
      dsimp only
      rw [hensure]
      simp only [ih hrest]

/-- With or without nesting, a shallow master is composed to the same. -/
theorem compose_of_shallow {master : Design} (h : master.Shallow store) :
    (⟨store, compile, true⟩ : Composer α ε).compose master =
      (⟨store, compile, false⟩ : Composer α ε).compose master := by
  have hreferences : ∀ n ∈ master.placeholders.filterMap Placeholder.name?,
      n ∉ [master.name] ∧ ∀ d, (store.lookup n).outcome = .ok d → d.placeholders = [] := by
    intro n hn
    refine ⟨?_, h.leaves n hn⟩
    rw [List.mem_singleton]
    exact fun heq => h.apart (heq ▸ hn)
  rw [compose, compose, bindAll_of_leaves master.lastDeclared? hreferences]

end Composer

/-- The two modes agree on shallow masters, and otherwise on all that the master has of its own. -/
theorem modes_agree (store : Store) (compile : Design → Except ε α) (master : Design) :
    (master.Shallow store → (⟨store, compile, true⟩ : Composer α ε).compose master =
      (⟨store, compile, false⟩ : Composer α ε).compose master) ∧
    ∀ nested flat,
      ((⟨store, compile, true⟩ : Composer α ε).compose master).outcome = .ok nested →
      ((⟨store, compile, false⟩ : Composer α ε).compose master).outcome = .ok flat →
      ((⟨store, compile, true⟩ : Composer α ε).compose master).master =
        ((⟨store, compile, false⟩ : Composer α ε).compose master).master ∧
      nested.report = flat.report ∧
      ∀ n, n ∈ flat.names ↔ n ∈ nested.names ∧ n ∈ master.references := by
  refine ⟨Composer.compose_of_shallow, ?_⟩
  intro nested flat hnested hflat
  obtain ⟨made, hdone⟩ := Composer.Completed.of_compose_eq_ok _ hnested
  obtain ⟨made', hdone'⟩ := Composer.Completed.of_compose_eq_ok _ hflat
  refine ⟨hdone.rewritten.trans hdone'.rewritten.symm, ?_, fun n => ?_⟩
  · exact Except.ok.inj (hdone.accepted.symm.trans hdone'.accepted)
  · have hreached : n ∈ flat.names ↔ n ∈ master.references := by
      rw [hdone'.names_eq, hdone'.order.mem_iff_reached]
      exact reached_iff_mem (Composer.needs_flat store compile) _ n
    rw [hreached, hdone.mem_names_iff_reached]
    exact ⟨fun hn => ⟨⟨n, hn, .refl⟩, hn⟩, And.right⟩

def shallowMaster : Design :=
  .placing "Offer" ["\"Totals\"", "\"Extra\""]

theorem modes_agree_sharing :
    (shallowMaster.Shallow sharingTemplates.toStore ∧
      (⟨sharingTemplates.toStore, fun d => .ok d.name, true⟩ :
          Composer String Empty).compose shallowMaster =
        (⟨sharingTemplates.toStore, fun d => .ok d.name, false⟩ :
          Composer String Empty).compose shallowMaster) ∧
    ∃ nested flat,
      ((⟨sharingTemplates.toStore, fun d => .ok d.name, true⟩ :
        Composer String Empty).compose sharingMaster).outcome = .ok nested ∧
      ((⟨sharingTemplates.toStore, fun d => .ok d.name, false⟩ :
        Composer String Empty).compose sharingMaster).outcome = .ok flat ∧
      nested.names = ["Totals", "Lines", "Notes"] ∧ flat.names = ["Lines", "Notes"] ∧
      ∀ n, n ∈ flat.names ↔ n ∈ nested.names ∧ n ∈ sharingMaster.references := by
  have hshallow : shallowMaster.Shallow sharingTemplates.toStore := by
    have hreferences : shallowMaster.references = ["Totals", "Extra"] := by cbv
    have htotals : (sharingTemplates.toStore.lookup "Totals").outcome =
        .ok (.placing "Totals" []) := by cbv
    have hextra : (sharingTemplates.toStore.lookup "Extra").outcome =
        .error (.notFound "Extra") := by cbv
    constructor
    · rw [hreferences]
      intro n hn d hd
      fin_cases hn
      · obtain rfl := Except.ok.inj (htotals.symm.trans hd)
        rfl
      · cases hextra.symm.trans hd
    · rw [hreferences]
      decide
  have hnested : ((⟨sharingTemplates.toStore, fun d => .ok d.name, true⟩ :
      Composer String Empty).compose sharingMaster).outcome =
        .ok ⟨"Invoice", [("Totals", "Totals"), ("Lines", "Lines"), ("Notes", "Notes")]⟩ := by cbv
  have hflat : ((⟨sharingTemplates.toStore, fun d => .ok d.name, false⟩ :
      Composer String Empty).compose sharingMaster).outcome =
        .ok ⟨"Invoice", [("Lines", "Lines"), ("Notes", "Notes")]⟩ := by cbv
  refine ⟨⟨hshallow, (modes_agree _ _ _).1 hshallow⟩, _, _, hnested, hflat, rfl, rfl, ?_⟩
  exact ((modes_agree _ _ _).2 _ _ hnested hflat).2.2

end ReportAssembly
