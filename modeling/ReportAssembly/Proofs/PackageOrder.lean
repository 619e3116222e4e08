import Mathlib
import ReportAssembly.Proofs.Completion
import ReportAssembly.Proofs.Registrations

namespace ReportAssembly

variable {α ε : Type}

structure Package.DepthFirstOrdered (package : Package α) (master : Design) (store : Store) :
    Prop where
  post_order : ∀ order,
    DepthFirst store.references ∅ master.references order ↔ order = package.names
  nodup : package.names.Nodup
  mem_names_iff : ∀ n, n ∈ package.names ↔ Reached store.references master.references n
  after_reached : ∀ n m, n ∈ package.names → Relation.TransGen (Refers store.references) n m →
    package.names.idxOf m < package.names.idxOf n
  length_subreports : package.subreports.length = package.names.length
  binding_subreports : ∀ (i : Nat) (n : String), package.names[i]? = some n →
    ∃ artifact, package.subreports[i]? = some artifact ∧ package.binding? n = some artifact
  after_earlier : ∀ ns n ms, master.references = ns ++ n :: ms →
    ¬Reached store.references ns n →
    ∀ m ∈ ns, package.names.idxOf m < package.names.idxOf n

/-- A nested package is in depth-first order. -/
theorem nested_package_ordered (store : Store) (compile : Design → Except ε α) (master : Design)
    (package : Package α)
    (hok : ((⟨store, compile, true⟩ : Composer α ε).compose master).outcome = .ok package) :
    package.DepthFirstOrdered master store := by
  obtain ⟨made, h⟩ := Composer.Completed.of_compose_eq_ok _ hok
  have hneeds := Composer.needs_nested store compile
  have horder : DepthFirst store.references ∅ master.references package.names := by
    rw [h.names_eq, ← hneeds]
    exact h.order
  have hlayered : Layered store.references ∅ package.names := by
    rw [h.names_eq, ← hneeds]
    exact h.layered
  constructor
  case post_order => exact fun order => ⟨fun ho => ho.unique horder, fun ho => ho ▸ horder⟩
  case nodup => exact horder.nodup_and_fresh.1
  case mem_names_iff => exact horder.mem_iff_reached
  case after_reached => exact fun n m hn hm => (hlayered.idxOf_lt_of_transGen hn hm).2
  case length_subreports => rw [h.names_eq, h.subreports_eq, List.length_map, List.length_map]
  case binding_subreports =>
    intro i n hn
    obtain ⟨m, -, -, hsub, hbinding⟩ := h.getElem?_subreports hn
    exact ⟨m.artifact, hsub, hbinding⟩
  case after_earlier =>
    intro ns n ms hrefs hn
    rw [hrefs] at horder
    exact horder.idxOf_lt_of_not_reached hn

def Design.placing (name : String) (expressions : List String) : Design :=
  ⟨name, [], [⟨.detail, expressions.map fun e => ⟨.subreport ⟨e, .string⟩, ⟨0, 0⟩⟩⟩]⟩

def sharingTemplates : Registry :=
  .ofDesigns [.placing "Lines" ["\"Totals\""], .placing "Notes" ["\"Lines\"", "\"Totals\""],
    .placing "Totals" []]

def sharingMaster : Design :=
  .placing "Invoice" ["\"Lines\"", "\"Notes\"", " \" Lines \" "]

theorem nested_package_ordered_sharing :
    ∃ package, ((⟨sharingTemplates.toStore, fun d => .ok d.name, true⟩ :
        Composer String Empty).compose sharingMaster).outcome = .ok package ∧
      package.names = ["Totals", "Lines", "Notes"] ∧
      package.DepthFirstOrdered sharingMaster sharingTemplates.toStore :=
  have hok : ((⟨sharingTemplates.toStore, fun d => .ok d.name, true⟩ :
      Composer String Empty).compose sharingMaster).outcome =
        .ok ⟨"Invoice", [("Totals", "Totals"), ("Lines", "Lines"), ("Notes", "Notes")]⟩ := by cbv
  ⟨_, hok, rfl, nested_package_ordered _ _ _ _ hok⟩

end ReportAssembly
