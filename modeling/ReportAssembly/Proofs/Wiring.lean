import ReportAssembly.Fill.Evaluation
import ReportAssembly.Proofs.Chunking
import ReportAssembly.Proofs.PackageOrder

namespace ReportAssembly

variable {α ε : Type}

/-- The expression for a parameter has the value of the parameter. -/
theorem Environment.value?_parameterReference (env : Environment α) {name : String}
    (h : isIdentifier name = true) :
    env.value? (Interpolation.parameterReference name) = env.parameters.get? name := by
  rw [value?, Interpolation.parse_parameterReference h]
  rfl

theorem Package.binding?_eq_none {package : Package α} {name : String}
    (h : name ∉ package.names) : package.binding? name = none := by
  rw [binding?, List.lookup_eq_none_iff]
  intro entry hentry
  have hne : name ≠ entry.1 := fun he => h (he ▸ List.mem_map_of_mem hentry)
  simpa using hne

/-- A sub-report goes before the value that the caller has given under its name. -/
theorem Package.get?_parameters (package : Package α) (h : package.names.Nodup) (extra : Values α)
    (name : String) :
    (package.parameters extra).get? name =
      ((package.binding? name).map Value.report).or (extra.get? name) := by
  obtain ⟨report, bindings⟩ := package
  induction bindings generalizing extra with
  | nil => rfl
  | cons binding bindings ih =>
    obtain ⟨key, artifact⟩ := binding
    obtain ⟨hkey, hnodup⟩ := List.nodup_cons.mp h
    have hset : parameters ⟨report, (key, artifact) :: bindings⟩ extra =
        parameters ⟨report, bindings⟩ (extra.set key (.report artifact)) := rfl
    rw [hset, ih _ hnodup, Values.get?_set]
    by_cases hname : name = key
    · subst hname
      have hnone : binding? ⟨report, bindings⟩ name = none := binding?_eq_none hkey
      rw [hnone, binding?, List.lookup_cons_self, if_pos rfl]
      rfl
    · have hskip : binding? ⟨report, (key, artifact) :: bindings⟩ name =
          binding? ⟨report, bindings⟩ name := by
        simp [binding?, List.lookup_cons, beq_eq_false_iff_ne.mpr hname]
      rw [hskip, if_neg hname]

/-- The values that a package is filled with suit the composition of a master: each placeholder has
become an element whose expression yields the report compiled for the template that it names, and
no other value of the caller is touched, those for the parameters of the master among them. -/
structure Package.Wired (package : Package α) (c : Composer α ε) (master : Design)
    (extra fields : Values α) : Prop where
  placeholder : ∀ p ∈ master.placeholders, ∀ n, Quotes p.expression n → ∃ d artifact e,
    (c.store.lookup n).outcome = .ok d ∧ c.form d ∈ (c.compose master).handed ∧
    c.compile (c.form d) = .ok artifact ∧ package.binding? n = some artifact ∧
    (c.compose master).master.element? p.pos = some ⟨.subreport e, p.span⟩ ∧
    (⟨package.parameters extra, fields⟩ : Environment α).value? e.text = some (.report artifact)
  unbound : ∀ n, n ∉ package.names → (package.parameters extra).get? n = extra.get? n
  declared : ∀ n, master.Declares n →
    n ∉ package.names ∧ (package.parameters extra).get? n = extra.get? n

/-- A package is wired to its master, whatever values the caller has. -/
theorem composed_package_wired (c : Composer α ε) (master : Design) (package : Package α)
    (extra fields : Values α) (hok : (c.compose master).outcome = .ok package) :
    package.Wired c master extra fields := by
  obtain ⟨made, h⟩ := Composer.Completed.of_compose_eq_ok _ hok
  have hnodup : package.names.Nodup := h.names_eq ▸ h.nodup_names
  have hunbound (n : String) (hn : n ∉ package.names) :
      (package.parameters extra).get? n = extra.get? n := by
    rw [package.get?_parameters hnodup, Package.binding?_eq_none hn, Option.map_none,
      Option.none_or]
  constructor
  case placeholder =>
    intro p hp n hq
    obtain ⟨m, hm, rfl⟩ := h.exists_made ((master.mem_references_iff n).mpr ⟨p, hp, hq⟩)
    have hmade := h.makes m hm
    refine ⟨m.design, m.artifact, ⟨Interpolation.parameterReference m.name, .report⟩,
      hmade.stored, ?_, hmade.accepted, h.binding?_eq hm, ?_, ?_⟩
    · rw [h.handed]
      exact List.mem_append_left _ (List.mem_map_of_mem hm)
    · rw [h.rewritten]
      exact master.element?_bound hp hq
    · rw [Environment.value?_parameterReference _ hq.isIdentifier,
        package.get?_parameters hnodup, h.binding?_eq hm]
      rfl
  case unbound => exact hunbound
  case declared =>
    intro n hn
    have hmem : n ∉ package.names := by
      rw [h.mem_names_iff]
      rintro ⟨m, hm, rfl⟩
      exact (master.lastDeclared?_eq_none_iff m.name).mp (h.makes m hm).unreserved hn
    exact ⟨hmem, hunbound n hmem⟩

theorem composed_package_wired_sharing :
    ∃ package, ((⟨sharingTemplates.toStore, fun d => .ok d.name, true⟩ :
        Composer String Empty).compose
          (sharingMaster.declare ⟨⟨"Title", .string⟩, ⟨0, 0⟩⟩)).outcome = .ok package ∧
      package.Wired (⟨sharingTemplates.toStore, fun d => .ok d.name, true⟩ : Composer String Empty)
        (sharingMaster.declare ⟨⟨"Title", .string⟩, ⟨0, 0⟩⟩)
        [("Title", .text "July"), ("Lines", .text "none")] [] :=
  have hok : ((⟨sharingTemplates.toStore, fun d => .ok d.name, true⟩ :
      Composer String Empty).compose
        (sharingMaster.declare ⟨⟨"Title", .string⟩, ⟨0, 0⟩⟩)).outcome =
          .ok ⟨"Invoice", [("Totals", "Totals"), ("Lines", "Lines"), ("Notes", "Notes")]⟩ := by cbv
  ⟨_, hok, composed_package_wired _ _ _ _ _ hok⟩

end ReportAssembly
