import ReportAssembly.Proofs.ValidDesigns
import ReportAssembly.Proofs.Wiring

namespace ReportAssembly

namespace Interpolation

/-- A character joins chunks that are blank exactly if it is. -/
theorem all_isBlank_consChar (c : Char) (chunks : Interpolation) :
    (consChar c chunks).all Chunk.isBlank = (Text.isBlank c && chunks.all Chunk.isBlank) := by
  unfold consChar
  split
  · simp [Chunk.isBlank, Text.allBlank, Bool.and_assoc]
  · simp [Chunk.isBlank, Text.allBlank]

/-- No blank is gained or lost when a text is cut into chunks. The rest of a reference is never
blank: its closing brace is in it. -/
theorem all_isBlank_read {mode : Mode} {pos : Nat} {cs : List Char} {chunks : Interpolation}
    (h : read mode pos cs = .ok chunks) :
    chunks.all Chunk.isBlank = (decide (mode = .literal) && cs.all Text.isBlank) := by
  fun_induction read mode pos cs generalizing chunks with
  | case1 =>
    obtain rfl := Except.ok.inj h
    rfl
  | case2 pos cs ih => rw [ih h]; rfl
  | case3 pos cs ih => rw [ih h]; rfl
  | case4 pos c cs _ _ ih =>
    obtain ⟨rest, hrest, rfl⟩ := map_eq_ok h
    rw [all_isBlank_consChar, ih hrest]
    rfl
  | case5 => exact nomatch h
  | case6 => exact nomatch h
  | case7 =>
    obtain ⟨rest, -, rfl⟩ := map_eq_ok h
    rfl
  | case8 kind offset name pos c cs _ ih => rw [ih h]; rfl

/-- An expression has no meaningful chunk exactly if it is blank. -/
theorem meaningful_eq_nil_iff {text : String} {chunks : Interpolation}
    (h : parse text = .ok chunks) : chunks.meaningful = [] ↔ Text.allBlank text = true := by
  have hall : chunks.all Chunk.isBlank = Text.allBlank text := all_isBlank_read h
  rw [← hall, meaningful, List.filter_eq_nil_iff, List.all_eq_true]
  simp

end Interpolation

def Expression.RefersTo (x : Expression) (kind : ReferenceKind) (n : String) : Prop :=
  ∃ chunks, Interpolation.parse x.text = .ok chunks ∧ .reference kind n ∈ chunks

variable {α : Type}

namespace Environment

structure Evaluates (env : Environment α) (x : Expression) : Prop where
  value : (env.value? x.text).isSome = true ↔ Text.allBlank x.text = false
  complete : ∃ chunks, Interpolation.parse x.text = .ok chunks ∧
    ∀ kind n, .reference kind n ∈ chunks → (env.lookup? kind n).isSome = true

/-- Chunks have a value if their references have one and not all of them are blank. -/
theorem chunksValue?_isSome {env : Environment α} {chunks : Interpolation}
    (hne : chunks.meaningful ≠ [])
    (h : ∀ kind n, .reference kind n ∈ chunks → (env.lookup? kind n).isSome = true) :
    (env.chunksValue? chunks).isSome = true := by
  unfold chunksValue?
  split
  · next hnil => exact absurd hnil hne
  · rfl
  · next kind name hone => exact h kind name (Interpolation.mem_of_meaningful_eq hone)
  · rfl

/-- Blank chunks have no value. -/
theorem chunksValue?_of_meaningful_eq_nil {env : Environment α} {chunks : Interpolation}
    (h : chunks.meaningful = []) : env.chunksValue? chunks = none := by
  rw [chunksValue?, h]

theorem evaluates_of_parse {env : Environment α} {x : Expression} {chunks : Interpolation}
    (hparse : Interpolation.parse x.text = .ok chunks)
    (h : ∀ kind n, .reference kind n ∈ chunks → (env.lookup? kind n).isSome = true) :
    env.Evaluates x := by
  refine ⟨?_, chunks, hparse, h⟩
  have hvalue : env.value? x.text = env.chunksValue? chunks := by rw [value?, hparse]
  have hblank := Interpolation.meaningful_eq_nil_iff hparse
  rw [hvalue]
  cases hall : Text.allBlank x.text with
  | true =>
    rw [chunksValue?_of_meaningful_eq_nil (hblank.mpr hall)]
    simp
  | false =>
    have hne : chunks.meaningful ≠ [] := fun hnil =>
      Bool.false_ne_true (hall.symm.trans (hblank.mp hnil))
    simp [chunksValue?_isSome hne h]

end Environment

/-- With these values for the parameters each text field of the design can be evaluated, as soon as
the fields that it refers to have values. -/
def Design.Evaluable (d : Design) (parameters : Values α) : Prop :=
  ∀ s ∈ d.sections, ∀ e ∈ s.elements, ∀ x, e.value = .field x → ∀ fields : Values α,
    (∀ path, x.RefersTo .field path → (fields.get? path).isSome = true) →
      (⟨parameters, fields⟩ : Environment α).Evaluates x

/-- In a valid design only values for the declared parameters are wanted. -/
theorem Design.Valid.evaluable {d : Design} (h : d.Valid) {parameters : Values α}
    (hparameters : ∀ n, d.Declares n → (parameters.get? n).isSome = true) :
    d.Evaluable parameters := by
  intro s hs e he x hx fields hfields
  have hvalid : (Element.field x).Valid d := hx ▸ h.elements s hs e he
  obtain ⟨chunks, hparse, hdeclared⟩ := hvalid.expression x rfl
  apply Environment.evaluates_of_parse hparse
  intro kind n hn
  cases kind with
  | parameter => exact hparameters n (hdeclared n hn)
  | field => exact hfields n ⟨chunks, hparse, hn⟩

/-- A bound design declares what it declared before, and the names that it refers to. -/
theorem Design.declares_bound_iff {d : Design} {n : String} :
    d.bound.Declares n ↔ d.Declares n ∨ n ∈ d.references := by
  have hnames : n ∈ (bindingParameters [] d.placeholders).map (·.value.name) ↔
      n ∈ d.references := by
    rw [mem_bindingParameters_names]
    exact and_iff_left List.not_mem_nil
  rw [Declares, bound, List.map_append, List.mem_append, hnames, Declares]

/-- The values that a package is filled with are complete for the master it was made of, if those of
the caller are for the master as it was. -/
theorem Package.parameters_complete {ε : Type} {c : Composer α ε} {master : Design}
    {package : Package α} {extra : Values α} (hok : (c.compose master).outcome = .ok package)
    (hextra : ∀ n, master.Declares n → (extra.get? n).isSome = true) (n : String)
    (hn : (c.compose master).master.Declares n) :
    ((package.parameters extra).get? n).isSome = true := by
  obtain ⟨made, h⟩ := Composer.Completed.of_compose_eq_ok _ hok
  have hnodup : package.names.Nodup := h.names_eq ▸ h.nodup_names
  rw [h.rewritten, Design.declares_bound_iff] at hn
  rw [package.get?_parameters hnodup, Option.isSome_or]
  rcases hn with hn | hn
  · rw [hextra n hn, Bool.or_true]
  · obtain ⟨m, hm, rfl⟩ := h.exists_made hn
    rw [h.binding?_eq hm]
    rfl

/-- What the built-in compiler accepts can be evaluated: a design, once its parameters have values,
and the master of a package, once the parameters have values that it declared itself. -/
theorem accepted_fields_have_values :
    (∀ {α : Type} (d : Design) (r : Report) (parameters : Values α),
      Report.compile d = .ok r → (∀ n, d.Declares n → (parameters.get? n).isSome = true) →
        d.Evaluable parameters) ∧
    ∀ (store : Store) (nested : Bool) (master : Design) (package : Package Report)
      (extra : Values Report),
      ((⟨store, Report.compile, nested⟩ : Composer Report Report.CompileError).compose
        master).outcome = .ok package →
      (∀ n, master.Declares n → (extra.get? n).isSome = true) →
        ((⟨store, Report.compile, nested⟩ : Composer Report Report.CompileError).compose
          master).master.Evaluable (package.parameters extra) := by
  have hvalid {d : Design} {r : Report} (h : Report.compile d = .ok r) : d.Valid :=
    Report.diagnostics_eq_nil_iff.mp (Report.compile_eq_ok_iff.mp h).1
  constructor
  · intro α d r parameters hcompile hparameters
    exact (hvalid hcompile).evaluable hparameters
  · intro store nested master package extra hok hextra
    obtain ⟨made, h⟩ := Composer.Completed.of_compose_eq_ok _ hok
    have hmaster : ((⟨store, Report.compile, nested⟩ :
        Composer Report Report.CompileError).compose master).master.Valid := by
      rw [h.rewritten]
      exact hvalid h.accepted
    exact hmaster.evaluable (Package.parameters_complete hok hextra)

def titledDesign : Design :=
  ⟨"R", [⟨⟨"Title", .string⟩, ⟨19, 42⟩⟩],
    [⟨.title, [⟨.field ⟨"No. $F\x7bnumber\x7d $P\x7bTitle\x7d", .string⟩, ⟨60, 98⟩⟩,
      ⟨.field ⟨" ", .string⟩, ⟨99, 112⟩⟩]⟩]⟩

def countingMaster : Design :=
  titledDesign.addSection ⟨.summary, [⟨.subreport ⟨"\"A\"", .string⟩, ⟨130, 145⟩⟩,
    ⟨.field ⟨"$P\x7bA\x7d for $P\x7bTitle\x7d", .string⟩, ⟨146, 175⟩⟩]⟩

def countedTemplates : Registry :=
  .ofDesigns [⟨"A", [], [⟨.detail, []⟩]⟩]

theorem accepted_fields_have_values_counting :
    titledDesign.Evaluable [("Title", (.text "July" : Value String))] ∧
      ∃ package, ((⟨countedTemplates.toStore, Report.compile, false⟩ :
          Composer Report Report.CompileError).compose countingMaster).outcome = .ok package ∧
        ((⟨countedTemplates.toStore, Report.compile, false⟩ :
          Composer Report Report.CompileError).compose countingMaster).master.Evaluable
            (package.parameters [("Title", .text "July")]) ∧
        (⟨package.parameters [("Title", .text "July")], []⟩ : Environment Report).value?
          "$P\x7bA\x7d for $P\x7bTitle\x7d" = some (.text "[report] for July") := by
  have htitle {β : Type} (n : String) (hn : n ∈ ["Title"]) :
      (Values.get? [("Title", (.text "July" : Value β))] n).isSome = true := by
    obtain rfl := List.mem_singleton.mp hn
    rfl
  have hcompile : Report.compile titledDesign = .ok ⟨"R", [⟨"Title", .string⟩],
      [⟨.title, [.field [.text "No. ", .reference .field "number", .text " ",
        .reference .parameter "Title"] .string, .field [.text " "] .string]⟩]⟩ :=
    Report.compile_eq_ok_iff.mpr ⟨by cbv, by cbv⟩
  have hok : ((⟨countedTemplates.toStore, Report.compile, false⟩ :
      Composer Report Report.CompileError).compose countingMaster).outcome =
      .ok ⟨⟨"R", [⟨"Title", .string⟩, ⟨"A", .report⟩],
        [⟨.title, [.field [.text "No. ", .reference .field "number", .text " ",
          .reference .parameter "Title"] .string, .field [.text " "] .string]⟩,
        ⟨.summary, [.subreportParameter "A", .field [.reference .parameter "A", .text " for ",
          .reference .parameter "Title"] .string]⟩]⟩,
        [("A", ⟨"A", [], [⟨.detail, []⟩]⟩)]⟩ := by cbv
  exact ⟨accepted_fields_have_values.1 _ _ _ hcompile htitle, _, hok,
    accepted_fields_have_values.2 _ _ _ _ _ hok htitle, by cbv⟩

end ReportAssembly
