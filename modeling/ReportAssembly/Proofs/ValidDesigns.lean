import Mathlib.Data.List.Nodup
import Mathlib.Data.List.Forall2
import ReportAssembly.Proofs.Problems

namespace ReportAssembly

def Expression.Readable (x : Expression) (d : Design) : Prop :=
  ∃ chunks, Interpolation.parse x.text = .ok chunks ∧
    ∀ n, .reference .parameter n ∈ chunks → d.Declares n

def Expression.SuppliesReport (x : Expression) (d : Design) : Prop :=
  ∃ chunks n, Interpolation.parse x.text = .ok chunks ∧
    chunks.meaningful = [.reference .parameter n] ∧ ⟨n, .report⟩ ∈ d.parameters.map (·.value)

structure Element.Valid (e : Element) (d : Design) : Prop where
  field : ∀ x, e = .field x → x.type ≠ .report
  expression : ∀ x, e.expression? = some x → x.Readable d
  subreport : ∀ x, e = .subreport x → x.type = .report → x.SuppliesReport d

structure Design.Valid (d : Design) : Prop where
  named : Text.allBlank d.name = false
  distinct : (d.parameters.map (·.value.name)).Nodup
  elements : ∀ s ∈ d.sections, ∀ e ∈ s.elements, e.value.Valid d

namespace Report

variable {d : Design}

theorem declarations_eq_none_iff {n : String} : declarations d n = none ↔ ¬d.Declares n := by
  rw [declarations, Option.map_eq_none_iff, d.parameter?_eq_none_iff]

/-- A parameter that is declared once has the type of its declaration. -/
theorem declarations_eq_some_iff (hdistinct : (d.parameters.map (·.value.name)).Nodup) {n : String}
    {type : ValueType} :
    declarations d n = some type ↔ ⟨n, type⟩ ∈ d.parameters.map (·.value) := by
  constructor
  · intro h
    exact List.mem_of_find?_eq_some (parameter?_of_declarations h)
  · intro h
    cases hd : declarations d n with
    | none =>
      rw [declarations_eq_none_iff, Design.Declares] at hd
      obtain ⟨p, hp, hvalue⟩ := List.mem_map.mp h
      exact absurd (List.mem_map.mpr ⟨p, hp, by rw [hvalue]⟩) hd
    | some other =>
      have hother := List.mem_of_find?_eq_some (parameter?_of_declarations hd)
      have hnames : ((d.parameters.map (·.value)).map Parameter.name).Nodup := by
        rwa [List.map_map]
      have hsame : (⟨n, other⟩ : Parameter) = ⟨n, type⟩ :=
        List.inj_on_of_nodup_map hnames hother h rfl
      rw [(Parameter.mk.inj hsame).2]

/-- An expression can be read exactly if it has no problem. -/
theorem readable_iff {x : Expression} :
    x.Readable d ↔ ∀ p, ¬x.HasProblem (declarations d) p := by
  constructor
  · rintro ⟨chunks, hparse, hdeclared⟩ p hp
    cases hp with
    | malformed hbad => exact nomatch hparse.symm.trans hbad
    | undeclared hgood hn hfree =>
      obtain rfl := Except.ok.inj (hparse.symm.trans hgood)
      exact declarations_eq_none_iff.mp hfree (hdeclared _ hn)
  · intro hnone
    cases hparse : Interpolation.parse x.text with
    | error error => exact absurd (.malformed hparse) (hnone _)
    | ok chunks =>
      refine ⟨chunks, hparse, fun n hn => ?_⟩
      by_contra hfree
      exact hnone _ (.undeclared hparse hn (declarations_eq_none_iff.mpr hfree))

/-- An expression supplies a report exactly if nothing is wrong with its supply. -/
theorem suppliesReport_iff (hdistinct : (d.parameters.map (·.value.name)).Nodup) {x : Expression}
    (hreadable : x.Readable d) :
    x.SuppliesReport d ↔ ∀ p, ¬x.HasSupplyProblem (declarations d) p := by
  obtain ⟨chunks, hparse, hdeclared⟩ := hreadable
  constructor
  · rintro ⟨chunks', n, hparse', hone, hn⟩ p
    obtain rfl := Except.ok.inj (hparse.symm.trans hparse')
    rw [Expression.hasSupplyProblem_iff hparse]
    rintro (⟨hmany, -⟩ | ⟨m, type, hone', hd, htype, -⟩)
    · exact hmany n hone
    · obtain rfl := Interpolation.name_unique hone hone'
      rw [(declarations_eq_some_iff hdistinct).mpr hn] at hd
      exact htype (Option.some.inj hd).symm
  · intro hnone
    by_cases hone : ∃ n, chunks.meaningful = [.reference .parameter n]
    · obtain ⟨n, hone⟩ := hone
      refine ⟨chunks, n, hparse, hone, (declarations_eq_some_iff hdistinct).mp ?_⟩
      cases hd : declarations d n with
      | none =>
        exact absurd (hdeclared n (Interpolation.mem_of_meaningful_eq hone))
          (declarations_eq_none_iff.mp hd)
      | some type =>
        by_contra htype
        exact hnone _ (.notReport hparse hone hd fun h => htype (congrArg some h))
    · refine absurd (.notOne fun found n hparse' => ?_) (hnone _)
      obtain rfl := Except.ok.inj (hparse.symm.trans hparse')
      exact not_exists.mp hone n

/-- If the names of the parameters are different, the valid elements are those without problems. -/
theorem element_valid_iff (hdistinct : (d.parameters.map (·.value.name)).Nodup)
    {e : ReportAssembly.Element} :
    e.Valid d ↔ ∀ p, ¬e.HasProblem (declarations d) p := by
  constructor
  · intro h p hp
    cases hp with
    | yieldsReport htype => exact h.field _ rfl htype
    | expression he hx => exact readable_iff.mp (h.expression _ he) p hx
    | supply htype hx =>
      have hreadable := h.expression _ rfl
      exact (suppliesReport_iff hdistinct hreadable).mp (h.subreport _ rfl htype) p hx
  · intro hnone
    have hreadable : ∀ x, e.expression? = some x → x.Readable d := fun x he =>
      readable_iff.mpr fun p hx => hnone p (.expression he hx)
    refine ⟨?_, hreadable, ?_⟩
    · rintro x rfl htype
      exact hnone _ (.yieldsReport htype)
    · rintro x rfl htype
      exact (suppliesReport_iff hdistinct (hreadable x rfl)).mpr fun p hx =>
        hnone p (.supply htype hx)

/-- An element has nothing to report exactly if it has no problem. -/
theorem elementProblems_eq_nil_iff_not_hasProblem {declared : Declarations}
    {e : Located ReportAssembly.Element} :
    elementProblems declared e = [] ↔ ∀ p, ¬e.value.HasProblem declared p := by
  rw [List.eq_nil_iff_forall_not_mem]
  constructor
  · intro hnil p hp
    obtain ⟨q, hq⟩ := exists_foremost hp
    exact hnil ⟨q, some e.span⟩ (mem_elementProblems_iff.mpr ⟨rfl, hq⟩)
  · exact fun hnone x hx => hnone _ (mem_elementProblems_iff.mp hx).2.present

/-- There are no redeclarations exactly if the names are distinct. -/
theorem redeclarations_eq_nil_iff {ps : List (Located Parameter)} :
    redeclarations ps = [] ↔ (ps.map (·.value.name)).Nodup := by
  induction ps using List.reverseRecOn with
  | nil => exact iff_of_true rfl List.nodup_nil
  | append_singleton ps p ih =>
    rw [redeclarations_concat, List.append_eq_nil_iff, ih, List.map_append, List.map_singleton,
      List.nodup_append_comm, List.singleton_append, List.nodup_cons, and_comm]
    split_ifs with hmem
    · simp [hmem]
    · simp [hmem]

/-- A design has nothing to report exactly if it is valid. -/
theorem diagnostics_eq_nil_iff : diagnostics d = [] ↔ d.Valid := by
  rw [diagnostics, List.append_eq_nil_iff, List.append_eq_nil_iff, repeatedDeclarations_eq_map,
    List.map_eq_nil_iff, redeclarations_eq_nil_iff]
  have hname : nameProblems d = [] ↔ Text.allBlank d.name = false := by
    rw [nameProblems]
    split_ifs with h
    · simp [h]
    · simpa using h
  rw [hname]
  simp only [List.flatMap_eq_nil_iff, elementProblems_eq_nil_iff_not_hasProblem]
  constructor
  · rintro ⟨⟨hnamed, hdistinct⟩, helements⟩
    exact ⟨hnamed, hdistinct, fun s hs e he =>
      (element_valid_iff hdistinct).mpr (helements s hs e he)⟩
  · intro h
    exact ⟨⟨h.named, h.distinct⟩, fun s hs e he =>
      (element_valid_iff h.distinct).mp (h.elements s hs e he)⟩

inductive Translates : ReportAssembly.Element → Element → Prop
  | text (content : String) : Translates (.text content) (.text content)
  | field {x : Expression} {chunks : Interpolation} (h : Interpolation.parse x.text = .ok chunks) :
      Translates (.field x) (.field chunks x.type)
  | supplied {x : Expression} {chunks : Interpolation} {n : String} (htype : x.type = .report)
      (h : Interpolation.parse x.text = .ok chunks)
      (hone : chunks.meaningful = [.reference .parameter n]) :
      Translates (.subreport x) (.subreportParameter n)
  | expression {x : Expression} {chunks : Interpolation} (htype : x.type ≠ .report)
      (h : Interpolation.parse x.text = .ok chunks) :
      Translates (.subreport x) (.subreportExpression chunks)

structure TranslationOf (d : Design) (r : Report) : Prop where
  name : r.name = d.name
  parameters : r.parameters = d.parameters.map (·.value)
  sections : List.Forall₂ (fun (s : ReportAssembly.Section) (t : Section) => t.kind = s.kind ∧
    List.Forall₂ (fun (e : Located ReportAssembly.Element) y => Translates e.value y)
      s.elements t.elements) d.sections r.sections

/-- The compiled form of an element translates it. -/
theorem translates_of_compileElement {declared : Declarations} {e : ReportAssembly.Element}
    {y : Element} (h : compileElement declared e = .ok y) : Translates e y := by
  have hv := verdict declared e
  rw [h] at hv
  cases hv with
  | text content => exact .text content
  | field htype hx => exact .field (of_compileExpression_eq_ok hx).1
  | subreportExpression htype hx => exact .expression htype (of_compileExpression_eq_ok hx).1
  | subreportParameter htype hx hone hd =>
    exact .supplied htype (of_compileExpression_eq_ok hx).1 hone

theorem forall₂_filterMap {α β : Type} {R : α → β → Prop} {f : α → Option β} {l : List α}
    (h : ∀ a ∈ l, ∃ b, f a = some b ∧ R a b) : List.Forall₂ R l (l.filterMap f) := by
  induction l with
  | nil => exact .nil
  | cons a l ih =>
    obtain ⟨⟨b, hb, hab⟩, hl⟩ := List.forall_mem_cons.mp h
    rw [List.filterMap_cons_some hb]
    exact .cons hab (ih hl)

/-- No element is left out of the report. -/
theorem translationOf_of_compile {r : Report} (h : compile d = .ok r) : TranslationOf d r := by
  obtain ⟨hnil, rfl⟩ := compile_eq_ok_iff.mp h
  refine ⟨rfl, rfl, ?_⟩
  rw [List.forall₂_map_right_iff, List.forall₂_same]
  intro s hs
  refine ⟨rfl, forall₂_filterMap fun e he => ?_⟩
  obtain ⟨y, hy⟩ := exists_of_diagnostics_eq_nil hnil hs he
  exact ⟨y, by rw [hy]; rfl, translates_of_compileElement hy⟩

def Declarations.ofParameters (ps : List Parameter) : Declarations :=
  fun name => (ps.find? (·.name == name)).map (·.type)

/-- Exactly the valid designs are compiled, and nothing of them is dropped; of the others all is
reported in order, each element by itself. -/
theorem valid_designs_compiled (d : Design) :
    ((∃ r, compile d = .ok r) ↔ d.Valid) ∧
    (∀ r, compile d = .ok r → TranslationOf d r) ∧
    ∀ cause, compile d = .error cause →
      cause.diagnostics ≠ [] ∧
      cause.diagnostics =
        (if Text.allBlank d.name then [⟨.blankName, none⟩] else []) ++
          (redeclarations d.parameters).map
            (fun p => ⟨.repeatedParameter p.value.name, some p.span⟩) ++
          d.sections.flatMap (fun s => s.elements.flatMap
            (elementProblems (.ofParameters (d.parameters.map (·.value))))) ∧
      ∀ s ∈ d.sections, ∀ e ∈ s.elements, ∀ x,
        x ∈ elementProblems (.ofParameters (d.parameters.map (·.value))) e ↔
          x.span? = some e.span ∧
            e.value.Foremost (.ofParameters (d.parameters.map (·.value))) x.problem := by
  refine ⟨?_, fun r => translationOf_of_compile, fun cause h => ?_⟩
  · rw [← diagnostics_eq_nil_iff]
    constructor
    · rintro ⟨r, hr⟩
      exact (compile_eq_ok_iff.mp hr).1
    · exact fun hnil => ⟨_, compile_eq_ok_iff.mpr ⟨hnil, rfl⟩⟩
  · have hne : diagnostics d ≠ [] := by
      intro hnil
      exact nomatch h.symm.trans (compile_eq_ok_iff.mpr ⟨hnil, rfl⟩)
    rw [diagnostics_of_error h]
    refine ⟨hne, ?_, fun s _ e _ x => mem_elementProblems_iff⟩
    rw [diagnostics, repeatedDeclarations_eq_map]
    rfl

def wellFormedDesign : Design :=
  ⟨"R", [⟨⟨"Title", .string⟩, ⟨19, 42⟩⟩, ⟨⟨"Lines", .report⟩, ⟨43, 66⟩⟩],
    [⟨.title, [⟨.field ⟨"No. $F\x7bnumber\x7d $P\x7bTitle\x7d", .number⟩, ⟨84, 130⟩⟩]⟩,
      ⟨.detail, [⟨.text "Line", ⟨150, 161⟩⟩,
        ⟨.subreport ⟨" $P\x7bLines\x7d ", .report⟩, ⟨162, 194⟩⟩,
        ⟨.subreport ⟨"\"Notes\"", .string⟩, ⟨195, 214⟩⟩]⟩]⟩

theorem valid_designs_compiled_all_forms :
    wellFormedDesign.Valid ∧ ∃ r, compile wellFormedDesign = .ok r ∧
      TranslationOf wellFormedDesign r ∧ r.subreportParameters = ["Lines"] := by
  obtain ⟨hvalid, htranslation, -⟩ := valid_designs_compiled wellFormedDesign
  have hcompile : compile wellFormedDesign = .ok ⟨"R", [⟨"Title", .string⟩, ⟨"Lines", .report⟩],
      [⟨.title, [.field [.text "No. ", .reference .field "number", .text " ",
        .reference .parameter "Title"] .number]⟩,
      ⟨.detail, [.text "Line", .subreportParameter "Lines",
        .subreportExpression [.text "\"Notes\""]]⟩]⟩ :=
    compile_eq_ok_iff.mpr ⟨rfl, rfl⟩
  exact ⟨hvalid.mp ⟨_, hcompile⟩, _, hcompile, htranslation _ hcompile, rfl⟩

end Report

end ReportAssembly
