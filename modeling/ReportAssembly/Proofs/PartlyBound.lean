import Mathlib.Data.List.Sigma
import ReportAssembly.Proofs.BoundForms

namespace ReportAssembly

def bindingParameter? (qs : List Placeholder) (name : String) : Option (Located Parameter) :=
  (qs.find? (·.name? == some name)).map fun p => ⟨⟨name, .report⟩, p.span⟩

theorem bindingParameter?_cons_of_ne {q : Placeholder} {name : String} (h : q.name? ≠ some name)
    (qs : List Placeholder) : bindingParameter? (q :: qs) name = bindingParameter? qs name := by
  have hfalse : (q.name? == some name) = false := beq_eq_false_iff_ne.mpr h
  rw [bindingParameter?, List.find?_cons, hfalse, bindingParameter?]

theorem bindingParameter?_cons_self {q : Placeholder} {name : String} (h : q.name? = some name)
    (qs : List Placeholder) :
    bindingParameter? (q :: qs) name = some ⟨⟨name, .report⟩, q.span⟩ := by
  rw [bindingParameter?, List.find?_cons, h, beq_self_eq_true]
  rfl

/-- The declarations are those of the distinct names, in the order of their first placeholders. -/
theorem bindingParameters_eq_filterMap (declared : List String) (qs : List Placeholder) :
    bindingParameters declared qs =
      ((qs.filterMap Placeholder.name?).filter (· ∉ declared)).eraseDups.filterMap
        (bindingParameter? qs) := by
  induction qs generalizing declared with
  | nil => rfl
  | cons q qs ih =>
    cases hq : q.name? with
    | none =>
      rw [bindingParameters, hq, List.filterMap_cons_none hq]
      dsimp only
      rw [ih declared]
      apply List.filterMap_congr
      intro n _
      exact (bindingParameter?_cons_of_ne (by simp [hq]) qs).symm
    | some name =>
      rw [bindingParameters, hq, List.filterMap_cons_some hq]
      dsimp only
      have hskip (ns : List String) (h : name ∉ ns) :
          ns.filterMap (bindingParameter? (q :: qs)) = ns.filterMap (bindingParameter? qs) := by
        apply List.filterMap_congr
        intro n hn
        apply bindingParameter?_cons_of_ne
        rw [hq]
        intro he
        exact h (Option.some.inj he ▸ hn)
      by_cases hdeclared : name ∈ declared
      · rw [if_pos hdeclared, ih declared, List.filter_cons_of_neg (by simpa using hdeclared),
          hskip _ (by simp [hdeclared])]
      · rw [if_neg hdeclared, ih (name :: declared),
          List.filter_cons_of_pos (by simpa using hdeclared), List.eraseDups_cons,
          List.filterMap_cons_some (bindingParameter?_cons_self hq qs), List.filter_filter,
          hskip _ (by simp)]
        congr 3
        apply List.filter_congr
        intro n _
        by_cases hn : n = name <;> simp [hn]

/-- The names declared first are those quoted, each with its first placeholder. -/
theorem bindingParameters_nil (qs : List Placeholder) :
    bindingParameters [] qs =
      (qs.filterMap Placeholder.name?).eraseDups.filterMap (bindingParameter? qs) := by
  have hall (ns : List String) : ns.filter (· ∉ ([] : List String)) = ns := by simp
  rw [bindingParameters_eq_filterMap, hall]

namespace Design

theorem pos_of_ofElement? {pos : Position} {e : Located Element} {p : Placeholder}
    (h : Placeholder.ofElement? pos e = some p) : p.pos = pos := by
  unfold Placeholder.ofElement? at h
  split at h
  · rw [← Option.some.inj h]
  · exact nomatch h

/-- No two placeholders stand at one place. -/
theorem nodup_positions (d : Design) : (d.placeholders.map (·.pos)).Nodup := by
  rw [List.Nodup, List.pairwise_map, placeholders, List.pairwise_flatMap]
  constructor
  · rintro ⟨s, band⟩ _
    have hindices : s.elements.zipIdx.Pairwise fun x y => x.2 ≠ y.2 :=
      List.pairwise_map.mp (List.nodup_zipIdx_map_snd s.elements)
    rw [List.pairwise_filterMap]
    apply hindices.imp
    intro x y hne p hp q hq hpos
    rw [pos_of_ofElement? hp, pos_of_ofElement? hq] at hpos
    exact hne (Position.mk.inj hpos).2
  · have hbands : d.sections.zipIdx.Pairwise fun x y => x.2 ≠ y.2 :=
      List.pairwise_map.mp (List.nodup_zipIdx_map_snd d.sections)
    apply hbands.imp
    intro x y hne p hp q hq hpos
    obtain ⟨e, _, hp⟩ := List.mem_filterMap.mp hp
    obtain ⟨e', _, hq⟩ := List.mem_filterMap.mp hq
    rw [pos_of_ofElement? hp, pos_of_ofElement? hq] at hpos
    exact hne (Position.mk.inj hpos).1

/-- Other elements are left alone by a partial binding. -/
theorem element?_boundAt_of_notMem (d : Design) {qs : List Placeholder} {pos : Position}
    (h : pos ∉ qs.map (·.pos)) : (d.boundAt qs).element? pos = d.element? pos := by
  rw [element?_boundAt]
  simp only [h, if_false, Option.map_id_fun', id]

theorem kinds_boundAt (d : Design) (qs : List Placeholder) :
    (d.boundAt qs).sections.map (·.kind) = d.sections.map (·.kind) := by
  apply List.ext_getElem?
  intro band
  simp [boundAt, mapElements]
  cases d.sections[band]? <;> rfl

theorem lengths_boundAt (d : Design) (qs : List Placeholder) :
    (d.boundAt qs).sections.map (·.elements.length) = d.sections.map (·.elements.length) := by
  apply List.ext_getElem?
  intro band
  simp [boundAt, mapElements]
  cases d.sections[band]? <;> simp

structure BoundUpTo (d master : Design) (k : Nat) : Prop where
  name : d.name = master.name
  parameters : d.parameters = master.parameters ++
    ((master.placeholders.take k).filterMap Placeholder.name?).eraseDups.filterMap
      (bindingParameter? (master.placeholders.take k))
  kinds : d.sections.map (·.kind) = master.sections.map (·.kind)
  lengths : d.sections.map (·.elements.length) = master.sections.map (·.elements.length)
  bound : ∀ p ∈ master.placeholders.take k, ∃ n, Quotes p.expression n ∧
    d.element? p.pos = some ⟨.subreport ⟨Interpolation.parameterReference n, .report⟩, p.span⟩
  later : ∀ p ∈ master.placeholders.drop k, d.element? p.pos = master.element? p.pos
  others : ∀ pos, pos ∉ master.placeholders.map (·.pos) → d.element? pos = master.element? pos

/-- With the first placeholders bound a design is bound up to there. -/
theorem boundUpTo_boundAt (master : Design) {k : Nat}
    (h : ∀ p ∈ master.placeholders.take k, ∃ n, p.name? = some n) :
    (master.boundAt (master.placeholders.take k)).BoundUpTo master k := by
  constructor
  case name => rfl
  case parameters => rw [boundAt, bindingParameters_nil]
  case kinds => exact master.kinds_boundAt _
  case lengths => exact master.lengths_boundAt _
  case bound =>
    intro p hp
    obtain ⟨n, hn⟩ := h p hp
    have hquotes : Quotes p.expression n := (p.name?_eq_some_iff n).mp hn
    obtain ⟨e, he, htext⟩ := (master.mem_placeholders_iff p).mp (List.mem_of_mem_take hp)
    have hpos : p.pos ∈ (master.placeholders.take k).map (·.pos) := List.mem_map_of_mem hp
    refine ⟨n, hquotes, ?_⟩
    rw [element?_boundAt, he, Option.map_some, if_pos hpos,
      Element.bound_subreport (htext ▸ hquotes)]
    rfl
  case later =>
    intro p hp
    apply element?_boundAt_of_notMem
    intro hmem
    have hdisjoint := List.disjoint_take_drop master.nodup_positions (le_refl k)
    rw [← List.map_take, ← List.map_drop] at hdisjoint
    exact hdisjoint hmem (List.mem_map_of_mem hp)
  case others =>
    intro pos hpos
    apply element?_boundAt_of_notMem
    intro hmem
    rw [List.map_take] at hmem
    exact hpos (List.mem_of_mem_take hmem)

/-- A design whose placeholders all quote names is bound to its end. -/
theorem boundUpTo_bound (d : Design) (h : d.Quoted) :
    d.bound.BoundUpTo d d.placeholders.length := by
  have hnames : ∀ p ∈ d.placeholders.take d.placeholders.length, ∃ n, p.name? = some n := by
    rw [List.take_length]
    intro p hp
    obtain ⟨n, hn⟩ := h p hp
    exact ⟨n, (p.name?_eq_some_iff n).mpr hn⟩
  have hbound := d.boundUpTo_boundAt hnames
  rwa [List.take_length, d.boundAt_placeholders] at hbound

end Design

end ReportAssembly
