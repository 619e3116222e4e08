import ReportAssembly.Placeholder.Binding
import ReportAssembly.Proofs.TemplateNames

namespace ReportAssembly

def Element.bound : Element → Element
  | .subreport e =>
    match templateName e.text with
    | .ok name => Binder.boundElement name
    | .error _ => .subreport e
  | e => e

theorem Element.bound_subreport {e : Expression} {name : String} (h : Quotes e.text name) :
    (Element.subreport e).bound = Binder.boundElement name := by
  rw [Element.bound, (templateName_eq_ok_iff e.text name).mpr h]

/-- The parameters that binding some placeholders declares, those in `declared` apart: one for each
name, where the name is met first. -/
def bindingParameters (declared : List String) : List Placeholder → List (Located Parameter)
  | [] => []
  | p :: ps =>
    match p.name? with
    | some name =>
      if name ∈ declared then bindingParameters declared ps
      else ⟨⟨name, .report⟩, p.span⟩ :: bindingParameters (name :: declared) ps
    | none => bindingParameters declared ps

/-- One more placeholder declares its name, unless it is declared before. -/
theorem bindingParameters_concat (declared : List String) (qs : List Placeholder)
    {p : Placeholder} {name : String} (hp : p.name? = some name) :
    bindingParameters declared (qs ++ [p]) = bindingParameters declared qs ++
      if name ∈ declared ∨ name ∈ qs.filterMap Placeholder.name? then []
      else [⟨⟨name, .report⟩, p.span⟩] := by
  induction qs generalizing declared with
  | nil => by_cases h : name ∈ declared <;> simp [bindingParameters, hp, h]
  | cons q qs ih =>
    cases hq : q.name? with
    | none => simpa [bindingParameters, hq] using ih declared
    | some other =>
      by_cases h : other ∈ declared
      · have hor : (name ∈ declared ∨ name = other ∨ name ∈ qs.filterMap Placeholder.name?) ↔
            (name ∈ declared ∨ name ∈ qs.filterMap Placeholder.name?) := by
          constructor
          · rintro (hd | rfl | hn)
            · exact Or.inl hd
            · exact Or.inl h
            · exact Or.inr hn
          · rintro (hd | hn)
            · exact Or.inl hd
            · exact Or.inr (Or.inr hn)
        simp only [List.cons_append, bindingParameters, hq, h, if_true, ih declared,
          List.filterMap_cons, List.mem_cons, hor]
      · simp only [List.cons_append, bindingParameters, hq, h, if_false, ih (other :: declared),
          List.filterMap_cons, List.mem_cons, or_assoc, or_left_comm]

/-- The names declared are those quoted, but for the ones declared before. -/
theorem mem_bindingParameters_names (declared : List String) (qs : List Placeholder)
    (name : String) :
    name ∈ (bindingParameters declared qs).map (·.value.name) ↔
      name ∈ qs.filterMap Placeholder.name? ∧ name ∉ declared := by
  induction qs generalizing declared with
  | nil => simp [bindingParameters]
  | cons q qs ih =>
    cases hq : q.name? with
    | none => simp [bindingParameters, hq, ih declared]
    | some other =>
      by_cases h : other ∈ declared
      · rw [bindingParameters, hq]
        simp only [h, if_true, ih declared, List.filterMap_cons, hq, List.mem_cons]
        constructor
        · exact fun hn => ⟨Or.inr hn.1, hn.2⟩
        · rintro ⟨rfl | hn, hd⟩
          · exact absurd h hd
          · exact ⟨hn, hd⟩
      · rw [bindingParameters, hq]
        simp only [h, if_false, List.map_cons, List.mem_cons, ih (other :: declared),
          List.filterMap_cons, hq]
        constructor
        · rintro (rfl | ⟨hn, hd⟩)
          · exact ⟨Or.inl rfl, h⟩
          · exact ⟨Or.inr hn, fun hm => hd (Or.inr hm)⟩
        · rintro ⟨rfl | hn, hd⟩
          · exact Or.inl rfl
          · by_cases he : name = other
            · exact Or.inl he
            · exact Or.inr ⟨hn, fun hm => hm.elim he hd⟩

namespace Design

def mapElements (d : Design) (f : Position → Element → Element) : Design :=
  { d with
    sections := d.sections.mapIdx fun band s =>
      { s with
        elements := s.elements.mapIdx fun index e => { e with value := f ⟨band, index⟩ e.value } } }

def bound (d : Design) : Design where
  name := d.name
  parameters := d.parameters ++ bindingParameters [] d.placeholders
  sections := (d.mapElements fun _ e => e.bound).sections

def boundAt (d : Design) (qs : List Placeholder) : Design where
  name := d.name
  parameters := d.parameters ++ bindingParameters [] qs
  sections := (d.mapElements fun pos e => if pos ∈ qs.map (·.pos) then e.bound else e).sections

def Declares (d : Design) (name : String) : Prop :=
  name ∈ d.parameters.map (·.value.name)

theorem element?_mapElements (d : Design) (f : Position → Element → Element) (pos : Position) :
    (d.mapElements f).element? pos =
      (d.element? pos).map fun e => { e with value := f pos e.value } := by
  unfold element? mapElements
  cases hs : d.sections[pos.band]? with
  | none => simp [hs]
  | some s => simp [hs]

theorem mapElements_congr {d : Design} {f g : Position → Element → Element}
    (h : ∀ pos e, d.element? pos = some e → f pos e.value = g pos e.value) :
    d.mapElements f = d.mapElements g := by
  unfold mapElements
  congr 1
  apply List.mapIdx_eq_mapIdx_iff.mpr
  intro band hb
  congr 1
  apply List.mapIdx_eq_mapIdx_iff.mpr
  intro index hi
  have he : d.element? ⟨band, index⟩ = some d.sections[band].elements[index] := by
    simp [element?, hb, hi]
  rw [h _ _ he]

theorem mapElements_mapElements (d : Design) (f g : Position → Element → Element) :
    (d.mapElements f).mapElements g = d.mapElements fun pos e => g pos (f pos e) := by
  simp [mapElements, List.mapIdx_mapIdx, Function.comp_def]

/-- A change at one position is a change of all elements that leaves the others. -/
theorem modifyElement_eq_mapElements (d : Design) (pos : Position) (f : Element → Element) :
    d.modifyElement pos f = d.mapElements fun p e => if p = pos then f e else e := by
  unfold modifyElement mapElements
  congr 1
  apply List.ext_getElem?
  intro band
  rw [List.getElem?_modify, List.getElem?_mapIdx]
  cases hs : d.sections[band]? with
  | none => rfl
  | some s =>
    by_cases hb : pos.band = band
    · have helements : (s.elements.modify pos.index fun e => { e with value := f e.value }) =
          s.elements.mapIdx fun index e =>
            { e with value := if (⟨band, index⟩ : Position) = pos then f e.value else e.value } := by
        apply List.ext_getElem?
        intro index
        rw [List.getElem?_modify, List.getElem?_mapIdx]
        by_cases hi : pos.index = index
        · have hpos : (⟨band, index⟩ : Position) = pos := by rw [← hb, ← hi]
          simp [hi, hpos]
        · have hpos : (⟨band, index⟩ : Position) ≠ pos := fun he => hi (he ▸ rfl)
          simp [hi, hpos]
      simp [hb, helements]
    · have hpos (index : Nat) : (⟨band, index⟩ : Position) ≠ pos := fun he => hb (he ▸ rfl)
      have hself : s.elements.mapIdx (fun _ e => e) = s.elements := by
        apply List.ext_getElem? fun index => by simp
      simp [hb, hpos, hself]

/-- The placeholders are the sub-report elements. -/
theorem mem_placeholders_iff (d : Design) (p : Placeholder) :
    p ∈ d.placeholders ↔
      ∃ e : Expression, d.element? p.pos = some ⟨.subreport e, p.span⟩ ∧ e.text = p.expression := by
  simp only [placeholders, List.mem_flatMap, List.mem_filterMap, Prod.exists,
    List.mk_mem_zipIdx_iff_getElem?]
  constructor
  · rintro ⟨s, band, hs, e, index, he, hp⟩
    obtain ⟨value, span⟩ := e
    cases value with
    | text content => exact nomatch hp
    | field e => exact nomatch hp
    | subreport e =>
      obtain rfl := Option.some.inj hp
      exact ⟨e, by simp [element?, hs, he], rfl⟩
  · rintro ⟨e, he, ht⟩
    obtain ⟨⟨band, index⟩, expression, span⟩ := p
    obtain ⟨s, hs, hel⟩ := Option.bind_eq_some_iff.mp he
    subst ht
    exact ⟨s, band, hs, ⟨.subreport e, span⟩, index, hel, rfl⟩

/-- The bound form has the parameter of the name in the place of its placeholder. -/
theorem element?_bound (d : Design) {p : Placeholder} {name : String} (hp : p ∈ d.placeholders)
    (hq : Quotes p.expression name) :
    d.bound.element? p.pos = some ⟨Binder.boundElement name, p.span⟩ := by
  obtain ⟨e, he, ht⟩ := (d.mem_placeholders_iff p).mp hp
  have hb : d.bound.element? p.pos = (d.mapElements fun _ e => e.bound).element? p.pos := rfl
  rw [hb, element?_mapElements, he, Option.map_some, Element.bound_subreport (ht ▸ hq)]

theorem mapElements_self (d : Design) : d.mapElements (fun _ e => e) = d := by
  have hid (s : Section) : s.elements.mapIdx (fun _ e => e) = s.elements := by
    apply List.ext_getElem? fun index => by simp
  have hsections : d.sections.mapIdx (fun _ s => s) = d.sections := by
    apply List.ext_getElem? fun band => by simp
  simp [mapElements, hid, hsections]

theorem boundAt_nil (d : Design) : d.boundAt [] = d := by
  simp [boundAt, bindingParameters, d.mapElements_self]

/-- With all placeholders bound a design is in its bound form. -/
theorem boundAt_placeholders (d : Design) : d.boundAt d.placeholders = d.bound := by
  unfold boundAt bound
  have helements : (d.mapElements fun pos e => if pos ∈ d.placeholders.map (·.pos) then e.bound
      else e) = d.mapElements fun _ e => e.bound := by
    apply mapElements_congr
    rintro pos ⟨value, span⟩ he
    cases value with
    | text content => simp [Element.bound]
    | field e => simp [Element.bound]
    | subreport e =>
      have hp : (⟨pos, e.text, span⟩ : Placeholder) ∈ d.placeholders :=
        (d.mem_placeholders_iff _).mpr ⟨e, he, rfl⟩
      rw [if_pos (List.mem_map.mpr ⟨_, hp, rfl⟩)]
  rw [helements]

theorem parameter?_eq_none_iff (d : Design) (name : String) :
    d.parameter? name = none ↔ ¬d.Declares name := by
  simp [parameter?, Declares, List.find?_eq_none]

/-- Binding declares no name but those bound. -/
theorem parameter?_boundAt (d : Design) {qs : List Placeholder} {name : String}
    (h : name ∉ qs.filterMap Placeholder.name?) :
    (d.boundAt qs).parameter? name = d.parameter? name := by
  have hnone : ((bindingParameters [] qs).map (·.value)).find? (·.name == name) = none := by
    rw [List.find?_eq_none]
    intro q hq hname
    obtain ⟨l, hl, rfl⟩ := List.mem_map.mp hq
    have hmem : name ∈ (bindingParameters [] qs).map (·.value.name) :=
      List.mem_map.mpr ⟨l, hl, by simpa using hname⟩
    exact h ((mem_bindingParameters_names [] qs name).mp hmem).1
  simp only [parameter?, boundAt, List.map_append, List.find?_append, hnone, Option.or_none]

theorem element?_boundAt (d : Design) (qs : List Placeholder) (pos : Position) :
    (d.boundAt qs).element? pos = (d.element? pos).map fun e =>
      { e with value := if pos ∈ qs.map (·.pos) then e.value.bound else e.value } :=
  d.element?_mapElements (fun place e => if place ∈ qs.map Placeholder.pos then e.bound else e) pos

/-- In a partly bound design every placeholder is still a sub-report. -/
theorem isSubreportAt_boundAt (d : Design) (qs : List Placeholder) {p : Placeholder}
    (hp : p ∈ d.placeholders) : Binder.isSubreportAt (d.boundAt qs) p.pos = true := by
  obtain ⟨e, he, -⟩ := (d.mem_placeholders_iff p).mp hp
  rw [Binder.isSubreportAt, element?_boundAt, he]
  by_cases hq : p.pos ∈ qs.map (·.pos)
  · simp only [Option.map_some, hq, if_true, Element.bound]
    cases templateName e.text <;> rfl
  · simp only [Option.map_some, hq, if_false]

/-- One more placeholder bound is one more element changed, and a declaration if its name is new. -/
theorem boundAt_concat (d : Design) (qs : List Placeholder) {p : Placeholder} {name : String}
    (hp : p ∈ d.placeholders) (hname : p.name? = some name) :
    d.boundAt (qs ++ [p]) =
      if name ∈ qs.filterMap Placeholder.name? then
        (d.boundAt qs).modifyElement p.pos fun _ => Binder.boundElement name
      else ((d.boundAt qs).modifyElement p.pos fun _ => Binder.boundElement name).declare
        ⟨⟨name, .report⟩, p.span⟩ := by
  have hmap : (d.mapElements fun pos e =>
      if pos ∈ (qs ++ [p]).map (·.pos) then e.bound else e) =
      (d.mapElements fun pos e => if pos ∈ qs.map (·.pos) then e.bound else e).modifyElement
        p.pos fun _ => Binder.boundElement name := by
    rw [modifyElement_eq_mapElements, mapElements_mapElements]
    apply mapElements_congr
    intro pos e he
    by_cases hpos : pos = p.pos
    · subst hpos
      obtain ⟨x, hx, ht⟩ := (d.mem_placeholders_iff p).mp hp
      obtain rfl := Option.some.inj (he.symm.trans hx)
      have hq : Quotes x.text name := ht ▸ (p.name?_eq_some_iff name).mp hname
      simp [Element.bound_subreport hq]
    · simp [hpos]
  have hsections := congrArg Design.sections hmap
  by_cases hn : name ∈ qs.filterMap Placeholder.name?
  · rw [if_pos hn]
    unfold boundAt
    rw [bindingParameters_concat [] qs hname, hsections, if_pos (Or.inr hn), List.append_nil]
    rfl
  · rw [if_neg hn]
    unfold boundAt
    rw [bindingParameters_concat [] qs hname, hsections, if_neg (by simpa using hn),
      ← List.append_assoc]
    rfl

end Design

namespace Binder

structure Through (d₀ : Design) (qs : List Placeholder) (b : Binder) (d : Design) : Prop where
  design_eq : d = d₀.boundAt qs
  mem_declared : ∀ name, name ∈ b.declared ↔ name ∈ qs.filterMap Placeholder.name?

theorem through_nil (d : Design) : Through d [] empty d :=
  ⟨d.boundAt_nil.symm, fun name => by simp [empty]⟩

variable {d₀ d : Design} {qs : List Placeholder} {b : Binder} {p : Placeholder} {name : String}
  {ε : Type}

/-- Only a parameter of the design as it was can be in the way of a binding. -/
theorem Through.conflict?_eq (h : Through d₀ qs b d) :
    b.conflict? d name =
      if name ∈ qs.filterMap Placeholder.name? then none else d₀.parameter? name := by
  unfold conflict?
  by_cases hn : name ∈ qs.filterMap Placeholder.name?
  · rw [if_pos ((h.mem_declared name).mpr hn), if_pos hn]
  · rw [if_neg fun hd => hn ((h.mem_declared name).mp hd), if_neg hn, h.design_eq,
      d₀.parameter?_boundAt hn]

/-- A name that the design declares is refused. -/
theorem Through.bind_eq_error (h : Through d₀ qs b d) {existing : Parameter}
    (hn : name ∉ qs.filterMap Placeholder.name?) (he : d₀.parameter? name = some existing) :
    (b.bind d p name : Bound ε).result =
      .error (.bindingConflict name existing.type p.span) := by
  have hconflict : b.conflict? d name = some existing := by rw [h.conflict?_eq, if_neg hn, he]
  rw [bind_of_conflict hconflict]
  rfl

/-- Any other quoted name is bound, and the binder stays on its way. -/
theorem Through.bind_eq_ok (h : Through d₀ qs b d) (hp : p ∈ d₀.placeholders)
    (hname : p.name? = some name)
    (hfree : name ∈ qs.filterMap Placeholder.name? ∨ d₀.parameter? name = none) :
    ∃ b' d', (b.bind d p name : Bound ε).result = .ok (b', d') ∧
      Through d₀ (qs ++ [p]) b' d' := by
  have hconflict : b.conflict? d name = none := by
    rw [h.conflict?_eq]
    split_ifs with hn
    · rfl
    · exact hfree.resolve_left hn
  have hsub : isSubreportAt d p.pos = true := h.design_eq ▸ d₀.isSubreportAt_boundAt qs hp
  have hnext := d₀.boundAt_concat qs hp hname
  have hmem (m : String) : m ∈ (qs ++ [p]).filterMap Placeholder.name? ↔
      m ∈ qs.filterMap Placeholder.name? ∨ m = name := by
    simp [hname]
  by_cases hn : name ∈ qs.filterMap Placeholder.name?
  · refine ⟨b, d.modifyElement p.pos fun _ => boundElement name, ?_, ?_, ?_⟩
    · rw [bind_of_declared hconflict hsub ((h.mem_declared name).mpr hn)]
      rfl
    · rw [hnext, if_pos hn, h.design_eq]
    · intro m
      rw [hmem, h.mem_declared]
      exact ⟨Or.inl, fun hm => hm.elim id fun he => he ▸ hn⟩
  · have hd : name ∉ b.declared := fun hm => hn ((h.mem_declared name).mp hm)
    refine ⟨⟨name :: b.declared⟩, (d.modifyElement p.pos fun _ => boundElement name).declare
      ⟨⟨name, .report⟩, p.span⟩, ?_, ?_, ?_⟩
    · rw [bind_of_new hconflict hsub hd]
      rfl
    · rw [hnext, if_neg hn, h.design_eq]
    · intro m
      rw [hmem, List.mem_cons, h.mem_declared, or_comm]

/-- A binding that succeeds is the next one on the way, of a name free to be declared. -/
theorem Through.of_bind_eq_ok (h : Through d₀ qs b d) (hp : p ∈ d₀.placeholders)
    (hname : p.name? = some name) {b' : Binder} {d' : Design}
    (hb : (b.bind d p name : Bound ε).result = .ok (b', d')) :
    (name ∈ qs.filterMap Placeholder.name? ∨ d₀.parameter? name = none) ∧
      Through d₀ (qs ++ [p]) b' d' := by
  have hfree : name ∈ qs.filterMap Placeholder.name? ∨ d₀.parameter? name = none := by
    by_contra hcon
    obtain ⟨hn, he⟩ := not_or.mp hcon
    obtain ⟨existing, he⟩ := Option.ne_none_iff_exists'.mp he
    rw [h.bind_eq_error hn he] at hb
    exact nomatch hb
  obtain ⟨b₁, d₁, hb₁, hthrough⟩ := h.bind_eq_ok (ε := ε) hp hname hfree
  obtain ⟨rfl, rfl⟩ := Prod.mk.inj (Except.ok.inj (hb₁.symm.trans hb))
  exact ⟨hfree, hthrough⟩

end Binder

end ReportAssembly
