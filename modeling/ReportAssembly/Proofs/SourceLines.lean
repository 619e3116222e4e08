import ReportAssembly.Design.Excerpt
import Mathlib.Data.List.Basic

namespace ReportAssembly

namespace SourceLine

/-- The lines of a text make up the text. -/
theorem flatten_splitText (cs : List Char) : (splitText cs).flatten = cs := by
  fun_induction splitText cs with
  | case1 => rfl
  | case2 cs ih => simp [ih]
  | case3 c cs hcr hend ih => simp [ih]
  | case4 c cs hcr hend hnone ih => simpa [hnone] using ih
  | case5 c cs hcr hend line lines hlines ih => simpa [hlines] using ih

theorem splitText_eq_nil_iff {cs : List Char} : splitText cs = [] ↔ cs = [] := by
  constructor
  · intro h
    rw [← flatten_splitText cs, h, List.flatten_nil]
  · rintro rfl
    rfl

/-- Behind `front` the lines go on with `tail`, which is the rest of a line of which `head` is
before it. The end of a line is the beginning of the next, if there is one. -/
structure Cut (texts : List (List Char)) (front : List Char) (before : List (List Char))
    (head tail : List Char) (after : List (List Char)) : Prop where
  lines : texts = before ++ (head ++ tail) :: after
  front : front = before.flatten ++ head
  last : tail = [] → after = []

variable {texts before after before' after' : List (List Char)}
  {front back head tail front' head' tail' : List Char}

/-- Each position of a text is in one of its lines. -/
theorem exists_cut (hne : texts ≠ []) (h : texts.flatten = front ++ back) :
    ∃ before head tail after, Cut texts front before head tail after := by
  induction texts generalizing front with
  | nil => exact absurd rfl hne
  | cons line texts ih =>
    rw [List.flatten_cons, List.append_eq_append_iff] at h
    obtain ⟨rest, rfl, hrest⟩ | ⟨tail, rfl, rfl⟩ := h
    · by_cases hlast : texts = []
      · subst hlast
        obtain ⟨rfl, -⟩ := List.append_eq_nil_iff.mp hrest.symm
        exact ⟨[], line, [], [], by simp, by simp, by simp⟩
      · obtain ⟨before, head, tail, after, hlines, rfl, hafter⟩ := ih hlast hrest
        exact ⟨line :: before, head, tail, after, by simp [hlines], by simp, hafter⟩
    · by_cases htail : tail = [] ∧ texts ≠ []
      · obtain ⟨rfl, hnext⟩ := htail
        have hstart : texts.flatten = [] ++ texts.flatten := rfl
        obtain ⟨before, head, tail, after, hlines, hfront, hafter⟩ := ih hnext hstart
        refine ⟨front :: before, head, tail, after, by simp [hlines], ?_, hafter⟩
        rw [List.flatten_cons, List.append_assoc, ← hfront, List.append_nil]
      · refine ⟨[], front, tail, texts, by simp, by simp, fun hnil => ?_⟩
        by_contra hnext
        exact htail ⟨hnil, hnext⟩

/-- Two positions in the same column of the same line are one. -/
theorem Cut.front_eq (h : Cut texts front before head tail after)
    (h' : Cut texts front' before' head' tail' after') (hnumber : before.length = before'.length)
    (hcolumn : head.length = head'.length) : front = front' := by
  obtain ⟨hbefore, hrest⟩ := List.append_inj (h.lines.symm.trans h'.lines) hnumber
  obtain ⟨hhead, -⟩ := List.append_inj (List.cons.inj hrest).1 hcolumn
  rw [h.front, h'.front, hbefore, hhead]

/-- A position that is not at the end of the source has the rest of its line behind it. -/
theorem Cut.tail_ne_nil (h : Cut texts front before head tail after)
    (hfront : front.length < texts.flatten.length) : tail ≠ [] := by
  intro htail
  obtain rfl := h.last htail
  rw [h.lines, h.front, htail] at hfront
  simp at hfront

theorem contains_iff {l : SourceLine} {offset : Nat} :
    l.contains offset = true ↔ l.offset ≤ offset ∧ offset < l.offset + l.text.length := by
  rw [contains, Bool.and_eq_true, decide_eq_true_eq, decide_eq_true_eq, stop]

theorem place_append (offset : Nat) (xs ys : List (List Char)) :
    place offset (xs ++ ys) = place offset xs ++ place (offset + xs.flatten.length) ys := by
  induction xs generalizing offset with
  | nil => rfl
  | cons x xs ih =>
    rw [List.cons_append, place, place, ih, List.cons_append, List.flatten_cons,
      List.length_append, Nat.add_assoc]

theorem length_place (offset : Nat) (xs : List (List Char)) :
    (place offset xs).length = xs.length := by
  induction xs generalizing offset with
  | nil => rfl
  | cons x xs ih => rw [place, List.length_cons, List.length_cons, ih]

theorem map_text_place (offset : Nat) (xs : List (List Char)) :
    (place offset xs).map (·.text) = xs := by
  induction xs generalizing offset with
  | nil => rfl
  | cons x xs ih => rw [place, List.map_cons, ih]

theorem offset_of_mem_place {offset : Nat} {xs : List (List Char)} {l : SourceLine}
    (h : l ∈ place offset xs) : offset ≤ l.offset ∧ l.offset ≤ offset + xs.flatten.length := by
  induction xs generalizing offset with
  | nil => exact absurd h List.not_mem_nil
  | cons x xs ih =>
    rw [List.flatten_cons, List.length_append]
    obtain rfl | hl := List.mem_cons.mp h
    · constructor <;> dsimp only <;> omega
    · obtain ⟨hlow, hhigh⟩ := ih hl
      constructor <;> omega

theorem getLast?_place_concat (offset : Nat) (xs : List (List Char)) (line : List Char) :
    (place offset (xs ++ [line])).getLast? = some ⟨offset + xs.flatten.length, line⟩ := by
  rw [place_append]
  exact List.getLast?_concat

/-- The last line ends where the source does. -/
theorem exists_getLast?_place (offset : Nat) (hne : texts ≠ []) :
    ∃ last, (place offset texts).getLast? = some last ∧
      last.stop = offset + texts.flatten.length := by
  obtain rfl | ⟨init, last, rfl⟩ := texts.eq_nil_or_concat
  · exact absurd rfl hne
  · rw [List.concat_eq_append]
    refine ⟨_, getLast?_place_concat offset init last, ?_⟩
    simp [stop, Nat.add_assoc]

/-- A line is found by counting those that begin up to the offset. -/
theorem indexOf?_eq_some_iff {lines : List SourceLine} {offset i : Nat} :
    indexOf? lines offset = some i ↔
      (∃ last, lines.getLast? = some last ∧ offset ≤ last.stop) ∧
        (lines.filter (·.offset ≤ offset)).length - 1 = i := by
  simp only [indexOf?, guard, bind, pure, failure, Option.bind_eq_some_iff]
  constructor
  · rintro ⟨last, hlast, _, hguard, hi⟩
    split_ifs at hguard with hle
    exact ⟨⟨last, hlast, hle⟩, Option.some.inj hi⟩
  · rintro ⟨⟨last, hlast, hle⟩, rfl⟩
    exact ⟨last, hlast, (), if_pos hle, rfl⟩

theorem le_of_indexOf? {offset i : Nat} (h : indexOf? (place 0 texts) offset = some i) :
    texts ≠ [] ∧ offset ≤ texts.flatten.length := by
  obtain ⟨⟨last, hlast, hle⟩, -⟩ := indexOf?_eq_some_iff.mp h
  have hne : texts ≠ [] := by
    rintro rfl
    exact nomatch hlast
  obtain ⟨last', hlast', hstop⟩ := exists_getLast?_place 0 hne
  obtain rfl := Option.some.inj (hlast.symm.trans hlast')
  exact ⟨hne, by omega⟩

/-- A later position is in the same line or in a later one. -/
theorem indexOf?_mono {lines : List SourceLine} {a b i j : Nat} (hab : a ≤ b)
    (hi : indexOf? lines a = some i) (hj : indexOf? lines b = some j) : i ≤ j := by
  obtain ⟨-, rfl⟩ := indexOf?_eq_some_iff.mp hi
  obtain ⟨-, rfl⟩ := indexOf?_eq_some_iff.mp hj
  have hsub : (lines.filter (·.offset ≤ a)).Sublist (lines.filter (·.offset ≤ b)) := by
    apply List.monotone_filter_right
    intro l hl
    simp only [decide_eq_true_eq] at hl ⊢
    omega
  exact Nat.sub_le_sub_right hsub.length_le 1

/-- The lines that begin at a position or before it are those before its own and its own. -/
theorem Cut.filter_place (h : Cut texts front before head tail after) :
    (place 0 texts).filter (·.offset ≤ front.length) =
      place 0 (before ++ [head ++ tail]) := by
  have hkept : (place 0 (before ++ [head ++ tail])).filter (·.offset ≤ front.length) =
      place 0 (before ++ [head ++ tail]) := by
    rw [List.filter_eq_self]
    intro l hl
    have hle : l.offset ≤ before.flatten.length := by
      rw [place_append, Nat.zero_add, List.mem_append] at hl
      obtain hl | hl := hl
      · simpa using (offset_of_mem_place hl).2
      · exact Nat.le_of_eq (congrArg SourceLine.offset (List.mem_singleton.mp hl))
    rw [h.front, List.length_append, decide_eq_true_eq]
    omega
  have hdropped : (place (before ++ [head ++ tail]).flatten.length after).filter
      (·.offset ≤ front.length) = [] := by
    rw [List.filter_eq_nil_iff]
    intro l hl hoffset
    have htail : tail ≠ [] := by
      intro htail
      rw [h.last htail] at hl
      exact absurd hl List.not_mem_nil
    have hpos := List.length_pos_iff.mpr htail
    have hlow := (offset_of_mem_place hl).1
    rw [h.front] at hoffset
    simp at hoffset hlow
    omega
  rw [h.lines, List.append_cons, place_append, Nat.zero_add, List.filter_append, hkept, hdropped,
    List.append_nil]

/-- A position is found under the number of its line. -/
theorem Cut.indexOf?_eq (h : Cut texts front before head tail after) :
    indexOf? (place 0 texts) front.length = some before.length := by
  have hne : texts ≠ [] := by
    rw [h.lines]
    simp
  obtain ⟨last, hlast, hstop⟩ := exists_getLast?_place 0 hne
  refine indexOf?_eq_some_iff.mpr ⟨⟨last, hlast, ?_⟩, ?_⟩
  · rw [hstop, h.lines, h.front]
    simp
  · rw [h.filter_place, length_place]
    simp

/-- From the line of a position on, the lines are those behind the cut. -/
theorem Cut.drop_place (h : Cut texts front before head tail after) :
    (place 0 texts).drop before.length = ⟨before.flatten.length, head ++ tail⟩ ::
      place (before.flatten.length + (head ++ tail).length) after := by
  rw [h.lines, place_append, Nat.zero_add, List.drop_left' (length_place 0 before)]
  rfl

/-- The lines from that of one position to that of another, which is not before it. -/
theorem Cut.exists_between (h : Cut texts front before head tail after)
    (h' : Cut texts front' before' head' tail' after') (hle : before.length ≤ before'.length) :
    ∃ between, before' = before ++ between ∧
      (between ++ [head' ++ tail']).head? = some (head ++ tail) := by
  have hbefore : before <+: texts := ⟨_, h.lines.symm⟩
  have hbefore' : before' <+: texts := ⟨_, h'.lines.symm⟩
  obtain ⟨between, rfl⟩ : before <+: before' :=
    List.prefix_of_prefix_length_le hbefore hbefore' hle
  refine ⟨between, rfl, ?_⟩
  have hrest := h.lines.symm.trans h'.lines
  rw [List.append_assoc, List.append_cancel_left_eq] at hrest
  cases between with
  | nil => exact congrArg List.head? hrest.symm
  | cons line between => exact congrArg List.head? hrest.symm

/-- Lines that are long enough for a stretch begin with what is before it, and then have it. -/
theorem Cut.starts_lines (h : Cut texts front before head tail after) {middle : List (List Char)}
    {text : List Char} (hlines : texts = before ++ middle ++ after')
    (hflatten : texts.flatten = front ++ text ++ back)
    (hlength : (head ++ text).length ≤ middle.flatten.length) :
    head ++ text <+: middle.flatten := by
  have hmiddle : middle.flatten ++ after'.flatten = head ++ text ++ back := by
    rw [hlines, h.front] at hflatten
    simpa [List.append_assoc] using hflatten
  exact List.prefix_of_prefix_length_le ⟨back, rfl⟩ ⟨after'.flatten, hmiddle⟩ hlength

/-- The lines `middle` are those with the characters of the stretch `text` that stands behind
`front`, or the line of its position if it has none. -/
structure Frame (texts : List (List Char)) (front text : List Char)
    (before middle after : List (List Char)) (lead rest : List Char) : Prop where
  lines : texts = before ++ middle ++ after
  reached : front = before.flatten ++ lead
  covered : middle.flatten = lead ++ text ++ rest
  first : indexOf? (place 0 texts) front.length = some before.length
  last : indexOf? (place 0 texts) (front.length + (text.length - 1)) =
    some (before.length + middle.length - 1)
  nonempty : middle ≠ []
  single : text = [] → middle.length = 1
  begins : text ≠ [] → ∀ line, middle.head? = some line → lead.length < line.length
  ends : middle.dropLast.flatten.length ≤ lead.length + (text.length - 1)

/-- Each stretch of a text has a frame of lines. -/
theorem exists_frame {text : List Char} (hne : texts ≠ [])
    (h : texts.flatten = front ++ text ++ back) :
    ∃ before middle after lead rest, Frame texts front text before middle after lead rest := by
  have hlength : texts.flatten.length = front.length + text.length + back.length := by
    rw [h, List.length_append, List.length_append]
  obtain ⟨front', hfront'⟩ : ∃ cs, cs = front ++ text.take (text.length - 1) := ⟨_, rfl⟩
  have hlength' : front'.length = front.length + (text.length - 1) := by
    rw [hfront', List.length_append, List.length_take_of_le (Nat.sub_le _ _)]
  have hfront : texts.flatten = front ++ (text ++ back) := by
    rw [h, List.append_assoc]
  have hback : texts.flatten = front' ++ (text.drop (text.length - 1) ++ back) := by
    rw [h, hfront', List.append_assoc, List.append_assoc, ← List.append_assoc (text.take _),
      List.take_append_drop]
  obtain ⟨before, head, tail, after, hcut⟩ := exists_cut hne hfront
  obtain ⟨before', head', tail', after', hcut'⟩ := exists_cut hne hback
  have hfirst := hcut.indexOf?_eq
  have hlast := hcut'.indexOf?_eq
  rw [hlength'] at hlast
  have hle : before.length ≤ before'.length := indexOf?_mono (Nat.le_add_right _ _) hfirst hlast
  obtain ⟨between, rfl, hhead⟩ := hcut.exists_between hcut' hle
  have hstart : front.length = before.flatten.length + head.length := by
    rw [hcut.front, List.length_append]
  have hend : front'.length = before.flatten.length + between.flatten.length + head'.length := by
    rw [hcut'.front, List.flatten_append, List.length_append, List.length_append]
  have hlines : texts = before ++ (between ++ [head' ++ tail']) ++ after' := by
    rw [hcut'.lines]
    simp
  obtain ⟨rest, hrest⟩ : head ++ text <+: (between ++ [head' ++ tail']).flatten := by
    refine hcut.starts_lines hlines h ?_
    rw [List.flatten_concat, List.length_append, List.length_append, List.length_append]
    by_cases htext : text = []
    · rw [htext, List.length_nil] at hlength' ⊢
      omega
    · have hpos := List.length_pos_iff.mpr htext
      have htail' := List.length_pos_iff.mpr (hcut'.tail_ne_nil (by omega))
      omega
  refine ⟨before, between ++ [head' ++ tail'], after', head, rest, hlines, hcut.front, hrest.symm,
    hfirst, ?_, by simp, ?_, ?_, ?_⟩
  · rw [hlast]
    simp
  · intro htext
    rw [htext] at hlast
    have hsame := Option.some.inj (hfirst.symm.trans hlast)
    simpa using hsame
  · intro htext line hline
    have hpos := List.length_pos_iff.mpr htext
    have htail := List.length_pos_iff.mpr (hcut.tail_ne_nil (by omega))
    rw [← Option.some.inj (hhead.symm.trans hline), List.length_append]
    omega
  · rw [List.dropLast_concat]
    omega

end SourceLine

end ReportAssembly
