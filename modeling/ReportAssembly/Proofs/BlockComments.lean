import Mathlib.Algebra.Group.Nat.Even
import Mathlib.Data.List.Basic
import ReportAssembly.Proofs.Lexing

namespace ReportAssembly

theorem takeWhile_append_cons {p : Char → Bool} {d : Char} (hd : p d = false)
    (cs rest : List Char) : (cs ++ d :: rest).takeWhile p = cs.takeWhile p := by
  induction cs with
  | nil => simp [hd]
  | cons c cs ih => simp only [List.cons_append, List.takeWhile_cons, ih]

namespace Reach

theorem string_append {cs : List Char} (h : (string cs).closed = true) (rest : List Char) :
    string (cs ++ rest) = string cs := by
  fun_induction string cs with
  | case1 => exact absurd h Bool.false_ne_true
  | case2 => rfl
  | case3 => exact absurd h Bool.false_ne_true
  | case4 => exact absurd h Bool.false_ne_true
  | case5 c cs hc ih =>
    have hstep := ih h
    simp only [List.cons_append, string, if_neg hc, hstep]
  | case6 c cs hquote hlast hescape ih =>
    have hstep := ih h
    rw [List.cons_append, string, hstep]
    · exact hquote
    · rintro rfl hnil
      exact hlast rfl (List.append_eq_nil_iff.mp hnil).1
    · rintro d ds rfl hcons
      cases cs with
      | nil => exact hlast rfl rfl
      | cons e es => exact hescape e es rfl rfl

theorem expression_append_closed {cs : List Char} (h : (expression cs).closed = true)
    (rest : List Char) : expression (cs ++ rest) = expression cs := by
  obtain ⟨body, after, hbody, rfl⟩ := exists_of_closed_expression h
  rw [List.append_assoc, List.cons_append, expression_append hbody, expression_append hbody]

/-- A comment that is closed does not depend on what follows. -/
theorem comment_append {cs : List Char} (h : (comment cs).closed = true) (rest : List Char) :
    comment (cs ++ rest) = comment cs := by
  fun_induction comment cs with
  | case1 => exact absurd h Bool.false_ne_true
  | case2 => exact absurd h Bool.false_ne_true
  | case3 cs => rfl
  | case4 c cs hc ih =>
    have hstep := ih h
    simp only [List.cons_append, comment, if_neg hc, hstep]
  | case5 c cs hlast hstar ih =>
    have hstep := ih h
    rw [List.cons_append, comment, hstep]
    · rintro rfl hnil
      exact hlast rfl (List.append_eq_nil_iff.mp hnil).1
    · rintro d ds rfl hcons
      cases cs with
      | nil => exact hlast rfl rfl
      | cons e es => exact hstar e es rfl rfl

theorem string_length_le (cs : List Char) : (string cs).length ≤ cs.length := by
  fun_induction string cs <;> simp only [after, List.length_cons, List.length_nil] <;> omega

theorem expression_length_le (cs : List Char) : (expression cs).length ≤ cs.length := by
  fun_induction expression cs <;> simp only [after, List.length_cons, List.length_nil] <;> omega

theorem comment_length_le (cs : List Char) : (comment cs).length ≤ cs.length := by
  fun_induction comment cs <;> simp only [after, List.length_cons, List.length_nil] <;> omega

theorem closed_of_lexeme_ne {r : Reach} {found : Lexeme} (h : r.lexeme found ≠ .unreadable) :
    r.closed = true := by
  by_contra hopen
  exact h (if_neg hopen)

theorem take_append {cs : List Char} {n : Nat} (h : n ≤ cs.length) (rest : List Char) :
    (cs ++ rest).take (n - 1) = cs.take (n - 1) :=
  List.take_append_of_le_length (Nat.sub_le_of_le_add (Nat.le_succ_of_le h))

end Reach

namespace Lexeme

/-- What a slash begins: a line comment, a block comment, or nothing that can be read. -/
theorem scan_slash (cs : List Char) :
    scan '/' cs = match cs with
      | '/' :: line => (.layout, 1 + (line.takeWhile (· != '\n')).length)
      | '*' :: body => ((Reach.comment body).lexeme .layout, 1 + (Reach.comment body).length)
      | _ => (.unreadable, 0) :=
  rfl

theorem scan_length_le (c : Char) (cs : List Char) : (scan c cs).2 ≤ cs.length := by
  have hword : (cs.takeWhile isWordPart).length ≤ cs.length := (List.takeWhile_sublist _).length_le
  have hstring := Reach.string_length_le cs
  have hexpression := Reach.expression_length_le cs
  unfold scan
  split_ifs
  · exact Nat.zero_le _
  · exact hword
  · split
    · exact Nat.zero_le _
    · exact Nat.zero_le _
    · exact Nat.zero_le _
    · exact hstring
    · exact hexpression
    · split
      · next line =>
        have hline : (line.takeWhile (· != '\n')).length ≤ line.length :=
          (List.takeWhile_sublist _).length_le
        simp only [List.length_cons]
        omega
      · next body =>
        have hbody := Reach.comment_length_le body
        simp only [List.length_cons]
        omega
      · exact Nat.zero_le _
    · exact Nat.zero_le _

/-- A line feed ends no piece early but one that is unreadable without it. -/
theorem scan_append_linefeed {c : Char} {cs : List Char} (h : (scan c cs).1 ≠ .unreadable)
    (rest : List Char) : scan c (cs ++ '\n' :: rest) = scan c cs := by
  by_cases hspacing : isSpacing c = true
  · rw [scan_spacing hspacing, scan_spacing hspacing]
  by_cases hword : isWordStart c = true
  · rw [scan_word hword, scan_word hword, takeWhile_append_cons (by decide)]
  by_cases hquote : c = '"'
  · subst hquote
    have hclosed := Reach.closed_of_lexeme_ne h
    rw [scan_quote, scan_quote, Reach.string_append hclosed,
      Reach.take_append (Reach.string_length_le cs)]
  by_cases htick : c = '`'
  · subst htick
    have hclosed := Reach.closed_of_lexeme_ne h
    rw [scan_backtick, scan_backtick, Reach.expression_append_closed hclosed,
      Reach.take_append (Reach.expression_length_le cs)]
  by_cases hslash : c = '/'
  · subst hslash
    rw [scan_slash] at h
    rw [scan_slash, scan_slash]
    split at h
    · next line =>
      have hline := takeWhile_append_cons (p := (· != '\n')) (d := '\n') rfl line rest
      rw [List.cons_append]
      simp only [hline]
    · next body =>
      have hclosed := Reach.closed_of_lexeme_ne h
      rw [List.cons_append]
      simp only [Reach.comment_append hclosed]
    · exact absurd rfl h
  · unfold scan
    simp only [if_neg hspacing, if_neg hword]
    split
    · rfl
    · rfl
    · rfl
    · exact absurd rfl hquote
    · exact absurd rfl htick
    · exact absurd rfl hslash
    · rfl

end Lexeme

/-- A source that can be read is cut in the same way when another line follows. -/
theorem Piece.split_append_linefeed {cs : List Char}
    (h : ∀ p ∈ split cs, p.lexeme ≠ .unreadable) (rest : List Char) :
    split (cs ++ '\n' :: rest) = split cs ++ split ('\n' :: rest) := by
  fun_induction split cs with
  | case1 => rfl
  | case2 c cs found ih =>
    obtain ⟨hfound, hrest⟩ := List.forall_mem_cons.mp h
    have hscan : Lexeme.scan c (cs ++ '\n' :: rest) = found :=
      Lexeme.scan_append_linefeed hfound rest
    have hle : found.2 ≤ cs.length := Lexeme.scan_length_le c cs
    rw [List.cons_append, split, hscan, List.take_append_of_le_length hle,
      List.drop_append_of_le_length hle, ih hrest, List.cons_append]

/-- Layout in front does not change the tokens. -/
theorem reads_layout_iff {c : Char} {cs : List Char} {n : Nat} {ts : List Token}
    (hscan : Lexeme.scan c cs = (.layout, n)) : Reads (c :: cs) ts ↔ Reads (cs.drop n) ts := by
  rw [Reads, Piece.split, hscan]
  simp [Reads]

/-- A text with an unreadable stretch in front has no tokens. -/
theorem not_reads_of_unreadable {c : Char} {cs : List Char} {n : Nat} {ts : List Token}
    (hscan : Lexeme.scan c cs = (.unreadable, n)) : ¬Reads (c :: cs) ts := by
  rw [Reads, Piece.split, hscan]
  cases ts <;> simp

theorem reads_spacing_iff {c : Char} {cs : List Char} {ts : List Token}
    (hc : isSpacing c = true) : Reads (c :: cs) ts ↔ Reads cs ts :=
  reads_layout_iff (Lexeme.scan_spacing hc cs)

/-- A comment that is not closed cannot be read, and one that is leaves no token. -/
theorem reads_comment_iff (body : List Char) (ts : List Token) :
    Reads ('/' :: '*' :: body) ts ↔
      (Reach.comment body).closed = true ∧ Reads (body.drop (Reach.comment body).length) ts := by
  have hscan : Lexeme.scan '/' ('*' :: body) =
      ((Reach.comment body).lexeme .layout, 1 + (Reach.comment body).length) := rfl
  cases hclosed : (Reach.comment body).closed with
  | false =>
    rw [Reach.lexeme, hclosed] at hscan
    simp only [Bool.false_eq_true, false_and, iff_false]
    exact not_reads_of_unreadable hscan
  | true =>
    rw [Reach.lexeme, hclosed] at hscan
    rw [reads_layout_iff hscan, Nat.add_comm, List.drop_succ_cons]
    simp only [true_and]

/-- A text that has tokens has no unreadable stretch. -/
theorem Reads.readable {cs : List Char} {ts : List Token} (h : Reads cs ts) :
    ∀ p ∈ Piece.split cs, p.lexeme ≠ .unreadable := by
  intro p hp hunreadable
  have hmem : Lexeme.unreadable ∈ ((Piece.split cs).map (·.lexeme)).filter (· ≠ .layout) :=
    List.mem_filter.mpr ⟨hunreadable ▸ List.mem_map_of_mem hp, by decide⟩
  rw [h] at hmem
  obtain ⟨t, -, ht⟩ := List.mem_map.mp hmem
  exact nomatch ht

/-- Below a source that can be read, the next line is read as if it stood alone. -/
theorem Reads.linefeed_iff {cs : List Char} {ts : List Token} (h : Reads cs ts) (rest : List Char)
    (us : List Token) :
    Reads (cs ++ '\n' :: rest) us ↔ ∃ vs, us = ts ++ vs ∧ Reads rest vs := by
  have hsplit := Piece.split_append_linefeed h.readable rest
  have hrest (vs : List Token) : Reads ('\n' :: rest) vs ↔ Reads rest vs :=
    reads_spacing_iff (by decide)
  have hinj : Function.Injective (List.map Lexeme.token) :=
    List.map_injective_iff.mpr fun _ _ => Lexeme.token.inj
  rw [Reads, hsplit, List.map_append, List.filter_append, h]
  constructor
  · intro heq
    obtain ⟨front, back, rfl, hfront, hback⟩ := List.map_eq_append_iff.mp heq.symm
    obtain rfl := hinj hfront
    exact ⟨back, rfl, (hrest back).mp hback.symm⟩
  · rintro ⟨vs, rfl, hvs⟩
    rw [List.map_append]
    exact congrArg (ts.map Lexeme.token ++ ·) ((hrest vs).mpr hvs)

def endingStars (cs : List Char) : Nat :=
  (cs.reverse.takeWhile (· == '*')).length

theorem endingStars_cons_of_ne {c : Char} (hc : c ≠ '*') (cs : List Char) :
    endingStars (c :: cs) = endingStars cs := by
  have hstop : (c == '*') = false := beq_eq_false_iff_ne.mpr hc
  have htake := takeWhile_append_cons (p := (· == '*')) hstop cs.reverse []
  rw [endingStars, List.reverse_cons, htake, endingStars]

/-- A star and the character that it takes with it do not change whether their number is even. -/
theorem even_endingStars_star_cons (c : Char) (cs : List Char) :
    Even (endingStars ('*' :: c :: cs)) ↔ Even (endingStars cs) := by
  have hreverse : ('*' :: c :: cs).reverse = cs.reverse ++ [c, '*'] := by simp
  by_cases hc : c = '*'
  · subst hc
    by_cases hall : (cs.reverse.takeWhile (· == '*')).length = cs.reverse.length
    · have hstars : endingStars ('*' :: '*' :: cs) = endingStars cs + 2 := by
        rw [endingStars, hreverse, List.takeWhile_append, if_pos hall, endingStars, hall,
          List.length_append]
        rfl
      rw [hstars]
      exact Nat.even_add.trans (iff_true_right (by decide))
    · have hstars : endingStars ('*' :: '*' :: cs) = endingStars cs := by
        rw [endingStars, hreverse, List.takeWhile_append, if_neg hall, endingStars]
      rw [hstars]
  · have hstop : (c == '*') = false := beq_eq_false_iff_ne.mpr hc
    have htake := takeWhile_append_cons (p := (· == '*')) hstop cs.reverse ['*']
    rw [endingStars, hreverse, htake, endingStars]

namespace Reach

theorem after_after (m n : Nat) (r : Reach) : (r.after m).after n = r.after (n + m) := by
  simp only [after, Nat.add_assoc]

/-- Where a `*/` comes first, the stars before it decide whether it closes the comment. -/
theorem comment_close (cs : List Char) (h : ¬['*', '/'] <:+: cs) (rest : List Char) :
    comment (cs ++ '*' :: '/' :: rest) =
      if Even (endingStars cs) then ⟨true, cs.length + 2⟩
      else (comment rest).after (cs.length + 2) := by
  -- The cases are those of the reader: the end, a star with what it takes, any other character.
  fun_induction comment cs with
  | case1 => rfl
  | case2 =>
    have hslash : comment ('/' :: rest) = (comment rest).after 1 := rfl
    have hstar : comment ('*' :: '*' :: '/' :: rest) = (comment ('/' :: rest)).after 2 := rfl
    have hodd : ¬Even (endingStars ['*']) := by decide
    rw [List.singleton_append, hstar, hslash, after_after, if_neg hodd]
    rfl
  | case3 cs => exact absurd (List.prefix_append ['*', '/'] cs).isInfix h
  | case4 c cs hc ih =>
    have htail : ¬['*', '/'] <:+: cs := fun hcs =>
      h (hcs.trans (List.suffix_append ['*', c] cs).isInfix)
    have hstep : comment ('*' :: c :: (cs ++ '*' :: '/' :: rest)) =
        (comment (cs ++ '*' :: '/' :: rest)).after 2 := if_neg hc
    rw [List.cons_append, List.cons_append, hstep, ih htail]
    simp only [even_endingStars_star_cons]
    split_ifs with heven
    · simp only [after, List.length_cons]
      congr 1
      omega
    · rw [after_after, List.length_cons, List.length_cons]
      congr 1
      omega
  | case5 c cs hlast hstar ih =>
    have htail : ¬['*', '/'] <:+: cs := fun hcs =>
      h (hcs.trans (List.suffix_cons c cs).isInfix)
    have hc : c ≠ '*' := by
      rintro rfl
      cases cs with
      | nil => exact hlast rfl rfl
      | cons d ds => exact hstar d ds rfl rfl
    have hstep : comment (c :: (cs ++ '*' :: '/' :: rest)) =
        (comment (cs ++ '*' :: '/' :: rest)).after 1 := by
      rw [comment]
      · exact fun hs _ => hc hs
      · exact fun _ _ hs _ => hc hs
    rw [List.cons_append, hstep, ih htail, endingStars_cons_of_ne hc]
    split_ifs with heven
    · simp only [after, List.length_cons]
      congr 1
      omega
    · rw [after_after, List.length_cons]
      congr 1
      omega

end Reach

section Close

variable {body rest : List Char} (h : ¬['*', '/'] <:+: body)

include h

/-- With an even number of stars before it, the closing is read as one. -/
theorem reads_comment_of_even (heven : Even (endingStars body)) (ts : List Token) :
    Reads ('/' :: '*' :: (body ++ '*' :: '/' :: rest)) ts ↔ Reads rest ts := by
  have hdrop : (body ++ '*' :: '/' :: rest).drop (body.length + 2) = rest := by
    rw [← List.drop_drop, List.drop_left]
    rfl
  rw [reads_comment_iff, Reach.comment_close body h rest, if_pos heven, hdrop]
  simp only [true_and]

/-- What stands behind is read as if the comment had only begun there. -/
theorem reads_comment_of_odd (hodd : ¬Even (endingStars body)) (ts : List Token) :
    Reads ('/' :: '*' :: (body ++ '*' :: '/' :: rest)) ts ↔ Reads ('/' :: '*' :: rest) ts := by
  have hdrop (n : Nat) : (body ++ '*' :: '/' :: rest).drop (body.length + 2 + n) = rest.drop n := by
    rw [← List.drop_drop, ← List.drop_drop, List.drop_left]
    rfl
  rw [reads_comment_iff, reads_comment_iff, Reach.comment_close body h rest,
    if_neg hodd, Reach.after, hdrop]

end Close

/-- A block comment without a `*/` in it ends where one is written behind it, exactly if it ends
with an even number of stars. With an odd number it goes on, and what follows is swallowed. -/
theorem block_comment_closes_iff (body : String) (h : ¬['*', '/'] <:+: body.toList) :
    ((∀ (front back : String) (ts us : List Token),
        tokens? front = some ts → tokens? back = some us →
        tokens? (front ++ "\n/*" ++ body ++ "*/ " ++ back) = some (ts ++ us)) ↔
      Even (endingStars body.toList)) ∧
    (¬Even (endingStars body.toList) →
      ∀ (front back : String) (ts : List Token), tokens? front = some ts →
        tokens? (front ++ "\n/*" ++ body ++ "*/ " ++ back) =
          tokens? (front ++ "\n/* " ++ back)) := by
  have htext (front back : String) : (front ++ "\n/*" ++ body ++ "*/ " ++ back).toList =
      front.toList ++ '\n' :: '/' :: '*' :: (body.toList ++ '*' :: '/' :: ' ' :: back.toList) := by
    simp
  have hopen (front back : String) : (front ++ "\n/* " ++ back).toList =
      front.toList ++ '\n' :: '/' :: '*' :: ' ' :: back.toList := by
    simp
  have hswallowed (hodd : ¬Even (endingStars body.toList)) (front back : String) (ts : List Token)
      (hfront : tokens? front = some ts) :
      tokens? (front ++ "\n/*" ++ body ++ "*/ " ++ back) = tokens? (front ++ "\n/* " ++ back) := by
    have hreads := (tokens?_eq_some_iff front ts).mp hfront
    apply Option.ext
    intro us
    rw [tokens?_eq_some_iff, tokens?_eq_some_iff, htext, hopen, hreads.linefeed_iff,
      hreads.linefeed_iff]
    simp only [reads_comment_of_odd h hodd]
  refine ⟨⟨fun hcloses => ?_, fun heven front back ts us hfront hback => ?_⟩, hswallowed⟩
  · by_contra hodd
    have hempty : tokens? "" = some [] := by decide +kernel
    have hunclosed : tokens? ("" ++ "\n/* " ++ "") = none := by decide +kernel
    have hclosed := hcloses "" "" [] [] hempty hempty
    rw [hswallowed hodd "" "" [] hempty, hunclosed] at hclosed
    cases hclosed
  · have hreads := (tokens?_eq_some_iff front ts).mp hfront
    rw [tokens?_eq_some_iff, htext, hreads.linefeed_iff]
    refine ⟨us, rfl, ?_⟩
    rw [reads_comment_of_even h heven, reads_spacing_iff (by decide)]
    exact (tokens?_eq_some_iff back us).mp hback

theorem block_comment_closes_iff_starred :
    ¬['*', '/'] <:+: "a* b**".toList ∧
    tokens? "report" = some [.keyword .report] ∧
    tokens? "text" = some [.keyword .text] ∧
    tokens? ("report" ++ "\n/*" ++ "a* b**" ++ "*/ " ++ "text") =
      some ([.keyword .report] ++ [.keyword .text]) :=
  have hbody : ¬['*', '/'] <:+: "a* b**".toList := by decide
  have hfront : tokens? "report" = some [.keyword .report] := by decide +kernel
  have hback : tokens? "text" = some [.keyword .text] := by decide +kernel
  have heven : Even (endingStars "a* b**".toList) := by decide
  ⟨hbody, hfront, hback,
    (block_comment_closes_iff _ hbody).1.mpr heven "report" "text" _ _ hfront hback⟩

/-- After a single star the end of a comment is missed, and a token behind it is swallowed. -/
theorem comment_of_one_star_swallows :
    ¬['*', '/'] <:+: "*".toList ∧
    tokens? "report" = some [.keyword .report] ∧
    tokens? "text /* */ section" = some [.keyword .text, .keyword .band] ∧
    tokens? ("report" ++ "\n/*" ++ "*" ++ "*/ " ++ "text /* */ section") =
      some [.keyword .report, .keyword .band] := by
  refine ⟨by decide, ?_, ?_, ?_⟩ <;> decide +kernel

end ReportAssembly
