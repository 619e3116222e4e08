import ReportAssembly.Proofs.BlockComments

/-!
The forms in which tokens and layout are written, given by patterns. Main statements: a piece of
source has such a form unless it is unreadable, no longer form begins where it begins, and a token
is read again from its form, whatever follows that does not continue a word.
-/

namespace ReportAssembly

inductive StringBody : List Char → Prop
  | nil : StringBody []
  | plain {c : Char} {cs : List Char} (hquote : c ≠ '"') (hslash : c ≠ '\\')
      (hcs : StringBody cs) : StringBody (c :: cs)
  | escape {c : Char} {cs : List Char} (hc : c ≠ '\n') (hcs : StringBody cs) :
      StringBody ('\\' :: c :: cs)

inductive CommentBody : List Char → Prop
  | nil : CommentBody []
  | plain {c : Char} {cs : List Char} (hc : c ≠ '*') (hcs : CommentBody cs) : CommentBody (c :: cs)
  | star {c : Char} {cs : List Char} (hc : c ≠ '/') (hcs : CommentBody cs) :
      CommentBody ('*' :: c :: cs)

inductive Token.Written : Token → List Char → Prop
  | word {c : Char} {cs : List Char} (hc : isWordStart c = true)
      (hcs : ∀ d ∈ cs, isWordPart d = true) : Written (.ofWord (.ofList (c :: cs))) (c :: cs)
  | braceOpen : Written .braceOpen ['{']
  | braceClose : Written .braceClose ['}']
  | colon : Written .colon [':']
  | string {body : List Char} (h : StringBody body) :
      Written (.string (.ofList (Text.Quoted.decode body))) ('"' :: (body ++ ['"']))
  | expression {body : List Char} (h : '`' ∉ body) :
      Written (.expression (.ofList body)) ('`' :: (body ++ ['`']))

inductive Lexeme.Form : Lexeme → List Char → Prop
  | token {t : Token} {text : List Char} (h : t.Written text) : Form (.token t) text
  | spacing {c : Char} (hc : isSpacing c = true) : Form .layout [c]
  | line {line : List Char} (h : '\n' ∉ line) : Form .layout ('/' :: '/' :: line)
  | block {body : List Char} (h : CommentBody body) :
      Form .layout ('/' :: '*' :: (body ++ ['*', '/']))

/-- The texts that may stand between two items of a source, or behind the last if `final` is set. A
line comment is ended by a line feed, which it may lack at the end of the source alone. -/
inductive Gap (final : Bool) : List Char → Prop
  | nil : Gap final []
  | spacing {c : Char} {cs : List Char} (hc : isSpacing c = true) (hcs : Gap final cs) :
      Gap final (c :: cs)
  | line {line cs : List Char} (hline : '\n' ∉ line)
      (hend : cs.head? = some '\n' ∨ final = true ∧ cs = []) (hcs : Gap final cs) :
      Gap final ('/' :: '/' :: (line ++ cs))
  | block {body cs : List Char} (hbody : CommentBody body) (hcs : Gap final cs) :
      Gap final ('/' :: '*' :: (body ++ '*' :: '/' :: cs))

namespace Reach

/-- The inside of a string and a quote are a closed string. -/
theorem string_of_body {body : List Char} (h : StringBody body) (rest : List Char) :
    string (body ++ '"' :: rest) = ⟨true, body.length + 1⟩ := by
  induction h with
  | nil => rfl
  | plain hquote hslash _ ih =>
    rw [List.cons_append, string, ih, after, List.length_cons, Nat.add_comm 1]
    · exact hquote
    · exact fun hc _ => hslash hc
    · exact fun _ _ hc _ => hslash hc
  | @escape c cs hc _ ih =>
    have hstep : string ('\\' :: c :: (cs ++ '"' :: rest)) = (string (cs ++ '"' :: rest)).after 2 :=
      if_neg hc
    rw [List.cons_append, List.cons_append, hstep, ih, after, List.length_cons, List.length_cons,
      Nat.add_comm 2]

/-- A string that is closed has the form of one. -/
theorem exists_body_of_closed_string {cs : List Char} (h : (string cs).closed = true) :
    ∃ body rest, StringBody body ∧ cs = body ++ '"' :: rest := by
  fun_induction string cs with
  | case1 => exact absurd h Bool.false_ne_true
  | case2 rest => exact ⟨[], rest, .nil, rfl⟩
  | case3 => exact absurd h Bool.false_ne_true
  | case4 => exact absurd h Bool.false_ne_true
  | case5 c cs hc ih =>
    obtain ⟨body, rest, hbody, rfl⟩ := ih h
    exact ⟨'\\' :: c :: body, rest, .escape hc hbody, rfl⟩
  | case6 c cs hquote hlast hescape ih =>
    obtain ⟨body, rest, hbody, rfl⟩ := ih h
    refine ⟨c :: body, rest, .plain hquote ?_ hbody, rfl⟩
    rintro rfl
    cases body with
    | nil => exact hescape '"' rest rfl rfl
    | cons d ds => exact hescape d (ds ++ '"' :: rest) rfl rfl

theorem comment_of_body {body : List Char} (h : CommentBody body) (rest : List Char) :
    comment (body ++ '*' :: '/' :: rest) = ⟨true, body.length + 2⟩ := by
  induction h with
  | nil => rfl
  | plain hc _ ih =>
    rw [List.cons_append, comment, ih, after, List.length_cons, Nat.add_comm 1]
    · exact fun hstar _ => hc hstar
    · exact fun _ _ hstar _ => hc hstar
  | @star c cs hc _ ih =>
    have hstep : comment ('*' :: c :: (cs ++ '*' :: '/' :: rest)) =
        (comment (cs ++ '*' :: '/' :: rest)).after 2 := if_neg hc
    rw [List.cons_append, List.cons_append, hstep, ih, after, List.length_cons, List.length_cons,
      Nat.add_comm 2]

/-- A block comment that is closed has the form of one. -/
theorem exists_body_of_closed_comment {cs : List Char} (h : (comment cs).closed = true) :
    ∃ body rest, CommentBody body ∧ cs = body ++ '*' :: '/' :: rest := by
  fun_induction comment cs with
  | case1 => exact absurd h Bool.false_ne_true
  | case2 => exact absurd h Bool.false_ne_true
  | case3 rest => exact ⟨[], rest, .nil, rfl⟩
  | case4 c cs hc ih =>
    obtain ⟨body, rest, hbody, rfl⟩ := ih h
    exact ⟨'*' :: c :: body, rest, .star hc hbody, rfl⟩
  | case5 c cs hlast hstar ih =>
    obtain ⟨body, rest, hbody, rfl⟩ := ih h
    refine ⟨c :: body, rest, .plain ?_ hbody, rfl⟩
    rintro rfl
    cases body with
    | nil => exact hstar '*' ('/' :: rest) rfl rfl
    | cons d ds => exact hstar d (ds ++ '*' :: '/' :: rest) rfl rfl

end Reach

/-- What is written like a word is that word. -/
theorem Token.Written.of_isWordStart {t : Token} {c : Char} {cs : List Char}
    (h : t.Written (c :: cs)) (hc : isWordStart c = true) :
    t = .ofWord (.ofList (c :: cs)) ∧ ∀ d ∈ cs, isWordPart d = true := by
  cases h with
  | word _ hcs => exact ⟨rfl, hcs⟩
  | _ => exact absurd hc (by decide)

namespace Lexeme

/-- A token that is no word ends where its form ends. -/
theorem scan_delimited {t : Token} {c : Char} {cs : List Char} (h : t.Written (c :: cs))
    (hc : isWordStart c = false) (rest : List Char) :
    scan c (cs ++ rest) = (.token t, cs.length) := by
  cases h with
  | word hword => exact absurd (hc.symm.trans hword) Bool.false_ne_true
  | braceOpen => rfl
  | braceClose => rfl
  | colon => rfl
  | @string body h =>
    rw [List.append_assoc, List.singleton_append, scan_quote, Reach.string_of_body h,
      Nat.add_sub_cancel, List.take_left, List.length_append]
    rfl
  | @expression body h =>
    rw [List.append_assoc, List.singleton_append, scan_backtick, Reach.expression_append h,
      Nat.add_sub_cancel, List.take_left, List.length_append]
    rfl

/-- A scan that begins no word takes a whole form. -/
theorem form_scan_delimited {t : Token} {c : Char} {cs : List Char} (h : t.Written (c :: cs))
    (hc : isWordStart c = false) (rest : List Char) :
    Form (scan c (cs ++ rest)).1 (c :: (cs ++ rest).take (scan c (cs ++ rest)).2) := by
  rw [scan_delimited h hc, List.take_left]
  exact .token h

/-- A token is read from its form, if nothing that follows continues a word. -/
theorem scan_written {t : Token} {c : Char} {cs : List Char} (h : t.Written (c :: cs))
    {rest : List Char} (hrest : ∀ d ∈ rest.head?, isWordPart d = false) :
    scan c (cs ++ rest) = (.token t, cs.length) := by
  cases hc : isWordStart c with
  | false => exact scan_delimited h hc rest
  | true =>
    obtain ⟨rfl, hcs⟩ := h.of_isWordStart hc
    have hstop : rest.takeWhile isWordPart = [] := by
      cases rest with
      | nil => rfl
      | cons d rest => rw [List.takeWhile_cons, hrest d rfl]; rfl
    rw [scan_word hc, List.takeWhile_append_of_pos hcs, hstop, List.append_nil]

/-- A line comment takes the rest of its line. -/
theorem scan_line {line : List Char} (h : '\n' ∉ line) (rest : List Char) :
    scan '/' ('/' :: (line ++ rest)) =
      (.layout, 1 + (line.length + (rest.takeWhile (· != '\n')).length)) := by
  have hplain : ∀ d ∈ line, (d != '\n') = true := fun d hd =>
    bne_iff_ne.mpr fun heq => h (heq ▸ hd)
  rw [scan_slash]
  simp only [List.takeWhile_append_of_pos hplain, List.length_append]

/-- A block comment is scanned to its closing. -/
theorem scan_block {body : List Char} (h : CommentBody body) (rest : List Char) :
    scan '/' ('*' :: (body ++ '*' :: '/' :: rest)) = (.layout, body.length + 3) := by
  have hscan : scan '/' ('*' :: (body ++ '*' :: '/' :: rest)) =
      ((Reach.comment (body ++ '*' :: '/' :: rest)).lexeme .layout,
        1 + (Reach.comment (body ++ '*' :: '/' :: rest)).length) := rfl
  rw [hscan, Reach.comment_of_body h, Reach.lexeme, if_pos rfl, Nat.add_comm 1]

/-- Of all forms that a source begins with, a piece has the longest. -/
theorem scan_longest {l : Lexeme} {c : Char} {cs : List Char} (h : Form l (c :: cs))
    (rest : List Char) :
    (scan c (cs ++ rest)).1 ≠ .unreadable ∧ cs.length ≤ (scan c (cs ++ rest)).2 := by
  generalize htext : c :: cs = text at h
  cases h with
  | token h =>
    subst htext
    cases hc : isWordStart c with
    | false =>
      rw [scan_delimited h hc]
      exact ⟨Lexeme.noConfusion, Nat.le_refl _⟩
    | true =>
      obtain ⟨-, hcs⟩ := h.of_isWordStart hc
      rw [scan_word hc, List.takeWhile_append_of_pos hcs, List.length_append]
      exact ⟨Lexeme.noConfusion, Nat.le_add_right _ _⟩
  | spacing hc =>
    obtain ⟨rfl, rfl⟩ := List.cons.inj htext
    rw [scan_spacing hc]
    exact ⟨Lexeme.noConfusion, Nat.le_refl 0⟩
  | @line line hline =>
    obtain ⟨rfl, rfl⟩ := List.cons.inj htext
    rw [List.cons_append, scan_line hline, List.length_cons]
    exact ⟨Lexeme.noConfusion, by omega⟩
  | @block body hbody =>
    obtain ⟨rfl, rfl⟩ := List.cons.inj htext
    have hform : '*' :: (body ++ ['*', '/']) ++ rest = '*' :: (body ++ '*' :: '/' :: rest) := by
      simp
    rw [hform, scan_block hbody]
    exact ⟨Lexeme.noConfusion, by simp⟩

/-- What can be read has the form of what it is read as. -/
theorem scan_form {c : Char} {cs : List Char} (h : (scan c cs).1 ≠ .unreadable) :
    Form (scan c cs).1 (c :: cs.take (scan c cs).2) := by
  by_cases hspacing : isSpacing c = true
  · rw [scan_spacing hspacing]
    exact .spacing hspacing
  by_cases hword : isWordStart c = true
  · have htake : cs.take (cs.takeWhile isWordPart).length = cs.takeWhile isWordPart :=
      (List.prefix_iff_eq_take.mp (List.takeWhile_prefix _)).symm
    rw [scan_word hword, htake]
    exact .token (.word hword fun d hd => List.all_eq_true.mp List.all_takeWhile d hd)
  by_cases hquote : c = '"'
  · subst hquote
    have hclosed := Reach.closed_of_lexeme_ne h
    obtain ⟨body, rest, hbody, rfl⟩ := Reach.exists_body_of_closed_string hclosed
    have hform := form_scan_delimited (.string hbody) (by decide) rest
    rwa [List.append_assoc, List.singleton_append] at hform
  by_cases htick : c = '`'
  · subst htick
    have hclosed := Reach.closed_of_lexeme_ne h
    obtain ⟨body, rest, hbody, rfl⟩ := Reach.exists_of_closed_expression hclosed
    have hform := form_scan_delimited (.expression hbody) (by decide) rest
    rwa [List.append_assoc, List.singleton_append] at hform
  by_cases hslash : c = '/'
  · subst hslash
    rw [scan_slash] at h
    split at h
    · next line =>
      have htake : line.take (line.takeWhile (· != '\n')).length = line.takeWhile (· != '\n') :=
        (List.prefix_iff_eq_take.mp (List.takeWhile_prefix _)).symm
      have hline : '\n' ∉ line.takeWhile (· != '\n') := fun hmem =>
        absurd (List.all_eq_true.mp List.all_takeWhile _ hmem) (by decide)
      have hscan : scan '/' ('/' :: line) =
          (.layout, 1 + (line.takeWhile (· != '\n')).length) := rfl
      rw [hscan, Nat.add_comm, List.take_succ_cons, htake]
      exact .line hline
    · next body =>
      have hclosed := Reach.closed_of_lexeme_ne h
      obtain ⟨body, rest, hbody, rfl⟩ := Reach.exists_body_of_closed_comment hclosed
      have htake : ('*' :: (body ++ '*' :: '/' :: rest)).take (body.length + 3) =
          '*' :: (body ++ ['*', '/']) := by
        rw [List.take_succ_cons, List.take_length_add_append]
        rfl
      rw [scan_block hbody, htake]
      exact .block hbody
    · exact absurd rfl h
  · unfold scan at h ⊢
    simp only [if_neg hspacing, if_neg hword] at h ⊢
    split at h
    · exact .token .braceOpen
    · exact .token .braceClose
    · exact .token .colon
    · exact absurd rfl hquote
    · exact absurd rfl htick
    · exact absurd rfl hslash
    · exact absurd rfl h

end Lexeme

theorem Token.Written.ne_nil {t : Token} {text : List Char} (h : t.Written text) : text ≠ [] := by
  cases h <;> exact List.cons_ne_nil _ _

end ReportAssembly
