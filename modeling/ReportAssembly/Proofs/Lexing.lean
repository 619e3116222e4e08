import ReportAssembly.Design.Lexer
import ReportAssembly.Proofs.Trimming

namespace ReportAssembly

def Reads (cs : List Char) (ts : List Token) : Prop :=
  ((Piece.split cs).map (·.lexeme)).filter (· ≠ .layout) = ts.map .token

theorem reads_nil : Reads [] [] := by
  rw [Reads, Piece.split]
  rfl

theorem Reads.layout_cons {c : Char} {cs rest : List Char} {n : Nat} {ts : List Token}
    (hscan : Lexeme.scan c cs = (.layout, n)) (hrest : cs.drop n = rest) (h : Reads rest ts) :
    Reads (c :: cs) ts := by
  rw [Reads, Piece.split, hscan]
  simpa [Reads, hrest] using h

theorem Reads.token_cons {c : Char} {cs rest : List Char} {n : Nat} {t : Token} {ts : List Token}
    (hscan : Lexeme.scan c cs = (.token t, n)) (hrest : cs.drop n = rest) (h : Reads rest ts) :
    Reads (c :: cs) (t :: ts) := by
  rw [Reads, Piece.split, hscan]
  simpa [Reads, hrest] using h

theorem place_of_lexemes {ps : List Piece} {ts : List Token}
    (h : (ps.map (·.lexeme)).filter (· ≠ .layout) = ts.map .token) (start : Nat) :
    (Piece.place start ps).filterMap Piece.error? = [] ∧
      ((Piece.place start ps).filterMap Piece.token?).map (·.value) = ts := by
  induction ps generalizing start ts with
  | nil =>
    obtain rfl : ts = [] := by simpa [eq_comm] using h
    exact ⟨rfl, rfl⟩
  | cons p ps ih =>
    obtain ⟨lexeme, text⟩ := p
    cases lexeme with
    | layout =>
      have hps : (ps.map (·.lexeme)).filter (· ≠ .layout) = ts.map .token := by simpa using h
      exact ih hps (start + byteLength text)
    | unreadable =>
      cases ts <;> simp at h
    | token t =>
      cases ts with
      | nil => simp at h
      | cons u us =>
        have htu : t = u ∧ (ps.map (·.lexeme)).filter (· ≠ .layout) = us.map .token := by
          simpa using h
        obtain ⟨rfl, hps⟩ := htu
        obtain ⟨hnone, htokens⟩ := ih hps (start + byteLength text)
        exact ⟨hnone, congrArg (List.cons t) htokens⟩

theorem lexemes_of_place {ps : List Piece} {start : Nat}
    (h : (Piece.place start ps).filterMap Piece.error? = []) :
    (ps.map (·.lexeme)).filter (· ≠ .layout) =
      (((Piece.place start ps).filterMap Piece.token?).map (·.value)).map .token := by
  induction ps generalizing start with
  | nil => rfl
  | cons p ps ih =>
    obtain ⟨lexeme, text⟩ := p
    cases lexeme with
    | layout =>
      have hps : (Piece.place (start + byteLength text) ps).filterMap Piece.error? = [] := by
        simpa [Piece.place, Piece.error?] using h
      exact ih hps
    | unreadable => simp [Piece.place, Piece.error?] at h
    | token t =>
      have hps : (Piece.place (start + byteLength text) ps).filterMap Piece.error? = [] := by
        simpa [Piece.place, Piece.error?] using h
      exact congrArg (List.cons (Lexeme.token t)) (ih hps)

/-- The lexer finds the tokens that the source reads as. -/
theorem exists_lex_iff_reads (source : String) (ts : List Token) :
    (∃ located, lex source = .ok located ∧ located.map (·.value) = ts) ↔
      Reads source.toList ts := by
  constructor
  · rintro ⟨located, hlex, rfl⟩
    unfold lex at hlex
    dsimp only at hlex
    split_ifs at hlex with hnone
    obtain rfl := Except.ok.inj hlex
    exact lexemes_of_place (List.isEmpty_iff.mp hnone)
  · intro h
    obtain ⟨hnone, htokens⟩ := place_of_lexemes h 0
    refine ⟨_, ?_, htokens⟩
    rw [lex, hnone]
    rfl

def tokens? (source : String) : Option (List Token) :=
  (lex source).toOption.map fun ts => ts.map (·.value)

/-- A source has tokens exactly if it reads as them. -/
theorem tokens?_eq_some_iff (source : String) (ts : List Token) :
    tokens? source = some ts ↔ Reads source.toList ts := by
  rw [← exists_lex_iff_reads, tokens?]
  cases lex source <;> simp [Except.toOption]

/-- Whatever follows, as long as it does not continue a word, the text reads as the tokens `ts`
before the rest. -/
def Spells (cs : List Char) (ts : List Token) : Prop :=
  ∀ rest us, (∀ c ∈ rest.head?, isWordPart c = false) → Reads rest us →
    Reads (cs ++ rest) (ts ++ us)

theorem spells_nil : Spells [] [] :=
  fun _ _ _ h => h

/-- What spells tokens reads as them. -/
theorem Spells.reads {cs : List Char} {ts : List Token} (h : Spells cs ts) : Reads cs ts := by
  simpa using h [] [] (by simp) reads_nil

/-- Two spellings join where no word goes on. -/
theorem Spells.append {cs ds : List Char} {ts us : List Token} (h : Spells cs ts)
    (h' : Spells ds us) (hd : ∀ c ∈ ds.head?, isWordPart c = false) :
    Spells (cs ++ ds) (ts ++ us) := by
  intro rest vs hrest hreads
  rw [List.append_assoc, List.append_assoc]
  refine h _ _ ?_ (h' rest vs hrest hreads)
  cases ds with
  | nil => exact hrest
  | cons d ds => exact hd

theorem isSpacing_eq_false_of_isWordPart {c : Char} (h : isWordPart c = true) :
    isSpacing c = false := by
  have hc := (isWordPart_iff c).mp h
  have hne (d : Char) (hd : d.toNat < 48) : (c == d) = false := by
    rw [beq_eq_false_iff_ne]
    rintro rfl
    omega
  simp [isSpacing, hne]

theorem isWordPart_eq_false_of_isSpacing {c : Char} (h : isSpacing c = true) :
    isWordPart c = false := by
  by_contra hpart
  have hspacing := isSpacing_eq_false_of_isWordPart (by simpa using hpart)
  exact Bool.false_ne_true (hspacing.symm.trans h)

theorem Lexeme.scan_spacing {c : Char} (h : isSpacing c = true) (cs : List Char) :
    scan c cs = (.layout, 0) := by
  unfold scan
  rw [if_pos h]

theorem Spells.spacing_cons {c : Char} {cs : List Char} {ts : List Token}
    (hc : isSpacing c = true) (h : Spells cs ts) : Spells (c :: cs) ts := by
  intro rest us hrest hreads
  exact Reads.layout_cons (Lexeme.scan_spacing hc _) rfl (h rest us hrest hreads)

/-- Forms with a space or the like between them keep their reading. -/
theorem Spells.append_spacing {c : Char} {cs ds : List Char} {ts us : List Token}
    (h : Spells cs ts) (hc : isSpacing c = true) (h' : Spells ds us) :
    Spells (cs ++ c :: ds) (ts ++ us) :=
  h.append (h'.spacing_cons hc) fun _ hd =>
    Option.some.inj hd ▸ isWordPart_eq_false_of_isSpacing hc

/-- A word spells the keyword or the identifier. -/
theorem spells_word {c : Char} {cs : List Char} (hc : isWordStart c = true)
    (hcs : ∀ d ∈ cs, isWordPart d = true) :
    Spells (c :: cs) [.ofWord (.ofList (c :: cs))] := by
  intro rest us hrest hreads
  have hstop : rest.takeWhile isWordPart = [] := by
    cases rest with
    | nil => rfl
    | cons d rest => rw [List.takeWhile_cons, hrest d rfl]; rfl
  have htail : (cs ++ rest).takeWhile isWordPart = cs := by
    rw [List.takeWhile_append_of_pos hcs, hstop, List.append_nil]
  have hscan : Lexeme.scan c (cs ++ rest) =
      (.token (.ofWord (.ofList (c :: cs))), cs.length) := by
    rw [Lexeme.scan_word hc, htail]
  exact Reads.token_cons hscan List.drop_left hreads

/-- An identifier is read as itself. -/
theorem spells_identifier {name : String} (h : isIdentifier name = true) :
    Spells name.toList [.identifier name] := by
  unfold isIdentifier at h
  split at h
  · exact absurd h Bool.false_ne_true
  · next c cs hname =>
    simp only [Bool.and_eq_true, Option.isNone_iff_eq_none] at h
    obtain ⟨⟨hc, hcs⟩, hword⟩ := h
    have hspells := spells_word hc fun d hd => List.all_eq_true.mp hcs d hd
    rwa [← hname, String.ofList_toList, Token.ofWord, hword] at hspells

theorem spells_brace_open : Spells ['{'] [.braceOpen] :=
  fun _ _ _ h => Reads.token_cons rfl rfl h

theorem spells_brace_close : Spells ['}'] [.braceClose] :=
  fun _ _ _ h => Reads.token_cons rfl rfl h

theorem spells_colon : Spells [':'] [.colon] :=
  fun _ _ _ h => Reads.token_cons rfl rfl h

/-- An encoded character stays within the string. -/
theorem Reach.string_encodeChar (c : Char) (rest : List Char) :
    Reach.string (Text.Quoted.encodeChar c ++ rest) =
      (Reach.string rest).after (Text.Quoted.encodeChar c).length := by
  unfold Text.Quoted.encodeChar
  split_ifs with hq hb hn ht
  · rfl
  · rfl
  · rfl
  · rfl
  · rw [List.singleton_append, Reach.string]
    · rfl
    · exact hq
    · exact fun h _ => hb h
    · exact fun d ds h _ => hb h

/-- An encoded text and a quote are a closed string. -/
theorem Reach.string_encode (cs rest : List Char) :
    Reach.string (Text.Quoted.encode cs ++ '"' :: rest) =
      ⟨true, (Text.Quoted.encode cs).length + 1⟩ := by
  induction cs with
  | nil => rfl
  | cons c cs ih =>
    have hcons : Text.Quoted.encode (c :: cs) =
        Text.Quoted.encodeChar c ++ Text.Quoted.encode cs := rfl
    rw [hcons, List.append_assoc, Reach.string_encodeChar, ih, List.length_append]
    simp only [Reach.after, Nat.add_assoc]

theorem Lexeme.scan_quote (cs : List Char) :
    scan '"' cs =
      ((Reach.string cs).lexeme (.token (.string (.ofList
        (Text.Quoted.decode (cs.take ((Reach.string cs).length - 1)))))),
        (Reach.string cs).length) :=
  rfl

/-- A text in quotes is read as the text. -/
theorem spells_string (s : List Char) :
    Spells ('"' :: (Text.Quoted.encode s ++ ['"'])) [.string (.ofList s)] := by
  intro rest us _ hreads
  have hquoted : Text.Quoted.encode s ++ ['"'] ++ rest = Text.Quoted.encode s ++ '"' :: rest := by
    simp
  have hscan : Lexeme.scan '"' (Text.Quoted.encode s ++ '"' :: rest) =
      (.token (.string (.ofList s)), (Text.Quoted.encode s).length + 1) := by
    rw [Lexeme.scan_quote, Reach.string_encode, Nat.add_sub_cancel, List.take_left,
      Text.Quoted.decode_encode]
    rfl
  rw [List.cons_append, hquoted]
  refine Reads.token_cons hscan ?_ hreads
  rw [← List.drop_drop, List.drop_left]
  rfl

theorem Reach.expression_append {cs : List Char} (h : '`' ∉ cs) (rest : List Char) :
    Reach.expression (cs ++ '`' :: rest) = ⟨true, cs.length + 1⟩ := by
  induction cs with
  | nil => rfl
  | cons c cs ih =>
    obtain ⟨hc, hcs⟩ := not_or.mp (mt List.mem_cons.mpr h)
    rw [List.cons_append, Reach.expression, ih hcs, Reach.after, List.length_cons, Nat.add_comm 1]
    exact fun he => hc he.symm

theorem Lexeme.scan_backtick (cs : List Char) :
    scan '`' cs =
      ((Reach.expression cs).lexeme (.token (.expression (.ofList
        (cs.take ((Reach.expression cs).length - 1))))),
        (Reach.expression cs).length) :=
  rfl

/-- A text between backticks is read as it stands, if it has no backtick itself. -/
theorem spells_expression {s : List Char} (h : '`' ∉ s) :
    Spells ('`' :: (s ++ ['`'])) [.expression (.ofList s)] := by
  intro rest us _ hreads
  have hticked : s ++ ['`'] ++ rest = s ++ '`' :: rest := by simp
  have hscan : Lexeme.scan '`' (s ++ '`' :: rest) =
      (.token (.expression (.ofList s)), s.length + 1) := by
    rw [Lexeme.scan_backtick, Reach.expression_append h, Nat.add_sub_cancel, List.take_left]
    rfl
  rw [List.cons_append, hticked]
  refine Reads.token_cons hscan ?_ hreads
  rw [← List.drop_drop, List.drop_left]
  rfl

def Token.Lexical : Token → Prop
  | identifier name => isIdentifier name = true
  | expression text => '`' ∉ text.toList
  | _ => True

/-- A closed expression ends at its first backtick. -/
theorem Reach.exists_of_closed_expression {cs : List Char} (h : (expression cs).closed = true) :
    ∃ body rest, '`' ∉ body ∧ cs = body ++ '`' :: rest := by
  induction cs with
  | nil => exact absurd h Bool.false_ne_true
  | cons c cs ih =>
    by_cases hc : c = '`'
    · exact ⟨[], cs, List.not_mem_nil, by rw [hc]; rfl⟩
    · rw [expression] at h
      · obtain ⟨body, rest, hbody, rfl⟩ := ih h
        refine ⟨c :: body, rest, ?_, rfl⟩
        rintro (_ | ⟨_, hmem⟩)
        · exact hc rfl
        · exact hbody hmem
      · exact hc

/-- Every word has a written form. -/
theorem Token.lexical_ofWord {c : Char} {cs : List Char} (hc : isWordStart c = true)
    (hcs : ∀ d ∈ cs, isWordPart d = true) : (ofWord (.ofList (c :: cs))).Lexical := by
  unfold ofWord
  split
  · trivial
  · next hword =>
    rw [Lexical, isIdentifier, String.toList_ofList]
    simp only [hc, hword, Bool.true_and, Bool.and_eq_true, List.all_eq_true]
    exact ⟨hcs, rfl⟩

/-- Every token that is scanned has a written form. -/
theorem Lexeme.scan_lexical {c : Char} {cs : List Char} {t : Token}
    (h : (scan c cs).1 = .token t) : t.Lexical := by
  by_cases hspacing : isSpacing c = true
  · rw [scan_spacing hspacing] at h
    cases h
  by_cases hword : isWordStart c = true
  · rw [scan_word hword] at h
    obtain rfl := Lexeme.token.inj h
    exact Token.lexical_ofWord hword fun d hd => List.all_eq_true.mp List.all_takeWhile d hd
  by_cases htick : c = '`'
  · subst htick
    rw [scan_backtick, Reach.lexeme] at h
    dsimp only at h
    split_ifs at h with hclosed
    obtain rfl := Lexeme.token.inj h
    obtain ⟨body, rest, hbody, rfl⟩ := Reach.exists_of_closed_expression hclosed
    rw [Token.Lexical, String.toList_ofList, Reach.expression_append hbody, Nat.add_sub_cancel,
      List.take_left]
    exact hbody
  · unfold scan at h
    rw [if_neg hspacing, if_neg hword] at h
    split at h
    · obtain rfl := Lexeme.token.inj h; trivial
    · obtain rfl := Lexeme.token.inj h; trivial
    · obtain rfl := Lexeme.token.inj h; trivial
    · dsimp only [Reach.lexeme] at h
      split_ifs at h with hclosed
      obtain rfl := Lexeme.token.inj h
      trivial
    · exact absurd rfl htick
    · split at h
      · cases h
      · dsimp only [Reach.lexeme] at h
        split_ifs at h
      · cases h
    · cases h

/-- Every token that is read has a written form. -/
theorem Reads.lexical {cs : List Char} {ts : List Token} (h : Reads cs ts) :
    ∀ t ∈ ts, t.Lexical := by
  have hpieces : ∀ p ∈ Piece.split cs, ∀ t, p.lexeme = .token t → t.Lexical := by
    clear h
    fun_induction Piece.split cs with
    | case1 => simp
    | case2 c cs found ih => exact List.forall_mem_cons.mpr ⟨fun t => Lexeme.scan_lexical, ih⟩
  intro t ht
  have hmem : Lexeme.token t ∈ ts.map .token := List.mem_map_of_mem ht
  rw [← h] at hmem
  obtain ⟨p, hp, hlexeme⟩ := List.mem_map.mp (List.mem_filter.mp hmem).1
  exact hpieces p hp t hlexeme

end ReportAssembly
