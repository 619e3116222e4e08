import ReportAssembly.Proofs.EntrySpans
import ReportAssembly.Proofs.ReferenceShape

namespace ReportAssembly

/-- An item has the form of what it is read as, with nothing but layout before it. -/
theorem Piece.next?_eq_some {cs rest : List Char} {p : Piece} (h : next? cs = some (p, rest)) :
    ∃ layout, cs = layout ++ p.text ++ rest ∧
      (p.lexeme ≠ .unreadable → p.lexeme.Form p.text) := by
  fun_induction next? cs with
  | case1 => cases h
  | case2 c cs found rest' hlayout ih =>
    obtain ⟨layout, hrest, hform⟩ := ih h
    refine ⟨c :: cs.take found.2 ++ layout, ?_, hform⟩
    calc c :: cs = c :: cs.take found.2 ++ rest' := by
          rw [List.cons_append, List.take_append_drop]
      _ = c :: cs.take found.2 ++ (layout ++ p.text ++ rest) := by rw [hrest]
      _ = c :: cs.take found.2 ++ layout ++ p.text ++ rest := by simp only [List.append_assoc]
  | case3 c cs found rest' hlayout =>
    obtain ⟨rfl, rfl⟩ := Prod.mk.inj (Option.some.inj h)
    exact ⟨[], by simp [rest'], Lexeme.scan_form⟩

/-- If the first item is the identifier of the whole text, nothing is left behind it. -/
theorem Piece.rest_eq_nil {s : String} {p : Piece} {rest : List Char}
    (h : next? s.toList = some (p, rest)) (hp : p.lexeme = .token (.identifier s)) :
    rest = [] := by
  obtain ⟨layout, hs, hform⟩ := next?_eq_some h
  have htext : p.text = s.toList := by
    rw [hp] at hform
    cases hform Lexeme.noConfusion with
    | token hwritten => exact hwritten.eq_word rfl
  have hlength := congrArg List.length hs
  rw [htext, List.length_append, List.length_append] at hlength
  apply List.length_eq_zero_iff.mp
  omega

/-- A word begins like one and goes on like one. -/
theorem isWord_iff (n : String) : IsWord n ↔ ∃ c cs, n.toList = c :: cs ∧ isWordStart c = true ∧
    ∀ d ∈ cs, isWordPart d = true := by
  simp only [IsWord, isWordStart_iff, isWordPart_iff_isLetter]

theorem Token.written_identifier {n : String} (h : isIdentifier n = true) :
    (identifier n).Written n.toList := by
  obtain ⟨hn, hword⟩ := (isIdentifier_iff_isWord n).mp h
  obtain ⟨c, cs, hname, hc, hcs⟩ := (isWord_iff n).mp hn
  have hwritten := Written.word hc hcs
  rwa [← hname, String.ofList_toList, ofWord, (Keyword.ofWord?_eq_none_iff n).mpr hword] at hwritten

/-- A text is an identifier exactly if it is cut into this one token, over all its bytes. -/
theorem isIdentifier_iff_lex (s : String) :
    isIdentifier s = true ↔ lex s = .ok [⟨.identifier s, ⟨0, byteLength s.toList⟩⟩] := by
  constructor
  · intro h
    have hlex := (Token.written_identifier h).lex_eq
    rwa [String.ofList_toList] at hlex
  · intro h
    rw [isIdentifier_iff_tokens?, tokens?, h]
    rfl

/-- An identifier is written in no other way. -/
theorem Token.written_identifier_iff (n : String) (text : List Char) :
    (identifier n).Written text ↔ text = n.toList ∧ isIdentifier n = true := by
  constructor
  · intro h
    exact ⟨h.eq_word rfl, h.spells.reads.lexical _ List.mem_cons_self⟩
  · rintro ⟨rfl, hname⟩
    exact written_identifier hname

/-- A source of one token is a form of the token, with gaps before and behind. -/
theorem exists_gaps_of_reads {cs : List Char} {t : Token} (h : Reads cs [t]) :
    ∃ before text after, Gap false before ∧ Gap true after ∧ t.Written text ∧
      cs = before ++ text ++ after := by
  have hitems : (((Piece.place 0 (Piece.split cs)).filter fun p => p.value.lexeme ≠ .layout).map
      (·.value.lexeme)) = [.token t] := by
    have hbare := reads_iff_bare.mp h
    rwa [← Piece.map_value_items, List.map_map] at hbare
  obtain ⟨p, hp, hlexeme⟩ := List.map_eq_singleton_iff.mp hitems
  have hitemized := itemized_split cs 0
  rw [hp] at hitemized
  cases hitemized with
  | @item _ before tail after c _ _ hbefore hscan hl hrest =>
    cases hrest with
    | last hafter =>
      obtain rfl : _ = Lexeme.token t := hlexeme
      have hwritten : t.Written (c :: tail) := Lexeme.written_of_scan hscan
      exact ⟨before, c :: tail, after, hbefore, hafter, hwritten, rfl⟩

/-- A written token between two gaps reads as this token. -/
theorem Token.Written.reads_gaps {before text after : List Char} {t : Token} (h : t.Written text)
    (hbefore : Gap false before) (hafter : Gap true after) :
    Reads (before ++ text ++ after) [t] := by
  obtain ⟨c, tail, rfl⟩ := List.exists_cons_of_ne_nil h.ne_nil
  have hscan := Lexeme.scan_written h hafter.head_not_isWordPart
  have hend : Piece.bare (after ++ []) = Piece.bare [] := hafter.bare_eq fun _ => rfl
  have hbare : Piece.bare (before ++ c :: tail ++ after) = [⟨.token t, c :: tail⟩] := by
    calc Piece.bare (before ++ c :: tail ++ after)
        = Piece.bare (c :: tail ++ after) := by rw [List.append_assoc, hbefore.bare_append]
      _ = ⟨.token t, c :: tail⟩ :: Piece.bare (after ++ []) := by
          rw [Piece.bare_token hscan, List.append_nil]
      _ = [⟨.token t, c :: tail⟩] := by
          rw [hend, Piece.bare, Piece.split]
          rfl
  rw [reads_iff_bare, hbare]
  rfl

/-- The texts that the lexer reads as one identifier: its name with gaps before and behind. -/
theorem tokens?_eq_identifier_iff (s n : String) :
    tokens? s = some [.identifier n] ↔ ∃ before after, Gap false before ∧ Gap true after ∧
      s.toList = before ++ n.toList ++ after ∧ isIdentifier n = true := by
  rw [tokens?_eq_some_iff]
  constructor
  · intro hreads
    obtain ⟨before, text, after, hbefore, hafter, hwritten, hs⟩ := exists_gaps_of_reads hreads
    obtain ⟨rfl, hname⟩ := (Token.written_identifier_iff n text).mp hwritten
    exact ⟨before, after, hbefore, hafter, hs, hname⟩
  · rintro ⟨before, after, hbefore, hafter, hs, hname⟩
    rw [hs]
    exact (Token.written_identifier hname).reads_gaps hbefore hafter

theorem Keyword.mem_words_iff (w : String) : w ∈ words ↔ ∃ k : Keyword, k.word = w := by
  constructor
  · intro hmem
    cases hword : ofWord? w with
    | none => exact absurd hmem ((ofWord?_eq_none_iff w).mp hword)
    | some k => exact ⟨k, word_of_ofWord? hword⟩
  · rintro ⟨k, rfl⟩
    cases k <;> decide

theorem Keyword.isWord_word (k : Keyword) : IsWord k.word := by
  rw [isWord_iff]
  cases k <;> exact ⟨_, _, rfl, by decide, List.all_eq_true.mp (by decide)⟩

inductive Token.Matches : Token → List Char → Prop
  | keyword (k : Keyword) : Matches (.keyword k) k.word.toList
  | identifier {n : String} (h : IsWord n) : Matches (.identifier n) n.toList

/-- The match that is taken where a source begins like a word: the longest, and the keyword if
there are two of them. -/
structure Token.Taken (t : Token) (text source : List Char) : Prop where
  matched : t.Matches text
  front : text <+: source
  longest : ∀ u other, Token.Matches u other → other <+: source → other.length ≤ text.length
  keyword : ∀ k : Keyword, k.word.toList = text → t = .keyword k

namespace Token

/-- Only words match the patterns of words. -/
theorem Matches.exists_word {t : Token} {text : List Char} (h : t.Matches text) :
    ∃ c cs, text = c :: cs ∧ isWordStart c = true ∧ ∀ d ∈ cs, isWordPart d = true := by
  cases h with
  | keyword k => exact (isWord_iff k.word).mp k.isWord_word
  | @identifier n hn => exact (isWord_iff n).mp hn

/-- A word is matched by the token that it is read as. -/
theorem matches_ofWord {w : String} (h : IsWord w) : (ofWord w).Matches w.toList := by
  rw [ofWord]
  cases hword : Keyword.ofWord? w with
  | none => exact .identifier h
  | some k =>
    rw [← Keyword.word_of_ofWord? hword]
    exact .keyword k

/-- Only one match is taken. -/
theorem Taken.unique {t u : Token} {text other source : List Char} (h : t.Taken text source)
    (h' : u.Taken other source) : t = u ∧ text = other := by
  have hprefix : text <+: other :=
    List.prefix_of_prefix_length_le h.front h'.front (h'.longest t text h.matched h.front)
  obtain rfl : text = other :=
    hprefix.eq_of_length_le (h.longest u other h'.matched h'.front)
  refine ⟨?_, rfl⟩
  obtain ⟨ht, -, -, hkeyword⟩ := h
  obtain ⟨hu, -, -, hkeyword'⟩ := h'
  cases ht with
  | keyword k => exact (hkeyword' k rfl).symm
  | @identifier n _ =>
    generalize htext : n.toList = text at hu
    cases hu with
    | keyword k => exact hkeyword k htext.symm
    | @identifier m _ => rw [String.toList_injective htext]

/-- The letters of a word up to its end are the match that is taken. -/
theorem taken_ofWord {c : Char} (hc : isWordStart c = true) (cs : List Char) :
    (ofWord (.ofList (c :: cs.takeWhile isWordPart))).Taken (c :: cs.takeWhile isWordPart)
      (c :: cs) := by
  constructor
  case matched =>
    have hword : IsWord (.ofList (c :: cs.takeWhile isWordPart)) :=
      (isWord_iff _).mpr ⟨c, cs.takeWhile isWordPart, String.toList_ofList, hc,
        List.all_eq_true.mp List.all_takeWhile⟩
    have hmatches := matches_ofWord hword
    rwa [String.toList_ofList] at hmatches
  case front => exact List.cons_prefix_cons.mpr ⟨rfl, List.takeWhile_prefix _⟩
  case longest =>
    intro u other hother hprefix
    obtain ⟨d, ds, rfl, -, hds⟩ := hother.exists_word
    obtain ⟨-, more, rfl⟩ := List.cons_prefix_cons.mp hprefix
    rw [List.takeWhile_append_of_pos hds, List.length_cons, List.length_cons, List.length_append]
    omega
  case keyword =>
    intro k hk
    rw [← hk, String.ofList_toList, ofWord, Keyword.ofWord?_word]

end Token

/-- A word is handed out with all that continues it. -/
theorem Piece.next?_word {c : Char} (hc : isWordStart c = true) (cs : List Char) :
    next? (c :: cs) = some (⟨.token (.ofWord (.ofList (c :: cs.takeWhile isWordPart))),
      c :: cs.takeWhile isWordPart⟩, cs.dropWhile isWordPart) := by
  have hcs : cs.takeWhile isWordPart ++ cs.dropWhile isWordPart = cs :=
    List.takeWhile_append_dropWhile
  have htake : cs.take (cs.takeWhile isWordPart).length = cs.takeWhile isWordPart :=
    (List.prefix_iff_eq_take.mp (List.takeWhile_prefix _)).symm
  have hdrop : cs.drop (cs.takeWhile isWordPart).length = cs.dropWhile isWordPart := by
    calc cs.drop (cs.takeWhile isWordPart).length
        = (cs.takeWhile isWordPart ++ cs.dropWhile isWordPart).drop
            (cs.takeWhile isWordPart).length := by rw [hcs]
      _ = cs.dropWhile isWordPart := List.drop_left
  rw [next?, Lexeme.scan_word hc]
  simp [htake, hdrop]

/-- Where a source begins like a word, the item is the match that is taken. -/
theorem Piece.next?_eq_some_iff_taken {c : Char} {cs text rest : List Char} {t : Token}
    (hc : isWordStart c = true) (hcs : c :: cs = text ++ rest) :
    next? (c :: cs) = some (⟨.token t, text⟩, rest) ↔ t.Taken text (c :: cs) := by
  rw [next?_word hc]
  constructor
  · intro h
    obtain ⟨hp, -⟩ := Prod.mk.inj (Option.some.inj h)
    obtain ⟨ht, rfl⟩ := Piece.mk.inj hp
    obtain rfl := Lexeme.token.inj ht
    exact Token.taken_ofWord hc cs
  · intro h
    obtain ⟨rfl, rfl⟩ := h.unique (Token.taken_ofWord hc cs)
    have hrest : c :: cs.takeWhile isWordPart ++ cs.dropWhile isWordPart =
        c :: cs.takeWhile isWordPart ++ rest := by
      rw [← hcs, List.cons_append, List.takeWhile_append_dropWhile]
    rw [List.append_cancel_left hrest]

/-- An identifier is the match that is taken from its own text. -/
theorem isIdentifier_iff_taken (s : String) :
    isIdentifier s = true ↔ (Token.identifier s).Taken s.toList s.toList := by
  rw [isIdentifier_iff_isWord]
  constructor
  · rintro ⟨hword, hkeyword⟩
    constructor
    case matched => exact .identifier hword
    case front => exact List.prefix_refl _
    case longest => exact fun u other _ hother => hother.length_le
    case keyword =>
      intro k hk
      have hmem := (Keyword.mem_words_iff s).mpr ⟨k, String.toList_injective hk⟩
      exact absurd hmem hkeyword
  · intro h
    cases h.matched with
    | identifier hword =>
      refine ⟨hword, fun hmem => ?_⟩
      obtain ⟨k, rfl⟩ := (Keyword.mem_words_iff s).mp hmem
      cases h.keyword k rfl

/-- A word goes on with characters of a word only. -/
theorem IsWord.append_iff {w : String} (h : IsWord w) (tail : String) :
    IsWord (w ++ tail) ↔ ∀ d ∈ tail.toList, isWordPart d = true := by
  obtain ⟨c, cs, hw, hc, hcs⟩ := (isWord_iff w).mp h
  have htext : (w ++ tail).toList = c :: (cs ++ tail.toList) := by
    rw [String.toList_append, hw, List.cons_append]
  rw [isWord_iff]
  constructor
  · rintro ⟨c', cs', heq, -, hcs'⟩ d hd
    obtain ⟨-, rfl⟩ := List.cons.inj (htext.symm.trans heq)
    exact hcs' d (List.mem_append_right cs hd)
  · intro htail
    exact ⟨c, cs ++ tail.toList, htext, hc, List.forall_mem_append.mpr ⟨hcs, htail⟩⟩

namespace Keyword

/-- No keyword is the beginning of another, but for one. -/
theorem eq_of_prefix (k : Keyword) : ∀ w ∈ words, k.word.toList <+: w.toList →
    w = k.word ∨ k = .text ∧ w = "textfield" := by
  cases k <;> decide +kernel

/-- Of the words that continue a keyword one is a keyword again. -/
theorem append_mem_words_iff (k : Keyword) (tail : String) :
    k.word ++ tail ∈ words ↔ tail = "" ∨ k = .text ∧ tail = "field" := by
  constructor
  · intro hmem
    have hprefix : k.word.toList <+: (k.word ++ tail).toList :=
      ⟨tail.toList, String.toList_append.symm⟩
    rcases eq_of_prefix k _ hmem hprefix with heq | ⟨rfl, heq⟩
    · exact .inl (by simpa using heq)
    · have hfield : "text" ++ tail = "text" ++ "field" := heq
      exact .inr ⟨rfl, (String.append_right_inj "text").mp hfield⟩
  · rintro (rfl | ⟨rfl, rfl⟩)
    · rw [String.append_empty]
      exact (mem_words_iff _).mpr ⟨k, rfl⟩
    · decide

/-- A word that goes on behind a keyword is an identifier, if it is no other keyword. -/
theorem isIdentifier_append_iff (k : Keyword) (tail : String) :
    isIdentifier (k.word ++ tail) = true ↔ (∀ d ∈ tail.toList, isWordPart d = true) ∧
      tail ≠ "" ∧ ¬(k = .text ∧ tail = "field") := by
  rw [isIdentifier_iff_isWord, k.isWord_word.append_iff, append_mem_words_iff, not_or]

end Keyword

/-- The word for every type but `report` is an identifier. -/
theorem ValueType.isIdentifier_keyword_iff (t : ValueType) :
    isIdentifier t.keyword = true ↔ t ≠ .report := by
  cases t <;> decide

structure IdentifierRead (s : String) : Prop where
  /-- The lexer hands out the identifier of the text, and then nothing. -/
  pulled : isIdentifier s = true ↔ readsBack s = true
  /-- After the identifier of the text, there is never anything left to hand out. -/
  settled : ∀ p rest, Piece.next? s.toList = some (p, rest) →
    p.lexeme = .token (.identifier s) → rest = []
  /-- The text is one token, from its first byte to its last. -/
  lexed : isIdentifier s = true ↔ lex s = .ok [⟨.identifier s, ⟨0, byteLength s.toList⟩⟩]
  /-- The text matches the pattern of words, and is none of the six keywords. -/
  spelled : isIdentifier s = true ↔ IsWord s ∧ s ∉ Keyword.words
  /-- Where the text begins like a word, the first item is the longest match of the patterns. -/
  first : ∀ c cs text rest t, s.toList = c :: cs → s.toList = text ++ rest →
    isWordStart c = true →
    (Piece.next? s.toList = some (⟨.token t, text⟩, rest) ↔ t.Taken text s.toList)
  /-- The whole text is the match that is taken, and it is that of the pattern of identifiers. -/
  taken : isIdentifier s = true ↔ (Token.identifier s).Taken s.toList s.toList
  /-- The lexer finds one identifier in a text, and nothing else, if there are gaps around it. -/
  surrounded : ∀ n, tokens? s = some [.identifier n] ↔ ∃ before after, Gap false before ∧
    Gap true after ∧ s.toList = before ++ n.toList ++ after ∧ isIdentifier n = true
  /-- Such a text is no identifier itself, unless the gaps are empty. -/
  alone : ∀ before n after, s.toList = before ++ n.toList ++ after →
    tokens? s = some [.identifier n] → (isIdentifier s = true ↔ before = [] ∧ after = [])
  /-- No other characters, such as those of layout and comments, can be part of it. -/
  foreign : ∀ c ∈ s.toList, isWordPart c = false → isIdentifier s = false
  ascii : ∀ c ∈ s.toList, 128 ≤ c.toNat → isIdentifier s = false
  /-- A keyword goes on as an identifier, except as another keyword. -/
  extended : ∀ (k : Keyword) (tail : String), s = k.word ++ tail →
    (isIdentifier s = true ↔ (∀ d ∈ tail.toList, isWordPart d = true) ∧ tail ≠ "" ∧
      ¬(k = .text ∧ tail = "field"))
  /-- The words for bands and types, which mean something in their place only. -/
  band : ∀ kind, SectionKind.ofKeyword? s = some kind → isIdentifier s = true
  type : ∀ t, ValueType.ofKeyword? s = some t → (isIdentifier s = true ↔ t ≠ .report)

theorem isIdentifier_eq_false_of_mem {s : String} {c : Char} (hc : c ∈ s.toList)
    (hpart : isWordPart c = false) : isIdentifier s = false := by
  by_contra h
  have hword := isWordPart_of_isIdentifier (Bool.eq_true_of_not_eq_false h) c hc
  exact Bool.false_ne_true (hpart.symm.trans hword)

theorem isWordPart_eq_false_of_toNat {c : Char} (h : 128 ≤ c.toNat) : isWordPart c = false := by
  by_contra hpart
  have hc := (isWordPart_iff c).mp (Bool.eq_true_of_not_eq_false hpart)
  omega

/-- A text that reads as one identifier is it exactly if nothing stands around the name. -/
theorem isIdentifier_iff_of_read {s n : String} {before after : List Char}
    (hs : s.toList = before ++ n.toList ++ after) (hread : tokens? s = some [.identifier n]) :
    isIdentifier s = true ↔ before = [] ∧ after = [] := by
  constructor
  · intro h
    have hsame := (isIdentifier_iff_tokens? s).mp h
    rw [hread] at hsame
    obtain rfl : n = s := by simpa using hsame
    have hlength := congrArg List.length hs
    simp only [List.length_append] at hlength
    exact ⟨List.length_eq_zero_iff.mp (by omega), List.length_eq_zero_iff.mp (by omega)⟩
  · rintro ⟨rfl, rfl⟩
    rw [List.nil_append, List.append_nil] at hs
    obtain rfl := String.toList_injective hs
    exact (isIdentifier_iff_tokens? s).mpr hread

/-- For every text it comes to the same whether it is a word and no keyword, whether it is cut into
the one token of its identifier, and whether the lexer hands out that token and then nothing. -/
theorem identifier_reads_as_itself (s : String) : IdentifierRead s := by
  constructor
  case pulled => rw [readsBack_eq_isIdentifier]
  case settled => exact fun p rest => Piece.rest_eq_nil
  case lexed => exact isIdentifier_iff_lex s
  case spelled => exact isIdentifier_iff_isWord s
  case first =>
    intro c cs text rest t hs htext hc
    rw [hs] at htext ⊢
    exact Piece.next?_eq_some_iff_taken hc htext
  case taken => exact isIdentifier_iff_taken s
  case surrounded => exact tokens?_eq_identifier_iff s
  case alone => exact fun before n after => isIdentifier_iff_of_read
  case foreign => exact fun c hc => isIdentifier_eq_false_of_mem hc
  case ascii =>
    exact fun c hc hascii => isIdentifier_eq_false_of_mem hc (isWordPart_eq_false_of_toNat hascii)
  case extended =>
    rintro k tail rfl
    exact k.isIdentifier_append_iff tail
  case band =>
    intro kind h
    rw [SectionKind.keyword_of_ofKeyword? h]
    exact kind.isIdentifier_keyword
  case type =>
    intro t h
    rw [ValueType.keyword_of_ofKeyword? h]
    exact t.isIdentifier_keyword_iff

example : ["InvoiceLines", "_lines2", "reports", "texts", "string", "detail"].map readsBack =
      List.replicate 6 true ∧
    ["Invoice Lines", "Invoice-Lines", "2024Lines", "text", " Lines", ""].map readsBack =
      List.replicate 6 false := by
  constructor <;> decide +kernel

/-- A word that begins with a keyword, by itself and between comments. -/
theorem identifier_reads_as_itself_commented :
    readsBack "texts" = true ∧ tokens? "/**/texts//" = some [.identifier "texts"] ∧
      readsBack "/**/texts//" = false := by
  have hword : isIdentifier "texts" = true :=
    ((identifier_reads_as_itself "texts").extended .text "s" (by decide)).mpr
      ⟨List.all_eq_true.mp (by decide), by decide, by decide⟩
  have hbefore : Gap false "/**/".toList := .block .nil .nil
  have hline : '\n' ∉ [] := List.not_mem_nil
  have hafter : Gap true "//".toList := .line hline (.inr ⟨rfl, rfl⟩) .nil
  have hread : tokens? "/**/texts//" = some [.identifier "texts"] :=
    ((identifier_reads_as_itself "/**/texts//").surrounded "texts").mpr
      ⟨_, _, hbefore, hafter, by decide, hword⟩
  have halone := (identifier_reads_as_itself "/**/texts//").alone "/**/".toList "texts" "//".toList
    (by decide) hread
  rw [(identifier_reads_as_itself "/**/texts//").pulled] at halone
  exact ⟨(identifier_reads_as_itself "texts").pulled.mp hword, hread,
    Bool.eq_false_iff.mpr fun h => absurd (halone.mp h).1 (by decide)⟩

end ReportAssembly
