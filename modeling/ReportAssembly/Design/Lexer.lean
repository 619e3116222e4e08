import ReportAssembly.Design.SyntaxError
import ReportAssembly.Text.Quoted

namespace ReportAssembly

inductive Lexeme
  | token (t : Token)
  | layout
  | unreadable
  deriving DecidableEq, Repr

/-- How far a delimited form goes: whether its end is found, and the number of characters up to
there or, failing that, up to the first character that no such form can have. -/
structure Reach where
  closed : Bool
  length : Nat
  deriving DecidableEq, Repr

namespace Reach

def after (n : Nat) (r : Reach) : Reach :=
  { r with length := n + r.length }

/-- The rest of a string, its opening quote read. A backslash takes the next character with it,
unless that is a line feed. -/
def string : List Char → Reach
  | [] => ⟨false, 0⟩
  | '"' :: _ => ⟨true, 1⟩
  | ['\\'] => ⟨false, 0⟩
  | '\\' :: c :: cs => if c = '\n' then ⟨false, 0⟩ else (string cs).after 2
  | _ :: cs => (string cs).after 1

def expression : List Char → Reach
  | [] => ⟨false, 0⟩
  | '`' :: _ => ⟨true, 1⟩
  | _ :: cs => (expression cs).after 1

/-- The rest of a block comment, its opening read. A star that does not close the comment takes the
next character with it. -/
def comment : List Char → Reach
  | [] => ⟨false, 0⟩
  | ['*'] => ⟨false, 0⟩
  | '*' :: c :: cs => if c = '/' then ⟨true, 2⟩ else (comment cs).after 2
  | _ :: cs => (comment cs).after 1

def lexeme (r : Reach) (found : Lexeme) : Lexeme :=
  if r.closed then found else .unreadable

end Reach

def isSpacing (c : Char) : Bool :=
  c == ' ' || c == '\t' || c == '\n' || c == '\r'

/-- The piece that begins with `c`: what it is, and how many of the characters after `c` belong
to it. -/
def Lexeme.scan (c : Char) (cs : List Char) : Lexeme × Nat :=
  if isSpacing c then (.layout, 0)
  else if isWordStart c then
    let tail := cs.takeWhile isWordPart
    (.token (.ofWord (.ofList (c :: tail))), tail.length)
  else match c with
    | '{' => (.token .braceOpen, 0)
    | '}' => (.token .braceClose, 0)
    | ':' => (.token .colon, 0)
    | '"' =>
      let r := Reach.string cs
      let body := cs.take (r.length - 1)
      (r.lexeme (.token (.string (.ofList (Text.Quoted.decode body)))), r.length)
    | '`' =>
      let r := Reach.expression cs
      (r.lexeme (.token (.expression (.ofList (cs.take (r.length - 1))))), r.length)
    | '/' =>
      match cs with
      | '/' :: line => (.layout, 1 + (line.takeWhile (· != '\n')).length)
      | '*' :: body =>
        let r := Reach.comment body
        (r.lexeme .layout, 1 + r.length)
      | _ => (.unreadable, 0)
    | _ => (.unreadable, 0)

structure Piece where
  lexeme : Lexeme
  text : List Char
  deriving DecidableEq, Repr

namespace Piece

def split : List Char → List Piece
  | [] => []
  | c :: cs =>
    let found := Lexeme.scan c cs
    ⟨found.1, c :: cs.take found.2⟩ :: split (cs.drop found.2)
termination_by cs => cs.length
decreasing_by
  simp only [List.length_drop, List.length_cons]
  omega

def place (start : Nat) : List Piece → List (Located Piece)
  | [] => []
  | p :: ps =>
    let stop := start + byteLength p.text
    ⟨p, ⟨start, stop⟩⟩ :: place stop ps

def token? (p : Located Piece) : Option (Located Token) :=
  match p.value.lexeme with
  | .token t => some ⟨t, p.span⟩
  | _ => none

def error? (p : Located Piece) : Option SyntaxError :=
  match p.value.lexeme with
  | .unreadable => some ⟨p.span, .unreadable (.ofList p.value.text), []⟩
  | _ => none

def next? : List Char → Option (Piece × List Char)
  | [] => none
  | c :: cs =>
    let found := Lexeme.scan c cs
    let rest := cs.drop found.2
    if found.1 = .layout then next? rest else some (⟨found.1, c :: cs.take found.2⟩, rest)
termination_by cs => cs.length
decreasing_by
  simp only [List.length_drop, List.length_cons]
  omega

end Piece

def lex (source : String) : Except (List SyntaxError) (List (Located Token)) :=
  let pieces := Piece.place 0 (Piece.split source.toList)
  let errors := pieces.filterMap Piece.error?
  if errors.isEmpty then .ok (pieces.filterMap Piece.token?) else .error errors

/-- Whether the first item of a text is the identifier of the text, and there is no second. -/
def readsBack (s : String) : Bool :=
  match Piece.next? s.toList with
  | some (p, rest) => p.lexeme = .token (.identifier s) && (Piece.next? rest).isNone
  | none => false

theorem isSpacing_eq_false_of_isWordStart {c : Char} (h : isWordStart c = true) :
    isSpacing c = false := by
  rw [Bool.eq_false_iff]
  intro hspacing
  simp only [isSpacing, Bool.or_eq_true, beq_iff_eq] at hspacing
  rcases hspacing with ((rfl | rfl) | rfl) | rfl <;> exact absurd h (by decide)

/-- A word is read to its end, as a keyword or an identifier. -/
theorem Lexeme.scan_word {c : Char} (h : isWordStart c = true) (cs : List Char) :
    scan c cs = (.token (.ofWord (.ofList (c :: cs.takeWhile isWordPart))),
      (cs.takeWhile isWordPart).length) := by
  unfold scan
  rw [isSpacing_eq_false_of_isWordStart h, if_neg Bool.false_ne_true, if_pos h]

/-- What is read as an identifier begins like a word. -/
theorem Lexeme.isWordStart_of_scan {c : Char} {cs : List Char} {n : String}
    (h : (scan c cs).1 = .token (.identifier n)) : isWordStart c = true := by
  have hclosed {r : Reach} {found : Lexeme} (hr : r.lexeme found = .token (.identifier n)) :
      found = .token (.identifier n) := by
    rw [Reach.lexeme] at hr
    split at hr
    · exact hr
    · exact nomatch hr
  unfold scan at h
  split at h
  · exact nomatch h
  · split at h
    · assumption
    · split at h
      · exact nomatch h
      · exact nomatch h
      · exact nomatch h
      · exact nomatch hclosed h
      · exact nomatch hclosed h
      · split at h
        · exact nomatch h
        · exact nomatch hclosed h
        · exact nomatch h
      · exact nomatch h

/-- A word is read as an identifier exactly if it is no keyword. -/
theorem Token.ofWord_eq_identifier_iff {w n : String} :
    ofWord w = identifier n ↔ w = n ∧ Keyword.ofWord? n = none := by
  rw [ofWord]
  cases hw : Keyword.ofWord? w with
  | some k =>
    refine ⟨fun h => (nomatch h), ?_⟩
    rintro ⟨rfl, hn⟩
    exact nomatch hw.symm.trans hn
  | none =>
    rw [Token.identifier.injEq]
    exact ⟨fun h => ⟨h, h ▸ hw⟩, And.left⟩

/-- Only an identifier is scanned as one. -/
theorem isIdentifier_of_scan {c : Char} {cs : List Char} {n : String}
    (h : (Lexeme.scan c cs).1 = .token (.identifier n)) : isIdentifier n = true := by
  have hc := Lexeme.isWordStart_of_scan h
  rw [Lexeme.scan_word hc] at h
  obtain ⟨rfl, hword⟩ := Token.ofWord_eq_identifier_iff.mp (Lexeme.token.inj h)
  rw [isIdentifier, String.toList_ofList]
  dsimp only
  rw [hc, hword, List.all_takeWhile]
  rfl

/-- The identifier that is handed out first is an identifier. -/
theorem isIdentifier_of_next? {cs rest : List Char} {p : Piece} {n : String}
    (h : Piece.next? cs = some (p, rest)) (hp : p.lexeme = .token (.identifier n)) :
    isIdentifier n = true := by
  fun_induction Piece.next? cs with
  | case1 => exact nomatch h
  | case2 _ _ _ _ _ ih => exact ih h
  | case3 c cs found rest' _ =>
    obtain ⟨rfl, rfl⟩ := Prod.mk.inj (Option.some.inj h)
    exact isIdentifier_of_scan hp

/-- A text reads back if and only if it is an identifier. -/
theorem readsBack_eq_isIdentifier (s : String) : readsBack s = isIdentifier s := by
  rw [Bool.eq_iff_iff]
  constructor
  · intro h
    unfold readsBack at h
    split at h
    · next p rest hnext =>
      rw [Bool.and_eq_true, decide_eq_true_eq] at h
      exact isIdentifier_of_next? hnext h.1
    · exact nomatch h
  · intro h
    unfold isIdentifier at h
    split at h
    · exact nomatch h
    · next c cs hs =>
      simp only [Bool.and_eq_true, Option.isNone_iff_eq_none] at h
      obtain ⟨⟨hc, hcs⟩, hword⟩ := h
      have htail : cs.takeWhile isWordPart = cs := by
        have hall : (cs ++ []).takeWhile isWordPart = cs ++ [].takeWhile isWordPart :=
          List.takeWhile_append_of_pos (List.all_eq_true.mp hcs)
        rwa [List.append_nil, List.takeWhile_nil, List.append_nil] at hall
      have htoken : Token.ofWord s = .identifier s := by rw [Token.ofWord, hword]
      have hscan : Lexeme.scan c cs = (.token (.identifier s), cs.length) := by
        rw [Lexeme.scan_word hc, htail, ← hs, String.ofList_toList, htoken]
      have hnext : Piece.next? s.toList = some (⟨.token (.identifier s), c :: cs⟩, []) := by
        rw [hs, Piece.next?, hscan]
        simp
      have hend : Piece.next? [] = none := by rw [Piece.next?.eq_def]
      simp [readsBack, hnext, hend]

end ReportAssembly
