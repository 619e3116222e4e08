import ReportAssembly.Design.SyntaxError
import ReportAssembly.Text.Blank
import ReportAssembly.Text.CellWidth

/-!
Errors shown with the source around them. The stretch of an error is laid over the source by
counting characters, its line is printed with its number, and the message hangs below its middle.
A stretch of several lines is bracketed on the left.
-/

namespace ReportAssembly

structure SourceLine where
  offset : Nat
  text : List Char
  deriving DecidableEq, Repr

namespace SourceLine

def stop (l : SourceLine) : Nat :=
  l.offset + l.text.length

def contains (l : SourceLine) (offset : Nat) : Bool :=
  l.offset ≤ offset && offset < l.stop

def shown (l : SourceLine) : List Char :=
  Text.trimRight l.text

/-- Whether a character ends a line; a carriage return and a line feed together end one line. -/
def isTerminator (c : Char) : Bool :=
  let n := c.toNat
  (0x0A ≤ n && n ≤ 0x0D) || n == 0x85 || n == 0x2028 || n == 0x2029

def splitText : List Char → List (List Char)
  | [] => []
  | '\r' :: '\n' :: cs => ['\r', '\n'] :: splitText cs
  | c :: cs =>
    if isTerminator c then [c] :: splitText cs
    else
      match splitText cs with
      | [] => [[c]]
      | line :: lines => (c :: line) :: lines

def place (offset : Nat) : List (List Char) → List SourceLine
  | [] => []
  | text :: texts => ⟨offset, text⟩ :: place (offset + text.length) texts

def ofSource (source : List Char) : List SourceLine :=
  place 0 (splitText source)

def indexOf? (lines : List SourceLine) (offset : Nat) : Option Nat := do
  let last ← lines.getLast?
  guard (offset ≤ last.stop)
  return (lines.filter (·.offset ≤ offset)).length - 1

end SourceLine

/-- A stretch of source, in characters, with the lines from its first to its last. `first` is the
number of the first, counted from zero. -/
structure Excerpt where
  start : Nat
  stop : Nat
  first : Nat
  lines : List SourceLine
  deriving DecidableEq, Repr

inductive Paint
  | plain
  | marked
  | source
  | margin
  | faded
  deriving DecidableEq, Repr

def Paint.codes : Paint → String
  | plain => ""
  | marked => "31"
  | source => "38;5;249"
  | margin => "38;5;246"
  | faded => "38;5;240"

structure Cell where
  paint : Paint
  text : String
  deriving DecidableEq, Repr

def Cell.render (c : Cell) : String :=
  match c.paint with
  | .plain => c.text
  | paint => "\x1b[" ++ paint.codes ++ "m" ++ c.text ++ "\x1b[0m"

abbrev Row := List Cell

def Row.render (r : Row) : String :=
  String.join (r.map Cell.render) ++ "\n"

namespace Excerpt

/-- The excerpt for a stretch of source. There is none if the source is empty, or if the stretch is
turned around or goes further than one character past the end. -/
def ofSource? (source : List Char) (span : Span) : Option Excerpt := do
  let lines := SourceLine.ofSource source
  guard (span.start ≤ span.stop)
  let first ← SourceLine.indexOf? lines span.start
  let last ←
    if span.start < span.stop then SourceLine.indexOf? lines (span.stop - 1) else some first
  return ⟨span.start, span.stop, first, (lines.drop first).take (last + 1 - first)⟩

def line (x : Excerpt) : Nat :=
  x.first + 1

def column (x : Excerpt) : Nat :=
  x.start - (x.lines.head?.map (·.offset)).getD 0 + 1

def covers (x : Excerpt) (offset : Nat) : Bool :=
  x.start ≤ offset && offset < x.stop

def numberWidth (x : Excerpt) : Nat :=
  (toString (x.first + x.lines.length)).length

def repeated (n : Nat) (text : String) : String :=
  String.join (List.replicate n text)

def cells (n : Nat) (paint : Paint) (text : String) : Row :=
  List.replicate n ⟨paint, text⟩

def numberedRow (x : Excerpt) (index : Nat) (row : Row) : Row :=
  let number := toString (x.first + index + 1)
  ⟨.plain, " "⟩ :: ⟨.margin, repeated (x.numberWidth - number.length) " " ++ number ++ " │"⟩ ::
    ⟨.plain, " "⟩ :: row

def unnumberedRow (x : Excerpt) (bar : String) (row : Row) : Row :=
  ⟨.plain, " "⟩ :: ⟨.faded, repeated (x.numberWidth + 1) " " ++ bar⟩ :: ⟨.plain, " "⟩ :: row

/-- The cells between a character in a column and the next; a tab goes on to the next multiple of
four columns. -/
def shownWidth (c : Char) (column : Nat) : Nat :=
  if c = '\t' then (column / 4 + 1) * 4 - column
  else if Text.isBlank c then 1
  else Text.cellWidth c

def sourceCells (x : Excerpt) (l : SourceLine) : Row :=
  l.shown.zipIdx.flatMap fun (c, column) =>
    let paint := if x.covers (l.offset + column) then .marked else .source
    if Text.isBlank c then cells (shownWidth c column) paint " "
    else [⟨paint, String.singleton c⟩]

/-- The cells below the columns of a line up to `columns`: what `draw` gives for a column, then its
second text for the rest of a wide character. -/
def below (l : SourceLine) (columns : Nat) (draw : Nat → Paint × String × String) : Row :=
  (List.range columns).flatMap fun column =>
    let width := (l.shown[column]?.map (shownWidth · column)).getD 1
    let (paint, head, tail) := draw column
    cells (min width 1) paint head ++ cells (width - 1) paint tail

def singleLine (x : Excerpt) (l : SourceLine) (label : String) : List Row :=
  if l.stop < x.stop then [x.unnumberedRow "│" []]
  else
    let anchor := (x.start + x.stop) / 2 - l.offset
    let columns := x.stop - l.offset + 2
    let underline := below l columns fun column =>
      if column = anchor then
        if x.covers (l.offset + column) then (.marked, "┬", "─") else (.marked, "│", " ")
      else if x.covers (l.offset + column) then (.marked, "─", "─")
      else (.plain, " ", " ")
    let pointer := below l columns fun column =>
      if column = anchor then (.marked, "╰", "─")
      else if anchor < column then (.marked, "─", "─")
      else (.plain, " ", " ")
    [x.numberedRow 0 (x.sourceCells l), x.unnumberedRow "│" underline,
      x.unnumberedRow "│" (pointer ++ [⟨.plain, " " ++ label⟩])]

def lastLine (x : Excerpt) (index : Nat) (l : SourceLine) (label : String) : List Row :=
  let columns := l.text.length + 2
  let open_ := below l columns fun _ => (.plain, " ", " ")
  let closed := below l columns fun _ => (.marked, "─", "─")
  [x.numberedRow index (cells 1 .marked "├" ++ cells 1 .marked "─" ++ cells 1 .marked "▶" ++
      cells 1 .marked " " ++ x.sourceCells l),
    x.unnumberedRow "│" (cells 1 .marked "│" ++ cells 3 .plain " " ++ open_),
    x.unnumberedRow "│"
      (cells 1 .marked "╰" ++ cells 3 .marked "─" ++ closed ++ [⟨.plain, " " ++ label⟩])]

def severalLines (x : Excerpt) (label : String) : List Row :=
  x.lines.zipIdx.flatMap fun (l, index) =>
    if l.contains x.start then
      [x.numberedRow index (cells 1 .marked "╭" ++ cells 1 .marked "─" ++ cells 1 .marked "▶" ++
        cells 1 .marked " " ++ x.sourceCells l)]
    else if l.contains (x.stop - 1) then x.lastLine index l label
    else if index = 1 then
      [x.unnumberedRow "┆" (cells 1 .marked "┆" ++ cells 3 .plain " ")]
    else []

def body (x : Excerpt) (label : String) : List Row :=
  match x.lines with
  | [l] => x.singleLine l label
  | _ => x.severalLines label

def rows (x : Excerpt) (file label : String) : List Row :=
  let indent : Cell := ⟨.plain, repeated (x.numberWidth + 2) " "⟩
  let place := file ++ ":" ++ toString x.line ++ ":" ++ toString x.column
  [[indent, ⟨.margin, "╭"⟩, ⟨.margin, "─"⟩, ⟨.margin, "["⟩, ⟨.plain, place⟩, ⟨.margin, "]"⟩],
    [indent, ⟨.margin, "│"⟩]] ++ x.body label ++
    [[⟨.margin, repeated (x.numberWidth + 2) "─" ++ "╯"⟩]]

end Excerpt

def Notice.render (n : Notice) (source file : String) : String :=
  let head : Row := [⟨.marked, "Error:"⟩, ⟨.plain, " " ++ n.message⟩]
  let frame :=
    match Excerpt.ofSource? source.toList n.span with
    | some x => x.rows file n.label
    | none => []
  String.join ((head :: frame).map Row.render)

end ReportAssembly
