import ReportAssembly.Text.Blank
import ReportAssembly.Text.Span

/-!
Expression text as a sequence of chunks: literal text, `$P{name}` for a parameter, `$F{path}` for a
field. What is no reference is carried through as text.
-/

namespace ReportAssembly

inductive ReferenceKind
  | parameter
  | field
  deriving DecidableEq, Repr

namespace ReferenceKind

def describe : ReferenceKind → String
  | parameter => "parameter"
  | field => "field"

def opener : ReferenceKind → List Char
  | parameter => ['$', 'P', '{']
  | field => ['$', 'F', '{']

end ReferenceKind

inductive Chunk
  | text (content : String)
  | reference (kind : ReferenceKind) (name : String)
  deriving DecidableEq, Repr

namespace Chunk

def isBlank : Chunk → Bool
  | text content => Text.allBlank content
  | reference .. => false

def render : Chunk → List Char
  | text content => content.toList
  | reference kind name => kind.opener ++ name.toList ++ ['}']

end Chunk

/-- Why a text is no sequence of chunks. The offset is that of the reference at fault. -/
inductive ReferenceError
  /-- The closing brace is missing. -/
  | unterminated (kind : ReferenceKind) (offset : Nat)
  /-- Nothing stands between the braces. -/
  | empty (kind : ReferenceKind) (offset : Nat)
  deriving DecidableEq, Repr

namespace ReferenceError

def message : ReferenceError → String
  | unterminated kind offset =>
    "unterminated " ++ kind.describe ++ " reference at offset " ++ toString offset
  | empty kind offset => "empty " ++ kind.describe ++ " reference at offset " ++ toString offset

def offset : ReferenceError → Nat
  | unterminated _ offset => offset
  | empty _ offset => offset

end ReferenceError

abbrev Interpolation := List Chunk

namespace Interpolation

def consChar (c : Char) : Interpolation → Interpolation
  | .text content :: chunks => .text (.ofList (c :: content.toList)) :: chunks
  | chunks => .text (.ofList [c]) :: chunks

/-- Where a reader stands: in literal text, or in a reference that began at `offset`, with the
characters of its name read so far, last first. -/
inductive Mode
  | literal
  | inside (kind : ReferenceKind) (offset : Nat) (name : List Char)
  deriving DecidableEq, Repr

def read : Mode → Nat → List Char → Except ReferenceError Interpolation
  | .literal, _, [] => .ok []
  | .literal, pos, '$' :: 'P' :: '{' :: cs => read (.inside .parameter pos []) (pos + 3) cs
  | .literal, pos, '$' :: 'F' :: '{' :: cs => read (.inside .field pos []) (pos + 3) cs
  | .literal, pos, c :: cs => (read .literal (pos + c.utf8Size) cs).map (consChar c)
  | .inside kind offset _, _, [] => .error (.unterminated kind offset)
  | .inside kind offset name, pos, c :: cs =>
    if c = '}' then
      let trimmed := Text.trimChars name.reverse
      if trimmed.isEmpty then .error (.empty kind offset)
      else (read .literal (pos + 1) cs).map (.reference kind (.ofList trimmed) :: ·)
    else read (.inside kind offset (c :: name)) (pos + c.utf8Size) cs

def parse (text : String) : Except ReferenceError Interpolation :=
  read .literal 0 text.toList

def render (chunks : Interpolation) : String :=
  .ofList (chunks.flatMap Chunk.render)

def meaningful (chunks : Interpolation) : List Chunk :=
  chunks.filter (!·.isBlank)

def asReference? (kind : ReferenceKind) (chunks : Interpolation) : Option String :=
  match chunks.meaningful with
  | [.reference k name] => if k = kind then some name else none
  | _ => none

def references (kind : ReferenceKind) (chunks : Interpolation) : List String :=
  chunks.filterMap fun
    | .reference k name => if k = kind then some name else none
    | .text _ => none

def parameterReference (name : String) : String :=
  "$P\x7b" ++ name ++ "\x7d"

end Interpolation

end ReportAssembly
