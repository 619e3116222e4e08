/-!
The lexical forms of TOML: blanks, comments, strings and keys. A reader takes characters from the
front and returns what it has read with the rest, or nothing if the form is not there. `fuel` is a
bound on the number of characters.
-/

namespace ReportAssembly.Toml

def isSpace (c : Char) : Bool :=
  c == ' ' || c == '\t'

def skipSpaces (cs : List Char) : List Char :=
  cs.dropWhile isSpace

def isCommentChar (c : Char) : Bool :=
  c == '\t' || (0x20 ≤ c.toNat && c.toNat != 0x7F)

def newline? : List Char → Option (List Char)
  | '\n' :: cs => some cs
  | '\r' :: '\n' :: cs => some cs
  | _ => none

def skipComment : List Char → List Char
  | '#' :: cs => cs.dropWhile isCommentChar
  | cs => cs

def lineEnd? (cs : List Char) : Option (List Char) :=
  match skipComment (skipSpaces cs) with
  | [] => some []
  | rest => newline? rest

def skipLayout : Nat → List Char → List Char
  | 0, cs => cs
  | fuel + 1, cs =>
    let rest := skipComment (skipSpaces cs)
    match newline? rest with
    | some rest => skipLayout fuel rest
    | none => rest

def isBasicChar (c : Char) : Bool :=
  isCommentChar c && c != '"' && c != '\\'

def isLiteralChar (c : Char) : Bool :=
  isCommentChar c && c != '\''

def hexDigit? (c : Char) : Option Nat :=
  if c.isDigit then some (c.toNat - '0'.toNat)
  else if 'a' ≤ c && c ≤ 'f' then some (c.toNat - 'a'.toNat + 10)
  else if 'A' ≤ c && c ≤ 'F' then some (c.toNat - 'A'.toNat + 10)
  else none

def hexNumber? : Nat → Nat → List Char → Option (Nat × List Char)
  | 0, acc, cs => some (acc, cs)
  | n + 1, acc, c :: cs => do
    let d ← hexDigit? c
    hexNumber? n (acc * 16 + d) cs
  | _ + 1, _, [] => none

def hexChar? (n : Nat) (cs : List Char) : Option (Char × List Char) := do
  let (code, rest) ← hexNumber? n 0 cs
  if code.isValidChar then some (Char.ofNat code, rest) else none

def escape? : List Char → Option (Char × List Char)
  | 'b' :: cs => some ('\x08', cs)
  | 't' :: cs => some ('\t', cs)
  | 'n' :: cs => some ('\n', cs)
  | 'f' :: cs => some ('\x0c', cs)
  | 'r' :: cs => some ('\r', cs)
  | '"' :: cs => some ('"', cs)
  | '\\' :: cs => some ('\\', cs)
  | 'u' :: cs => hexChar? 4 cs
  | 'U' :: cs => hexChar? 8 cs
  | _ => none

def consRead (c : Char) (r : Option (List Char × List Char)) : Option (List Char × List Char) :=
  r.map fun (text, rest) => (c :: text, rest)

def basicString? : Nat → List Char → Option (List Char × List Char)
  | 0, _ => none
  | _ + 1, [] => none
  | fuel + 1, c :: cs =>
    if c = '"' then some ([], cs)
    else if c = '\\' then do
      let (e, rest) ← escape? cs
      consRead e (basicString? fuel rest)
    else if isBasicChar c then consRead c (basicString? fuel cs)
    else none

def literalString? (cs : List Char) : Option (List Char × List Char) :=
  match cs.dropWhile isLiteralChar with
  | '\'' :: rest => some (cs.takeWhile isLiteralChar, rest)
  | _ => none

/-- The end of a string of several lines: three quotes, with at most two more that belong to the
string. -/
def longEnd? (quote : Char) (cs : List Char) : Option (List Char × List Char) :=
  let run := (cs.takeWhile (· == quote)).length
  if run < 3 then none
  else
    let inside := min (run - 3) 2
    some (List.replicate inside quote, cs.drop (inside + 3))

def lineContinuation? (fuel : Nat) (cs : List Char) : Option (List Char) := do
  let rest ← newline? (skipSpaces cs)
  let rec skip : Nat → List Char → List Char
    | 0, cs => cs
    | fuel + 1, cs =>
      match newline? (skipSpaces cs) with
      | some rest => skip fuel rest
      | none => skipSpaces cs
  return skip fuel rest

def longBasicString? : Nat → List Char → Option (List Char × List Char)
  | 0, _ => none
  | _ + 1, [] => none
  | fuel + 1, c :: cs =>
    match longEnd? '"' (c :: cs) with
    | some found => some found
    | none =>
      match newline? (c :: cs) with
      | some rest => consRead '\n' (longBasicString? fuel rest)
      | none =>
        if c = '\\' then
          match lineContinuation? fuel cs with
          | some rest => longBasicString? fuel rest
          | none => do
            let (e, rest) ← escape? cs
            consRead e (longBasicString? fuel rest)
        else if c = '"' || isBasicChar c then consRead c (longBasicString? fuel cs)
        else none

def longLiteralString? : Nat → List Char → Option (List Char × List Char)
  | 0, _ => none
  | _ + 1, [] => none
  | fuel + 1, c :: cs =>
    match longEnd? '\'' (c :: cs) with
    | some found => some found
    | none =>
      match newline? (c :: cs) with
      | some rest => consRead '\n' (longLiteralString? fuel rest)
      | none =>
        if c = '\'' || isLiteralChar c then consRead c (longLiteralString? fuel cs) else none

def skipNewline (cs : List Char) : List Char :=
  (newline? cs).getD cs

def string? (fuel : Nat) (cs : List Char) : Option (String × List Char) :=
  let found :=
    match cs with
    | '"' :: '"' :: '"' :: cs => longBasicString? fuel (skipNewline cs)
    | '"' :: cs => basicString? fuel cs
    | '\'' :: '\'' :: '\'' :: cs => longLiteralString? fuel (skipNewline cs)
    | '\'' :: cs => literalString? cs
    | _ => none
  found.map fun (text, rest) => (.ofList text, rest)

def isBareKeyChar (c : Char) : Bool :=
  c.isAlphanum || c == '_' || c == '-'

def keyPart? (fuel : Nat) (cs : List Char) : Option (String × List Char) :=
  let found :=
    match cs with
    | '"' :: cs => basicString? fuel cs
    | '\'' :: cs => literalString? cs
    | _ =>
      let bare := cs.takeWhile isBareKeyChar
      if bare.isEmpty then none else some (bare, cs.dropWhile isBareKeyChar)
  found.map fun (text, rest) => (.ofList text, rest)

def keyParts? : Nat → List Char → Option (List String × List Char)
  | 0, _ => none
  | fuel + 1, cs => do
    let (part, rest) ← keyPart? fuel (skipSpaces cs)
    match skipSpaces rest with
    | '.' :: rest =>
      let (parts, rest) ← keyParts? fuel rest
      some (part :: parts, rest)
    | rest => some ([part], rest)

def depthLimit : Nat :=
  80

def key? (fuel : Nat) (cs : List Char) : Option (List String × List Char) := do
  let (parts, rest) ← keyParts? fuel cs
  if parts.length < depthLimit then some (parts, rest) else none

end ReportAssembly.Toml
