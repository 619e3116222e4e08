import ReportAssembly.Toml.Number

namespace ReportAssembly.Toml

abbrev Entries := List (String × Value)

/-- The entries with a value at the end of a dotted key. A key is not set twice, and a table that
was not written with dotted keys is not added to. -/
def insertDotted (value : Value) : List String → Entries → Option Entries
  | [], _ => none
  | [key], entries =>
    match entries.lookup key with
    | none => some (entries ++ [(key, value)])
    | some _ => none
  | key :: keys, entries =>
    match entries.lookup key with
    | none => do
      let inner ← insertDotted value keys []
      some (entries ++ [(key, .table true inner)])
    | some (.table true inner) => do
      let inner ← insertDotted value keys inner
      some (entries.map fun entry => if entry.1 = key then (key, .table true inner) else entry)
    | some _ => none

mutual

def value? : Nat → Nat → List Char → Option (Value × List Char)
  | 0, _, _ => none
  | fuel + 1, depth, cs =>
    match cs with
    | '[' :: cs => if depth + 1 < depthLimit then
        (items? fuel (depth + 1) [] cs).map fun (items, rest) => (.array items, rest)
      else none
    | '{' :: cs => if depth + 1 < depthLimit then
        match skipSpaces cs with
        | '}' :: rest => some (.table false [], rest)
        | cs => (pairs? fuel (depth + 1) [] cs).map fun (entries, rest) =>
            (.table false entries, rest)
      else none
    | 't' :: 'r' :: 'u' :: 'e' :: rest => some (.boolean true, rest)
    | 'f' :: 'a' :: 'l' :: 's' :: 'e' :: rest => some (.boolean false, rest)
    | c :: _ =>
      if c = '"' || c = '\'' then
        (string? fuel cs).map fun (s, rest) => (.string s, rest)
      else (dateTime? cs).orElse fun _ => number? cs
    | [] => none

def items? : Nat → Nat → List Value → List Char → Option (List Value × List Char)
  | 0, _, _, _ => none
  | fuel + 1, depth, items, cs =>
    match skipLayout fuel cs with
    | ']' :: rest => some (items, rest)
    | cs => do
      let (item, rest) ← value? fuel depth cs
      match skipLayout fuel rest with
      | ',' :: rest => items? fuel depth (items ++ [item]) rest
      | ']' :: rest => some (items ++ [item], rest)
      | _ => none

def pairs? : Nat → Nat → Entries → List Char → Option (Entries × List Char)
  | 0, _, _, _ => none
  | fuel + 1, depth, entries, cs => do
    let (key, rest) ← key? fuel cs
    let rest ← char? '=' rest
    let (value, rest) ← value? fuel depth (skipSpaces rest)
    let entries ← insertDotted value key entries
    match skipSpaces rest with
    | ',' :: rest => pairs? fuel depth entries rest
    | '}' :: rest => some (entries, rest)
    | _ => none

end

inductive Statement
  /-- The beginning of a table. -/
  | header (path : List String)
  /-- The beginning of one more table of an array. -/
  | row (path : List String)
  | pair (path : List String) (value : Value)
  deriving Repr

def statement? (fuel : Nat) (cs : List Char) : Option (Statement × List Char) := do
  let (statement, rest) ←
    match cs with
    | '[' :: '[' :: cs => do
      let (path, rest) ← key? fuel cs
      let rest ← char? ']' rest >>= char? ']'
      pure (.row path, rest)
    | '[' :: cs => do
      let (path, rest) ← key? fuel cs
      let rest ← char? ']' rest
      pure (.header path, rest)
    | _ => do
      let (path, rest) ← key? fuel cs
      let rest ← char? '=' rest
      let (value, rest) ← value? fuel 0 (skipSpaces rest)
      pure (Statement.pair path value, rest)
  let rest ← lineEnd? rest
  return (statement, rest)

def statements? : Nat → List Char → Option (List Statement)
  | 0, _ => none
  | fuel + 1, cs =>
    match skipLayout fuel cs with
    | [] => some []
    | cs => do
      let (statement, rest) ← statement? fuel cs
      let others ← statements? fuel rest
      return statement :: others

def skipMark : List Char → List Char
  | '\ufeff' :: cs => cs
  | cs => cs

def Statement.ofText? (text : String) : Option (List Statement) :=
  let cs := skipMark text.toList
  statements? (2 * cs.length + 2) cs

end ReportAssembly.Toml
