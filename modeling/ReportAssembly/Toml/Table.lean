import ReportAssembly.Toml.Document

namespace ReportAssembly.Toml

/-- How a table came about: by its header, as a part of the path of another header, or by dotted
keys. -/
inductive TableKind
  | header
  | implied
  | dotted
  deriving DecidableEq, Repr

inductive Item
  | value (v : Value)
  | table (kind : TableKind) (entries : List (String × Item))
  | rows (tables : List (List (String × Item)))
  deriving Repr

abbrev Items := List (String × Item)

namespace Items

def set (items : Items) (name : String) (item : Item) : Items :=
  if (items.lookup name).isSome then
    items.map fun entry => if entry.1 = name then (name, item) else entry
  else items ++ [(name, item)]

/-- Changes the table at a path by `f`, which is given the kind of the table, and makes the tables on
the way as needed. A path of dotted keys does not go through tables with a header. -/
def update {β : Type} (dotted : Bool) (f : TableKind → Items → Option (Items × β)) :
    List String → TableKind → Items → Option (Items × β)
  | [], kind, items => f kind items
  | name :: path, _, items =>
    match items.lookup name with
    | none => do
      let kind := if dotted then .dotted else .implied
      let (inner, result) ← update dotted f path kind []
      return (items ++ [(name, .table kind inner)], result)
    | some (.value _) => none
    | some (.table kind inner) =>
      if dotted && kind = .header then none
      else do
        let (inner, result) ← update dotted f path kind inner
        return (items.set name (.table kind inner), result)
    | some (.rows tables) => do
      let (last, result) ← update dotted f path .header (tables.getLast?.getD [])
      return (items.set name (.rows (tables.dropLast ++ [last])), result)

end Items

/-- A document being built up: the finished tables, the one in hand, and its path. The first table
has the empty path. -/
structure Builder where
  root : Items
  current : Items
  path : List String
  isRow : Bool
  deriving Repr

namespace Builder

def start : Builder :=
  ⟨[], [], [], false⟩

def atParent {β : Type} (root : Items) (path : List String)
    (f : String → Items → Option (Items × β)) : Option (Items × β) := do
  let name ← path.getLast?
  root.update false (fun _ => f name) path.dropLast .header

def close (b : Builder) : Option Items :=
  if b.path.isEmpty then some b.current
  else
    (atParent b.root b.path fun name items =>
      if b.isRow then
        match items.lookup name with
        | none => some (items ++ [(name, .rows [b.current])], ())
        | some (.rows tables) => some (items.set name (.rows (tables ++ [b.current])), ())
        | some _ => none
      else
        match items.lookup name with
        | none => some (items ++ [(name, .table .header b.current)], ())
        | some _ => none).map (·.1)

/-- The document after one more statement. A table that was only implied so far is taken up again by
its header. -/
def next (b : Builder) : Statement → Option Builder
  | .pair path v => do
    let name ← path.getLast?
    let keys := path.dropLast
    let (items, ()) ← b.current.update true
      (fun kind items =>
        if (kind == .dotted) == keys.isEmpty || (items.lookup name).isSome then none
        else some (items ++ [(name, .value v)], ()))
      keys .header
    return { b with current := items }
  | .header path => do
    let root ← b.close
    let (root, inner) ← atParent root path fun name items =>
      match items.lookup name with
      | none => some (items, [])
      | some (.table .implied inner) => some (items.filter (·.1 != name), inner)
      | some _ => none
    return ⟨root, inner, path, false⟩
  | .row path => do
    let root ← b.close
    let (root, ()) ← atParent root path fun name items =>
      match items.lookup name with
      | none => some (items ++ [(name, .rows [])], ())
      | some (.rows _) => some (items, ())
      | some _ => none
    return ⟨root, [], path, true⟩

end Builder

mutual

def Item.toValue : Item → Value
  | .value v => v
  | .table _ entries => .table false (toEntries entries)
  | .rows tables => .array (toTables tables)

def toEntries : List (String × Item) → Entries
  | [] => []
  | (name, item) :: rest => (name, item.toValue) :: toEntries rest

def toTables : List (List (String × Item)) → List Value
  | [] => []
  | entries :: rest => .table false (toEntries entries) :: toTables rest

end

def parse? (text : String) : Option Entries := do
  let statements ← Statement.ofText? text
  let builder ← statements.foldlM Builder.next Builder.start
  let root ← builder.close
  return toEntries root

end ReportAssembly.Toml
