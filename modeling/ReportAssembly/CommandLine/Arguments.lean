import ReportAssembly.Note

namespace ReportAssembly.CommandLine

structure Arguments where
  input? : Option String
  templates? : Option String
  settings? : Option String
  nested : Bool
  emitDesign : Bool
  verbose : Bool
  deriving DecidableEq, Repr

inductive Request
  | run (arguments : Arguments)
  | help
  deriving DecidableEq, Repr

namespace Arguments

def none : Arguments :=
  ⟨.none, .none, .none, false, false, false⟩

def shows (a : Arguments) : Level → Bool
  | .warn => true
  | _ => a.verbose

inductive Valued
  | templates
  | settings
  deriving DecidableEq, Repr

inductive Flag
  | nested
  | emitDesign
  | verbose
  | help
  deriving DecidableEq, Repr

def ofLong? (name : String) : Option (Valued ⊕ Flag) :=
  [("templates", .inl .templates), ("config", .inl .settings), ("nested", .inr .nested),
    ("emit-design", .inr .emitDesign), ("verbose", .inr .verbose), ("help", .inr .help)].lookup name

def ofShort? (c : Char) : Option (Valued ⊕ Flag) :=
  [('t', .inl .templates), ('c', .inl .settings), ('v', .inr .verbose),
    ('h', .inr .help)].lookup c

def put? (place : Option String) (text : String) : Option (Option String) :=
  if text.isEmpty || place.isSome then .none else some (some text)

def setValue? (a : Arguments) (text : String) : Valued → Option Arguments
  | .templates => (put? a.templates? text).map fun value => { a with templates? := value }
  | .settings => (put? a.settings? text).map fun value => { a with settings? := value }

def setInput? (a : Arguments) (text : String) : Option Arguments :=
  (put? a.input? text).map fun value => { a with input? := value }

def setFlag? (a : Arguments) : Flag → Option (Arguments ⊕ Unit)
  | .nested => if a.nested then .none else some (.inl { a with nested := true })
  | .emitDesign => if a.emitDesign then .none else some (.inl { a with emitDesign := true })
  | .verbose => if a.verbose then .none else some (.inl { a with verbose := true })
  | .help => some (.inr ())

/-- What the reading of one argument leaves: the arguments so far, with an option that still needs
its value; or the wish for help. -/
inductive Reading
  | more (a : Arguments) (pending : Option Valued)
  | help
  deriving DecidableEq, Repr

def readShort? (a : Arguments) : List Char → Option Reading
  | [] => some (.more a .none)
  | c :: cs => do
    match ← ofShort? c with
    | .inl option =>
      if cs.isEmpty then return .more a (some option)
      let text := if cs.head? = some '=' then cs.tail else cs
      return .more (← a.setValue? (.ofList text) option) .none
    | .inr flag =>
      match ← a.setFlag? flag with
      | .inl a => readShort? a cs
      | .inr () => return .help

def readLong? (a : Arguments) (cs : List Char) : Option Reading := do
  let name := cs.takeWhile (· != '=')
  let value := cs.dropWhile (· != '=')
  match ← ofLong? (.ofList name) with
  | .inl option =>
    if value.isEmpty then return .more a (some option)
    return .more (← a.setValue? (.ofList value.tail) option) .none
  | .inr flag =>
    if !value.isEmpty then .none
    match ← a.setFlag? flag with
    | .inl a => return .more a .none
    | .inr () => return .help

def isOption (cs : List Char) : Bool :=
  cs.head? = some '-' && cs != ['-']

def readInputs? (a : Arguments) : List String → Option Request
  | [] => some (.run a)
  | text :: rest => do readInputs? (← a.setInput? text) rest

def read? (a : Arguments) (pending : Option Valued) : List String → Option Request
  | [] => if pending.isSome then .none else some (.run a)
  | text :: rest =>
    match pending with
    | some option =>
      if isOption text.toList then .none
      else do read? (← a.setValue? text option) .none rest
    | .none =>
      if !isOption text.toList then do read? (← a.setInput? text) .none rest
      else if text = "--" then readInputs? a rest
      else do
        let reading ←
          match text.toList with
          | '-' :: '-' :: cs => a.readLong? cs
          | cs => a.readShort? cs.tail
        match reading with
        | .more a pending => read? a pending rest
        | .help => some .help

def parse? (args : List String) : Option Request :=
  read? none .none args

end Arguments

end ReportAssembly.CommandLine
