import ReportAssembly.Files.Basic
import ReportAssembly.Store.Directory
import ReportAssembly.Toml.Table

/-!
Settings of a composition, from a TOML document with two optional tables:

  [templates]
  directory = "templates"
  extension = "rdl"

  [composition]
  nested = true

Names other than these are refused. The first name or value at fault is reported.
-/

namespace ReportAssembly

structure Settings where
  templateDirectory? : Option String
  extension : String
  nested : Bool
  deriving DecidableEq, Repr

inductive SettingsError
  | unreadable (fault : FileFault)
  /-- The text is no TOML document. -/
  | malformed
  | unknownField (name : String) (expected : List String)
  | invalidType (found expected : String)
  /-- A table given as an array has too few items. -/
  | invalidLength (length : Nat) (expected : String)
  deriving DecidableEq, Repr

namespace Settings

def default : Settings :=
  ⟨none, TemplateDirectory.defaultExtension, false⟩

inductive Shape
  | path
  | text
  | flag
  deriving DecidableEq, Repr

namespace Shape

def describe : Shape → String
  | path => "path string"
  | text => "a string"
  | flag => "a boolean"

def admits : Shape → Toml.Value → Bool
  | path, .string _ => true
  | text, .string _ => true
  | flag, .boolean _ => true
  | _, _ => false

end Shape

structure Schema where
  name : String
  fields : List (String × Shape)
  deriving DecidableEq, Repr

namespace Schema

def templates : Schema :=
  ⟨"struct TomlTemplates", [("directory", .path), ("extension", .text)]⟩

def composition : Schema :=
  ⟨"struct TomlComposition", [("nested", .flag)]⟩

def checkField (name : String) (shape : Shape) (v : Toml.Value) :
    Except SettingsError (String × Toml.Value) :=
  if shape.admits v then .ok (name, v) else .error (.invalidType v.describe shape.describe)

def unknown (s : Schema) (name : String) : SettingsError :=
  .unknownField name (s.fields.map (·.1))

def checkItems (s : Schema) (items : List Toml.Value) :
    Except SettingsError (List (String × Toml.Value)) := do
  let found ← (s.fields.zip items).mapM fun ((name, shape), v) => checkField name shape v
  if items.length < s.fields.length then throw (.invalidLength items.length s.name)
  return found

/-- The fields that a value sets. A date counts as a table with a field of an internal name. -/
def check (s : Schema) : Toml.Value → Except SettingsError (List (String × Toml.Value))
  | .table _ entries =>
    entries.mapM fun (name, v) =>
      match s.fields.lookup name with
      | some shape => checkField name shape v
      | none => .error (s.unknown name)
  | .array items => s.checkItems items
  | .dateTime => .error (s.unknown "$__toml_private_datetime")
  | v => .error (.invalidType v.describe s.name)

end Schema

def schemas : List (String × Schema) :=
  [("templates", .templates), ("composition", .composition)]

def set (s : Settings) : String × Toml.Value → Settings
  | ("directory", .string path) => { s with templateDirectory? := some path }
  | ("extension", .string extension) => { s with extension }
  | ("nested", .boolean nested) => { s with nested }
  | _ => s

def parse (text : String) : Except SettingsError Settings :=
  match Toml.parse? text with
  | none => .error .malformed
  | some tables => do
    let found ← tables.mapM fun (name, v) =>
      match schemas.lookup name with
      | some schema => schema.check v
      | none => .error (.unknownField name (schemas.map (·.1)))
    return found.flatten.foldl set default

/-- The settings with a relative directory taken to be below the directory of the file at `path`. -/
def relativeTo (s : Settings) (path : String) : Settings :=
  match Path.parent? path with
  | none => s
  | some parent => { s with templateDirectory? := s.templateDirectory?.map (Path.join parent) }

def load (files : FileSystem) (path : String) : Except SettingsError Settings := do
  let text ← (files.node path).read.mapError .unreadable
  let settings ← parse text
  return settings.relativeTo path

end Settings

namespace SettingsError

def choice (names : List String) : String :=
  match names.map fun name => "`" ++ name ++ "`" with
  | [] => "there are no fields"
  | [one] => "expected " ++ one
  | [one, other] => "expected " ++ one ++ " or " ++ other
  | several => "expected one of " ++ String.intercalate ", " several

def detail : SettingsError → String
  | unreadable fault => fault.message
  | malformed => "malformed document"
  | unknownField name expected => "unknown field `" ++ name ++ "`, " ++ choice expected
  | invalidType found expected => "invalid type: " ++ found ++ ", expected " ++ expected
  | invalidLength length expected =>
    "invalid length " ++ toString length ++ ", expected " ++ expected

def message : SettingsError → String
  | unreadable fault => "Failed to read config file: " ++ fault.message
  | e => "Failed to parse config TOML: " ++ e.detail

end SettingsError

end ReportAssembly
