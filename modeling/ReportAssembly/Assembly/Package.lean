import ReportAssembly.Fill.Value
import ReportAssembly.Note

namespace ReportAssembly

/-- A compiled master with the compiled sub-reports by name, in the order of their compilation. -/
structure Package (α : Type) where
  report : α
  bindings : List (String × α)
  deriving DecidableEq, Repr

namespace Package

variable {α : Type}

def names (p : Package α) : List String :=
  p.bindings.map (·.1)

def subreports (p : Package α) : List α :=
  p.bindings.map (·.2)

def binding? (p : Package α) (name : String) : Option α :=
  p.bindings.lookup name

def position? (p : Package α) (name : String) : Option Nat :=
  p.names.findIdx? (· == name)

/-- What the master is filled with: the values of the caller, but for every sub-report its name. -/
def parameters (p : Package α) (extra : Values α) : Values α :=
  p.bindings.foldl (fun vs (name, artifact) => vs.set name (.report artifact)) extra

def shadowNotes (p : Package α) (extra : Values α) : List Note :=
  (p.names.filter fun name => (extra.get? name).isSome).map .valueShadowed

end Package

end ReportAssembly
