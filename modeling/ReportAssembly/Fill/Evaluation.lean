import ReportAssembly.Fill.Value
import ReportAssembly.Interpolation

namespace ReportAssembly

structure Environment (α : Type) where
  parameters : Values α
  fields : Values α
  deriving DecidableEq, Repr

def unquoted (cs : List Char) : List Char :=
  match cs with
  | '"' :: inner => if inner.getLast? = some '"' then inner.dropLast else cs
  | _ => cs

namespace Environment

variable {α : Type}

def lookup? (env : Environment α) : ReferenceKind → String → Option (Value α)
  | .parameter, name => env.parameters.get? name
  | .field, path => env.fields.get? path

def chunkText (env : Environment α) : Chunk → String
  | .text content => content
  | .reference kind name => ((env.lookup? kind name).map Value.display).getD ""

def chunksValue? (env : Environment α) (chunks : Interpolation) : Option (Value α) :=
  match chunks.meaningful with
  | [] => none
  | [.text content] => some (.text (.ofList (unquoted (Text.trimChars content.toList))))
  | [.reference kind name] => env.lookup? kind name
  | _ => some (.text (String.join (chunks.map env.chunkText)))

def value? (env : Environment α) (expression : String) : Option (Value α) :=
  match Interpolation.parse expression with
  | .ok chunks => env.chunksValue? chunks
  | .error _ => none

def formatted (env : Environment α) (expression : String) : String :=
  ((env.value? expression).map Value.display).getD ""

end Environment

end ReportAssembly
