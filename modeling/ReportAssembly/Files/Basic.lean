import ReportAssembly.Files.Path

namespace ReportAssembly

inductive FileFault
  | notFound
  | notDirectory
  | isDirectory
  | nameTooLong
  | nulInPath
  | denied
  | notText
  deriving DecidableEq, Repr

def FileFault.message : FileFault → String
  | notFound => "No such file or directory (os error 2)"
  | notDirectory => "Not a directory (os error 20)"
  | isDirectory => "Is a directory (os error 21)"
  | nameTooLong => "File name too long (os error 36)"
  | nulInPath => "file name contained an unexpected NUL byte"
  | denied => "Permission denied (os error 13)"
  | notText => "stream did not contain valid UTF-8"

inductive Content
  | text (s : String)
  | binary
  deriving DecidableEq, Repr

def Content.ofBytes (bytes : ByteArray) : Content :=
  match String.fromUTF8? bytes with
  | some s => .text s
  | none => .binary

inductive Node
  | absent (fault : FileFault)
  | directory
  | file (content : Content)
  deriving DecidableEq, Repr

def Node.isFile : Node → Bool
  | file _ => true
  | _ => false

def Node.read : Node → Except FileFault String
  | absent fault => .error fault
  | directory => .error .isDirectory
  | file (.text s) => .ok s
  | file .binary => .error .notText

/-- The files around a program: what each path leads to, and finitely many names that make up every
path to a file, the parts `.`, `..` and the empty part apart. -/
structure FileSystem where
  node : String → Node
  names : List String
  mem_names : ∀ {path part : String}, (node path).isFile = true → part ∈ Path.split path →
    part ≠ "" → part ≠ "." → part ≠ ".." → part ∈ names

end ReportAssembly
