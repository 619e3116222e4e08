import ReportAssembly.CommandLine.Program
import ReportAssembly.Files.Snapshot

namespace ReportAssembly

def probe (path : String) : IO Node := do
  if path.toList.contains '\x00' then return .absent .nulInPath
  if path.isEmpty then return .absent .notFound
  try
    return .file (.ofBytes (← IO.FS.readBinFile path))
  catch
    | .inappropriateType none .. => return .directory
    | .inappropriateType .. => return .absent .notDirectory
    | .invalidArgument .. => return .absent .nameTooLong
    | .permissionDenied .. => return .absent .denied
    | _ => return .absent .notFound

/-- The rest of a stream. -/
partial def readAll (stream : IO.FS.Stream) (found : ByteArray) : IO ByteArray := do
  let bytes ← stream.read 65536
  if bytes.isEmpty then return found
  readAll stream (found ++ bytes)

/-- A snapshot with all paths that the run looks at. What a path leads to may bring more paths. -/
partial def explore (stdin : Content) (a : CommandLine.Arguments) (known : Snapshot) :
    IO Snapshot := do
  let missing := (CommandLine.paths known.toFileSystem stdin a).filter fun path =>
    (known.lookup path).isNone
  if missing.isEmpty then return known
  let found ← missing.mapM fun path => return (path, ← probe path)
  explore stdin a (known ++ found)

def execute (args : List String) : IO CommandLine.Outcome := do
  match CommandLine.Arguments.parse? args with
  | some (.run a) =>
    let stdin ←
      if a.input?.isSome then pure (Content.text "")
      else Content.ofBytes <$> readAll (← IO.getStdin) .empty
    let files ← explore stdin a []
    return CommandLine.runWith files.toFileSystem stdin a
  | _ => return CommandLine.run args (Snapshot.toFileSystem []) (.text "")

end ReportAssembly

open ReportAssembly in
def main (args : List String) : IO UInt32 := do
  let outcome ← execute args
  for note in outcome.notes do
    IO.eprintln note.line
  IO.print outcome.out
  IO.eprint outcome.err
  return outcome.code.toUInt32
