import ReportAssembly.Assembly.Source
import ReportAssembly.CommandLine.Arguments
import ReportAssembly.Design.Excerpt
import ReportAssembly.Design.Printer

namespace ReportAssembly.CommandLine

structure Outcome where
  code : Nat
  out : String
  err : String
  notes : List Note
  deriving DecidableEq, Repr

def usage : String :=
  String.join <| List.map (· ++ "\n") [
    "Compose report designs with their embedded sub-reports",
    "",
    "Usage: [OPTIONS] [INPUT]",
    "",
    "Options:",
    "  -t, --templates <DIR>  directory of the templates",
    "  -c, --config <FILE>    settings (TOML)",
    "      --nested           compose placeholders inside sub-templates too",
    "      --emit-design      print the bound master instead of a summary",
    "  -v, --verbose          log the composition",
    "  -h, --help             print this text"]

def failure (message : String) : Outcome :=
  ⟨1, "", message ++ "\n", []⟩

def settings (files : FileSystem) (a : Arguments) : Except SettingsError Settings := do
  let s ←
    match a.settings? with
    | some path => Settings.load files path
    | none => .ok .default
  return { s with
    templateDirectory? := a.templates? <|> s.templateDirectory?
    nested := a.nested || s.nested }

def source (files : FileSystem) (stdin : Content) (a : Arguments) :
    Except String (String × String) :=
  match a.input? with
  | some path =>
    match (files.node path).read with
    | .ok text => .ok (text, path)
    | .error fault => .error ("Error reading file '" ++ path ++ "': " ++ fault.message)
  | none =>
    match (Node.file stdin).read with
    | .ok text => .ok (text, "<stdin>")
    | .error fault => .error ("Error reading from stdin: " ++ fault.message)

def templateDirectory (s : Settings) (a : Arguments) : String :=
  s.templateDirectory?.getD ((a.input?.bind Path.parent?).getD ".")

def templates (files : FileSystem) (s : Settings) (a : Arguments) : TemplateDirectory :=
  ⟨templateDirectory s a, s.extension, files⟩

def summary (p : Package Report) : String :=
  let parameter (q : Parameter) := "  " ++ q.name ++ ": " ++ q.type.keyword ++ "\n"
  let binding (b : String × Report) :=
    "  " ++ Interpolation.parameterReference b.1 ++ " -> " ++ b.2.name ++ " (" ++
      toString b.2.sections.length ++ " sections)\n"
  "report " ++ p.report.name ++ "\nparameters:\n" ++
    String.join (p.report.parameters.map parameter) ++ "subreports:\n" ++
    String.join (p.bindings.map binding)

structure Job where
  settings : Settings
  master : Design
  deriving DecidableEq, Repr

def job (files : FileSystem) (stdin : Content) (a : Arguments) : Except Outcome Job :=
  match settings files a with
  | .error e =>
    .error (failure ("Error loading config '" ++ a.settings?.getD "" ++ "': " ++ e.message))
  | .ok s =>
    match source files stdin a with
    | .error message => .error (failure message)
    | .ok (text, name) =>
      match Design.parse text with
      | .error errors =>
        .error ⟨1, "", String.join (errors.map fun e => e.notice.render text name), []⟩
      | .ok master => .ok ⟨s, master⟩

def Job.composition (files : FileSystem) (a : Arguments) (j : Job) :
    Composition Report Report.CompileError :=
  (j.settings.composer (templates files j.settings a).toStore).compose j.master

def report (a : Arguments) (result : Composition Report Report.CompileError) : Outcome :=
  let notes := result.notes.filter (a.shows ·.level)
  match result.outcome with
  | .error e => { failure ("Error: " ++ e.message Report.CompileError.message) with notes }
  | .ok package =>
    ⟨0, if a.emitDesign then result.master.print else summary package, "", notes⟩

def runWith (files : FileSystem) (stdin : Content) (a : Arguments) : Outcome :=
  match job files stdin a with
  | .error outcome => outcome
  | .ok j => report a (j.composition files a)

def paths (files : FileSystem) (stdin : Content) (a : Arguments) : List String :=
  a.settings?.toList ++ a.input?.toList ++
    match job files stdin a with
    | .error _ => []
    | .ok j => (j.composition files a).lookedUp.filterMap (templates files j.settings a).path?

def run (args : List String) (files : FileSystem) (stdin : Content) : Outcome :=
  match Arguments.parse? args with
  | none => ⟨2, "", usage, []⟩
  | some .help => ⟨0, usage, "", []⟩
  | some (.run a) => runWith files stdin a

end ReportAssembly.CommandLine
