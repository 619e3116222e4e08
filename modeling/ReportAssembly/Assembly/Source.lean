import ReportAssembly.Assembly.Run
import ReportAssembly.Report.Compiler
import ReportAssembly.Settings

namespace ReportAssembly

inductive SourceError
  | malformed (errors : List SyntaxError)
  | failed (cause : ComposeError Report.CompileError)
  deriving DecidableEq, Repr

def SourceError.message : SourceError → String
  | malformed errors => "parse errors: " ++ displayAll errors
  | failed cause => "composition error: " ++ cause.message Report.CompileError.message

namespace Settings

/-- The composer for the settings. The directory of the templates is not looked at: the store is
given. -/
def composer (s : Settings) (store : Store) : Composer Report Report.CompileError :=
  ⟨store, Report.compile, s.nested⟩

def composeSource (s : Settings) (store : Store) (source : String) :
    Except SourceError (Package Report) := do
  let master ← (Design.parse source).mapError .malformed
  ((s.composer store).compose master).outcome.mapError .failed

end Settings

end ReportAssembly
