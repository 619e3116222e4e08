import ReportAssembly.Design.Basic

namespace ReportAssembly

structure Placeholder where
  pos : Position
  expression : String
  span : Span
  deriving DecidableEq, Repr

def Placeholder.ofElement? (pos : Position) (e : Located Element) : Option Placeholder :=
  match e.value with
  | .subreport expression => some ⟨pos, expression.text, e.span⟩
  | _ => none

def Design.placeholders (d : Design) : List Placeholder :=
  d.sections.zipIdx.flatMap fun (s, band) =>
    s.elements.zipIdx.filterMap fun (e, index) => Placeholder.ofElement? ⟨band, index⟩ e

end ReportAssembly
