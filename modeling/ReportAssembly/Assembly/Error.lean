import ReportAssembly.Placeholder.Reference
import ReportAssembly.Store.Basic

namespace ReportAssembly

/-- Why a composition fails. `ε` is the type of the errors of the compiler. -/
inductive ComposeError (ε : Type)
  /-- A placeholder names a template that the store does not have. -/
  | referenceNotFound (name : String) (span : Span)
  /-- The expression of a placeholder names no template. -/
  | malformedReference (expression : String) (fault : ReferenceFault) (span : Span)
  | templateRejected (name : String) (cause : ε)
  | masterRejected (name : String) (cause : ε)
  /-- The name of a template is that of a parameter which was there before. -/
  | bindingConflict (name : String) (existing : ValueType) (span : Span)
  /-- A template would have to be part of itself. -/
  | circularReference (chain : List String)
  /-- The store has failed, other than by not having a template. -/
  | storeFailure (name : String) (cause : TemplateError)
  /-- What is to be bound is no sub-report. -/
  | unknownPlaceholder (pos : Position)
  deriving DecidableEq, Repr

namespace ComposeError

variable {ε : Type}

def message (describe : ε → String) : ComposeError ε → String
  | referenceNotFound name _ => "referenced sub-template not found: " ++ name
  | malformedReference expression fault _ =>
    "malformed sub-report reference `" ++ expression ++ "`: " ++ fault.message
  | templateRejected name cause =>
    "failed to compile sub-template '" ++ name ++ "': " ++ describe cause
  | masterRejected name cause =>
    "failed to compile master report '" ++ name ++ "': " ++ describe cause
  | bindingConflict name existing _ =>
    "cannot bind sub-report '" ++ name ++ "': parameter already declared as " ++ existing.keyword
  | circularReference chain =>
    "circular sub-report reference: " ++ String.intercalate " -> " chain
  | storeFailure name cause =>
    "failed to load sub-template '" ++ name ++ "': " ++ cause.message
  | unknownPlaceholder pos =>
    "no sub-report placeholder at section " ++ toString pos.band ++ ", element " ++
      toString pos.index

def span? : ComposeError ε → Option Span
  | referenceNotFound _ span => some span
  | malformedReference _ _ span => some span
  | bindingConflict _ _ span => some span
  | _ => none

def name? : ComposeError ε → Option String
  | referenceNotFound name _ => some name
  | templateRejected name _ => some name
  | masterRejected name _ => some name
  | bindingConflict name _ _ => some name
  | storeFailure name _ => some name
  | _ => none

end ComposeError

def Placeholder.templateName {ε : Type} (p : Placeholder) : Except (ComposeError ε) String :=
  (ReportAssembly.templateName p.expression).mapError (.malformedReference p.expression · p.span)

def Answer.design {ε : Type} (a : Answer) (name : String) (p : Placeholder) :
    Except (ComposeError ε) Design :=
  a.outcome.mapError fun
    | .notFound _ => .referenceNotFound name p.span
    | cause => .storeFailure name cause

theorem Answer.design_eq_ok {ε : Type} {a : Answer} {name : String} {p : Placeholder} {d : Design}
    (h : a.design (ε := ε) name p = .ok d) : a.outcome = .ok d := by
  unfold Answer.design at h
  cases ho : a.outcome with
  | ok d' =>
    rw [ho] at h
    have heq : (.ok d' : Except (ComposeError ε) Design) = .ok d := h
    rw [Except.ok.inj heq]
  | error e =>
    rw [ho] at h
    exact nomatch h

def Store.resolve {ε : Type} (s : Store) (p : Placeholder) :
    Except (ComposeError ε) (String × Design) := do
  let name ← p.templateName
  let d ← (s.lookup name).design name p
  return (name, d)

end ReportAssembly
