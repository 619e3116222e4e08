import ReportAssembly.Assembly.Package
import ReportAssembly.Placeholder.Binding

/-!
Composition. The placeholders of a design are bound in document order; the template of a name is
looked up and compiled when the name is met first. Nested, a template has its own placeholders bound
before it is compiled, and the chain of templates in hand keeps a template from being part of
itself. What a run asks of the store and of the compiler is recorded in order.
-/

namespace ReportAssembly

inductive Event
  | lookup (name : String) (answer : Answer)
  /-- A design given to the compiler: that of a template, or the master. -/
  | compile (template? : Option String) (design : Design) (accepted : Bool)

namespace Event

def notes : Event → List Note
  | lookup name ⟨.ok _, notes⟩ => notes ++ [.templateResolved name]
  | lookup _ ⟨.error _, notes⟩ => notes
  | compile (some name) _ true => [.templateCompiled name]
  | compile .. => []

def lookedUp? : Event → Option String
  | lookup name _ => some name
  | compile .. => none

def handed? : Event → Option Design
  | compile _ d _ => some d
  | lookup .. => none

end Event

structure Progress (α : Type) where
  compiled : List (String × α)
  events : List Event

namespace Progress

variable {α : Type}

def start : Progress α :=
  ⟨[], []⟩

def isCompiled (s : Progress α) (name : String) : Bool :=
  s.compiled.any (·.1 == name)

def record (s : Progress α) (e : Event) : Progress α :=
  { s with events := s.events ++ [e] }

def complete (s : Progress α) (name : String) (artifact : α) : Progress α :=
  { s with compiled := s.compiled ++ [(name, artifact)] }

end Progress

structure Step (α ε β : Type) where
  progress : Progress α
  outcome : Except (ComposeError ε) β

structure Composer (α ε : Type) where
  store : Store
  compile : Design → Except ε α
  nested : Bool

/-- What a composition comes to: the master as the run has left it, the record of the run, and a
package if nothing failed. -/
structure Composition (α ε : Type) where
  master : Design
  events : List Event
  outcome : Except (ComposeError ε) (Package α)

def Design.lastDeclared? (d : Design) (name : String) : Option ValueType :=
  (d.parameters.reverse.find? (·.value.name == name)).map (·.value.type)

namespace Composer

variable {α ε : Type}

def free (c : Composer α ε) (chain : List String) : List String :=
  c.store.names.filter (· ∉ chain)

/-- Taking a stored name in hand leaves fewer names free, which ends the recursion. -/
theorem length_free_append_lt (c : Composer α ε) {chain : List String} {name : String}
    (hc : name ∉ chain) (hn : name ∈ c.store.names) :
    (c.free (chain ++ [name])).length < (c.free chain).length := by
  unfold free
  have hsplit : c.store.names.filter (· ∉ chain ++ [name]) =
      (c.store.names.filter (· ∉ chain)).filter (· ≠ name) := by
    rw [List.filter_filter]
    congr 1
    funext n
    simp [not_or, and_comm]
  rw [hsplit]
  exact List.length_filter_lt_length_iff_exists.2 ⟨name, by simp [hn, hc], by simp⟩

def compileTemplate (c : Composer α ε) (name : String) (d : Design) (s : Progress α) :
    Step α ε Unit :=
  match c.compile d with
  | .error cause =>
    ⟨s.record (.compile (some name) d false), .error (.templateRejected name cause)⟩
  | .ok artifact => ⟨(s.record (.compile (some name) d true)).complete name artifact, .ok ()⟩

set_option linter.unusedVariables false in
mutual

/-- Binds the placeholders `ps` of the design `d`. On an error too the design is returned with the
bindings made so far. `reserved` holds the parameters that the master declared before the run. -/
def bindAll (c : Composer α ε) (reserved : String → Option ValueType) (chain : List String)
    (ps : List Placeholder) (b : Binder) (d : Design) (s : Progress α) :
    Design × Step α ε Unit :=
  match ps with
  | [] => (d, ⟨s, .ok ()⟩)
  | p :: ps =>
    match p.templateName with
    | .error e => (d, ⟨s, .error e⟩)
    | .ok name =>
      let prepared := if s.isCompiled name then ⟨s, .ok ()⟩ else c.prepare reserved chain p name s
      match prepared.outcome with
      | .error e => (d, ⟨prepared.progress, .error e⟩)
      | .ok () =>
        let bound := b.bind d p name
        match bound.outcome with
        | .error e => (bound.design, ⟨prepared.progress, .error e⟩)
        | .ok () => c.bindAll reserved chain ps bound.binder bound.design prepared.progress
termination_by ((c.free chain).length, ps.length)

def prepare (c : Composer α ε) (reserved : String → Option ValueType) (chain : List String)
    (p : Placeholder) (name : String) (s : Progress α) : Step α ε Unit :=
  match reserved name with
  | some existing => ⟨s, .error (.bindingConflict name existing p.span)⟩
  | none =>
    if hc : c.nested = true ∧ name ∈ chain then
      ⟨s, .error (.circularReference (chain ++ [name]))⟩
    else
      let answer := c.store.lookup name
      let s := s.record (.lookup name answer)
      match hd : answer.design name p with
      | .error e => ⟨s, .error e⟩
      | .ok d =>
        if hn : c.nested = true then
          let (d, bound) := c.bindAll reserved (chain ++ [name]) d.placeholders .empty d s
          match bound.outcome with
          | .error e => ⟨bound.progress, .error e⟩
          | .ok () => c.compileTemplate name d bound.progress
        else c.compileTemplate name d s
termination_by ((c.free chain).length, 0)
decreasing_by
  exact Prod.Lex.left _ _ (c.length_free_append_lt (fun h => hc ⟨hn, h⟩)
    (c.store.mem_names (Answer.design_eq_ok hd)))

end

def compose (c : Composer α ε) (master : Design) : Composition α ε :=
  let (d, bound) :=
    c.bindAll master.lastDeclared? [master.name] master.placeholders .empty master .start
  let s := bound.progress
  match bound.outcome with
  | .error e => ⟨d, s.events, .error e⟩
  | .ok () =>
    match c.compile d with
    | .error cause =>
      ⟨d, s.events ++ [.compile none d false], .error (.masterRejected d.name cause)⟩
    | .ok report => ⟨d, s.events ++ [.compile none d true], .ok ⟨report, s.compiled⟩⟩

end Composer

namespace Composition

variable {α ε : Type}

def notes (r : Composition α ε) : List Note :=
  r.events.flatMap Event.notes ++
    match r.outcome with
    | .ok package => [.reportComposed r.master.name package.bindings.length]
    | .error _ => []

def handed (r : Composition α ε) : List Design :=
  r.events.filterMap Event.handed?

def lookedUp (r : Composition α ε) : List String :=
  r.events.filterMap Event.lookedUp?

end Composition

end ReportAssembly
