import Mathlib.Data.List.Perm.Subperm
import ReportAssembly.Proofs.Agenda
import ReportAssembly.Proofs.Descents

namespace ReportAssembly

variable {α ε : Type}

namespace Event

def template? : Event → Option String
  | compile template? _ _ => template?
  | lookup .. => none

def lookups (events : List Event) : List String :=
  events.filterMap lookedUp?

def templates (events : List Event) : List String :=
  events.filterMap template?

variable (events : List Event) (n : String) (a : Answer) (t : Option String) (d : Design)
  (accepted : Bool)

@[simp] theorem lookups_lookup : lookups (events ++ [.lookup n a]) = lookups events ++ [n] :=
  List.filterMap_append

@[simp] theorem lookups_compile :
    lookups (events ++ [.compile t d accepted]) = lookups events := by
  rw [lookups, List.filterMap_append]
  exact List.append_nil _

@[simp] theorem templates_lookup : templates (events ++ [.lookup n a]) = templates events := by
  rw [templates, List.filterMap_append]
  exact List.append_nil _

@[simp] theorem templates_compile :
    templates (events ++ [.compile t d accepted]) = templates events ++ t.toList := by
  rw [templates, List.filterMap_append]
  cases t <;> rfl

end Event

structure OnceEach (events : List Event) : Prop where
  lookups : (Event.lookups events).Nodup
  templates : (Event.templates events).Nodup
  identifiers : ∀ n ∈ Event.lookups events, isIdentifier n = true

/-- The compilation of a template or of the master adds no look-up. -/
theorem OnceEach.compile {events : List Event} (h : OnceEach events) {t : Option String}
    (ht : ∀ n ∈ t, n ∉ Event.templates events) (d : Design) (accepted : Bool) :
    OnceEach (events ++ [.compile t d accepted]) where
  lookups := by
    rw [Event.lookups_compile]
    exact h.lookups
  templates := by
    rw [Event.templates_compile]
    refine h.templates.append (by cases t <;> simp) ?_
    exact List.disjoint_right.mpr fun n hn => ht n (Option.mem_toList.mp hn)
  identifiers := by
    rw [Event.lookups_compile]
    exact h.identifiers

def InHand.templates (inner : InHand) (outer : List InHand) : List String :=
  (InHand.chain inner outer).tail

theorem InHand.templates_cons (inner next : InHand) (outer : List InHand) :
    templates inner (next :: outer) = templates next outer ++ [inner.name] := by
  have hne : chain next outer ≠ [] := List.concat_ne_nil _ _
  rw [templates, chain_cons, List.tail_append_of_ne_nil hne, templates]

/-- The names looked up so far are those of the compiled templates and those in hand, each once. -/
structure Accounted (inHand : List String) (s : Progress α) : Prop where
  compiled : (s.compiled.map (·.1)).Nodup
  templates : Event.templates s.events = s.compiled.map (·.1)
  lookups : (Event.lookups s.events).Nodup
  lookedUp : ∀ n, n ∈ Event.lookups s.events ↔ n ∈ s.compiled.map (·.1) ∨ n ∈ inHand
  apart : ∀ n ∈ inHand, n ∉ s.compiled.map (·.1)
  identifiers : ∀ n ∈ Event.lookups s.events, isIdentifier n = true

namespace Accounted

variable {inHand : List String} {s : Progress α} {n : String}

theorem start : Accounted [] (.start : Progress α) where
  compiled := List.nodup_nil
  templates := rfl
  lookups := List.nodup_nil
  lookedUp n := by simp [Progress.start, Event.lookups]
  apart := List.forall_mem_nil _
  identifiers := List.forall_mem_nil _

/-- Accounts in order mean that nothing has been done twice. -/
theorem onceEach (h : Accounted inHand s) : OnceEach s.events where
  lookups := h.lookups
  templates := h.templates ▸ h.compiled
  identifiers := h.identifiers

/-- A template that is neither compiled nor in hand is looked up, and is then in hand. -/
theorem enter (h : Accounted inHand s) (hcompiled : n ∉ s.compiled.map (·.1)) (hn : n ∉ inHand)
    (hname : isIdentifier n = true) (a : Answer) :
    Accounted (inHand ++ [n]) (s.record (.lookup n a)) where
  compiled := h.compiled
  templates := by
    rw [Progress.record, Event.templates_lookup]
    exact h.templates
  lookups := by
    have hnew : n ∉ Event.lookups s.events := by
      rw [h.lookedUp]
      exact not_or.mpr ⟨hcompiled, hn⟩
    rw [Progress.record, Event.lookups_lookup, ← List.concat_eq_append]
    exact h.lookups.concat hnew
  lookedUp m := by
    rw [Progress.record, Event.lookups_lookup, List.mem_append, List.mem_append, h.lookedUp,
      or_assoc]
  apart := List.forall_mem_append.mpr ⟨h.apart, List.forall_mem_singleton.mpr hcompiled⟩
  identifiers := by
    rw [Progress.record, Event.lookups_lookup]
    exact List.forall_mem_append.mpr ⟨h.identifiers, List.forall_mem_singleton.mpr hname⟩

/-- Accepted or not, the innermost template is given to the compiler for the first time. -/
theorem onceEach_leave (h : Accounted (inHand ++ [n]) s) (d : Design) (accepted : Bool) :
    OnceEach (s.record (.compile (some n) d accepted)).events := by
  apply h.onceEach.compile
  rintro m ⟨⟩
  rw [h.templates]
  exact h.apart n List.mem_concat_self

/-- The innermost template is no longer in hand when it is compiled. -/
theorem leave (h : Accounted (inHand ++ [n]) s) (hn : n ∉ inHand) (d : Design) (artifact : α) :
    Accounted inHand ((s.record (.compile (some n) d true)).complete n artifact) := by
  have honce : OnceEach (s.record (.compile (some n) d true)).events := h.onceEach_leave d true
  have hcompiled : ((s.record (.compile (some n) d true)).complete n artifact).compiled.map (·.1) =
      s.compiled.map (·.1) ++ [n] := List.map_append
  have htemplates : Event.templates (s.record (.compile (some n) d true)).events =
      s.compiled.map (·.1) ++ [n] := by
    rw [Progress.record, Event.templates_compile, h.templates]
    rfl
  constructor
  case compiled =>
    rw [hcompiled, ← htemplates]
    exact honce.templates
  case templates =>
    rw [hcompiled]
    exact htemplates
  case lookups => exact honce.lookups
  case lookedUp =>
    intro m
    rw [hcompiled, Progress.complete, Progress.record, Event.lookups_compile, h.lookedUp,
      List.mem_append, List.mem_append, or_assoc, or_comm (a := m ∈ inHand)]
  case apart =>
    intro m hm
    have hne : m ≠ n := fun heq => hn (heq ▸ hm)
    rw [hcompiled, List.mem_append, List.mem_singleton]
    exact not_or.mpr ⟨h.apart m (List.mem_append_left _ hm), hne⟩
  case identifiers => exact honce.identifiers

end Accounted

namespace Composer

variable (c : Composer α ε) (master : Design)

def KeepsAccounts : Moment α ε → Prop
  | .working inner outer s =>
    c.Linked master inner outer ∧ Accounted (InHand.templates inner outer) s
  | .ended run => OnceEach run.events

variable {c master} {inner : InHand} {outer : List InHand} {s : Progress α} {n : String}

/-- A name that is not on the chain is no template in hand. -/
theorem Linked.notMem_templates (h : c.Linked master inner outer)
    (hn : ¬(c.nested = true ∧ n ∈ InHand.chain inner outer)) :
    n ∉ InHand.templates inner outer := by
  cases hnested : c.nested with
  | true => exact fun hmem => hn ⟨hnested, List.mem_of_mem_tail hmem⟩
  | false =>
    rw [h.outer_eq_nil hnested]
    exact List.not_mem_nil

/-- The names in hand are that of the master and those of stored templates. -/
theorem Linked.exists_templates (h : c.Linked master inner outer) :
    InHand.chain inner outer = master.name :: InHand.templates inner outer ∧
      ∀ n ∈ InHand.templates inner outer, ∃ d, (c.store.lookup n).outcome = .ok d := by
  induction h with
  | master name => exact ⟨congrArg (fun n => [n]) name, List.forall_mem_nil _⟩
  | inner _ _ _ _ _ _ stored _ ih =>
    obtain ⟨hchain, hstored⟩ := ih
    rw [InHand.chain_cons, InHand.templates_cons, hchain]
    refine ⟨List.cons_append, List.forall_mem_append.mpr ⟨hstored, ?_⟩⟩
    exact List.forall_mem_singleton.mpr ⟨_, stored⟩

/-- What follows when the innermost template is compiled. -/
theorem keepsAccounts_compileTemplate (hlinked : c.Linked master inner outer)
    (h : Accounted (InHand.templates inner outer ++ [n]) s)
    (hn : n ∉ InHand.templates inner outer) (d : Design) :
    c.KeepsAccounts master (.after inner outer (c.compileTemplate n d s)) := by
  rw [compileTemplate]
  cases hd : c.compile d with
  | ok artifact => exact ⟨hlinked, h.leave hn d artifact⟩
  | error cause => exact h.onceEach_leave d false

/-- The compilation of the master is no work done twice. -/
theorem onceEach_close (h : OnceEach s.events) (d : Design) : OnceEach (c.close d s).events := by
  have hmaster (accepted : Bool) : OnceEach (s.events ++ [.compile none d accepted]) := by
    apply h.compile
    rintro n ⟨⟩
  rw [close]
  cases hd : c.compile d with
  | ok report => exact hmaster true
  | error cause => exact hmaster false

/-- Each move keeps the accounts. -/
theorem Moves.keepsAccounts {m : Moment α ε}
    (h : c.Moves master.lastDeclared? inner s outer m) (hlinked : c.Linked master inner outer)
    (haccounted : Accounted (InHand.templates inner outer) s) : c.KeepsAccounts master m := by
  have hdescends : c.Descends master m := h.descends hlinked
  have henter {p : Placeholder} {n : String} (name : p.name? = some n)
      (unknown : s.isCompiled n = false)
      (apart : ¬(c.nested = true ∧ n ∈ InHand.chain inner outer)) :
      n ∉ InHand.templates inner outer ∧ Accounted (InHand.templates inner outer ++ [n])
        (s.record (.lookup n (c.store.lookup n))) := by
    have hn : n ∉ InHand.templates inner outer := hlinked.notMem_templates apart
    have hquotes : Quotes p.expression n := (p.name?_eq_some_iff n).mp name
    exact ⟨hn, haccounted.enter (notMem_compiled unknown) hn hquotes.isIdentifier _⟩
  cases h with
  | unnamed => exact haccounted.onceEach
  | unbound => exact haccounted.onceEach
  | conflict => exact haccounted.onceEach
  | circular => exact haccounted.onceEach
  | bound => exact ⟨hdescends, haccounted⟩
  | missing _ name unknown _ apart => exact (henter name unknown apart).2.onceEach
  | entered _ name unknown _ _ apart =>
    refine ⟨hdescends, ?_⟩
    rw [InHand.templates_cons]
    exact (henter name unknown fun hmem => apart hmem.2).2
  | plain _ name unknown _ flat =>
    have hflat : ¬c.nested = true := Bool.eq_false_iff.mp flat
    obtain ⟨hn, hentered⟩ := henter name unknown fun hmem => hflat hmem.1
    exact keepsAccounts_compileTemplate hlinked hentered hn _
  | @returned next outer _ =>
    rw [InHand.templates_cons] at haccounted
    have hn : inner.name ∉ InHand.templates next outer := fun hmem =>
      hlinked.apart (List.mem_of_mem_tail hmem)
    exact keepsAccounts_compileTemplate hlinked.around haccounted hn inner.design
  | closed => exact onceEach_close haccounted.onceEach inner.design

variable (c master)

/-- A composition does no piece of work twice. -/
theorem onceEach_compose : OnceEach (c.compose master).events := by
  have hended : c.KeepsAccounts master (.ended (c.compose master)) := by
    apply c.compose_induction ⟨.ofDesign master, .start⟩
    exact fun inner outer s m hmove h => hmove.keepsAccounts h.1 h.2
  exact hended

/-- A composition comes to its end, does each piece of work once, and never has more in hand than
the store has. -/
structure Orderly : Prop where
  ends : ∃ k, c.moment master k = .ended (c.compose master)
  lookups : (c.compose master).lookedUp.Nodup
  identifiers : ∀ n ∈ (c.compose master).lookedUp, isIdentifier n = true
  templates : (Event.templates (c.compose master).events).Nodup
  inHand : ∀ k inner outer s, c.moment master k = .working inner outer s →
    ∃ names, InHand.chain inner outer = master.name :: names ∧ (master.name :: names).Nodup ∧
      (∀ n ∈ names, ∃ d, (c.store.lookup n).outcome = .ok d) ∧
      names.length ≤ c.store.names.length

/-- Whatever cycles its templates form, a composition comes to its end and does each piece of work
once. -/
theorem composition_orderly : c.Orderly master := by
  have honce : OnceEach (c.compose master).events := c.onceEach_compose master
  constructor
  case ends => exact c.exists_moment_eq_ended master
  case lookups => exact honce.lookups
  case identifiers => exact honce.identifiers
  case templates => exact honce.templates
  case inHand =>
    intro k inner outer s hk
    have hlinked : c.Linked master inner outer := linked_of_moment hk
    obtain ⟨hchain, hstored⟩ := hlinked.exists_templates
    have hnodup : (master.name :: InHand.templates inner outer).Nodup := hchain ▸ hlinked.nodup
    have hsubset : InHand.templates inner outer ⊆ c.store.names := by
      intro n hn
      obtain ⟨d, hd⟩ := hstored n hn
      exact c.store.mem_names hd
    refine ⟨InHand.templates inner outer, hchain, hnodup, hstored, ?_⟩
    exact (List.subperm_of_subset hnodup.of_cons hsubset).length_le

end Composer

end ReportAssembly
