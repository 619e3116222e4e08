import ReportAssembly.Proofs.Moments
import ReportAssembly.Proofs.PackageOrder

namespace ReportAssembly

variable {α ε : Type}

/-- A way down from a master, by name, and the design at its end. Each name after that of the master
is quoted by the design before it, and is that of a stored design. -/
inductive Design.Descent (master : Design) (store : Store) : List String → Design → Prop
  | start : Descent master store [master.name] master
  | down {names : List String} {d d' : Design} {p : Placeholder} {n : String}
      (above : Descent master store names d) (mem : p ∈ d.placeholders)
      (quotes : Quotes p.expression n) (stored : (store.lookup n).outcome = .ok d') :
      Descent master store (names ++ [n]) d'

def Design.StandsAt (master : Design) (store : Store) (i : Nat) (n : String) (d : Design) : Prop :=
  i = 0 ∧ d = master ∨ 0 < i ∧ (store.lookup n).outcome = .ok d

namespace Design.Descent

variable {master d : Design} {store : Store} {names : List String}

theorem head (h : master.Descent store names d) : names[0]? = some master.name := by
  induction h with
  | start => rfl
  | @down names _ _ _ n _ _ _ _ ih =>
    have hlength : 0 < names.length := (List.getElem?_eq_some_iff.mp ih).1
    rw [List.getElem?_append_left hlength]
    exact ih

theorem ne_nil (h : master.Descent store names d) : names ≠ [] := by
  rintro rfl
  exact nomatch h.head

/-- When the design at the end quotes a name, each name up to it is quoted by the design that the
name before stands for. -/
theorem next (h : master.Descent store names d) {p : Placeholder} {n : String}
    (mem : p ∈ d.placeholders) (quotes : Quotes p.expression n) {i : Nat} {k m : String}
    (hk : (names ++ [n])[i]? = some k) (hm : (names ++ [n])[i + 1]? = some m) :
    ∃ e, master.StandsAt store i k e ∧ ∃ q ∈ e.placeholders, Quotes q.expression m := by
  induction h generalizing p n with
  | start =>
    have hi : i + 1 < [master.name, n].length := (List.getElem?_eq_some_iff.mp hm).1
    obtain rfl : i = 0 := Nat.lt_one_iff.mp (Nat.lt_of_succ_lt_succ hi)
    obtain rfl : n = m := Option.some.inj hm
    exact ⟨master, .inl ⟨rfl, rfl⟩, p, mem, quotes⟩
  | @down names _ d _ n' above mem' quotes' stored ih =>
    have hi : i + 1 < (names ++ [n'] ++ [n]).length := (List.getElem?_eq_some_iff.mp hm).1
    rw [List.length_append, List.length_append, List.length_singleton, List.length_singleton] at hi
    rcases Nat.lt_or_ge i names.length with hlt | hge
    · have hlength : i + 1 < (names ++ [n']).length := by
        rw [List.length_append, List.length_singleton]
        omega
      rw [List.getElem?_append_left (Nat.lt_of_succ_lt hlength)] at hk
      rw [List.getElem?_append_left hlength] at hm
      exact ih mem' quotes' hk hm
    · obtain rfl : i = names.length := by omega
      obtain rfl : n' = k := by simpa using hk
      obtain rfl : n = m := by simpa using hm
      exact ⟨d, .inr ⟨List.length_pos_of_ne_nil above.ne_nil, stored⟩, p, mem, quotes⟩

/-- What the design at the end of a way refers to can be reached from the master. -/
theorem reached (h : master.Descent store names d) :
    ∀ m ∈ d.references, Reached store.references master.references m := by
  induction h with
  | start => exact fun m hm => ⟨m, hm, .refl⟩
  | @down names d d' p n _ mem quotes stored ih =>
    intro m hm
    obtain ⟨r, hr, hreach⟩ := ih n ((d.mem_references_iff n).mpr ⟨p, mem, quotes⟩)
    have hstep : Refers store.references n m := by
      rw [Refers, Store.references_eq stored]
      exact hm
    exact ⟨r, hr, hreach.tail hstep⟩

/-- A name of the way, other than the first, can be reached, and leads to all that the design at the
end refers to. -/
theorem leads (h : master.Descent store names d) :
    ∀ n ∈ names.tail, Reached store.references master.references n ∧
      ∀ m ∈ d.references, Relation.TransGen (Refers store.references) n m := by
  induction h with
  | start => simp
  | @down names d d' p n above mem quotes stored ih =>
    have hn : n ∈ d.references := (d.mem_references_iff n).mpr ⟨p, mem, quotes⟩
    have hstep (m : String) (hm : m ∈ d'.references) : Refers store.references n m := by
      rw [Refers, Store.references_eq stored]
      exact hm
    intro k hk
    rw [List.tail_append_of_ne_nil above.ne_nil] at hk
    rcases List.mem_append.mp hk with hk | hk
    · obtain ⟨hreached, hleads⟩ := ih k hk
      exact ⟨hreached, fun m hm => (hleads n hn).tail (hstep m hm)⟩
    · obtain rfl := List.mem_singleton.mp hk
      exact ⟨above.reached k hn, fun m hm => .single (hstep m hm)⟩

end Design.Descent

structure Design.ClosedChain (master : Design) (store : Store) (chain : List String) : Prop where
  first : chain[0]? = some master.name
  second : ∃ n, chain[1]? = some n ∧ ∃ p ∈ master.placeholders, Quotes p.expression n
  later : ∀ i n m, 1 ≤ i → chain[i]? = some n → chain[i + 1]? = some m →
    ∃ d, (store.lookup n).outcome = .ok d ∧ ∃ p ∈ d.placeholders, Quotes p.expression m
  distinct : chain.dropLast.Nodup
  closing : ∃! i, i + 1 < chain.length ∧ chain[i]? = chain.getLast?

structure Design.Closes (master : Design) (store : Store) (names : List String) (n : String) :
    Prop where
  quoted : ∃ d, master.Descent store names d ∧ ∃ p ∈ d.placeholders, Quotes p.expression n
  mem : n ∈ names
  nodup : names.Nodup

namespace Design.Closes

variable {master : Design} {store : Store} {names : List String} {n : String}

/-- A way that closes is reported with the name that closes it at its end. -/
theorem closedChain (h : master.Closes store names n) :
    master.ClosedChain store (names ++ [n]) := by
  obtain ⟨d, hdescent, p, hp, hquotes⟩ := h.quoted
  obtain ⟨i, hi⟩ := List.mem_iff_getElem?.mp h.mem
  have hlength : i < names.length := (List.getElem?_eq_some_iff.mp hi).1
  have hpos : 0 < names.length := Nat.zero_lt_of_lt hlength
  have hfirst : (names ++ [n])[0]? = some master.name := by
    rw [List.getElem?_append_left hpos]
    exact hdescent.head
  constructor
  case first => exact hfirst
  case second =>
    have hsecond : 0 + 1 < (names ++ [n]).length := by
      rw [List.length_append, List.length_singleton]
      omega
    have hm : (names ++ [n])[0 + 1]? = some (names ++ [n])[0 + 1] :=
      List.getElem?_eq_getElem hsecond
    obtain ⟨e, hstands, hquoted⟩ := hdescent.next hp hquotes hfirst hm
    obtain ⟨-, rfl⟩ := hstands.resolve_right fun hright => lt_irrefl 0 hright.1
    exact ⟨_, hm, hquoted⟩
  case later =>
    intro j k m hj hk hm
    obtain ⟨e, hstands, hquoted⟩ := hdescent.next hp hquotes hk hm
    obtain ⟨-, hstored⟩ := hstands.resolve_left fun hleft => by omega
    exact ⟨e, hstored, hquoted⟩
  case distinct =>
    rw [List.dropLast_concat]
    exact h.nodup
  case closing =>
    rw [List.getLast?_concat, List.length_append, List.length_singleton]
    refine ⟨i, ⟨by omega, ?_⟩, ?_⟩
    · rw [List.getElem?_append_left hlength]
      exact hi
    · rintro j ⟨hj, hjn⟩
      have hjlength : j < names.length := by omega
      rw [List.getElem?_append_left hjlength] at hjn
      exact (List.getElem?_inj hjlength h.nodup).mp (hjn.trans hi.symm)

/-- A way that closes shows a cycle of the reference graph, or a reference back to the master. -/
theorem cycle (h : master.Closes store names n) :
    Reached store.references master.references n ∧
      (n = master.name ∨ Relation.TransGen (Refers store.references) n n) := by
  obtain ⟨d, hdescent, p, hp, hquotes⟩ := h.quoted
  have hn : n ∈ d.references := (d.mem_references_iff n).mpr ⟨p, hp, hquotes⟩
  refine ⟨hdescent.reached n hn, ?_⟩
  obtain ⟨first, rest, rfl⟩ := List.exists_cons_of_ne_nil hdescent.ne_nil
  obtain rfl : first = master.name := Option.some.inj hdescent.head
  -- The master need not be stored under its name, so that it is told apart from the templates.
  rcases List.mem_cons.mp h.mem with hself | hrest
  · exact .inl hself
  · exact .inr ((hdescent.leads n hrest).2 n hn)

end Design.Closes

namespace Composer

variable (c : Composer α ε) (master : Design)

/-- How designs are in hand: the outermost is the master, and each of the others was looked up,
under a new name, for the placeholder that the one around it stands at. -/
inductive Linked : InHand → List InHand → Prop
  | master {outermost : InHand} (name : outermost.name = master.name)
      (left : ∀ p ∈ outermost.left, p ∈ master.placeholders) : Linked outermost []
  | inner {inner next : InHand} {outer : List InHand} {p : Placeholder} {ps : List Placeholder}
      {d : Design} (below : Linked next outer) (at_placeholder : next.left = p :: ps)
      (quotes : Quotes p.expression inner.name) (nested : c.nested = true)
      (free : master.lastDeclared? inner.name = none)
      (apart : inner.name ∉ InHand.chain next outer)
      (stored : (c.store.lookup inner.name).outcome = .ok d)
      (left : ∀ p ∈ inner.left, p ∈ d.placeholders) : Linked inner (next :: outer)

variable {c master} {inner next : InHand} {outer : List InHand}

namespace Linked

theorem ofDesign (master : Design) : c.Linked master (.ofDesign master.name master) [] :=
  .master rfl fun _ hp => hp

theorem around (h : c.Linked master inner (next :: outer)) : c.Linked master next outer := by
  cases h with
  | inner below => exact below

theorem apart (h : c.Linked master inner (next :: outer)) :
    inner.name ∉ InHand.chain next outer := by
  cases h with
  | inner _ _ _ _ _ apart => exact apart

/-- Without nesting only the master is in hand. -/
theorem outer_eq_nil (h : c.Linked master inner outer) (hflat : c.nested = false) : outer = [] := by
  cases h with
  | master => rfl
  | inner _ _ _ nested => exact nomatch hflat.symm.trans nested

/-- A placeholder that is bound is no longer left. -/
theorem advance (h : c.Linked master inner outer) {p : Placeholder} {ps : List Placeholder}
    (hleft : inner.left = p :: ps) (b : Binder) (d : Design) :
    c.Linked master ⟨inner.name, ps, b, d⟩ outer := by
  have hsub : ∀ q ∈ ps, q ∈ inner.left := fun q hq => hleft ▸ List.mem_cons_of_mem p hq
  cases h with
  | master name left => exact .master name fun q hq => left q (hsub q hq)
  | inner below at_placeholder quotes nested free apart stored left =>
    exact .inner below at_placeholder quotes nested free apart stored fun q hq => left q (hsub q hq)

/-- No name is in hand twice. -/
theorem nodup (h : c.Linked master inner outer) : (InHand.chain inner outer).Nodup := by
  induction h with
  | master => exact List.nodup_singleton _
  | inner _ _ _ _ _ apart _ _ ih =>
    rw [InHand.chain_cons, ← List.concat_eq_append]
    exact ih.concat apart

/-- The names in hand lead down to the innermost design. -/
theorem exists_descent (h : c.Linked master inner outer) :
    ∃ d, master.Descent c.store (InHand.chain inner outer) d ∧
      ∀ p ∈ inner.left, p ∈ d.placeholders := by
  induction h with
  | master name left =>
    refine ⟨master, ?_, left⟩
    rw [InHand.chain, name]
    exact .start
  | @inner inner next outer p ps d _ at_placeholder quotes _ _ _ stored left ih =>
    obtain ⟨e, hdescent, hleft⟩ := ih
    have hp : p ∈ e.placeholders := hleft p (at_placeholder ▸ List.mem_cons_self)
    rw [InHand.chain_cons]
    exact ⟨d, .down hdescent hp quotes stored, left⟩

/-- A placeholder that quotes a name in hand closes the way down to it. -/
theorem closes (h : c.Linked master inner outer) {p : Placeholder} {ps : List Placeholder}
    {n : String} (hleft : inner.left = p :: ps) (hname : p.name? = some n)
    (hmem : n ∈ InHand.chain inner outer) :
    master.Closes c.store (InHand.chain inner outer) n := by
  obtain ⟨d, hdescent, hsub⟩ := h.exists_descent
  have hp : p ∈ d.placeholders := hsub p (hleft ▸ List.mem_cons_self)
  exact ⟨⟨d, hdescent, p, hp, (p.name?_eq_some_iff n).mp hname⟩, hmem, h.nodup⟩

end Linked

end Composer

/-- A placeholder without a template name is malformed. -/
theorem Placeholder.templateName_eq_error {p : Placeholder} {e : ComposeError ε}
    (h : p.templateName = .error e) :
    ∃ fault, e = .malformedReference p.expression fault p.span := by
  unfold templateName at h
  cases hname : ReportAssembly.templateName p.expression with
  | ok n =>
    rw [hname] at h
    cases h
  | error fault =>
    rw [hname] at h
    exact ⟨fault, (Except.error.inj h).symm⟩

/-- A look-up fails because the name is not found or because of the store. -/
theorem Answer.design_eq_error {a : Answer} {n : String} {p : Placeholder} {e : ComposeError ε}
    (h : a.design n p = .error e) :
    e = .referenceNotFound n p.span ∨ ∃ cause, e = .storeFailure n cause := by
  unfold design at h
  cases ho : a.outcome with
  | ok d =>
    rw [ho] at h
    cases h
  | error cause =>
    rw [ho] at h
    rw [← Except.error.inj h]
    cases cause with
    | notFound => exact .inl rfl
    | _ => exact .inr ⟨_, rfl⟩

/-- A binding fails because of a conflict or for want of the placeholder. -/
theorem Binder.bind_eq_error {b : Binder} {d : Design} {p : Placeholder} {n : String}
    {e : ComposeError ε} (h : (b.bind d p n).result = .error e) :
    (∃ existing, b.conflict? d n = some existing ∧ e = .bindingConflict n existing.type p.span) ∨
      isSubreportAt d p.pos = false ∧ e = .unknownPlaceholder p.pos := by
  rw [Bound.result_eq_error_iff] at h
  rcases bind_cases ε b d p n with ⟨existing, hconflict, hbind⟩ | ⟨hsub, hbind⟩ | hok
  · rw [hbind] at h
    exact .inl ⟨existing, hconflict, (Except.error.inj h).symm⟩
  · rw [hbind] at h
    exact .inr ⟨hsub, (Except.error.inj h).symm⟩
  · cases hok.symm.trans h

theorem Composer.compileTemplate_eq_error {c : Composer α ε} {n : String} {d : Design}
    {s : Progress α} {e : ComposeError ε} (h : (c.compileTemplate n d s).outcome = .error e) :
    ∃ cause, e = .templateRejected n cause := by
  unfold compileTemplate at h
  cases hd : c.compile d with
  | ok artifact =>
    rw [hd] at h
    cases h
  | error cause =>
    rw [hd] at h
    exact ⟨cause, (Except.error.inj h).symm⟩

theorem Composer.close_eq_error {c : Composer α ε} {d : Design} {s : Progress α}
    {e : ComposeError ε} (h : (c.close d s).outcome = .error e) :
    ∃ cause, e = .masterRejected d.name cause := by
  unfold close at h
  cases hd : c.compile d with
  | ok artifact =>
    rw [hd] at h
    cases h
  | error cause =>
    rw [hd] at h
    exact ⟨cause, (Except.error.inj h).symm⟩

def ComposeError.chain? : ComposeError ε → Option (List String)
  | circularReference chain => some chain
  | _ => none

namespace Composer

variable (c : Composer α ε) (master : Design)

def Descends : Moment α ε → Prop
  | .working inner outer _ => c.Linked master inner outer
  | .ended run => ∀ e chain, run.outcome = .error e → e.chain? = some chain →
    c.nested = true ∧ ∃ names n, chain = names ++ [n] ∧ master.Closes c.store names n

variable {c master}

/-- A step that does not fail with a circular reference leaves the designs in hand linked. -/
theorem descends_after {inner : InHand} {outer : List InHand} {t : Step α ε Unit}
    (h : c.Linked master inner outer) (ht : ∀ e, t.outcome = .error e → e.chain? = none) :
    c.Descends master (.after inner outer t) := by
  apply Moment.after_cases
  · exact fun _ => h
  · rintro e he e' chain he' hchain
    obtain rfl := Except.error.inj he'
    exact nomatch (ht e he).symm.trans hchain

/-- A move keeps the designs in hand linked. -/
theorem Moves.descends {inner : InHand} {outer : List InHand} {s : Progress α} {m : Moment α ε}
    (h : c.Moves master.lastDeclared? inner s outer m) (hlinked : c.Linked master inner outer) :
    c.Descends master m := by
  cases h with
  | unnamed _ name =>
    apply descends_after hlinked
    rintro e ⟨⟩
    obtain ⟨fault, rfl⟩ := Placeholder.templateName_eq_error name
    rfl
  | unbound _ _ _ bind =>
    apply descends_after hlinked
    rintro e ⟨⟩
    obtain ⟨existing, -, rfl⟩ | ⟨-, rfl⟩ := Binder.bind_eq_error bind <;> rfl
  | bound left => exact hlinked.advance left _ _
  | conflict =>
    apply descends_after hlinked
    rintro e ⟨⟩
    rfl
  | circular left name _ _ nested inHand =>
    rintro e chain ⟨⟩ hchain
    refine ⟨nested, _, _, ?_, hlinked.closes left name inHand⟩
    exact (Option.some.inj hchain).symm
  | missing _ _ _ _ _ lost =>
    apply descends_after hlinked
    rintro e ⟨⟩
    obtain rfl | ⟨cause, rfl⟩ := Answer.design_eq_error lost <;> rfl
  | @entered _ p _ n d left name _ free nested apart found =>
    exact .inner hlinked left ((p.name?_eq_some_iff n).mp name) nested free apart found
      fun _ hp => hp
  | plain =>
    apply descends_after hlinked
    intro e he
    obtain ⟨cause, rfl⟩ := compileTemplate_eq_error he
    rfl
  | returned =>
    apply descends_after hlinked.around
    intro e he
    obtain ⟨cause, rfl⟩ := compileTemplate_eq_error he
    rfl
  | closed =>
    intro e chain he hchain
    obtain ⟨cause, rfl⟩ := close_eq_error he
    cases hchain

/-- In every moment the designs in hand are linked. -/
theorem linked_of_moment {k : Nat} {inner : InHand} {outer : List InHand} {s : Progress α}
    (h : c.moment master k = .working inner outer s) : c.Linked master inner outer := by
  have hdescends : c.Descends master (c.moment master k) := by
    apply c.moment_induction (Linked.ofDesign master)
    exact fun inner outer s m hmove hlinked => hmove.descends hlinked
  rw [h] at hdescends
  exact hdescends

variable (c master)

/-- A chain is reported as circular in nested compositions only, and then it closes. So this does
not happen where no template leads back to itself or to the master. -/
theorem circular_reference_is_cycle :
    (∀ chain, (c.compose master).outcome = .error (.circularReference chain) →
      c.nested = true ∧ master.ClosedChain c.store chain) ∧
    ((∀ n, Reached c.store.references master.references n →
        n ≠ master.name ∧ ¬Relation.TransGen (Refers c.store.references) n n) →
      ∀ chain, (c.compose master).outcome ≠ .error (.circularReference chain)) := by
  have hend : c.Descends master (.ended (c.compose master)) := by
    apply c.compose_induction (Linked.ofDesign master)
    exact fun inner outer s m hmove hlinked => hmove.descends hlinked
  constructor
  · intro chain he
    obtain ⟨hnested, names, n, rfl, hcloses⟩ := hend _ chain he rfl
    exact ⟨hnested, hcloses.closedChain⟩
  · intro hacyclic chain he
    obtain ⟨-, names, n, -, hcloses⟩ := hend _ chain he rfl
    obtain ⟨hreached, hcycle⟩ := hcloses.cycle
    obtain ⟨hmaster, hself⟩ := hacyclic n hreached
    exact hcycle.elim hmaster hself

end Composer

def mutualTemplates : Registry :=
  .ofDesigns [.placing "Lines" ["\"Notes\""], .placing "Notes" ["\"Totals\"", "\"Lines\""],
    .placing "Totals" []]

def mutualMaster : Design :=
  .placing "Invoice" ["\"Totals\"", "\"Lines\""]

theorem circular_reference_is_cycle_mutual :
    ((⟨mutualTemplates.toStore, fun d => .ok d.name, true⟩ : Composer String Empty).compose
        mutualMaster).outcome =
        .error (.circularReference ["Invoice", "Lines", "Notes", "Lines"]) ∧
      mutualMaster.ClosedChain mutualTemplates.toStore ["Invoice", "Lines", "Notes", "Lines"] :=
  have herror : ((⟨mutualTemplates.toStore, fun d => .ok d.name, true⟩ :
      Composer String Empty).compose mutualMaster).outcome =
        .error (.circularReference ["Invoice", "Lines", "Notes", "Lines"]) := by cbv
  ⟨herror, ((Composer.circular_reference_is_cycle _ _).1 _ herror).2⟩

end ReportAssembly
