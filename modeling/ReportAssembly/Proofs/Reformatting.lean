import ReportAssembly.Assembly.Source
import ReportAssembly.Proofs.EmittedMaster
import ReportAssembly.Proofs.Registrations
import ReportAssembly.Proofs.Unplaced

namespace ReportAssembly

def Report.CompileError.unplaced (e : CompileError) : CompileError :=
  ⟨e.diagnostics.map fun x => ⟨x.problem, none⟩⟩

def SourceError.unplaced : SourceError → SourceError
  | malformed errors => malformed errors
  | failed cause => failed (cause.unplaced Report.CompileError.unplaced)

namespace Report

theorem compile_eq_error {d : Design} {e : CompileError} (h : compile d = .error e) :
    e = ⟨diagnostics d⟩ := by
  unfold compile at h
  dsimp only at h
  split_ifs at h
  exact (Except.error.inj h).symm

/-- The compiler finds the same problems in designs that differ in spans at most. -/
theorem compile_unplaced {d d' : Design} (h : d.SameContent d') :
    (compile d).mapError CompileError.unplaced = (compile d').mapError CompileError.unplaced := by
  cases hd : compile d with
  | ok r => rw [compile_of_sameContent h hd]
  | error e =>
    cases hd' : compile d' with
    | ok r => exact nomatch hd.symm.trans (compile_of_sameContent h.symm hd')
    | error e' =>
      have hunplaced (e : CompileError) :
          e.unplaced = ⟨(e.diagnostics.map (·.problem)).map fun problem => ⟨problem, none⟩⟩ := by
        rw [List.map_map]
        rfl
      have hproblems : e.diagnostics.map (·.problem) = e'.diagnostics.map (·.problem) := by
        rw [compile_eq_error hd, compile_eq_error hd']
        exact diagnostics_problems h
      have heq : e.unplaced = e'.unplaced := by rw [hunplaced, hunplaced e', hproblems]
      exact congrArg Except.error heq

end Report

/-- The built-in compiler looks at no spans. -/
theorem Settings.placeless (s : Settings) (store : Store) :
    (s.composer store).Placeless Report.CompileError.unplaced :=
  fun d => Report.compile_unplaced d.unplaced_sameContent

theorem Store.eq_of_lookup {s s' : Store} (hlookup : s.lookup = s'.lookup)
    (hnames : s.names = s'.names) : s = s' := by
  obtain ⟨lookup, names, _⟩ := s
  obtain ⟨lookup', names', _⟩ := s'
  obtain rfl : lookup = lookup' := hlookup
  obtain rfl : names = names' := hnames
  rfl

namespace Registry

def unplacedEntries (entries : List (String × Design)) : List (String × Design) :=
  entries.map fun e => (e.1, e.2.unplaced)

theorem keys_unplacedEntries (entries : List (String × Design)) :
    (unplacedEntries entries).map (·.1) = entries.map (·.1) := by
  rw [unplacedEntries, List.map_map]
  rfl

theorem lookup_unplacedEntries (entries : List (String × Design)) (n : String) :
    (unplacedEntries entries).lookup n = (entries.lookup n).map Design.unplaced := by
  induction entries with
  | nil => rfl
  | cons e entries ih =>
    rw [unplacedEntries, List.map_cons, lookup_cons, lookup_cons]
    split
    · rfl
    · exact ih

def unplaced (r : Registry) : Registry where
  entries := unplacedEntries r.entries
  nodup_keys := by
    rw [keys_unplacedEntries]
    exact r.nodup_keys

theorem get?_unplaced (r : Registry) (n : String) :
    r.unplaced.get? n = (r.get? n).map Design.unplaced :=
  lookup_unplacedEntries r.entries n

theorem names_unplaced (r : Registry) : r.unplaced.names = r.names :=
  keys_unplacedEntries r.entries

theorem put_unplaced (key : String) (d : Design) (entries : List (String × Design)) :
    unplacedEntries (put key d entries) = put key d.unplaced (unplacedEntries entries) := by
  induction entries with
  | nil => rfl
  | cons e entries ih =>
    rw [put, unplacedEntries, unplacedEntries, List.map_cons, put]
    split
    · rfl
    · rw [List.map_cons]
      exact congrArg _ ih

theorem insert_unplaced (r : Registry) (key : String) (d : Design) :
    (r.insert key d).unplaced = r.unplaced.insert key d.unplaced := by
  rw [unplaced, insert]
  simp only [insert, put_unplaced, unplaced]

theorem toStore_unplaced (r : Registry) : r.toStore.unplaced = r.unplaced.toStore := by
  apply Store.eq_of_lookup
  · funext n
    change Answer.unplaced ⟨r.lookup n, []⟩ = ⟨r.unplaced.lookup n, []⟩
    rw [lookup, lookup, r.get?_unplaced]
    cases r.get? n <;> rfl
  · exact r.names_unplaced.symm

theorem attempt_unplaced (r : Registry) (d : Design) :
    (r.attempt (.design d)).unplaced = r.unplaced.attempt (.design d.unplaced) := by
  have hcontains : r.unplaced.contains d.unplaced.name = r.contains d.name := by
    rw [contains, contains, r.get?_unplaced, Option.isSome_map]
    rfl
  rw [attempt, attempt, call, call, register, register, hcontains]
  cases r.contains d.name with
  | true => rfl
  | false => exact r.insert_unplaced d.name d

/-- A source that parses is registered as its design is. -/
theorem attempt_source (r : Registry) {text : String} {d : Design}
    (h : Design.parse text = .ok d) : r.attempt (.source text) = r.attempt (.design d) := by
  rw [attempt, attempt, call, call, registerSource, h]

def ofSources (sources : List String) : Registry :=
  empty.after (sources.map .source)

end Registry

/-- The second source is the first, or the printed form of the design that the first describes. -/
def Reformats (source source' : String) : Prop :=
  source' = source ∨ ∃ d, Design.parse source = .ok d ∧ source' = d.print

/-- A reformatted source describes the same design, up to spans. -/
theorem Reformats.parse {source source' : String} (h : Reformats source source') :
    Design.parse source' = Design.parse source ∨ ∃ d d', Design.parse source = .ok d ∧
      Design.parse source' = .ok d' ∧ d'.SameContent d := by
  rcases h with rfl | ⟨d, hd, rfl⟩
  · exact .inl rfl
  · obtain ⟨d', hd', hsame⟩ := Design.exists_parse_print (Design.spellable_of_parse hd)
    exact .inr ⟨d, d', hd, hd', hsame⟩

/-- Reformatted sources are registered as the same design, but for spans. -/
theorem Reformats.attempt_unplaced {source source' : String} (h : Reformats source source')
    {r r' : Registry} (hr : r'.unplaced = r.unplaced) :
    (r'.attempt (.source source')).unplaced = (r.attempt (.source source)).unplaced := by
  have hdesigns {d d' : Design} (hd : Design.parse source = .ok d)
      (hd' : Design.parse source' = .ok d') (hsame : d'.unplaced = d.unplaced) :
      (r'.attempt (.source source')).unplaced = (r.attempt (.source source)).unplaced := by
    rw [Registry.attempt_source r hd, Registry.attempt_source r' hd', Registry.attempt_unplaced,
      Registry.attempt_unplaced, hr, hsame]
  rcases h.parse with hparse | ⟨d, d', hd, hd', hsame⟩
  · cases hd : Design.parse source with
    | ok d => exact hdesigns hd (hparse.trans hd) rfl
    | error errors =>
      have hkept (x : Registry) {text : String} (htext : Design.parse text = .error errors) :
          x.attempt (.source text) = x := by
        rw [Registry.attempt, Registry.call, Registry.registerSource, htext]
      rw [hkept r hd, hkept r' (hparse.trans hd), hr]
  · exact hdesigns hd hd' hsame.unplaced_eq

/-- Registries of reformatted sources are the same, but for spans. -/
theorem ofSources_unplaced {sources sources' : List String}
    (h : List.Forall₂ Reformats sources sources') :
    (Registry.ofSources sources').unplaced = (Registry.ofSources sources).unplaced := by
  have hafter {r r' : Registry} (hr : r'.unplaced = r.unplaced) :
      (r'.after (sources'.map .source)).unplaced = (r.after (sources.map .source)).unplaced := by
    induction h generalizing r r' with
    | nil => exact hr
    | cons hsource _ ih => exact ih (hsource.attempt_unplaced hr)
  exact hafter rfl

namespace Settings

variable {s : Settings} {store store' : Store} {source : String}

theorem composeSource_of_ok {master : Design} (h : Design.parse source = .ok master) :
    s.composeSource store source =
      ((s.composer store).compose master).outcome.mapError .failed := by
  rw [composeSource, h]
  rfl

theorem composeSource_of_error {errors : List SyntaxError}
    (h : Design.parse source = .error errors) :
    s.composeSource store source = .error (.malformed errors) := by
  rw [composeSource, h]
  rfl

/-- Without spans, a composition depends on the master and the store without spans. -/
theorem outcome_unplaced (hstore : store'.unplaced = store.unplaced) {master master' : Design}
    (hmaster : master'.unplaced = master.unplaced) :
    (((s.composer store').compose master').outcome.mapError SourceError.failed).mapError
        SourceError.unplaced =
      (((s.composer store).compose master).outcome.mapError .failed).mapError
        SourceError.unplaced := by
  have hcomposer : (s.composer store').unplaced Report.CompileError.unplaced =
      (s.composer store).unplaced Report.CompileError.unplaced := by
    rw [Composer.unplaced, Composer.unplaced, composer, composer, hstore]
  have hrun : ((s.composer store').compose master').unplaced Report.CompileError.unplaced =
      ((s.composer store).compose master).unplaced Report.CompileError.unplaced := by
    rw [Composer.compose_unplaced (s.placeless store'),
      Composer.compose_unplaced (s.placeless store), hcomposer, hmaster]
  have hfailed (x : Except (ComposeError Report.CompileError) (Package Report)) :
      (x.mapError SourceError.failed).mapError SourceError.unplaced =
        (x.mapError (ComposeError.unplaced Report.CompileError.unplaced)).mapError .failed := by
    cases x <;> rfl
  rw [hfailed, hfailed]
  exact congrArg (fun run => run.outcome.mapError SourceError.failed) hrun

end Settings

/-- To reformat the source of a master or of templates changes no composition, but for the spans in
an error. -/
theorem reformatting_keeps_composition (s : Settings) {source source' : String}
    {templates templates' : List String} (hsource : Reformats source source')
    (htemplates : List.Forall₂ Reformats templates templates') :
    (s.composeSource (Registry.ofSources templates').toStore source').mapError
        SourceError.unplaced =
      (s.composeSource (Registry.ofSources templates).toStore source).mapError
        SourceError.unplaced := by
  have hstore : (Registry.ofSources templates').toStore.unplaced =
      (Registry.ofSources templates).toStore.unplaced := by
    rw [Registry.toStore_unplaced, Registry.toStore_unplaced, ofSources_unplaced htemplates]
  rcases hsource.parse with hparse | ⟨d, d', hd, hd', hsame⟩
  · cases hd : Design.parse source with
    | ok d =>
      rw [Settings.composeSource_of_ok hd, Settings.composeSource_of_ok (hparse.trans hd)]
      exact Settings.outcome_unplaced hstore rfl
    | error errors =>
      rw [Settings.composeSource_of_error hd, Settings.composeSource_of_error (hparse.trans hd)]
  · rw [Settings.composeSource_of_ok hd, Settings.composeSource_of_ok hd']
    exact Settings.outcome_unplaced hstore hsame.unplaced_eq

def denseMaster : String :=
  "report \"M\" \x7bsection detail \x7bsubreport `\"A\"` subreport `\"B\"`\x7d\x7d"

def airyMaster : String :=
  "report \"M\" \x7b\n    section detail \x7b\n        subreport `\"A\"`\n" ++
    "        subreport `\"B\"`\n    \x7d\n\x7d"

def denseTemplate : String :=
  "report \"A\" \x7bsection detail \x7btext \"a\"\x7d\x7d"

def airyTemplate : String :=
  "report \"A\" \x7b\n    section detail \x7b\n        text \"a\"\n    \x7d\n\x7d"

theorem reformatting_keeps_composition_airy :
    Reformats denseMaster airyMaster ∧ Reformats denseTemplate airyTemplate ∧
      Settings.default.composeSource (Registry.ofSources [denseTemplate]).toStore denseMaster =
        .error (.failed (.referenceNotFound "B" ⟨44, 59⟩)) ∧
      Settings.default.composeSource (Registry.ofSources [airyTemplate]).toStore airyMaster =
        .error (.failed (.referenceNotFound "B" ⟨66, 81⟩)) ∧
      (Settings.default.composeSource (Registry.ofSources [airyTemplate]).toStore
          airyMaster).mapError SourceError.unplaced =
        (Settings.default.composeSource (Registry.ofSources [denseTemplate]).toStore
          denseMaster).mapError SourceError.unplaced := by
  have hmaster : Design.parse denseMaster =
      .ok ⟨"M", [], [⟨.detail, [⟨.subreport ⟨"\"A\"", .string⟩, ⟨28, 43⟩⟩,
        ⟨.subreport ⟨"\"B\"", .string⟩, ⟨44, 59⟩⟩]⟩]⟩ := by cbv
  have htemplate : Design.parse denseTemplate =
      .ok ⟨"A", [], [⟨.detail, [⟨.text "a", ⟨28, 36⟩⟩]⟩]⟩ := by cbv
  have hmasters : Reformats denseMaster airyMaster := .inr ⟨_, hmaster, by cbv⟩
  have htemplates : Reformats denseTemplate airyTemplate := .inr ⟨_, htemplate, by cbv⟩
  refine ⟨hmasters, htemplates, by cbv, by cbv, ?_⟩
  exact reformatting_keeps_composition .default hmasters (.cons htemplates .nil)

end ReportAssembly
