import ReportAssembly.Files.Snapshot
import ReportAssembly.Proofs.Locality
import ReportAssembly.Proofs.Reformatting
import ReportAssembly.Store.Directory

namespace ReportAssembly

structure TemplateSource where
  text : String
  design : Design
  parses : Design.parse text = .ok design

def TemplateSource.name (x : TemplateSource) : String :=
  x.design.name

namespace Registry

variable {r : Registry}

def registerAll (r : Registry) (sources : List String) : Except TemplateError Registry :=
  sources.foldlM (fun r source => (r.registerSource source).result) r

/-- Sources with names that are free and differ are all registered. -/
theorem exists_registerAll (xs : List TemplateSource)
    (h : (r.names ++ xs.map TemplateSource.name).Nodup) :
    ∃ r', r.registerAll (xs.map (·.text)) = .ok r' ∧
      ∀ n d, r'.get? n = some d ↔ r.get? n = some d ∨ ∃ x ∈ xs, x.name = n ∧ x.design = d := by
  induction xs generalizing r with
  | nil => exact ⟨r, rfl, by simp⟩
  | cons x xs ih =>
    rw [List.map_cons, List.append_cons] at h
    have hfree : x.design.name ∉ r.names := by
      intro hmem
      have hfront : (r.names ++ [x.name]).Nodup := h.of_append_left
      exact (List.nodup_append.mp hfront).2.2 _ hmem _ List.mem_cons_self rfl
    have hstep : r.registerSource x.text = ⟨.ok (), r.insert x.name x.design⟩ := by
      rw [registerSource, x.parses]
      dsimp only
      rw [register, contains_eq_false_iff.mpr hfree]
      rfl
    have hnames : (r.insert x.name x.design).names = r.names ++ [x.name] := by
      rw [names_insert]
      exact if_neg hfree
    obtain ⟨r', hr', hfound⟩ := ih (hnames ▸ h)
    refine ⟨r', ?_, fun n d => ?_⟩
    · rw [registerAll, List.map_cons, List.foldlM_cons, hstep]
      exact hr'
    · rw [hfound, get?_insert, List.exists_mem_cons_iff]
      by_cases hn : n = x.name
      · subst hn
        have hnone : r.get? x.name = none := get?_eq_none_iff.mpr hfree
        simp [hnone]
      · simp [hn, Ne.symm hn]

end Registry

namespace TemplateDirectory

variable {t : TemplateDirectory} {sources : List TemplateSource} {n : String}

def fileName (t : TemplateDirectory) (n : String) : String :=
  n ++ "." ++ t.extension

structure Holds (t : TemplateDirectory) (sources : List TemplateSource) : Prop where
  held : ∀ x ∈ sources,
    t.files.node (Path.join t.base (t.fileName x.name)) = .file (.text x.text)
  only : ∀ entry : String, '/' ∉ entry.toList →
    (t.files.node (Path.join t.base entry)).isFile = true →
    ∃ x ∈ sources, entry = t.fileName x.name

/-- Different names have different files. -/
theorem fileName_injective (t : TemplateDirectory) : Function.Injective t.fileName := by
  intro n m h
  have hlist : n.toList ++ ("." ++ t.extension).toList =
      m.toList ++ ("." ++ t.extension).toList := by
    rw [← String.toList_append, ← String.toList_append, ← String.append_assoc,
      ← String.append_assoc]
    exact congrArg String.toList h
  exact String.toList_inj.mp (List.append_cancel_right hlist)

theorem slash_notMem_of_isIdentifier (hn : isIdentifier n = true) : '/' ∉ n.toList :=
  fun hmem => absurd (isWordPart_of_isIdentifier hn '/' hmem) (by decide)

theorem slash_notMem_fileName (hn : isIdentifier n = true) (hext : '/' ∉ t.extension.toList) :
    '/' ∉ (t.fileName n).toList := by
  rw [fileName, String.toList_append, String.toList_append, List.mem_append, List.mem_append]
  rintro ((h | h) | h)
  · exact slash_notMem_of_isIdentifier hn h
  · exact absurd h (by decide)
  · exact hext h

/-- An identifier can be the name of a file. -/
theorem path?_of_isIdentifier (t : TemplateDirectory) (hn : isIdentifier n = true) :
    t.path? n = some (Path.join t.base (t.fileName n)) := by
  have hword := isWordPart_of_isIdentifier hn
  have hempty : n ≠ "" := fun h => toList_ne_nil_of_isIdentifier hn (h ▸ rfl)
  have hdot : '.' ∉ n.toList := fun hmem => absurd (hword '.' hmem) (by decide)
  have hself : n ≠ "." := by
    rintro rfl
    exact hdot (by decide)
  have habove : n ≠ ".." := by
    rintro rfl
    exact hdot (by decide)
  have hall : n.toList.all (fun c => c != '/' && c != '\\') = true := by
    rw [List.all_eq_true]
    intro c hc
    rw [Bool.and_eq_true, bne_iff_ne, bne_iff_ne]
    constructor
    · rintro rfl
      exact absurd (hword _ hc) (by decide)
    · rintro rfl
      exact absurd (hword _ hc) (by decide)
  have hfile : isFileName n = true := by
    rw [isFileName, hall, bne_iff_ne.mpr hempty, bne_iff_ne.mpr hself, bne_iff_ne.mpr habove]
    rfl
  rw [path?, if_pos hfile, fileName]

/-- A template whose file is held is found. -/
theorem Holds.lookup_of_mem (h : t.Holds sources) {x : TemplateSource} (hx : x ∈ sources)
    (hn : isIdentifier x.name = true) : (t.lookup x.name).outcome = .ok x.design := by
  rw [lookup, t.path?_of_isIdentifier hn]
  simp only [h.held x hx, Node.isFile, if_true, load, Node.read, x.parses]

/-- Nothing else is found. -/
theorem Holds.lookup_of_notMem (h : t.Holds sources) (hext : '/' ∉ t.extension.toList)
    (hn : isIdentifier n = true) (hmem : n ∉ sources.map TemplateSource.name) :
    (t.lookup n).outcome = .error (.notFound n) := by
  have hfile : (t.files.node (Path.join t.base (t.fileName n))).isFile = false := by
    rw [Bool.eq_false_iff]
    intro hfile
    obtain ⟨x, hx, hname⟩ := h.only _ (slash_notMem_fileName hn hext) hfile
    obtain rfl : n = x.name := t.fileName_injective hname
    exact hmem (List.mem_map_of_mem hx)
  rw [lookup, t.path?_of_isIdentifier hn]
  simp only [hfile, Bool.false_eq_true, if_false]

/-- The directory answers an identifier as the registry of the same designs does. -/
theorem Holds.lookup_eq (h : t.Holds sources) (hext : '/' ∉ t.extension.toList) {r : Registry}
    (hr : ∀ d, r.get? n = some d ↔ ∃ x ∈ sources, x.name = n ∧ x.design = d)
    (hn : isIdentifier n = true) : (t.lookup n).outcome = r.lookup n := by
  by_cases hmem : n ∈ sources.map TemplateSource.name
  · obtain ⟨x, hx, rfl⟩ := List.mem_map.mp hmem
    have hfound : r.get? x.name = some x.design := (hr x.design).mpr ⟨x, hx, rfl, rfl⟩
    rw [h.lookup_of_mem hx hn, Registry.lookup_eq_ok_iff.mpr hfound]
  · have hnone : r.get? n = none := by
      rw [Option.eq_none_iff_forall_ne_some]
      intro d hd
      obtain ⟨x, hx, hname, -⟩ := (hr d).mp hd
      exact hmem (List.mem_map.mpr ⟨x, hx, hname⟩)
    rw [h.lookup_of_notMem hext hn hmem, Registry.lookup_eq_notFound_iff.mpr hnone]

end TemplateDirectory

/-- Stores that answer identifiers alike lead to the same compositions. -/
theorem compose_agrees_of_identifiers {α ε : Type} {store store' : Store}
    (h : ∀ n, isIdentifier n = true → (store'.lookup n).outcome = (store.lookup n).outcome)
    (compile : Design → Except ε α) (nested : Bool) (master : Design) :
    ((⟨store, compile, nested⟩ : Composer α ε).compose master).Agrees
      ((⟨store', compile, nested⟩ : Composer α ε).compose master) := by
  apply Composer.compose_agrees (c := ⟨store, compile, nested⟩)
  intro n hn
  exact h n ((Composer.onceEach_compose ⟨store, compile, nested⟩ master).identifiers n hn)

/-- A directory of exactly the files of some templates serves every composition as the registry does
in which they are registered, in whatever order. -/
theorem directory_serves_as_registry (t : TemplateDirectory)
    (sources registered : List TemplateSource)
    (hdistinct : (sources.map TemplateSource.name).Nodup) (hholds : t.Holds sources)
    (hext : '/' ∉ t.extension.toList) (hregistered : registered.Perm sources) :
    ∃ r, Registry.empty.registerAll (registered.map (·.text)) = .ok r ∧
      (∀ {α ε : Type} (compile : Design → Except ε α) (nested : Bool) (master : Design),
        ((⟨t.toStore, compile, nested⟩ : Composer α ε).compose master).Agrees
          ((⟨r.toStore, compile, nested⟩ : Composer α ε).compose master)) ∧
      ∀ (s : Settings) (source : String),
        s.composeSource t.toStore source = s.composeSource r.toStore source := by
  have hnodup : (registered.map TemplateSource.name).Nodup :=
    (hregistered.map TemplateSource.name).nodup_iff.mpr hdistinct
  obtain ⟨r, hregister, hfound⟩ := Registry.exists_registerAll (r := .empty) registered hnodup
  have hlookup (n : String) (hn : isIdentifier n = true) : r.lookup n = (t.lookup n).outcome := by
    refine (hholds.lookup_eq hext (fun d => (hfound n d).trans ?_) hn).symm
    rw [or_iff_right fun h => nomatch h]
    simp only [hregistered.mem_iff]
  have hagrees {α ε : Type} (compile : Design → Except ε α) (nested : Bool) (master : Design) :
      ((⟨t.toStore, compile, nested⟩ : Composer α ε).compose master).Agrees
        ((⟨r.toStore, compile, nested⟩ : Composer α ε).compose master) :=
    compose_agrees_of_identifiers hlookup compile nested master
  refine ⟨r, hregister, hagrees, ?_⟩
  intro s source
  cases hsource : Design.parse source with
  | error errors =>
    rw [Settings.composeSource_of_error hsource, Settings.composeSource_of_error hsource]
  | ok master =>
    rw [Settings.composeSource_of_ok hsource, Settings.composeSource_of_ok hsource]
    exact congrArg _ (hagrees Report.compile s.nested master).outcome

namespace Path

/-- No two entries of a directory have the same path. -/
theorem join_inj {base a b : String} (ha : '/' ∉ a.toList) (hb : '/' ∉ b.toList)
    (h : join base a = join base b) : a = b := by
  have hrelative {path : String} (hpath : '/' ∉ path.toList) : isAbsolute path = false := by
    rw [isAbsolute, decide_eq_false_iff_not]
    exact fun hhead => hpath (List.mem_of_mem_head? hhead)
  unfold join at h
  rw [hrelative ha, hrelative hb] at h
  split_ifs at h
  · exact h
  · exact String.append_right_inj _ |>.mp h
  · exact String.append_right_inj _ |>.mp h

end Path

namespace TemplateDirectory

def fileEntry (base extension : String) (x : TemplateSource) : String × Node :=
  (Path.join base (x.name ++ "." ++ extension), .file (.text x.text))

def ofSources (base extension : String) (sources : List TemplateSource) : TemplateDirectory where
  base := base
  extension := extension
  files := Snapshot.toFileSystem (sources.map (fileEntry base extension))

theorem node_ofSources (base extension : String) (sources : List TemplateSource) (path : String) :
    (ofSources base extension sources).files.node path =
      ((sources.map (fileEntry base extension)).lookup path).getD (.absent .notFound) :=
  rfl

/-- A directory of sources with distinct names holds exactly these. -/
theorem holds_ofSources (base extension : String) {sources : List TemplateSource}
    (hdistinct : (sources.map TemplateSource.name).Nodup)
    (hflat : ∀ x ∈ sources, '/' ∉ (x.name ++ "." ++ extension).toList) :
    (ofSources base extension sources).Holds sources := by
  constructor
  case held =>
    intro x hx
    obtain ⟨front, back, rfl⟩ := List.append_of_mem hx
    rw [List.map_append, List.map_cons, List.nodup_append] at hdistinct
    have hearlier : ∀ entry ∈ front.map (fileEntry base extension),
        Path.join base (x.name ++ "." ++ extension) != entry.1 := by
      intro entry hentry
      obtain ⟨y, hy, rfl⟩ := List.mem_map.mp hentry
      rw [bne_iff_ne]
      intro hpath
      have hfile := Path.join_inj (hflat x hx) (hflat y (List.mem_append_left _ hy)) hpath
      have hname : x.name = y.name :=
        (ofSources base extension (front ++ x :: back)).fileName_injective hfile
      exact hdistinct.2.2 _ (List.mem_map_of_mem hy) _ List.mem_cons_self hname.symm
    have hfound : ((front ++ x :: back).map (fileEntry base extension)).lookup
        (Path.join base (x.name ++ "." ++ extension)) = some (.file (.text x.text)) :=
      List.lookup_eq_some_iff.mpr
        ⟨_, back.map (fileEntry base extension), List.map_append, hearlier⟩
    rw [node_ofSources]
    exact congrArg (Option.getD · _) hfound
  case only =>
    intro entry hentry hfile
    have hnode : Node.isFile (((sources.map (fileEntry base extension)).lookup
        (Path.join base entry)).getD (.absent .notFound)) = true := hfile
    cases hfound : (sources.map (fileEntry base extension)).lookup (Path.join base entry) with
    | none =>
      rw [hfound] at hnode
      exact nomatch hnode
    | some node =>
      obtain ⟨front, back, hsplit, -⟩ := List.lookup_eq_some_iff.mp hfound
      have hmem : (Path.join base entry, node) ∈ sources.map (fileEntry base extension) := by
        rw [hsplit]
        simp
      obtain ⟨x, hx, hentry'⟩ := List.mem_map.mp hmem
      exact ⟨x, hx, Path.join_inj hentry (hflat x hx) (Prod.mk.inj hentry').1.symm⟩

end TemplateDirectory

def plainSource : TemplateSource where
  text := denseTemplate
  design := ⟨"A", [], [⟨.detail, [⟨.text "a", ⟨28, 36⟩⟩]⟩]⟩
  parses := by cbv

def framingSource : TemplateSource where
  text := "report \"B\" \x7bsection detail \x7bsubreport `\"A\"`\x7d\x7d"
  design := ⟨"B", [], [⟨.detail, [⟨.subreport ⟨"\"A\"", .string⟩, ⟨28, 43⟩⟩]⟩]⟩
  parses := by cbv

def filedTemplates : TemplateDirectory :=
  .ofSources "templates" "rdl" [plainSource, framingSource]

theorem directory_serves_as_registry_framing :
    filedTemplates.Holds [plainSource, framingSource] ∧
      Registry.empty.registerAll [framingSource.text, plainSource.text] =
        .ok (.ofDesigns [framingSource.design, plainSource.design]) ∧
      (∀ (s : Settings) (source : String), s.composeSource filedTemplates.toStore source =
        s.composeSource
          (Registry.ofDesigns [framingSource.design, plainSource.design]).toStore source) ∧
      (({ Settings.default with nested := true }).composeSource filedTemplates.toStore
        denseMaster).map Package.names = .ok ["A", "B"] := by
  have hdistinct : ([plainSource, framingSource].map TemplateSource.name).Nodup := by decide
  have hholds : filedTemplates.Holds [plainSource, framingSource] :=
    TemplateDirectory.holds_ofSources "templates" "rdl" hdistinct (by decide)
  obtain ⟨r, hr, -, hsources⟩ := directory_serves_as_registry filedTemplates
    [plainSource, framingSource] [framingSource, plainSource] hdistinct hholds (by decide)
    (List.Perm.swap _ _ _)
  have hregister : Registry.empty.registerAll [framingSource.text, plainSource.text] =
      .ok (.ofDesigns [framingSource.design, plainSource.design]) := by cbv
  obtain rfl := Except.ok.inj (hregister.symm.trans hr)
  refine ⟨hholds, hregister, hsources, ?_⟩
  rw [hsources]
  cbv

end ReportAssembly
