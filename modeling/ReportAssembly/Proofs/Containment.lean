import ReportAssembly.Proofs.FiledTemplates

namespace ReportAssembly

namespace Path

def named (path : String) : List String :=
  (split path).filter isComponent

structure ChildOf (path directory entry : String) : Prop where
  absolute : isAbsolute path = isAbsolute directory
  named_eq : named path = named directory ++ [entry]
  single : '/' ∉ entry.toList
  proper : entry ≠ "" ∧ entry ≠ "." ∧ entry ≠ ".."

/-- Text without a slash in front makes the first part longer. -/
theorem splitChars_append_of_notMem {as : List Char} (h : '/' ∉ as) (bs : List Char) :
    ∃ part parts, splitChars bs = part :: parts ∧
      splitChars (as ++ bs) = (as ++ part) :: parts := by
  induction as with
  | nil =>
    obtain ⟨part, parts, hbs⟩ := List.exists_cons_of_ne_nil (splitChars_ne_nil bs)
    exact ⟨part, parts, hbs, hbs⟩
  | cons a as ih =>
    obtain ⟨ha, has⟩ := not_or.mp (mt List.mem_cons.mpr h)
    obtain ⟨part, parts, hbs, hsplit⟩ := ih has
    refine ⟨part, parts, hbs, ?_⟩
    rw [List.cons_append, splitChars, if_neg (Ne.symm ha), hsplit]
    rfl

theorem split_of_notMem {path : String} (h : '/' ∉ path.toList) : split path = [path] := by
  obtain ⟨part, parts, hnil, hsplit⟩ := splitChars_append_of_notMem h []
  obtain ⟨rfl, rfl⟩ := List.cons.inj hnil
  rw [split, ← List.append_nil path.toList, hsplit, List.append_nil, List.map_singleton,
    String.ofList_toList]

theorem isAbsolute_of_split {path first : String} {rest : List String}
    (h : split path = first :: rest) (hfirst : first ≠ "") : isAbsolute path = false := by
  rw [isAbsolute, decide_eq_false_iff_not]
  intro hslash
  obtain ⟨cs, hcs⟩ := List.head?_eq_some_iff.mp hslash
  rw [split, hcs, splitChars, if_pos rfl] at h
  exact hfirst (List.cons.inj h).1.symm

/-- A join is absolute exactly if the directory is. -/
theorem isAbsolute_join {path : String} (h : isAbsolute path = false) (directory : String) :
    isAbsolute (join directory path) = isAbsolute directory := by
  have hfront (back : String) (hne : directory.toList ≠ []) :
      isAbsolute (directory ++ back) = isAbsolute directory := by
    rw [isAbsolute, isAbsolute, String.toList_append, List.head?_append_of_ne_nil _ hne]
  unfold join
  rw [h, Bool.false_or]
  split_ifs with hempty hslash
  · rw [String.isEmpty_iff.mp hempty, h]
    rfl
  all_goals
    have hne : directory.toList ≠ [] := fun hnil =>
      hempty (String.isEmpty_iff.mpr (String.toList_eq_nil_iff.mp hnil))
  · exact hfront path hne
  · rw [String.append_assoc]
    exact hfront _ hne

/-- What a path names below a directory comes behind what the directory names. -/
theorem named_join {path : String} (h : isAbsolute path = false) (directory : String) :
    named (join directory path) = named directory ++ named path := by
  have hslash (front : List Char) : named (.ofList (front ++ '/' :: path.toList)) =
      ((splitChars front).map String.ofList).filter isComponent ++ named path := by
    rw [named, split, String.toList_ofList, splitChars_append_slash, List.map_append,
      List.filter_append]
    rfl
  unfold join
  rw [h, Bool.false_or]
  split_ifs with hempty hlast
  · rw [String.isEmpty_iff.mp hempty]
    rfl
  · obtain ⟨front, hfront⟩ := List.getLast?_eq_some_iff.mp hlast
    have hpath : directory ++ path = .ofList (front ++ '/' :: path.toList) := by
      rw [← String.toList_inj, String.toList_append, hfront, String.toList_ofList,
        List.append_assoc]
      rfl
    have hdirectory : named directory =
        ((splitChars front).map String.ofList).filter isComponent := by
      rw [named, split, hfront, splitChars_append_slash, List.map_append, List.filter_append]
      exact List.append_nil _
    rw [hpath, hslash, hdirectory]
  · have hpath : directory ++ "/" ++ path = .ofList (directory.toList ++ '/' :: path.toList) := by
      rw [← String.toList_inj]
      simp
    rw [hpath, hslash]
    rfl

end Path

namespace TemplateDirectory

variable {t : TemplateDirectory} {n m path : String}

theorem path?_eq_some_iff :
    t.path? n = some path ↔ isFileName n = true ∧ path = Path.join t.base (t.fileName n) := by
  rw [path?, fileName]
  split_ifs with h
  · simp [h, eq_comm]
  · simp [h]

theorem slash_notMem_of_isFileName (h : isFileName n = true) : '/' ∉ n.toList := by
  simp only [isFileName, Bool.and_eq_true, List.all_eq_true] at h
  intro hmem
  simpa using (h.2 _ hmem).1

/-- The name of a template file begins with a part that is a name, whatever the extension is. -/
theorem exists_split_fileName (t : TemplateDirectory) (h : isFileName n = true) :
    ∃ first rest, Path.split (t.fileName n) = first :: rest ∧
      first ≠ "" ∧ first ≠ "." ∧ first ≠ ".." := by
  have hslash : '/' ∉ n.toList ++ ['.'] := by
    rw [List.mem_append, List.mem_singleton, not_or]
    exact ⟨slash_notMem_of_isFileName h, by decide⟩
  obtain ⟨part, parts, -, hsplit⟩ :=
    Path.splitChars_append_of_notMem hslash t.extension.toList
  have htext : (t.fileName n).toList = n.toList ++ ['.'] ++ t.extension.toList := by
    rw [fileName, String.toList_append, String.toList_append]
    rfl
  simp only [isFileName, Bool.and_eq_true, bne_iff_ne, ne_eq] at h
  obtain ⟨⟨⟨hempty, hself⟩, -⟩, -⟩ := h
  obtain ⟨c, cs, hn⟩ := List.exists_cons_of_ne_nil (mt String.toList_eq_nil_iff.mp hempty)
  refine ⟨.ofList (n.toList ++ ['.'] ++ part), parts.map .ofList, ?_, ?_, ?_, ?_⟩
  · rw [Path.split, htext, hsplit]
    rfl
  all_goals
    rw [ne_eq, ← String.toList_inj, String.toList_ofList, hn]
    intro heq
  · simp at heq
  · cases cs <;> simp at heq
  · cases cs with
    | nil =>
      obtain rfl := (List.cons.inj heq).1
      exact hself (String.toList_inj.mp hn)
    | cons d ds => cases ds <;> simp at heq

/-- Without a slash in the extension the file of a template is an entry of the directory. -/
theorem childOf_of_path? (hext : '/' ∉ t.extension.toList) (h : t.path? n = some path) :
    Path.ChildOf path t.base (t.fileName n) := by
  obtain ⟨hn, rfl⟩ := path?_eq_some_iff.mp h
  have hslash : '/' ∉ (t.fileName n).toList := by
    rw [fileName, String.toList_append, String.toList_append, List.mem_append, List.mem_append]
    rintro ((hmem | hmem) | hmem)
    · exact slash_notMem_of_isFileName hn hmem
    · exact absurd hmem (by decide)
    · exact hext hmem
  obtain ⟨first, rest, hsplit, hproper⟩ := t.exists_split_fileName hn
  have habsolute := Path.isAbsolute_of_split hsplit hproper.1
  have hone := Path.split_of_notMem hslash
  obtain rfl : t.fileName n = first := (List.cons.inj (hone.symm.trans hsplit)).1
  have hcomponent : Path.isComponent (t.fileName n) = true := by
    rw [Path.isComponent, bne_iff_ne.mpr hproper.1, bne_iff_ne.mpr hproper.2.1]
    rfl
  refine ⟨Path.isAbsolute_join habsolute t.base, ?_, hslash, hproper⟩
  rw [Path.named_join habsolute, Path.named, Path.named, hone, List.filter_singleton, hcomponent]
  rfl

end TemplateDirectory

def Node.content? : Node → Option Content
  | file content => some content
  | _ => none

theorem Node.isFile_eq (x : Node) : x.isFile = x.content?.isSome := by
  cases x <;> rfl

theorem Node.eq_file_of_content? {x : Node} {content : Content} (h : x.content? = some content) :
    x = file content := by
  cases x with
  | file content' => rw [Option.some.inj h]
  | _ => cases h

namespace TemplateDirectory

variable {t : TemplateDirectory} {files : FileSystem} {n : String}

/-- Where the directory has the file of an identifier, other files have the same, and where it has
none they have none. -/
def SameTemplates (t : TemplateDirectory) (files : FileSystem) : Prop :=
  ∀ n, isIdentifier n = true →
    (files.node (Path.join t.base (t.fileName n))).content? =
      (t.files.node (Path.join t.base (t.fileName n))).content?

/-- The answer to a name depends on what the file of that name holds. -/
theorem lookup_congr (h : (files.node (Path.join t.base (t.fileName n))).content? =
      (t.files.node (Path.join t.base (t.fileName n))).content?) :
    ({ t with files := files } : TemplateDirectory).lookup n = t.lookup n := by
  have hpath : ({ t with files := files } : TemplateDirectory).path? n = t.path? n := rfl
  rw [lookup, lookup, hpath]
  cases hn : t.path? n with
  | none => rfl
  | some path =>
    obtain ⟨-, rfl⟩ := path?_eq_some_iff.mp hn
    dsimp only
    rw [Node.isFile_eq, Node.isFile_eq, h]
    cases hcontent : (t.files.node (Path.join t.base (t.fileName n))).content? with
    | none => rfl
    | some content =>
      rw [Node.eq_file_of_content? hcontent, Node.eq_file_of_content? (h.trans hcontent)]

end TemplateDirectory

/-- The file of a template is found below the directory, in it if the extension has no slash, and
then no other name leads to it. So what a composition against the directory reads are files of
identifiers there, and whatever else changes in the file system, the composition does not. -/
theorem compositions_read_template_files (t : TemplateDirectory) :
    (∀ n path, t.path? n = some path → path = Path.join t.base (n ++ "." ++ t.extension) ∧
      ∃ first rest, Path.split (n ++ "." ++ t.extension) = first :: rest ∧
        first ≠ "" ∧ first ≠ "." ∧ first ≠ "..") ∧
    ('/' ∉ t.extension.toList →
      (∀ n path, t.path? n = some path →
        Path.ChildOf path t.base (n ++ "." ++ t.extension)) ∧
      ∀ n m path path', t.path? n = some path → t.path? m = some path' →
        Path.named path = Path.named path' → n = m) ∧
    ∀ {α ε : Type} (compile : Design → Except ε α) (nested : Bool) (master : Design),
      (∀ n ∈ ((⟨t.toStore, compile, nested⟩ : Composer α ε).compose master).lookedUp,
        isIdentifier n = true ∧ t.path? n = some (Path.join t.base (n ++ "." ++ t.extension))) ∧
      ∀ files : FileSystem, t.SameTemplates files →
        ((⟨t.toStore, compile, nested⟩ : Composer α ε).compose master).Agrees
          ((⟨({ t with files := files } : TemplateDirectory).toStore, compile, nested⟩ :
            Composer α ε).compose master) := by
  refine ⟨fun n path h => ?_, fun hext => ⟨fun n path h => ?_, ?_⟩, ?_⟩
  · obtain ⟨hn, hpath⟩ := TemplateDirectory.path?_eq_some_iff.mp h
    exact ⟨hpath, t.exists_split_fileName hn⟩
  · exact TemplateDirectory.childOf_of_path? hext h
  · intro n m path path' hn hm hsame
    have hchild := TemplateDirectory.childOf_of_path? hext hn
    have hchild' := TemplateDirectory.childOf_of_path? hext hm
    rw [hchild.named_eq, hchild'.named_eq] at hsame
    exact t.fileName_injective (List.singleton_injective (List.append_cancel_left hsame))
  · intro α ε compile nested master
    constructor
    · intro n hn
      have hidentifier := (Composer.onceEach_compose
        (⟨t.toStore, compile, nested⟩ : Composer α ε) master).identifiers n hn
      exact ⟨hidentifier, t.path?_of_isIdentifier hidentifier⟩
    · intro files hfiles
      apply compose_agrees_of_identifiers
      intro n hn
      exact congrArg Answer.outcome (TemplateDirectory.lookup_congr (hfiles n hn))

def surroundedFiles (outside : String) : FileSystem :=
  Snapshot.toFileSystem [("secret.rdl", .file (.text outside)),
    ("templates/A.rdl", .file (.text denseTemplate))]

def surroundedTemplates : TemplateDirectory :=
  ⟨"templates", "rdl", surroundedFiles "one"⟩

/-- The file outside is no template file. -/
theorem surroundedTemplates_same :
    surroundedTemplates.SameTemplates (surroundedFiles "another") := by
  intro n hn
  have hchild := TemplateDirectory.childOf_of_path? (t := surroundedTemplates) (by decide)
    (surroundedTemplates.path?_of_isIdentifier hn)
  have hother : (Path.join surroundedTemplates.base (surroundedTemplates.fileName n) ==
      "secret.rdl") = false := by
    rw [beq_eq_false_iff_ne]
    intro hpath
    have hnamed := hchild.named_eq
    rw [hpath] at hnamed
    have hone : Path.named "secret.rdl" = ["secret.rdl"] := by cbv
    have htwo : Path.named surroundedTemplates.base = ["templates"] := by cbv
    rw [hone, htwo] at hnamed
    simp at hnamed
  have hnode (outside : String) :
      (surroundedFiles outside).node
          (Path.join surroundedTemplates.base (surroundedTemplates.fileName n)) =
        Snapshot.node [("templates/A.rdl", .file (.text denseTemplate))]
          (Path.join surroundedTemplates.base (surroundedTemplates.fileName n)) := by
    change Snapshot.node _ _ = _
    rw [Snapshot.node, List.lookup_cons, hother]
    rfl
  exact congrArg Node.content? ((hnode "another").trans (hnode "one").symm)

def quotingMaster : Design :=
  ⟨"M", [], [⟨.detail, [⟨.subreport ⟨"\"A\"", .string⟩, ⟨28, 43⟩⟩]⟩]⟩

theorem compositions_read_template_files_surrounded :
    surroundedTemplates.path? "A" = some "templates/A.rdl" ∧
      Path.ChildOf "templates/A.rdl" "templates" "A.rdl" ∧
      surroundedTemplates.path? "../secret" = none ∧
      Path.named "templates/A.rdl" ≠ Path.named "templates/B.rdl" ∧
      surroundedTemplates.SameTemplates (surroundedFiles "another") ∧
      ((⟨surroundedTemplates.toStore, fun d => .ok d.name, true⟩ :
        Composer String Empty).compose quotingMaster).outcome = .ok ⟨"M", [("A", "A")]⟩ ∧
      ((⟨surroundedTemplates.toStore, fun d => .ok d.name, true⟩ :
        Composer String Empty).compose quotingMaster).Agrees
        ((⟨({ surroundedTemplates with files := surroundedFiles "another" } :
            TemplateDirectory).toStore, fun d => .ok d.name, true⟩ :
          Composer String Empty).compose quotingMaster) := by
  obtain ⟨-, hchildren, hcompositions⟩ := compositions_read_template_files surroundedTemplates
  obtain ⟨hchild, hdistinct⟩ := hchildren (by decide)
  have hA : surroundedTemplates.path? "A" = some "templates/A.rdl" := by decide
  have hB : surroundedTemplates.path? "B" = some "templates/B.rdl" := by decide
  have habove : surroundedTemplates.path? "../secret" = none := if_neg (by decide)
  have hfound : (surroundedTemplates.lookup "A").outcome = .ok plainSource.design := by
    have hnode : surroundedTemplates.files.node "templates/A.rdl" =
        .file (.text plainSource.text) := by decide
    rw [TemplateDirectory.lookup, hA]
    simp only [hnode, Node.isFile, if_true, TemplateDirectory.load, Node.read, plainSource.parses]
  have hlookedUp : ((⟨(Registry.ofDesigns [plainSource.design]).toStore, fun d => .ok d.name, true⟩ :
      Composer String Empty).compose quotingMaster).lookedUp = ["A"] := by cbv
  have hregistry : ((⟨(Registry.ofDesigns [plainSource.design]).toStore, fun d => .ok d.name, true⟩ :
      Composer String Empty).compose quotingMaster).outcome = .ok ⟨"M", [("A", "A")]⟩ := by cbv
  have hagrees : ((⟨(Registry.ofDesigns [plainSource.design]).toStore, fun d => .ok d.name, true⟩ :
      Composer String Empty).compose quotingMaster).Agrees
        ((⟨surroundedTemplates.toStore, fun d => .ok d.name, true⟩ :
          Composer String Empty).compose quotingMaster) := by
    apply Composer.compose_agrees (c := ⟨(Registry.ofDesigns [plainSource.design]).toStore, _, true⟩)
    intro n hn
    rw [hlookedUp] at hn
    obtain rfl := List.mem_singleton.mp hn
    exact hfound
  have hnamed : Path.named "templates/A.rdl" ≠ Path.named "templates/B.rdl" := fun hsame =>
    absurd (hdistinct _ _ _ _ hA hB hsame) (by decide)
  exact ⟨hA, hchild _ _ hA, habove, hnamed, surroundedTemplates_same,
    hagrees.outcome.symm.trans hregistry,
    (hcompositions _ true quotingMaster).2 _ surroundedTemplates_same⟩

end ReportAssembly
