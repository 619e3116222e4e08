import ReportAssembly.Files.Basic
import ReportAssembly.Store.Basic

namespace ReportAssembly

structure TemplateDirectory where
  base : String
  extension : String
  files : FileSystem

namespace TemplateDirectory

def defaultExtension : String :=
  "rdl"

def isFileName (name : String) : Bool :=
  name != "" && name != "." && name != ".." && name.toList.all fun c => c != '/' && c != '\\'

def path? (t : TemplateDirectory) (name : String) : Option String :=
  if isFileName name then some (Path.join t.base (name ++ "." ++ t.extension)) else none

def load (name path : String) (node : Node) : Answer :=
  match node.read with
  | .error fault => ⟨.error (.unreadableFile path fault.message), []⟩
  | .ok source =>
    match Design.parse source with
    | .error errors => ⟨.error (.malformed name errors), []⟩
    | .ok d =>
      let renamed := if d.name = name then [] else [.otherNameDeclared name d.name path]
      ⟨.ok d, renamed ++ [.templateLoaded name path]⟩

def lookup (t : TemplateDirectory) (name : String) : Answer :=
  match t.path? name with
  | none => ⟨.error (.notFound name), []⟩
  | some path =>
    let node := t.files.node path
    if node.isFile then load name path node else ⟨.error (.notFound name), []⟩

def beforeDots : List Char → List (List Char)
  | [] => []
  | c :: cs => (if c = '.' then [[]] else []) ++ (beforeDots cs).map (c :: ·)

theorem mem_beforeDots (as bs : List Char) : as ∈ beforeDots (as ++ '.' :: bs) := by
  induction as with
  | nil => simp [beforeDots]
  | cons a as ih => simp [beforeDots, ih]

/-- The names that the files of the directory can be looked up under, and more: all that names of
files begin with, up to a dot. -/
def names (t : TemplateDirectory) : List String :=
  t.files.names.flatMap fun part => (beforeDots part.toList).map .ofList

/-- A template that has a file is among the names. -/
theorem mem_names_of_isFile {t : TemplateDirectory} {name path : String}
    (hp : t.path? name = some path) (hf : (t.files.node path).isFile = true) :
    name ∈ t.names := by
  unfold path? at hp
  split at hp
  · next hn =>
    obtain rfl := Option.some.inj hp
    simp only [isFileName, Bool.and_eq_true, bne_iff_ne, ne_eq, List.all_eq_true] at hn
    obtain ⟨⟨⟨h1, h2⟩, -⟩, h4⟩ := hn
    let ending := t.extension.toList.takeWhile (· != '/')
    let part : String := .ofList (name.toList ++ '.' :: ending)
    have hslash : ∀ c ∈ name.toList, (c != '/') = true := fun c hc => by
      simpa using (h4 c hc).1
    have hname : name.toList ≠ [] := fun h => h1 (String.toList_eq_nil_iff.1 h)
    have hpart : part ∈ Path.split (name ++ "." ++ t.extension) := by
      refine List.mem_map.2 ⟨name.toList ++ '.' :: ending, ?_, rfl⟩
      have := Path.takeWhile_mem_splitChars (name ++ "." ++ t.extension).toList
      have heq : (name ++ "." ++ t.extension).toList.takeWhile (· != '/') =
          name.toList ++ '.' :: ending := by
        rw [String.toList_append, String.toList_append, List.append_assoc,
          List.takeWhile_append_of_pos hslash]
        rfl
      rwa [heq] at this
    have hlist : part.toList = name.toList ++ '.' :: ending := String.toList_ofList
    have hmem := t.files.mem_names hf (Path.mem_split_join hpart)
      (fun h => by simp [h] at hlist)
      (fun h => by
        rw [h] at hlist
        cases hc : name.toList with
        | nil => exact hname hc
        | cons c cs => simp [hc] at hlist)
      (fun h => by
        rw [h] at hlist
        cases hc : name.toList with
        | nil => exact hname hc
        | cons c cs =>
          simp only [hc, List.cons_append, show "..".toList = ['.', '.'] from rfl,
            List.cons.injEq] at hlist
          cases cs with
          | nil => exact h2 (by rw [← String.ofList_toList (s := name), hc, ← hlist.1])
          | cons d ds => simp at hlist)
    refine List.mem_flatMap.2 ⟨part, hmem, List.mem_map.2 ⟨name.toList, ?_, by simp⟩⟩
    rw [hlist]
    exact mem_beforeDots _ _
  · exact nomatch hp

def toStore (t : TemplateDirectory) : Store where
  lookup := t.lookup
  names := t.names
  mem_names := by
    intro name d h
    unfold lookup at h
    split at h
    · exact nomatch h
    · next path hp =>
      dsimp only at h
      split at h
      · next hf => exact mem_names_of_isFile hp hf
      · exact nomatch h

end TemplateDirectory

end ReportAssembly
