/-!
Paths as text. A slash divides a path; an empty part, or a dot that is not the first part of a
relative path, names nothing of its own.
-/

namespace ReportAssembly.Path

def splitChars : List Char → List (List Char)
  | [] => [[]]
  | c :: cs =>
    if c = '/' then [] :: splitChars cs
    else
      match splitChars cs with
      | [] => [[c]]
      | part :: parts => (c :: part) :: parts

def split (path : String) : List String :=
  (splitChars path.toList).map .ofList

def unsplit (parts : List String) : String :=
  String.intercalate "/" parts

theorem splitChars_ne_nil (cs : List Char) : splitChars cs ≠ [] := by
  induction cs with
  | nil => simp [splitChars]
  | cons c cs ih =>
    unfold splitChars
    split
    · simp
    · split <;> simp

/-- A slash cuts a path in two, whatever stands around it. -/
theorem splitChars_append_slash (as bs : List Char) :
    splitChars (as ++ '/' :: bs) = splitChars as ++ splitChars bs := by
  induction as with
  | nil => simp [splitChars]
  | cons a as ih =>
    by_cases h : a = '/'
    · subst h; simp [splitChars, ih]
    · cases hs : splitChars as with
      | nil => exact absurd hs (splitChars_ne_nil as)
      | cons part parts => simp [splitChars, h, ih, hs]

/-- Up to its first slash, a text is its own first part. -/
theorem takeWhile_mem_splitChars (cs : List Char) :
    cs.takeWhile (· != '/') ∈ splitChars cs := by
  induction cs with
  | nil => simp [splitChars]
  | cons c cs ih =>
    by_cases h : c = '/'
    · subst h; simp [splitChars]
    · suffices ∀ parts, splitChars cs = parts → (cs.takeWhile (· != '/')) = parts.headD [] by
        cases hs : splitChars cs with
        | nil => exact absurd hs (splitChars_ne_nil cs)
        | cons part parts => simp [splitChars, h, hs, this _ hs]
      clear ih
      induction cs with
      | nil => simp [splitChars]
      | cons d ds ihd =>
        by_cases hd : d = '/'
        · subst hd; simp [splitChars]
        · cases hs : splitChars ds with
          | nil => exact absurd hs (splitChars_ne_nil ds)
          | cons part parts =>
            have := ihd (part :: parts) hs
            simp_all [splitChars]

def isAbsolute (path : String) : Bool :=
  path.toList.head? = some '/'

/-- A path below another. An absolute path stands for itself. -/
def join (base path : String) : String :=
  if isAbsolute path || base.isEmpty then path
  else if base.toList.getLast? = some '/' then base ++ path
  else base ++ "/" ++ path

/-- The parts of a path are parts of every path that ends in it. -/
theorem mem_split_join {base path part : String} (hp : part ∈ split path) :
    part ∈ split (join base path) := by
  unfold join
  split
  · exact hp
  · split
    · next hl =>
      obtain ⟨front, hf⟩ : ∃ front, base.toList = front ++ ['/'] :=
        List.getLast?_eq_some_iff.1 hl
      simp only [split, String.toList_append, hf, List.append_assoc, List.singleton_append,
        splitChars_append_slash, List.map_append, List.mem_append]
      exact .inr hp
    · simp only [split, String.toList_append, List.append_assoc]
      show part ∈ (splitChars (base.toList ++ '/' :: path.toList)).map .ofList
      simp only [splitChars_append_slash, List.map_append, List.mem_append]
      exact .inr hp

def isComponent (part : String) : Bool :=
  part != "" && part != "."

def dropIdle (parts : List String) : List String :=
  (parts.reverse.dropWhile (!isComponent ·)).reverse

def parent? (path : String) : Option String :=
  match split path with
  | [] => none
  | head :: tail =>
    let named := dropIdle tail
    if named.isEmpty then if head = "" then none else some ""
    else
      let rest := dropIdle named.dropLast
      some (if head = "" && rest.isEmpty then "/" else unsplit (head :: rest))

end ReportAssembly.Path
