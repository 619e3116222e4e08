import ReportAssembly.Files.Basic

namespace ReportAssembly

inductive Location
  | within (parts : List String)
  | outside
  deriving DecidableEq, Repr

/-- The files and the directories below the working directory, each with the parts of its path. The
directories on the way to an entry need no entry of their own. -/
structure FileTree where
  entries : List (List String × Node)
  deriving DecidableEq, Repr

namespace FileTree

def nodeAt (t : FileTree) (parts : List String) : Node :=
  match t.entries.lookup parts with
  | some node => node
  | none =>
    if parts.isEmpty || t.entries.any (parts.isPrefixOf ·.1) then .directory
    else .absent .notFound

def enter (t : FileTree) (location : Location) (part : String) : Except FileFault Location :=
  match location with
  | .outside =>
    if part = "" || part = "." || part = ".." then .ok .outside
    else if 255 < part.utf8ByteSize then .error .nameTooLong
    else .error .notFound
  | .within parts =>
    match t.nodeAt parts with
    | .absent fault => .error fault
    | .file _ => .error .notDirectory
    | .directory =>
      if part = "" || part = "." then .ok (.within parts)
      else if part = ".." then
        if parts.isEmpty then .ok .outside else .ok (.within parts.dropLast)
      else if 255 < part.utf8ByteSize then .error .nameTooLong
      else
        match t.nodeAt (parts ++ [part]) with
        | .absent fault => .error fault
        | _ => .ok (.within (parts ++ [part]))

def walk (t : FileTree) (location : Location) (parts : List String) : Except FileFault Location :=
  parts.foldlM t.enter location

def node (t : FileTree) (path : String) : Node :=
  if path.toList.contains '\x00' then .absent .nulInPath
  else if path = "" then .absent .notFound
  else if 4096 ≤ path.utf8ByteSize then .absent .nameTooLong
  else
    match t.walk (if Path.isAbsolute path then .outside else .within []) (Path.split path) with
    | .error fault => .absent fault
    | .ok .outside => .directory
    | .ok (.within parts) => t.nodeAt parts

def names (t : FileTree) : List String :=
  t.entries.flatMap (·.1)

theorem mem_names_of_nodeAt {t : FileTree} {parts : List String}
    (h : ∀ fault, t.nodeAt parts ≠ .absent fault) : ∀ part ∈ parts, part ∈ t.names := by
  intro part hp
  unfold nodeAt at h
  split at h
  · next node hl =>
    obtain ⟨front, back, hsplit, -⟩ := List.lookup_eq_some_iff.1 hl
    exact List.mem_flatMap.2 ⟨(parts, node), by simp [hsplit], hp⟩
  · split at h
    · next hc =>
      simp only [Bool.or_eq_true, List.isEmpty_iff, List.any_eq_true] at hc
      rcases hc with rfl | ⟨entry, he, hpre⟩
      · simp at hp
      · exact List.mem_flatMap.2 ⟨entry, he, (List.isPrefixOf_iff_prefix.1 hpre).subset hp⟩
    · exact absurd rfl (h _)

/-- A part that can be entered is a part of some entry. -/
theorem mem_names_of_enter {t : FileTree} {location location' : Location} {part : String}
    (h : t.enter location part = .ok location') (h1 : part ≠ "") (h2 : part ≠ ".")
    (h3 : part ≠ "..") : part ∈ t.names := by
  unfold enter at h
  simp only [h1, h2, h3, decide_false, Bool.or_self, Bool.false_eq_true, if_false] at h
  split at h
  · split at h <;> exact nomatch h
  · split at h
    · exact nomatch h
    · exact nomatch h
    · split at h
      · exact nomatch h
      · split at h
        · exact nomatch h
        · next hn => exact mem_names_of_nodeAt hn part (by simp)

/-- A walk that arrives has gone through names of entries only. -/
theorem mem_names_of_walk {t : FileTree} {location location' : Location} {parts : List String}
    (h : t.walk location parts = .ok location') : ∀ part ∈ parts, part ≠ "" → part ≠ "." →
    part ≠ ".." → part ∈ t.names := by
  induction parts generalizing location with
  | nil => simp
  | cons first rest ih =>
    simp only [walk, List.foldlM_cons] at h
    cases he : t.enter location first with
    | error fault => simp [he, bind, Except.bind] at h
    | ok next =>
      simp only [he, bind, Except.bind] at h
      intro part hp h1 h2 h3
      rcases List.mem_cons.1 hp with rfl | hp
      · exact mem_names_of_enter he h1 h2 h3
      · exact ih h part hp h1 h2 h3

theorem mem_names_of_node {t : FileTree} {path part : String} (h : (t.node path).isFile = true)
    (hp : part ∈ Path.split path) (h1 : part ≠ "") (h2 : part ≠ ".") (h3 : part ≠ "..") :
    part ∈ t.names := by
  unfold node at h
  split at h
  · exact nomatch h
  · split at h
    · exact nomatch h
    · split at h
      · exact nomatch h
      · split at h
        · exact nomatch h
        · next hw => exact mem_names_of_walk hw part hp h1 h2 h3
        · next hw => exact mem_names_of_walk hw part hp h1 h2 h3

def toFileSystem (t : FileTree) : FileSystem where
  node := t.node
  names := t.names
  mem_names := mem_names_of_node

end FileTree

end ReportAssembly
