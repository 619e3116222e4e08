import ReportAssembly.Files.Basic

namespace ReportAssembly

abbrev Snapshot := List (String × Node)

namespace Snapshot

def node (s : Snapshot) (path : String) : Node :=
  (s.lookup path).getD (.absent .notFound)

def names (s : Snapshot) : List String :=
  s.flatMap fun entry => Path.split entry.1

theorem mem_names_of_node {s : Snapshot} {path part : String} (h : (s.node path).isFile = true)
    (hp : part ∈ Path.split path) : part ∈ s.names := by
  unfold node at h
  cases hl : s.lookup path with
  | none => simp [hl, Node.isFile] at h
  | some node =>
    obtain ⟨front, back, hsplit, -⟩ := List.lookup_eq_some_iff.1 hl
    exact List.mem_flatMap.2 ⟨(path, node), by simp [hsplit], hp⟩

def toFileSystem (s : Snapshot) : FileSystem where
  node := s.node
  names := s.names
  mem_names h hp _ _ _ := mem_names_of_node h hp

end Snapshot

end ReportAssembly
