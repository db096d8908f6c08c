import SnesSound.Player.Failure

/-!
# Directories

A tree of files in memory. Besides the directories that every system has, there are directories as far as files lie in
them; the top of the tree is its own parent. Paths that do not begin with a slash are followed from the working
directory.

Main statements: what is stored under a path is read from it (`read_insert`), and a file that could be created is there
and empty (`read_of_create`).
-/

namespace SnesSound.Player

/-- The names that lead from the top of the tree to a file or a directory. -/
abbrev Path := List String

/-- A tree of files. -/
structure Directory where
  /-- Every file with its path. -/
  files : List (Path × ByteArray) := []

namespace Directory

/-- The working directory. It lies among temporary files under a name that is not known, so that no path can spell
it. -/
def working : Path := ["tmp", ""]

/-- Directories that are there without any file of the tree in them. -/
def folders : List Path := [working, ["dev"], ["etc"], ["usr"], ["var"]]

/-- A file that is always empty; whatever is written to it is lost. -/
def null : Path := ["dev", "null"]

/-- The contents of a file. -/
def contents? (d : Directory) (path : Path) : Option ByteArray :=
  if path = null then some .empty else d.files.lookup path

/-- Whether a path leads to a directory. -/
def hasDirectory (d : Directory) (path : Path) : Bool :=
  folders.any (path.isPrefixOf ·) || d.files.any fun f => path.isPrefixOf f.1 && path != f.1

/-- Stores a file, in place of the one that is there. -/
def insert (d : Directory) (path : Path) (bytes : ByteArray) : Directory :=
  ⟨(path, bytes) :: d.files.filter (·.1 != path)⟩

/-! ## Paths as text -/

/-- Greatest length of a name, in bytes. -/
def maxName : Nat := 255

/-- Greatest length of a path, in bytes. -/
def maxPath : Nat := 4095

/-- The parts of a path between slashes. -/
def parts (path : String) : List String := (path.split '/').toList.map (·.toString)

/-- The parts are found character by character. -/
theorem parts_eq (path : String) : parts path = (path.toList.splitOn '/').map String.ofList :=
  String.toList_split_char

/-- Goes from a directory along names, all but the last of which have to be directories. -/
def walk (d : Directory) (here : Path) : List String → Except FileError Path
  | [] => .ok here
  | name :: rest =>
    if d.hasDirectory here then
      if name = "" ∨ name = "." then walk d here rest
      else if name = ".." then walk d here.dropLast rest
      else if maxName < name.utf8ByteSize then .error .nameTooLong
      else walk d (here ++ [name]) rest
    else .error (if (d.contents? here).isSome then .notDirectory else .notFound)

/-- Follows a path of which `names` are the parts to be visited. -/
def follow (d : Directory) (path : String) (names : List String) : Except FileError Path :=
  if maxPath < path.utf8ByteSize then .error .nameTooLong
  else d.walk (if path.startsWith "/" then [] else working) names

/-! ## Files -/

/-- Reads a file. -/
def read (d : Directory) (path : String) : Except FileError ByteArray := do
  let p ← d.follow path (parts path)
  match d.contents? p with
  | some bytes => return bytes
  | none => throw (if d.hasDirectory p then .isDirectory else .notFound)

/-- Where a file with a path can be created. A path that ends in a slash or a dot stands for a directory. -/
def place (d : Directory) (path : String) : Except FileError Path :=
  let names := parts path
  match names.getLast?.getD "" with
  | "" =>
    let named := (names.reverse.dropWhile (· = "")).reverse
    (d.follow path (named.dropLast ++ ["."])).bind fun _ => .error .isDirectory
  | "." | ".." => (d.follow path names).bind fun _ => .error .isDirectory
  | _ => (d.follow path names).bind fun p => if d.hasDirectory p then .error .isDirectory else .ok p

/-- Creates a file without contents, or empties the one that is there. -/
def create (d : Directory) (path : String) : Except FileError Directory :=
  (d.place path).map fun p => d.insert p .empty

/-! ## Created files -/

theorem contents?_insert (d : Directory) (path : Path) (bytes : ByteArray) :
    (d.insert path bytes).contents? path = some (if path = null then .empty else bytes) := by
  unfold contents?
  split
  · rfl
  · simp [insert]

theorem hasDirectory_insert {d : Directory} {here : Path} (path : Path) (bytes : ByteArray)
    (h : d.hasDirectory here) : (d.insert path bytes).hasDirectory here := by
  simp only [hasDirectory, insert, Bool.or_eq_true, List.any_cons] at h ⊢
  rcases h with h | h
  · exact .inl h
  · right
    obtain ⟨f, hf, hp⟩ := List.any_eq_true.mp h
    by_cases he : f.1 = path
    · exact .inl (he ▸ hp)
    · exact .inr (List.any_eq_true.mpr ⟨f, List.mem_filter.mpr ⟨hf, by simpa using he⟩, hp⟩)

/-- A new file bars no way. -/
theorem walk_insert {d : Directory} {here there : Path} {names : List String} (path : Path) (bytes : ByteArray)
    (h : d.walk here names = .ok there) : (d.insert path bytes).walk here names = .ok there := by
  induction names generalizing here with
  | nil => exact h
  | cons name rest ih =>
    simp only [walk] at h ⊢
    split at h
    next hd =>
      rw [if_pos (hasDirectory_insert path bytes hd)]
      split
      next hn => exact ih (by simpa [hn] using h)
      next hn =>
        split
        next hu => exact ih (by simpa [hn, hu] using h)
        next hu =>
          simp only [if_neg hn, if_neg hu] at h
          split at h
          next => cases h
          next hl =>
            rw [if_neg hl]
            exact ih h
    next => cases h

theorem follow_insert {d : Directory} {there : Path} {text : String} {names : List String} (path : Path)
    (bytes : ByteArray) (h : d.follow text names = .ok there) :
    (d.insert path bytes).follow text names = .ok there := by
  unfold follow at h ⊢
  split at h
  next => cases h
  next hl =>
    rw [if_neg hl]
    exact walk_insert path bytes h

/-- A file is no directory. -/
theorem hasDirectory_insert_self {d : Directory} {path : Path} (bytes : ByteArray) (h : d.hasDirectory path = false) :
    (d.insert path bytes).hasDirectory path = false := by
  simp only [hasDirectory, insert, Bool.or_eq_false_iff, List.any_cons, List.any_eq_false] at h ⊢
  refine ⟨h.1, by simp, fun f hf => h.2 f (List.mem_filter.mp hf).1⟩

theorem place_eq_ok_iff {d : Directory} {path : String} {p : Path} :
    d.place path = .ok p ↔
      (parts path).getLast?.getD "" ∉ ["", ".", ".."] ∧ d.follow path (parts path) = .ok p ∧
        d.hasDirectory p = false := by
  have refused (x : Except FileError Path) : (x.bind fun _ => .error .isDirectory) ≠ .ok p := by
    cases x <;> simp [Except.bind]
  unfold place
  dsimp only
  split
  next hname => simp [hname, refused]
  next hname => simp [hname, refused]
  next hname => simp [hname, refused]
  next hempty hdot hdots =>
    have hname : (parts path).getLast?.getD "" ∉ ["", ".", ".."] := by
      simpa using ⟨hempty, hdot, hdots⟩
    cases hd : d.follow path (parts path) with
    | error e => simp [Except.bind]
    | ok q =>
      simp only [Except.bind, hname, not_false_eq_true, Except.ok.injEq, true_and]
      split
      next hq => exact ⟨nofun, fun h => absurd (h.1 ▸ hq) (by simp [h.2])⟩
      next hq => exact ⟨fun h => Except.ok.inj h ▸ ⟨rfl, by simpa using hq⟩, fun h => congrArg _ h.1⟩

/-- A file can be created where there is one already. -/
theorem place_insert {d : Directory} {path : String} {p : Path} (bytes : ByteArray) (h : d.place path = .ok p) :
    (d.insert p bytes).place path = .ok p := by
  rw [place_eq_ok_iff] at h ⊢
  exact ⟨h.1, follow_insert p bytes h.2.1, hasDirectory_insert_self bytes h.2.2⟩

/-- A file that is stored under a path is read from it. -/
theorem read_insert {d : Directory} {path : String} {p : Path} (bytes : ByteArray) (h : d.place path = .ok p) :
    (d.insert p bytes).read path = .ok (if p = null then .empty else bytes) := by
  simp only [read, follow_insert p bytes (place_eq_ok_iff.mp h).2.1, bind, Except.bind, contents?_insert]
  rfl

/-- Creating a file stores it without contents. -/
theorem create_eq_ok_iff {d d' : Directory} {path : String} :
    d.create path = .ok d' ↔ ∃ p, d.place path = .ok p ∧ d' = d.insert p .empty := by
  unfold create
  cases d.place path <;> simp [Except.map, eq_comm]

/-- A file that could be created is there and empty. -/
theorem read_of_create {d d' : Directory} {path : String} (h : d.create path = .ok d') :
    d'.read path = .ok .empty := by
  obtain ⟨p, hp, rfl⟩ := create_eq_ok_iff.mp h
  rw [read_insert .empty hp, ite_self]

end Directory

end SnesSound.Player
