import Mathlib.Data.List.Basic
import Metasyntax.Expansion.FileTree

/-! What a path is joined to, and which text is found at it, without the steps in which
paths are joined and followed. -/
namespace Metasyntax

/-! ## Joining -/

/-- What a path is joined to from a directory on. -/
inductive Joined (directory path : String) : String → Prop
  | absolute {rest : String} (absolute : path = "/" ++ rest) : Joined directory path path
  | bare (relative : ∀ rest, path ≠ "/" ++ rest) (bare : directory = "") :
      Joined directory path path
  | closed {front : String} (relative : ∀ rest, path ≠ "/" ++ rest)
      (closed : directory = front ++ "/") : Joined directory path (directory ++ path)
  | plain (relative : ∀ rest, path ≠ "/" ++ rest) (named : directory ≠ "")
      (plain : ∀ front, directory ≠ front ++ "/") :
      Joined directory path (directory ++ "/" ++ path)

section
variable {directory path joined : String}

theorem isAbsolute_iff : isAbsolute path = true ↔ ∃ rest, path = "/" ++ rest := by
  rw [isAbsolute, beq_iff_eq, List.head?_eq_some_iff]
  constructor
  · rintro ⟨rest, chars⟩
    exact ⟨String.ofList rest, String.toList_inj.mp (by simpa using chars)⟩
  · rintro ⟨rest, rfl⟩
    exact ⟨rest.toList, by simp⟩

theorem getLast?_eq_slash_iff :
    directory.toList.getLast? = some '/' ↔ ∃ front, directory = front ++ "/" := by
  rw [List.getLast?_eq_some_iff]
  constructor
  · rintro ⟨front, chars⟩
    exact ⟨String.ofList front, String.toList_inj.mp (by simpa using chars)⟩
  · rintro ⟨front, rfl⟩
    exact ⟨front.toList, by simp⟩

theorem joined_joinPath (directory path : String) :
    Joined directory path (joinPath directory path) := by
  rw [joinPath]
  by_cases absolute : isAbsolute path = true
  · rw [absolute, Bool.true_or, if_pos rfl]
    obtain ⟨rest, start⟩ := isAbsolute_iff.mp absolute
    exact .absolute start
  · have relative : ∀ rest, path ≠ "/" ++ rest :=
      fun rest start => absolute (isAbsolute_iff.mpr ⟨rest, start⟩)
    rw [(Bool.not_eq_true _).mp absolute, Bool.false_or]
    by_cases bare : directory = ""
    · rw [if_pos (by simp [bare])]
      exact .bare relative bare
    · rw [if_neg (by simpa using bare)]
      by_cases slash : directory.toList.getLast? = some '/'
      · rw [if_pos (by simpa using slash)]
        obtain ⟨front, closed⟩ := getLast?_eq_slash_iff.mp slash
        exact .closed relative closed
      · rw [if_neg (by simpa using slash)]
        exact .plain relative bare fun front closed =>
          slash (getLast?_eq_slash_iff.mpr ⟨front, closed⟩)

theorem Joined.unique {other : String} (here : Joined directory path joined)
    (there : Joined directory path other) : joined = other := by
  have named (front : String) : front ++ "/" ≠ "" := by simp
  cases here <;> cases there <;> grind

theorem joinPath_eq_iff : joinPath directory path = joined ↔ Joined directory path joined := by
  constructor
  · rintro rfl
    exact joined_joinPath directory path
  · intro other
    exact (joined_joinPath directory path).unique other

/-- What is joined to an absolute path is absolute. -/
theorem Joined.isAbsolute (joins : Joined directory path joined)
    (absolute : Metasyntax.isAbsolute directory = true) :
    Metasyntax.isAbsolute joined = true := by
  obtain ⟨rest, rfl⟩ := isAbsolute_iff.mp absolute
  apply isAbsolute_iff.mpr
  cases joins with
  | absolute start => exact ⟨_, start⟩
  | bare _ bare => simp at bare
  | closed => exact ⟨rest ++ path, String.append_assoc⟩
  | plain => exact ⟨rest ++ "/" ++ path, by simp only [String.append_assoc]⟩

end

/-! ## Reading -/

/-- A part that is the name of an entry. -/
structure IsName (part : String) : Prop where
  some : part ≠ ""
  notHere : part ≠ "."
  notUp : part ≠ ".."
  short : part.utf8ByteSize ≤ maxNameLength

/-- Where the parts of a path lead from a directory. -/
inductive FileTree.Leads (tree : FileTree) : List String → List String → Spot → Prop
  | arrived {place : List String} : tree.Leads place [] (.directory place)
  | stay {place parts : List String} {part : String} {spot : Spot} (here : part = "" ∨ part = ".")
      (behind : tree.Leads place parts spot) : tree.Leads place (part :: parts) spot
  | up {place parts : List String} {spot : Spot} (behind : tree.Leads place.dropLast parts spot) :
      tree.Leads place (".." :: parts) spot
  | down {place parts : List String} {part : String} {spot : Spot} (name : IsName part)
      (noFile : ∀ file ∈ tree.files, file.place ≠ place ++ [part])
      (found : place ++ [part] ∈ tree.directories)
      (behind : tree.Leads (place ++ [part]) parts spot) : tree.Leads place (part :: parts) spot
  | file {place : List String} {part : String} {file : File} (name : IsName part)
      (found : tree.files.find? (fun file => file.place == place ++ [part]) = some file) :
      tree.Leads place [part] (.file file.contents)

/-- The text of the file that a path leads to, relative ones from a directory on. -/
structure FileTree.Holds (tree : FileTree) (directory : List String) (path text : String) :
    Prop where
  named : path ≠ ""
  noNull : '\x00' ∉ path.toList
  short : path.utf8ByteSize ≤ maxPathLength
  leads : tree.Leads (startOf directory path) (pathParts path) (.file text.toUTF8)

section
variable {tree : FileTree} {place directory parts : List String} {part path text : String}
  {spot : Spot}

theorem FileTree.follow_here (here : part = "" ∨ part = ".") :
    tree.follow (.directory place) part = .ok (.directory place) := by
  rw [follow, if_pos (by simpa [isHere] using here)]

theorem FileTree.follow_up :
    tree.follow (.directory place) ".." = .ok (.directory place.dropLast) := by
  rw [follow, if_neg (by decide), if_pos rfl]

theorem FileTree.follow_name (name : IsName part) :
    tree.follow (.directory place) part = tree.enter (place ++ [part]) := by
  have moves : ¬ isHere part = true := by simp [isHere, name.some, name.notHere]
  rw [follow, if_neg moves, if_neg name.notUp, if_neg (Nat.not_lt.mpr name.short)]

theorem FileTree.foldlM_follow_of_file {contents : ByteArray}
    (arrives : parts.foldlM tree.follow (.file contents) = .ok spot) :
    parts = [] ∧ spot = .file contents := by
  cases parts with
  | nil =>
    cases arrives
    exact ⟨rfl, rfl⟩
  | cons part parts => cases arrives

theorem FileTree.Leads.foldlM_follow (leads : tree.Leads place parts spot) :
    parts.foldlM tree.follow (.directory place) = .ok spot := by
  induction leads with
  | arrived => rfl
  | stay here behind ih =>
    rw [List.foldlM_cons, follow_here here]
    exact ih
  | up behind ih =>
    rw [List.foldlM_cons, follow_up]
    exact ih
  | @down place parts part spot name noFile found behind ih =>
    have none : tree.files.find? (fun file => file.place == place ++ [part]) = none :=
      List.find?_eq_none.mpr fun file member same => noFile file member (by simpa using same)
    rw [List.foldlM_cons, follow_name name, enter, none]
    simp only [List.contains_iff_mem, found, if_true]
    exact ih
  | file name found =>
    rw [List.foldlM_cons, follow_name name, enter, found]
    rfl

theorem FileTree.enter_eq_ok_iff :
    tree.enter place = .ok spot ↔
      (∃ file, tree.files.find? (fun file => file.place == place) = some file ∧
        spot = .file file.contents) ∨
      (∀ file ∈ tree.files, file.place ≠ place) ∧ place ∈ tree.directories ∧
        spot = .directory place := by
  have none_iff : tree.files.find? (fun file => file.place == place) = none ↔
      ∀ file ∈ tree.files, file.place ≠ place := by
    simp
  rw [← none_iff, enter]
  cases tree.files.find? fun file => file.place == place with
  | some file => simp [eq_comm]
  | none => by_cases found : place ∈ tree.directories <;> simp [found, eq_comm]

theorem FileTree.leads_of_foldlM_follow
    (arrives : parts.foldlM tree.follow (.directory place) = .ok spot) :
    tree.Leads place parts spot := by
  induction parts generalizing place with
  | nil =>
    cases arrives
    exact .arrived
  | cons part parts ih =>
    rw [List.foldlM_cons] at arrives
    by_cases here : part = "" ∨ part = "."
    · rw [follow_here here] at arrives
      exact .stay here (ih arrives)
    by_cases up : part = ".."
    · subst up
      rw [follow_up] at arrives
      exact .up (ih arrives)
    by_cases short : part.utf8ByteSize ≤ maxNameLength
    · obtain ⟨named, notHere⟩ := not_or.mp here
      have name : IsName part := ⟨named, notHere, up, short⟩
      rw [follow_name name] at arrives
      cases entered : tree.enter (place ++ [part]) with
      | error fault => cases (entered ▸ arrives :)
      | ok next =>
        rw [entered] at arrives
        rcases enter_eq_ok_iff.mp entered with ⟨file, found, rfl⟩ | ⟨noFile, found, rfl⟩
        · obtain ⟨rfl, rfl⟩ := foldlM_follow_of_file arrives
          exact .file name found
        · exact .down name noFile found (ih arrives)
    · have moves : ¬ isHere part = true := by simpa [isHere] using here
      rw [follow, if_neg moves, if_neg up, if_pos (Nat.lt_of_not_le short)] at arrives
      cases arrives

theorem FileTree.foldlM_follow_eq_ok_iff :
    parts.foldlM tree.follow (.directory place) = .ok spot ↔ tree.Leads place parts spot :=
  ⟨leads_of_foldlM_follow, Leads.foldlM_follow⟩

theorem fromUTF8?_eq_some_iff {contents : ByteArray} :
    String.fromUTF8? contents = some text ↔ contents = text.toUTF8 := by
  constructor
  · intro valid
    rw [String.fromUTF8?] at valid
    split at valid
    · cases valid
      rfl
    · cases valid
  · rintro rfl
    exact dif_pos text.isValidUTF8

/-- A text is read exactly if it is the one that the path leads to. -/
theorem FileTree.readFrom_eq_ok_iff :
    tree.readFrom directory path = .ok text ↔ tree.Holds directory path text := by
  constructor
  · intro reads
    unfold readFrom at reads
    split at reads
    · cases reads
    rename_i noNull
    split at reads
    · cases reads
    rename_i named
    split at reads
    · cases reads
    rename_i short
    split at reads
    · cases reads
    · rename_i arrives
      split at reads
      · rename_i valid
        cases reads
        cases fromUTF8?_eq_some_iff.mp valid
        exact ⟨by simpa using named, noNull, Nat.le_of_not_lt short,
          foldlM_follow_eq_ok_iff.mp arrives⟩
      · cases reads
    · cases reads
  · intro holds
    have named : ¬ path.isEmpty = true := by simpa using holds.named
    rw [readFrom, if_neg holds.noNull, if_neg named, if_neg (Nat.not_lt.mpr holds.short),
      foldlM_follow_eq_ok_iff.mpr holds.leads]
    simp only [fromUTF8?_eq_some_iff.mpr rfl]

theorem FileTree.read_eq_ok_iff :
    tree.read path = .ok text ↔ tree.Holds tree.current path text := readFrom_eq_ok_iff

/-- An absolute path is read alike from everywhere. -/
theorem FileTree.readFrom_of_isAbsolute (absolute : isAbsolute path = true)
    (other : List String) : tree.readFrom directory path = tree.readFrom other path := by
  rw [readFrom, readFrom, startOf, startOf, if_pos absolute, if_pos absolute]

end

end Metasyntax
