import Mathlib.Logic.Function.Basic
import Mathlib.Order.Defs.Unbundled
import Mathlib.Tactic.Common

/-!
# A file tree without links

Directories and files below a root, with the operations that create them.  A
path is the list of names from the innermost to the root, so entering a
directory is `::` and `..` is `tail`.  Path strings are read as POSIX reads
them: empty names and `.` stand for the current directory, `..` for its parent.

`createDirAll` walks a path from the left and creates what is missing.  When it
meets a file it stops, and the directories created so far stay.  A `.` at the end
of the path is more than nothing: a directory that is there has the entry `.`, but
none is created under this name.

`Grows` is what every operation does to a tree: a directory stays a directory
and a file stays a file, possibly with another content.  A path that could be
created once can therefore be created again later, without effect
(`createDirAll_again`).
-/

namespace FileTree

variable {β : Type*}

/-- Names from the innermost to the root. -/
abbrev Path := List String

/-- What a path holds. -/
inductive Node (β : Type*) where
  | dir
  | file (content : β)
  deriving DecidableEq, Repr

/-- What every path holds. -/
abbrev Tree (β : Type*) := Path → Option (Node β)

/-- The longest name of a directory entry, in bytes. -/
def nameMax : Nat := 255

/-- The longest path string, in bytes, its terminator included. -/
def pathMax : Nat := 4096

/-- The names of a path string: what stands between its slashes, less the names that do not
move.  A `.` at the end is kept. -/
def names (path : String) : List String :=
  let parts := ((path.toList.splitOn '/').map String.ofList).filter fun name => name ≠ ""
  parts.filter (fun name => name ≠ ".") ++ if parts.getLast? = some "." then ["."] else []

/-- A path string the system calls accept. -/
def acceptable (path : String) : Bool :=
  !path.toList.contains '\x00' && path.utf8ByteSize < pathMax

/-- Where the names lead from the directory `here`. -/
def locate : List String → Path → Path
  | [], here => here
  | name :: rest, here =>
      if name = "." then locate rest here
      else if name = ".." then locate rest here.tail
      else locate rest (name :: here)

/-- `create_dir_all`: walk the names from the directory `here`, creating what is
missing.  The result is the directory reached, or nothing if a name is too
long or is the name of a file, or if the last directory is missing and called `.`. -/
def createDirAll : List String → Path → Tree β → Option Path × Tree β
  | [], here, tree => (some here, tree)
  | name :: rest, here, tree =>
      if name = "." then createDirAll rest here tree
      else if name = ".." then createDirAll rest here.tail tree
      else if nameMax < name.utf8ByteSize then (none, tree)
      else
        match tree (name :: here) with
        | some .dir => createDirAll rest (name :: here) tree
        | some (.file _) => (none, tree)
        | none =>
            -- `mkdir` is called with the whole path, and only its parents are made before
            if rest = ["."] then (none, tree)
            else createDirAll rest (name :: here) (Function.update tree (name :: here) (some .dir))

/-- Create the file `path` or replace its content, unless it is a directory. -/
def write (path : Path) (content : β) (tree : Tree β) : Option (Tree β) :=
  if tree path matches some .dir then none
  else some (Function.update tree path (some (.file content)))

/-- The content of the file `path`. -/
def readFile (tree : Tree β) (path : Path) : Option β :=
  match tree path with
  | some (.file content) => some content
  | _ => none

/-- Where the names lead from the directory `here`, if every one of them can be
entered. -/
def walk (tree : Tree β) : List String → Path → Option Path
  | [], here => some here
  | name :: rest, here =>
      if name = "." then walk tree rest here
      else if name = ".." then walk tree rest here.tail
      else if nameMax < name.utf8ByteSize then none
      else if tree (name :: here) matches some .dir then walk tree rest (name :: here)
      else none

/-- The content of a file in the directory that a path string leads to from the root. -/
def openFile (tree : Tree β) (dirname filename : String) : Option β :=
  if acceptable (dirname ++ "/" ++ filename) then
    (walk tree (names dirname) []).bind fun dir => readFile tree (filename :: dir)
  else none

/-! ## Directories stay directories, files stay files -/

/-- What the operations of this file keep. -/
structure Grows (before after : Tree β) : Prop where
  dir : ∀ path, before path = some .dir → after path = some .dir
  file : ∀ path content, before path = some (.file content) →
    ∃ content', after path = some (.file content')

instance : Std.Refl (@Grows β) := ⟨fun _ => ⟨fun _ h => h, fun _ content h => ⟨content, h⟩⟩⟩

instance : IsTrans (Tree β) Grows where
  trans _ _ _ hfirst hsecond :=
    ⟨fun path h => hsecond.dir path (hfirst.dir path h),
      fun path content h => by
        obtain ⟨content', h'⟩ := hfirst.file path content h
        exact hsecond.file path content' h'⟩

theorem grows_update_dir {tree : Tree β} {path : Path} (hfree : tree path = none) :
    Grows tree (Function.update tree path (some .dir)) := by
  refine ⟨fun other hother => ?_, fun other content hother => ⟨content, ?_⟩⟩ <;>
  · have hne : other ≠ path := by
      rintro rfl
      simp [hfree] at hother
    simpa [Function.update_of_ne hne] using hother

theorem createDirAll_grows (rest : List String) (here : Path) (tree : Tree β) :
    Grows tree (createDirAll rest here tree).2 := by
  induction rest generalizing here tree with
  | nil => exact Std.Refl.refl tree
  | cons name rest ih =>
      unfold createDirAll
      split
      · exact ih _ _
      split
      · exact ih _ _
      split
      · exact Std.Refl.refl tree
      split
      · exact ih _ _
      · exact Std.Refl.refl tree
      · rename_i hfree
        split
        · exact Std.Refl.refl tree
        · exact IsTrans.trans _ _ _ (grows_update_dir hfree) (ih _ _)

theorem write_grows {path : Path} {content : β} {tree after : Tree β}
    (hwrite : write path content tree = some after) : Grows tree after := by
  unfold write at hwrite
  split at hwrite
  · simp at hwrite
  · rename_i hdir
    obtain rfl := Option.some.inj hwrite
    refine ⟨fun other hother => ?_, fun other old hother => ?_⟩
    · have hne : other ≠ path := by
        rintro rfl
        simp [hother] at hdir
      simpa [Function.update_of_ne hne] using hother
    · by_cases hpath : other = path
      · subst hpath
        exact ⟨content, by simp⟩
      · exact ⟨old, by simpa [Function.update_of_ne hpath] using hother⟩

theorem file_of_write {path : Path} {content : β} {tree after : Tree β}
    (hwrite : write path content tree = some after) : after path = some (.file content) := by
  unfold write at hwrite
  split at hwrite
  · simp at hwrite
  · obtain rfl := Option.some.inj hwrite
    simp

theorem write_of_file {path : Path} {content old : β} {tree : Tree β}
    (hfile : tree path = some (.file old)) :
    write path content tree = some (Function.update tree path (some (.file content))) := by
  simp [write, hfile]

/-! ## Other paths -/

/-- What is there stays when directories are created. -/
theorem createDirAll_of_some {path : Path} {tree : Tree β} {node : Node β}
    (hnode : tree path = some node) (rest : List String) (here : Path) :
    (createDirAll rest here tree).2 path = some node := by
  induction rest generalizing here tree with
  | nil => exact hnode
  | cons name rest ih =>
      unfold createDirAll
      split
      · exact ih hnode _
      split
      · exact ih hnode _
      split
      · exact hnode
      split
      · exact ih hnode _
      · exact hnode
      · rename_i hfree
        split
        · exact hnode
        · apply ih
          have hne : path ≠ name :: here := by
            rintro rfl
            rw [hfree] at hnode
            cases hnode
          rwa [Function.update_of_ne hne]

/-- New directories are not read as files. -/
theorem readFile_createDirAll (rest : List String) (here : Path) (tree : Tree β) (path : Path) :
    readFile (createDirAll rest here tree).2 path = readFile tree path := by
  induction rest generalizing here tree with
  | nil => rfl
  | cons name rest ih =>
      unfold createDirAll
      split
      · exact ih here tree
      split
      · exact ih here.tail tree
      split
      · rfl
      split
      · exact ih _ tree
      · rfl
      · rename_i hfree
        split
        · rfl
        · rw [ih]
          by_cases hpath : path = name :: here
          · subst hpath
            simp [readFile, hfree]
          · simp [readFile, Function.update_of_ne hpath]

theorem write_of_ne {path other : Path} {content : β} {tree after : Tree β}
    (hwrite : write other content tree = some after) (hne : path ≠ other) :
    after path = tree path := by
  unfold write at hwrite
  split at hwrite
  · cases hwrite
  · obtain rfl := Option.some.inj hwrite
    exact Function.update_of_ne hne ..

/-- A shorter name at the end is accepted too. -/
theorem acceptable_append {path name other : String} (haccepted : acceptable (path ++ name) = true)
    (hplain : other.toList.contains '\x00' = false)
    (hshort : other.utf8ByteSize ≤ name.utf8ByteSize) : acceptable (path ++ other) = true := by
  simp only [acceptable, String.toList_append, String.utf8ByteSize_append, Bool.and_eq_true,
    decide_eq_true_eq, Bool.not_eq_true', List.contains_eq_mem, List.mem_append, not_or,
    decide_eq_false_iff_not] at haccepted hplain ⊢
  exact ⟨⟨haccepted.1.1, hplain⟩, by omega⟩

/-! ## Creating a path again -/

/-- Every name of the path can be entered: it is `.`, `..` or an existing directory. -/
def Enters (tree : Tree β) : List String → Path → Prop
  | [], _ => True
  | name :: rest, here =>
      if name = "." then Enters tree rest here
      else if name = ".." then Enters tree rest here.tail
      else name.utf8ByteSize ≤ nameMax ∧ tree (name :: here) = some .dir ∧
        Enters tree rest (name :: here)

theorem Enters.mono {first second : Tree β} (hgrows : Grows first second) :
    ∀ {rest : List String} {here : Path}, Enters first rest here → Enters second rest here := by
  intro rest
  induction rest with
  | nil => exact fun _ => trivial
  | cons name rest ih =>
      intro here henters
      unfold Enters at henters ⊢
      split
      · rw [if_pos ‹_›] at henters
        exact ih henters
      rw [if_neg ‹_›] at henters
      split
      · rw [if_pos ‹_›] at henters
        exact ih henters
      · rw [if_neg ‹_›] at henters
        exact ⟨henters.1, hgrows.dir _ henters.2.1, ih henters.2.2⟩

theorem createDirAll_of_enters {tree : Tree β} :
    ∀ {rest : List String} {here : Path}, Enters tree rest here →
      ∃ dir, createDirAll rest here tree = (some dir, tree) := by
  intro rest
  induction rest with
  | nil => exact fun {here} _ => ⟨here, rfl⟩
  | cons name rest ih =>
      intro here henters
      unfold Enters at henters
      unfold createDirAll
      split
      · rw [if_pos ‹_›] at henters
        exact ih henters
      rw [if_neg ‹_›] at henters
      split
      · rw [if_pos ‹_›] at henters
        exact ih henters
      · rw [if_neg ‹_›] at henters
        rw [if_neg (Nat.not_lt.mpr henters.1), henters.2.1]
        exact ih henters.2.2

theorem enters_of_createDirAll :
    ∀ {rest : List String} {here dir : Path} {tree : Tree β},
      (createDirAll rest here tree).1 = some dir →
      Enters (createDirAll rest here tree).2 rest here := by
  intro rest
  induction rest with
  | nil => intros; trivial
  | cons name rest ih =>
      intro here dir tree hdone
      unfold createDirAll at hdone ⊢
      unfold Enters
      split
      · rw [if_pos ‹_›] at hdone
        exact ih hdone
      rw [if_neg ‹_›] at hdone
      split
      · rw [if_pos ‹_›] at hdone
        exact ih hdone
      rw [if_neg ‹_›] at hdone
      by_cases hlong : nameMax < name.utf8ByteSize
      · rw [if_pos hlong] at hdone
        simp at hdone
      rw [if_neg hlong] at hdone ⊢
      refine ⟨Nat.le_of_not_lt hlong, ?_⟩
      cases hnode : tree (name :: here) with
      | none =>
          simp only [hnode] at hdone ⊢
          by_cases hhere : rest = ["."]
          · rw [if_pos hhere] at hdone
            cases hdone
          · -- the directory created here survives the rest of the walk
            rw [if_neg hhere] at hdone ⊢
            exact ⟨(createDirAll_grows rest _ _).dir _ (by simp), ih hdone⟩
      | some node =>
          cases node with
          | dir =>
              simp only [hnode] at hdone ⊢
              exact ⟨(createDirAll_grows rest _ _).dir _ hnode, ih hdone⟩
          | file content => simp [hnode] at hdone

/-- A path that can be created leads where its names say, whatever the tree. -/
theorem createDirAll_dir {rest : List String} {here dir : Path} {tree : Tree β}
    (hdone : (createDirAll rest here tree).1 = some dir) : dir = locate rest here := by
  induction rest generalizing here tree with
  | nil => exact (Option.some.inj hdone).symm
  | cons name rest ih =>
      unfold createDirAll at hdone
      unfold locate
      split at hdone
      · rw [if_pos ‹_›]
        exact ih hdone
      rw [if_neg ‹_›]
      split at hdone
      · rw [if_pos ‹_›]
        exact ih hdone
      rw [if_neg ‹_›]
      split at hdone
      · simp at hdone
      split at hdone
      · exact ih hdone
      · simp at hdone
      · split at hdone
        · cases hdone
        · exact ih hdone

/-- What can be entered can be walked. -/
theorem walk_of_enters {tree : Tree β} :
    ∀ {rest : List String} {here : Path}, Enters tree rest here →
      walk tree rest here = some (locate rest here) := by
  intro rest
  induction rest with
  | nil => exact fun _ => rfl
  | cons name rest ih =>
      intro here henters
      unfold Enters at henters
      unfold walk locate
      by_cases hhere : name = "."
      · rw [if_pos hhere] at henters ⊢
        rw [if_pos hhere]
        exact ih henters
      rw [if_neg hhere] at henters ⊢
      rw [if_neg hhere]
      by_cases hup : name = ".."
      · rw [if_pos hup] at henters ⊢
        rw [if_pos hup]
        exact ih henters
      · rw [if_neg hup] at henters ⊢
        obtain ⟨hshort, hdir, hrest⟩ := henters
        rw [if_neg hup, if_neg (Nat.not_lt.mpr hshort), hdir]
        exact ih hrest

/-- A walk ends where the names lead. -/
theorem walk_dir {tree : Tree β} {rest : List String} {here dir : Path}
    (hwalk : walk tree rest here = some dir) : dir = locate rest here := by
  induction rest generalizing here with
  | nil => exact (Option.some.inj hwalk).symm
  | cons name rest ih =>
      unfold walk at hwalk
      unfold locate
      split at hwalk
      · rw [if_pos ‹_›]
        exact ih hwalk
      rw [if_neg ‹_›]
      split at hwalk
      · rw [if_pos ‹_›]
        exact ih hwalk
      rw [if_neg ‹_›]
      split at hwalk
      · cases hwalk
      split at hwalk
      · exact ih hwalk
      · cases hwalk

/-- A file that is opened is in the directory where the names lead. -/
theorem readFile_of_openFile {tree : Tree β} {dirname filename : String} {content : β}
    (hopen : openFile tree dirname filename = some content) :
    readFile tree (filename :: locate (names dirname) []) = some content := by
  unfold openFile at hopen
  split at hopen
  · obtain ⟨dir, hwalk, hread⟩ := Option.bind_eq_some_iff.mp hopen
    rwa [← walk_dir hwalk]
  · cases hopen

theorem openFile_of_enters {tree : Tree β} {dirname filename : String}
    (hpath : acceptable (dirname ++ "/" ++ filename) = true)
    (henters : Enters tree (names dirname) []) :
    openFile tree dirname filename = readFile tree (filename :: locate (names dirname) []) := by
  rw [openFile, if_pos hpath, walk_of_enters henters]
  rfl

/-- A path that was created once can be created again at any later time, and
then nothing happens. -/
theorem createDirAll_again {rest : List String} {here dir : Path} {tree later : Tree β}
    (hdone : (createDirAll rest here tree).1 = some dir)
    (hgrows : Grows (createDirAll rest here tree).2 later) :
    createDirAll rest here later = (some dir, later) := by
  obtain ⟨dir', hagain⟩ :=
    createDirAll_of_enters ((enters_of_createDirAll hdone).mono hgrows)
  have hdir : dir' = dir := by
    have hlocate : dir' = locate rest here := createDirAll_dir (by rw [hagain])
    rw [hlocate, createDirAll_dir hdone]
  rw [hagain, hdir]

end FileTree
