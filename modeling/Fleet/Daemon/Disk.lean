import Fleet.SortedMap

/-!
# Files and directories

The daemon keeps its files in a directory that a path leads to, and makes this directory if it is
not there. A `Disk` holds what there is, each file and each directory at its *location*, the names
that lead to it from the root. The root is always there.

A *path* is the text that is written for a location. It starts at the root if it begins with a
slash and otherwise where the daemon works, and leads from directory to directory. So two paths may
lead to the same location, and whether a path leads anywhere depends on the disk.
-/

namespace Fleet.Daemon

/-- **Where something is**: the names that lead to it from the root. -/
abbrev Location := List String

/-- **What is at a location.** -/
inductive Entry where
  | file (text : String)
  | directory
deriving DecidableEq, Repr

/-- **Files and directories.** -/
structure Disk where
  /-- Where paths start that do not start at the root. -/
  workplace : Location := []
  entries : SortedMap Location Entry := ∅

namespace Disk

/-! ### What is there -/

/-- Whether there is a directory. -/
def isDirectory (d : Disk) (l : Location) : Bool := l = [] || d.entries.get? l = some .directory

/-- The text of a file, if there is one. -/
def text? (d : Disk) (l : Location) : Option String :=
  match d.entries.get? l with
  | some (.file text) => some text
  | _ => none

/-- The name of a location in a directory, unless the location is elsewhere. -/
def nameIn? (directory l : Location) : Option String :=
  match l.getLast? with
  | some name => if l = directory ++ [name] then some name else none
  | none => none

/-- **The names in a directory**, in their order. -/
def names (d : Disk) (directory : Location) : List String :=
  d.entries.keys.filterMap (nameIn? directory)

/-! ### Paths -/

/-- How many bytes a name may have. -/
def maxName : Nat := 255

/-- How many bytes a path may have. -/
def maxPath : Nat := 4095

/-- Where a name leads from a directory. Two dots lead out of it, and the root leads to itself; one
dot and nothing at all stay where they are. -/
def step (l : Location) (name : String) : Location :=
  if name = "" ∨ name = "." then l
  else if name = ".." then l.dropLast
  else l ++ [name]

/-- Where a path starts. -/
def start (d : Disk) (path : String) : Location :=
  if path.startsWith "/" then [] else d.workplace

/-- **Where a path leads.** There has to be a directory at every step on the way, even if the step
stays where it is. What the path leads to need not be there. -/
def locate? (d : Disk) (path : String) : Option Location :=
  if maxPath < path.utf8ByteSize then none
  else
    (path.splitOn "/").foldlM (fun l name =>
      if d.isDirectory l && name.utf8ByteSize ≤ maxName then some (step l name) else none)
      (d.start path)

/-- The text of the file that a path leads to, if there is one. -/
def read? (d : Disk) (path : String) : Option String := (d.locate? path).bind d.text?

/-- Where a path leads, if there is a directory. -/
def directory? (d : Disk) (path : String) : Option Location :=
  (d.locate? path).filter d.isDirectory

/-- The path of a name in the directory that a path leads to. -/
def join (path name : String) : String :=
  if path.endsWith "/" then path ++ name else path ++ "/" ++ name

/-! ### Changes -/

/-- One step on the way to a directory. What is missing is made, unless its name is too long. -/
def enter (name : String) : Disk × Option Location → Disk × Option Location
  | (d, none) => (d, none)
  | (d, some l) =>
    let l := step l name
    if d.isDirectory l then (d, some l)
    else if d.entries.contains l || maxName < name.utf8ByteSize then (d, none)
    else ({ d with entries := d.entries.insert l .directory }, some l)

/-- Directories are entered one after another. -/
def enterAll (d : Disk) (l : Location) (names : List String) : Disk × Option Location :=
  names.foldl (fun s name => enter name s) (d, some l)

/-- **The directory that a path leads to**, which is made where it is missing, with those on the
way to it. What was made stays, even if the next step fails.

A directory cannot be made by the name of one dot. A path that ends with it leads somewhere only if
the directory is there once those on the way to it have been made. -/
def makeDirectories (d : Disk) (path : String) : Disk × Option Location :=
  let written := (path.splitOn "/").filter (· ≠ "")
  let names := written.filter (· ≠ ".")
  if maxPath < path.utf8ByteSize then (d, none)
  else if written.getLast? = some "." && (d.directory? path).isNone then
    let d := (d.enterAll (d.start path) names.dropLast).1
    (d, d.directory? path)
  else d.enterAll (d.start path) names

/-- **A file is replaced** at a path, by a draft that is moved into its place. Neither may be a
directory, and the path has to leave room for the name of the draft. -/
def replace? (d : Disk) (path text : String) : Option Disk := do
  let draft ← d.locate? (path ++ ".tmp")
  let l ← d.locate? path
  if d.isDirectory draft || d.isDirectory l then none
  else some { d with entries := (d.entries.erase draft).insert l (.file text) }

/-- Replacing a file makes no directory and takes none away. -/
theorem isDirectory_of_replace? {d e : Disk} {path text : String}
    (h : d.replace? path text = some e) : e.isDirectory = d.isDirectory := by
  unfold replace? at h
  obtain ⟨draft, -, h⟩ := Option.bind_eq_some_iff.mp h
  obtain ⟨l, -, h⟩ := Option.bind_eq_some_iff.mp h
  split at h
  · simp at h
  · rename_i hd
    obtain rfl := Option.some.inj h
    simp only [isDirectory, Bool.or_eq_true, not_or, Bool.not_eq_true] at hd
    funext x
    simp only [isDirectory, SortedMap.get?_insert, SortedMap.get?_erase]
    grind

/-- A file that was replaced holds the text. -/
theorem read?_of_replace? {d e : Disk} {path text : String}
    (h : d.replace? path text = some e) : e.read? path = some text := by
  have hdir := isDirectory_of_replace? h
  unfold replace? at h
  obtain ⟨draft, -, h⟩ := Option.bind_eq_some_iff.mp h
  obtain ⟨l, hl, h⟩ := Option.bind_eq_some_iff.mp h
  split at h
  · simp at h
  · obtain rfl := Option.some.inj h
    -- the path still leads to the same location
    have hloc : locate? { d with entries := (d.entries.erase draft).insert l (.file text) } path
        = some l := by
      rw [← hl]
      simp only [locate?, hdir, start]
    simp [read?, hloc, text?, SortedMap.get?_insert]

end Disk

end Fleet.Daemon
