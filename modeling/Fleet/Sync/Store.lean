import Fleet.Tree.Restore

/-!
# The snapshot file

A store is the file in which a server keeps its tree, with a flag that says whether the tree may
have changed since. Saving takes two moments: the flag is cleared when the snapshot is taken, and
the file is replaced some time later. Whoever saves puts the flag back if the file could not be
replaced.

A file that is not there is no error when it is loaded.
-/

namespace Fleet.Sync

/-- **A snapshot file.** -/
structure Store where
  /-- The text of the file, if there is one. -/
  file : Option String := none
  /-- Whether the file can be replaced. -/
  writable : Bool := true
  dirty : Bool := false
  /-- How often the file was replaced. -/
  saves : Nat := 0
deriving DecidableEq, Repr

namespace Store

/-- The tree may have changed. -/
def markDirty (s : Store) : Store := { s with dirty := true }

/-- The flag is cleared, and what it was. -/
def takeDirty (s : Store) : Store × Bool := ({ s with dirty := false }, s.dirty)

/-- **The snapshot in the file**, if there is a file. -/
def load (s : Store) : Except FileError (Option Snapshot) :=
  match s.file with
  | none => .ok none
  | some text => (Snapshot.ofFile text).map some

/-- **The file is replaced.** The flag is left alone. -/
def save (s : Store) (snapshot : Snapshot) : Except FileError Store :=
  if s.writable then .ok { s with file := some snapshot.fileText, saves := s.saves + 1 }
  else .error .unavailable

end Store

end Fleet.Sync
