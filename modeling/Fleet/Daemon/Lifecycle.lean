import Fleet.Sync.Server

/-!
# Start and end of the daemon

The daemon reads a snapshot and perhaps a table of bounds from its directory, merges what a
discovery run has found, serves the tree, and saves it when it ends.

A table of bounds that cannot be read is passed over, and so is a found device that cannot be
merged. A snapshot that cannot be loaded ends the daemon before it has served or saved anything.
-/

namespace Fleet.Daemon

open Sync (Server ServerConfig Store)

/-- The name of the snapshot file. -/
def snapshotFile : String := "devicetree.json"

/-- The name of the file with the table of bounds. -/
def boundsFile : String := "sensor_bounds.json"

/-- The directory of these files unless another one is given. -/
def defaultDirectory : String := "config"

/-- The table of bounds in a file, which may be missing or hold something else. -/
def loadBounds (file : Option String) : BoundsTable :=
  match file with
  | none => .standard
  | some text => (Json.readText BoundsTable.read text).toOption.getD .standard

/-- **The tree in the snapshot file**; without a file, the empty one. -/
def loadTree (bounds : BoundsTable) (store : Store) : Except FileError Tree := do
  match ← store.load with
  | some s => (Tree.ofSnapshot bounds s).mapError fun e => .rejected e.report
  | none => .ok (.ofBounds bounds)

/-- Found devices are merged one after another, the first at the first times and so on; those that
are refused are skipped. -/
def mergeAll (times : Nat → Tree.MergeTimes) (t : Tree) : List Discovery.Device → Tree
  | [] => t
  | d :: rest => mergeAll (fun i => times (i + 1)) (t.merge (times 0) d).tree rest

/-- **The devices in a file are merged.** If it holds something else, nothing is. -/
def mergeFile (times : Nat → Tree.MergeTimes) (t : Tree) (file : Option String) : Tree :=
  match file.map (Json.readText Discovery.readAll) with
  | some (.ok found) => mergeAll times t found
  | _ => t

/-- **What the daemon finds** when it is started. -/
structure Files where
  snapshot : Option String := none
  /-- Whether the snapshot can be replaced. -/
  writable : Bool := true
  bounds : Option String := none
  /-- The report of a discovery run. -/
  discovered : Option String := none

/-- **Why the daemon does not start.** -/
inductive StartError where
  /-- The snapshot cannot be loaded. -/
  | snapshot (e : FileError)
  /-- There is no memory for that many frames. -/
  | capacity
deriving DecidableEq

/-- The exit code of the daemon that does not start. -/
def StartError.exitCode : StartError → Nat
  | snapshot _ => 1
  | capacity => 101

/-- **The server that the daemon starts**, after merging what was found at the times that the clock
showed. The snapshot is loaded first. -/
def start (config : ServerConfig) (times : Nat → Tree.MergeTimes) (files : Files)
    (wording : Value → String := fun _ => "") : Except StartError Server := do
  let store : Store := { file := files.snapshot, writable := files.writable }
  let t ← (loadTree (loadBounds files.bounds) store).mapError .snapshot
  if Sync.Broadcast.maxCapacity < config.broadcastCapacity then .error .capacity
  else .ok (.create config (mergeFile times t files.discovered) (some store) wording)

/-- **The daemon ends**: the tree is saved whether it has changed or not. -/
def stop (s : Server) : Server := s.save.1

end Fleet.Daemon
