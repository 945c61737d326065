import Fleet.Daemon.Disk
import Fleet.Daemon.Options
import Std.Time.DateTime.Timestamp

/-!
# The daemon as a program

Reads its files, serves one session, and saves the tree at the end. The session runs over the
standard input and output: every line that comes in is a frame, and every frame that goes out is a
line. Everything that is decided is decided elsewhere; this module reads and writes.
-/

namespace Fleet.Daemon

open Sync (Server)

/-- The time in seconds. -/
def currentTime : IO Time := do
  let now ← Std.Time.Timestamp.now
  return UInt64.ofNat now.toSecondsSinceUnixEpoch.val.toNat

/-- A number that is drawn for an identifier. -/
def draw : IO Uuid := do
  let bytes ← IO.getRandomBytes 16
  return .random (BitVec.ofNat 128 (bytes.toList.foldl (fun n b => 256 * n + b.toNat) 0))

/-- The text of a file, if there is one. A path that is too long leads to none. -/
def readFile? (path : String) : IO (Option String) := do
  try
    return some (← IO.FS.readFile path)
  catch
    | .noFileOrDirectory .. => return none
    | .invalidArgument .. => return none
    | e => throw e

/-- The text of a file, if it can be read. -/
def tryReadFile (path : String) : IO (Option String) := do
  try readFile? path catch _ => return none

/-- A file is replaced at once, and whether that was possible. -/
def replaceFile (path text : String) : IO Bool := do
  try
    IO.FS.writeFile (path ++ ".tmp") text
    IO.FS.rename (path ++ ".tmp") path
    return true
  catch _ => return false

/-- The tree is saved to the file at a path. -/
def saveTo (path : String) (s : Server) : IO Server := do
  match s.beginSave with
  | none => return s
  | some (s, pending) =>
    let writable ← replaceFile path pending.snapshot.fileText
    let s := { s with store := s.store.map fun store : Sync.Store => { store with writable } }
    return (s.finishSave pending).1

/-- The frames of a session one after another, up to the end of the input. The tree is saved
whenever an interval is over and it may have changed. -/
partial def serveLines (path : String) (input output : IO.FS.Stream) (session : Nat)
    (s : Server) : IO Server := do
  let before ← IO.monoMsNow
  let line ← input.getLine
  if line.isEmpty then return s
  let (s, frames) := s.receive (← currentTime) session (line.dropEndWhile (· = '\n')).toString
  let (s, more) := s.forwardAll session
  for frame in frames ++ more do output.putStrLn frame
  output.flush
  let elapsed := ((← IO.monoMsNow) - before) / 1000
  let every := max s.config.saveInterval 1
  let later := s.uptime + elapsed
  let s ← if s.uptime / every < later / every && s.isDirty then saveTo path s else pure s
  serveLines path input output session { s with uptime := later }

/-- A tree is served as a setup says. -/
def serve (setup : Setup) : IO UInt32 := do
  let path := Disk.join setup.directory snapshotFile
  let files : Option Files ← try
      IO.FS.createDirAll setup.directory
      let snapshot ← readFile? path
      let bounds ← tryReadFile (Disk.join setup.directory boundsFile)
      let discovered ← match setup.discovered with
        | some file => tryReadFile file
        | none => pure none
      pure (some { snapshot, bounds, discovered })
    catch _ => pure none
  let now ← currentTime
  match files.map fun files => start setup.config (fun _ => .always now) files with
  | some (.ok s) =>
    let (s, session) := s.openSession now (← draw) none
    let s ← serveLines path (← IO.getStdin) (← IO.getStdout) session s
    let _ ← saveTo path s
    return 0
  | some (.error e) => return e.exitCode.toUInt32
  | none => return 1

end Fleet.Daemon

open Fleet.Daemon in
/-- The daemon. -/
def main (arguments : List String) : IO UInt32 := do
  let mut environment : List (String × String) := []
  for name in ["DEVTREE_BIND", "DEVTREE_CONFIG_DIR", "DEVTREE_SAVE_INTERVAL"] do
    if let some value ← IO.getEnv name then environment := (name, value) :: environment
  match request arguments (environment.lookup ·) with
  | .serve setup => serve setup
  | .help => IO.print (usage (environment.lookup ·)); return 0
  | .version => IO.print versionText; return 0
  | .invalid => IO.eprint (usage (environment.lookup ·)); return 2
