import Fleet.Daemon.Disk
import Fleet.Daemon.Options

/-!
# A run of the daemon

A whole run, from the command line to the exit code: the daemon reads its files from a disk, serves
one session, and leaves the disk with the tree in its snapshot file. A run that does not get so far
as to serve leaves the files alone, but the directory has been made by then.

The exit code does not tell whether the tree could be saved. A run takes place at one time, which
the clock shows whenever it is read.
-/

namespace Fleet.Daemon

/-- **How a run ends.** -/
structure Ending where
  exitCode : Nat
  /-- What is printed. -/
  output : String := ""
  /-- The frames that answer each frame of the session. -/
  replies : List (List String) := []
  disk : Disk

/-- What the daemon finds in the directory at a path, and the report of a discovery run at another
one. -/
def Disk.files (d : Disk) (directory : String) (discovered : Option String) : Files where
  snapshot := d.read? (Disk.join directory snapshotFile)
  bounds := d.read? (Disk.join directory boundsFile)
  discovered := discovered.bind d.read?

/-- **A tree is served** to one session, as a setup says. -/
def Setup.serve (setup : Setup) (now : Time) (session : Uuid) (frames : List String)
    (d : Disk) (wording : Value → String := fun _ => "") : Ending :=

  match d.makeDirectories setup.directory with
  | (d, none) => { exitCode := 1, disk := d }
  | (d, some _) =>
    let snapshot := Disk.join setup.directory snapshotFile
    -- there is a snapshot, but it cannot be read
    if (d.directory? snapshot).isSome then { exitCode := 1, disk := d }
    else
      let files := d.files setup.directory setup.discovered
      match start setup.config (fun _ => .always now) files wording with
      | .error e => { exitCode := e.exitCode, disk := d }
      | .ok server =>
        let (server, number) := server.openSession now session none
        let (server, replies) := server.receiveEach now number frames
        let saved := ((stop server).store.bind (·.file)).bind (d.replace? snapshot)
        { exitCode := 0, replies, disk := saved.getD d }

/-- **The daemon runs** with a command line in an environment. -/
def run (arguments : List String) (environment : String → Option String) (now : Time)
    (session : Uuid) (frames : List String) (d : Disk)
    (wording : Value → String := fun _ => "") : Ending :=
  match request arguments environment with
  | .help => { exitCode := 0, output := usage environment, disk := d }
  | .version => { exitCode := 0, output := versionText, disk := d }
  | .invalid => { exitCode := 2, disk := d }
  | .serve setup => setup.serve now session frames d wording

end Fleet.Daemon
