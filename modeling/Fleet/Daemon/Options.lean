import Fleet.Daemon.Lifecycle

/-!
# Options of the daemon

The daemon is set up by options on its command line. Some of them may also be given by a variable
of the environment, which counts only where the command line has no such option.

An option is written as its name and its value in two arguments, or in one with `=` between them; a
short name may also be followed by the value at once. A value that begins with a hyphen has to be
written in one argument with its name. Every option may be given once, and its value has to be of
the right kind. Two hyphens alone may stand at the end.
-/

namespace Fleet.Daemon

/-- **The options**, each with its value if it was given. -/
structure Options where
  bind : Option String := none
  configDir : Option String := none
  saveInterval : Option Nat := none
  broadcastCapacity : Option Nat := none
  discovered : Option String := none
deriving DecidableEq, Repr

/-- **How the daemon is set up.** -/
structure Setup where
  config : Sync.ServerConfig
  directory : String
  /-- The file with the report of a discovery run. -/
  discovered : Option String
deriving DecidableEq, Repr

/-- **What a command line asks for.** -/
inductive Request where
  /-- Serve a tree. -/
  | serve (setup : Setup)
  /-- Say how to use the daemon. -/
  | help
  /-- Say which version it is. -/
  | version
  /-- The command line is not understood. -/
  | invalid
deriving DecidableEq, Repr

/-- The options that take a value. -/
inductive OptionName where
  | bind
  | configDir
  | saveInterval
  | broadcastCapacity
  | discovered
deriving DecidableEq, Repr

namespace OptionName

/-- The option of a long name. -/
def ofLong? (s : String) : Option OptionName :=
  match s with
  | "bind" => some bind
  | "config-dir" => some configDir
  | "save-interval" => some saveInterval
  | "broadcast-capacity" => some broadcastCapacity
  | "discovered" => some discovered
  | _ => none

/-- The option of a short name. -/
def ofShort? (c : Char) : Option OptionName :=
  match c with
  | 'b' => some bind
  | 'c' => some configDir
  | _ => none

/-- The variable of the environment that stands for the option. -/
def environmentName? : OptionName → Option String
  | bind => some "DEVTREE_BIND"
  | configDir => some "DEVTREE_CONFIG_DIR"
  | saveInterval => some "DEVTREE_SAVE_INTERVAL"
  | _ => none

end OptionName

namespace Options

/-- Whether an option was given. -/
def has (o : Options) : OptionName → Bool
  | .bind => o.bind.isSome
  | .configDir => o.configDir.isSome
  | .saveInterval => o.saveInterval.isSome
  | .broadcastCapacity => o.broadcastCapacity.isSome
  | .discovered => o.discovered.isSome

/-- A path, which must not be empty. -/
def path? (s : String) : Option String := if s = "" then none else some s

/-- A number of 64 bits. -/
def number? (s : String) : Option Nat := Text.signless? (UInt64.size - 1) s.toList

/-- The options with a value for one of them, if the value is of the right kind. -/
def set? (o : Options) (value : String) : OptionName → Option Options
  | .bind => some { o with bind := some value }
  | .configDir => (path? value).map fun p => { o with configDir := some p }
  | .saveInterval => (number? value).map fun n => { o with saveInterval := some n }
  | .broadcastCapacity => (number? value).map fun n => { o with broadcastCapacity := some n }
  | .discovered => (path? value).map fun p => { o with discovered := some p }

/-- An option is given, which must not have been given before. -/
def add? (o : Options) (name : OptionName) (value : String) : Option Options :=
  if o.has name then none else o.set? value name

/-- An option that was not given has the value that the environment gives it, if any. -/
def fill? (environment : String → Option String) (o : Options) (name : OptionName) :
    Option Options :=
  match name.environmentName?.bind environment with
  | some value => if o.has name then some o else o.set? value name
  | none => some o

/-- The options with what the environment says about those that were not given. -/
def orElse? (o : Options) (environment : String → Option String) : Option Options :=
  [OptionName.bind, .configDir, .saveInterval].foldlM (fill? environment) o

/-- What the options come to. -/
def setup (o : Options) : Setup where
  config := {
    bindAddress := o.bind.getD standard.bindAddress
    saveInterval := o.saveInterval.getD standard.saveInterval
    broadcastCapacity := o.broadcastCapacity.getD standard.broadcastCapacity }
  directory := o.configDir.getD defaultDirectory
  discovered := o.discovered
where
  /-- What holds for options that are not given. -/
  standard : Sync.ServerConfig := {}

end Options

/-- **One argument**, taken apart. -/
inductive Argument where
  | help
  | version
  /-- An option, with its value if the argument has it. -/
  | option (name : OptionName) (value : Option String)
  /-- Two hyphens, behind which there are no options. -/
  | separator
  | other
deriving DecidableEq, Repr

namespace Argument

/-- An option after two hyphens. -/
def ofLong (cs : List Char) : Argument :=
  let name := String.ofList (cs.takeWhile (· ≠ '='))
  let value := match cs.dropWhile (· ≠ '=') with
    | [] => none
    | _ :: value => some (String.ofList value)
  match OptionName.ofLong? name with
  | some name => .option name value
  | none =>
    if value.isSome then .other
    else if name = "help" then .help
    else if name = "version" then .version
    else .other

/-- An option after one hyphen. -/
def ofShort (cs : List Char) : Argument :=
  match cs with
  | 'h' :: _ => .help
  | 'V' :: _ => .version
  | c :: rest =>
    match OptionName.ofShort? c, rest with
    | some name, [] => .option name none
    | some name, '=' :: value => .option name (some (String.ofList value))
    | some name, value => .option name (some (String.ofList value))
    | none, _ => .other
  | [] => .other

/-- An argument. -/
def ofText (s : String) : Argument :=
  match s.toList with
  | ['-', '-'] => separator
  | '-' :: '-' :: cs => ofLong cs
  | '-' :: cs => ofShort cs
  | _ => .other

end Argument

/-- The arguments one after another, up to the first that is wrong. A help or version that comes
before it ends the reading. -/
def readArguments (o : Options) : List String → Except Request Options
  | [] => .ok o
  | s :: rest =>
    match Argument.ofText s with
    | .help => .error .help
    | .version => .error .version
    -- every argument is an option, so nothing may follow
    | .separator => if rest.isEmpty then .ok o else .error .invalid
    | .other => .error .invalid
    | .option name (some value) =>
      match o.add? name value with
      | some o => readArguments o rest
      | none => .error .invalid
    | .option name none =>
      match rest with
      | value :: rest =>
        -- such an argument would be an option itself; a hyphen alone is a value
        if value.startsWith "-" && value ≠ "-" then .error .invalid
        else
          match o.add? name value with
          | some o => readArguments o rest
          | none => .error .invalid
      | [] => .error .invalid

/-- **What a command line asks for** in an environment. The environment counts only if the command
line is right. -/
def request (arguments : List String) (environment : String → Option String) : Request :=
  match readArguments {} arguments with
  | .error r => r
  | .ok o =>
    match o.orElse? environment with
    | some o => .serve o.setup
    | none => .invalid

/-- **How the daemon is used**, with what the environment says now. -/
def usage (environment : String → Option String) : String := "\n".intercalate [
  "Device tree replication server",
  "",
  "Usage: devtree-daemon [OPTIONS]",
  "",
  "Options:",
  "  -b, --bind <BIND>",
  "          Address to listen on" ++ hint .bind ++ " [default: 127.0.0.1:3000]",
  "  -c, --config-dir <CONFIG_DIR>",
  "          Directory holding devicetree.json and sensor_bounds.json" ++ hint .configDir ++
    " [default: config]",
  "      --save-interval <SAVE_INTERVAL>",
  "          Seconds between snapshot writes" ++ hint .saveInterval ++ " [default: 60]",
  "      --broadcast-capacity <BROADCAST_CAPACITY>",
  "          Frames a session may fall behind before it is resent the tree [default: 256]",
  "      --discovered <DISCOVERED>",
  "          JSON list of discovered devices to merge at startup",
  "  -h, --help",
  "          Print help",
  "  -V, --version",
  "          Print version",
  ""]
where
  /-- The variable that stands for an option, and its value. -/
  hint (option : OptionName) : String :=
    match option.environmentName? with
    | some name => " [env: " ++ name ++ "=" ++ (environment name).getD "" ++ "]"
    | none => ""

/-- The version of the daemon. -/
def versionText : String := "devtree-daemon 0.1.0\n"

end Fleet.Daemon
