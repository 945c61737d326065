import Fleet.Tree.Outcome
import Fleet.Tree.Restore

/-!
# Messages between replicas

Replicas exchange text frames, each of which holds one message. A message is an object with a name
(`event`) and, for four of the seven kinds, data. Patches travel as plain values, so a patch of the
wrong shape is still a message and can be answered with an error.

The members of a message may stand in any order. Data that stand before the name are *buffered*:
they are read as a whole before it is known what they are, so nothing in them may be at fault, not
even in a part that would otherwise be passed over. A message may also be an array of the name and
the data, in which the data cannot be left out.
-/

namespace Fleet

open Json (Node Refusal)

/-- **A message.** -/
inductive Message where
  /-- Ask for the whole tree. -/
  | requestInit
  /-- The whole tree. -/
  | init (s : Snapshot)
  /-- A patch that is meant as an update. -/
  | update (patch : Value)
  /-- A patch that is meant as a deletion. -/
  | delete (patch : Value)
  /-- A patch was refused. -/
  | error (report : ErrorReport)
  | ping
  | pong
deriving DecidableEq

namespace Message

/-! ### Making messages -/

/-- The message that carries a patch in the manner in which it is meant. -/
def ofPatch (p : Patch) : Tree.Manner → Message
  | .update => update p.toValue
  | .delete => delete p.toValue

/-- **The message that tells of an event.** -/
def ofEvent (e : Event) : Message := ofPatch e.patch e.manner

/-- The message that says why a patch was refused. -/
def ofError (e : TreeError) (said : String := "") : Message := error (e.report said)

/-- The message that carries the whole tree. -/
def ofTree (t : Tree) : Message := init t.snapshot

/-! ### Kinds -/

/-- **The kind of a message**, which is all there is to most of them. -/
inductive Kind where
  | requestInit
  | init
  | update
  | delete
  | error
  | ping
  | pong
deriving DecidableEq, Repr

/-- The name of a kind. -/
def Kind.name : Kind → String
  | requestInit => "tree_request_init"
  | init => "tree_init"
  | update => "tree_update"
  | delete => "tree_delete"
  | error => "tree_error"
  | ping => "ping"
  | pong => "pong"

/-- Every kind. -/
def Kind.all : List Kind := [requestInit, init, update, delete, error, ping, pong]

/-- The kind of a name. -/
def Kind.ofName? (s : String) : Option Kind := all.find? fun kind => kind.name = s

/-- Reading the name of a kind. -/
def Kind.readName (node : Node) : Except Refusal Kind :=
  node.readString.bind fun s => Json.required (ofName? s)

/-- Reading a kind, as a choice without content. -/
def Kind.read (node : Node) : Except Refusal Kind :=
  (node.readChoice false).bind fun s => Json.required (ofName? s)

/-- The kind of a message. -/
def kind : Message → Kind
  | requestInit => .requestInit
  | init _ => .init
  | update _ => .update
  | delete _ => .delete
  | error _ => .error
  | ping => .ping
  | pong => .pong

/-- The name of a message. -/
def name (m : Message) : String := m.kind.name

/-! ### Writing -/

/-- The data of a message, if its kind has any. -/
def data? : Message → Option Json
  | init s => some s.toJson
  | update v => some v.json
  | delete v => some v.json
  | error r => some r.toJson
  | _ => none

/-- **A message as a document.** -/
def toJson (m : Message) : Json :=
  .object (Json.member "event" (.string m.name) ++ Json.member? "data" id m.data?)

/-- **The frame that carries a message.** -/
def encode (m : Message) : String := m.toJson.compact

/-! ### Reading -/

/-- A message without data, which may be given as `null` all the same. -/
def withoutData (m : Message) : Node → Except Refusal Message
  | .null => .ok m
  | _ => .error .mismatch

/-- **The data of a message** of a known kind. -/
def Kind.readData (buffered : Bool) : Kind → Node → Except Refusal Message
  | .requestInit => withoutData .requestInit
  | .init => fun node => (Snapshot.read node).map .init
  | .update => fun node => node.readValue.map .update
  | .delete => fun node => node.readValue.map .delete
  | .error => fun node => (ErrorReport.read buffered node).map .error
  | .ping => withoutData .ping
  | .pong => withoutData .pong

/-- The message of a kind for which no data are given. -/
def Kind.readMissing : Kind → Except Refusal Message
  | .requestInit => .ok .requestInit
  | .ping => .ok .ping
  | .pong => .ok .pong
  | _ => .error .mismatch

/-- **How far a message has been read.** -/
inductive Draft where
  /-- Neither the name nor the data. -/
  | blank
  /-- The name. -/
  | named (kind : Kind)
  /-- The data, which are buffered. -/
  | buffered (data : Node)
  /-- Both. -/
  | complete (m : Message)

/-- The name is next. -/
def Draft.putName (node : Node) : Draft → Except Refusal Draft
  | blank => do .ok (named (← Kind.read node))
  | buffered data => do
    let kind ← Kind.read node
    .ok (complete (← kind.readData true data))
  | _ => .error .mismatch

/-- The data are next. -/
def Draft.putData (node : Node) : Draft → Except Refusal Draft
  | blank => do
    let _ ← node.readValue
    .ok (buffered node)
  | named kind => do .ok (complete (← kind.readData false node))
  | _ => .error .mismatch

/-- The message, when nothing follows. -/
def Draft.finish : Draft → Except Refusal Message
  | named kind => kind.readMissing
  | complete m => .ok m
  | _ => .error .mismatch

/-- The two members of a message. -/
def schema : Json.Schema Draft where
  fields := [⟨"event", Draft.putName, none⟩, ⟨"data", Draft.putData, none⟩]

/-- **Reading a message**, from an object or from the array of its name and its data. In an object
the name may be written as a choice; in an array it has to be a text. -/
def read (node : Node) : Except Refusal Message :=
  match node with
  | .array items closed =>
    match items with
    | [name, data] => do
      let kind ← Kind.readName name
      Json.whenClosed closed (← kind.readData false data)
    | _ => .error .mismatch
  | node => do (← schema.read .blank node).finish

end Message

/-! ### Links -/

/-- **What can go wrong on the way to another replica.** -/
inductive LinkError where
  /-- A message could not be written. -/
  | unwritable (detail : String)
  /-- A frame holds no message. -/
  | unreadable (detail : String)
  /-- A frame of another kind came. -/
  | unexpectedFrame
  /-- The other side could not be reached. -/
  | unreachable (detail : String)
  /-- There is no connection. -/
  | closed
  /-- The other side took too long. -/
  | timeout
deriving DecidableEq, Repr

namespace LinkError

/-- The name of the kind of error. -/
def kind : LinkError → String
  | unwritable _ => "SerializationError"
  | unreadable _ => "DeserializationError"
  | unexpectedFrame => "UnexpectedFrame"
  | unreachable _ => "ConnectionFailed"
  | closed => "ConnectionClosed"
  | timeout => "Timeout"

/-- The error of a kind; a detail that the kind has no room for is left out. -/
def ofKind? (kindName detail : String) : Option LinkError :=
  [unwritable detail, unreadable detail, unexpectedFrame, unreachable detail, closed,
    timeout].find? fun e => e.kind = kindName

/-- The error in one line. -/
def message : LinkError → String
  | unwritable detail => "Serialization error: " ++ detail
  | unreadable detail => "Deserialization error: " ++ detail
  | unexpectedFrame => "Unexpected frame type"
  | unreachable detail => "Connection failed: " ++ detail
  | closed => "Connection closed"
  | timeout => "Connection timeout"

end LinkError

/-- **The message that a frame carries.** If it carries none, the reader of documents says why. -/
def Message.decode (frame : String) (said : String := "") : Except LinkError Message :=
  (Json.readText read frame).mapError fun _ => .unreadable said

end Fleet
