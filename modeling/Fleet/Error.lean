import Fleet.Endpoint.Function
import Fleet.Json.Text

/-!
# What can go wrong

`TreeError` lists the causes for which an operation on a tree, a device, an endpoint or a view is
refused, each with what it is about. A cause belongs to one of six kinds (`ErrorKind`), which
travel between peers together with a detail text (`ErrorReport`).

An operation that is refused leaves everything as it was.

Data that are no patch are refused while they are read, and the reader of documents has its own
words for what it has met. They are no part of the cause: whoever reports it gives them.
-/

namespace Fleet

open Json (Node Refusal)

/-! ### Kinds -/

/-- **The kind of an error** as peers name it. -/
inductive ErrorKind where
  | requiredFieldMissing
  | invalidType
  | invalidId
  | duplicateEntity
  | notFound
  | malformedPatch
deriving DecidableEq, Repr

namespace ErrorKind

/-- Every kind. -/
def all : List ErrorKind :=
  [requiredFieldMissing, invalidType, invalidId, duplicateEntity, notFound, malformedPatch]

/-- The name under which the kind travels. -/
def name : ErrorKind → String
  | requiredFieldMissing => "RequiredFieldMissing"
  | invalidType => "InvalidType"
  | invalidId => "InvalidId"
  | duplicateEntity => "DuplicateEntity"
  | notFound => "NotFound"
  | malformedPatch => "MalformedPatch"

/-- The kind of a name. -/
def ofName? (s : String) : Option ErrorKind := all.find? fun kind => kind.name = s

/-- Reading a kind, from a document that may have been buffered before. -/
def read (buffered : Bool) (node : Node) : Except Refusal ErrorKind :=
  (node.readChoice buffered).bind fun s => Json.required (ofName? s)

/-- What a message of the kind begins with. -/
def label : ErrorKind → String
  | requiredFieldMissing => "Required field missing"
  | invalidType => "Invalid type"
  | invalidId => "Invalid id"
  | duplicateEntity => "Duplicate entity"
  | notFound => "Not found"
  | malformedPatch => "Malformed patch"

end ErrorKind

/-! ### Reports -/

/-- **An error as it travels**: its kind and a text. -/
structure ErrorReport where
  kind : ErrorKind
  detail : String
deriving DecidableEq, Repr

namespace ErrorReport

/-- The report in one line. -/
def message (r : ErrorReport) : String := r.kind.label ++ ": " ++ r.detail

/-- The report as a document. -/
def toJson (r : ErrorReport) : Json :=
  .object [("kind", .string r.kind.name), ("detail", .string r.detail)]

/-- A report that is being read. -/
structure Draft where
  kind : Option ErrorKind
  detail : Option String

/-- The fields of a report. -/
def schema (buffered : Bool) : Json.Schema Draft where
  fields := [
    .of "kind" (ErrorKind.read buffered) fun kind draft => { draft with kind := some kind },
    .of "detail" Node.readString fun detail draft => { draft with detail := some detail }]

/-- **Reading a report**, from a document that may have been buffered before. -/
def read (buffered : Bool) (node : Node) : Except Refusal ErrorReport := do
  let draft ← (schema buffered).read ⟨none, none⟩ node
  let kind ← Json.required draft.kind
  let detail ← Json.required draft.detail
  .ok ⟨kind, detail⟩

end ErrorReport

/-! ### Causes -/

/-- **Why an operation was refused.** -/
inductive TreeError where
  /-- A device or endpoint without an address. -/
  | missingAddress
  /-- A description without a type. -/
  | missingType
  /-- A description without a function. -/
  | missingFunction
  /-- An endpoint that would create its device, without a name for it. -/
  | missingDeviceName (ip : String)
  /-- A type that is no integer from 0 to 255. -/
  | badType (raw : Value)
  /-- A function of an unknown name. -/
  | unknownFunction (name : String)
  /-- A bound for an endpoint that is no sensor. -/
  | sensorOnly (field : String) (id : String) (function : Function)
  /-- A text that is not the number of an endpoint. -/
  | badEid (raw : String)
  /-- A text that is not the identifier of a view. -/
  | badViewId (raw : String)
  /-- An endpoint of another device. -/
  | foreignEndpoint (id ip : String)
  /-- Something that exists already. -/
  | duplicate (id : String)
  /-- Something that does not exist. -/
  | notFound (id : String)
  /-- Data that are no patch. -/
  | noPatch (refusal : Refusal)
  /-- A change that would create an endpoint, without a description of it. -/
  | endpointWithoutParams (id : String)
  /-- A change that would create a device, without a name or a time. -/
  | deviceWithoutHeader (ip : String)
  /-- Two changes for one endpoint. -/
  | endpointTwice (id : String)
  /-- A change of a view under the identifier of another one. -/
  | otherView (id : Uuid)
  /-- A change of a view that leaves something open. -/
  | partialView (id : Uuid)
deriving DecidableEq

/-- What is said of data that were refused, if `said` is what the reader says of a mismatch. -/
def Json.Refusal.detail (said : String) : Refusal → String
  | .blankChange => "change carries no fields; only \x7b\x7d deletes"
  | .mismatch => said

namespace TreeError

/-- The kind of the error. -/
def kind : TreeError → ErrorKind
  | missingAddress | missingType | missingFunction | missingDeviceName _ => .requiredFieldMissing
  | badType _ | unknownFunction _ | sensorOnly _ _ _ => .invalidType
  | badEid _ | badViewId _ | foreignEndpoint _ _ => .invalidId
  | duplicate _ => .duplicateEntity
  | notFound _ => .notFound
  | noPatch _ | endpointWithoutParams _ | deviceWithoutHeader _ | endpointTwice _ | otherView _
  | partialView _ => .malformedPatch

/-- What the error is about. Of data that were read, the reader said `said`. -/
def detail (e : TreeError) (said : String := "") : String :=
  match e with
  | missingAddress => "ip"
  | missingType => "type"
  | missingFunction => "function"
  | missingDeviceName ip => "name of new device " ++ ip
  | badType raw => "type " ++ raw.text ++ " is not a small integer"
  | unknownFunction name => "unknown function '" ++ name ++ "'"
  | sensorOnly field id function =>
    field ++ " is sensor-only, endpoint " ++ id ++ " is " ++ function.name
  | badEid raw => "eid '" ++ raw ++ "' is not an integer"
  | badViewId raw => "view id '" ++ raw ++ "' is not a UUID"
  | foreignEndpoint id ip => "endpoint " ++ id ++ " does not belong to device " ++ ip
  | duplicate id => id
  | notFound id => id
  | noPatch refusal => refusal.detail said
  | endpointWithoutParams id => "cannot create endpoint " ++ id ++ " without params"
  | deviceWithoutHeader ip => "cannot create device " ++ ip ++ " without name and last_update"
  | endpointTwice id => "endpoint " ++ id ++ " listed twice"
  | otherView id => "view patch for " ++ id.text ++ " carries a different id"
  | partialView id => "view " ++ id.text ++ " must be patched with both name and devices"

/-- The error as it travels. -/
def report (e : TreeError) (said : String := "") : ErrorReport := ⟨e.kind, e.detail said⟩

/-- The error in one line. -/
def message (e : TreeError) (said : String := "") : String := (e.report said).message

end TreeError

/-! ### Files -/

/-- **Why a file was not loaded or saved.** -/
inductive FileError where
  /-- The file could not be read or written. -/
  | unavailable
  /-- The file holds something else. -/
  | malformed
  /-- What the file holds is no tree. -/
  | rejected (report : ErrorReport)
deriving DecidableEq

/-- The error in one line, apart from what the system has to say. -/
def FileError.message : FileError → String
  | unavailable => "Snapshot I/O error"
  | malformed => "Snapshot JSON error"
  | rejected report => "Snapshot content rejected: " ++ report.message

end Fleet
