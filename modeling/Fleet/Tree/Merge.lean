import Fleet.Discovery
import Fleet.Tree.Edit

/-!
# Merging discovered devices

A device that a discovery run found is merged into a tree by loud operations, one after another: it
is added if its address is new, renamed if its name is another one, and it gets the endpoints that
it does not have yet. Endpoints that are known keep their state.

Every new endpoint is tried before anything is changed (`Tree.checkFound`), so that none of the
operations that follow is refused. Time goes by meanwhile: the clock is read for the checks and
again by each of the operations (`Tree.MergeTimes`).
-/

namespace Fleet.Tree

/-- **What the clock shows during a merge**, at each of its steps. -/
structure MergeTimes where
  /-- When the endpoints are checked. -/
  check : Time
  /-- When the device is added or renamed. -/
  header : Time
  /-- When the endpoint of a number is added. No number is listed twice. -/
  endpoint : Eid → Time

/-- A clock that shows one time during the whole merge. -/
def MergeTimes.always (now : Time) : MergeTimes := ⟨now, now, fun _ => now⟩

/-- **What a merge did.** -/
structure MergeReport where
  added : Bool := false
  renamed : Bool := false
  /-- The numbers of the new endpoints, in the order in which they were reported. -/
  endpoints : List Eid := []
deriving DecidableEq, Repr

/-- Whether the merge did nothing. -/
def MergeReport.isNoop (r : MergeReport) : Bool := !r.added && !r.renamed && r.endpoints.isEmpty

/-- The endpoints of a found device that the tree does not have. -/
def missing (t : Tree) (found : Discovery.Device) : List Discovery.Endpoint :=
  found.endpoints.filter fun e => (t.deviceWith? found.ip e.eid).isNone

/-- The first number of a list that comes a second time. -/
def firstRepeated? (seen : List Eid) : List Eid → Option Eid
  | [] => none
  | eid :: rest => if eid ∈ seen then some eid else firstRepeated? (eid :: seen) rest

/-- Every endpoint of a list can be created. -/
def checkAll (t : Tree) (now : Time) (ip : String) :
    List Discovery.Endpoint → Except TreeError Unit
  | [] => .ok ()
  | e :: rest => do
    let _ ← Endpoint.create t.bounds now ip e.eid e.params
    t.checkAll now ip rest

/-- **What is checked of a found device**: no number is listed twice, and every endpoint that the
tree does not have can be created. -/
def checkFound (t : Tree) (now : Time) (found : Discovery.Device) : Except TreeError Unit :=
  match firstRepeated? [] (found.endpoints.map (·.eid)) with
  | some eid => .error (.duplicate (Endpoint.fullName found.ip eid))
  | none => t.checkAll now found.ip (t.missing found)

/-- The device of a found one is there afterwards and has its name. -/
def mergeHeader (t : Tree) (now : Time) (found : Discovery.Device) : Outcome MergeReport :=
  match t.device? found.ip with
  | none => (t.addDevice now found.ip found.name).map fun _ => { added := true }
  | some d =>
    if d.name = found.name then .quiet t {}
    else
      match t.renameDevice now found.ip found.name with
      | some o => o.map fun _ => { renamed := true }
      | none => .quiet t {}

/-- The endpoints of a list are added one after another. -/
def mergeEndpoints (clock : Eid → Time) (ip : String) :
    List Discovery.Endpoint → MergeReport → Tree → Outcome MergeReport
  | [], r, t => .quiet t r
  | e :: rest, r, t =>
    match t.extendDevice (clock e.eid) ip e.eid e.params with
    | none => mergeEndpoints clock ip rest r t
    | some o =>
      o.andThen fun _ t =>
        mergeEndpoints clock ip rest { r with endpoints := r.endpoints ++ [e.eid] } t

/-- **A found device is merged**, at a time for each step. -/
def merge (t : Tree) (times : MergeTimes) (found : Discovery.Device) : Outcome MergeReport :=
  match t.checkFound times.check found with
  | .error e => .refused t e
  | .ok () =>
    (t.mergeHeader times.header found).andThen
      (mergeEndpoints times.endpoint found.ip (t.missing found))

end Fleet.Tree
