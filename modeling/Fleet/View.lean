import Fleet.Patch.Basic

/-!
# Views

A view is a dashboard: a name and a list of endpoints to show, in the order in which they are
shown. The endpoints are named in full and need not exist. A view is always changed as a whole.
-/

namespace Fleet

open Patch (ViewChange)

/-- **A view.** -/
structure View where
  id : Uuid
  name : String
  /-- The full names of the endpoints. -/
  references : List String
deriving DecidableEq

namespace View

/-- The view as a whole, which is all that is ever said about it. -/
def change (v : View) : ViewChange where
  id := some v.id
  name := some v.name
  references := some v.references

/-- **The view after a change.** The change must not name another view and has to give both the
name and the references. -/
def update (v : View) (c : ViewChange) : Except TreeError View :=
  if c.id.any (· ≠ v.id) then .error (.otherView v.id)
  else
    match c.name, c.references with
    | some name, some references => .ok { v with name, references }
    | _, _ => .error (.partialView v.id)

/-- A new view that a change describes. -/
def ofChange (id : Uuid) (c : ViewChange) : Except TreeError View := update ⟨id, "", []⟩ c

/-- The identifier that a key denotes. -/
def requiredId (key : String) : Except TreeError Uuid :=
  match Uuid.ofText? key with
  | some id => .ok id
  | none => .error (.badViewId key)

end View

end Fleet
