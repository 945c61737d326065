import Fleet.Proofs.Restoring

/-!
# Operations carried out in place

A loud operation is defined by what it leaves behind (`Outcome`), and a patch or a snapshot gives
another tree or an error. Whoever keeps a tree changes it in place instead, one step after another,
and what a step has changed or published stays when a later step fails.

A `Procedure` is such a sequence of steps on something that is held: on an endpoint, on a device
with its endpoints, on a tree with its devices. Its `Trace` is all that is left of it, whether it
succeeds or fails. A procedure on a part is a procedure on the whole (`Procedure.within`), which
puts back whatever has become of the part.

This module has the procedures on endpoints (`Endpoint.InPlace`) and devices (`Device.InPlace`).
None of them leaves anything half done: each changes what it is about as its definition says, or
leaves it as it was (`Trace.settled`). Nothing is published below the tree, except through a device
that is held (`Device.InPlace.loudly`).
-/

namespace Fleet

open Patch (DeviceChange EndpointChange)

/-! ### Procedures -/

/-- **What a procedure leaves behind**, also if it fails. -/
structure Trace (σ α : Type) where
  state : σ
  events : List Event
  result : Except TreeError α

/-- **A sequence of steps** on something that is held. -/
structure Procedure (σ α : Type) where
  run : σ → Trace σ α

variable {σ τ α β : Type}

namespace Trace

/-- The trace after events that were published before. -/
def after (events : List Event) (r : Trace σ α) : Trace σ α :=
  ⟨r.state, events ++ r.events, r.result⟩

/-- The trace of going on, unless there was an error. -/
def andThen (r : Trace σ α) (next : α → Procedure σ β) : Trace σ β :=
  match r.result with
  | .ok a => ((next a).run r.state).after r.events
  | .error e => ⟨r.state, r.events, .error e⟩

/-- The trace without its result. -/
def silent (r : Trace σ α) : Trace σ Unit := ⟨r.state, r.events, r.result.map fun _ => ()⟩

/-- The trace of changing something, or of leaving it as it is with an error. -/
def settled (s : σ) : Except TreeError (σ × α) → Trace σ α
  | .ok (s', a) => ⟨s', [], .ok a⟩
  | .error e => ⟨s, [], .error e⟩

@[simp] theorem after_mk {events more : List Event} {s : σ} {r : Except TreeError α} :
    (⟨s, more, r⟩ : Trace σ α).after events = ⟨s, events ++ more, r⟩ := rfl

@[simp] theorem after_nil {r : Trace σ α} : r.after [] = r := rfl

@[simp] theorem andThen_ok {s : σ} {events : List Event} {a : α} {next : α → Procedure σ β} :
    (⟨s, events, .ok a⟩ : Trace σ α).andThen next = ((next a).run s).after events := rfl

@[simp] theorem andThen_error {s : σ} {events : List Event} {e : TreeError}
    {next : α → Procedure σ β} :
    (⟨s, events, .error e⟩ : Trace σ α).andThen next = ⟨s, events, .error e⟩ := rfl

@[simp] theorem settled_ok {s : σ} {p : σ × α} : settled s (.ok p) = ⟨p.1, [], .ok p.2⟩ := rfl

@[simp] theorem settled_error {s : σ} {e : TreeError} :
    (settled s (.error e) : Trace σ α) = ⟨s, [], .error e⟩ := rfl

end Trace

namespace Procedure

instance : Monad (Procedure σ) where
  pure a := ⟨fun s => ⟨s, [], .ok a⟩⟩
  bind p next := ⟨fun s => (p.run s).andThen next⟩

/-- What is held, as it is now. -/
def current : Procedure σ σ := ⟨fun s => ⟨s, [], .ok s⟩⟩

/-- What is held is changed. -/
def change (f : σ → σ) : Procedure σ Unit := ⟨fun s => ⟨f s, [], .ok ()⟩⟩

/-- An event goes out. -/
def publish (e : Event) : Procedure σ Unit := ⟨fun s => ⟨s, e.published, .ok ()⟩⟩

/-- The result of something that changes nothing. -/
def check (r : Except TreeError α) : Procedure σ α := ⟨fun s => ⟨s, [], r⟩⟩

/-- The procedure fails, and keeps what has been done so far. -/
def fail (e : TreeError) : Procedure σ α := check (.error e)

/-- What has to be there. -/
def require (a : Option α) (e : TreeError) : Procedure σ α :=
  match a with
  | some a => pure a
  | none => fail e

/-- Something is taken out, if it is there. -/
def take (get : σ → Option α) (remove : σ → σ) : Procedure σ (Option α) :=
  ⟨fun s => ⟨remove s, [], .ok (get s)⟩⟩

/-- **A procedure on a part** of what is held, if the part is there. Whatever becomes of the part
is in its place afterwards. -/
def within (get : σ → Option τ) (put : τ → σ → σ) (p : Procedure τ α) : Procedure σ (Option α) :=
  ⟨fun s =>
    match get s with
    | none => ⟨s, [], .ok none⟩
    | some x => ⟨put (p.run x).state s, (p.run x).events, (p.run x).result.map some⟩⟩

/-- One change for every member of a list. -/
def changeAll (f : β → σ → σ) : List β → Procedure σ Unit
  | [] => pure ()
  | b :: rest => do
    change (f b)
    changeAll f rest

/-- The procedure without its result. -/
def silent (p : Procedure σ α) : Procedure σ Unit := ⟨fun s => (p.run s).silent⟩

@[simp] theorem run_silent {p : Procedure σ α} {s : σ} : p.silent.run s = (p.run s).silent := rfl

@[simp] theorem run_pure {a : α} {s : σ} : (pure a : Procedure σ α).run s = ⟨s, [], .ok a⟩ := rfl

@[simp] theorem run_bind {p : Procedure σ α} {next : α → Procedure σ β} {s : σ} :
    (p >>= next).run s = (p.run s).andThen next := rfl

@[simp] theorem run_current {s : σ} : (current : Procedure σ σ).run s = ⟨s, [], .ok s⟩ := rfl

@[simp] theorem run_change {f : σ → σ} {s : σ} : (change f).run s = ⟨f s, [], .ok ()⟩ := rfl

@[simp] theorem run_publish {e : Event} {s : σ} :
    (publish e).run s = ⟨s, e.published, .ok ()⟩ := rfl

@[simp] theorem run_check {r : Except TreeError α} {s : σ} : (check r).run s = ⟨s, [], r⟩ := rfl

@[simp] theorem run_fail {e : TreeError} {s : σ} :
    (fail e : Procedure σ α).run s = ⟨s, [], .error e⟩ := rfl

@[simp] theorem run_take {get : σ → Option α} {remove : σ → σ} {s : σ} :
    (take get remove).run s = ⟨remove s, [], .ok (get s)⟩ := rfl

@[simp] theorem run_require_some {a : α} {e : TreeError} {s : σ} :
    (require (some a) e).run s = ⟨s, [], .ok a⟩ := rfl

@[simp] theorem run_require_none {e : TreeError} {s : σ} :
    (require none e : Procedure σ α).run s = ⟨s, [], .error e⟩ := rfl

theorem run_changeAll (f : β → σ → σ) (bs : List β) (s : σ) :
    (changeAll f bs).run s = ⟨bs.foldl (fun s b => f b s) s, [], .ok ()⟩ := by
  induction bs generalizing s with
  | nil => rfl
  | cons b rest ih => rw [changeAll, run_bind, run_change, Trace.andThen_ok, ih]; rfl

end Procedure

open Procedure

/-! ### Endpoints -/

namespace Endpoint.InPlace

/-- A value is set. -/
def setValue (now : Time) (v : Value) : Procedure Endpoint EndpointChange := do
  change fun e => e.setValue now v
  let e ← current
  pure e.stateChange

/-- A bound is set, which only a sensor has. -/
def setBound (field : String) (f : Bounds → Bounds) : Procedure Endpoint EndpointChange := do
  let e ← current
  match e.role with
  | .sensor s => do
    change fun e => { e with role := .sensor { s with bounds := f s.bounds } }
    let e ← current
    pure e.stateChange
  | _ => fail (.sensorOnly field e.name e.function)

theorem run_setValue (now : Time) (v : Value) (e : Endpoint) :
    (setValue now v).run e =
      .settled e (.ok (e.setValue now v, (e.setValue now v).stateChange)) := rfl

theorem run_setBound (field : String) (f : Bounds → Bounds) (e : Endpoint) :
    (setBound field f).run e =
      .settled e ((e.mapBounds field f).map fun e => (e, e.stateChange)) := by
  rw [setBound, run_bind, run_current, Trace.andThen_ok, mapBounds]
  cases e.role <;> rfl

end Endpoint.InPlace

/-! ### Devices -/

namespace Device.InPlace

/-- A procedure on an endpoint, which there has to be. -/
def atEndpoint (eid : Eid) (p : Procedure Endpoint α) : Procedure Device α := do
  let r ← within (·.endpoint? eid) (fun e d => d.put eid e) p
  let d ← current
  require r (.notFound (Endpoint.fullName d.ip eid))

/-- The time is set. -/
def touch (now : Time) : Procedure Device DeviceChange := do
  change (·.touch now)
  let d ← current
  pure d.headerChange

/-- The name and the time are set. -/
def rename (now : Time) (name : String) : Procedure Device DeviceChange := do
  change fun d => { d with name }
  touch now

/-- An endpoint is created. -/
def createEndpoint (table : BoundsTable) (now : Time) (eid : Eid) (params : Endpoint.Params) :
    Procedure Device DeviceChange := do
  let d ← current
  if d.hasEndpoint eid then fail (.duplicate (Endpoint.fullName d.ip eid))
  else do
    let e ← check (Endpoint.create table now d.ip eid params)
    let c := DeviceChange.withEndpoint {} eid (.change e.creationChange)
    change (·.put eid e)
    pure c

/-- An endpoint is taken out, which only then has to have been there. -/
def takeEndpoint (eid : Eid) : Procedure Device Endpoint := do
  let e ← take (·.endpoint? eid) (·.without eid)
  let d ← current
  require e (.notFound (Endpoint.fullName d.ip eid))

/-- The value of an endpoint is set, and then the time of the device. -/
def setValue (now : Time) (eid : Eid) (v : Value) : Procedure Device DeviceChange := do
  let c ← atEndpoint eid (Endpoint.InPlace.setValue now v)
  let header ← touch now
  pure (header.withEndpoint eid (.change c))

/-- A bound of an endpoint is set. -/
def setBound (eid : Eid) (field : String) (f : Bounds → Bounds) :
    Procedure Device DeviceChange := do
  let c ← atEndpoint eid (Endpoint.InPlace.setBound field f)
  pure (DeviceChange.withEndpoint {} eid (.change c))

/-- What a procedure says of a device is published under the address that the device has. -/
def loudly (p : Procedure Device DeviceChange) : Procedure Device Patch := do
  let c ← p
  let d ← current
  publish (.update (.device d.ip (.change c)))
  pure (.device d.ip (.change c))

/-- An endpoint is taken out, and that is published. -/
def reduce (eid : Eid) : Procedure Device (Patch × Endpoint) := do
  let e ← takeEndpoint eid
  let d ← current
  publish (.delete (.endpointTombstone d.ip eid))
  pure (.endpointTombstone d.ip eid, e)

theorem run_atEndpoint {p : Procedure Endpoint α} {f : Endpoint → Except TreeError (Endpoint × α)}
    (hp : ∀ e, p.run e = .settled e (f e)) (eid : Eid) (d : Device) :
    (atEndpoint eid p).run d = .settled d ((d.requiredEndpoint eid).bind fun e =>
      (f e).map fun r => (d.put eid r.1, r.2)) := by
  unfold requiredEndpoint
  cases he : d.endpoint? eid with
  | none =>
    simp only [atEndpoint, within, run_bind, he]
    rfl
  | some e =>
    simp only [atEndpoint, within, run_bind, he, hp]
    cases hf : f e with
    | ok r => simp [hf, Except.bind, Except.map]
    -- what is put back is what was there
    | error err =>
      have hback : d.put eid e = d := by rw [put, SortedMap.insert_eq_self he]
      simp [hf, Except.bind, Except.map, hback]

theorem run_createEndpoint (table : BoundsTable) (now : Time) (eid : Eid) (params : Endpoint.Params)
    (d : Device) : (createEndpoint table now eid params).run d =
      .settled d (d.createEndpoint table now eid params) := by
  simp only [createEndpoint, Device.createEndpoint, run_bind, run_current, Trace.andThen_ok,
    Trace.after_nil]
  split
  · rfl
  · cases Endpoint.create table now d.ip eid params <;> rfl

theorem run_takeEndpoint (eid : Eid) (d : Device) :
    (takeEndpoint eid).run d = .settled d (d.takeEndpoint eid) := by
  rw [takeEndpoint, Device.takeEndpoint]
  cases he : d.endpoint? eid with
  | none =>
    have hsame : d.without eid = d := by rw [without, SortedMap.erase_eq_self he]
    simp [he, hsame]
  | some e => simp [he]

theorem run_setValue (now : Time) (eid : Eid) (v : Value) (d : Device) :
    (setValue now eid v).run d = .settled d (d.setValue now eid v) := by
  rw [setValue, run_bind, run_atEndpoint (Endpoint.InPlace.run_setValue now v), Device.setValue]
  cases d.requiredEndpoint eid <;> rfl

theorem run_setBound (eid : Eid) (field : String) (f : Bounds → Bounds) (d : Device) :
    (setBound eid field f).run d = .settled d (d.setBound eid (·.mapBounds field f)) := by
  rw [setBound, run_bind, run_atEndpoint (Endpoint.InPlace.run_setBound field f), Device.setBound]
  cases d.requiredEndpoint eid with
  | error e => rfl
  | ok e =>
    cases h : e.mapBounds field f <;> simp [Except.bind, Except.map, h]

end Device.InPlace

end Fleet
