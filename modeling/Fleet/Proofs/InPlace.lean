import Fleet.Proofs.Procedures

/-!
# Trees that are changed in place

There is a procedure for every operation on a tree (`Tree.InPlace`), with its steps in the order in
which they are made: what is taken out is missed only afterwards, an event goes out before the last
lookup, a found device is renamed before its endpoints are added, and a staged patch is committed
device by device and view by view.

Every procedure leaves behind exactly what the definition of its operation says. A loud operation
has an outcome, which is compared as a trace (`Outcome.trace`); one that is reached through a device
or a view may have none (`Tree.reachedTrace`); a patch or a snapshot changes the tree or does not
(`Trace.settled`). The tree has to be well-formed where a device or a view is changed through what
is held, because it gives its own address or identifier to the event, which then is that of its
place.
-/

namespace Fleet

open Patch (DeviceChange EndpointChange)
open Procedure

variable {α β : Type}

/-! ### The procedures -/

namespace Tree

namespace InPlace

/-- A procedure on the device at an address. -/
def atDevice (ip : String) (p : Procedure Device α) : Procedure Tree (Option α) :=
  within (·.device? ip) (fun d t => t.putDevice ip d) p

/-- A procedure on the device at an address, if it has an endpoint of the number. -/
def atDeviceWith (ip : String) (eid : Eid) (p : Procedure Device α) : Procedure Tree (Option α) :=
  within (·.deviceWith? ip eid) (fun d t => t.putDevice ip d) p

/-- A procedure on the device of a full name and the number in it. -/
def atName (name : String) (p : Eid → Procedure Device α) : Procedure Tree (Option α) :=
  match Endpoint.splitName? name with
  | none => pure none
  | some (ip, eid) => atDeviceWith ip eid (p eid)

/-- A device is added. -/
def addDevice (now : Time) (ip name : String) : Procedure Tree Device := do
  let d ← check (Device.create now ip name)
  let t ← current
  if t.devices.contains d.ip then fail (.duplicate d.ip)
  else do
    publish (.update (.device d.ip (.change d.creationChange)))
    change (·.putDevice d.ip d)
    pure d

/-- A device is taken out, which only then has to have been there. -/
def removeDevice (ip : String) : Procedure Tree Device := do
  let d ← take (·.device? ip) (·.withoutDevice ip)
  let d ← require d (.notFound ip)
  publish (.delete (.deviceTombstone ip))
  pure d

/-- The time of a device is set. -/
def touchDevice (now : Time) (ip : String) : Procedure Tree (Option Patch) :=
  atDevice ip (Device.InPlace.loudly (Device.InPlace.touch now))

/-- A device is renamed. -/
def renameDevice (now : Time) (ip name : String) : Procedure Tree (Option Patch) :=
  atDevice ip (Device.InPlace.loudly (Device.InPlace.rename now name))

/-- A device gets an endpoint. -/
def extendDevice (now : Time) (ip : String) (eid : Eid) (params : Endpoint.Params) :
    Procedure Tree (Option Patch) := do
  let t ← current
  atDevice ip (Device.InPlace.loudly (Device.InPlace.createEndpoint t.bounds now eid params))

/-- A device loses an endpoint. -/
def reduceDevice (ip : String) (eid : Eid) : Procedure Tree (Option (Patch × Endpoint)) :=
  atDevice ip (Device.InPlace.reduce eid)

/-- A device is built with an endpoint in it, and then put into the tree. -/
def startDevice (now : Time) (ip : String) (eid : Eid) (params : Endpoint.Params) :
    Procedure Tree DeviceChange := do
  let name ← require params.name (.missingDeviceName ip)
  let d ← check (Device.create now ip name)
  let t ← current
  let built := (Device.InPlace.createEndpoint t.bounds now eid params).run d
  let _ ← check built.result
  change (·.putDevice ip built.state)
  pure built.state.creationChange

/-- An endpoint that was added is published, and then looked up. -/
def announceEndpoint (ip : String) (eid : Eid) (c : DeviceChange) : Procedure Tree Endpoint := do
  publish (.update (.device ip (.change c)))
  let t ← current
  require (t.endpointAt? ip eid) (.notFound (Endpoint.fullName ip eid))

/-- An endpoint is added, with its device if that is new. -/
def addEndpoint (now : Time) (ip : String) (eid : Eid) (params : Endpoint.Params) :
    Procedure Tree Endpoint := do
  let t ← current
  match ← atDevice ip (Device.InPlace.createEndpoint t.bounds now eid params) with
  | some c => announceEndpoint ip eid c
  | none => do
    let c ← startDevice now ip eid params
    announceEndpoint ip eid c

/-- An endpoint is removed. -/
def removeEndpoint (ip : String) (eid : Eid) : Procedure Tree Endpoint := do
  let e ← atDevice ip (Device.InPlace.takeEndpoint eid)
  let e ← require e (.notFound ip)
  publish (.delete (.endpointTombstone ip eid))
  pure e

/-- A value is set at an address and a number. -/
def setValueAt (now : Time) (ip : String) (eid : Eid) (v : Value) : Procedure Tree (Option Patch) :=
  atDeviceWith ip eid (Device.InPlace.loudly (Device.InPlace.setValue now eid v))

/-- A value is set under a full name. -/
def setValue (now : Time) (name : String) (v : Value) : Procedure Tree (Option Patch) :=
  atName name fun eid => Device.InPlace.loudly (Device.InPlace.setValue now eid v)

/-- A bound is set under a full name. -/
def setBound (name field : String) (f : Bounds → Bounds) : Procedure Tree (Option Patch) :=
  atName name fun eid => Device.InPlace.loudly (Device.InPlace.setBound eid field f)

/-- A value is recorded. -/
def recordValue (now : Time) (name : String) (v : Value) : Procedure Tree Patch := do
  let p ← setValue now name v
  require p (.notFound name)

/-- A view is put where there is none. -/
def offerView (id : Uuid) (v : View) : Procedure Tree View := do
  let t ← current
  match t.view? id with
  | some present => pure present
  | none => do
    change (·.putView id v)
    pure v

/-- A view is published and then added. -/
def addView (id : Uuid) (name : String) (references : List String) : Procedure Tree View := do
  let v : View := { id, name, references }
  publish (.update (.view id (.change v.change)))
  offerView id v

/-- A view is added if its identifier is new. -/
def addViewAs (id : Uuid) (name : String) (references : List String) : Procedure Tree View := do
  let t ← current
  if t.views.contains id then fail (.duplicate id.text)
  else addView id name references

/-- A view is taken out, which only then has to have been there. -/
def removeView (id : Uuid) : Procedure Tree View := do
  let v ← take (·.view? id) (·.withoutView id)
  let v ← require v (.notFound id.text)
  publish (.delete (.viewTombstone id))
  pure v

/-- A view that is there is changed, and published as a whole. -/
def changeView (id : Uuid) (f : View → View) : Procedure Tree (Option View) :=
  within (·.view? id) (fun v t => t.putView id v) do
    change f
    let v ← current
    publish (.update (.view v.id (.change v.change)))
    pure v

/-- Everything is removed. -/
def reset : Procedure Tree Patch := do
  let t ← current
  change fun t => { t with devices := ∅ }
  change fun t => { t with views := ∅ }
  publish (.delete t.resetPatch)
  pure t.resetPatch

/-- The device of a found one gets there, with its name. -/
def mergeHeader (now : Time) (found : Discovery.Device) : Procedure Tree MergeReport := do
  let t ← current
  match t.device? found.ip with
  | none => do
    let _ ← addDevice now found.ip found.name
    pure { added := true }
  | some d =>
    if d.name = found.name then pure {}
    else do
      let _ ← renameDevice now found.ip found.name
      pure { renamed := true }

/-- The endpoints of a list are added one after another. -/
def mergeEndpoints (clock : Eid → Time) (ip : String) :
    List Discovery.Endpoint → MergeReport → Procedure Tree MergeReport
  | [], r => pure r
  | e :: rest, r => do
    match ← extendDevice (clock e.eid) ip e.eid e.params with
    | none => mergeEndpoints clock ip rest r
    | some _ => mergeEndpoints clock ip rest { r with endpoints := r.endpoints ++ [e.eid] }

/-- A found device is merged. -/
def merge (times : MergeTimes) (found : Discovery.Device) : Procedure Tree MergeReport := do
  let t ← current
  check (t.checkFound times.check found)
  let r ← mergeHeader times.header found
  mergeEndpoints times.endpoint found.ip (t.missing found) r

/-- A staged patch is committed, device by device and view by view. -/
def commit (s : Staged) : Procedure Tree Unit := do
  changeAll (fun step t => { t with devices := Step.run t.devices step }) s.devices
  changeAll (fun step t => { t with views := Step.run t.views step }) s.views

/-- A patch is staged and then committed. -/
def apply (now : Time) (manner : Manner) (p : Patch) : Procedure Tree Unit := do
  let t ← current
  let s ← check (t.stagePatch now manner p)
  commit s

/-- Devices and views are restored, and only then put in place. -/
def restore (s : Snapshot) : Procedure Tree Unit := do
  let t ← current
  let devices ← check (restoreDevices t.bounds ∅ s.devices.entries)
  let views ← check (restoreViews ∅ s.views.entries)
  change fun t => { t with devices }
  change fun t => { t with views }

end InPlace

end Tree

/-! ### Traces of outcomes -/

namespace Outcome

/-- The outcome of an operation as a trace. -/
def trace (o : Outcome α) : Trace Tree α := ⟨o.tree, o.events, o.result⟩

@[simp] theorem trace_refused {t : Tree} {e : TreeError} :
    (refused t e : Outcome α).trace = ⟨t, [], .error e⟩ := rfl

@[simp] theorem trace_quiet {t : Tree} {a : α} : (quiet t a).trace = ⟨t, [], .ok a⟩ := rfl

@[simp] theorem trace_loud {t : Tree} {e : Event} {a : α} :
    (loud t e a).trace = ⟨t, e.published, .ok a⟩ := rfl

@[simp] theorem map_refused {t : Tree} {e : TreeError} {f : α → β} :
    (refused t e : Outcome α).map f = refused t e := rfl

@[simp] theorem map_quiet {t : Tree} {a : α} {f : α → β} :
    (quiet t a).map f = quiet t (f a) := rfl

@[simp] theorem map_loud {t : Tree} {e : Event} {a : α} {f : α → β} :
    (loud t e a).map f = loud t e (f a) := rfl

/-- **One operation after another** leaves the trace of one after another. -/
theorem trace_andThen {o : Outcome α} {next : α → Tree → Outcome β} {p : α → Procedure Tree β}
    (h : ∀ a, o.result = .ok a → (p a).run o.tree = (next a o.tree).trace) :
    (o.andThen next).trace = o.trace.andThen p := by
  obtain ⟨t, events, result⟩ := o
  cases result with
  | error e => rfl
  | ok a => simp [trace, andThen, h a rfl, Trace.after]

end Outcome

namespace Tree

variable {t : Tree} {now : Time} {ip : String} {eid : Eid}

/-- The trace of an operation on something that may not be there. -/
def reachedTrace (t : Tree) : Option (Outcome α) → Trace Tree (Option α)
  | none => ⟨t, [], .ok none⟩
  | some o => (o.map some).trace

theorem silent_reachedTrace (o : Option (Outcome α)) :
    (t.reachedTrace o).silent = (t.reached o).trace := by
  cases o with
  | none => rfl
  | some o =>
    obtain ⟨u, events, result⟩ := o
    cases result <;> rfl

theorem device?_putDevice_self {d : Device} : (t.putDevice ip d).device? ip = some d := by
  rw [device?_putDevice, if_pos rfl]

/-- Putting back the device that is there changes nothing. -/
theorem putDevice_eq_self {d : Device} (hd : t.device? ip = some d) : t.putDevice ip d = t := by
  rw [putDevice, SortedMap.insert_eq_self hd]

/-! ### Devices -/

/-- **A device that is changed where it is kept** is the device of the definition, and what is
published under its own address is published under the address of its place. -/
theorem run_changeDevice (ht : t.WellFormed) (get : Tree → Option Device)
    (hget : ∀ d, get t = some d → t.device? ip = some d) {p : Procedure Device DeviceChange}
    (f : Device → Except TreeError (Device × DeviceChange))
    (hp : ∀ d, p.run d = .settled d (f d))
    (haddress : ∀ d d' c, d.WellFormed ip → f d = .ok (d', c) → d'.ip = ip) :
    (within get (fun d t => t.putDevice ip d) (Device.InPlace.loudly p)).run t =
      t.reachedTrace ((get t).map fun d => t.changeDevice ip (f d)) := by
  cases hd : get t with
  | none => simp only [within, hd, Option.map_none, reachedTrace]
  | some d =>
    have hd' := hget d hd
    simp only [within, hd, Option.map_some, reachedTrace, Device.InPlace.loudly, run_bind, hp]
    cases hf : f d with
    -- the device that is put back is the one that was there
    | error e => simp [changeDevice, Except.map, putDevice_eq_self hd']
    | ok r =>
      obtain ⟨d', c⟩ := r
      have hip := haddress d d' c (ht.devices ip d hd') hf
      simp [changeDevice, Except.map, hip]

theorem run_touchDevice (ht : t.WellFormed) :
    (InPlace.touchDevice now ip).run t = t.reachedTrace (t.touchDevice now ip) := by
  refine run_changeDevice ht (·.device? ip) (fun _ hd => hd)
    (fun d => .ok (d.touch now, (d.touch now).headerChange)) (fun _ => rfl) ?_
  intro d d' c hd h
  cases h
  exact hd.address

theorem run_renameDevice (ht : t.WellFormed) (name : String) :
    (InPlace.renameDevice now ip name).run t = t.reachedTrace (t.renameDevice now ip name) := by
  refine run_changeDevice ht (·.device? ip) (fun _ hd => hd)
    (fun d => .ok (d.rename now name, (d.rename now name).headerChange)) (fun _ => rfl) ?_
  intro d d' c hd h
  cases h
  exact hd.address

theorem run_extendDevice (ht : t.WellFormed) (params : Endpoint.Params) :
    (InPlace.extendDevice now ip eid params).run t =
      t.reachedTrace (t.extendDevice now ip eid params) := by
  refine run_changeDevice ht (·.device? ip) (fun _ hd => hd)
    (fun d => d.createEndpoint t.bounds now eid params)
    (Device.InPlace.run_createEndpoint t.bounds now eid params) ?_
  intro d d' c hd h
  exact (Device.createEndpoint_spec hd h).1.wellFormed.address

theorem run_setValueAt (ht : t.WellFormed) (v : Value) :
    (InPlace.setValueAt now ip eid v).run t = t.reachedTrace (t.setValueAt now ip eid v) := by
  refine run_changeDevice ht (·.deviceWith? ip eid) (fun _ => device?_of_deviceWith?)
    (fun d => d.setValue now eid v) (Device.InPlace.run_setValue now eid v) ?_
  intro d d' c hd h
  exact (Device.setValue_spec hd h).1.wellFormed.address

theorem run_setValue (ht : t.WellFormed) (name : String) (v : Value) :
    (InPlace.setValue now name v).run t = t.reachedTrace (t.setValue now name v) := by
  rw [InPlace.setValue, InPlace.atName, setValue]
  cases Endpoint.splitName? name with
  | none => rfl
  | some place => exact run_setValueAt ht v

/-- Setting a bound under a full name, the least value or the greatest one. -/
theorem run_setBound (ht : t.WellFormed) (name field : String) (f : Bounds → Bounds) :
    (InPlace.setBound name field f).run t = t.reachedTrace (do
      let (ip, eid) ← Endpoint.splitName? name
      let d ← t.deviceWith? ip eid
      some (t.changeDevice ip (d.setBound eid (·.mapBounds field f)))) := by
  rw [InPlace.setBound, InPlace.atName]
  cases Endpoint.splitName? name with
  | none => rfl
  | some place =>
    obtain ⟨ip, eid⟩ := place
    refine (run_changeDevice ht (·.deviceWith? ip eid) (fun _ => device?_of_deviceWith?)
      (fun d => d.setBound eid (·.mapBounds field f))
      (Device.InPlace.run_setBound eid field f) ?_).trans ?_
    · intro d d' c hd h
      exact (Device.setBound_spec hd h).1.wellFormed.address
    · rw [Option.map_eq_bind]
      rfl

theorem run_recordValue (ht : t.WellFormed) (name : String) (v : Value) :
    (InPlace.recordValue now name v).run t = (t.recordValue now name v).trace := by
  rw [InPlace.recordValue, run_bind, run_setValue ht, recordValue]
  cases t.setValue now name v with
  | none => rfl
  | some o =>
    obtain ⟨u, events, result⟩ := o
    cases result with
    | error e => rfl
    | ok p => simp [reachedTrace, Outcome.map, Outcome.trace, Except.map]

theorem run_addDevice (name : String) :
    (InPlace.addDevice now ip name).run t = (t.addDevice now ip name).trace := by
  rw [InPlace.addDevice, addDevice, run_bind, run_check]
  cases hd : Device.create now ip name with
  | error e => rfl
  | ok d =>
    have hip : d.ip = ip := (create_spec hd).1.address
    simp only [Trace.andThen_ok, Trace.after_nil, run_bind, run_current, hip]
    split
    · rfl
    · simp

theorem run_removeDevice : (InPlace.removeDevice ip).run t = (t.removeDevice ip).trace := by
  rw [InPlace.removeDevice, removeDevice]
  cases hd : t.device? ip with
  | none =>
    have hsame : t.withoutDevice ip = t := by rw [withoutDevice, SortedMap.erase_eq_self hd]
    simp [hd, hsame]
  | some d => simp [hd]

theorem run_reduceDevice (ht : t.WellFormed) :
    (InPlace.reduceDevice ip eid).run t = t.reachedTrace (t.reduceDevice ip eid) := by
  rw [InPlace.reduceDevice, InPlace.atDevice, reduceDevice]
  cases hd : t.device? ip with
  | none => simp only [within, hd, Option.map_none, reachedTrace]
  | some d =>
    have hip : d.ip = ip := (ht.devices ip d hd).address
    simp only [within, hd, Option.map_some, reachedTrace, Device.InPlace.reduce, run_bind,
      Device.InPlace.run_takeEndpoint]
    unfold Device.takeEndpoint
    cases d.endpoint? eid with
    | none => simp [Except.map, putDevice_eq_self hd]
    | some e => simp [Except.map, Device.without, hip]

/-! ### Endpoints -/

theorem run_removeEndpoint :
    (InPlace.removeEndpoint ip eid).run t = (t.removeEndpoint ip eid).trace := by
  rw [InPlace.removeEndpoint, InPlace.atDevice, removeEndpoint, reduceDevice]
  cases hd : t.device? ip with
  | none => simp [within, hd]
  | some d =>
    simp only [within, hd, Option.map_some, run_bind, Device.InPlace.run_takeEndpoint]
    unfold Device.takeEndpoint
    cases d.endpoint? eid with
    | none => simp [Except.map, putDevice_eq_self hd]
    | some e => simp [Except.map]

/-- **A device that is new** is built aside, with the endpoint, before it is put into the tree. -/
theorem run_startDevice (params : Endpoint.Params) :
    (InPlace.startDevice now ip eid params).run t =
      .settled t (match params.name with
        | none => .error (.missingDeviceName ip)
        | some name => do
          let d ← Device.create now ip name
          let (d, _) ← d.createEndpoint t.bounds now eid params
          .ok (t.putDevice ip d, d.creationChange)) := by
  rw [InPlace.startDevice]
  cases params.name with
  | none => rfl
  | some name =>
    simp only [run_bind, run_require_some, run_check, Trace.andThen_ok, Trace.after_nil]
    cases Device.create now ip name with
    | error e => rfl
    | ok d =>
      simp only [run_bind, run_check, run_current, Trace.andThen_ok, Trace.after_nil, ok_bind,
        Device.InPlace.run_createEndpoint]
      cases d.createEndpoint t.bounds now eid params <;> rfl

/-- The endpoint that was put into the device is found. -/
theorem run_announceEndpoint {d : Device} {e : Endpoint} (he : d.endpoint? eid = some e)
    (c : DeviceChange) :
    (InPlace.announceEndpoint ip eid c).run (t.putDevice ip d) =
      (Outcome.loud (t.putDevice ip d) (.update (.device ip (.change c))) e).trace := by
  have hfound : (t.putDevice ip d).endpointAt? ip eid = some e := by
    rw [endpointAt?, device?_putDevice_self, Option.bind_some, he]
  simp [InPlace.announceEndpoint, hfound]

theorem run_addEndpoint (ht : t.WellFormed) (params : Endpoint.Params) :
    (InPlace.addEndpoint now ip eid params).run t =
      (t.addEndpoint now ip eid params).trace := by
  rw [InPlace.addEndpoint, addEndpoint]
  simp only [run_bind, run_current, Trace.andThen_ok, Trace.after_nil, InPlace.atDevice, within]
  cases hd : t.device? ip with
  | some d =>
    simp only [Device.InPlace.run_createEndpoint]
    cases hcreated : d.createEndpoint t.bounds now eid params with
    | error e => simp [Except.map, putDevice_eq_self hd]
    | ok r =>
      obtain ⟨d', c⟩ := r
      obtain ⟨-, -, e, he⟩ := Device.createEndpoint_spec (ht.devices ip d hd) hcreated
      simp [Except.map, run_announceEndpoint he, he]
  | none =>
    simp only [run_bind, run_startDevice, Trace.andThen_ok, Trace.after_nil]
    cases params.name with
    | none => rfl
    | some name =>
      cases hcreate : Device.create now ip name with
      | error e => simp [hcreate]
      | ok d =>
        cases hcreated : d.createEndpoint t.bounds now eid params with
        | error e => simp [hcreate, hcreated]
        | ok r =>
          obtain ⟨d', c⟩ := r
          obtain ⟨-, -, e, he⟩ := Device.createEndpoint_spec (create_spec hcreate).1 hcreated
          simp [hcreate, hcreated, run_announceEndpoint he, he]

/-! ### Views -/

theorem run_offerView {id : Uuid} {v : View} :
    (InPlace.offerView id v).run t =
      match t.view? id with
      | some present => ⟨t, [], .ok present⟩
      | none => ⟨t.putView id v, [], .ok v⟩ := by
  rw [InPlace.offerView, run_bind, run_current, Trace.andThen_ok]
  cases t.view? id <;> rfl

theorem run_addView (id : Uuid) (name : String) (references : List String) :
    (InPlace.addView id name references).run t = (t.addView id name references).trace := by
  simp only [InPlace.addView, run_bind, run_publish, Trace.andThen_ok, run_offerView, addView,
    changeView]
  cases t.view? id <;> simp

theorem run_addViewAs (id : Uuid) (name : String) (references : List String) :
    (InPlace.addViewAs id name references).run t = (t.addViewAs id name references).trace := by
  simp only [InPlace.addViewAs, run_bind, run_current, Trace.andThen_ok, Trace.after_nil, addViewAs]
  split
  · rfl
  · next hnew =>
    have hnone : t.view? id = none :=
      SortedMap.contains_eq_false_iff.mp (Bool.eq_false_iff.mpr hnew)
    rw [run_addView, addView, hnone]

theorem run_removeView (id : Uuid) :
    (InPlace.removeView id).run t = (t.removeView id).trace := by
  rw [InPlace.removeView, removeView]
  cases hv : t.view? id with
  | none =>
    have hsame : t.withoutView id = t := by rw [withoutView, SortedMap.erase_eq_self hv]
    simp [hv, hsame]
  | some v => simp [hv]

/-- **A view that is changed where it is kept** is published under its own identifier. -/
theorem run_changeView (ht : t.WellFormed) (id : Uuid) (f : View → View)
    (hf : ∀ v, (f v).id = v.id) :
    (InPlace.changeView id f).run t =
      t.reachedTrace ((t.view? id).map fun v => t.changeView id (f v)) := by
  rw [InPlace.changeView]
  cases hv : t.view? id with
  | none => simp only [within, hv, Option.map_none, reachedTrace]
  | some v =>
    have hid : (f v).id = id := (hf v).trans (ht.views id v hv)
    simp [within, hv, reachedTrace, changeView, Except.map, hid]

theorem run_reset : InPlace.reset.run t = t.reset.trace := by
  simp [InPlace.reset, reset]

/-! ### Merging -/

theorem run_mergeHeader (ht : t.WellFormed) (found : Discovery.Device) :
    (InPlace.mergeHeader now found).run t = (t.mergeHeader now found).trace := by
  rw [InPlace.mergeHeader, run_bind, run_current, Trace.andThen_ok, Trace.after_nil, mergeHeader]
  cases hd : t.device? found.ip with
  | none =>
    rw [run_bind, run_addDevice]
    cases h : (t.addDevice now found.ip found.name).result <;>
      simp [Outcome.trace, Outcome.map, Trace.andThen, Trace.after, Except.map, h]
  | some d =>
    by_cases hname : d.name = found.name
    · simp [hname]
    · simp only [if_neg hname, run_bind, run_renameDevice ht, renameDevice, hd, Option.map_some,
        reachedTrace, changeDevice]
      simp

/-- The endpoints are added to a well-formed tree, which it stays. -/
theorem run_mergeEndpoints {clock : Eid → Time} (found : List Discovery.Endpoint) (r : MergeReport)
    (ht : t.WellFormed) :
    (InPlace.mergeEndpoints clock ip found r).run t =
      (mergeEndpoints clock ip found r t).trace := by
  induction found generalizing r t with
  | nil => rfl
  | cons e rest ih =>
    rw [InPlace.mergeEndpoints, mergeEndpoints, run_bind, run_extendDevice ht]
    cases ho : t.extendDevice (clock e.eid) ip e.eid e.params with
    | none => simp [reachedTrace, ih r ht]
    | some o =>
      have hwell : o.tree.WellFormed :=
        Told.wellFormed (told_extendDevice (F := False) ht False.elim False.elim ho) ht
      simp only [reachedTrace]
      rw [Outcome.trace_andThen (fun _ _ => ih _ hwell)]
      cases h : o.result <;>
        simp [Outcome.trace, Outcome.map, Trace.andThen, Except.map, h]

theorem run_merge (ht : t.WellFormed) (times : MergeTimes) (found : Discovery.Device) :
    (InPlace.merge times found).run t = (t.merge times found).trace := by
  rw [InPlace.merge, merge]
  simp only [run_bind, run_current, run_check, Trace.andThen_ok, Trace.after_nil]
  cases t.checkFound times.check found with
  | error e => rfl
  | ok _ =>
    have hwell : (t.mergeHeader times.header found).tree.WellFormed :=
      Told.wellFormed (told_mergeHeader (F := False) ht False.elim found) ht
    simp only [Trace.andThen_ok, Trace.after_nil, run_bind, run_mergeHeader ht]
    exact (Outcome.trace_andThen fun r _ => run_mergeEndpoints _ r hwell).symm

/-! ### Patches and snapshots -/

theorem run_commit (s : Staged) : (InPlace.commit s).run t = ⟨t.commit s, [], .ok ()⟩ := by
  have hdevices : ∀ (steps : List (String × Step Device)) (t : Tree),
      steps.foldl (fun t step => { t with devices := Step.run t.devices step }) t =
        { t with devices := steps.foldl Step.run t.devices } := by
    intro steps
    induction steps with
    | nil => exact fun _ => rfl
    | cons step rest ih => exact fun t => ih _
  have hviews : ∀ (steps : List (Uuid × Step View)) (t : Tree),
      steps.foldl (fun t step => { t with views := Step.run t.views step }) t =
        { t with views := steps.foldl Step.run t.views } := by
    intro steps
    induction steps with
    | nil => exact fun _ => rfl
    | cons step rest ih => exact fun t => ih _
  rw [InPlace.commit, run_bind, run_changeAll, Trace.andThen_ok, run_changeAll, hdevices, hviews]
  rfl

theorem run_apply (manner : Manner) (p : Patch) :
    (InPlace.apply now manner p).run t =
      .settled t ((t.apply now manner p).map fun u => (u, ())) := by
  rw [InPlace.apply, apply_eq]
  cases hs : t.stagePatch now manner p with
  | error e => simp [hs, Except.map]
  | ok s => simp [hs, run_commit, Except.map]

theorem run_restore (s : Snapshot) :
    (InPlace.restore s).run t = .settled t ((t.restore s).map fun u => (u, ())) := by
  rw [InPlace.restore, restore]
  simp only [run_bind, run_current, run_check, Trace.andThen_ok, Trace.after_nil]
  cases restoreDevices t.bounds ∅ s.devices.entries with
  | error e => rfl
  | ok devices => cases restoreViews ∅ s.views.entries <;> rfl

end Tree

end Fleet
