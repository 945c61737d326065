import Fleet.Proofs.Events
import Fleet.Tree.Restore

/-!
# Commands

A `Tree.Command` is a loud operation with its arguments. Whatever it does, its events tell of it:
`Tree.Command.told` says that the events of a command, refused ones included, are a chain of steps
from the tree before it to the tree after it, and that all doubles stay finite if those of the tree
and of the arguments are. The one operation with a condition is that a view is added under an
identifier drawn for it, which has to be unused (`Tree.Command.Fresh`): otherwise a view is
published that is not there.

A tree is *reachable* (`Tree.Reachable`) if it is set up, restored, commanded or patched in any
order. Every reachable tree is well-formed.
-/

namespace Fleet

open Patch (DeviceChange)

/-! ### Outcomes that their events tell of -/

namespace Outcome

variable {α β : Type} {ok : Tree → Prop} {t : Tree}

/-- **The events of the outcome tell** of the way from a tree to the one that it leaves behind. -/
def Told (ok : Tree → Prop) (t : Tree) (o : Outcome α) : Prop := Tree.Told ok t o.events o.tree

theorem told_refused (e : TreeError) : (refused t e : Outcome α).Told ok t := .done t

theorem told_quiet (a : α) : (quiet t a).Told ok t := .done t

theorem told_loud (ht : t.WellFormed) {u : Tree} {e : Event} (h : e.Tells t u) (hok : ok u)
    (a : α) : (loud u e a).Told ok t := h.told ht hok

theorem Told.map {o : Outcome α} (h : o.Told ok t) (f : α → β) : (o.map f).Told ok t := h

/-- The outcome without its result. -/
def silent (o : Outcome α) : Outcome Unit := o.map fun _ => ()

/-- **One operation after another** is told of if both are. -/
theorem Told.andThen {o : Outcome α} (h : o.Told ok t) {next : α → Tree → Outcome β}
    (hnext : ∀ a, (next a o.tree).Told ok o.tree) : (o.andThen next).Told ok t := by
  unfold Outcome.andThen
  split
  · next a _ => exact h.append (hnext a)
  · exact h

end Outcome

/-! ### Operations and what is told of them

`F` is whatever makes all doubles finite that come into play. -/

namespace Tree

variable {t : Tree} {now : Time} {F : Prop}

theorem told_putDevice {α : Type} (ht : t.WellFormed) (hfinite : F → t.Finite) {ip : String}
    {c : DeviceChange} {d : Device} (h : c.Tells ip (t.device? ip) d) (hd : F → d.Finite) (a : α) :
    (Outcome.loud (t.putDevice ip d) (.update (.device ip (.change c))) a).Told
      (fun u => F → u.Finite) t :=
  Outcome.told_loud ht (Event.tells_putDevice ht h) (fun hF => (hfinite hF).putDevice (hd hF) ip) a

/-- **A changed device** is told of if every change of it is. -/
theorem told_changeDevice (ht : t.WellFormed) (hfinite : F → t.Finite) {ip : String}
    {r : Except TreeError (Device × DeviceChange)}
    (h : ∀ d c, r = .ok (d, c) → c.Tells ip (t.device? ip) d ∧ (F → d.Finite)) :
    (t.changeDevice ip r).Told (fun u => F → u.Finite) t := by
  unfold changeDevice
  split
  · exact Outcome.told_refused _
  · obtain ⟨htells, hd⟩ := h _ _ rfl
    exact told_putDevice ht hfinite htells hd _

theorem create_spec {ip name : String} {d : Device} (h : Device.create now ip name = .ok d) :
    d.WellFormed ip ∧ d.Finite := by
  unfold Device.create at h
  split at h
  · cases h
  · next hip =>
    cases h
    exact ⟨Device.wellFormed_create name now hip, fun eid e he => nomatch he⟩

theorem told_addDevice (ht : t.WellFormed) (hfinite : F → t.Finite) (ip name : String) :
    (t.addDevice now ip name).Told (fun u => F → u.Finite) t := by
  unfold addDevice
  split
  · exact Outcome.told_refused _
  · next d hd =>
    split
    · exact Outcome.told_refused _
    · next hnew =>
      obtain ⟨hwell, hd⟩ := create_spec hd
      have hnone : t.device? ip = none :=
        SortedMap.contains_eq_false_iff.mp (Bool.eq_false_iff.mpr hnew)
      refine told_putDevice ht hfinite ?_ (fun _ => hd) _
      rw [hnone]
      exact Patch.DeviceChange.tells_creation hwell

theorem told_removeDevice (ht : t.WellFormed) (hfinite : F → t.Finite) (ip : String) :
    (t.removeDevice ip).Told (fun u => F → u.Finite) t := by
  unfold removeDevice
  split
  · exact Outcome.told_refused _
  · exact Outcome.told_loud ht (Event.tells_withoutDevice ht ip)
      (fun hF => (hfinite hF).withoutDevice ip) _

/-- **A device that is there** and was changed. -/
theorem told_deviceCommand {α : Type} (ht : t.WellFormed) {ip : String}
    {f : Device → Outcome α} {o : Outcome α} (ho : (t.device? ip).map f = some o)
    (h : ∀ d, t.device? ip = some d → d.WellFormed ip → (f d).Told (fun u => F → u.Finite) t) :
    o.Told (fun u => F → u.Finite) t := by
  obtain ⟨d, hd, rfl⟩ := Option.map_eq_some_iff.mp ho
  exact h d hd (ht.devices ip d hd)

theorem told_touchDevice (ht : t.WellFormed) (hfinite : F → t.Finite) {ip : String}
    {o : Outcome Patch} (ho : t.touchDevice now ip = some o) :
    o.Told (fun u => F → u.Finite) t := by
  refine told_deviceCommand ht ho fun d hd hwell => told_changeDevice ht hfinite fun d' c h => ?_
  cases h
  rw [hd]
  exact ⟨Device.tells_touch hwell now, fun hF => (hfinite hF).devices ip d hd⟩

theorem told_renameDevice (ht : t.WellFormed) (hfinite : F → t.Finite) {ip name : String}
    {o : Outcome Patch} (ho : t.renameDevice now ip name = some o) :
    o.Told (fun u => F → u.Finite) t := by
  refine told_deviceCommand ht ho fun d hd hwell => told_changeDevice ht hfinite fun d' c h => ?_
  cases h
  rw [hd]
  exact ⟨Device.tells_rename hwell now name, fun hF => (hfinite hF).devices ip d hd⟩

theorem told_extendDevice (ht : t.WellFormed) (hfinite : F → t.Finite) {ip : String} {eid : Eid}
    {params : Endpoint.Params} (hparams : F → params.Finite) {o : Outcome Patch}
    (ho : t.extendDevice now ip eid params = some o) : o.Told (fun u => F → u.Finite) t := by
  refine told_deviceCommand ht ho fun d hd hwell => told_changeDevice ht hfinite fun d' c h => ?_
  obtain ⟨htells, hkept, -⟩ := Device.createEndpoint_spec hwell h
  rw [hd]
  exact ⟨htells, fun hF => hkept ((hfinite hF).devices ip d hd) (hfinite hF).bounds (hparams hF)⟩

theorem told_reduceDevice (ht : t.WellFormed) (hfinite : F → t.Finite) {ip : String} {eid : Eid}
    {o : Outcome (Patch × Endpoint)} (ho : t.reduceDevice ip eid = some o) :
    o.Told (fun u => F → u.Finite) t := by
  refine told_deviceCommand ht ho fun d hd hwell => ?_
  unfold Device.takeEndpoint
  split
  · exact Outcome.told_refused _
  · next hd' =>
    split at hd'
    · cases hd'
      exact Outcome.told_loud ht (Event.tells_withoutEndpoint ht hd eid)
        (fun hF => (hfinite hF).putDevice (((hfinite hF).devices ip d hd).without eid) ip) _
    · cases hd'

/-- **An added endpoint** is told of by its creation, or by that of its device if that is new. -/
theorem told_addEndpoint (ht : t.WellFormed) (hfinite : F → t.Finite) {ip : String} {eid : Eid}
    {params : Endpoint.Params} (hparams : F → params.Finite) :
    (t.addEndpoint now ip eid params).Told (fun u => F → u.Finite) t := by
  unfold addEndpoint
  extract_lets created
  -- the endpoint is in the device that comes of it, so the branch that misses it is never taken
  have hcreated : ∀ d c, created = .ok (d, c) →
      c.Tells ip (t.device? ip) d ∧ (F → d.Finite) ∧ ∃ e, d.endpoint? eid = some e := by
    intro d c h
    cases hd : t.device? ip with
    | some d₀ =>
      simp only [created, hd] at h
      obtain ⟨htells, hkept, hthere⟩ := Device.createEndpoint_spec (ht.devices ip d₀ hd) h
      exact ⟨htells, fun hF => hkept ((hfinite hF).devices ip d₀ hd) (hfinite hF).bounds
        (hparams hF), hthere⟩
    -- a device is created for it, and told of with the endpoint in it
    | none =>
      simp only [created, hd] at h
      split at h
      · cases h
      · obtain ⟨d₀, hd₀, h⟩ := bind_eq_ok_iff.mp h
        obtain ⟨⟨d₁, c₁⟩, hd₁, h⟩ := bind_eq_ok_iff.mp h
        cases h
        obtain ⟨hwell, hempty⟩ := create_spec hd₀
        obtain ⟨htells, hkept, hthere⟩ := Device.createEndpoint_spec hwell hd₁
        exact ⟨Patch.DeviceChange.tells_creation htells.wellFormed,
          fun hF => hkept hempty (hfinite hF).bounds (hparams hF), hthere⟩
  clear_value created
  cases created with
  | error e => exact Outcome.told_refused e
  | ok p =>
    obtain ⟨d, c⟩ := p
    obtain ⟨htells, hd, e, he⟩ := hcreated d c rfl
    simp only [he]
    exact told_putDevice ht hfinite htells hd e

theorem told_removeEndpoint (ht : t.WellFormed) (hfinite : F → t.Finite) (ip : String) (eid : Eid) :
    (t.removeEndpoint ip eid).Told (fun u => F → u.Finite) t := by
  unfold removeEndpoint
  split
  · exact Outcome.told_refused _
  · next ho => exact (told_reduceDevice ht hfinite ho).map _

theorem device?_of_deviceWith? {ip : String} {eid : Eid} {d : Device}
    (h : t.deviceWith? ip eid = some d) : t.device? ip = some d := by
  unfold deviceWith? at h
  exact (Option.filter_eq_some_iff.mp h).1

theorem told_setValueAt (ht : t.WellFormed) (hfinite : F → t.Finite) {ip : String} {eid : Eid}
    {v : Value} {o : Outcome Patch} (ho : t.setValueAt now ip eid v = some o) :
    o.Told (fun u => F → u.Finite) t := by
  obtain ⟨d, hwith, rfl⟩ := Option.map_eq_some_iff.mp ho
  have hd := device?_of_deviceWith? hwith
  refine told_changeDevice ht hfinite fun d' c h => ?_
  obtain ⟨htells, hkept⟩ := Device.setValue_spec (ht.devices ip d hd) h
  rw [hd]
  exact ⟨htells, fun hF => hkept ((hfinite hF).devices ip d hd)⟩

theorem told_setValue (ht : t.WellFormed) (hfinite : F → t.Finite) {name : String} {v : Value}
    {o : Outcome Patch} (ho : t.setValue now name v = some o) :
    o.Told (fun u => F → u.Finite) t := by
  obtain ⟨⟨ip, eid⟩, -, ho⟩ := Option.bind_eq_some_iff.mp ho
  exact told_setValueAt ht hfinite ho

theorem told_recordValue (ht : t.WellFormed) (hfinite : F → t.Finite) (name : String) (v : Value) :
    (t.recordValue now name v).Told (fun u => F → u.Finite) t := by
  unfold recordValue
  cases ho : t.setValue now name v with
  | none => exact Outcome.told_refused _
  | some o => exact told_setValue ht hfinite ho

theorem told_setBound (ht : t.WellFormed) (hfinite : F → t.Finite) {ip : String} {eid : Eid}
    {d : Device} (hd : t.device? ip = some d) {field : String} {f : Bounds → Bounds}
    (hf : F → ∀ b : Bounds, b.min.isFinite = true → b.max.isFinite = true →
      (f b).min.isFinite = true ∧ (f b).max.isFinite = true) :
    (t.changeDevice ip (d.setBound eid (·.mapBounds field f))).Told (fun u => F → u.Finite) t := by
  refine told_changeDevice ht hfinite fun d' c h => ?_
  obtain ⟨htells, hkept⟩ := Device.setBound_spec (ht.devices ip d hd) h
  rw [hd]
  exact ⟨htells, fun hF => hkept ((hfinite hF).devices ip d hd) (hf hF)⟩

theorem told_setMin (ht : t.WellFormed) (hfinite : F → t.Finite) {name : String} {x : Float}
    (hx : F → x.isFinite = true) {o : Outcome Patch} (ho : t.setMin name x = some o) :
    o.Told (fun u => F → u.Finite) t := by
  obtain ⟨⟨ip, eid⟩, -, ho⟩ := Option.bind_eq_some_iff.mp ho
  obtain ⟨d, hwith, ho⟩ := Option.bind_eq_some_iff.mp ho
  cases ho
  exact told_setBound ht hfinite (device?_of_deviceWith? hwith) fun hF b _ hmax => ⟨hx hF, hmax⟩

theorem told_setMax (ht : t.WellFormed) (hfinite : F → t.Finite) {name : String} {x : Float}
    (hx : F → x.isFinite = true) {o : Outcome Patch} (ho : t.setMax name x = some o) :
    o.Told (fun u => F → u.Finite) t := by
  obtain ⟨⟨ip, eid⟩, -, ho⟩ := Option.bind_eq_some_iff.mp ho
  obtain ⟨d, hwith, ho⟩ := Option.bind_eq_some_iff.mp ho
  cases ho
  exact told_setBound ht hfinite (device?_of_deviceWith? hwith) fun hF b hmin _ => ⟨hmin, hx hF⟩

/-! ### Views -/

theorem told_changeView (ht : t.WellFormed) (hfinite : F → t.Finite) {id : Uuid} {v : View}
    (hv : v.id = id) : (t.changeView id v).Told (fun u => F → u.Finite) t :=
  Outcome.told_loud ht (Event.tells_putView ht hv)
    (fun hF => ⟨(hfinite hF).bounds, (hfinite hF).devices⟩) _

theorem told_addView (ht : t.WellFormed) (hfinite : F → t.Finite) {id : Uuid} {name : String}
    {references : List String} (hfresh : t.view? id = none) :
    (t.addView id name references).Told (fun u => F → u.Finite) t := by
  unfold addView
  simp only [hfresh]
  exact told_changeView ht hfinite rfl

theorem told_addViewAs (ht : t.WellFormed) (hfinite : F → t.Finite) (id : Uuid) (name : String)
    (references : List String) :
    (t.addViewAs id name references).Told (fun u => F → u.Finite) t := by
  unfold addViewAs
  split
  · exact Outcome.told_refused _
  · exact told_changeView ht hfinite rfl

theorem told_removeView (ht : t.WellFormed) (hfinite : F → t.Finite) (id : Uuid) :
    (t.removeView id).Told (fun u => F → u.Finite) t := by
  unfold removeView
  split
  · exact Outcome.told_refused _
  · exact Outcome.told_loud ht (Event.tells_withoutView ht id)
      (fun hF => ⟨(hfinite hF).bounds, (hfinite hF).devices⟩) _

theorem told_renameView (ht : t.WellFormed) (hfinite : F → t.Finite) {id : Uuid} {name : String}
    {o : Outcome View} (ho : t.renameView id name = some o) :
    o.Told (fun u => F → u.Finite) t := by
  obtain ⟨v, hv, rfl⟩ := Option.map_eq_some_iff.mp ho
  exact told_changeView ht hfinite (ht.views id v hv)

theorem told_setReferences (ht : t.WellFormed) (hfinite : F → t.Finite) {id : Uuid}
    {references : List String} {o : Outcome View} (ho : t.setReferences id references = some o) :
    o.Told (fun u => F → u.Finite) t := by
  obtain ⟨v, hv, rfl⟩ := Option.map_eq_some_iff.mp ho
  exact told_changeView ht hfinite (ht.views id v hv)

/-! ### Everything -/

theorem told_reset (ht : t.WellFormed) (hfinite : F → t.Finite) :
    t.reset.Told (fun u => F → u.Finite) t :=
  Outcome.told_loud ht (Event.tells_reset t)
    (fun hF => ⟨(hfinite hF).bounds, fun _ _ hd => nomatch hd⟩) _

theorem told_mergeHeader (ht : t.WellFormed) (hfinite : F → t.Finite) (found : Discovery.Device) :
    (t.mergeHeader now found).Told (fun u => F → u.Finite) t := by
  unfold mergeHeader
  split
  · exact (told_addDevice ht hfinite _ _).map _
  · split
    · exact Outcome.told_quiet _
    · split
      · next ho => exact (told_renameDevice ht hfinite ho).map _
      · exact Outcome.told_quiet _

/-- **Endpoints that are added one after another** are told of one after another. -/
theorem told_mergeEndpoints {clock : Eid → Time} {ip : String} {found : List Discovery.Endpoint}
    (hparams : F → ∀ e ∈ found, e.params.Finite) (r : MergeReport) (ht : t.WellFormed)
    (hfinite : F → t.Finite) :
    (mergeEndpoints clock ip found r t).Told (fun u => F → u.Finite) t := by
  induction found generalizing r t with
  | nil => exact Outcome.told_quiet _
  | cons e rest ih =>
    have hrest : F → ∀ e ∈ rest, e.params.Finite :=
      fun hF e he => hparams hF e (List.mem_cons_of_mem _ he)
    unfold mergeEndpoints
    split
    · exact ih hrest r ht hfinite
    · next o ho =>
      -- the tree that the rest starts from is well-formed and finite by what was told so far
      have htold := told_extendDevice ht hfinite (fun hF => hparams hF e List.mem_cons_self) ho
      exact htold.andThen fun _ => ih hrest _ (Told.wellFormed htold ht) (Told.last htold hfinite)

theorem told_merge (ht : t.WellFormed) (hfinite : F → t.Finite) (times : MergeTimes)
    {found : Discovery.Device} (hparams : F → ∀ e ∈ found.endpoints, e.params.Finite) :
    (t.merge times found).Told (fun u => F → u.Finite) t := by
  unfold merge
  split
  · exact Outcome.told_refused _
  · have htold : (t.mergeHeader times.header found).Told (fun u => F → u.Finite) t :=
      told_mergeHeader ht hfinite found
    refine htold.andThen fun r => told_mergeEndpoints (fun hF e he => ?_) r
      (Told.wellFormed htold ht) (Told.last htold hfinite)
    exact hparams hF e ((List.mem_filter.mp he).1)

/-- A merge keeps a tree well-formed. -/
theorem wellFormed_merge (ht : t.WellFormed) (times : MergeTimes) (found : Discovery.Device) :
    (t.merge times found).tree.WellFormed :=
  Told.wellFormed (told_merge (F := False) ht False.elim times False.elim) ht

/-! ### Commands -/

/-- **A loud operation with its arguments.** A merge takes the times of its steps along. -/
inductive Command where
  | addDevice (ip name : String)
  | removeDevice (ip : String)
  | touchDevice (ip : String)
  | renameDevice (ip name : String)
  | extendDevice (ip : String) (eid : Eid) (params : Endpoint.Params)
  | reduceDevice (ip : String) (eid : Eid)
  | addEndpoint (ip : String) (eid : Eid) (params : Endpoint.Params)
  | removeEndpoint (ip : String) (eid : Eid)
  | setValueAt (ip : String) (eid : Eid) (v : Value)
  | setValue (name : String) (v : Value)
  | setMin (name : String) (x : Float)
  | setMax (name : String) (x : Float)
  | recordValue (name : String) (v : Value)
  | addView (id : Uuid) (name : String) (references : List String)
  | addViewAs (id : Uuid) (name : String) (references : List String)
  | removeView (id : Uuid)
  | renameView (id : Uuid) (name : String)
  | setReferences (id : Uuid) (references : List String)
  | reset
  | merge (found : Discovery.Device) (times : MergeTimes)

/-- The outcome of an operation that is reached through something which may not be there. -/
def reached {α : Type} (t : Tree) (o : Option (Outcome α)) : Outcome Unit :=
  (o.map Outcome.silent).getD (.quiet t ())

/-- **A command is carried out**, at one time unless it is a merge. -/
def Command.run (now : Time) (t : Tree) : Command → Outcome Unit
  | addDevice ip name => (t.addDevice now ip name).silent
  | removeDevice ip => (t.removeDevice ip).silent
  | touchDevice ip => t.reached (t.touchDevice now ip)
  | renameDevice ip name => t.reached (t.renameDevice now ip name)
  | extendDevice ip eid params => t.reached (t.extendDevice now ip eid params)
  | reduceDevice ip eid => t.reached (t.reduceDevice ip eid)
  | addEndpoint ip eid params => (t.addEndpoint now ip eid params).silent
  | removeEndpoint ip eid => (t.removeEndpoint ip eid).silent
  | setValueAt ip eid v => t.reached (t.setValueAt now ip eid v)
  | setValue name v => t.reached (t.setValue now name v)
  | setMin name x => t.reached (t.setMin name x)
  | setMax name x => t.reached (t.setMax name x)
  | recordValue name v => (t.recordValue now name v).silent
  | addView id name references => (t.addView id name references).silent
  | addViewAs id name references => (t.addViewAs id name references).silent
  | removeView id => (t.removeView id).silent
  | renameView id name => t.reached (t.renameView id name)
  | setReferences id references => t.reached (t.setReferences id references)
  | reset => t.reset.silent
  | merge found times => (t.merge times found).silent

/-- All doubles in the arguments are finite. -/
def Command.Finite : Command → Prop
  | extendDevice _ _ params | addEndpoint _ _ params => params.Finite
  | setMin _ x | setMax _ x => x.isFinite = true
  | merge found _ => ∀ e ∈ found.endpoints, e.params.Finite
  | _ => True

/-- **The identifier that was drawn for a view is not in use.** -/
def Command.Fresh (t : Tree) : Command → Prop
  | addView id _ _ => t.view? id = none
  | _ => True

theorem told_reached {α : Type} {ok : Tree → Prop} {o : Option (Outcome α)}
    (h : ∀ o', o = some o' → o'.Told ok t) : (t.reached o).Told ok t := by
  cases o with
  | none => exact Outcome.told_quiet ()
  | some o => exact (h o rfl).map _

/-- **The events of a command tell of what it did.** -/
theorem Command.told (ht : t.WellFormed) {c : Command} (hfresh : c.Fresh t) :
    (c.run now t).Told (fun u => t.Finite ∧ c.Finite → u.Finite) t := by
  have hfinite : t.Finite ∧ c.Finite → t.Finite := And.left
  cases c with
  | addDevice ip name => exact (told_addDevice ht hfinite ip name).map _
  | removeDevice ip => exact (told_removeDevice ht hfinite ip).map _
  | touchDevice ip => exact told_reached fun _ ho => told_touchDevice ht hfinite ho
  | renameDevice ip name => exact told_reached fun _ ho => told_renameDevice ht hfinite ho
  | extendDevice ip eid params =>
    exact told_reached fun _ ho => told_extendDevice ht hfinite And.right ho
  | reduceDevice ip eid => exact told_reached fun _ ho => told_reduceDevice ht hfinite ho
  | addEndpoint ip eid params => exact (told_addEndpoint ht hfinite And.right).map _
  | removeEndpoint ip eid => exact (told_removeEndpoint ht hfinite ip eid).map _
  | setValueAt ip eid v => exact told_reached fun _ ho => told_setValueAt ht hfinite ho
  | setValue name v => exact told_reached fun _ ho => told_setValue ht hfinite ho
  | setMin name x => exact told_reached fun _ ho => told_setMin ht hfinite And.right ho
  | setMax name x => exact told_reached fun _ ho => told_setMax ht hfinite And.right ho
  | recordValue name v => exact (told_recordValue ht hfinite name v).map _
  | addView id name references => exact (told_addView ht hfinite hfresh).map _
  | addViewAs id name references => exact (told_addViewAs ht hfinite id name references).map _
  | removeView id => exact (told_removeView ht hfinite id).map _
  | renameView id name => exact told_reached fun _ ho => told_renameView ht hfinite ho
  | setReferences id references =>
    exact told_reached fun _ ho => told_setReferences ht hfinite ho
  | reset => exact (told_reset ht hfinite).map _
  | merge found times => exact (told_merge ht hfinite times And.right).map _

/-- If the identifier that was drawn for a view is in use, the view that is there is kept. -/
theorem Command.tree_run_of_not_fresh {c : Command} (h : ¬ c.Fresh t) :
    (c.run now t).tree = t := by
  cases c with
  | addView id name references =>
    obtain ⟨v, hv⟩ := Option.ne_none_iff_exists'.mp h
    simp only [run, Tree.addView, hv]
    rfl
  | _ => exact absurd trivial h

/-- A command keeps a tree well-formed, also if the identifier of a view is in use. -/
theorem Command.wellFormed_run (ht : t.WellFormed) (c : Command) :
    (c.run now t).tree.WellFormed := by
  by_cases hfresh : c.Fresh t
  · exact Told.wellFormed (told ht hfresh) ht
  · rw [tree_run_of_not_fresh hfresh]
    exact ht

/-- A command leaves the table of bounds alone. -/
theorem Command.bounds_run (ht : t.WellFormed) (c : Command) :
    (c.run now t).tree.bounds = t.bounds := by
  by_cases hfresh : c.Fresh t
  · exact Told.bounds (told ht hfresh)
  · rw [tree_run_of_not_fresh hfresh]

/-- **A command that publishes nothing has changed nothing.** -/
theorem Command.tree_run_of_silent (ht : t.WellFormed) {c : Command}
    (h : (c.run now t).events = []) : (c.run now t).tree = t := by
  by_cases hfresh : c.Fresh t
  · have htold : Tree.Told _ t (c.run now t).events (c.run now t).tree := told ht hfresh
    rw [h] at htold
    exact htold.eq_of_nil
  · exact tree_run_of_not_fresh hfresh

/-! ### Reachable trees -/

/-- **A tree that can come about.** -/
inductive Reachable : Tree → Prop where
  | ofBounds (bounds : BoundsTable) : Reachable (ofBounds bounds)
  | restore {t u : Tree} {s : Snapshot} (h : Reachable t) (hu : t.restore s = .ok u) : Reachable u
  | command {t : Tree} (h : Reachable t) (now : Time) (c : Command) : Reachable (c.run now t).tree
  | apply {t u : Tree} {now : Time} {manner : Manner} {p : Patch} (h : Reachable t)
      (hu : t.apply now manner p = .ok u) : Reachable u

end Tree

end Fleet
