import Fleet.Proofs.Telling

/-!
# Events that tell of a step

`Event.Tells` says that nothing of a step of a tree is lost on those who only hear of its event: the
patch takes the tree before to the tree after at whatever clock and with whatever table of bounds,
it does not depend on when it is heard, and it survives the wire if the doubles in it are finite.
There is one lemma for every patch that a loud operation publishes.

`Tree.Told` is a chain of such steps, with a property that all trees on the way have. An operation
that publishes one event is a chain of length one, or of length none if its patch is empty and so
not published (`Event.Tells.told`).
-/

namespace Fleet

open Patch (Entry DeviceChange ViewChange)

/-! ### Trees with a place changed -/

namespace Tree

variable {t : Tree}

theorem device?_putDevice {ip ip' : String} {d : Device} :
    (t.putDevice ip d).device? ip' = if ip' = ip then some d else t.device? ip' :=
  SortedMap.get?_insert

theorem device?_withoutDevice {ip ip' : String} :
    (t.withoutDevice ip).device? ip' = if ip' = ip then none else t.device? ip' :=
  SortedMap.get?_erase

theorem view?_putView {id id' : Uuid} {v : View} :
    (t.putView id v).view? id' = if id' = id then some v else t.view? id' := SortedMap.get?_insert

theorem view?_withoutView {id id' : Uuid} :
    (t.withoutView id).view? id' = if id' = id then none else t.view? id' := SortedMap.get?_erase

theorem WellFormed.putDevice (ht : t.WellFormed) {ip : String} {d : Device}
    (hd : d.WellFormed ip) : (t.putDevice ip d).WellFormed := by
  refine ⟨fun ip' d' hd' => ?_, ht.views⟩
  rw [device?_putDevice] at hd'
  split at hd'
  · next hip =>
    cases hd'
    exact hip ▸ hd
  · exact ht.devices ip' d' hd'

theorem WellFormed.withoutDevice (ht : t.WellFormed) (ip : String) :
    (t.withoutDevice ip).WellFormed := by
  refine ⟨fun ip' d hd => ?_, ht.views⟩
  rw [device?_withoutDevice] at hd
  split at hd
  · cases hd
  · exact ht.devices ip' d hd

theorem WellFormed.putView (ht : t.WellFormed) {id : Uuid} {v : View} (hv : v.id = id) :
    (t.putView id v).WellFormed := by
  refine ⟨ht.devices, fun id' v' hv' => ?_⟩
  rw [view?_putView] at hv'
  split at hv'
  · next hid =>
    cases hv'
    exact hv.trans hid.symm
  · exact ht.views id' v' hv'

theorem WellFormed.withoutView (ht : t.WellFormed) (id : Uuid) : (t.withoutView id).WellFormed := by
  refine ⟨ht.devices, fun id' v hv => ?_⟩
  rw [view?_withoutView] at hv
  split at hv
  · cases hv
  · exact ht.views id' v hv

theorem WellFormed.withBounds (ht : t.WellFormed) (table : BoundsTable) :
    { t with bounds := table }.WellFormed := ⟨ht.devices, ht.views⟩

/-- **Every endpoint of the tree** has the property. -/
def Everywhere (P : Endpoint → Prop) (t : Tree) : Prop :=
  ∀ ip d, t.device? ip = some d → ∀ eid e, d.endpoint? eid = some e → P e

instance (P : Endpoint → Prop) [DecidablePred P] (t : Tree) : Decidable (t.Everywhere P) :=
  inferInstanceAs (Decidable (∀ ip d, t.devices.get? ip = some d →
    ∀ eid e, d.endpoints.get? eid = some e → P e))

theorem Everywhere.putDevice {P : Endpoint → Prop} (ht : t.Everywhere P) {d : Device}
    (hd : ∀ eid e, d.endpoint? eid = some e → P e) (ip : String) :
    (t.putDevice ip d).Everywhere P := by
  intro ip' d' hd'
  rw [device?_putDevice] at hd'
  split at hd'
  · cases hd'
    exact hd
  · exact ht ip' d' hd'

theorem Finite.putDevice (ht : t.Finite) {d : Device} (hd : d.Finite) (ip : String) :
    (t.putDevice ip d).Finite := ⟨ht.bounds, Everywhere.putDevice ht.devices hd ip⟩

theorem Finite.withoutDevice (ht : t.Finite) (ip : String) : (t.withoutDevice ip).Finite := by
  refine ⟨ht.bounds, fun ip' d hd => ?_⟩
  rw [device?_withoutDevice] at hd
  split at hd
  · cases hd
  · exact ht.devices ip' d hd

end Tree

/-! ### A step and its event -/

/-- **The event tells of a step of a tree.** -/
structure Event.Tells (e : Event) (t u : Tree) : Prop where
  bounds : u.bounds = t.bounds
  takes : ∀ table now,
    e.patch.Takes e.manner now { t with bounds := table } { u with bounds := table }
  dated : e.patch.Dated
  writable : u.Finite → e.patch.Writable

namespace Event

variable {t u : Tree}

theorem Tells.wellFormed {e : Event} (h : e.Tells t u) : u.WellFormed :=
  (h.takes u.bounds 0).wellFormed

theorem Tells.takes_self {e : Event} (h : e.Tells t u) (now : Time) :
    e.patch.Takes e.manner now t u := by
  have hu : { u with bounds := t.bounds } = u := by rw [← h.bounds]
  have htakes := h.takes t.bounds now
  rw [hu] at htakes
  exact htakes

theorem tells_of_device {manner : Tree.Manner} {ip : String} {e : Entry DeviceChange}
    (hu : u.WellFormed) (hbounds : u.bounds = t.bounds) (hviews : u.views = t.views)
    (hother : ∀ ip', ip' ≠ ip → u.device? ip' = t.device? ip')
    (htakes : ∀ table now, e.Takes manner table now ip (t.device? ip) (u.device? ip))
    (hdated : e.Satisfies DeviceChange.Dated)
    (hwritable : u.Finite → e.Satisfies DeviceChange.Writable) :
    (Event.mk manner (.device ip e)).Tells t u := by
  refine ⟨hbounds, fun table now => Patch.takes_device (hu.withBounds table) rfl hviews hother
    (htakes table now), fun ip' e' he => ?_, fun hfinite =>
    Patch.writable_device (hwritable hfinite)⟩
  -- there is only the one entry
  rw [Patch.get?_devices_device] at he
  split at he
  · cases he
    exact hdated
  · cases he

theorem tells_of_view {manner : Tree.Manner} {id : Uuid} {e : Entry ViewChange}
    (hu : u.WellFormed) (hbounds : u.bounds = t.bounds) (hdevices : u.devices = t.devices)
    (hwhole : manner = .update → ∀ c, e = .change c → c.Whole id)
    (hother : ∀ id', id' ≠ id → u.view? id' = t.view? id')
    (hrun : (View.place id).run (t.view? id) (e.act manner) = some (u.view? id))
    (hwritable : e.Satisfies fun c => c.isBlank = false) :
    (Event.mk manner (.view id e)).Tells t u := by
  refine ⟨hbounds, fun table now => Patch.takes_view (hu.withBounds table) rfl hdevices hwhole
    hother hrun, fun ip e' he => ?_, fun _ => ⟨fun ip e' he => ?_, fun key e' he => ?_⟩⟩
  · rw [Patch.get?_devices_view] at he
    cases he
  · rw [Patch.get?_devices_view] at he
    cases he
  · rw [Patch.get?_views_view] at he
    split at he
    · cases he
      exact hwritable
    · cases he

/-- **A change that tells of a device** tells of the tree with that device. -/
theorem tells_putDevice (ht : t.WellFormed) {ip : String} {c : DeviceChange} {d : Device}
    (h : c.Tells ip (t.device? ip) d) :
    (update (.device ip (.change c))).Tells t (t.putDevice ip d) := by
  have hput : (t.putDevice ip d).device? ip = some d := by
    rw [Tree.device?_putDevice, if_pos rfl]
  refine tells_of_device (ht.putDevice h.wellFormed) rfl rfl (fun ip' hip => ?_)
    (fun table now => ?_) h.dated fun hfinite => h.writable (hfinite.devices ip d hput)
  · rw [Tree.device?_putDevice, if_neg hip]
  · rw [hput]
    exact h.takes table now

/-- **The tombstone of a device tells** that it was removed. -/
theorem tells_withoutDevice (ht : t.WellFormed) (ip : String) :
    (delete (.deviceTombstone ip)).Tells t (t.withoutDevice ip) := by
  refine tells_of_device (ht.withoutDevice ip) rfl rfl (fun ip' hip => ?_) (fun table now => ?_)
    trivial fun _ => trivial
  · rw [Tree.device?_withoutDevice, if_neg hip]
  · rw [Tree.device?_withoutDevice, if_pos rfl]
    exact Entry.takes_tombstone _

/-- **The tombstone of an endpoint tells** that it was removed. -/
theorem tells_withoutEndpoint (ht : t.WellFormed) {ip : String} {d : Device}
    (hd : t.device? ip = some d) (eid : Eid) :
    (delete (.endpointTombstone ip eid)).Tells t (t.putDevice ip (d.without eid)) := by
  have hwell := (ht.devices ip d hd).without eid
  have hget : ∀ {key e}, (DeviceChange.withEndpoint {} eid .tombstone).endpoints.get? key = some e →
      e = .tombstone := by
    intro key e he
    have hmem := SortedMap.get?_eq_some_iff.mp he
    rw [Patch.entries_withEndpoint rfl, List.mem_singleton] at hmem
    cases hmem
    rfl
  refine tells_of_device (ht.putDevice hwell) rfl rfl (fun ip' hip => ?_) (fun table now => ?_)
    (fun key e he => ?_) fun _ => ⟨fun key e he => ?_, ?_⟩
  · rw [Tree.device?_putDevice, if_neg hip]
  · rw [Tree.device?_putDevice, if_pos rfl, hd]
    refine ⟨fun c hc => ?_, fun d' hd' => ?_, rfl, fun l => ?_⟩
    -- its only key is the text of a number
    · cases hc
      refine ⟨?_, nofun⟩
      rw [Patch.entries_withEndpoint rfl]
      intro q hq
      rw [List.mem_singleton] at hq
      rw [hq]
      exact ⟨eid, Eid.ofText?_text eid⟩
    · cases hd'
      exact hwell
    -- the tombstone acts at that number and nowhere else
    · change (Endpoint.place table now ip l).runAll (d.endpoint? l) (Patch.actsFor Eid.ofText?
        .delete (DeviceChange.withEndpoint {} eid .tombstone).endpoints.entries l) =
          some ((d.without eid).endpoint? l)
      rw [Patch.actsFor_withEndpoint rfl, Device.endpoint?_without]
      by_cases hl : l = eid
      · rw [if_pos hl, if_pos hl, Place.runAll_singleton]
        rfl
      · rw [if_neg hl, if_neg hl, Place.runAll_nil]
  · rw [hget he]
    trivial
  · rw [hget he]
    trivial
  -- a change that lists an endpoint is not blank
  · have hnot : (DeviceChange.withEndpoint {} eid .tombstone).endpoints.isEmpty = false :=
      SortedMap.isEmpty_insert
    unfold DeviceChange.isBlank
    rw [hnot, Bool.and_false]

/-- **The change of a view tells of it** as a whole. -/
theorem tells_putView (ht : t.WellFormed) {id : Uuid} {v : View} (hv : v.id = id) :
    (update (.view id (.change v.change))).Tells t (t.putView id v) := by
  refine tells_of_view (ht.putView hv) rfl rfl (fun _ c hc => ?_) (fun id' hid => ?_) ?_ rfl
  · cases hc
    exact ⟨fun id' hid' => (Option.some.inj hid').symm.trans hv, ⟨v.name, rfl⟩,
      ⟨v.references, rfl⟩⟩
  · rw [Tree.view?_putView, if_neg hid]
  -- a view is told of as a whole, so it does not matter whether there was one before
  · rw [Tree.view?_putView, if_pos rfl]
    subst hv
    cases t.view? v.id <;> rfl

/-- **The tombstone of a view tells** that it was removed. -/
theorem tells_withoutView (ht : t.WellFormed) (id : Uuid) :
    (delete (.viewTombstone id)).Tells t (t.withoutView id) := by
  refine tells_of_view (ht.withoutView id) rfl rfl nofun (fun id' hid => ?_) ?_ trivial
  · rw [Tree.view?_withoutView, if_neg hid]
  · rw [Tree.view?_withoutView, if_pos rfl]
    rfl

/-- The patch of a reset has a tombstone for every device. -/
theorem get?_devices_resetPatch {t : Tree} {ip : String} {e : Entry DeviceChange} :
    t.resetPatch.devices.get? ip = some e ↔ ∃ d, t.device? ip = some d ∧ .tombstone = e := by
  have hmap : t.resetPatch.devices = .ofList (t.devices.entries.map fun p => (p.1, .tombstone)) :=
    congrArg SortedMap.ofList List.map_map
  rw [hmap, SortedMap.get?_ofList_map (f := fun ip => ip)
    (g := fun _ (_ : Device) => (.tombstone : Entry DeviceChange)) fun _ _ h => h]
  constructor
  · rintro ⟨_, d, hd, rfl, he⟩
    exact ⟨d, hd, he⟩
  · rintro ⟨d, hd, he⟩
    exact ⟨ip, d, hd, rfl, he⟩

/-- The patch of a reset has a tombstone for every view under its written identifier. -/
theorem get?_views_resetPatch {t : Tree} {key : String} {e : Entry ViewChange} :
    t.resetPatch.views.get? key = some e ↔
      ∃ id v, t.view? id = some v ∧ id.text = key ∧ .tombstone = e := by
  have hmap : t.resetPatch.views = .ofList (t.views.entries.map fun p => (p.1.text, .tombstone)) :=
    congrArg SortedMap.ofList List.map_map
  rw [hmap]
  exact SortedMap.get?_ofList_map (g := fun _ (_ : View) => (.tombstone : Entry ViewChange))
    fun _ _ => Uuid.text_injective

theorem keysWritten_views_resetPatch (t : Tree) :
    Patch.KeysWritten Uuid.text t.resetPatch.views.entries := by
  intro p hp
  obtain ⟨id, -, -, hid, -⟩ := get?_views_resetPatch.mp (SortedMap.get?_eq_some_iff.mpr hp)
  exact ⟨id, hid.symm⟩

/-- **The patch of a reset tells** that everything was removed. -/
theorem tells_reset (t : Tree) :
    (delete t.resetPatch).Tells t { t with devices := ∅, views := ∅ } := by
  have hwritten := keysWritten_views_resetPatch t
  -- where the patch says nothing of a device, there is none
  have hnone : ∀ {ip}, t.resetPatch.devices.get? ip = none → t.device? ip = none := by
    intro ip he
    refine Option.eq_none_iff_forall_ne_some.mpr fun d hd => ?_
    rw [get?_devices_resetPatch.mpr ⟨d, hd, rfl⟩] at he
    cases he
  refine ⟨rfl, fun table now => ⟨⟨fun ip c hc => ?_, hwritten.keysRead Uuid.ofText?_text, nofun⟩,
    ⟨nofun, nofun⟩, rfl, fun ip => ?_, fun ip eid => ?_, fun id => ?_⟩, fun ip e he => ?_,
    fun _ => ⟨fun ip e he => ?_, fun key e he => ?_⟩⟩
  · obtain ⟨d, -, he⟩ := get?_devices_resetPatch.mp hc
    cases he
  -- every place is empty afterwards
  · change (Header.place ip).runAll (t.header? ip) (t.resetPatch.headerActs .delete ip) = some none
    cases he : t.resetPatch.devices.get? ip with
    | some e =>
      obtain ⟨d, -, rfl⟩ := get?_devices_resetPatch.mp he
      rw [Patch.headerActs_some he]
      rfl
    | none =>
      rw [Patch.headerActs_none he, Tree.header?_eq_none_iff.mpr (hnone he)]
      rfl
  · change (Endpoint.place table now ip eid).runAll (t.endpointAt? ip eid)
      (t.resetPatch.endpointActs .delete ip eid) = some none
    cases he : t.resetPatch.devices.get? ip with
    | some e =>
      obtain ⟨d, -, rfl⟩ := get?_devices_resetPatch.mp he
      rw [Patch.endpointActs_some he]
      rfl
    | none =>
      rw [Patch.endpointActs_none he, Tree.endpointAt?, hnone he]
      rfl
  · change (View.place id).runAll (t.view? id) (t.resetPatch.viewActs .delete id) = some none
    rw [Patch.viewActs, hwritten.actsFor_eq Uuid.ofText?_text]
    cases hv : t.view? id with
    | some v =>
      rw [get?_views_resetPatch.mpr ⟨id, v, hv, rfl, rfl⟩]
      rfl
    | none =>
      cases he : t.resetPatch.views.get? id.text with
      | none => rfl
      | some e =>
        obtain ⟨id', v, hv', hid, -⟩ := get?_views_resetPatch.mp he
        rw [Uuid.text_injective hid, hv] at hv'
        cases hv'
  -- tombstones are dated and writable
  · obtain ⟨d, -, rfl⟩ := get?_devices_resetPatch.mp he
    trivial
  · obtain ⟨d, -, rfl⟩ := get?_devices_resetPatch.mp he
    trivial
  · obtain ⟨id, v, -, -, rfl⟩ := get?_views_resetPatch.mp he
    trivial

end Event

/-! ### Chains of steps -/

/-- **A chain of steps**, one for every event; `ok` holds of all trees after the first. -/
inductive Tree.Told (ok : Tree → Prop) : Tree → List Event → Tree → Prop where
  | done (t : Tree) : Told ok t [] t
  | step {t u v : Tree} {e : Event} {events : List Event} (h : e.Tells t u) (hok : ok u)
      (rest : Told ok u events v) : Told ok t (e :: events) v

namespace Tree.Told

variable {ok : Tree → Prop} {t u v : Tree} {events more : List Event}

theorem append (h : Told ok t events u) (h' : Told ok u more v) : Told ok t (events ++ more) v := by
  induction h with
  | done t => exact h'
  | step hstep hok _ ih => exact .step hstep hok (ih h')

theorem imp {ok' : Tree → Prop} (himp : ∀ t, ok t → ok' t) (h : Told ok t events u) :
    Told ok' t events u := by
  induction h with
  | done t => exact .done t
  | step hstep hok _ ih => exact .step hstep (himp _ hok) ih

/-- What holds of the first tree and is kept by every step holds of the last tree. -/
theorem last (h : Told ok t events u) (ht : ok t) : ok u := by
  induction h with
  | done t => exact ht
  | step _ hok _ ih => exact ih hok

theorem wellFormed (h : Told ok t events u) (ht : t.WellFormed) : u.WellFormed := by
  induction h with
  | done t => exact ht
  | step hstep _ _ ih => exact ih hstep.wellFormed

theorem bounds (h : Told ok t events u) : u.bounds = t.bounds := by
  induction h with
  | done t => rfl
  | step hstep _ _ ih => exact ih.trans hstep.bounds

theorem eq_of_nil (h : Told ok t [] u) : u = t := by
  cases h
  rfl

end Tree.Told

theorem Event.Tells.eq_of_isEmpty {e : Event} {t u : Tree} (ht : t.WellFormed) (h : e.Tells t u)
    (hempty : e.patch.isEmpty = true) : u = t := by
  obtain ⟨hdevices, hviews⟩ := Bool.and_eq_true_iff.mp hempty
  rw [SortedMap.isEmpty_iff] at hdevices hviews
  have hnone : ∀ ip, e.patch.devices.get? ip = none := by
    rw [hdevices]
    exact fun ip => SortedMap.get?_emptyc
  -- nothing is done at any place, whatever table and clock the event is heard with
  obtain ⟨-, hu, -, hheaders, hendpoints, hview⟩ := h.takes u.bounds 0
  refine Tree.ext_places h.wellFormed ht h.bounds (fun ip => ?_) (fun ip eid => ?_) fun id => ?_
  · have hheader := hheaders ip
    rw [Patch.headerActs_none (hnone ip)] at hheader
    exact (Option.some.inj hheader).symm
  · have hendpoint := hendpoints ip eid
    rw [Patch.endpointActs_none (hnone ip)] at hendpoint
    exact (Option.some.inj hendpoint).symm
  · have hview := hview id
    rw [Patch.viewActs_of_empty hviews] at hview
    exact (Option.some.inj hview).symm

/-- **The event of a loud operation** is a chain of one step, or of none if it is not published. -/
theorem Event.Tells.told {ok : Tree → Prop} {e : Event} {t u : Tree} (ht : t.WellFormed)
    (h : e.Tells t u) (hok : ok u) : Tree.Told ok t e.published u := by
  unfold Event.published
  split
  · next hempty =>
    rw [h.eq_of_isEmpty ht hempty]
    exact .done t
  · exact .step h hok (.done u)

end Fleet
