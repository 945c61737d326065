import Fleet.Proofs.Replay

/-!
# What a receiver adds to a patch

Two replicas with the same content may have been set up with different tables of bounds, and their
clocks need not agree. Both reach every step of applying an update, but they are used in one place
only: a new endpoint takes its time from the clock, and a new sensor takes its bounds from the table
if its description lacks one. A change that says both by itself is *determined*
(`Patch.EndpointChange.Determined`): what the table and the clock put into the endpoint is then
overwritten (`Endpoint.ofChange_congr`).

From there the two runs are followed upwards, with one congruence for every stage, through creations
of endpoints and of devices. `Tree.applyUpdate_elsewhere` says that a patch of determined changes is
accepted by both replicas, which then have the same content again, or refused by both for the same
reason.
-/

namespace Fleet

open Patch (Entry DeviceChange EndpointChange ViewChange)

/-! ### Determined changes -/

namespace Patch

/-- **The change determines the endpoint** that it creates: it is dated and, if it describes a
sensor, both bounds are given in the description or both beside it. -/
structure EndpointChange.Determined (c : EndpointChange) : Prop where
  dated : c.Dated
  bounded : ∀ params ∈ c.params, params.function = some Function.sensor.name →
    (params.minvalue ≠ none ∧ params.maxvalue ≠ none) ∨ (c.minvalue ≠ none ∧ c.maxvalue ≠ none)

/-- All endpoints that the change creates are determined by it. -/
def DeviceChange.Determined (c : DeviceChange) : Prop :=
  ∀ key e, c.endpoints.get? key = some e → e.Satisfies EndpointChange.Determined

/-- **All endpoints that the patch creates are determined by it.** -/
def Determined (p : Patch) : Prop :=
  ∀ ip e, p.devices.get? ip = some e → e.Satisfies DeviceChange.Determined

instance (c : EndpointChange) : Decidable c.Determined :=
  decidable_of_iff (c.Dated ∧ ∀ params ∈ c.params, params.function = some Function.sensor.name →
      (params.minvalue ≠ none ∧ params.maxvalue ≠ none) ∨
        (c.minvalue ≠ none ∧ c.maxvalue ≠ none))
    ⟨fun h => ⟨h.1, h.2⟩, fun h => ⟨h.dated, h.bounded⟩⟩

instance (c : DeviceChange) : Decidable c.Determined :=
  inferInstanceAs (Decidable (∀ key e, c.endpoints.get? key = some e → e.Satisfies _))

instance (p : Patch) : Decidable p.Determined :=
  inferInstanceAs (Decidable (∀ ip e, p.devices.get? ip = some e → e.Satisfies _))

end Patch

/-! ### Endpoints -/

theorem Function.eq_name_of_ofName? {s : String} {function : Function}
    (h : ofName? s = some function) : s = function.name := by
  unfold ofName? at h
  split at h
  · next hs =>
    cases h
    exact hs
  · split at h
    · next hs =>
      cases h
      exact hs
    · split at h
      · next hs =>
        cases h
        exact hs
      · cases h

namespace Endpoint

variable {table table' : BoundsTable} {now now' : Time} {ip : String} {eid : Eid}

theorem Params.function_of_requiredFunction {params : Params} {function : Function}
    (h : params.requiredFunction = .ok function) : params.function = some function.name := by
  unfold requiredFunction at h
  split at h
  · cases h
  · next s hs =>
    split at h
    · next function' hfunction =>
      cases h
      rw [hs, Function.eq_name_of_ofName? hfunction]
    · cases h

/-- **The table is of no account** for a sensor whose bounds are all given. -/
theorem Params.role_update_congr {params : Params} {c : EndpointChange} {function : Function}
    (h : function = .sensor → (params.minvalue ≠ none ∧ params.maxvalue ≠ none) ∨
      (c.minvalue ≠ none ∧ c.maxvalue ≠ none)) :
    (params.role table eid function).update c = (params.role table' eid function).update c := by
  cases function with
  | actor => rfl
  | infrastructure => rfl
  | sensor =>
    have hbounds : (params.bounds table eid).update c = (params.bounds table' eid).update c := by
      rcases h rfl with ⟨hmin, hmax⟩ | ⟨hmin, hmax⟩
      -- the description gives them
      · obtain ⟨min, hmin⟩ := Option.ne_none_iff_exists'.mp hmin
        obtain ⟨max, hmax⟩ := Option.ne_none_iff_exists'.mp hmax
        unfold Params.bounds
        rw [hmin, hmax]
      -- the change replaces whatever they were
      · obtain ⟨min, hmin⟩ := Option.ne_none_iff_exists'.mp hmin
        obtain ⟨max, hmax⟩ := Option.ne_none_iff_exists'.mp hmax
        unfold Bounds.update
        rw [hmin, hmax]
        rfl
    exact congrArg (fun b => Role.sensor ⟨b, params.unit⟩) hbounds

/-- **A determined change creates the same endpoint** with any table and at any clock. -/
theorem ofChange_congr {c : EndpointChange} (hc : c.Determined) :
    ofChange table now ip eid c = ofChange table' now' ip eid c := by
  -- the clock is of no account for a dated change, so only the table is left
  rw [ofChange_clock hc.dated table now now']
  unfold ofChange
  cases hparams : c.params with
  | none => rfl
  | some params =>
    dsimp only
    unfold create
    by_cases hip : ip = ""
    · rw [if_pos hip, if_pos hip]
    · rw [if_neg hip, if_neg hip]
      cases params.requiredType with
      | error e => rfl
      | ok typeCode =>
        cases hfunction : params.requiredFunction with
        | error e => rfl
        | ok function =>
          have hname := Params.function_of_requiredFunction hfunction
          have hrole : (params.role table eid function).update c =
              (params.role table' eid function).update c := by
            refine Params.role_update_congr fun hsensor => ?_
            rw [hsensor] at hname
            exact hc.bounded params hparams hname
          simp only [ok_bind, Except.map, update, hrole]

end Endpoint

/-! ### Devices -/

namespace Device

variable {table table' : BoundsTable} {now now' : Time}

theorem stageEntry_congr {e : Entry EndpointChange} (he : e.Satisfies EndpointChange.Determined)
    (d : Device) (eid : Eid) :
    stageEntry table now d eid e = stageEntry table' now' d eid e := by
  cases e with
  | tombstone => rfl
  | change c =>
    have hcreate : Endpoint.ofChange table now d.ip eid c =
        Endpoint.ofChange table' now' d.ip eid c := Endpoint.ofChange_congr he
    unfold stageEntry
    dsimp only
    rw [hcreate]

theorem stageEntries_congr {entries : List (String × Entry EndpointChange)}
    (h : ∀ p ∈ entries, p.2.Satisfies EndpointChange.Determined) (d : Device) (seen : List Eid) :
    stageEntries table now d seen entries = stageEntries table' now' d seen entries := by
  induction entries generalizing seen with
  | nil => rfl
  | cons p rest ih =>
    obtain ⟨key, e⟩ := p
    have hrest := ih fun q hq => h q (List.mem_cons_of_mem _ hq)
    rw [stageEntries, stageEntries]
    cases requiredEid key with
    | error err => rfl
    | ok eid =>
      rw [ok_bind, ok_bind, stageEntry_congr (h _ List.mem_cons_self) d eid, hrest (eid :: seen)]

/-- **Determined changes do the same to a device** with any table and at any clock. -/
theorem update_congr {c : DeviceChange} (hc : c.Determined) (d : Device) :
    d.update table now c = d.update table' now' c := by
  have hstage : d.stage table now c = d.stage table' now' c :=
    stageEntries_congr (fun p hp => hc p.1 p.2 (SortedMap.get?_eq_some_iff.mpr hp)) d []
  rw [update, update, hstage]

theorem ofChange_congr {c : DeviceChange} (hc : c.Determined) (ip : String) :
    ofChange table now ip c = ofChange table' now' ip c := by
  unfold ofChange
  split
  · next name lastUpdate _ _ =>
    -- the time of the device is that of the change
    cases create lastUpdate ip name with
    | error e => rfl
    | ok d => exact update_congr hc d
  · rfl

end Device

/-! ### Trees -/

namespace Tree

/-- **The trees have the same content**: the same devices and the same views. -/
structure SameContent (t u : Tree) : Prop where
  devices : t.devices = u.devices
  views : t.views = u.views

variable {t u : Tree} {now now' : Time}

theorem stageAll_congr {α β : Type} {stage stage' : α → Except TreeError (Option β)} {as : List α}
    (h : ∀ a ∈ as, stage a = stage' a) : stageAll stage as = stageAll stage' as := by
  induction as with
  | nil => rfl
  | cons a rest ih =>
    rw [stageAll, stageAll, h a List.mem_cons_self,
      ih fun b hb => h b (List.mem_cons_of_mem _ hb)]

theorem updateDevice_congr (h : t.SameContent u) {p : String × Entry DeviceChange}
    (hp : p.2.Satisfies DeviceChange.Determined) :
    t.updateDevice now p = u.updateDevice now' p := by
  obtain ⟨ip, e⟩ := p
  cases e with
  | tombstone => rfl
  | change c =>
    have hsame : t.device? ip = u.device? ip := congrArg (fun m => m.get? ip) h.devices
    unfold updateDevice
    dsimp only
    rw [hsame]
    -- the device is there in both trees, or created in both
    cases u.device? ip with
    | none =>
      dsimp only
      rw [Device.ofChange_congr hp ip]
    | some d =>
      dsimp only
      rw [Device.update_congr hp d]

theorem updateView_congr (h : t.SameContent u) : t.updateView = u.updateView := by
  unfold updateView view?
  rw [h.views]

/-- **A determined patch is staged alike** by trees with the same content. -/
theorem stageUpdate_congr (h : t.SameContent u) {p : Patch} (hp : p.Determined) :
    t.stageUpdate now p = u.stageUpdate now' p := by
  have hdevices : stageAll (t.updateDevice now) p.devices.entries =
      stageAll (u.updateDevice now') p.devices.entries :=
    stageAll_congr fun q hq =>
      updateDevice_congr h (hp q.1 q.2 (SortedMap.get?_eq_some_iff.mpr hq))
  rw [stageUpdate, stageUpdate, hdevices, updateView_congr h]

theorem SameContent.commit (h : t.SameContent u) (s : Staged) :
    (t.commit s).SameContent (u.commit s) := by
  unfold Tree.commit
  constructor
  · dsimp only
    rw [h.devices]
  · dsimp only
    rw [h.views]

/-- **A patch means the same to every receiver.** Whatever the tables and the clocks of two trees
with the same content are, a patch of determined changes is accepted as an update by both, which
then have the same content, or it is refused by both with the same error. -/
theorem applyUpdate_elsewhere (h : t.SameContent u) {p : Patch} (hp : p.Determined)
    (now now' : Time) :
    (∃ t' u', t.applyUpdate now p = .ok t' ∧ u.applyUpdate now' p = .ok u' ∧
      t'.SameContent u') ∨
    ∃ e, t.applyUpdate now p = .error e ∧ u.applyUpdate now' p = .error e := by
  have hstage : t.stageUpdate now p = u.stageUpdate now' p := stageUpdate_congr h hp
  unfold applyUpdate
  rw [hstage]
  cases u.stageUpdate now' p with
  | error e => exact .inr ⟨e, rfl, rfl⟩
  | ok s => exact .inl ⟨t.commit s, u.commit s, rfl, rfl, h.commit s⟩

/-- A device with a sensor that has its bounds in its description, one that has them beside it, and
an actor. -/
def inletPatch : Patch := .device "hall" (.change (DeviceChange.withEndpoint
  (DeviceChange.withEndpoint (DeviceChange.withEndpoint
    { name := some "Hall", lastUpdate := some 5 }
    3 (.change { lastUpdate := some 5,
                 params := some ((Endpoint.Params.sensor 1 "inlet").withBounds 4 30) }))
    2 (.change { lastUpdate := some 6, params := some (.sensor 2 "meter"), minvalue := some 0,
                 maxvalue := some 9 }))
    7 (.change { lastUpdate := some 7, params := some (.actor 2 "valve") })))

theorem applyUpdate_elsewhere_inlets :
    (ofBounds .standard).SameContent (ofBounds (.ofFallback ⟨0, 1⟩)) ∧ inletPatch.Determined ∧
    ∃ t u, (ofBounds .standard).applyUpdate 10 inletPatch = .ok t ∧
      (ofBounds (.ofFallback ⟨0, 1⟩)).applyUpdate 99 inletPatch = .ok u ∧ t.SameContent u ∧
      (t.endpoint? "hall.3").bind (·.minvalue) = some 4 := by
  have hsame : (ofBounds .standard).SameContent (ofBounds (.ofFallback ⟨0, 1⟩)) := ⟨rfl, rfl⟩
  have hdetermined : inletPatch.Determined := by decide +kernel
  have hvalue : (((ofBounds .standard).applyUpdate 10 inletPatch).toOption.bind fun t =>
      (t.endpoint? "hall.3").bind (·.minvalue)) = some 4 := by decide +kernel
  rcases applyUpdate_elsewhere hsame hdetermined 10 99 with ⟨t, u, ht, hu, hcontent⟩ | ⟨e, he, -⟩
  · rw [ht] at hvalue
    exact ⟨hsame, hdetermined, t, u, ht, hu, hcontent, hvalue⟩
  · rw [he] at hvalue
    cases hvalue

end Tree

end Fleet
