import Fleet.Proofs.Applying

/-!
# Deletions are differences

A patch that is applied as a deletion is staged in one way for devices that are there and in another
for devices that are not, it may have headers and changes of endpoints in it, and its keys may spell
one number or one identifier in several ways. None of this matters for what it does, which is read
off the patch alone:

* a patch *deletes* a device, an endpoint or a view if it has a tombstone under a key that denotes
  it (`Patch.DeletesDevice`, `Patch.DeletesEndpoint`, `Patch.DeletesView`);
* a tree *without* what a patch deletes is the tree with all of it taken out and everything else as
  it was (`Tree.minus`);
* a patch is *readable* if each of its keys denotes something (`Patch.Readable`).

Every tree accepts the readable patches and no others, and it becomes the difference
(`Tree.applyDeletion_eq_ok_iff`). Differences can be taken twice and in any order
(`Tree.minus_minus_self`, `Tree.minus_comm`), and therefore so can deletions:
`Tree.applyDeletion_exact`. Nothing is assumed of the trees, not even that they are well-formed.
-/

namespace Fleet

open Patch (Entry DeviceChange EndpointChange ViewChange KeysRead)

/-! ### What a patch deletes -/

namespace Patch

/-- **A tombstone stands under a key** that denotes the thing. -/
def HasTombstone {κ γ : Type} (read : String → Option κ) (entries : List (String × Entry γ))
    (k : κ) : Prop :=
  ∃ p ∈ entries, p.2.isTombstone = true ∧ read p.1 = some k

instance {κ γ : Type} [DecidableEq κ] (read : String → Option κ)
    (entries : List (String × Entry γ)) (k : κ) : Decidable (HasTombstone read entries k) :=
  inferInstanceAs (Decidable (∃ p ∈ entries, p.2.isTombstone = true ∧ read p.1 = some k))

/-- The change of a device deletes the endpoint of a number. -/
def DeviceChange.Deletes (c : DeviceChange) (eid : Eid) : Prop :=
  HasTombstone Eid.ofText? c.endpoints.entries eid

instance (c : DeviceChange) (eid : Eid) : Decidable (c.Deletes eid) :=
  inferInstanceAs (Decidable (HasTombstone _ _ _))

/-- **The patch deletes the device** at an address. -/
def DeletesDevice (p : Patch) (ip : String) : Prop := p.devices.get? ip = some .tombstone

instance (p : Patch) (ip : String) : Decidable (p.DeletesDevice ip) :=
  inferInstanceAs (Decidable (_ = _))

/-- **The patch deletes the endpoint** at an address and a number, and not its device. -/
def DeletesEndpoint (p : Patch) (ip : String) (eid : Eid) : Prop :=
  ∃ c, p.devices.get? ip = some (.change c) ∧ c.Deletes eid

instance (p : Patch) (ip : String) (eid : Eid) : Decidable (p.DeletesEndpoint ip eid) :=
  match h : p.devices.get? ip with
  | some (.change c) => decidable_of_iff (c.Deletes eid) (by simp [DeletesEndpoint, h])
  | some .tombstone => .isFalse (by simp [DeletesEndpoint, h])
  | none => .isFalse (by simp [DeletesEndpoint, h])

/-- **The patch deletes the view** of an identifier. -/
def DeletesView (p : Patch) (id : Uuid) : Prop := HasTombstone Uuid.ofText? p.views.entries id

instance (p : Patch) (id : Uuid) : Decidable (p.DeletesView id) :=
  inferInstanceAs (Decidable (HasTombstone _ _ _))

/-- **Every key of the patch denotes something**: those of endpoints numbers, those of views
identifiers. -/
structure Readable (p : Patch) : Prop where
  endpoints : ∀ ip c, p.devices.get? ip = some (.change c) →
    KeysRead Eid.ofText? c.endpoints.entries
  views : KeysRead Uuid.ofText? p.views.entries

theorem hasTombstone_cons {κ γ : Type} {read : String → Option κ} {key : String} {e : Entry γ}
    {entries : List (String × Entry γ)} {k : κ} : HasTombstone read ((key, e) :: entries) k ↔
      (e.isTombstone = true ∧ read key = some k) ∨ HasTombstone read entries k := by
  simp only [HasTombstone, List.mem_cons, exists_eq_or_imp]

end Patch

/-! ### Endpoints of a device -/

namespace Device

variable {d : Device}

/-- The device without the endpoints of some numbers. -/
def withoutAll (d : Device) (gone : Eid → Prop) [DecidablePred gone] : Device :=
  { d with endpoints := d.endpoints.filter fun eid _ => ¬ gone eid }

theorem endpoint?_withoutAll (gone : Eid → Prop) [DecidablePred gone] (eid : Eid) :
    (d.withoutAll gone).endpoint? eid = if gone eid then none else d.endpoint? eid := by
  calc (d.withoutAll gone).endpoint? eid
    _ = (d.endpoint? eid).filter fun _ => ¬ gone eid := SortedMap.get?_filter
    _ = if gone eid then none else d.endpoint? eid := by
      by_cases h : gone eid <;> cases d.endpoint? eid <;> simp [h]

section

variable {gone gone' : Eid → Prop} [DecidablePred gone] [DecidablePred gone']

theorem withoutAll_congr (h : ∀ eid, gone eid ↔ gone' eid) :
    d.withoutAll gone = d.withoutAll gone' :=
  ext_endpoints rfl rfl fun eid => by simp only [endpoint?_withoutAll, h]

theorem withoutAll_eq_self (h : ∀ eid, ¬ gone eid) : d.withoutAll gone = d :=
  ext_endpoints rfl rfl fun eid => by rw [endpoint?_withoutAll, if_neg (h eid)]

theorem withoutAll_withoutAll : (d.withoutAll gone).withoutAll gone = d.withoutAll gone := by
  refine ext_endpoints rfl rfl fun eid => ?_
  rw [endpoint?_withoutAll, endpoint?_withoutAll]
  split <;> rfl

theorem withoutAll_comm :
    (d.withoutAll gone).withoutAll gone' = (d.withoutAll gone').withoutAll gone := by
  refine ext_endpoints rfl rfl fun eid => ?_
  simp only [endpoint?_withoutAll]
  split <;> split <;> rfl

end

/-- What is removed one after another is removed. -/
theorem foldl_without (eids : List Eid) (gone : Eid → Prop) [DecidablePred gone]
    (h : ∀ eid, eid ∈ eids ↔ gone eid) : eids.foldl without d = d.withoutAll gone := by
  have hendpoint : ∀ (eids : List Eid) (d : Device) (eid : Eid),
      (eids.foldl without d).endpoint? eid = if eid ∈ eids then none else d.endpoint? eid := by
    intro eids
    induction eids with
    | nil => exact fun d eid => rfl
    | cons l rest ih =>
      intro d eid
      rw [List.foldl_cons, ih, endpoint?_without]
      grind
  obtain ⟨haddress, hheader⟩ := frame_foldl_without (d := d) eids
  refine ext_endpoints haddress hheader fun eid => ?_
  simp only [hendpoint, endpoint?_withoutAll, h]

/-- **The tombstones of a change** are those of the endpoints that it deletes. -/
theorem tombstones_eq_ok {entries : List (String × Entry EndpointChange)} {eids : List Eid}
    (h : tombstones entries = .ok eids) (eid : Eid) :
    eid ∈ eids ↔ Patch.HasTombstone Eid.ofText? entries eid := by
  induction entries generalizing eids with
  | nil =>
    cases h
    exact ⟨fun hmem => (nomatch hmem), fun ⟨p, hp, _⟩ => (nomatch hp)⟩
  | cons p rest ih =>
    obtain ⟨key, e⟩ := p
    rw [tombstones, bind_eq_ok_iff] at h
    obtain ⟨k, hkey, h⟩ := h
    obtain ⟨later, hlater, h⟩ := bind_eq_ok_iff.mp h
    rw [requiredEid_eq_ok_iff] at hkey
    cases h
    rw [Patch.hasTombstone_cons, ← ih hlater, hkey, Option.some.injEq]
    cases e with
    | tombstone => simp [Entry.isTombstone, eq_comm]
    | change c => simp [Entry.isTombstone]

/-- **A change that is applied as a deletion** has keys that can be read, and takes out what it
deletes. -/
theorem prune_eq (d : Device) {c : DeviceChange} (hc : KeysRead Eid.ofText? c.endpoints.entries) :
    d.prune c = .ok (d.withoutAll c.Deletes) := by
  obtain ⟨eids, heids⟩ := tombstones_ok hc
  rw [prune, heids]
  exact congrArg Except.ok (foldl_without eids c.Deletes (tombstones_eq_ok heids))

end Device

/-! ### Trees without what is deleted -/

namespace Tree

variable {t u : Tree} {p q : Patch}

/-- **The tree without what a patch deletes**: its devices apart from those that the patch deletes,
each without the endpoints that the patch deletes, and its views apart from those that the patch
deletes. -/
def minus (t : Tree) (p : Patch) : Tree where
  devices := (t.devices.filter fun ip _ => ¬ p.DeletesDevice ip).mapValues fun ip d =>
    d.withoutAll (p.DeletesEndpoint ip)
  views := t.views.filter fun id _ => ¬ p.DeletesView id
  bounds := t.bounds

theorem device?_minus (ip : String) : (t.minus p).device? ip =
    if p.DeletesDevice ip then none
    else (t.device? ip).map fun d => d.withoutAll (p.DeletesEndpoint ip) := by
  calc (t.minus p).device? ip
    _ = ((t.device? ip).filter fun _ => ¬ p.DeletesDevice ip).map fun d =>
        d.withoutAll (p.DeletesEndpoint ip) :=
      SortedMap.get?_mapValues.trans (congrArg _ SortedMap.get?_filter)
    _ = _ := by by_cases h : p.DeletesDevice ip <;> cases t.device? ip <;> simp [h]

theorem view?_minus (id : Uuid) :
    (t.minus p).view? id = if p.DeletesView id then none else t.view? id := by
  calc (t.minus p).view? id
    _ = (t.view? id).filter fun _ => ¬ p.DeletesView id := SortedMap.get?_filter
    _ = _ := by by_cases h : p.DeletesView id <;> cases t.view? id <;> simp [h]

/-- A device without an entry in the patch stays as it is. -/
theorem device?_minus_of_none {ip : String} (h : p.devices.get? ip = none) :
    (t.minus p).device? ip = t.device? ip := by
  have hdevice : ¬ p.DeletesDevice ip := by simp [Patch.DeletesDevice, h]
  have hendpoint : ∀ eid, ¬ p.DeletesEndpoint ip eid := by simp [Patch.DeletesEndpoint, h]
  rw [device?_minus, if_neg hdevice]
  simp only [Device.withoutAll_eq_self hendpoint, Option.map_id']

/-- Of a device with a change in the patch the change says what is left. -/
theorem device?_minus_of_change {ip : String} {c : DeviceChange}
    (h : p.devices.get? ip = some (.change c)) :
    (t.minus p).device? ip = (t.device? ip).map fun d => d.withoutAll c.Deletes := by
  have hdevice : ¬ p.DeletesDevice ip := by simp [Patch.DeletesDevice, h]
  have hendpoint : ∀ eid, p.DeletesEndpoint ip eid ↔ c.Deletes eid := by
    simp [Patch.DeletesEndpoint, h]
  rw [device?_minus, if_neg hdevice]
  simp only [Device.withoutAll_congr hendpoint]

/-- **What was taken out is not taken out again.** -/
theorem minus_minus_self (t : Tree) (p : Patch) : (t.minus p).minus p = t.minus p := by
  refine ext_parts rfl (fun ip => ?_) fun id => ?_
  · rw [device?_minus, device?_minus]
    split
    · rfl
    · simp only [Option.map_map, Function.comp_def, Device.withoutAll_withoutAll]
  · rw [view?_minus, view?_minus]
    split <;> rfl

/-- **It does not matter what is taken out first.** -/
theorem minus_comm (t : Tree) (p q : Patch) : (t.minus p).minus q = (t.minus q).minus p := by
  refine ext_parts rfl (fun ip => ?_) fun id => ?_
  · simp only [device?_minus]
    split <;> split <;> try rfl
    -- neither patch deletes the device
    rw [Option.map_map, Option.map_map]
    exact congrArg (Option.map · (t.device? ip)) (funext fun d => Device.withoutAll_comm)
  · simp only [view?_minus]
    split <;> split <;> rfl

/-! ### Deletions -/

/-- What the entry of a device comes down to is what is left of the device. -/
theorem pruneDevice_spec (hp : p.Readable) {ip : String} {e : Entry DeviceChange}
    (he : p.devices.get? ip = some e) : ∃ o, t.pruneDevice (ip, e) = .ok o ∧
      outcome o (t.device? ip) = (t.minus p).device? ip := by
  cases e with
  | tombstone =>
    have hdeletes : p.DeletesDevice ip := he
    refine ⟨some (ip, .remove), rfl, ?_⟩
    rw [device?_minus, if_pos hdeletes]
    rfl
  | change c =>
    have hread := hp.endpoints ip c he
    rw [device?_minus_of_change he]
    cases hd : t.device? ip with
    | some d =>
      refine ⟨some (ip, .put (d.withoutAll c.Deletes)), ?_, rfl⟩
      simp only [pruneDevice, hd, Device.prune_eq d hread]
      rfl
    -- nothing is there to be changed, and the keys can be read
    | none =>
      obtain ⟨eids, heids⟩ := Device.tombstones_ok hread
      refine ⟨none, ?_, rfl⟩
      simp only [pruneDevice, hd, heids]
      rfl

/-- An entry of a device that comes down to something has keys that can be read. -/
theorem keysRead_of_pruneDevice {ip : String} {c : DeviceChange} {o : Option (String × Step Device)}
    (h : t.pruneDevice (ip, .change c) = .ok o) : KeysRead Eid.ofText? c.endpoints.entries := by
  have hread : ∀ eids, Device.tombstones c.endpoints.entries = .ok eids →
      KeysRead Eid.ofText? c.endpoints.entries :=
    fun eids heids => (Device.tombstones_spec .standard 0 ip heids).1
  simp only [pruneDevice] at h
  split at h
  · obtain ⟨d', hd', -⟩ := map_eq_ok_iff.mp h
    obtain ⟨eids, heids, -⟩ := map_eq_ok_iff.mp hd'
    exact hread eids heids
  · obtain ⟨eids, heids, -⟩ := map_eq_ok_iff.mp h
    exact hread eids heids

/-- **The steps of the entries of views** remove those that have a tombstone. -/
theorem get?_foldl_pruneView {entries : List (String × Entry ViewChange)}
    {steps : List (Uuid × Step View)} (h : stageAll pruneView entries = .ok steps)
    (m : SortedMap Uuid View) (id : Uuid) : (steps.foldl Step.run m).get? id =
      if Patch.HasTombstone Uuid.ofText? entries id then none else m.get? id := by
  induction entries generalizing steps m with
  | nil =>
    cases h
    exact (if_neg fun ⟨p, hp, _⟩ => nomatch hp).symm
  | cons p rest ih =>
    obtain ⟨key, e⟩ := p
    obtain ⟨o, ho, h⟩ := bind_eq_ok_iff.mp h
    obtain ⟨later, hlater, h⟩ := bind_eq_ok_iff.mp h
    obtain ⟨k, hkey, rfl⟩ := map_eq_ok_iff.mp ho
    rw [View.requiredId_eq_ok_iff] at hkey
    cases h
    rw [List.foldl_append, ih hlater]
    cases e with
    | change c => simp [Entry.isTombstone, Patch.hasTombstone_cons]
    | tombstone =>
      have herase : ([(k, Step.remove)].foldl Step.run m).get? id =
          if id = k then none else m.get? id := SortedMap.get?_erase
      simp only [Entry.isTombstone, if_true, Option.toList_some, herase,
        Patch.hasTombstone_cons, hkey, Option.some.injEq, true_and]
      grind

/-- **Staging a deletion** succeeds exactly if the patch is readable. -/
theorem exists_stageDeletion_iff : (∃ s, t.stageDeletion p = .ok s) ↔ p.Readable := by
  constructor
  · rintro ⟨s, hs⟩
    obtain ⟨devices, hdevices, hs⟩ := bind_eq_ok_iff.mp hs
    obtain ⟨views, hviews, -⟩ := bind_eq_ok_iff.mp hs
    refine ⟨fun ip c hc => ?_, fun q hq => ?_⟩
    · obtain ⟨o, ho⟩ := exists_of_stageAll hdevices _ (SortedMap.get?_eq_some_iff.mp hc)
      exact keysRead_of_pruneDevice ho
    · obtain ⟨o, ho⟩ := exists_of_stageAll hviews q hq
      obtain ⟨id, hid, -⟩ := map_eq_ok_iff.mp ho
      exact ⟨id, View.requiredId_eq_ok_iff.mp hid⟩
  · intro hp
    obtain ⟨devices, hdevices⟩ : ∃ devices,
        stageAll t.pruneDevice p.devices.entries = .ok devices := by
      refine stageAll_ok fun ⟨ip, e⟩ hq => ?_
      obtain ⟨o, ho, -⟩ := pruneDevice_spec (t := t) hp (SortedMap.get?_eq_some_iff.mpr hq)
      exact ⟨o, ho⟩
    obtain ⟨views, hviews⟩ : ∃ views, stageAll pruneView p.views.entries = .ok views := by
      refine stageAll_ok fun q hq => ?_
      obtain ⟨id, hid⟩ := hp.views q hq
      exact ⟨_, map_eq_ok_iff.mpr ⟨id, View.requiredId_eq_ok_iff.mpr hid, rfl⟩⟩
    refine ⟨⟨devices, views⟩, ?_⟩
    rw [stageDeletion, hdevices, ok_bind, hviews, ok_bind]

/-- The entry of a device comes down to a step on that device. -/
theorem address_of_pruneDevice {q : String × Entry DeviceChange}
    {o : Option (String × Step Device)} (h : t.pruneDevice q = .ok o) :
    ∀ r, o = some r → r.1 = q.1 := by
  obtain ⟨ip, e⟩ := q
  rintro r rfl
  cases e with
  | tombstone =>
    cases h
    rfl
  | change c =>
    simp only [pruneDevice] at h
    split at h
    · obtain ⟨d, -, hr⟩ := map_eq_ok_iff.mp h
      cases hr
      rfl
    · obtain ⟨eids, -, hr⟩ := map_eq_ok_iff.mp h
      cases hr

/-- **Committing a deletion** takes out what the patch deletes. -/
theorem commit_of_stageDeletion {s : Staged} (hs : t.stageDeletion p = .ok s) :
    t.commit s = t.minus p := by
  have hp : p.Readable := exists_stageDeletion_iff.mp ⟨s, hs⟩
  obtain ⟨devices, hdevices, hs⟩ := bind_eq_ok_iff.mp hs
  obtain ⟨views, hviews, hs⟩ := bind_eq_ok_iff.mp hs
  cases hs
  obtain ⟨hother, hown⟩ := get?_foldl_devices (fun _ _ => address_of_pruneDevice)
    (SortedMap.nodup_keys p.devices) hdevices t.devices
  refine ext_parts rfl (fun ip => ?_) fun id => ?_
  · cases he : p.devices.get? ip with
    | none =>
      have hnone : ip ∉ p.devices.entries.map Prod.fst := fun hmem => by
        obtain ⟨e, hsome⟩ := SortedMap.mem_keys_iff.mp hmem
        cases he.symm.trans hsome
      rw [device?_minus_of_none he]
      exact hother ip hnone
    | some e =>
      obtain ⟨o, ho, houtcome⟩ := pruneDevice_spec (t := t) hp he
      rw [← houtcome]
      exact hown ip e o (SortedMap.get?_eq_some_iff.mp he) ho
  · rw [view?_minus]
    exact get?_foldl_pruneView hviews t.views id

/-- **A deletion gives the difference**, and is refused only if the patch is not readable. -/
theorem applyDeletion_eq_ok_iff : t.applyDeletion p = .ok u ↔ p.Readable ∧ u = t.minus p := by
  unfold applyDeletion
  rw [map_eq_ok_iff]
  constructor
  · rintro ⟨s, hs, rfl⟩
    exact ⟨exists_stageDeletion_iff.mp ⟨s, hs⟩, commit_of_stageDeletion hs⟩
  · rintro ⟨hp, rfl⟩
    obtain ⟨s, hs⟩ := exists_stageDeletion_iff.mpr hp
    exact ⟨s, hs, commit_of_stageDeletion hs⟩

/-- **Deletions are set differences.** Whether a patch is accepted as a deletion depends on the
patch alone, and what comes of it is the tree without what the patch deletes, everything else being
as it was. Hence a deletion that is applied twice does what it does once, and deletions may be
applied in any order. -/
theorem applyDeletion_exact (p : Patch) :
    (∀ t u : Tree, t.applyDeletion p = .ok u ↔ p.Readable ∧ u = t.minus p) ∧
    (p.Readable → ∀ t : Tree, ∃ u, t.applyDeletion p = .ok u ∧ u.applyDeletion p = .ok u) ∧
    ∀ q : Patch, p.Readable → q.Readable → ∀ t : Tree, ∃ a b u,
      t.applyDeletion p = .ok a ∧ a.applyDeletion q = .ok u ∧
      t.applyDeletion q = .ok b ∧ b.applyDeletion p = .ok u := by
  have hdelete : ∀ {p : Patch}, p.Readable → ∀ t : Tree, t.applyDeletion p = .ok (t.minus p) :=
    fun hp t => applyDeletion_eq_ok_iff.mpr ⟨hp, rfl⟩
  refine ⟨fun t u => applyDeletion_eq_ok_iff, fun hp t => ?_, fun q hp hq t => ?_⟩
  · have hagain : (t.minus p).applyDeletion p = .ok ((t.minus p).minus p) := hdelete hp _
    rw [minus_minus_self] at hagain
    exact ⟨t.minus p, hdelete hp t, hagain⟩
  · have hlast : (t.minus q).applyDeletion p = .ok ((t.minus q).minus p) := hdelete hp _
    rw [← minus_comm] at hlast
    exact ⟨_, _, _, hdelete hp t, hdelete hq _, hdelete hq t, hlast⟩

/-- A cellar with a lamp and a meter, the stairs, and a view of both endpoints. -/
def cellarTree : Tree where
  devices := .ofList [
    ("cellar", ⟨"cellar", "Cellar", 5, .ofList [
      (7, ⟨"cellar", 7, 2, "lamp", .zero, 5, .actor⟩),
      (9, ⟨"cellar", 9, 3, "meter", .zero, 5, .infrastructure⟩)]⟩),
    ("stairs", ⟨"stairs", "Stairs", 4, ∅⟩)]
  views := .singleton ⟨0xAB⟩ ⟨⟨0xAB⟩, "All", ["cellar.7", "cellar.9"]⟩

/-- The lamp, the view and a device that does not exist are deleted. A name and a change of the
meter stand beside them. -/
def lampDeletion : Patch where
  devices := .ofList [
    ("attic", .tombstone),
    ("cellar", .change { name := some "Vault", endpoints := .ofList [
      ("+07", .tombstone), ("9", .change { lastUpdate := some 8 })] })]
  views := .ofList [("00000000-0000-0000-0000-0000000000AB", .tombstone)]

/-- The stairs and the meter are deleted. -/
def stairsDeletion : Patch where
  devices := .ofList [
    ("cellar", .change { endpoints := .ofList [(" 9", .tombstone)] }), ("stairs", .tombstone)]

theorem applyDeletion_exact_cellar : lampDeletion.Readable ∧ stairsDeletion.Readable ∧
    (∃ u, cellarTree.applyDeletion lampDeletion = .ok u ∧ u.applyDeletion lampDeletion = .ok u ∧
      u.header? "cellar" = some ⟨"Cellar", 5⟩ ∧ u.endpointAt? "cellar" 7 = none) ∧
    ∃ a b u, cellarTree.applyDeletion lampDeletion = .ok a ∧
      a.applyDeletion stairsDeletion = .ok u ∧ cellarTree.applyDeletion stairsDeletion = .ok b ∧
      b.applyDeletion lampDeletion = .ok u := by
  have hlamp : cellarTree.applyDeletion lampDeletion = .ok (cellarTree.minus lampDeletion) :=
    toOption_eq_some_iff.mp (by decide +kernel)
  have hstairs : cellarTree.applyDeletion stairsDeletion = .ok (cellarTree.minus stairsDeletion) :=
    toOption_eq_some_iff.mp (by decide +kernel)
  obtain ⟨haccepted, hagain, hswap⟩ := applyDeletion_exact lampDeletion
  have hp : lampDeletion.Readable := ((haccepted _ _).mp hlamp).1
  have hq : stairsDeletion.Readable := (((applyDeletion_exact stairsDeletion).1 _ _).mp hstairs).1
  obtain ⟨u, hu, huu⟩ := hagain hp cellarTree
  cases hlamp.symm.trans hu
  exact ⟨hp, hq, ⟨_, hlamp, huu, by decide +kernel, by decide +kernel⟩, hswap _ hp hq cellarTree⟩

end Tree

end Fleet
