import Fleet.Proofs.Meaning
import Mathlib.Data.List.Dedup

/-!
# What a restored tree holds

A snapshot lists its records under texts, and a number or an identifier has several spellings, so
the texts may denote less than there are records. This module says which snapshots can be restored
(`Snapshot.Acceptable`) and what is then found of each record.

* Every record of a device is there with all its endpoints: the number of devices, and that of the
  endpoints in each of them, is the number of the records (`Snapshot.DevicesKept`). Two records of
  one endpoint are refused together with the whole snapshot.
* Two records of one view are not refused. The last of them, in the order of the keys, decides
  (`Snapshot.Decides`), and there are as many views as the keys denote. So all records of views are
  there (`Snapshot.ViewsKept`) exactly if the keys denote different ones (`Snapshot.ViewsDiffer`).

The three counts are one count (`SortedMap.size_eq_length_denoted`): a map whose keys are what some
texts denote has as many entries as there are different things among them.
-/

namespace Fleet

open Patch (KeysRead KeysDiffer keysRead_iff keysDiffer_iff)
open Endpoint (Params)

/-! ### Counting what keys denote -/

section

variable {κ α γ : Type} [DecidableEq κ] {read : String → Option κ} {entries : List (String × γ)}

/-- **What the keys denote**, each once. -/
def denoted (read : String → Option κ) (entries : List (String × γ)) : List κ :=
  (entries.filterMap fun p => read p.1).dedup

theorem mem_denoted_iff {k : κ} :
    k ∈ denoted read entries ↔ ∃ p ∈ entries, read p.1 = some k := by
  rw [denoted, List.mem_dedup, List.mem_filterMap]

/-- **There are as many things as keys** exactly if the keys denote different ones. -/
theorem length_denoted_iff (hread : KeysRead read entries) :
    (denoted read entries).length = entries.length ↔ KeysDiffer read entries := by
  have hall : (entries.filterMap fun p => read p.1).length = entries.length :=
    List.filterMap_length_eq_length.mpr fun p hp => Option.isSome_iff_exists.mpr (hread p hp)
  have hdiffer : KeysDiffer read entries ↔ (entries.filterMap fun p => read p.1).Nodup := by
    rw [List.Nodup, List.pairwise_filterMap]
    refine List.Pairwise.iff fun p q => ?_
    constructor
    · rintro h k hk _ hk' rfl
      exact h k hk hk'
    · exact fun h k hk hk' => h k hk k hk' rfl
  rw [hdiffer, denoted, ← hall, (List.dedup_sublist _).length_eq, List.dedup_eq_self]

/-- **A map whose keys are what texts denote** has as many entries as they denote things. -/
theorem SortedMap.size_eq_length_denoted [Ord κ] [Std.TransOrd κ] {m : SortedMap κ α}
    (h : ∀ k, (∃ a, m.get? k = some a) ↔ ∃ p ∈ entries, read p.1 = some k) :
    m.size = (denoted read entries).length := by
  have hperm : m.keys.Perm (denoted read entries) := by
    have hnodup : (denoted read entries).Nodup := List.nodup_dedup _
    refine (List.perm_ext_iff_of_nodup m.nodup_keys hnodup).mpr fun k => ?_
    rw [mem_keys_iff, h, mem_denoted_iff]
  rw [← hperm.length_eq, keys, List.length_map, size]

end

/-! ### Endpoints -/

namespace EndpointRecord

/-- **The endpoint is the one that the record describes**, in every field. -/
structure Describes (r : EndpointRecord) (table : BoundsTable) (ip : String) (eid : Eid)
    (e : Endpoint) : Prop where
  address : e.ip = ip
  number : e.eid = eid
  typed : Params.Denotes e.typeCode.toNat r.typeCode.json
  functional : r.function = e.function.name
  description : e.description = r.description
  lastValue : e.lastValue = r.lastValue
  lastUpdate : e.lastUpdate = r.lastUpdate
  sensor : ∀ s, e.role = .sensor s → r.params.Bounded table eid s.bounds ∧ s.unit = r.unit

variable {r : EndpointRecord} {table : BoundsTable} {ip : String} {eid : Eid} {e : Endpoint}

theorem toEndpoint_eq_ok_iff :
    r.toEndpoint table ip eid = .ok e ↔ ip ≠ "" ∧ r.Describes table ip eid e := by
  have hrole : ∀ role : Role, role.update { lastValue := some r.lastValue } = role := by
    intro role
    cases role <;> rfl
  rw [toEndpoint, map_eq_ok_iff]
  simp only [Endpoint.create_eq_ok_iff, Endpoint.update, hrole]
  constructor
  · rintro ⟨e', ⟨hip, h⟩, rfl⟩
    obtain ⟨raw, hraw, htyped⟩ := h.typed
    cases hraw
    exact ⟨hip, h.address, h.number, htyped, Option.some.inj h.functional, h.description, rfl,
      h.lastUpdate, h.sensor⟩
  · rintro ⟨hip, h⟩
    refine ⟨{ e with lastValue := .zero }, ⟨hip, h.address, h.number, ⟨_, rfl, h.typed⟩,
      congrArg some h.functional, h.description, rfl, h.lastUpdate, h.sensor⟩, ?_⟩
    rw [← h.lastValue]
    rfl

theorem exists_toEndpoint_iff :
    (∃ e, r.toEndpoint table ip eid = .ok e) ↔ ip ≠ "" ∧ r.params.Complete := by
  have hcreate : (∃ e, r.toEndpoint table ip eid = .ok e) ↔
      ∃ e, Endpoint.create table r.lastUpdate ip eid r.params = .ok e := by
    simp only [toEndpoint, map_eq_ok_iff]
    constructor
    · rintro ⟨-, e, he, -⟩
      exact ⟨e, he⟩
    · rintro ⟨e, he⟩
      exact ⟨_, e, he, rfl⟩
  exact hcreate.trans Endpoint.exists_create_iff

end EndpointRecord

/-! ### Devices -/

namespace DeviceRecord

/-- **The record of a device can be restored**: the keys of its endpoints denote different numbers,
and each of these has a type and a function. -/
structure Acceptable (r : DeviceRecord) (ip : String) : Prop where
  address : ip ≠ ""
  read : ∀ key ∈ r.endpoints.keys, ∃ eid, Eid.ofText? key = some eid
  differ : ∀ key ∈ r.endpoints.keys, ∀ key' ∈ r.endpoints.keys, ∀ eid,
    Eid.ofText? key = some eid → Eid.ofText? key' = some eid → key = key'
  complete : ∀ key er, r.endpoints.get? key = some er → er.params.Complete

/-- **The device is the one that the record describes**: every record of an endpoint is found in it
under its number, and it has no other endpoints. -/
structure Describes (r : DeviceRecord) (table : BoundsTable) (ip : String) (d : Device) :
    Prop where
  address : d.ip = ip
  name : d.name = r.name
  lastUpdate : d.lastUpdate = r.lastUpdate
  count : d.endpoints.size = r.endpoints.size
  endpoints : ∀ key er, r.endpoints.get? key = some er → ∃ eid e, Eid.ofText? key = some eid ∧
    d.endpoint? eid = some e ∧ er.Describes table ip eid e

variable {r : DeviceRecord} {table : BoundsTable} {ip : String} {d : Device}

theorem exists_toDevice_iff : (∃ d, r.toDevice table ip = .ok d) ↔ r.Acceptable ip := by
  constructor
  · rintro ⟨d, hd⟩
    obtain ⟨hip, h⟩ := inserted_of_toDevice hd
    refine ⟨hip, keysRead_iff.mp h.read, keysDiffer_iff.mp h.differ, fun key er her => ?_⟩
    have hmem := SortedMap.get?_eq_some_iff.mp her
    obtain ⟨eid, hkey⟩ := h.read _ hmem
    obtain ⟨e, -, hto⟩ := h.described _ hmem eid hkey
    exact (EndpointRecord.exists_toEndpoint_iff.mp ⟨e, hto⟩).2
  · intro h
    have hread : ∀ p ∈ r.endpoints.entries, ∃ eid e, Eid.ofText? p.1 = some eid ∧
        p.2.toEndpoint table ip eid = .ok e := by
      intro p hp
      obtain ⟨eid, hkey⟩ := keysRead_iff.mpr h.read p hp
      have hcomplete := h.complete p.1 p.2 (SortedMap.get?_eq_some_iff.mpr hp)
      have hto : ∃ e, p.2.toEndpoint table ip eid = .ok e :=
        EndpointRecord.exists_toEndpoint_iff.mpr ⟨h.address, hcomplete⟩
      obtain ⟨e, he⟩ := hto
      exact ⟨eid, e, hkey, he⟩
    obtain ⟨d, hd⟩ := exists_insertAll (d := ⟨ip, r.name, r.lastUpdate, ∅⟩) rfl hread
      (keysDiffer_iff.mpr h.differ) fun _ _ _ _ => rfl
    refine ⟨d, ?_⟩
    rw [toDevice, Device.create_eq_ok_iff.mpr ⟨h.address, rfl⟩, ok_bind]
    exact hd

/-- **What a record is restored to** it describes. -/
theorem describes_of_toDevice (h : r.toDevice table ip = .ok d) : r.Describes table ip d := by
  obtain ⟨-, hinserted⟩ := inserted_of_toDevice h
  obtain ⟨hname, htime⟩ := Header.mk.inj hinserted.header
  refine ⟨hinserted.address, hname, htime, ?_, fun key er her => ?_⟩
  -- the keys denote different numbers, and these are the numbers of the endpoints
  · have hcount := (length_denoted_iff hinserted.read).mpr hinserted.differ
    refine (SortedMap.size_eq_length_denoted fun eid => ?_).trans hcount
    constructor
    · rintro ⟨e, he⟩
      obtain ⟨p, hp, hkey, -⟩ := exists_record h he
      exact ⟨p, hp, hkey⟩
    · rintro ⟨p, hp, hkey⟩
      obtain ⟨e, he, -⟩ := hinserted.described p hp eid hkey
      exact ⟨e, he⟩
  · have hmem := SortedMap.get?_eq_some_iff.mp her
    obtain ⟨eid, hkey⟩ := hinserted.read _ hmem
    obtain ⟨e, he, hto⟩ := hinserted.described _ hmem eid hkey
    exact ⟨eid, e, hkey, he, (EndpointRecord.toEndpoint_eq_ok_iff.mp hto).2⟩

end DeviceRecord

/-! ### Snapshots -/

namespace Snapshot

/-- **The snapshot can be restored**: each record of a device can be, and every key of a view is an
identifier. -/
structure Acceptable (s : Snapshot) : Prop where
  devices : ∀ ip r, s.devices.get? ip = some r → r.Acceptable ip
  views : ∀ key ∈ s.views.keys, ∃ id, Uuid.ofText? key = some id

/-- **The tree holds every record of a device** and no other devices. -/
structure DevicesKept (s : Snapshot) (u : Tree) : Prop where
  count : u.devices.size = s.devices.size
  devices : ∀ ip r, s.devices.get? ip = some r →
    ∃ d, u.device? ip = some d ∧ r.Describes u.bounds ip d

/-- **The tree holds every record of a view** and no other views. -/
structure ViewsKept (s : Snapshot) (u : Tree) : Prop where
  count : u.views.size = s.views.size
  views : ∀ key r, s.views.get? key = some r →
    ∃ id, Uuid.ofText? key = some id ∧ u.view? id = some ⟨id, r.name, r.references⟩

/-- **No two keys denote one view.** -/
def ViewsDiffer (s : Snapshot) : Prop :=
  ∀ key ∈ s.views.keys, ∀ key' ∈ s.views.keys, ∀ id,
    Uuid.ofText? key = some id → Uuid.ofText? key' = some id → key = key'

/-- The identifiers that the keys of the views denote, each once. -/
def viewIds (s : Snapshot) : List Uuid := denoted Uuid.ofText? s.views.entries

end Snapshot

/-! ### Trees -/

namespace Tree

variable {t u : Tree} {s : Snapshot}

theorem exists_restore_iff_acceptable : (∃ u, t.restore s = .ok u) ↔ s.Acceptable := by
  rw [exists_restore_iff, keysRead_iff]
  simp only [DeviceRecord.exists_toDevice_iff]
  exact ⟨fun h => ⟨h.1, h.2⟩, fun h => ⟨h.devices, h.views⟩⟩

/-- **All records of devices** are in the tree that was restored. -/
theorem devicesKept_of_restore (h : t.restore s = .ok u) : s.DevicesKept u := by
  have hrecords := (exists_restore_iff.mp ⟨u, h⟩).1
  refine ⟨?_, fun ip r hr => ?_⟩
  -- an address denotes itself
  · have hread : KeysRead some s.devices.entries := fun p _ => ⟨p.1, rfl⟩
    have hdiffer : KeysDiffer some s.devices.entries := keysDiffer_iff.mpr
      fun _ _ _ _ _ hkey hkey' => Option.some.inj (hkey.trans hkey'.symm)
    have hcount := (length_denoted_iff hread).mpr hdiffer
    refine (SortedMap.size_eq_length_denoted fun ip => ?_).trans hcount
    constructor
    · rintro ⟨d, hd⟩
      obtain ⟨r, hr, -⟩ := (device?_restore h).mp hd
      exact ⟨(ip, r), SortedMap.get?_eq_some_iff.mp hr, rfl⟩
    · rintro ⟨⟨ip', r⟩, hp, hip⟩
      cases hip
      have hr := SortedMap.get?_eq_some_iff.mpr hp
      obtain ⟨d, hd⟩ := hrecords ip' r hr
      exact ⟨d, (device?_restore h).mpr ⟨r, hr, hd⟩⟩
  · obtain ⟨d, hd⟩ := hrecords ip r hr
    refine ⟨d, (device?_restore h).mpr ⟨r, hr, hd⟩, ?_⟩
    rw [bounds_restore h]
    exact DeviceRecord.describes_of_toDevice hd

/-- **There are as many views** in the tree that was restored as the keys denote. -/
theorem size_views_restore (h : t.restore s = .ok u) : u.views.size = s.viewIds.length := by
  refine SortedMap.size_eq_length_denoted fun id => ?_
  constructor
  · rintro ⟨v, hv⟩
    obtain ⟨r, hr, -⟩ := (view?_restore h).mp hv
    obtain ⟨key, hkey, hr⟩ := hr.exists_key
    exact ⟨(key, r), SortedMap.get?_eq_some_iff.mp hr, hkey⟩
  · intro hnamed
    obtain ⟨r, hr⟩ := Snapshot.exists_decides hnamed
    exact ⟨_, (view?_restore h).mpr ⟨r, hr, rfl⟩⟩

/-- **All records of views** are in the tree that was restored exactly if their keys denote
different ones. -/
theorem viewsKept_iff_of_restore (h : t.restore s = .ok u) : s.ViewsKept u ↔ s.ViewsDiffer := by
  have hread := (exists_restore_iff.mp ⟨u, h⟩).2
  have hcount : u.views.size = s.views.size ↔ KeysDiffer Uuid.ofText? s.views.entries :=
    size_views_restore h ▸ length_denoted_iff hread
  constructor
  · exact fun hkept => keysDiffer_iff.mp (hcount.mp hkept.count)
  · intro hdiffer
    have hdiffer := keysDiffer_iff.mpr hdiffer
    refine ⟨hcount.mpr hdiffer, fun key r hr => ?_⟩
    obtain ⟨id, hkey⟩ := hread _ (SortedMap.get?_eq_some_iff.mp hr)
    have hdecides : s.Decides id r := (Snapshot.decides_iff hdiffer).mpr ⟨key, hkey, hr⟩
    exact ⟨id, hkey, (view?_restore h).mpr ⟨r, hdecides, rfl⟩⟩

/-- **The exact contents of a restored tree.** The snapshots that can be restored are those that are
acceptable, whatever the tree is that is replaced. Then every record of a device is in the tree with
all its endpoints. The views are those that the deciding records describe, so that every record of a
view is in the tree too exactly if no two keys denote one view. -/
theorem restore_exact (t : Tree) (s : Snapshot) :
    ((∃ u, t.restore s = .ok u) ↔ s.Acceptable) ∧
    ∀ u, t.restore s = .ok u → u.bounds = t.bounds ∧ s.DevicesKept u ∧
      (s.ViewsKept u ↔ s.ViewsDiffer) ∧ u.views.size = s.viewIds.length ∧
      ∀ id v, u.view? id = some v ↔ ∃ r, s.Decides id r ∧ View.mk id r.name r.references = v :=
  ⟨exists_restore_iff_acceptable, fun _ h => ⟨bounds_restore h, devicesKept_of_restore h,
    viewsKept_iff_of_restore h, size_views_restore h, fun _ _ => view?_restore h⟩⟩

/-- The record of a lamp, whose type is a text. -/
def lampRecord : EndpointRecord where
  typeCode := .string " +2"
  function := "actor"
  description := "lamp"
  lastValue := .zero
  lastUpdate := 4
  minvalue := none
  maxvalue := none
  unit := none

/-- Two lamps in the hall under numbers with a sign and blanks, and a view in capitals. -/
def hallRecords : Snapshot where
  devices := .ofList [("hall", ⟨"Hall", 5, .ofList [(" +07", lampRecord), ("9 ", lampRecord)]⟩)]
  views := .ofList [("000000AB-0000-0000-0000-000000000000", ⟨"All", ["hall.7", "hall.9"]⟩)]

theorem restore_exact_hall : ∃ u, lampTree.restore hallRecords = .ok u ∧
    hallRecords.Acceptable ∧ hallRecords.DevicesKept u ∧ hallRecords.ViewsKept u ∧
    (u.endpointAt? "hall" 7).map (·.description) = some "lamp" ∧ u.views.size = 1 := by
  have hlamp : (lampTree.restore hallRecords).toOption.map
      (fun u => (u.endpointAt? "hall" 7).map (·.description)) = some (some "lamp") := by
    decide +kernel
  obtain ⟨u, hu, hlamp⟩ := Option.map_eq_some_iff.mp hlamp
  have hu := toOption_eq_some_iff.mp hu
  have hkeys : hallRecords.views.keys = ["000000AB-0000-0000-0000-000000000000"] := rfl
  have hdiffer : hallRecords.ViewsDiffer := by
    intro key hkey key' hkey' _ _ _
    rw [hkeys] at hkey hkey'
    exact (List.mem_singleton.mp hkey).trans (List.mem_singleton.mp hkey').symm
  obtain ⟨hiff, hall⟩ := restore_exact lampTree hallRecords
  obtain ⟨-, hdevices, hviews, -, -⟩ := hall u hu
  have hkept := hviews.mpr hdiffer
  exact ⟨u, hu, hiff.mp ⟨u, hu⟩, hdevices, hkept, hlamp, hkept.count⟩

/-- A view is listed under either spelling of its identifier. -/
def twiceListed : Snapshot where
  views := .ofList [
    ("000000AB-0000-0000-0000-000000000000", ⟨"Old", []⟩),
    ("000000ab-0000-0000-0000-000000000000", ⟨"All", ["hall.7"]⟩)]

/-- **A record may be lost**: of two records of one view, one is not in the tree. -/
theorem restore_loses_record : ∃ u, (ofBounds .standard).restore twiceListed = .ok u ∧
    twiceListed.views.size = 2 ∧ u.views.size = 1 ∧ ¬ twiceListed.ViewsKept u := by
  have hsize : ((ofBounds .standard).restore twiceListed).toOption.map (·.views.size) = some 1 := by
    decide +kernel
  obtain ⟨u, hu, hsize⟩ := Option.map_eq_some_iff.mp hsize
  have htwo : twiceListed.views.size = 2 := by decide +kernel
  refine ⟨u, toOption_eq_some_iff.mp hu, htwo, hsize, fun hkept => ?_⟩
  have hcount := hkept.count
  rw [hsize, htwo] at hcount
  cases hcount

end Tree

end Fleet
