import Fleet.Proofs.Commands

/-!
# Snapshots are complete

A snapshot holds everything about a tree but its table of bounds: restoring it gives the tree that
it was taken of, with the table of whoever restores it (`Tree.restore_snapshot`). So two well-formed
trees have the same snapshot exactly if they are the same up to the table
(`Tree.snapshot_eq_iff`).

Restoring goes through records under texts, in the order of these texts, which is not that of the
numbers and identifiers that they spell. Each of the loops below is therefore described by what it
leaves at every key (`DeviceRecord.Inserted`, `Tree.device?_restore`,
`Tree.view?_restore`).

What is restored is well-formed whatever the snapshot is, which completes the proof that every
reachable tree is (`Tree.Reachable.wellFormed`).
-/

namespace Fleet

open Patch (KeysRead KeysDiffer)

/-! ### Endpoints and devices -/

/-- **The record of an endpoint** describes it, with whatever table of bounds. -/
theorem EndpointRecord.toEndpoint_ofEndpoint (e : Endpoint) (hip : e.ip ≠ "")
    (table : BoundsTable) : (ofEndpoint e).toEndpoint table e.ip e.eid = .ok e := by
  have hcreate := e.create_params hip table e.lastUpdate
  have hparams : (ofEndpoint e).params = e.params := rfl
  unfold toEndpoint
  rw [hparams]
  simp only [ofEndpoint, hcreate]
  obtain ⟨ip, eid, typeCode, description, lastValue, lastUpdate, role⟩ := e
  cases role <;> rfl

theorem EndpointRecord.belongs_of_toEndpoint {table : BoundsTable} {ip : String} {eid : Eid}
    {r : EndpointRecord} {e : Endpoint} (h : r.toEndpoint table ip eid = .ok e) :
    e.ip = ip ∧ e.eid = eid := by
  obtain ⟨e', he', rfl⟩ := map_eq_ok_iff.mp h
  have hbelongs : e'.ip = ip ∧ e'.eid = eid := Endpoint.create_belongs he'
  exact hbelongs

namespace Device

variable {d d' : Device} {e : Endpoint}

theorem create_eq_ok_iff {now : Time} {ip name : String} :
    create now ip name = .ok d ↔ ip ≠ "" ∧ d = ⟨ip, name, now, ∅⟩ := by
  unfold create
  by_cases hip : ip = ""
  · simp [hip]
  · simp [hip, eq_comm]

theorem insertEndpoint_eq_ok_iff :
    d.insertEndpoint e = .ok d' ↔ e.ip = d.ip ∧ d.endpoint? e.eid = none ∧ d' = d.put e.eid e := by
  unfold insertEndpoint
  by_cases hip : e.ip = d.ip
  · rw [if_neg (not_not_intro hip)]
    cases hhas : d.hasEndpoint e.eid with
    | true =>
      obtain ⟨e', he'⟩ := SortedMap.contains_eq_true_iff.mp hhas
      have hsome : d.endpoint? e.eid = some e' := he'
      simp [hsome]
    | false =>
      have hnone : d.endpoint? e.eid = none := SortedMap.contains_eq_false_iff.mp hhas
      simp [hip, hnone, eq_comm]
  · rw [if_pos hip]
    simp [hip]

end Device

namespace DeviceRecord

variable {table : BoundsTable} {ip : String}

/-- **The endpoints of records were inserted** into a device: the keys denote different numbers that
the device did not have, every record describes the endpoint of its number, and nothing else has
changed. -/
structure Inserted (table : BoundsTable) (ip : String) (entries : List (String × EndpointRecord))
    (d d' : Device) : Prop where
  address : d'.ip = d.ip
  header : d'.header = d.header
  read : KeysRead Eid.ofText? entries
  differ : KeysDiffer Eid.ofText? entries
  fresh : ∀ p ∈ entries, ∀ eid, Eid.ofText? p.1 = some eid → d.endpoint? eid = none
  described : ∀ p ∈ entries, ∀ eid, Eid.ofText? p.1 = some eid →
    ∃ e, d'.endpoint? eid = some e ∧ p.2.toEndpoint table ip eid = .ok e
  others : ∀ eid, (∀ p ∈ entries, Eid.ofText? p.1 ≠ some eid) → d'.endpoint? eid = d.endpoint? eid

variable {d d' : Device} {entries : List (String × EndpointRecord)}

/-- **Inserting record after record** does that. -/
theorem inserted_of_insertAll (hip : d.ip = ip) (h : insertAll table ip d entries = .ok d') :
    Inserted table ip entries d d' := by
  induction entries generalizing d with
  | nil =>
    cases h
    exact ⟨rfl, rfl, nofun, .nil, nofun, nofun, fun _ _ => rfl⟩
  | cons p rest ih =>
    obtain ⟨key, r⟩ := p
    obtain ⟨eid, hkey, h⟩ := bind_eq_ok_iff.mp h
    obtain ⟨e, hto, h⟩ := bind_eq_ok_iff.mp h
    obtain ⟨d₁, hd₁, h⟩ := bind_eq_ok_iff.mp h
    obtain ⟨-, hfresh, rfl⟩ := Device.insertEndpoint_eq_ok_iff.mp hd₁
    have hrest := ih (d := d.put e.eid e) hip h
    obtain ⟨-, rfl⟩ := EndpointRecord.belongs_of_toEndpoint hto
    rw [Device.requiredEid_eq_ok_iff] at hkey
    -- the rest was inserted into the device with this endpoint, so its numbers are other ones
    have hother : ∀ q ∈ rest, ∀ eid, Eid.ofText? q.1 = some eid → eid ≠ e.eid := by
      rintro q hq eid hq' rfl
      have hnone := hrest.fresh q hq e.eid hq'
      rw [Device.endpoint?_put, if_pos rfl] at hnone
      cases hnone
    refine ⟨hrest.address, hrest.header, List.forall_mem_cons.mpr ⟨⟨_, hkey⟩, hrest.read⟩,
      List.pairwise_cons.mpr ⟨fun q hq eid heid hq' => ?_, hrest.differ⟩,
      List.forall_mem_cons.mpr ⟨fun eid heid => ?_, fun q hq eid hq' => ?_⟩,
      List.forall_mem_cons.mpr ⟨fun eid heid => ?_, hrest.described⟩, fun eid heid => ?_⟩
    · cases hkey.symm.trans heid
      exact hother q hq _ hq' rfl
    · cases hkey.symm.trans heid
      exact hfresh
    · have hnone := hrest.fresh q hq eid hq'
      rwa [Device.endpoint?_put, if_neg (hother q hq eid hq')] at hnone
    · cases hkey.symm.trans heid
      refine ⟨e, ?_, hto⟩
      have hkept := hrest.others e.eid fun q hq hq' => hother q hq _ hq' rfl
      rw [hkept, Device.endpoint?_put, if_pos rfl]
    · obtain ⟨hne, hrest'⟩ := List.forall_mem_cons.mp heid
      have hne : eid ≠ e.eid := fun heq => hne (heq ▸ hkey)
      rw [hrest.others eid hrest', Device.endpoint?_put, if_neg hne]

/-- **Records can be inserted** if their keys denote different numbers that the device does not have
and each of them describes an endpoint. -/
theorem exists_insertAll (hip : d.ip = ip)
    (hread : ∀ p ∈ entries, ∃ eid e, Eid.ofText? p.1 = some eid ∧
      p.2.toEndpoint table ip eid = .ok e)
    (hdiffer : KeysDiffer Eid.ofText? entries)
    (hfresh : ∀ p ∈ entries, ∀ eid, Eid.ofText? p.1 = some eid → d.endpoint? eid = none) :
    ∃ d', insertAll table ip d entries = .ok d' := by
  induction entries generalizing d with
  | nil => exact ⟨d, rfl⟩
  | cons p rest ih =>
    obtain ⟨key, r⟩ := p
    obtain ⟨eid, e, hkey, hto⟩ := hread _ List.mem_cons_self
    obtain ⟨heip, rfl⟩ := EndpointRecord.belongs_of_toEndpoint hto
    obtain ⟨hfirst, hdiffer⟩ := List.pairwise_cons.mp hdiffer
    have hinsert : d.insertEndpoint e = .ok (d.put e.eid e) := Device.insertEndpoint_eq_ok_iff.mpr
      ⟨heip.trans hip.symm, hfresh _ List.mem_cons_self _ hkey, rfl⟩
    obtain ⟨d', hd'⟩ := ih (d := d.put e.eid e) hip
      (fun q hq => hread q (List.mem_cons_of_mem _ hq)) hdiffer fun q hq eid hq' => by
        have hne : eid ≠ e.eid := fun heq => hfirst q hq _ hkey (heq ▸ hq')
        rw [Device.endpoint?_put, if_neg hne]
        exact hfresh q (List.mem_cons_of_mem _ hq) eid hq'
    refine ⟨d', ?_⟩
    rw [insertAll, Device.requiredEid_eq_ok_iff.mpr hkey, ok_bind, hto, ok_bind, hinsert, ok_bind]
    exact hd'

variable {r : DeviceRecord}

/-- **The device of a record** has the name and the time of the record, and the endpoints of its
records. -/
theorem inserted_of_toDevice (h : r.toDevice table ip = .ok d) :
    ip ≠ "" ∧ Inserted table ip r.endpoints.entries ⟨ip, r.name, r.lastUpdate, ∅⟩ d := by
  obtain ⟨d₀, hd₀, h⟩ := bind_eq_ok_iff.mp h
  obtain ⟨hip, rfl⟩ := Device.create_eq_ok_iff.mp hd₀
  exact ⟨hip, inserted_of_insertAll rfl h⟩

/-- **Every endpoint of the device** is described by a record under its number. -/
theorem exists_record (h : r.toDevice table ip = .ok d) {eid : Eid} {e : Endpoint}
    (he : d.endpoint? eid = some e) : ∃ p ∈ r.endpoints.entries, Eid.ofText? p.1 = some eid ∧
      p.2.toEndpoint table ip eid = .ok e := by
  obtain ⟨-, hinserted⟩ := inserted_of_toDevice h
  by_cases hnamed : ∃ p ∈ r.endpoints.entries, Eid.ofText? p.1 = some eid
  · obtain ⟨p, hp, hkey⟩ := hnamed
    obtain ⟨e', he', hto⟩ := hinserted.described p hp eid hkey
    cases he.symm.trans he'
    exact ⟨p, hp, hkey, hto⟩
  · rw [hinserted.others eid fun p hp hkey => hnamed ⟨p, hp, hkey⟩] at he
    cases he

/-- **Every device of a record is well-formed.** -/
theorem wellFormed_toDevice (h : r.toDevice table ip = .ok d) : d.WellFormed ip := by
  obtain ⟨hip, hinserted⟩ := inserted_of_toDevice h
  refine ⟨hinserted.address, hip, fun eid e he => ?_⟩
  obtain ⟨p, -, -, hto⟩ := exists_record h he
  exact EndpointRecord.belongs_of_toEndpoint hto

theorem get?_endpoints_ofDevice {d : Device} (hd : d.WellFormed ip) {key : String}
    {r : EndpointRecord} : (ofDevice d).endpoints.get? key = some r ↔
      ∃ eid e, d.endpoint? eid = some e ∧ eid.text = key ∧ EndpointRecord.ofEndpoint e = r := by
  -- the records are listed under the numbers that the endpoints give themselves
  have hlist : d.endpoints.values.map (fun e => (e.eid.text, EndpointRecord.ofEndpoint e)) =
      d.endpoints.entries.map fun p => (p.1.text, EndpointRecord.ofEndpoint p.2) := by
    unfold SortedMap.values
    rw [List.map_map]
    refine List.map_congr_left fun p hp => ?_
    have hnumber := (hd.endpoints p.1 p.2 (SortedMap.get?_eq_some_iff.mpr hp)).2
    rw [Function.comp_apply, hnumber]
  change (SortedMap.ofList (d.endpoints.values.map
    fun e => (e.eid.text, EndpointRecord.ofEndpoint e))).get? key = some r ↔ _
  rw [hlist]
  exact SortedMap.get?_ofList_map (g := fun _ e => EndpointRecord.ofEndpoint e)
    fun _ _ => Eid.text_injective

/-- **The record of a device describes it**, with whatever table of bounds. -/
theorem toDevice_ofDevice (hd : d.WellFormed ip) (table : BoundsTable) :
    (ofDevice d).toDevice table ip = .ok d := by
  have hto : ∀ eid e, d.endpoint? eid = some e →
      (EndpointRecord.ofEndpoint e).toEndpoint table ip eid = .ok e := by
    intro eid e he
    obtain ⟨rfl, rfl⟩ := hd.endpoints eid e he
    exact EndpointRecord.toEndpoint_ofEndpoint e hd.named table
  have hrecord : ∀ p ∈ (ofDevice d).endpoints.entries, ∃ eid e, d.endpoint? eid = some e ∧
      eid.text = p.1 ∧ EndpointRecord.ofEndpoint e = p.2 :=
    fun p hp => (get?_endpoints_ofDevice hd).mp (SortedMap.get?_eq_some_iff.mpr hp)
  have hwritten : Patch.KeysWritten Eid.text (ofDevice d).endpoints.entries := by
    intro p hp
    obtain ⟨eid, -, -, hkey, -⟩ := hrecord p hp
    exact ⟨eid, hkey.symm⟩
  have hread : ∀ p ∈ (ofDevice d).endpoints.entries, ∃ eid e, Eid.ofText? p.1 = some eid ∧
      p.2.toEndpoint table ip eid = .ok e := by
    intro p hp
    obtain ⟨eid, e, he, hkey, hr⟩ := hrecord p hp
    exact ⟨eid, e, hkey ▸ Eid.ofText?_text eid, hr ▸ hto eid e he⟩
  obtain ⟨d', hd'⟩ := exists_insertAll (d := ⟨ip, d.name, d.lastUpdate, ∅⟩) rfl hread
    (hwritten.keysDiffer Eid.ofText?_text) fun _ _ _ _ => rfl
  have hinserted := inserted_of_insertAll rfl hd'
  -- what was inserted into an empty device are the endpoints of `d`
  have hsame : d' = d := by
    refine Device.ext_endpoints (hinserted.address.trans hd.address.symm) hinserted.header
      fun eid => ?_
    cases he : d.endpoint? eid with
    | some e =>
      have hmem := SortedMap.get?_eq_some_iff.mp
        ((get?_endpoints_ofDevice hd).mpr ⟨eid, e, he, rfl, rfl⟩)
      obtain ⟨e', he', hto'⟩ := hinserted.described _ hmem eid (Eid.ofText?_text eid)
      cases (hto eid e he).symm.trans hto'
      exact he'
    | none =>
      refine hinserted.others eid fun p hp hkey => ?_
      obtain ⟨eid', e', he', hkey', -⟩ := hrecord p hp
      rw [← hkey', Eid.ofText?_text, Option.some.injEq] at hkey
      rw [hkey, he] at he'
      cases he'
  have hcreate : Device.create (ofDevice d).lastUpdate ip (ofDevice d).name =
      .ok ⟨ip, d.name, d.lastUpdate, ∅⟩ := Device.create_eq_ok_iff.mpr ⟨hd.named, rfl⟩
  rw [toDevice, hcreate, ok_bind, hd', hsame]

end DeviceRecord

/-! ### Which record decides about a view -/

namespace Snapshot

/-- **The record decides about the view**: it is the last one, in the order of the keys, whose key
denotes the view. -/
def Decides (s : Snapshot) (id : Uuid) (r : ViewRecord) : Prop :=
  ∃ before key after, s.views.entries = before ++ (key, r) :: after ∧
    Uuid.ofText? key = some id ∧ ∀ q ∈ after, Uuid.ofText? q.1 ≠ some id

variable {s : Snapshot} {id : Uuid} {r : ViewRecord}

theorem Decides.exists_key (h : s.Decides id r) :
    ∃ key, Uuid.ofText? key = some id ∧ s.views.get? key = some r := by
  obtain ⟨before, key, after, hentries, hkey, -⟩ := h
  refine ⟨key, hkey, SortedMap.get?_eq_some_iff.mpr ?_⟩
  rw [hentries]
  exact List.mem_append_right _ List.mem_cons_self

/-- **A view that is named at all** is decided about. -/
theorem exists_decides (h : ∃ p ∈ s.views.entries, Uuid.ofText? p.1 = some id) :
    ∃ r, s.Decides id r := by
  obtain ⟨before, ⟨key, r⟩, after, hentries, hkey, hafter⟩ := exists_last h
  exact ⟨r, before, key, after, hentries, hkey, hafter⟩

/-- **Where keys denote different views**, every record decides about the view of its key. -/
theorem decides_iff (h : KeysDiffer Uuid.ofText? s.views.entries) :
    s.Decides id r ↔ ∃ key, Uuid.ofText? key = some id ∧ s.views.get? key = some r := by
  refine ⟨Decides.exists_key, fun ⟨key, hkey, hr⟩ => ?_⟩
  obtain ⟨before, after, hentries⟩ := List.append_of_mem (SortedMap.get?_eq_some_iff.mp hr)
  refine ⟨before, key, after, hentries, hkey, fun q hq => ?_⟩
  rw [hentries] at h
  exact (List.pairwise_cons.mp (List.pairwise_append.mp h).2.1).1 q hq id hkey

end Snapshot

/-! ### Trees -/

namespace Tree

variable {t u : Tree} {table : BoundsTable} {s : Snapshot}

/-! #### Devices -/

/-- **Each record of a device** puts the device that it describes at its address, and the rest stays
as it was. -/
theorem get?_restoreDevices {entries : List (String × DeviceRecord)}
    (hnodup : (entries.map Prod.fst).Nodup) {m m' : SortedMap String Device}
    (h : restoreDevices table m entries = .ok m') :
    (∀ p ∈ entries, ∃ d, m'.get? p.1 = some d ∧ p.2.toDevice table p.1 = .ok d) ∧
    ∀ ip, ip ∉ entries.map Prod.fst → m'.get? ip = m.get? ip := by
  induction entries generalizing m with
  | nil =>
    cases h
    exact ⟨nofun, fun _ _ => rfl⟩
  | cons p rest ih =>
    obtain ⟨ip, r⟩ := p
    obtain ⟨d, hd, h⟩ := bind_eq_ok_iff.mp h
    rw [List.map_cons, List.nodup_cons] at hnodup
    obtain ⟨hrecords, hothers⟩ := ih hnodup.2 h
    refine ⟨List.forall_mem_cons.mpr ⟨⟨d, ?_, hd⟩, hrecords⟩, fun ip' hip' => ?_⟩
    · rw [hothers ip hnodup.1, SortedMap.get?_insert, if_pos rfl]
    · rw [List.map_cons, List.mem_cons, not_or] at hip'
      rw [hothers ip' hip'.2, SortedMap.get?_insert, if_neg hip'.1]

theorem exists_restoreDevices {entries : List (String × DeviceRecord)}
    (h : ∀ p ∈ entries, ∃ d, p.2.toDevice table p.1 = .ok d) (m : SortedMap String Device) :
    ∃ m', restoreDevices table m entries = .ok m' := by
  induction entries generalizing m with
  | nil => exact ⟨m, rfl⟩
  | cons p rest ih =>
    obtain ⟨⟨d, hd⟩, h⟩ := List.forall_mem_cons.mp h
    obtain ⟨m', hm'⟩ := ih h (m.insert p.1 d)
    exact ⟨m', by rw [restoreDevices, hd, ok_bind, hm']⟩

/-- **The devices of a tree that was restored** are those that the records describe. -/
theorem device?_restore (h : t.restore s = .ok u) {ip : String} {d : Device} :
    u.device? ip = some d ↔
      ∃ r, s.devices.get? ip = some r ∧ r.toDevice t.bounds ip = .ok d := by
  obtain ⟨devices, hdevices, h⟩ := bind_eq_ok_iff.mp h
  obtain ⟨views, -, h⟩ := bind_eq_ok_iff.mp h
  cases h
  obtain ⟨hrecords, hothers⟩ := get?_restoreDevices (SortedMap.nodup_keys _) hdevices
  change devices.get? ip = some d ↔ _
  constructor
  · intro hd
    by_cases hip : ip ∈ s.devices.keys
    · obtain ⟨r, hr⟩ := SortedMap.mem_keys_iff.mp hip
      obtain ⟨d', hd', hto⟩ := hrecords _ (SortedMap.get?_eq_some_iff.mp hr)
      cases hd.symm.trans hd'
      exact ⟨r, hr, hto⟩
    · rw [hothers ip hip] at hd
      cases hd
  · rintro ⟨r, hr, hto⟩
    obtain ⟨d', hd', hto'⟩ := hrecords _ (SortedMap.get?_eq_some_iff.mp hr)
    cases hto.symm.trans hto'
    exact hd'

/-- **All endpoints of a tree that was restored** are described by records of the snapshot. -/
theorem everywhere_restore {P : Endpoint → Prop}
    (hs : ∀ ip r, s.devices.get? ip = some r → ∀ key er, r.endpoints.get? key = some er →
      ∀ eid e, er.toEndpoint t.bounds ip eid = .ok e → P e) (h : t.restore s = .ok u) :
    u.Everywhere P := by
  intro ip d hd eid e he
  obtain ⟨r, hr, hto⟩ := (device?_restore h).mp hd
  obtain ⟨p, hp, -, hto⟩ := DeviceRecord.exists_record hto he
  exact hs ip r hr p.1 p.2 (SortedMap.get?_eq_some_iff.mpr hp) eid e hto

/-! #### Views -/

section

variable {entries : List (String × ViewRecord)} {m m' : SortedMap Uuid View} {id : Uuid}

theorem toView_eq_ok_iff {key : String} {r : ViewRecord} {v : View} : r.toView key = .ok v ↔
    ∃ id, Uuid.ofText? key = some id ∧ View.mk id r.name r.references = v := by
  simp only [ViewRecord.toView, map_eq_ok_iff, View.requiredId_eq_ok_iff]

theorem restoreViews_cons {key : String} {r : ViewRecord} (hkey : Uuid.ofText? key = some id) :
    restoreViews m ((key, r) :: entries) =
      restoreViews (m.insert id ⟨id, r.name, r.references⟩) entries := by
  rw [restoreViews, toView_eq_ok_iff.mpr ⟨id, hkey, rfl⟩, ok_bind]

/-- Views are restored exactly if every key denotes one. -/
theorem exists_restoreViews_iff :
    (∃ m', restoreViews m entries = .ok m') ↔ KeysRead Uuid.ofText? entries := by
  induction entries generalizing m with
  | nil => exact ⟨fun _ => nofun, fun _ => ⟨m, rfl⟩⟩
  | cons p rest ih =>
    obtain ⟨key, r⟩ := p
    unfold KeysRead
    rw [List.forall_mem_cons]
    constructor
    · rintro ⟨m', h⟩
      obtain ⟨v, hv, h⟩ := bind_eq_ok_iff.mp h
      obtain ⟨id, hkey, -⟩ := toView_eq_ok_iff.mp hv
      exact ⟨⟨id, hkey⟩, ih.mp ⟨m', h⟩⟩
    · rintro ⟨⟨id, hkey⟩, hrest⟩
      rw [restoreViews_cons hkey]
      exact ih.mpr hrest

/-- **A view that no key denotes** stays as it was. -/
theorem get?_restoreViews_of_unnamed (h : restoreViews m entries = .ok m')
    (hid : ∀ p ∈ entries, Uuid.ofText? p.1 ≠ some id) : m'.get? id = m.get? id := by
  induction entries generalizing m with
  | nil =>
    cases h
    rfl
  | cons p rest ih =>
    obtain ⟨key, r⟩ := p
    obtain ⟨v, hv, h⟩ := bind_eq_ok_iff.mp h
    obtain ⟨id', hkey, rfl⟩ := toView_eq_ok_iff.mp hv
    obtain ⟨hne, hid⟩ := List.forall_mem_cons.mp hid
    have hne : id ≠ id' := fun heq => hne (heq ▸ hkey)
    rw [ih h hid, SortedMap.get?_insert, if_neg hne]

/-- **Of the records whose keys denote a view** the last one is left. -/
theorem get?_restoreViews_of_last {before after : List (String × ViewRecord)} {key : String}
    {r : ViewRecord} (h : restoreViews m (before ++ (key, r) :: after) = .ok m')
    (hkey : Uuid.ofText? key = some id) (hafter : ∀ q ∈ after, Uuid.ofText? q.1 ≠ some id) :
    m'.get? id = some ⟨id, r.name, r.references⟩ := by
  induction before generalizing m with
  | nil =>
    rw [List.nil_append, restoreViews_cons hkey] at h
    rw [get?_restoreViews_of_unnamed h hafter, SortedMap.get?_insert, if_pos rfl]
  | cons p rest ih =>
    obtain ⟨v, -, h⟩ := bind_eq_ok_iff.mp h
    exact ih h

end

/-- **The views of a tree that was restored** are those that the deciding records describe. -/
theorem view?_restore (h : t.restore s = .ok u) {id : Uuid} {v : View} :
    u.view? id = some v ↔ ∃ r, s.Decides id r ∧ View.mk id r.name r.references = v := by
  obtain ⟨devices, -, h⟩ := bind_eq_ok_iff.mp h
  obtain ⟨views, hviews, h⟩ := bind_eq_ok_iff.mp h
  cases h
  change views.get? id = some v ↔ _
  have hdecided : ∀ r, s.Decides id r → views.get? id = some ⟨id, r.name, r.references⟩ := by
    rintro r ⟨before, key, after, hentries, hkey, hafter⟩
    rw [hentries] at hviews
    exact get?_restoreViews_of_last hviews hkey hafter
  constructor
  · intro hv
    by_cases hnamed : ∃ p ∈ s.views.entries, Uuid.ofText? p.1 = some id
    · obtain ⟨r, hr⟩ := Snapshot.exists_decides hnamed
      exact ⟨r, hr, Option.some.inj ((hdecided r hr).symm.trans hv)⟩
    · have hunnamed : ∀ p ∈ s.views.entries, Uuid.ofText? p.1 ≠ some id :=
        fun p hp hkey => hnamed ⟨p, hp, hkey⟩
      rw [get?_restoreViews_of_unnamed hviews hunnamed] at hv
      cases hv
  · rintro ⟨r, hr, rfl⟩
    exact hdecided r hr

/-! #### The whole -/

/-- **A snapshot can be restored** exactly if each of its records can be. -/
theorem exists_restore_iff : (∃ u, t.restore s = .ok u) ↔
    (∀ ip r, s.devices.get? ip = some r → ∃ d, r.toDevice t.bounds ip = .ok d) ∧
      KeysRead Uuid.ofText? s.views.entries := by
  constructor
  · rintro ⟨u, hu⟩
    obtain ⟨devices, hdevices, h⟩ := bind_eq_ok_iff.mp hu
    obtain ⟨views, hviews, -⟩ := bind_eq_ok_iff.mp h
    refine ⟨fun ip r hr => ?_, exists_restoreViews_iff.mp ⟨views, hviews⟩⟩
    obtain ⟨d, -, hd⟩ := (get?_restoreDevices (SortedMap.nodup_keys _) hdevices).1 _
      (SortedMap.get?_eq_some_iff.mp hr)
    exact ⟨d, hd⟩
  · rintro ⟨hrecords, hread⟩
    have hdescribed : ∀ p ∈ s.devices.entries, ∃ d, p.2.toDevice t.bounds p.1 = .ok d :=
      fun p hp => hrecords p.1 p.2 (SortedMap.get?_eq_some_iff.mpr hp)
    obtain ⟨devices, hdevices⟩ := exists_restoreDevices hdescribed ∅
    obtain ⟨views, hviews⟩ := exists_restoreViews_iff (m := ∅).mpr hread
    exact ⟨{ t with devices, views }, by rw [restore, hdevices, ok_bind, hviews, ok_bind]⟩

/-- The table of bounds is not in a snapshot. -/
theorem bounds_restore (h : t.restore s = .ok u) : u.bounds = t.bounds := by
  obtain ⟨devices, hdevices, h⟩ := bind_eq_ok_iff.mp h
  obtain ⟨views, hviews, h⟩ := bind_eq_ok_iff.mp h
  cases h
  rfl

/-- **What is restored is well-formed**, whatever the snapshot is. -/
theorem wellFormed_restore (h : t.restore s = .ok u) : u.WellFormed where
  devices ip d hd := by
    obtain ⟨r, -, hto⟩ := (device?_restore h).mp hd
    exact DeviceRecord.wellFormed_toDevice hto
  views id v hv := by
    obtain ⟨r, -, rfl⟩ := (view?_restore h).mp hv
    rfl

/-- **Every reachable tree is well-formed.** -/
theorem Reachable.wellFormed (h : t.Reachable) : t.WellFormed := by
  induction h with
  | ofBounds bounds => exact ⟨fun _ _ hd => (nomatch hd), fun _ _ hv => (nomatch hv)⟩
  | restore _ hu _ => exact wellFormed_restore hu
  | command _ now c ih => exact c.wellFormed_run ih
  | apply _ hu ih => exact (takes_of_apply ih hu).wellFormed

/-! #### Snapshots of trees -/

theorem get?_devices_snapshot {ip : String} {r : DeviceRecord} :
    t.snapshot.devices.get? ip = some r ↔
      ∃ d, t.device? ip = some d ∧ DeviceRecord.ofDevice d = r := by
  rw [snapshot, SortedMap.get?_mapValues, Option.map_eq_some_iff]
  rfl

theorem get?_views_snapshot {key : String} {s : ViewRecord} : t.snapshot.views.get? key = some s ↔
    ∃ id v, t.view? id = some v ∧ id.text = key ∧ ViewRecord.ofView v = s :=
  SortedMap.get?_ofList_map (g := fun _ v => ViewRecord.ofView v) (m := t.views)
    fun _ _ => Uuid.text_injective

/-- **Restoring the snapshot of a tree gives the tree**, with the table of whoever restores it. -/
theorem restore_snapshot (ht : t.WellFormed) (r : Tree) :
    r.restore t.snapshot = .ok { t with bounds := r.bounds } := by
  have hto : ∀ ip d, t.device? ip = some d →
      (DeviceRecord.ofDevice d).toDevice r.bounds ip = .ok d :=
    fun ip d hd => DeviceRecord.toDevice_ofDevice (ht.devices ip d hd) r.bounds
  have hwritten : Patch.KeysWritten Uuid.text t.snapshot.views.entries := by
    intro p hp
    obtain ⟨id, -, -, hid, -⟩ := get?_views_snapshot.mp (SortedMap.get?_eq_some_iff.mpr hp)
    exact ⟨id, hid.symm⟩
  obtain ⟨u, hu⟩ := (exists_restore_iff (t := r)).mpr ⟨fun ip dr hr => by
    obtain ⟨d, hd, rfl⟩ := get?_devices_snapshot.mp hr
    exact ⟨d, hto ip d hd⟩, hwritten.keysRead Uuid.ofText?_text⟩
  -- at every place there is what the record of that place denotes, which is what it was made of
  have hdevices : u.devices = t.devices := by
    refine SortedMap.ext_get? fun ip => Option.ext fun d => (device?_restore hu).trans ?_
    constructor
    · rintro ⟨dr, hr, hd⟩
      obtain ⟨d', hd', rfl⟩ := get?_devices_snapshot.mp hr
      cases (hto ip d' hd').symm.trans hd
      exact hd'
    · exact fun hd => ⟨_, get?_devices_snapshot.mpr ⟨d, hd, rfl⟩, hto ip d hd⟩
  have hviews : u.views = t.views := by
    refine SortedMap.ext_get? fun id => Option.ext fun v => (view?_restore hu).trans ?_
    simp only [Snapshot.decides_iff (hwritten.keysDiffer Uuid.ofText?_text)]
    constructor
    · rintro ⟨vr, ⟨key, hkey, hr⟩, rfl⟩
      obtain ⟨id', v, hv, rfl, rfl⟩ := get?_views_snapshot.mp hr
      cases (Uuid.ofText?_text id').symm.trans hkey
      cases ht.views _ v hv
      exact hv
    · intro hv
      cases ht.views id v hv
      exact ⟨_, ⟨_, Uuid.ofText?_text _, get?_views_snapshot.mpr ⟨_, v, hv, rfl, rfl⟩⟩, rfl⟩
  rw [hu, ← hdevices, ← hviews, ← bounds_restore hu]

/-- With the same snapshot, trees are the same under any table of bounds. -/
theorem withBounds_eq_of_snapshot_eq (ht : t.WellFormed) (hu : u.WellFormed)
    (h : t.snapshot = u.snapshot) (table : BoundsTable) :
    { t with bounds := table } = { u with bounds := table } := by
  have hrestore : (.ok { t with bounds := table } : Except TreeError Tree) =
      .ok { u with bounds := table } := calc
    _ = (ofBounds table).restore t.snapshot := (restore_snapshot ht (ofBounds table)).symm
    _ = (ofBounds table).restore u.snapshot := by rw [h]
    _ = .ok { u with bounds := table } := restore_snapshot hu (ofBounds table)
  exact Except.ok.inj hrestore

/-- **Trees with the same snapshot are the same** up to their tables of bounds. -/
theorem snapshot_eq_iff (ht : t.WellFormed) (hu : u.WellFormed) :
    t.snapshot = u.snapshot ↔ t.devices = u.devices ∧ t.views = u.views := by
  constructor
  · intro h
    obtain ⟨hdevices, hviews, -⟩ := Tree.mk.inj (withBounds_eq_of_snapshot_eq ht hu h .standard)
    exact ⟨hdevices, hviews⟩
  · rintro ⟨hdevices, hviews⟩
    unfold snapshot
    rw [hdevices, hviews]

theorem eq_of_snapshot_eq (ht : t.WellFormed) (hu : u.WellFormed) (hbounds : t.bounds = u.bounds)
    (h : t.snapshot = u.snapshot) : t = u := calc
  t = { t with bounds := t.bounds } := rfl
  _ = { u with bounds := t.bounds } := withBounds_eq_of_snapshot_eq ht hu h t.bounds
  _ = u := by rw [hbounds]

end Tree

end Fleet
