import Fleet.Proofs.Applying
import Fleet.Proofs.PatchCodec
import Fleet.Tree.Merge

/-!
# What events tell

A loud operation publishes the smallest patch that says what it did, and it leaves out whatever a
replica can be trusted to reconstruct: the bounds that a new sensor took from the table of its
owner, the header of a device of which only an endpoint changed, all that a tombstone removes. This
module shows that nothing is lost by that.

An event *tells* of a step of a tree (`Event.Tells`) if its patch takes the tree before to the tree
after at whatever clock and with whatever table of bounds (`Patch.Takes`), if it does not depend on
the clock of those who hear of it (`Patch.Dated`), and if it survives the wire as long as all
doubles in the tree are finite.

The operations on a single device come first (`Device.Told`), then those on the tree, each with one
lemma that its event tells of its step. `Tree.Told` is the chain of such steps that one operation
may consist of.
-/

namespace Fleet

open Patch (Entry DeviceChange EndpointChange ViewChange KeysRead KeysDiffer actsFor)

/-! ### Finite doubles -/

/-- Both bounds of a sensor are finite. -/
def Endpoint.Finite (e : Endpoint) : Prop := FiniteIfGiven e.minvalue ∧ FiniteIfGiven e.maxvalue

/-- All doubles in a device are finite. -/
def Device.Finite (d : Device) : Prop := ∀ eid e, d.endpoint? eid = some e → e.Finite

/-- All bounds that a table gives are finite. -/
def BoundsTable.Finite (table : BoundsTable) : Prop :=
  ∀ eid, (table.lookup eid).min.isFinite = true ∧ (table.lookup eid).max.isFinite = true

/-- Both bounds of a description are finite. -/
def Endpoint.Params.Finite (p : Endpoint.Params) : Prop :=
  FiniteIfGiven p.minvalue ∧ FiniteIfGiven p.maxvalue

/-- **All doubles in a tree are finite**, those of its table of bounds included. -/
structure Tree.Finite (t : Tree) : Prop where
  bounds : t.bounds.Finite
  devices : ∀ ip d, t.device? ip = some d → d.Finite

/-! ### Dated changes -/

namespace Patch

/-- **A change that may create an endpoint says when**, so that the clock of those who apply it does
not matter. -/
def EndpointChange.Dated (c : EndpointChange) : Prop :=
  ∀ params, c.params = some params → ∃ time, c.lastUpdate = some time

/-- All changes of endpoints in the change of a device are dated. -/
def DeviceChange.Dated (c : DeviceChange) : Prop :=
  ∀ key e, c.endpoints.get? key = some e → e.Satisfies EndpointChange.Dated

/-- **All changes of endpoints in the patch are dated.** -/
def Dated (p : Patch) : Prop :=
  ∀ ip e, p.devices.get? ip = some e → e.Satisfies DeviceChange.Dated

instance (c : EndpointChange) : Decidable c.Dated :=
  decidable_of_iff (c.params = none ∨ c.lastUpdate ≠ none) <| by
    unfold EndpointChange.Dated
    cases c.params with
    | none => simp
    | some params => simp [Option.ne_none_iff_exists']

instance (c : DeviceChange) : Decidable c.Dated :=
  inferInstanceAs (Decidable (∀ key e, c.endpoints.get? key = some e → e.Satisfies _))

instance (p : Patch) : Decidable p.Dated :=
  inferInstanceAs (Decidable (∀ ip e, p.devices.get? ip = some e → e.Satisfies _))

end Patch

/-! ### Keys that were written -/

namespace Patch

section

variable {κ β γ : Type} {read : String → Option κ} {write : κ → String}

/-- Every key is the written form of something. -/
def KeysWritten (write : κ → String) (entries : List (String × β)) : Prop :=
  ∀ p ∈ entries, ∃ k, p.1 = write k

theorem KeysWritten.keysRead {entries : List (String × β)} (h : KeysWritten write entries)
    (hread : ∀ k, read (write k) = some k) : KeysRead read entries := by
  intro p hp
  obtain ⟨k, hk⟩ := h p hp
  exact ⟨k, hk ▸ hread k⟩

theorem KeysWritten.eq_write {entries : List (String × β)} (h : KeysWritten write entries)
    (hread : ∀ k, read (write k) = some k) {p : String × β} (hp : p ∈ entries) {k : κ}
    (hk : read p.1 = some k) : p.1 = write k := by
  obtain ⟨l, hl⟩ := h p hp
  rw [hl, hread] at hk
  rw [hl, Option.some.inj hk]

theorem KeysWritten.keysDiffer {m : SortedMap String β} (h : KeysWritten write m.entries)
    (hread : ∀ k, read (write k) = some k) : KeysDiffer read m.entries := by
  have hincreasing : m.entries.Pairwise fun p q => compare p.1 q.1 = .lt := m.increasing
  refine hincreasing.imp_of_mem fun {p q} hp hq hlt k hpk hqk => ?_
  rw [h.eq_write hread hp hpk, h.eq_write hread hq hqk] at hlt
  simp [Std.ReflCmp.compare_self] at hlt

/-- **What entries under written keys do** is what the entry under the written key does. -/
theorem KeysWritten.actsFor_eq [DecidableEq κ] {manner : Tree.Manner}
    {m : SortedMap String (Entry γ)} (h : KeysWritten write m.entries)
    (hread : ∀ k, read (write k) = some k) (k : κ) :
    actsFor read manner m.entries k = ((m.get? (write k)).map (Entry.act manner)).toList := by
  cases he : m.get? (write k) with
  | none =>
    refine actsFor_eq_nil fun p hp hk => ?_
    have hget := SortedMap.get?_eq_some_iff.mpr (show (p.1, p.2) ∈ m.entries from hp)
    rw [h.eq_write hread hp hk, he] at hget
    cases hget
  | some e =>
    -- keys come once, so the entries before and after concern others
    obtain ⟨before, after, hsplit⟩ := List.append_of_mem (SortedMap.get?_eq_some_iff.mp he)
    have hnodup := m.nodup_keys
    unfold SortedMap.keys at hnodup
    rw [hsplit, List.map_append, List.map_cons, List.nodup_append, List.nodup_cons] at hnodup
    obtain ⟨-, ⟨hafter, -⟩, hbefore⟩ := hnodup
    have hnone : ∀ p ∈ m.entries, p.1 ≠ write k → read p.1 ≠ some k :=
      fun p hp hne hk => hne (h.eq_write hread hp hk)
    rw [hsplit] at hnone
    have hbefore : actsFor read manner before k = [] := actsFor_eq_nil fun p hp =>
      hnone p (List.mem_append_left _ hp) fun heq =>
        hbefore p.1 (List.mem_map_of_mem hp) (write k) List.mem_cons_self heq
    have hafter : actsFor read manner after k = [] := actsFor_eq_nil fun p hp =>
      hnone p (List.mem_append_right _ (List.mem_cons_of_mem _ hp)) fun heq =>
        hafter (List.mem_map.mpr ⟨p, hp, heq⟩)
    have happend : actsFor read manner (before ++ (write k, e) :: after) k =
        actsFor read manner before k ++ actsFor read manner ((write k, e) :: after) k :=
      List.filterMap_append
    rw [hsplit, happend, hbefore, actsFor_cons, hafter, hread, if_pos rfl]
    rfl

end

end Patch

/-! ### Patches with one entry -/

namespace Patch

variable {manner : Tree.Manner}

theorem actsFor_singleton {κ γ : Type} [DecidableEq κ] {read : String → Option κ} {key : String}
    {k l : κ} (hkey : read key = some k) (e : Entry γ) :
    actsFor read manner [(key, e)] l = if l = k then [e.act manner] else [] := by
  rw [actsFor_cons, hkey, actsFor_eq_nil fun p hp => absurd hp List.not_mem_nil, List.append_nil]
  by_cases h : l = k
  · rw [if_pos h, if_pos (congrArg some h.symm)]
  · rw [if_neg h, if_neg fun heq => h (Option.some.inj heq).symm]

theorem entries_withEndpoint {c : DeviceChange} (hc : c.endpoints = ∅) (eid : Eid)
    (e : Entry EndpointChange) : (c.withEndpoint eid e).endpoints.entries = [(eid.text, e)] := by
  unfold DeviceChange.withEndpoint
  rw [hc]
  rfl

theorem actsFor_withEndpoint {c : DeviceChange} (hc : c.endpoints = ∅) (eid l : Eid)
    (e : Entry EndpointChange) :
    actsFor Eid.ofText? manner (c.withEndpoint eid e).endpoints.entries l =
      if l = eid then [e.act manner] else [] := by
  rw [entries_withEndpoint hc]
  exact actsFor_singleton (Eid.ofText?_text eid) e

theorem get?_devices_device {ip ip' : String} {e : Entry DeviceChange} :
    (device ip e).devices.get? ip' = if ip' = ip then some e else none := SortedMap.get?_singleton

theorem get?_views_device {ip key : String} {e : Entry DeviceChange} :
    (device ip e).views.get? key = none := SortedMap.get?_emptyc

theorem get?_devices_view {id : Uuid} {ip : String} {e : Entry ViewChange} :
    (view id e).devices.get? ip = none := SortedMap.get?_emptyc

theorem get?_views_view {id : Uuid} {e : Entry ViewChange} {key : String} :
    (view id e).views.get? key = if key = id.text then some e else none := SortedMap.get?_singleton

theorem viewActs_of_empty {p : Patch} (h : p.views = ∅) (id : Uuid) :
    p.viewActs manner id = [] := by
  unfold viewActs
  rw [h, SortedMap.entries_emptyc]
  exact actsFor_eq_nil fun q hq => absurd hq List.not_mem_nil

theorem viewActs_view {id l : Uuid} {e : Entry ViewChange} :
    (view id e).viewActs manner l = if l = id then [e.act manner] else [] := by
  unfold viewActs view
  rw [SortedMap.entries_singleton]
  exact actsFor_singleton (Uuid.ofText?_text id) e

/-- A patch of one device can be written if its entry can. -/
theorem writable_device {ip : String} {e : Entry DeviceChange}
    (h : e.Satisfies DeviceChange.Writable) : (device ip e).Writable := by
  refine ⟨fun ip' e' he => ?_, fun key e' he => ?_⟩
  · rw [get?_devices_device] at he
    split at he
    · cases he
      exact h
    · cases he
  · rw [get?_views_device] at he
    cases he

/-- **The entry of a device in a patch of its own** does nothing anywhere else. -/
theorem takes_device {ip : String} {e : Entry DeviceChange} {now : Time} {t u : Tree}
    (hu : u.WellFormed) (hbounds : u.bounds = t.bounds) (hviews : u.views = t.views)
    (hother : ∀ ip', ip' ≠ ip → u.device? ip' = t.device? ip')
    (h : e.Takes manner t.bounds now ip (t.device? ip) (u.device? ip)) :
    (device ip e).Takes manner now t u := by
  have hempty : (device ip e).views = ∅ := rfl
  refine ⟨⟨fun ip' c hc => ?_, ?_, fun _ key c id hc => ?_⟩, hu, hbounds, fun ip' => ?_,
    fun ip' eid => ?_, fun id => ?_⟩
  -- the patch is legible
  · rw [get?_devices_device] at hc
    split at hc
    · cases hc
      exact h.legible c rfl
    · cases hc
  · rw [hempty, SortedMap.entries_emptyc]
    exact fun q hq => absurd hq List.not_mem_nil
  · rw [get?_views_device] at hc
    cases hc
  -- and acts at the address only
  · unfold Tree.header?
    by_cases hip : ip' = ip
    · subst hip
      rw [headerActs_some (get?_devices_device.trans (if_pos rfl)), Place.runAll_singleton]
      exact h.header
    · rw [headerActs_none (get?_devices_device.trans (if_neg hip)), hother ip' hip,
        Place.runAll_nil]
  · unfold Tree.endpointAt?
    by_cases hip : ip' = ip
    · subst hip
      rw [endpointActs_some (get?_devices_device.trans (if_pos rfl))]
      exact h.endpoints eid
    · rw [endpointActs_none (get?_devices_device.trans (if_neg hip)), hother ip' hip,
        Place.runAll_nil]
  · rw [viewActs_of_empty hempty, Place.runAll_nil]
    unfold Tree.view?
    rw [hviews]

/-- **The entry of a view in a patch of its own** does nothing anywhere else. -/
theorem takes_view {id : Uuid} {e : Entry ViewChange} {now : Time} {t u : Tree}
    (hu : u.WellFormed) (hbounds : u.bounds = t.bounds) (hdevices : u.devices = t.devices)
    (hwhole : manner = .update → ∀ c, e = .change c → c.Whole id)
    (hother : ∀ id', id' ≠ id → u.view? id' = t.view? id')
    (h : (View.place id).run (t.view? id) (e.act manner) = some (u.view? id)) :
    (view id e).Takes manner now t u := by
  refine ⟨⟨fun ip c hc => ?_, ?_, fun hm key c id' hc hid => ?_⟩, hu, hbounds, fun ip => ?_,
    fun ip eid => ?_, fun id' => ?_⟩
  -- the patch is legible, because its only key is written
  · rw [get?_devices_view] at hc
    cases hc
  · unfold view
    rw [SortedMap.entries_singleton]
    intro q hq
    rw [List.mem_singleton] at hq
    rw [hq]
    exact ⟨id, Uuid.ofText?_text id⟩
  · rw [get?_views_view] at hc
    split at hc
    · next hkey =>
      rw [hkey, Uuid.ofText?_text, Option.some.injEq] at hid
      rw [← hid]
      exact hwhole hm c (Option.some.inj hc)
    · cases hc
  -- and acts at the identifier only
  · rw [headerActs_none get?_devices_view, Place.runAll_nil]
    unfold Tree.header? Tree.device?
    rw [hdevices]
  · rw [endpointActs_none get?_devices_view, Place.runAll_nil]
    unfold Tree.endpointAt? Tree.device?
    rw [hdevices]
  · rw [viewActs_view]
    by_cases hid : id' = id
    · rw [if_pos hid, Place.runAll_singleton, hid]
      exact h
    · rw [if_neg hid, hother id' hid, Place.runAll_nil]

end Patch

/-! ### Endpoints and what is said about them -/

namespace Endpoint

/-- **An endpoint is created again from its own description**, at whatever clock and with whatever
table, but for its value. -/
theorem create_params (e : Endpoint) (hip : e.ip ≠ "") (table : BoundsTable) (now : Time) :
    create table now e.ip e.eid e.params =
      .ok { e with lastValue := .zero, lastUpdate := now } := by
  -- each part of the description is read back; the bounds are given, so the table is not asked
  have htype : e.params.requiredType = .ok e.typeCode := by
    have hcode : Params.typeOf? (.number (.ofUInt64 e.typeCode.toUInt64)) = some e.typeCode := by
      change ((some e.typeCode.toUInt64.toNat).filter (· ≤ 255)).map UInt8.ofNat = _
      have hle : e.typeCode.toUInt64.toNat ≤ 255 := by
        rw [UInt8.toNat_toUInt64]
        have := e.typeCode.toNat_lt
        omega
      rw [Option.filter_some, if_pos (decide_eq_true hle), Option.map_some, UInt8.toNat_toUInt64,
        UInt8.ofNat_toNat]
    have hgiven : e.params.typeCode = some (.number (.ofUInt64 e.typeCode.toUInt64)) := rfl
    simp only [Params.requiredType, hgiven, hcode]
  have hfunction : e.params.requiredFunction = .ok e.function := by
    have hname : Function.ofName? e.function.name = some e.function := by
      cases e.function <;> rfl
    have hgiven : e.params.function = some e.function.name := rfl
    simp only [Params.requiredFunction, hgiven, hname]
  have hrole : e.params.role table e.eid e.function = e.role := by
    obtain ⟨ip, eid, typeCode, description, lastValue, lastUpdate, role⟩ := e
    cases role <;> rfl
  rw [create, if_neg hip, htype, ok_bind, hfunction, ok_bind, hrole]
  rfl

/-- **An endpoint is created again from its creation.** -/
theorem ofChange_creationChange (e : Endpoint) (hip : e.ip ≠ "") (table : BoundsTable)
    (now : Time) : ofChange table now e.ip e.eid e.creationChange = .ok e := by
  -- what `create_params` leaves open, the value and the time, is in the rest of the change
  unfold ofChange creationChange
  simp only [create_params e hip]
  obtain ⟨ip, eid, typeCode, description, lastValue, lastUpdate, role⟩ := e
  cases role <;> rfl

/-- A change gives an endpoint the state of another one that is the same otherwise. -/
theorem update_stateChange {e e' : Endpoint} (hip : e'.ip = e.ip) (heid : e'.eid = e.eid)
    (htype : e'.typeCode = e.typeCode) (hdescription : e'.description = e.description)
    (hfunction : e'.function = e.function) (hunit : e'.unit = e.unit) :
    e.update e'.stateChange = e' := by
  obtain ⟨ip, eid, typeCode, description, lastValue, lastUpdate, role⟩ := e
  obtain ⟨ip', eid', typeCode', description', lastValue', lastUpdate', role'⟩ := e'
  cases hip
  cases heid
  cases htype
  cases hdescription
  -- bounds are the only part of a role that a change reaches
  have hrole : role.update (stateChange
      ⟨ip, eid, typeCode, description, lastValue', lastUpdate', role'⟩) = role' := by
    cases role with
    | sensor s =>
      cases role' with
      | sensor s' =>
        obtain ⟨bounds, unit⟩ := s
        cases hunit
        rfl
      | actor => cases hfunction
      | infrastructure => cases hfunction
    | actor => cases role' <;> first | rfl | cases hfunction
    | infrastructure => cases role' <;> first | rfl | cases hfunction
  unfold update
  rw [hrole]
  rfl

theorem finite_of_sensor? {e : Endpoint}
    (h : ∀ s, e.role.sensor? = some s →
      s.bounds.min.isFinite = true ∧ s.bounds.max.isFinite = true) : e.Finite := by
  refine ⟨fun x hx => ?_, fun x hx => ?_⟩
  · obtain ⟨s, hs, rfl⟩ := Option.map_eq_some_iff.mp hx
    exact (h s hs).1
  · obtain ⟨s, hs, rfl⟩ := Option.map_eq_some_iff.mp hx
    exact (h s hs).2

theorem finite_of_create {table : BoundsTable} {now : Time} {ip : String} {eid : Eid}
    {params : Params} {e : Endpoint} (htable : table.Finite) (hparams : params.Finite)
    (h : create table now ip eid params = .ok e) : e.Finite := by
  unfold create at h
  split at h
  · cases h
  · obtain ⟨_, -, h⟩ := bind_eq_ok_iff.mp h
    obtain ⟨function, -, h⟩ := bind_eq_ok_iff.mp h
    cases h
    refine finite_of_sensor? fun s hs => ?_
    cases function with
    | actor => cases hs
    | infrastructure => cases hs
    | sensor =>
      cases hs
      dsimp only
      unfold Params.bounds
      split
      · next min max hmin hmax => exact ⟨hparams.1 min hmin, hparams.2 max hmax⟩
      · exact htable eid

theorem writable_stateChange {e : Endpoint} (h : e.Finite) : e.stateChange.Writable :=
  ⟨⟨h.1, h.2, fun _ hp => nomatch hp⟩, rfl⟩

/-- The creation of a finite endpoint survives the wire. -/
theorem writable_creationChange {e : Endpoint} (h : e.Finite) : e.creationChange.Writable := by
  refine ⟨⟨nofun, nofun, fun p hp => ?_⟩, rfl⟩
  cases hp
  -- a type code that is given is a number, and a number is not `null`
  refine ⟨h.1, h.2, fun hnull => ?_⟩
  have hjson := congrArg (Option.map Value.json) hnull
  cases hjson

end Endpoint

/-! ### Changes of a device -/

namespace Device

variable {ip : String} {d d' : Device}

/-- A device with the same address and the same endpoints belongs to an address just as well. -/
theorem WellFormed.of_endpoints (hd : d.WellFormed ip) (hip : d'.ip = d.ip)
    (hendpoints : d'.endpoints = d.endpoints) : d'.WellFormed ip where
  address := hip.trans hd.address
  named := hd.named
  endpoints eid e he := hd.endpoints eid e (by
    unfold endpoint? at he ⊢
    rwa [← hendpoints])

theorem WellFormed.put (hd : d.WellFormed ip) {e : Endpoint} {eid : Eid} (hip : e.ip = ip)
    (heid : e.eid = eid) : (d.put eid e).WellFormed ip := by
  refine ⟨hd.address, hd.named, fun l e' he' => ?_⟩
  rw [endpoint?_put] at he'
  split at he'
  · next hl =>
    cases he'
    exact ⟨hip, heid.trans hl.symm⟩
  · exact hd.endpoints l e' he'

theorem WellFormed.without (hd : d.WellFormed ip) (eid : Eid) : (d.without eid).WellFormed ip := by
  refine ⟨hd.address, hd.named, fun l e he => ?_⟩
  rw [endpoint?_without] at he
  split at he
  · cases he
  · exact hd.endpoints l e he

theorem Finite.put (hd : d.Finite) {e : Endpoint} (he : e.Finite) (eid : Eid) :
    (d.put eid e).Finite := by
  intro l e' he'
  rw [endpoint?_put] at he'
  split at he'
  · cases he'
    exact he
  · exact hd l e' he'

theorem Finite.without (hd : d.Finite) (eid : Eid) : (d.without eid).Finite := by
  intro l e he
  rw [endpoint?_without] at he
  split at he
  · cases he
  · exact hd l e he

end Device

namespace Patch.DeviceChange

/-- **The change tells of a device**, which is new or another one before, at whatever clock and with
whatever table. -/
structure Tells (c : DeviceChange) (ip : String) (a : Option Device) (d : Device) : Prop where
  takes : ∀ table now, (Entry.change c).Takes .update table now ip a (some d)
  dated : c.Dated
  writable : d.Finite → c.Writable

variable {ip : String} {d d' : Device}

theorem Tells.wellFormed {c : DeviceChange} {a : Option Device} (h : c.Tells ip a d) :
    d.WellFormed ip := (h.takes .standard 0).wellFormed d rfl

/-- **The header tells of a device** whose endpoints stay as they are. -/
theorem tells_header (hd' : d'.WellFormed ip) (hendpoints : d'.endpoints = d.endpoints) :
    d'.headerChange.Tells ip (some d) d' := by
  refine ⟨fun table now => ⟨fun c hc => ?_, fun _ hw => ?_, rfl, fun eid => ?_⟩,
    fun key e he => (nomatch he), fun _ => ⟨fun key e he => (nomatch he), rfl⟩⟩
  · cases hc
    exact ⟨fun q hq => absurd hq List.not_mem_nil, fun _ => List.Pairwise.nil⟩
  · cases hw
    exact hd'
  · change some (d.endpoints.get? eid) = some (d'.endpoints.get? eid)
    rw [hendpoints]

/-- **The entry of one endpoint tells of a device** of which only that endpoint and perhaps the
header changed. -/
theorem tells_endpoint {c : DeviceChange} {eid : Eid} {c' : EndpointChange}
    (hd' : d'.WellFormed ip) (hempty : c.endpoints = ∅)
    (hheader : (Header.place ip).update d.header c = d'.header)
    (hother : ∀ l, l ≠ eid → d'.endpoint? l = d.endpoint? l)
    (hrun : ∀ table now, (Endpoint.place table now ip eid).run (d.endpoint? eid) (.change c') =
      some (d'.endpoint? eid))
    (hdated : c'.Dated) (hwritable : d'.Finite → c'.Writable) :
    (c.withEndpoint eid (.change c')).Tells ip (some d) d' := by
  have hentries := entries_withEndpoint hempty eid (.change c')
  have hget : ∀ key e, (c.withEndpoint eid (.change c')).endpoints.get? key = some e →
      e = .change c' := by
    intro key e he
    have hmem := SortedMap.get?_eq_some_iff.mp he
    rw [hentries, List.mem_singleton] at hmem
    cases hmem
    rfl
  refine ⟨fun table now => ⟨fun c'' hc => ?_, fun _ hw => ?_, ?_, fun l => ?_⟩,
    fun key e he => ?_, fun hfinite => ⟨fun key e he => ?_, ?_⟩⟩
  -- it takes the device to the other one
  · cases hc
    refine ⟨?_, fun _ => ?_⟩
    · rw [hentries]
      intro q hq
      rw [List.mem_singleton] at hq
      rw [hq]
      exact ⟨eid, Eid.ofText?_text eid⟩
    · rw [hentries]
      exact List.pairwise_singleton _ _
  · cases hw
    exact hd'
  · exact congrArg (fun h => some (some h)) hheader
  · change (Endpoint.place table now ip l).runAll (d.endpoint? l)
      (actsFor Eid.ofText? .update (c.withEndpoint eid (.change c')).endpoints.entries l) =
        some (d'.endpoint? l)
    rw [actsFor_withEndpoint hempty]
    by_cases hl : l = eid
    · rw [if_pos hl, Place.runAll_singleton, hl]
      exact hrun table now
    · rw [if_neg hl, Place.runAll_nil, hother l hl]
  -- and is dated and writable
  · rw [hget key e he]
    exact hdated
  · rw [hget key e he]
    exact hwritable hfinite
  · have hnot : (c.withEndpoint eid (.change c')).endpoints.isEmpty = false :=
      SortedMap.isEmpty_insert
    unfold isBlank
    rw [hnot, Bool.and_false]

/-- The creation of a device has the creation of every endpoint under its written number. -/
theorem get?_creationChange (d : Device) {key : String} {e : Entry EndpointChange} :
    d.creationChange.endpoints.get? key = some e ↔
      ∃ l e', d.endpoint? l = some e' ∧ l.text = key ∧ .change e'.creationChange = e :=
  SortedMap.get?_ofList_map (g := fun _ (e' : Endpoint) => Entry.change e'.creationChange)
    (m := d.endpoints) fun _ _ => Eid.text_injective

/-- **The creation tells of a device** that was not there. -/
theorem tells_creation (hd : d.WellFormed ip) : d.creationChange.Tells ip none d := by
  have hwritten : KeysWritten Eid.text d.creationChange.endpoints.entries := by
    intro p hp
    obtain ⟨l, -, -, hl, -⟩ := (get?_creationChange d).mp (SortedMap.get?_eq_some_iff.mpr hp)
    exact ⟨l, hl.symm⟩
  have hget : ∀ l, d.creationChange.endpoints.get? l.text =
      (d.endpoint? l).map fun e => .change e.creationChange := by
    refine fun l => Option.ext fun e => ?_
    rw [get?_creationChange, Option.map_eq_some_iff]
    constructor
    · rintro ⟨l', e', he', hl, he⟩
      cases Eid.text_injective hl
      exact ⟨e', he', he⟩
    · rintro ⟨e', he', he⟩
      exact ⟨l, e', he', rfl, he⟩
  refine ⟨fun table now => ⟨fun c hc => ?_, fun _ hw => ?_, ?_, fun l => ?_⟩,
    fun key e he => ?_, fun hfinite => ⟨fun key e he => ?_, rfl⟩⟩
  · cases hc
    exact ⟨hwritten.keysRead Eid.ofText?_text, fun _ => hwritten.keysDiffer Eid.ofText?_text⟩
  · cases hw
    exact hd
  · have hcreate : (Header.place ip).create d.creationChange = some d.header := if_neg hd.named
    change ((Header.place ip).create d.creationChange).map some = some (some d.header)
    rw [hcreate]
    rfl
  · change (Endpoint.place table now ip l).runAll none
      (actsFor Eid.ofText? .update d.creationChange.endpoints.entries l) = some (d.endpoint? l)
    rw [hwritten.actsFor_eq Eid.ofText?_text, hget]
    cases he : d.endpoint? l with
    | none => rfl
    | some e =>
      -- an endpoint of a new device is created from its creation, the only act at its place
      obtain ⟨rfl, rfl⟩ := hd.endpoints l e he
      have hcreate := e.ofChange_creationChange hd.named table now
      change (Endpoint.place table now e.ip e.eid).runAll none [.change e.creationChange] = _
      rw [Place.runAll_singleton, Place.run_none_change]
      unfold Endpoint.place
      simp only [hcreate]
      rfl
  · obtain ⟨l, e', -, -, rfl⟩ := (get?_creationChange d).mp he
    exact fun params _ => ⟨e'.lastUpdate, rfl⟩
  · obtain ⟨l, e', he', -, rfl⟩ := (get?_creationChange d).mp he
    exact Endpoint.writable_creationChange (hfinite l e' he')

end Patch.DeviceChange

/-! ### Operations on a device -/

namespace Device

variable {ip : String} {d d' : Device} {c : DeviceChange}

/-- The change of an endpoint that stays what it is tells of its new state. -/
theorem tells_put (hd : d.WellFormed ip) (hempty : c.endpoints = ∅) {eid : Eid} {e e' : Endpoint}
    (he : d.endpoint? eid = some e) (hupdate : e.update e'.stateChange = e')
    (hd' : d'.endpoints = (d.put eid e').endpoints) (hip : d'.ip = d.ip)
    (hheader : (Header.place ip).update d.header c = d'.header) :
    (c.withEndpoint eid (.change e'.stateChange)).Tells ip (some d) d' := by
  have hbelongs : e'.ip = ip ∧ e'.eid = eid := by
    rw [← hupdate]
    exact hd.endpoints eid e he
  have hput : ∀ l, d'.endpoint? l = if l = eid then some e' else d.endpoint? l := by
    intro l
    unfold endpoint?
    rw [hd']
    exact endpoint?_put
  refine Patch.DeviceChange.tells_endpoint ((hd.put hbelongs.1 hbelongs.2).of_endpoints hip hd')
    hempty hheader (fun l hl => ?_) (fun table now => ?_) (fun _ hparams => nomatch hparams)
    fun hfinite => ?_
  · rw [hput, if_neg hl]
  · rw [he, hput, if_pos rfl, Place.run_some_change]
    exact congrArg (fun e => some (some e)) hupdate
  · exact Endpoint.writable_stateChange (hfinite eid e' (by rw [hput, if_pos rfl]))

theorem tells_touch (hd : d.WellFormed ip) (now : Time) :
    (d.touch now).headerChange.Tells ip (some d) (d.touch now) :=
  Patch.DeviceChange.tells_header (hd.of_endpoints rfl rfl) rfl

theorem tells_rename (hd : d.WellFormed ip) (now : Time) (name : String) :
    (d.rename now name).headerChange.Tells ip (some d) (d.rename now name) :=
  Patch.DeviceChange.tells_header (hd.of_endpoints rfl rfl) rfl

/-- **A new endpoint** is told of by its creation. -/
theorem createEndpoint_spec (hd : d.WellFormed ip) {table : BoundsTable} {now : Time} {eid : Eid}
    {params : Endpoint.Params} (h : d.createEndpoint table now eid params = .ok (d', c)) :
    c.Tells ip (some d) d' ∧ (d.Finite → table.Finite → params.Finite → d'.Finite) ∧
      ∃ e, d'.endpoint? eid = some e := by
  unfold createEndpoint at h
  split at h
  · cases h
  · next hhas =>
    obtain ⟨e, he, h⟩ := bind_eq_ok_iff.mp h
    cases h
    have hbelongs : e.ip = ip ∧ e.eid = eid := by
      rw [hd.address] at he
      exact Endpoint.create_belongs he
    have hnone : d.endpoint? eid = none :=
      SortedMap.contains_eq_false_iff.mp (Bool.eq_false_iff.mpr hhas)
    -- there was no endpoint of the number, so the change creates it elsewhere too
    refine ⟨Patch.DeviceChange.tells_endpoint (hd.put hbelongs.1 hbelongs.2) rfl rfl
      (fun l hl => ?_) (fun clock now' => ?_) (fun _ _ => ⟨e.lastUpdate, rfl⟩) fun hfinite => ?_,
      fun hfinite htable hparams =>
        hfinite.put (Endpoint.finite_of_create htable hparams he) eid,
      e, by rw [endpoint?_put, if_pos rfl]⟩
    · rw [endpoint?_put, if_neg hl]
    · obtain ⟨rfl, rfl⟩ := hbelongs
      rw [hnone, endpoint?_put, if_pos rfl, Place.run_none_change]
      unfold Endpoint.place
      simp only [e.ofChange_creationChange hd.named]
      rfl
    · exact Endpoint.writable_creationChange (hfinite eid e (by rw [endpoint?_put, if_pos rfl]))

theorem requiredEndpoint_eq_ok_iff {eid : Eid} {e : Endpoint} :
    d.requiredEndpoint eid = .ok e ↔ d.endpoint? eid = some e := by
  unfold requiredEndpoint
  cases d.endpoint? eid with
  | none => simp
  | some e' => simp

/-- **A value that is reported** is told of by the state of its endpoint. -/
theorem setValue_spec (hd : d.WellFormed ip) {now : Time} {eid : Eid} {v : Value}
    (h : d.setValue now eid v = .ok (d', c)) :
    c.Tells ip (some d) d' ∧ (d.Finite → d'.Finite) := by
  obtain ⟨e, he, h⟩ := bind_eq_ok_iff.mp h
  cases h
  rw [requiredEndpoint_eq_ok_iff] at he
  refine ⟨tells_put hd rfl he (Endpoint.update_stateChange rfl rfl rfl rfl rfl rfl) rfl rfl rfl,
    fun hfinite => ?_⟩
  have hvalue : (e.setValue now v).Finite := hfinite eid e he
  exact hfinite.put hvalue eid

/-- **A bound that is set** is told of by the state of its endpoint. -/
theorem setBound_spec (hd : d.WellFormed ip) {eid : Eid} {field : String} {f : Bounds → Bounds}
    (h : d.setBound eid (·.mapBounds field f) = .ok (d', c)) :
    c.Tells ip (some d) d' ∧ (d.Finite → (∀ b : Bounds, b.min.isFinite = true →
      b.max.isFinite = true → (f b).min.isFinite = true ∧ (f b).max.isFinite = true) →
        d'.Finite) := by
  obtain ⟨e, he, h⟩ := bind_eq_ok_iff.mp h
  obtain ⟨e', he', h⟩ := bind_eq_ok_iff.mp h
  cases h
  rw [requiredEndpoint_eq_ok_iff] at he
  have he' : e.mapBounds field f = .ok e' := he'
  unfold Endpoint.mapBounds at he'
  split at he'
  · next s hs =>
    cases he'
    -- only a sensor has bounds, and it stays a sensor of the same unit
    have hfunction : e.function = .sensor := congrArg Role.function hs
    have hunit : e.unit = s.unit := congrArg (fun role => role.sensor?.bind (·.unit)) hs
    refine ⟨tells_put hd rfl he (Endpoint.update_stateChange rfl rfl rfl rfl hfunction.symm
      hunit.symm) rfl rfl rfl, fun hfinite hf => ?_⟩
    refine hfinite.put (Endpoint.finite_of_sensor? fun s' hs' => ?_) eid
    cases hs'
    have hrole : e.role.sensor? = some s := congrArg Role.sensor? hs
    have hmin : e.minvalue = some s.bounds.min := by
      rw [Endpoint.minvalue, hrole, Option.map_some]
    have hmax : e.maxvalue = some s.bounds.max := by
      rw [Endpoint.maxvalue, hrole, Option.map_some]
    obtain ⟨hminvalue, hmaxvalue⟩ := hfinite eid e he
    exact hf s.bounds (hminvalue _ hmin) (hmaxvalue _ hmax)
  · cases he'

end Device

end Fleet
