import Fleet.Daemon.Lifecycle
import Fleet.Proofs.Frames
import Fleet.Proofs.Merging
import Fleet.Proofs.SnapshotFiles

/-!
# Whatever comes in can be stored

Endpoints and values come into a tree from outside in three ways: from a snapshot file, from the
report of a discovery run, and by the frames of sessions. This module shows that each of them keeps
the tree storable (`Tree.Storable`), whatever the texts are.

All doubles that are read are finite. How deep a value can nest is a matter of where it stands: a
text nests at most 127 deep in all. In a snapshot file the five containers around a value leave 122
levels for it. In a patch there are as many, from the patch down to the change of an endpoint, and a
frame has one more around the patch. So what a frame brings fits into a file, with a level to spare.
Found endpoints come without values.
-/

namespace Fleet

open Json (Node Refusal Yields maxDepth)
open Patch (Entry EndpointChange DeviceChange)

theorem finiteIfGiven_none : FiniteIfGiven none := fun _ hx => nomatch hx

/-! ### Snapshot files -/

namespace EndpointRecord

/-- **The endpoint of the record can be stored.** -/
structure Storable (r : EndpointRecord) : Prop where
  finite : r.Finite
  shallow : r.lastValue.json.depth ≤ valueDepth

theorem storable_of_read {node : Node} (hnode : node.depth ≤ valueDepth + 1) {r : EndpointRecord}
    (h : read node = .ok r) : r.Storable := by
  unfold read at h
  obtain ⟨draft, hdraft, h⟩ := bind_eq_ok_iff.mp h
  obtain ⟨_, -, h⟩ := bind_eq_ok_iff.mp h
  obtain ⟨_, -, h⟩ := bind_eq_ok_iff.mp h
  cases h
  have hfloat := Node.yields_readOptional Node.yields_readFloat
  have hkept : FiniteIfGiven draft.minvalue ∧ FiniteIfGiven draft.maxvalue ∧
      draft.lastValue.json.depth ≤ valueDepth := by
    refine Json.Schema.keeps_read (P := fun draft : Draft => FiniteIfGiven draft.minvalue ∧
        FiniteIfGiven draft.maxvalue ∧ draft.lastValue.json.depth ≤ valueDepth)
      ⟨finiteIfGiven_none, finiteIfGiven_none, Nat.zero_le _⟩ (fun f hf part hpart => ?_) hdraft
    simp only [schema, List.mem_cons, List.not_mem_nil, or_false] at hf
    rcases hf with rfl | rfl | rfl | rfl | rfl | rfl | rfl | rfl
    · exact Json.Field.keepsOn_of fun _ _ _ hd => hd
    · exact Json.Field.keepsOn_of fun _ _ _ hd => hd
    · exact Json.Field.keepsOn_of fun _ _ _ hd => hd
    · exact Json.Field.keepsOn_of fun v _ hv hd => ⟨hd.1, hd.2.1,
        Nat.le_trans (Node.depth_of_readValue hv) (Node.depth_le_of_mem_parts hpart hnode)⟩
    · exact Json.Field.keepsOn_of fun _ _ _ hd => hd
    · exact Json.Field.keepsOn_of fun x _ hx hd => ⟨hfloat part x hx, hd.2⟩
    · exact Json.Field.keepsOn_of fun x _ hx hd => ⟨hd.1, hfloat part x hx, hd.2.2⟩
    · exact Json.Field.keepsOn_of fun _ _ _ hd => hd
  exact ⟨⟨hkept.1, hkept.2.1⟩, hkept.2.2⟩

/-- **The endpoint that a record describes** has finite bounds and the value of the record. -/
theorem Storable.toEndpoint {r : EndpointRecord} (hr : r.Storable) {table : BoundsTable}
    (htable : table.Finite) {ip : String} {eid : Eid} {e : Endpoint}
    (h : r.toEndpoint table ip eid = .ok e) : e.Finite ∧ e.Shallow := by
  obtain ⟨e₀, he₀, rfl⟩ := map_eq_ok_iff.mp h
  have hparams : r.params.Finite := ⟨hr.finite.minvalue, hr.finite.maxvalue⟩
  have hfinite := Endpoint.finite_of_create htable hparams he₀
  exact ⟨Endpoint.finite_update hfinite ⟨nofun, nofun, nofun⟩, hr.shallow⟩

end EndpointRecord

namespace DeviceRecord

/-- **All endpoints of the record can be stored.** -/
def Storable (r : DeviceRecord) : Prop :=
  ∀ key e, r.endpoints.get? key = some e → e.Storable

theorem storable_of_read {node : Node} (hnode : node.depth ≤ valueDepth + 3) {r : DeviceRecord}
    (h : read node = .ok r) : r.Storable := by
  unfold read at h
  obtain ⟨draft, hdraft, h⟩ := bind_eq_ok_iff.mp h
  obtain ⟨_, -, h⟩ := bind_eq_ok_iff.mp h
  obtain ⟨_, -, h⟩ := bind_eq_ok_iff.mp h
  cases h
  refine Json.Schema.keeps_read (P := fun draft : Draft =>
      ∀ key e, draft.endpoints.get? key = some e → e.Storable) (by simp)
    (fun f hf part hpart => ?_) hdraft
  simp only [schema, List.mem_cons, List.not_mem_nil, or_false] at hf
  rcases hf with rfl | rfl | rfl
  · exact Json.Field.keepsOn_of fun _ _ _ hd => hd
  · exact Json.Field.keepsOn_of fun _ _ _ hd => hd
  · have hpart := Node.depth_le_of_mem_parts hpart hnode
    exact Json.Field.keepsOn_of fun m _ hm _ => Node.forall_of_readMap (fun item hitem r hr =>
      EndpointRecord.storable_of_read (Node.depth_le_of_mem_parts hitem hpart) hr) hm

end DeviceRecord

namespace Snapshot

/-- **All endpoints of the snapshot can be stored.** -/
def Storable (s : Snapshot) : Prop := ∀ ip r, s.devices.get? ip = some r → r.Storable

theorem storable_of_read {node : Node} (hnode : node.depth ≤ valueDepth + 5) {s : Snapshot}
    (h : read node = .ok s) : s.Storable := by
  have hempty : Storable {} := fun ip r hr => nomatch hr
  refine Json.Schema.keeps_read hempty (fun f hf part hpart => ?_) h
  simp only [schema, List.mem_cons, List.not_mem_nil, or_false] at hf
  rcases hf with rfl | rfl
  · have hpart := Node.depth_le_of_mem_parts hpart hnode
    exact Json.Field.keepsOn_of fun m _ hm _ => Node.forall_of_readMap (fun item hitem r hr =>
      DeviceRecord.storable_of_read (Node.depth_le_of_mem_parts hitem hpart) hr) hm
  · exact Json.Field.keepsOn_of fun _ _ _ hs => hs

/-- **What a file holds can be stored.** -/
theorem storable_of_ofFile {text : String} {s : Snapshot} (h : ofFile text = .ok s) :
    s.Storable := by
  have hread : Json.readText read text = .ok s := mapError_eq_ok_iff.mp h
  unfold Json.readText at hread
  exact storable_of_read (Json.depth_ofText text) (Json.eq_ok_of_whenClosed hread)

end Snapshot

namespace Tree

variable {t u : Tree}

theorem storable_ofBounds {table : BoundsTable} (htable : table.Finite) :
    (ofBounds table).Storable where
  finite := ⟨htable, by simp [ofBounds, device?]⟩
  shallow := by simp [Everywhere, ofBounds, device?]

/-- **What is restored can be stored** if what the snapshot describes can. -/
theorem storable_restore {s : Snapshot} (hs : s.Storable) (hbounds : t.bounds.Finite)
    (h : t.restore s = .ok u) : u.Storable := by
  have hall : u.Everywhere fun e => e.Finite ∧ e.Shallow :=
    everywhere_restore (fun ip r hr key er her eid e he =>
      (hs ip r hr key er her).toEndpoint hbounds he) h
  refine ⟨⟨bounds_restore h ▸ hbounds, ?_⟩, ?_⟩
  · exact fun ip d hd eid e he => (hall ip d hd eid e he).1
  · exact fun ip d hd eid e he => (hall ip d hd eid e he).2

end Tree

/-! ### Tables of bounds -/

/-- Both bounds are finite. -/
def Bounds.Finite (b : Bounds) : Prop := b.min.isFinite = true ∧ b.max.isFinite = true

instance (b : Bounds) : Decidable b.Finite := inferInstanceAs (Decidable (_ ∧ _))

/-- **Bounds that were read** are finite. -/
theorem Bounds.yields_read : Yields read Finite := by
  intro node b h
  unfold read at h
  obtain ⟨draft, hdraft, h⟩ := bind_eq_ok_iff.mp h
  have hkept : FiniteIfGiven draft.min ∧ FiniteIfGiven draft.max := by
    refine Json.Schema.yields_read (P := fun draft : Draft =>
      FiniteIfGiven draft.min ∧ FiniteIfGiven draft.max) ⟨finiteIfGiven_none, finiteIfGiven_none⟩
      (fun f hf => ?_) _ _ hdraft
    simp only [schema, List.mem_cons, List.not_mem_nil, or_false] at hf
    rcases hf with rfl | rfl
    · exact Json.Field.keeps_of Node.yields_readFloat fun x draft hx hd =>
        ⟨fun y hy => Option.some.inj hy ▸ hx, hd.2⟩
    · exact Json.Field.keeps_of Node.yields_readFloat fun x draft hx hd =>
        ⟨hd.1, fun y hy => Option.some.inj hy ▸ hx⟩
  obtain ⟨min, hmin, h⟩ := bind_eq_ok_iff.mp h
  obtain ⟨max, hmax, h⟩ := bind_eq_ok_iff.mp h
  cases h
  exact ⟨hkept.1 min (Json.eq_some_of_required hmin), hkept.2 max (Json.eq_some_of_required hmax)⟩

namespace BoundsTable

variable {table : BoundsTable}

/-- A table is finite if all that is in it is. -/
theorem finite_of (hown : ∀ eid b, table.perEid.get? eid = some b → b.Finite)
    (hfallback : table.fallback.Finite) : table.Finite := by
  intro eid
  unfold lookup
  cases hb : table.perEid.get? eid with
  | none => exact hfallback
  | some b => exact hown eid b hb

theorem finite_standard : standard.Finite := finite_of (by decide +kernel) (by decide +kernel)

/-- **A table that was read** is finite. -/
theorem yields_read : Yields read BoundsTable.Finite := by
  intro node table h
  have hkept : (∀ eid b, table.perEid.get? eid = some b → b.Finite) ∧ table.fallback.Finite := by
    refine Json.Schema.yields_read (P := fun table : BoundsTable =>
      (∀ eid b, table.perEid.get? eid = some b → b.Finite) ∧ table.fallback.Finite)
      ⟨by simp [ofFallback], by decide +kernel⟩ (fun f hf => ?_) node table h
    simp only [schema, List.mem_cons, List.not_mem_nil, or_false] at hf
    rcases hf with rfl | rfl
    · exact Json.Field.keeps_of (Node.yields_readMap Bounds.yields_read)
        fun m table hm ht => ⟨hm, ht.2⟩
    · exact Json.Field.keeps_of Bounds.yields_read fun b table hb ht => ⟨ht.1, hb⟩
  exact finite_of hkept.1 hkept.2

end BoundsTable

/-- **The table that a daemon starts with** is finite, whatever its file holds. -/
theorem Daemon.finite_loadBounds (file : Option String) : (loadBounds file).Finite := by
  unfold loadBounds
  split
  · exact BoundsTable.finite_standard
  · next text =>
    cases hread : Json.readText BoundsTable.read text with
    | error e => exact BoundsTable.finite_standard
    | ok table =>
      unfold Json.readText at hread
      exact BoundsTable.yields_read _ table (Json.eq_ok_of_whenClosed hread)

/-! ### Found devices -/

namespace Discovery

/-- A field of the description keeps what it keeps of the description. -/
theorem keeps_describing {f : Json.Field Fleet.Endpoint.Params} {P : Fleet.Endpoint.Params → Prop}
    (h : f.Keeps P) : (describing f).Keeps fun draft => P draft.params := by
  intro node draft draft' hdraft hput
  obtain ⟨p, hp, rfl⟩ := map_eq_ok_iff.mp hput
  exact h node draft.params p hdraft hp

/-- **The description of an announced endpoint** is finite. -/
theorem Endpoint.yields_read : Yields read fun e => e.params.Finite := by
  intro node e h
  unfold read at h
  split at h
  · obtain ⟨_, -, h⟩ := bind_eq_ok_iff.mp h
    obtain ⟨draft, hdraft, h⟩ := bind_eq_ok_iff.mp h
    obtain ⟨_, -, h⟩ := bind_eq_ok_iff.mp h
    cases h
    have hwritable : draft.params.Writable := by
      refine Json.Schema.yields_read (P := fun draft : EndpointDraft => draft.params.Writable)
        Fleet.Endpoint.Params.writable_empty (fun f hf => ?_) _ _ hdraft
      rcases List.mem_cons.mp hf with rfl | hf
      · exact Json.Field.keeps_of_set fun _ _ hd => hd
      · obtain ⟨field, hfield, rfl⟩ := List.mem_map.mp hf
        exact keeps_describing (Fleet.Endpoint.Params.keeps_fields field hfield)
    exact ⟨hwritable.minvalue, hwritable.maxvalue⟩
  · cases h

/-- All descriptions of a found device are finite. -/
def Device.Finite (found : Device) : Prop := ∀ e ∈ found.endpoints, e.params.Finite

theorem Device.yields_read : Yields read Finite := by
  intro node found h
  unfold read at h
  obtain ⟨draft, hdraft, h⟩ := bind_eq_ok_iff.mp h
  obtain ⟨_, -, h⟩ := bind_eq_ok_iff.mp h
  obtain ⟨_, -, h⟩ := bind_eq_ok_iff.mp h
  cases h
  refine Json.Schema.yields_read (P := fun draft : DeviceDraft =>
    ∀ e ∈ draft.endpoints, e.params.Finite) (by simp) (fun f hf => ?_) _ _ hdraft
  simp only [schema, List.mem_cons, List.not_mem_nil, or_false] at hf
  rcases hf with rfl | rfl | rfl
  · exact Json.Field.keeps_of_set fun _ _ hd => hd
  · exact Json.Field.keeps_of_set fun _ _ hd => hd
  · exact Json.Field.keeps_of (Node.yields_readList Endpoint.yields_read) fun _ _ hes _ => hes

/-- **All that a discovery run found** is finite. -/
theorem yields_readAll : Yields readAll fun found => ∀ d ∈ found, d.Finite :=
  Node.yields_readList Device.yields_read

end Discovery

/-- A new endpoint has the value zero. -/
theorem Endpoint.shallow_of_create {table : BoundsTable} {now : Time} {ip : String} {eid : Eid}
    {params : Params} {e : Endpoint} (h : create table now ip eid params = .ok e) : e.Shallow := by
  unfold create at h
  split at h
  · cases h
  · obtain ⟨_, -, h⟩ := bind_eq_ok_iff.mp h
    obtain ⟨_, -, h⟩ := bind_eq_ok_iff.mp h
    cases h
    exact Nat.zero_le _

namespace Tree

variable {t : Tree} {times : MergeTimes} {found : Discovery.Device}

/-- **A merge brings no values.** -/
theorem shallow_merge (ht : t.WellFormed) (hshallow : t.Everywhere Endpoint.Shallow) :
    (t.merge times found).tree.Everywhere Endpoint.Shallow := by
  obtain ⟨e, hrefused⟩ | ⟨r, -, hmerged⟩ := merge_cases ht times found
  · rw [hrefused]
    exact hshallow
  · intro ip d hd eid x hx
    have hthere : (t.merge times found).tree.endpointAt? ip eid = some x :=
      Option.bind_eq_some_iff.mpr ⟨d, hd, hx⟩
    obtain hbefore | ⟨e, -, hcreate⟩ := hmerged.of_endpointAt? hthere
    · obtain ⟨d', hd', hx'⟩ := Option.bind_eq_some_iff.mp hbefore
      exact hshallow ip d' hd' eid x hx'
    · exact Endpoint.shallow_of_create hcreate

/-- **A merge keeps the tree storable**, and well-formed. -/
theorem storable_merge (ht : t.WellFormed) (hstorable : t.Storable) (times : MergeTimes)
    (hfound : found.Finite) :
    (t.merge times found).tree.WellFormed ∧ (t.merge times found).tree.Storable := by
  have htold : (t.merge times found).Told (fun u => True → u.Finite) t :=
    told_merge ht (fun _ => hstorable.finite) times fun _ => hfound
  exact ⟨Told.wellFormed htold ht,
    Told.last htold (fun _ => hstorable.finite) trivial, shallow_merge ht hstorable.shallow⟩

end Tree

/-! ### Frames -/

namespace Patch

/-- **The value of the change fits** into a file, if it gives one. -/
def EndpointChange.Shallow (c : EndpointChange) : Prop :=
  ∀ v, c.lastValue = some v → v.json.depth ≤ valueDepth

/-- All values in the change fit into a file. -/
def DeviceChange.Shallow (c : DeviceChange) : Prop :=
  ∀ key e, c.endpoints.get? key = some e → e.Satisfies EndpointChange.Shallow

/-- **All values in the patch fit** into a file. -/
def Shallow (p : Patch) : Prop :=
  ∀ ip e, p.devices.get? ip = some e → e.Satisfies DeviceChange.Shallow

theorem EndpointChange.shallow_of_read {node : Node} (hnode : node.depth ≤ valueDepth + 1)
    {c : EndpointChange} (h : read node = .ok c) : c.Shallow := by
  have hempty : Shallow {} := fun v hv => nomatch hv
  refine Json.Schema.keeps_read hempty (fun f hf part hpart => ?_) h
  simp only [schema, List.mem_cons, List.not_mem_nil, or_false] at hf
  rcases hf with rfl | rfl | rfl | rfl | rfl
  · exact Json.Field.keepsOn_of fun _ _ _ hc => hc
  · exact Json.Field.keepsOn_of fun v _ hv _ v' hv' => Option.some.inj hv' ▸
      Nat.le_trans (Node.depth_of_readValue hv) (Node.depth_le_of_mem_parts hpart hnode)
  · exact Json.Field.keepsOn_of fun _ _ _ hc => hc
  · exact Json.Field.keepsOn_of fun _ _ _ hc => hc
  · exact Json.Field.keepsOn_of fun _ _ _ hc => hc

/-- **The values of an entry fit** where those of the change do. -/
theorem Entry.shallow_of_read {α : Type} {readChange : Node → Except Refusal α}
    {isBlank : α → Bool} {P : α → Prop} {k : Nat}
    (h : ∀ node : Node, node.depth ≤ k → ∀ a, readChange node = .ok a → P a) {node : Node}
    (hnode : node.depth ≤ k) {e : Entry α} (he : Entry.read readChange isBlank node = .ok e) :
    e.Satisfies P :=
  (satisfies_of_read (fun v hv a ha =>
    h (.ofValue v) (Nat.le_trans (Node.depth_of_readValue hv) hnode) a ha) he).imp fun _ => And.left

theorem DeviceChange.shallow_of_read {node : Node} (hnode : node.depth ≤ valueDepth + 3)
    {c : DeviceChange} (h : read node = .ok c) : c.Shallow := by
  have hempty : Shallow {} := fun key e he => nomatch he
  refine Json.Schema.keeps_read hempty (fun f hf part hpart => ?_) h
  simp only [schema, List.mem_cons, List.not_mem_nil, or_false] at hf
  rcases hf with rfl | rfl | rfl
  · exact Json.Field.keepsOn_of fun _ _ _ hc => hc
  · exact Json.Field.keepsOn_of fun _ _ _ hc => hc
  · have hpart := Node.depth_le_of_mem_parts hpart hnode
    exact Json.Field.keepsOn_of fun m _ hm _ => Node.forall_of_readMap (fun item hitem e he =>
      Entry.shallow_of_read (fun _ hdepth _ => EndpointChange.shallow_of_read hdepth)
        (Node.depth_le_of_mem_parts hitem hpart) he) hm

/-- **The values of a patch fit** if the data do not nest deeper than a text can. -/
theorem shallow_of_ofValue {v : Value} (hv : v.json.depth ≤ maxDepth) {p : Patch}
    (h : ofValue v = .ok p) : p.Shallow := by
  have hread : read (.ofValue v) = .ok p := mapError_eq_ok_iff.mp h
  have hdepth : (Node.ofValue v).depth ≤ valueDepth + 5 := hv
  have hempty : Shallow {} := fun ip e he => nomatch he
  refine Json.Schema.keeps_read hempty (fun f hf part hpart => ?_) hread
  simp only [schema, List.mem_cons, List.not_mem_nil, or_false] at hf
  rcases hf with rfl | rfl
  · have hpart := Node.depth_le_of_mem_parts hpart hdepth
    exact Json.Field.keepsOn_of fun m _ hm _ => Node.forall_of_readMap (fun item hitem e he =>
      Entry.shallow_of_read (fun _ hdepth _ => DeviceChange.shallow_of_read hdepth)
        (Node.depth_le_of_mem_parts hitem hpart) he) hm
  · exact Json.Field.keepsOn_of fun _ _ _ hp => hp

/-- **A patch keeps the tree storable** if it survives the wire and its values fit. -/
theorem Takes.storable {p : Patch} {manner : Tree.Manner} {now : Time} {t u : Tree}
    (h : p.Takes manner now t u) (hwritable : p.Writable) (hshallow : p.Shallow)
    (ht : t.Storable) : u.Storable := by
  refine ⟨h.finite hwritable ht.finite, h.everywhere (C := EndpointChange.Shallow) hshallow
    (fun _ _ _ _ _ _ _ hcreate => Endpoint.shallow_of_create hcreate) (fun e c he hc => ?_)
    ht.shallow⟩
  -- the value is that of the change, or the one from before
  show (c.lastValue.getD e.lastValue).json.depth ≤ valueDepth
  cases hgiven : c.lastValue with
  | none => exact he
  | some v => exact hc v hgiven

end Patch

namespace Message

/-- The data of a patch do not nest deeper than where they were read from. -/
def Shallow (k : Nat) (m : Message) : Prop := ∀ q, m.patch? = some q → q.2.json.depth ≤ k

theorem Kind.shallow_of_readData {buffered : Bool} {kind : Kind} {node : Node} {m : Message}
    (h : kind.readData buffered node = .ok m) : m.Shallow node.depth := by
  intro q hq
  cases kind with
  | update =>
    obtain ⟨v, hv, rfl⟩ := map_eq_ok_iff.mp h
    cases hq
    exact Node.depth_of_readValue hv
  | delete =>
    obtain ⟨v, hv, rfl⟩ := map_eq_ok_iff.mp h
    cases hq
    exact Node.depth_of_readValue hv
  | init =>
    obtain ⟨_, -, rfl⟩ := map_eq_ok_iff.mp h
    cases hq
  | error =>
    obtain ⟨_, -, rfl⟩ := map_eq_ok_iff.mp h
    cases hq
  | requestInit | ping | pong =>
    cases node with
    | null =>
      cases h
      cases hq
    | _ => cases h

/-- What has been read of a message does not nest deeper than `k`. -/
def Draft.Shallow (k : Nat) : Draft → Prop
  | buffered data => data.depth ≤ k
  | complete m => m.Shallow k
  | _ => True

theorem Shallow.mono {m : Message} {j k : Nat} (h : m.Shallow j) (hle : j ≤ k) : m.Shallow k :=
  fun q hq => Nat.le_trans (h q hq) hle

theorem Draft.shallow_putName {node : Node} {k : Nat} {draft draft' : Draft}
    (hdraft : draft.Shallow k) (h : draft.putName node = .ok draft') : draft'.Shallow k := by
  cases draft with
  | blank =>
    obtain ⟨kind, -, h⟩ := bind_eq_ok_iff.mp h
    cases h
    trivial
  | buffered data =>
    obtain ⟨kind, -, h⟩ := bind_eq_ok_iff.mp h
    obtain ⟨m, hm, h⟩ := bind_eq_ok_iff.mp h
    cases h
    exact (Kind.shallow_of_readData hm).mono hdraft
  | named kind => cases h
  | complete m => cases h

theorem Draft.shallow_putData {node : Node} {k : Nat} (hnode : node.depth ≤ k)
    {draft draft' : Draft} (h : draft.putData node = .ok draft') : draft'.Shallow k := by
  cases draft with
  | blank =>
    obtain ⟨v, -, h⟩ := bind_eq_ok_iff.mp h
    cases h
    exact hnode
  | named kind =>
    obtain ⟨m, hm, h⟩ := bind_eq_ok_iff.mp h
    cases h
    exact (Kind.shallow_of_readData hm).mono hnode
  | buffered data => cases h
  | complete m => cases h

/-- **The data of a patch are part of the message** that was read. -/
theorem shallow_of_read {node : Node} {k : Nat} (hnode : node.depth ≤ k + 1) {m : Message}
    (h : read node = .ok m) : m.Shallow k := by
  unfold read at h
  split at h
  · split at h
    · next name data =>
      obtain ⟨kind, -, h⟩ := bind_eq_ok_iff.mp h
      have hdata := Node.depth_array_le_iff.mp hnode data (by simp)
      exact (Kind.shallow_of_readData (Json.eq_ok_of_whenClosed h)).mono hdata
    · cases h
  · obtain ⟨draft, hdraft, h⟩ := bind_eq_ok_iff.mp h
    have hkept : draft.Shallow k := by
      have hblank : Draft.blank.Shallow k := trivial
      refine Json.Schema.keeps_read hblank (fun f hf part hpart => ?_) hdraft
      simp only [schema, List.mem_cons, List.not_mem_nil, or_false] at hf
      rcases hf with rfl | rfl
      · exact fun _ _ hd hput => Draft.shallow_putName hd hput
      · exact fun _ _ _ hput =>
          Draft.shallow_putData (Node.depth_le_of_mem_parts hpart hnode) hput
    cases draft with
    | complete m' =>
      cases h
      exact hkept
    -- a message of which only the name was read has no data
    | named kind => cases kind <;> cases h <;> exact nofun
    | blank => cases h
    | buffered data => cases h

end Message

/-- **The patch of an event in a frame** survives the wire, and its values fit. -/
theorem storable_of_eventIn? {frame : String} {e : Event} (h : eventIn? frame = some e) :
    e.patch.Writable ∧ e.patch.Shallow := by
  obtain ⟨m, hm, hevent⟩ := Option.bind_eq_some_iff.mp h
  obtain ⟨q, hq, hpatch⟩ := Option.bind_eq_some_iff.mp hevent
  obtain ⟨p, hp, rfl⟩ := Option.map_eq_some_iff.mp hpatch
  have hvalue : Patch.ofValue q.2 = .ok p := toOption_eq_some_iff.mp hp
  have hread : Json.readText Message.read frame = .ok m :=
    mapError_eq_ok_iff.mp (toOption_eq_some_iff.mp hm)
  unfold Json.readText at hread
  have hshallow := Message.shallow_of_read (k := maxDepth)
    (Nat.le_succ_of_le (Json.depth_ofText frame)) (Json.eq_ok_of_whenClosed hread)
  exact ⟨Patch.writable_of_ofValue hvalue, Patch.shallow_of_ofValue (hshallow q hq) hvalue⟩

end Fleet
