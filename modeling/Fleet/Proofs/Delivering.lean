import Fleet.Proofs.Intake
import Fleet.Proofs.Reconnecting
import Fleet.Proofs.Wire

/-!
# Loading and delivering

A server loads its tree from a file and delivers it in frames. Both are texts of the same records,
but a frame has one container more around them, the message. So a value that is read from a file has
room for 122 levels of brackets (`valueDepth`), and in a frame there is room for 121
(`deliveryDepth`).

Whatever a server has loaded, it answers the request for the whole tree, and the answer is read as
the snapshot of the tree and gives every client the tree, unless some value takes all the room that
a file has (`Server.delivers_loaded`). Such a tree can be loaded, but a client that asks for it goes
on without it (`Server.not_delivered`).

The limit is exact because how deep the snapshot of a tree nests is a matter of its values alone
(`Tree.depth_snapshot_le_iff`).
-/

namespace Fleet

open Json (Slot present maxDepth)

/-! ### How deep a snapshot nests -/

namespace Json

variable {α : Type} {k : Nat} {write : α → Json}

theorem depth_ofMap_le_iff {m : SortedMap String α} :
    (ofMap id write m).depth ≤ k + 1 ↔ ∀ key a, m.get? key = some a → (write a).depth ≤ k := by
  rw [ofMap, depth_object_le_iff, List.forall_mem_map]
  exact ⟨fun h key a ha => h (key, a) (SortedMap.get?_eq_some_iff.mp ha),
    fun h p hp => h p.1 p.2 (SortedMap.get?_eq_some_iff.mpr hp)⟩

/-- A record nests one level deeper than what is written of it. -/
theorem depth_present_le_iff {slots : List Slot} :
    (object (present slots)).depth ≤ k + 1 ↔
      slots.Forall fun slot => ∀ document ∈ slot.2, document.depth ≤ k := by
  rw [depth_object_le_iff, List.forall_iff_forall_mem]
  constructor
  · intro h slot hslot document hdocument
    exact h (slot.1, document)
      (List.mem_filterMap.mpr ⟨slot, hslot, Option.map_eq_some_iff.mpr ⟨document, hdocument, rfl⟩⟩)
  · intro h p hp
    obtain ⟨slot, hslot, heq⟩ := List.mem_filterMap.mp hp
    obtain ⟨document, hdocument, rfl⟩ := Option.map_eq_some_iff.mp heq
    exact h slot hslot document hdocument

end Json

theorem EndpointRecord.depth_le_iff {e : Endpoint} {k : Nat} :
    (ofEndpoint e).toJson.depth ≤ k + 1 ↔ e.lastValue.json.depth ≤ k := by
  have htype : (ofEndpoint e).typeCode.json.depth = 0 := rfl
  rw [toJson_eq_present, Json.depth_present_le_iff]
  simp [slots, htype]
  rfl

theorem DeviceRecord.depth_le_iff {ip : String} {d : Device} (hd : d.WellFormed ip) {k : Nat} :
    (ofDevice d).toJson.depth ≤ k + 3 ↔
      ∀ eid e, d.endpoint? eid = some e → e.lastValue.json.depth ≤ k := by
  have hslots : (ofDevice d).toJson = .object (present (ofDevice d).slots) := rfl
  have hrecords : (Json.ofMap id EndpointRecord.toJson (ofDevice d).endpoints).depth ≤ k + 2 ↔
      ∀ eid e, d.endpoint? eid = some e → e.lastValue.json.depth ≤ k := by
    rw [Json.depth_ofMap_le_iff]
    constructor
    · intro h eid e he
      exact EndpointRecord.depth_le_iff.mp
        (h eid.text _ ((get?_endpoints_ofDevice hd).mpr ⟨eid, e, he, rfl, rfl⟩))
    · intro h key r hr
      obtain ⟨eid, e, he, -, rfl⟩ := (get?_endpoints_ofDevice hd).mp hr
      exact EndpointRecord.depth_le_iff.mpr (h eid e he)
  rw [hslots, Json.depth_present_le_iff, ← hrecords]
  simp [slots]

/-- Views hold no values. -/
theorem ViewRecord.depth_le (r : ViewRecord) (k : Nat) : r.toJson.depth ≤ k + 2 :=
  (r.legible k).2

namespace Tree

variable {t u : Tree} {k : Nat}

/-- **How deep the snapshot of a tree nests** is a matter of its values, around each of which there
are five containers. -/
theorem depth_snapshot_le_iff (ht : t.WellFormed) : t.snapshot.toJson.depth ≤ k + 5 ↔
    t.Everywhere fun e => e.lastValue.json.depth ≤ k := by
  have hslots : t.snapshot.toJson = .object (present t.snapshot.slots) := rfl
  have hviews : (Json.ofMap id ViewRecord.toJson t.snapshot.views).depth ≤ k + 4 :=
    Json.depth_ofMap_le_iff.mpr fun _ r _ => r.depth_le (k + 1)
  have hdevices : (Json.ofMap id DeviceRecord.toJson t.snapshot.devices).depth ≤ k + 4 ↔
      t.Everywhere fun e => e.lastValue.json.depth ≤ k := by
    rw [Json.depth_ofMap_le_iff]
    constructor
    · intro h ip d hd
      exact (DeviceRecord.depth_le_iff (ht.devices ip d hd)).mp
        (h ip _ (get?_devices_snapshot.mpr ⟨d, hd, rfl⟩))
    · intro h ip r hr
      obtain ⟨d, hd, rfl⟩ := get?_devices_snapshot.mp hr
      exact (DeviceRecord.depth_le_iff (ht.devices ip d hd)).mpr (h ip d hd)
  rw [hslots, Json.depth_present_le_iff, ← hdevices]
  simp [Snapshot.slots, hviews]

/-- **In the message with the whole tree** there are six containers around each value. -/
theorem depth_ofTree_le_iff (ht : t.WellFormed) : (Message.ofTree t).toJson.depth ≤ k + 6 ↔
    t.Everywhere fun e => e.lastValue.json.depth ≤ k := by
  rw [Message.depth_toJson_le_iff, ← depth_snapshot_le_iff ht]
  exact ⟨fun h => h _ rfl, fun h _ hdata => Option.some.inj hdata ▸ h⟩

end Tree

/-! ### What can be delivered -/

/-- **How deep a value may nest** in the frame with the whole tree, where six containers stand
around it. -/
def deliveryDepth : Nat := maxDepth - 6

namespace Endpoint

/-- **The value of the endpoint fits** into the frame with the whole tree. -/
def Deliverable (e : Endpoint) : Prop := e.lastValue.json.depth ≤ deliveryDepth

instance (e : Endpoint) : Decidable e.Deliverable := inferInstanceAs (Decidable (_ ≤ _))

end Endpoint

namespace Tree

variable {t u : Tree}

/-- **What is restored is shallow** if what the snapshot describes is, with any table of bounds. -/
theorem shallow_restore {s : Snapshot} (hs : s.Storable) (h : t.restore s = .ok u) :
    u.Everywhere Endpoint.Shallow := by
  refine everywhere_restore (fun ip r hr key er her eid e he => ?_) h
  obtain ⟨_, -, rfl⟩ := map_eq_ok_iff.mp he
  exact (hs ip r hr key er her).shallow

/-- **The message with the whole tree** is read from its frame if all values fit, and else it is
refused. -/
theorem decode_ofTree (ht : t.WellFormed) (hfinite : t.Everywhere Endpoint.Finite)
    (hshallow : t.Everywhere Endpoint.Shallow) (hfaithful : t.Faithful) :
    Message.decode (Message.ofTree t).encode =
      if t.Everywhere Endpoint.Deliverable then .ok (Message.ofTree t)
      else .error (.unreadable "") := by
  have hdocument : (Message.ofTree t).toJson.Faithful := by
    refine Json.faithful_object.mpr fun p hp => ?_
    rcases List.mem_cons.mp hp with rfl | hp
    · exact nofun
    · rw [List.mem_singleton.mp hp]
      exact (legible_snapshot ht hshallow hfaithful).1
  have hdeliverable : (Message.ofTree t).toJson.depth ≤ 127 ↔ t.Everywhere Endpoint.Deliverable :=
    depth_ofTree_le_iff ht
  rw [Message.decode_of_faithful (m := Message.ofTree t) (finite_snapshot ht hfinite) hdocument]
  exact if_congr hdeliverable rfl rfl

end Tree

namespace Sync

/-- **What a server has loaded it delivers**, but for values that take all the room that a file has.
Whatever text the snapshot was read from, if every double in the tree is one that its written form
gives back, then a session that asks for the whole tree gets one frame. All values nest at most 122
deep. If they nest at most 121 deep, the frame is read as the snapshot of the tree, and whatever
client gets it holds the content of the tree then. Else the frame cannot be read, and does nothing
to any client. -/
theorem Server.delivers_loaded {text : String} {snapshot : Snapshot} {s : Server} {n : Nat}
    {x : Session} (hread : Snapshot.ofFile text = .ok snapshot)
    (hload : Tree.ofSnapshot s.tree.bounds snapshot = .ok s.tree)
    (hfinite : s.tree.Everywhere Endpoint.Finite) (hfaithful : s.tree.Faithful)
    (hx : s.sessions.get? n = some x) (now : Time) :
    ∃ s' frame, s.receive now n Message.requestInit.encode = (s', [frame]) ∧ s'.tree = s.tree ∧
      s.tree.Everywhere Endpoint.Shallow ∧
      (s.tree.Everywhere Endpoint.Deliverable →
        Message.decode frame = .ok (.init s.tree.snapshot) ∧
        ∀ (c : Client) (later : Time),
          (c.receive later frame).client.replica.SameContent s.tree) ∧
      (¬ s.tree.Everywhere Endpoint.Deliverable →
        (∃ e, Message.decode frame = .error e ∧ e.kind = "DeserializationError") ∧
        ∀ (c : Client) (later : Time), (c.receive later frame).client = c) := by
  obtain ⟨s', hreceive, htree, -⟩ := receive_requestInit hx now
  have ht : s.tree.WellFormed := Tree.wellFormed_restore hload
  have hshallow := Tree.shallow_restore (Snapshot.storable_of_ofFile hread) hload
  have hdecode := Tree.decode_ofTree ht hfinite hshallow hfaithful
  refine ⟨s', _, hreceive, htree, hshallow, fun hall => ?_, fun hdeep => ?_⟩
  · rw [if_pos hall] at hdecode
    exact ⟨hdecode, fun c later => Client.replica_receive_ofTree ht hdecode c later⟩
  · rw [if_neg hdeep] at hdecode
    refine ⟨⟨_, hdecode, rfl⟩, fun c later => ?_⟩
    unfold Client.receive
    rw [hdecode]

/-- A snapshot with numbers that are spelled in unusual ways, a value in lists, and a view that
lists what it shows under its other name. -/
def legacyText : String :=
  "\x7b\"devices\":\x7b\"hall\":\x7b\"name\":\"Hall\",\"last_update\":3," ++
    "\"endpoints\":\x7b\"07\":\x7b\"type\":\"4\",\"function\":\"sensor\",\"last_value\":[[1.5]]" ++
      "\x7d\x7d\x7d\x7d," ++
    "\"views\":\x7b\"00112233445566778899AABBCCDDEEFF\":" ++
      "\x7b\"name\":\"Heating\",\"endpoints\":[\"hall.7\"]\x7d\x7d\x7d"

theorem Server.delivers_loaded_legacy : ∃ (snapshot : Snapshot) (s s' : Server) (frame : String),
    Snapshot.ofFile legacyText = .ok snapshot ∧ Tree.ofSnapshot .standard snapshot = .ok s.tree ∧
    s.receive 9 0 Message.requestInit.encode = (s', [frame]) ∧
    (s.tree.endpoint? "hall.7").any (·.lastValue ≠ .zero) = true ∧
    Message.decode frame = .ok (.init s.tree.snapshot) ∧
    ((Client.create {}).receive 10 frame).client.replica.SameContent s.tree := by
  have hloaded : ((Snapshot.ofFile legacyText).toOption.bind fun snapshot =>
      (Tree.ofSnapshot .standard snapshot).toOption.map fun t => (snapshot, t)).any (fun p =>
        decide (p.2.bounds = .standard ∧ p.2.Everywhere Endpoint.Finite ∧ p.2.Faithful ∧
          p.2.Everywhere Endpoint.Deliverable ∧
          (p.2.endpoint? "hall.7").any (·.lastValue ≠ .zero) = true)) = true := by
    decide +kernel
  obtain ⟨⟨snapshot, t⟩, hp, hloaded⟩ := (Option.any_eq_true _ _).mp hloaded
  obtain ⟨hbounds, hfinite, hfaithful, hall, hvalue⟩ := of_decide_eq_true hloaded
  obtain ⟨_, hread, hload⟩ := Option.bind_eq_some_iff.mp hp
  obtain ⟨_, hload, heq⟩ := Option.map_eq_some_iff.mp hload
  cases heq
  have hread : Snapshot.ofFile legacyText = .ok snapshot := toOption_eq_some_iff.mp hread
  have hload : Tree.ofSnapshot .standard snapshot = .ok t := toOption_eq_some_iff.mp hload
  dsimp only at hbounds
  let s := ((Server.create {} t none).openSession 8 ⟨1⟩ none).1
  have hload' : Tree.ofSnapshot s.tree.bounds snapshot = .ok s.tree := by
    show Tree.ofSnapshot t.bounds snapshot = .ok t
    rw [hbounds]
    exact hload
  obtain ⟨s', frame, hreceive, -, -, hdeliver, -⟩ :=
    Server.delivers_loaded (s := s) (n := 0) (x := ⟨⟨1⟩, 0⟩) hread hload' hfinite hfaithful rfl 9
  obtain ⟨hdecode, hreplica⟩ := hdeliver hall
  exact ⟨snapshot, s, s', frame, hread, hload, hreceive, hvalue, hdecode, hreplica _ 10⟩

/-- **Not everything that can be loaded can be delivered.** With a value in 122 lists, the file is
read and the tree is loaded, and all its doubles are given back. But the frame with the tree cannot
be read. -/
theorem Server.not_delivered :
    ¬ ∀ (text : String) (snapshot : Snapshot) (t : Tree), Snapshot.ofFile text = .ok snapshot →
      Tree.ofSnapshot .standard snapshot = .ok t → t.Everywhere Endpoint.Finite → t.Faithful →
        Message.decode (Message.ofTree t).encode = .ok (.init t.snapshot) := by
  intro h
  let deep := Message.deepSnapshot 122
  have hrecovers : Json.Recovers .written Snapshot.read Snapshot.toJson deep :=
    Snapshot.recovers (Message.finite_deepSnapshot 122)
  have hread : Snapshot.ofFile deep.fileText = .ok deep :=
    mapError_eq_ok_iff.mpr
      (Json.readText_pretty hrecovers (by decide +kernel) (by decide +kernel))
  have hloaded : (Tree.ofSnapshot .standard deep).toOption.any (fun t =>
      decide (t.Everywhere Endpoint.Finite ∧ t.Faithful ∧
        ¬ t.Everywhere Endpoint.Deliverable)) = true := by
    decide +kernel
  obtain ⟨t, ht, hloaded⟩ := (Option.any_eq_true _ _).mp hloaded
  obtain ⟨hfinite, hfaithful, hdeep⟩ := of_decide_eq_true hloaded
  have hload : Tree.ofSnapshot .standard deep = .ok t := toOption_eq_some_iff.mp ht
  have hdecode := Tree.decode_ofTree (Tree.wellFormed_restore hload) hfinite
    (Tree.shallow_restore (Snapshot.storable_of_ofFile hread) hload) hfaithful
  rw [if_neg hdeep, h _ deep t hread hload hfinite hfaithful] at hdecode
  cases hdecode

end Sync

end Fleet
