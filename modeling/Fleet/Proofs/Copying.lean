import Fleet.Proofs.SnapshotCodec

/-!
# Copies of a device

A device is written down in two ways: as the change that creates it elsewhere
(`Device.creationChange`) and as the record that a snapshot keeps of it (`DeviceRecord.ofDevice`).
They are read by different functions, and neither of them asks the table of bounds or the clock of
the reader about anything, because both give the bounds of every sensor and all times. So both make
the same device again, whoever reads them: `Tree.Reachable.device_copied`.

What a creation does to every header and endpoint is known from `DeviceChange.tells_creation`, and a
device is all that it says about them (`Entry.Takes.device_unique`).
-/

namespace Fleet

open Patch (Entry DeviceChange)

/-- **An entry leaves one device behind**, whatever was there before. -/
theorem Patch.Entry.Takes.device_unique {e : Entry DeviceChange} {manner : Tree.Manner}
    {table : BoundsTable} {now : Time} {ip : String} {before : Option Device} {d d' : Device}
    (h : e.Takes manner table now ip before (some d))
    (h' : e.Takes manner table now ip before (some d')) : d = d' := by
  have haddress : d.ip = d'.ip :=
    (h.wellFormed d rfl).address.trans (h'.wellFormed d' rfl).address.symm
  have hheader : some (some d.header) = some (some d'.header) := h.header.symm.trans h'.header
  refine Device.ext_endpoints haddress (Option.some.inj (Option.some.inj hheader)) fun eid => ?_
  exact Option.some.inj ((h.endpoints eid).symm.trans (h'.endpoints eid))

/-- **A device is made again from its creation**, at whatever clock and with whatever table. -/
theorem Device.ofChange_creationChange {ip : String} {d : Device} (hd : d.WellFormed ip)
    (table : BoundsTable) (now : Time) : ofChange table now ip d.creationChange = .ok d := by
  have htakes := (DeviceChange.tells_creation hd).takes table now
  -- nothing that the creation does is refused, so there is a device, and it can only be this one
  have hheader : (Header.place ip).run none (.change d.creationChange) = some (some d.header) :=
    htakes.header
  have hendpoints : ∀ eid, (Endpoint.place table now ip eid).runAll none
      (Patch.actsFor Eid.ofText? .update d.creationChange.endpoints.entries eid) =
        some (d.endpoint? eid) := htakes.endpoints
  obtain ⟨d', hd'⟩ := ofChange_ok (htakes.legible _ rfl)
    (hheader ▸ Option.some_ne_none _) fun eid => hendpoints eid ▸ Option.some_ne_none _
  rw [hd', (ofChange_spec hd').device_unique htakes]

namespace Tree

/-- **The creation of a device adds it** to every tree that has none at its address. -/
theorem applyUpdate_creationChange {ip : String} {d : Device} (hd : d.WellFormed ip) {u : Tree}
    (hu : u.device? ip = none) (now : Time) :
    u.applyUpdate now (.device ip (.change d.creationChange)) = .ok (u.putDevice ip d) := by
  have hstage : u.updateDevice now (ip, .change d.creationChange) = .ok (some (ip, .put d)) := by
    simp only [updateDevice, hu, Device.ofChange_creationChange hd, ok_bind]
  have hdevices : (Patch.device ip (.change d.creationChange)).devices.entries =
      [(ip, .change d.creationChange)] := SortedMap.entries_singleton
  have hviews : (Patch.device ip (.change d.creationChange)).views.entries = [] := rfl
  simp only [applyUpdate, stageUpdate, hdevices, hviews, stageAll, hstage, ok_bind]
  rfl

/-- **Both ways to write a device down make it again.** Whatever device of a reachable tree has
finite bounds, the patch with its creation is read back from its document, and every tree that has
no device at that address accepts it, at any clock and with any table of bounds; what it adds is the
device itself, and nothing else changes. The same device is what its record describes, with any
table of bounds. -/
theorem Reachable.device_copied {t : Tree} (ht : t.Reachable) {ip : String} {d : Device}
    (hd : t.device? ip = some d) (hfinite : d.Finite) :
    d.ip = ip ∧
    (∃ p, Patch.ofValue (Patch.device d.ip (.change d.creationChange)).toValue = .ok p ∧
      ∀ (u : Tree) (now : Time), u.device? d.ip = none →
        u.applyUpdate now p = .ok (u.putDevice d.ip d)) ∧
    ∀ table, (DeviceRecord.ofDevice d).toDevice table d.ip = .ok d := by
  have hwell := ht.wellFormed.devices ip d hd
  obtain rfl := hwell.address
  have hwritable : (Patch.device d.ip (.change d.creationChange)).Writable :=
    Patch.writable_device ((DeviceChange.tells_creation hwell).writable hfinite)
  exact ⟨rfl, ⟨_, Patch.ofValue_toValue hwritable,
    fun u now hu => applyUpdate_creationChange hwell hu now⟩,
    DeviceRecord.toDevice_ofDevice hwell⟩

/-- A tree with a sensor, which has the bounds of the table and the value `null`, and an actor,
whose number is less but comes later as a text. -/
def kilnTree : Tree :=
  [Command.addEndpoint "10.0.0.7" 10
      { Endpoint.Params.ofFunction .sensor 4 "heat" with unit := some "C", name := some "Kiln" },
    .addEndpoint "10.0.0.7" 9 (.actor 1 "door"),
    .setValueAt "10.0.0.7" 10 .null].foldl
      (fun t c => (c.run 9 t).tree) (.ofBounds (.ofFallback ⟨1, 6⟩))

/-- The device goes to a tree with another device and another table. -/
theorem Reachable.device_copied_kiln :
    let hall := ((Command.addDevice "hall" "Hall").run 3 {}).tree
    kilnTree.Reachable ∧ ∃ d, kilnTree.device? "10.0.0.7" = some d ∧ d.Finite ∧
      d.endpoints.size = 2 ∧ hall.device? d.ip = none ∧ hall.bounds ≠ kilnTree.bounds ∧
      (∃ p, Patch.ofValue (Patch.device d.ip (.change d.creationChange)).toValue = .ok p ∧
        hall.applyUpdate 70 p = .ok (hall.putDevice d.ip d)) ∧
      (DeviceRecord.ofDevice d).toDevice .standard d.ip = .ok d := by
  intro hall
  have hreach : kilnTree.Reachable := .command (.command (.command (.ofBounds _) 9 _) 9 _) 9 _
  obtain ⟨d, hd, hfinite, hsize⟩ : ∃ d, kilnTree.device? "10.0.0.7" = some d ∧ d.Finite ∧
      d.endpoints.size = 2 := by decide +kernel
  obtain ⟨hip, ⟨p, hp, hadds⟩, hrecord⟩ := Reachable.device_copied hreach hd hfinite
  have hfree : hall.device? d.ip = none := by
    rw [hip]
    decide +kernel
  exact ⟨hreach, d, hd, hfinite, hsize, hfree, by decide +kernel, ⟨p, hp, hadds hall 70 hfree⟩,
    hrecord .standard⟩

end Tree

end Fleet
