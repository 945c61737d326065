import Fleet.Proofs.InPlace

/-!
# What merging a found device does

A merge is a series of loud operations: the device is added or renamed if the tree does not have it
under the name that was found, and then it gets its new endpoints one by one. Which those are and
whether they can be created is decided on the tree before all of that, and at a time before: what
can be created then can be created at any later time (`Endpoint.create_at`), so the readings of the
clock are arbitrary in all that follows.

Two lemmas say what the operations come to. The header is done by one operation at most
(`Tree.mergeHeader_eq`), and the endpoints that were found to be creatable are put into the device
in the order of the list, each with an event (`Tree.mergeEndpoints_eq`). Together they give the
tree, the events and the report of a merge in one equation (`Tree.merge_eq`).

* `Tree.Mergeable` is what has to hold of a found device: it has an address, no number is listed
  twice, and what is new can be created. There is no other reason for a merge to be refused
  (`Tree.merge_of_not_mergeable`).
* `Tree.Merged` is what a merge leaves behind, place by place.

A tree that has a device under its name with all that is listed is left alone by merging it
(`Tree.merge_of_settled`), so the second merge does nothing: `Tree.merge_exact`.
-/

namespace Fleet

open Patch (DeviceChange)

/-- **A device gets its name**, at a time. -/
def Event.naming (ip name : String) (now : Time) : Event :=
  .update (.device ip (.change { name := some name, lastUpdate := some now }))

/-- **A device gets an endpoint.** -/
def Event.extension (ip : String) (x : Endpoint) : Event :=
  .update (.device ip (.change (DeviceChange.withEndpoint {} x.eid (.change x.creationChange))))

/-- The device with more endpoints. -/
def Device.extend (d : Device) (xs : List Endpoint) : Device :=
  { d with endpoints := xs.foldl (fun m x => m.insert x.eid x) d.endpoints }

/-- **What is found in the device with more endpoints**, if their numbers differ. -/
theorem Device.endpoint?_extend {d : Device} {xs : List Endpoint}
    (hdiffer : (xs.map (·.eid)).Nodup) {eid : Eid} {x : Endpoint} :
    (d.extend xs).endpoint? eid = some x ↔
      x ∈ xs ∧ x.eid = eid ∨ eid ∉ xs.map (·.eid) ∧ d.endpoint? eid = some x := by
  -- the endpoints as entries under their numbers
  have hkeys : (xs.map fun x => (x.eid, x)).map Prod.fst = xs.map (·.eid) := by
    rw [List.map_map]
    rfl
  have hfold := SortedMap.get?_foldl_insert (m := d.endpoints) (k := eid) (a := x)
    (hkeys.symm ▸ hdiffer)
  rw [List.foldl_map, hkeys] at hfold
  refine hfold.trans (or_congr_left ?_)
  simp only [List.mem_map, Prod.mk.injEq]
  constructor
  · rintro ⟨y, hy, hnumber, rfl⟩
    exact ⟨hy, hnumber⟩
  · rintro ⟨hx, hnumber⟩
    exact ⟨x, hx, hnumber, rfl⟩

namespace Tree

variable {t u : Tree} {now : Time} {times : MergeTimes} {found : Discovery.Device} {ip : String}
  {eid : Eid}

/-! ### What is asked of a found device -/

/-- **A found device can be merged**: it has an address, no number is listed twice, and every
endpoint that the tree does not have can be created. -/
structure Mergeable (t : Tree) (now : Time) (found : Discovery.Device) : Prop where
  addressed : found.ip ≠ ""
  differ : (found.endpoints.map (·.eid)).Nodup
  creatable : ∀ e ∈ found.endpoints, t.endpointAt? found.ip e.eid = none →
    ∃ x, Endpoint.create t.bounds now found.ip e.eid e.params = .ok x

/-- The tree has the device under the name that was found. -/
def Knows (t : Tree) (found : Discovery.Device) : Prop :=
  ∃ d ∈ t.device? found.ip, d.name = found.name

instance (t : Tree) (found : Discovery.Device) : Decidable (t.Knows found) :=
  inferInstanceAs (Decidable (∃ d ∈ t.device? found.ip, d.name = found.name))

theorem not_knows_of_none (hd : t.device? found.ip = none) : ¬ t.Knows found := by
  rintro ⟨d, hd', -⟩
  cases hd.symm.trans hd'

theorem knows_iff_of_some {d : Device} (hd : t.device? found.ip = some d) :
    t.Knows found ↔ d.name = found.name := by
  refine ⟨?_, fun hname => ⟨d, hd, hname⟩⟩
  rintro ⟨d', hd', hname⟩
  cases hd.symm.trans hd'
  exact hname

theorem isNone_deviceWith? : (t.deviceWith? ip eid).isNone = (t.endpointAt? ip eid).isNone := by
  unfold deviceWith? endpointAt?
  cases t.device? ip with
  | none => rfl
  | some d =>
    rw [Option.filter_some, Option.bind_some, Device.hasEndpoint, SortedMap.contains,
      ← Device.endpoint?]
    cases d.endpoint? eid <;> rfl

/-- **The missing endpoints** are those that are listed and that the tree does not have. -/
theorem missing_eq :
    t.missing found = found.endpoints.filter fun e => (t.endpointAt? found.ip e.eid).isNone :=
  List.filter_congr fun _ _ => isNone_deviceWith?

theorem mem_missing {e : Discovery.Endpoint} :
    e ∈ t.missing found ↔ e ∈ found.endpoints ∧ t.endpointAt? found.ip e.eid = none := by
  rw [missing_eq, List.mem_filter, Option.isNone_iff_eq_none]

theorem firstRepeated?_eq_none_iff {eids seen : List Eid} :
    firstRepeated? seen eids = none ↔ eids.Nodup ∧ ∀ eid ∈ eids, eid ∉ seen := by
  induction eids generalizing seen with
  | nil => simp [firstRepeated?]
  | cons eid rest ih =>
    unfold firstRepeated?
    -- the first number is new and seen from now on, or it is the repeated one
    by_cases hseen : eid ∈ seen
    · simp [hseen]
    · rw [if_neg hseen, ih, List.nodup_cons]
      constructor
      · rintro ⟨hrest, hnew⟩
        refine ⟨⟨fun hmem => hnew eid hmem List.mem_cons_self, hrest⟩, ?_⟩
        rintro eid' (_ | ⟨_, hmem⟩)
        · exact hseen
        · exact fun hin => hnew eid' hmem (List.mem_cons_of_mem _ hin)
      · rintro ⟨⟨hfirst, hrest⟩, hnew⟩
        refine ⟨hrest, fun eid' hmem => ?_⟩
        rintro (_ | ⟨_, hin⟩)
        · exact hfirst hmem
        · exact hnew eid' (List.mem_cons_of_mem _ hmem) hin

/-- **A list of endpoints passes** if each of them can be created. -/
theorem checkAll_eq_ok_iff {es : List Discovery.Endpoint} : t.checkAll now ip es = .ok () ↔
    ∀ e ∈ es, ∃ x, Endpoint.create t.bounds now ip e.eid e.params = .ok x := by
  induction es with
  | nil => simp [checkAll]
  | cons e rest ih =>
    rw [checkAll, bind_eq_ok_iff, List.forall_mem_cons, ← ih]
    exact ⟨fun ⟨x, hx, hrest⟩ => ⟨⟨x, hx⟩, hrest⟩, fun ⟨⟨x, hx⟩, hrest⟩ => ⟨x, hx, hrest⟩⟩

/-- **What the check of a found device establishes** is all but the address. -/
theorem mergeable_iff :
    t.Mergeable now found ↔ found.ip ≠ "" ∧ t.checkFound now found = .ok () := by
  have hfirst : firstRepeated? [] (found.endpoints.map (·.eid)) = none ↔
      (found.endpoints.map (·.eid)).Nodup := by
    rw [firstRepeated?_eq_none_iff]
    exact and_iff_left fun _ _ => List.not_mem_nil
  have hall : t.checkAll now found.ip (t.missing found) = .ok () ↔ ∀ e ∈ found.endpoints,
      t.endpointAt? found.ip e.eid = none →
      ∃ x, Endpoint.create t.bounds now found.ip e.eid e.params = .ok x := by
    simp only [checkAll_eq_ok_iff, mem_missing, and_imp]
  unfold checkFound
  constructor
  · rintro ⟨hip, hdiffer, hcreatable⟩
    rw [hfirst.mpr hdiffer]
    exact ⟨hip, hall.mpr hcreatable⟩
  · rintro ⟨hip, hcheck⟩
    split at hcheck
    · cases hcheck
    · next hnone => exact ⟨hip, hfirst.mp hnone, hall.mp hcheck⟩

/-! ### The header -/

/-- **The device before it gets its new endpoints**: the one that is there, with a new time if it
gets a new name, or one without endpoints. -/
def headed (t : Tree) (now : Time) (found : Discovery.Device) : Device :=
  match t.device? found.ip with
  | none => ⟨found.ip, found.name, now, ∅⟩
  | some d => if d.name = found.name then d else d.rename now found.name

theorem headed_of_none (hd : t.device? found.ip = none) :
    t.headed now found = ⟨found.ip, found.name, now, ∅⟩ := by
  rw [headed, hd]

theorem headed_of_some {d : Device} (hd : t.device? found.ip = some d) :
    t.headed now found = if d.name = found.name then d else d.rename now found.name := by
  rw [headed, hd]

/-- Its endpoints are those that are there. -/
theorem endpoint?_headed (eid : Eid) :
    (t.headed now found).endpoint? eid = t.endpointAt? found.ip eid := by
  unfold endpointAt?
  cases hd : t.device? found.ip with
  | none =>
    rw [headed_of_none hd]
    rfl
  | some d =>
    rw [headed_of_some hd]
    split <;> rfl

theorem ip_headed (ht : t.WellFormed) : (t.headed now found).ip = found.ip := by
  cases hd : t.device? found.ip with
  | none => rw [headed_of_none hd]
  | some d =>
    have haddress : d.ip = found.ip := (ht.devices _ d hd).address
    rw [headed_of_some hd]
    split <;> exact haddress

/-- Its time is the old one only if nothing is done. -/
theorem header_headed : some (t.headed now found).header =
    if t.Knows found then t.header? found.ip else some ⟨found.name, now⟩ := by
  cases hd : t.device? found.ip with
  | none =>
    rw [if_neg (not_knows_of_none hd), headed_of_none hd]
    rfl
  | some d =>
    rw [headed_of_some hd, header?, hd]
    simp only [knows_iff_of_some hd]
    split <;> rfl

theorem name_headed : (t.headed now found).name = found.name := by
  cases hd : t.device? found.ip with
  | none => rw [headed_of_none hd]
  | some d =>
    rw [headed_of_some hd]
    split
    · next hname => exact hname
    · rfl

/-- What a merge reports of the header. -/
def headReport (t : Tree) (found : Discovery.Device) : MergeReport where
  added := (t.device? found.ip).isNone
  renamed := decide (∃ d ∈ t.device? found.ip, d.name ≠ found.name)

theorem headReport_of_none (hd : t.device? found.ip = none) :
    t.headReport found = { added := true } := by
  simp [headReport, hd]

theorem headReport_of_some {d : Device} (hd : t.device? found.ip = some d) :
    t.headReport found = { renamed := decide (d.name ≠ found.name) } := by
  simp [headReport, hd]

/-- The device is added or renamed if the tree does not have it under its name. -/
theorem headReport_iff :
    (t.headReport found).added ∨ (t.headReport found).renamed ↔ ¬ t.Knows found := by
  cases hd : t.device? found.ip with
  | none => simp [headReport_of_none hd, not_knows_of_none hd]
  | some d => simp [headReport_of_some hd, knows_iff_of_some hd]

/-- **The header is done by one operation at most**, which depends on what the tree has. -/
theorem mergeHeader_eq (hip : found.ip ≠ "") : t.mergeHeader now found =
    ⟨t.putDevice found.ip (t.headed now found),
      if t.Knows found then [] else [.naming found.ip found.name now],
      .ok (t.headReport found)⟩ := by
  cases hd : t.device? found.ip with
  | none =>
    -- the address is new and not empty, so adding the device is not refused
    have hnew : t.devices.contains found.ip = false := SortedMap.contains_eq_false_iff.mpr hd
    rw [if_neg (not_knows_of_none hd), headed_of_none hd, headReport_of_none hd]
    simp only [mergeHeader, hd, addDevice, Device.create, if_neg hip, hnew]
    rfl
  | some d =>
    simp only [mergeHeader, hd, renameDevice, headed_of_some hd, headReport_of_some hd,
      knows_iff_of_some hd]
    split
    -- nothing is done, and putting back the device changes nothing
    · next hname =>
      rw [putDevice_eq_self hd, decide_eq_false fun h => h hname]
      rfl
    -- the device is there, so it can be renamed
    · next hname =>
      rw [decide_eq_true hname]
      rfl

/-! ### The endpoints -/

/-- The endpoints that a list describes, each at the time for its number, without those that cannot
be created. -/
def created (table : BoundsTable) (clock : Eid → Time) (ip : String)
    (es : List Discovery.Endpoint) : List Endpoint :=
  es.filterMap fun e => (Endpoint.create table (clock e.eid) ip e.eid e.params).toOption

section

variable {table : BoundsTable} {clock : Eid → Time} {es : List Discovery.Endpoint}

theorem mem_created {x : Endpoint} : x ∈ created table clock ip es ↔
    ∃ e ∈ es, Endpoint.create table (clock e.eid) ip e.eid e.params = .ok x := by
  simp only [created, List.mem_filterMap, toOption_eq_some_iff]

theorem created_cons {e : Discovery.Endpoint} {x : Endpoint}
    (hx : Endpoint.create table (clock e.eid) ip e.eid e.params = .ok x) :
    created table clock ip (e :: es) = x :: created table clock ip es := by
  have hsome : (Endpoint.create table (clock e.eid) ip e.eid e.params).toOption = some x :=
    toOption_eq_some_iff.mpr hx
  simp only [created, List.filterMap_cons, hsome]

/-- If all can be created, they have the numbers of the list. -/
theorem map_eid_created
    (h : ∀ e ∈ es, ∃ x, Endpoint.create table (clock e.eid) ip e.eid e.params = .ok x) :
    (created table clock ip es).map (·.eid) = es.map (·.eid) := by
  induction es with
  | nil => rfl
  | cons e rest ih =>
    obtain ⟨x, hx⟩ := h e List.mem_cons_self
    rw [created_cons hx, List.map_cons, List.map_cons, (Endpoint.create_belongs hx).2,
      ih fun e' he' => h e' (List.mem_cons_of_mem _ he')]

end

theorem putDevice_putDevice {d d' : Device} :
    (t.putDevice ip d).putDevice ip d' = t.putDevice ip d' := by
  refine ext_parts rfl (fun ip' => ?_) fun _ => rfl
  simp only [device?_putDevice]
  split <;> rfl

/-- **One new endpoint** is put into the device, with an event. -/
theorem extendDevice_eq {d : Device} {e : Discovery.Endpoint} {x : Endpoint}
    (hd : t.device? ip = some d) (haddress : d.ip = ip) (hnew : d.endpoint? e.eid = none)
    (hx : Endpoint.create t.bounds now ip e.eid e.params = .ok x) :
    t.extendDevice now ip e.eid e.params =
      some (.loud (t.putDevice ip (d.put x.eid x)) (.extension ip x)
        (Event.extension ip x).patch) := by
  have hnot : d.hasEndpoint e.eid = false := SortedMap.contains_eq_false_iff.mpr hnew
  have hnumber : x.eid = e.eid := (Endpoint.create_belongs hx).2
  rw [extendDevice, hd, Option.map_some, Device.createEndpoint, hnot, haddress, hx,
    Event.extension, hnumber]
  rfl

/-- **New endpoints are put into the device** in the order of the list, each with an event. -/
theorem mergeEndpoints_eq {clock : Eid → Time} {es : List Discovery.Endpoint} {d : Device}
    {r : MergeReport} (hd : t.device? ip = some d) (haddress : d.ip = ip)
    (hcreatable : ∀ e ∈ es, ∃ x, Endpoint.create t.bounds (clock e.eid) ip e.eid e.params = .ok x)
    (hdiffer : (es.map (·.eid)).Nodup) (hnew : ∀ e ∈ es, d.endpoint? e.eid = none) :
    mergeEndpoints clock ip es r t =
      ⟨t.putDevice ip (d.extend (created t.bounds clock ip es)),
        (created t.bounds clock ip es).map (.extension ip),
        .ok { r with endpoints := r.endpoints ++ es.map (·.eid) }⟩ := by
  induction es generalizing t d r with
  | nil =>
    -- the device that is there is the one that is put
    have hsame : t.putDevice ip (d.extend (created t.bounds clock ip [])) = t :=
      putDevice_eq_self hd
    rw [mergeEndpoints, hsame, List.map_nil, List.append_nil]
    rfl
  | cons e rest ih =>
    obtain ⟨x, hx⟩ := hcreatable e List.mem_cons_self
    have hnumber : x.eid = e.eid := (Endpoint.create_belongs hx).2
    obtain ⟨hfirst, hrest⟩ := List.nodup_cons.mp hdiffer
    -- the numbers of the others are different ones, so they are still new to the device
    have hnew' : ∀ e' ∈ rest, (d.put x.eid x).endpoint? e'.eid = none := by
      intro e' he'
      have hne : e'.eid ≠ x.eid := fun heq =>
        hfirst (List.mem_map.mpr ⟨e', he', heq.trans hnumber⟩)
      rw [Device.endpoint?_put, if_neg hne]
      exact hnew e' (List.mem_cons_of_mem _ he')
    -- by induction they are added to the device that has the first one
    have hlater := ih (t := t.putDevice ip (d.put x.eid x))
      (r := { r with endpoints := r.endpoints ++ [e.eid] }) device?_putDevice_self haddress
      (fun e' he' => hcreatable e' (List.mem_cons_of_mem _ he')) hrest hnew'
    rw [mergeEndpoints, extendDevice_eq hd haddress (hnew e List.mem_cons_self) hx]
    simp only [Outcome.andThen, Outcome.loud, hlater, created_cons hx, putDevice_putDevice,
      List.map_cons, List.append_assoc]
    rfl

/-! ### The whole merge -/

/-- **The endpoints that a merge adds.** -/
def additions (t : Tree) (times : MergeTimes) (found : Discovery.Device) : List Endpoint :=
  created t.bounds times.endpoint found.ip (t.missing found)

theorem mem_additions {x : Endpoint} : x ∈ t.additions times found ↔
    ∃ e ∈ found.endpoints, t.endpointAt? found.ip e.eid = none ∧
      Endpoint.create t.bounds (times.endpoint e.eid) found.ip e.eid e.params = .ok x := by
  simp only [additions, mem_created, mem_missing, and_assoc]

/-- What could be created when it was checked can be created at any time. -/
theorem Mergeable.creatable_at (h : t.Mergeable now found) (later : Time) {e : Discovery.Endpoint}
    (he : e ∈ t.missing found) :
    ∃ x, Endpoint.create t.bounds later found.ip e.eid e.params = .ok x := by
  obtain ⟨hlisted, hnew⟩ := mem_missing.mp he
  obtain ⟨x, hx⟩ := h.creatable e hlisted hnew
  exact ⟨_, Endpoint.create_at hx later⟩

/-- They are the missing ones, in the order of the list. -/
theorem Mergeable.map_eid_additions (h : t.Mergeable now found) :
    (t.additions times found).map (·.eid) = (t.missing found).map (·.eid) :=
  map_eid_created fun _ he => h.creatable_at _ he

theorem Mergeable.nodup_missing (h : t.Mergeable now found) :
    ((t.missing found).map (·.eid)).Nodup :=
  h.differ.sublist (List.filter_sublist.map _)

/-- **The tree with what was found.** -/
def withFound (t : Tree) (times : MergeTimes) (found : Discovery.Device) : Tree :=
  t.putDevice found.ip ((t.headed times.header found).extend (t.additions times found))

/-- **An endpoint is there** after a merge if it was added or there before. -/
theorem Mergeable.endpointAt?_withFound (h : t.Mergeable now found) {x : Endpoint} :
    (t.withFound times found).endpointAt? found.ip eid = some x ↔
      x ∈ t.additions times found ∧ x.eid = eid ∨ t.endpointAt? found.ip eid = some x := by
  have hdiffer : ((t.additions times found).map (·.eid)).Nodup :=
    h.map_eid_additions.symm ▸ h.nodup_missing
  rw [withFound, endpointAt?, device?_putDevice_self, Option.bind_some,
    Device.endpoint?_extend hdiffer, h.map_eid_additions, endpoint?_headed]
  refine or_congr_right (and_iff_right_of_imp fun hx hmem => ?_)
  -- what is missing was not there before
  obtain ⟨e, he, rfl⟩ := List.mem_map.mp hmem
  rw [(mem_missing.mp he).2] at hx
  cases hx

theorem header?_withFound : (t.withFound times found).header? found.ip =
    if t.Knows found then t.header? found.ip else some ⟨found.name, times.header⟩ := by
  rw [withFound, header?, device?_putDevice_self, Option.map_some, ← header_headed]
  rfl

/-- **A found device that can be merged** is put into the tree with what was missing. -/
theorem merge_eq (ht : t.WellFormed) (h : t.Mergeable times.check found) : t.merge times found =
    ⟨t.withFound times found,
      (if t.Knows found then [] else [.naming found.ip found.name times.header]) ++
        (t.additions times found).map (.extension found.ip),
      .ok { t.headReport found with endpoints := (t.missing found).map (·.eid) }⟩ := by
  obtain ⟨hip, hcheck⟩ := mergeable_iff.mp h
  -- the header changes no endpoint, so what is missing is missing then too
  have hcreatable : ∀ e ∈ t.missing found,
      ∃ x, Endpoint.create t.bounds (times.endpoint e.eid) found.ip e.eid e.params = .ok x :=
    fun _ he => h.creatable_at _ he
  have hendpoints := mergeEndpoints_eq (t := t.putDevice found.ip (t.headed times.header found))
    (r := t.headReport found) device?_putDevice_self (ip_headed ht) hcreatable h.nodup_missing
    (fun e he => (endpoint?_headed _).trans (mem_missing.mp he).2)
  calc t.merge times found
    _ = (t.mergeHeader times.header found).andThen
        (mergeEndpoints times.endpoint found.ip (t.missing found)) := by
      rw [merge, hcheck]
    _ = _ := by
      simp only [mergeHeader_eq hip, Outcome.andThen, hendpoints, putDevice_putDevice]
      rfl

/-- **There is no other reason** for a merge to be refused. -/
theorem merge_of_not_mergeable (ht : t.WellFormed) (h : ¬ t.Mergeable times.check found) :
    ∃ e, t.merge times found = .refused t e := by
  rw [mergeable_iff] at h
  unfold merge
  cases hcheck : t.checkFound times.check found with
  | error e => exact ⟨e, rfl⟩
  | ok _ =>
    have hip : found.ip = "" := Decidable.byContradiction fun hip => h ⟨hip, hcheck⟩
    -- no device has the empty address, so one is added, and that is refused
    have hnone : t.device? "" = none := by
      refine Option.eq_none_iff_forall_ne_some.mpr fun d hd => ?_
      exact (ht.devices "" d hd).named rfl
    refine ⟨.missingAddress, ?_⟩
    simp only [mergeHeader, hip, hnone, addDevice, Device.create]
    rfl

/-- **A merge succeeds just if the device can be merged.** -/
theorem merge_ok_iff (ht : t.WellFormed) :
    (∃ r, (t.merge times found).result = .ok r) ↔ t.Mergeable times.check found := by
  constructor
  · rintro ⟨r, hr⟩
    refine Classical.byContradiction fun h => ?_
    obtain ⟨e, he⟩ := merge_of_not_mergeable ht h
    rw [he] at hr
    cases hr
  · intro h
    rw [merge_eq ht h]
    exact ⟨_, rfl⟩

/-- **A device that is known**, with all that is listed, is left alone. -/
theorem merge_of_settled (ht : t.WellFormed) (hdiffer : (found.endpoints.map (·.eid)).Nodup)
    (hknown : t.Knows found)
    (hall : ∀ e ∈ found.endpoints, t.endpointAt? found.ip e.eid ≠ none) (times : MergeTimes) :
    t.merge times found = .quiet t {} := by
  obtain ⟨d, hd, hname⟩ := hknown
  have hd : t.device? found.ip = some d := hd
  have hmissing : t.missing found = [] :=
    List.eq_nil_iff_forall_not_mem.mpr fun e he =>
      hall e (mem_missing.mp he).1 (mem_missing.mp he).2
  have hcheck : t.checkFound times.check found = .ok () :=
    (mergeable_iff.mp ⟨(ht.devices _ d hd).named, hdiffer,
      fun e he hnone => absurd hnone (hall e he)⟩).2
  calc t.merge times found
    _ = (t.mergeHeader times.header found).andThen
        (mergeEndpoints times.endpoint found.ip []) := by
      rw [merge, hcheck, hmissing]
    _ = (Outcome.quiet t {}).andThen (mergeEndpoints times.endpoint found.ip []) := by
      simp only [mergeHeader, hd, if_pos hname]
    _ = .quiet t {} := rfl

/-! ### What a merge leaves behind -/

/-- **What a merge leaves behind**: the tree, the events and the report. -/
structure Merged (t : Tree) (times : MergeTimes) (found : Discovery.Device) (u : Tree)
    (events : List Event) (r : MergeReport) : Prop where
  bounds : u.bounds = t.bounds
  views : u.views = t.views
  /-- Devices at other addresses are as they were. -/
  others : ∀ ip, ip ≠ found.ip → u.device? ip = t.device? ip
  /-- The device is there and has its name. -/
  named : ∃ d, u.device? found.ip = some d ∧ d.ip = found.ip ∧ d.name = found.name
  /-- Its time is that of its step, unless the tree had it under that name. -/
  dated : u.header? found.ip =
    if t.Knows found then t.header? found.ip else some ⟨found.name, times.header⟩
  /-- The endpoints that it had are as they were. -/
  kept : ∀ eid x, t.endpointAt? found.ip eid = some x → u.endpointAt? found.ip eid = some x
  /-- It has got what was listed and missing, as it was described, each at the time of its step. -/
  gained : ∀ e ∈ found.endpoints, t.endpointAt? found.ip e.eid = none →
    ∃ x, Endpoint.create t.bounds (times.endpoint e.eid) found.ip e.eid e.params = .ok x ∧
      u.endpointAt? found.ip e.eid = some x
  /-- It has got nothing else. -/
  gainedOnly : ∀ eid, t.endpointAt? found.ip eid = none →
    (∀ e ∈ found.endpoints, e.eid ≠ eid) → u.endpointAt? found.ip eid = none
  added : r.added = true ↔ t.device? found.ip = none
  renamed : r.renamed = true ↔ ∃ d, t.device? found.ip = some d ∧ d.name ≠ found.name
  /-- The new endpoints are reported in the order in which they are listed. -/
  endpoints : r.endpoints = (found.endpoints.filter fun e =>
    (t.endpointAt? found.ip e.eid).isNone).map (·.eid)
  /-- There is an event for an addition or a renaming, and one for each new endpoint. -/
  told : ∃ new : List Endpoint, new.map (·.eid) = r.endpoints ∧
    (∀ x ∈ new, u.endpointAt? found.ip x.eid = some x) ∧
    events = (if r.added ∨ r.renamed then [.naming found.ip found.name times.header] else []) ++
      new.map (.extension found.ip)

/-- **What can be merged is merged.** -/
theorem Mergeable.merged (ht : t.WellFormed) (h : t.Mergeable times.check found) {r : MergeReport}
    (hr : (t.merge times found).result = .ok r) :
    t.Merged times found (t.merge times found).tree (t.merge times found).events r := by
  rw [merge_eq ht h] at hr ⊢
  cases hr
  refine
    { bounds := rfl
      views := rfl
      others := fun ip hip => ?_
      named := ⟨_, device?_putDevice_self, ip_headed ht, name_headed⟩
      dated := header?_withFound
      kept := fun eid x hx => h.endpointAt?_withFound.mpr (.inr hx)
      gained := fun e he hnone => ?_
      gainedOnly := fun eid hnone hlist => ?_
      added := Option.isNone_iff_eq_none
      renamed := decide_eq_true_iff
      endpoints := congrArg _ missing_eq
      told := ⟨t.additions times found, h.map_eid_additions, fun x hx => ?_, ?_⟩ }
  · exact device?_putDevice.trans (if_neg hip)
  · obtain ⟨x, hx⟩ := h.creatable_at (times.endpoint e.eid) (mem_missing.mpr ⟨he, hnone⟩)
    exact ⟨x, hx, h.endpointAt?_withFound.mpr
      (.inl ⟨mem_additions.mpr ⟨e, he, hnone, hx⟩, (Endpoint.create_belongs hx).2⟩)⟩
  · refine Option.eq_none_iff_forall_ne_some.mpr fun x hx => ?_
    rcases h.endpointAt?_withFound.mp hx with ⟨hadded, hnumber⟩ | hx
    · obtain ⟨e, he, -, hcreate⟩ := mem_additions.mp hadded
      exact hlist e he ((Endpoint.create_belongs hcreate).2.symm.trans hnumber)
    · rw [hnone] at hx
      cases hx
  · exact h.endpointAt?_withFound.mpr (.inl ⟨hx, rfl⟩)
  -- the report tells whether the header was published
  · show _ ++ _ = (if (t.headReport found).added ∨ (t.headReport found).renamed then _ else _) ++ _
    simp only [headReport_iff, ite_not]

/-- **A merge is refused, or it does what it should.** -/
theorem merge_cases (ht : t.WellFormed) (times : MergeTimes) (found : Discovery.Device) :
    (∃ e, t.merge times found = .refused t e) ∨ ∃ r, (t.merge times found).result = .ok r ∧
      t.Merged times found (t.merge times found).tree (t.merge times found).events r := by
  by_cases h : ∃ r, (t.merge times found).result = .ok r
  · obtain ⟨r, hr⟩ := h
    exact .inr ⟨r, hr, ((merge_ok_iff ht).mp ⟨r, hr⟩).merged ht hr⟩
  · exact .inl (merge_of_not_mergeable ht fun hmergeable => h ((merge_ok_iff ht).mpr hmergeable))

namespace Merged

variable {events : List Event} {r : MergeReport}

/-- All endpoints that were there are as they were. -/
theorem endpointAt?_of_some (h : t.Merged times found u events r) {x : Endpoint}
    (hx : t.endpointAt? ip eid = some x) : u.endpointAt? ip eid = some x := by
  by_cases hip : ip = found.ip
  · subst hip
    exact h.kept eid x hx
  · rw [endpointAt?, h.others ip hip]
    exact hx

/-- **An endpoint that is there** was there before, or it has just been created. -/
theorem of_endpointAt? (h : t.Merged times found u events r) {x : Endpoint}
    (hx : u.endpointAt? ip eid = some x) : t.endpointAt? ip eid = some x ∨
      ∃ e ∈ found.endpoints,
        Endpoint.create t.bounds (times.endpoint e.eid) found.ip e.eid e.params = .ok x := by
  by_cases hip : ip = found.ip
  · subst hip
    cases hbefore : t.endpointAt? found.ip eid with
    | some y => exact .inl ((h.kept eid y hbefore).symm.trans hx)
    | none =>
      -- it is a listed one, because nothing else was gained
      have hlisted : ∃ e ∈ found.endpoints, e.eid = eid := by
        refine Classical.byContradiction fun hnot => ?_
        rw [h.gainedOnly eid hbefore fun e he heid => hnot ⟨e, he, heid⟩] at hx
        cases hx
      obtain ⟨e, he, rfl⟩ := hlisted
      obtain ⟨y, hcreate, hy⟩ := h.gained e he hbefore
      cases hy.symm.trans hx
      exact .inr ⟨e, he, hcreate⟩
  · rw [endpointAt?, h.others ip hip] at hx
    exact .inl hx

/-- Nothing of the device is missing. -/
theorem endpointAt?_ne_none (h : t.Merged times found u events r) {e : Discovery.Endpoint}
    (he : e ∈ found.endpoints) : u.endpointAt? found.ip e.eid ≠ none := by
  refine Option.ne_none_iff_exists'.mpr ?_
  cases hx : t.endpointAt? found.ip e.eid with
  | some x => exact ⟨x, h.kept _ _ hx⟩
  | none =>
    obtain ⟨x, -, hx⟩ := h.gained e he hx
    exact ⟨x, hx⟩

end Merged

/-- **A merge is exact**, whatever the clock shows at its steps. It succeeds just if the found
device has an address, lists no number twice, and lists nothing new that cannot be created. Then it
does what is listed and nothing else, tells of it and reports it; and merging the same device again,
at whatever times, succeeds, reports that there was nothing to do, is silent and leaves the tree
alone. -/
theorem merge_exact (ht : t.Reachable) (times : MergeTimes) (found : Discovery.Device) :
    ((∃ r, (t.merge times found).result = .ok r) ↔ t.Mergeable times.check found) ∧
    ∀ r, (t.merge times found).result = .ok r →
      t.Merged times found (t.merge times found).tree (t.merge times found).events r ∧
      ∀ later, ∃ r', r'.isNoop = true ∧
        (t.merge times found).tree.merge later found = .quiet (t.merge times found).tree r' := by
  have hwell := ht.wellFormed
  refine ⟨merge_ok_iff hwell, fun r hr => ?_⟩
  have hmergeable : t.Mergeable times.check found := (merge_ok_iff hwell).mp ⟨r, hr⟩
  have hmerged := hmergeable.merged hwell hr
  refine ⟨hmerged, fun later => ⟨{}, rfl, ?_⟩⟩
  obtain ⟨d, hd, -, hname⟩ := hmerged.named
  exact merge_of_settled (wellFormed_merge hwell times found) hmergeable.differ ⟨d, hd, hname⟩
    (fun e he => hmerged.endpointAt?_ne_none he) later

/-- The hall with a lamp is found under another name. Its lamp is listed without a description,
which does not matter, between two endpoints that it does not have. -/
theorem merge_exact_lobby :
    let hall := ((Command.addEndpoint "hall" 7
      ((Endpoint.Params.actor 1 "lamp").withDeviceName "Hall")).run 0
        (.ofBounds (.ofFallback ⟨0, 1⟩))).tree
    let found : Discovery.Device :=
      ⟨"hall", "Lobby", [⟨9, .actor 1 "door"⟩, ⟨7, {}⟩, ⟨2, .sensor 3 "power"⟩]⟩
    let times : MergeTimes := ⟨5, 6, fun eid => if eid = 9 then 6 else 7⟩
    let o := hall.merge times found
    hall.Mergeable 5 found ∧
      o.result = .ok { renamed := true, endpoints := [9, 2] } ∧ o.events.length = 3 ∧
      hall.Merged times found o.tree o.events { renamed := true, endpoints := [9, 2] } ∧
      ∃ r, r.isNoop = true ∧ o.tree.merge (.always 8) found = .quiet o.tree r := by
  intro hall found times o
  have hreach : hall.Reachable := .command (.ofBounds _) 0 _
  have hexact := merge_exact hreach times found
  have hresult : o.result = .ok { renamed := true, endpoints := [9, 2] } :=
    toOption_eq_some_iff.mp (by decide +kernel)
  obtain ⟨hmerged, hagain⟩ := hexact.2 _ hresult
  exact ⟨hexact.1.mp ⟨_, hresult⟩, hresult, by decide +kernel, hmerged, hagain (.always 8)⟩

end Tree

end Fleet
