import Fleet.Proofs.Basics
import Fleet.Tree.Outcome

/-!
# The places of a tree

A tree is looked at place by place. There is a place for the *header* of every device, its name and
its time, a place for every endpoint under the address and the number, and a place for every view.
A place holds something or nothing, and a well-formed tree (`Tree.WellFormed`) is determined by its
places and its table of bounds (`Tree.ext_places`).

A patch does something at each place by itself: it leaves the place alone, empties it, or changes
what is there (`Act`). What a change makes of something and of nothing is a matter of the kind of
place (`Place`). Since a key may be spelled in several ways, a patch may do several things at one
place, which it does one after another (`Place.runAll`).

* `Patch.headerActs`, `Patch.endpointActs`, `Patch.viewActs` are what a patch does at a place;
* `Patch.Legible` is what has to hold of a patch by itself: its keys can be read, no two keys of an
  update denote one endpoint, and changes of views are whole;
* `Patch.Takes` says that a patch takes one tree to another, place by place.

That applying a patch is just this, `Tree.apply_eq_ok_iff`, is the subject of the next module.
-/

namespace Fleet

open Patch (Entry DeviceChange EndpointChange ViewChange)

/-! ### Well-formed trees -/

/-- **The device belongs to an address**, and its endpoints to it and to their numbers. -/
structure Device.WellFormed (ip : String) (d : Device) : Prop where
  address : d.ip = ip
  named : ip ≠ ""
  endpoints : ∀ eid e, d.endpoint? eid = some e → e.ip = ip ∧ e.eid = eid

/-- **Everything in the tree is where it belongs.** -/
structure Tree.WellFormed (t : Tree) : Prop where
  devices : ∀ ip d, t.device? ip = some d → d.WellFormed ip
  views : ∀ id v, t.view? id = some v → v.id = id

/-! ### What stands at a place -/

/-- **The header of a device.** -/
structure Header where
  name : String
  lastUpdate : Time
deriving DecidableEq

/-- The header of the device. -/
def Device.header (d : Device) : Header := ⟨d.name, d.lastUpdate⟩

/-- Devices with the same address, the same header and the same endpoints are equal. -/
theorem Device.ext_endpoints {d d' : Device} (haddress : d.ip = d'.ip)
    (hheader : d.header = d'.header) (hendpoints : ∀ eid, d.endpoint? eid = d'.endpoint? eid) :
    d = d' := by
  have hmap : d.endpoints = d'.endpoints := SortedMap.ext_get? hendpoints
  obtain ⟨ip₁, name₁, time₁, endpoints₁⟩ := d
  obtain ⟨ip₂, name₂, time₂, endpoints₂⟩ := d'
  cases haddress
  cases hheader
  cases hmap
  rfl

namespace Tree

/-- The header of the device at an address. -/
def header? (t : Tree) (ip : String) : Option Header := (t.device? ip).map Device.header

/-- The endpoint at an address and a number. -/
def endpointAt? (t : Tree) (ip : String) (eid : Eid) : Option Endpoint :=
  (t.device? ip).bind (·.endpoint? eid)

theorem header?_eq_none_iff {t : Tree} {ip : String} :
    t.header? ip = none ↔ t.device? ip = none := Option.map_eq_none_iff

variable {t u : Tree}

/-- Well-formed trees that agree at the places of a device have the same device. -/
theorem device?_congr (ht : t.WellFormed) (hu : u.WellFormed) {ip : String}
    (hheader : t.header? ip = u.header? ip)
    (hendpoints : ∀ eid, t.endpointAt? ip eid = u.endpointAt? ip eid) :
    t.device? ip = u.device? ip := by
  unfold header? endpointAt? at *
  -- the headers agree, so a device is there in both trees or in neither
  cases hd : t.device? ip with
  | none =>
    rw [hd, Option.map_none, eq_comm, Option.map_eq_none_iff] at hheader
    exact hheader.symm
  | some d =>
    rw [hd] at hheader hendpoints
    obtain ⟨d', hd', hsame⟩ := Option.map_eq_some_iff.mp hheader.symm
    rw [hd'] at hendpoints
    -- the header leaves out the address, which well-formedness settles
    have haddress := (ht.devices ip d hd).address.trans (hu.devices ip d' hd').address.symm
    rw [hd', Device.ext_endpoints haddress hsame.symm hendpoints]

/-- Trees with the same table, the same devices and the same views are equal. -/
theorem ext_parts (hbounds : t.bounds = u.bounds) (hdevices : ∀ ip, t.device? ip = u.device? ip)
    (hviews : ∀ id, t.view? id = u.view? id) : t = u := by
  have hdevice : t.devices = u.devices := SortedMap.ext_get? hdevices
  have hview : t.views = u.views := SortedMap.ext_get? hviews
  obtain ⟨devices, views, bounds⟩ := t
  cases hdevice
  cases hview
  cases hbounds
  rfl

/-- **Well-formed trees with the same table that agree at every place are equal.** -/
theorem ext_places (ht : t.WellFormed) (hu : u.WellFormed) (hbounds : t.bounds = u.bounds)
    (hheaders : ∀ ip, t.header? ip = u.header? ip)
    (hendpoints : ∀ ip eid, t.endpointAt? ip eid = u.endpointAt? ip eid)
    (hviews : ∀ id, t.view? id = u.view? id) : t = u :=
  ext_parts hbounds (fun ip => device?_congr ht hu (hheaders ip) (hendpoints ip)) hviews

end Tree

/-! ### What is done at a place -/

/-- **What is done at a place.** -/
inductive Act (γ : Type) where
  | keep
  | remove
  | change (c : γ)
deriving DecidableEq

/-- **A kind of place**: what a change makes of something that is there, and what it puts where
nothing is, if it can. -/
structure Place (α γ : Type) where
  update : α → γ → α
  create : γ → Option α

namespace Place

variable {α γ : Type}

/-- **One act at a place**, which is refused if nothing is there and nothing can be created. -/
def run (place : Place α γ) (a : Option α) : Act γ → Option (Option α)
  | .keep => some a
  | .remove => some none
  | .change c =>
    match a with
    | some a => some (some (place.update a c))
    | none => (place.create c).map some

/-- One act after another. -/
def runAll (place : Place α γ) (a : Option α) : List (Act γ) → Option (Option α)
  | [] => some a
  | act :: rest => (place.run a act).bind fun a => place.runAll a rest

@[simp] theorem run_keep (place : Place α γ) (a : Option α) : place.run a .keep = some a := rfl

@[simp] theorem run_remove (place : Place α γ) (a : Option α) :
    place.run a .remove = some none := rfl

@[simp] theorem run_some_change (place : Place α γ) (a : α) (c : γ) :
    place.run (some a) (.change c) = some (some (place.update a c)) := rfl

@[simp] theorem run_none_change (place : Place α γ) (c : γ) :
    place.run none (.change c) = (place.create c).map some := rfl

@[simp] theorem runAll_nil (place : Place α γ) (a : Option α) : place.runAll a [] = some a := rfl

theorem runAll_cons (place : Place α γ) (a : Option α) (act : Act γ) (rest : List (Act γ)) :
    place.runAll a (act :: rest) = (place.run a act).bind fun a => place.runAll a rest := rfl

@[simp] theorem runAll_singleton (place : Place α γ) (a : Option α) (act : Act γ) :
    place.runAll a [act] = place.run a act := by
  rw [runAll_cons]
  cases place.run a act <;> rfl

/-- **Where one thing is done at most**, all that is done is one act. -/
theorem exists_run_of_length_le {acts : List (Act γ)} (h : acts.length ≤ 1) :
    ∃ act, ∀ (place : Place α γ) a, place.runAll a acts = place.run a act := by
  cases acts with
  | nil => exact ⟨.keep, fun _ _ => rfl⟩
  | cons act rest =>
    cases List.length_eq_zero_iff.mp (Nat.le_zero.mp (Nat.le_of_succ_le_succ h))
    exact ⟨act, fun place a => runAll_singleton place a act⟩

theorem runAll_append (place : Place α γ) (a : Option α) (acts more : List (Act γ)) :
    place.runAll a (acts ++ more) = (place.runAll a acts).bind fun a => place.runAll a more := by
  induction acts generalizing a with
  | nil => rfl
  | cons act rest ih =>
    rw [List.cons_append, runAll_cons, runAll_cons]
    cases place.run a act with
    | none => rfl
    | some b => exact ih b

end Place

/-! ### The kinds of places -/

/-- **The header of a device.** One is created from a name and a time, at an address that is not
empty. -/
def Header.place (ip : String) : Place Header DeviceChange where
  update h c := ⟨c.name.getD h.name, c.lastUpdate.getD h.lastUpdate⟩
  create c :=
    match c.name, c.lastUpdate with
    | some name, some lastUpdate => if ip = "" then none else some ⟨name, lastUpdate⟩
    | _, _ => none

/-- **An endpoint.** One is created from its description. -/
def Endpoint.place (table : BoundsTable) (now : Time) (ip : String) (eid : Eid) :
    Place Endpoint EndpointChange where
  update := Endpoint.update
  create c := (Endpoint.ofChange table now ip eid c).toOption

/-- **A view.** One is created from a name and references. -/
def View.place (id : Uuid) : Place View ViewChange where
  update v c := ⟨id, c.name.getD v.name, c.references.getD v.references⟩
  create c :=
    match c.name, c.references with
    | some name, some references => some ⟨id, name, references⟩
    | _, _ => none

/-! ### What a patch does -/

namespace Patch

/-- What an entry does at the place that it is about; of a deletion only tombstones count. -/
def Entry.act {γ : Type} (manner : Tree.Manner) : Entry γ → Act γ
  | .tombstone => .remove
  | .change c =>
    match manner with
    | .update => .change c
    | .delete => .keep

/-- What the entries do whose keys are read as the given one, in their order. -/
def actsFor {κ γ : Type} [DecidableEq κ] (read : String → Option κ) (manner : Tree.Manner)
    (entries : List (String × Entry γ)) (k : κ) : List (Act γ) :=
  entries.filterMap fun p => if read p.1 = some k then some (p.2.act manner) else none

/-- **What a patch does to the header** of the device at an address. -/
def headerActs (p : Patch) (manner : Tree.Manner) (ip : String) : List (Act DeviceChange) :=
  ((p.devices.get? ip).map (Entry.act manner)).toList

/-- What the entry of a device does to the endpoint of a number. -/
def Entry.endpointActs (manner : Tree.Manner) (eid : Eid) :
    Entry DeviceChange → List (Act EndpointChange)
  | .tombstone => [.remove]
  | .change c => actsFor Eid.ofText? manner c.endpoints.entries eid

/-- **What a patch does to the endpoint** at an address and a number. -/
def endpointActs (p : Patch) (manner : Tree.Manner) (ip : String) (eid : Eid) :
    List (Act EndpointChange) :=
  ((p.devices.get? ip).map (Entry.endpointActs manner eid)).getD []

/-- **What a patch does to the view** of an identifier. -/
def viewActs (p : Patch) (manner : Tree.Manner) (id : Uuid) : List (Act ViewChange) :=
  actsFor Uuid.ofText? manner p.views.entries id

/-! ### What has to hold of a patch by itself -/

/-- Every key denotes something. -/
def KeysRead {κ β : Type} (read : String → Option κ) (entries : List (String × β)) : Prop :=
  ∀ p ∈ entries, ∃ k, read p.1 = some k

/-- No two keys denote the same. -/
def KeysDiffer {κ β : Type} (read : String → Option κ) (entries : List (String × β)) : Prop :=
  entries.Pairwise fun p q => ∀ k, read p.1 = some k → read q.1 ≠ some k

/-- The keys of a change of a device are numbers, in an update different ones. -/
structure DeviceChange.Legible (manner : Tree.Manner) (c : DeviceChange) : Prop where
  read : KeysRead Eid.ofText? c.endpoints.entries
  differ : manner = .update → KeysDiffer Eid.ofText? c.endpoints.entries

/-- The change describes the view of an identifier as a whole. -/
structure ViewChange.Whole (id : Uuid) (c : ViewChange) : Prop where
  same : ∀ id', c.id = some id' → id' = id
  named : ∃ name, c.name = some name
  listed : ∃ references, c.references = some references

/-- **The patch can be understood by itself.** -/
structure Legible (manner : Tree.Manner) (p : Patch) : Prop where
  devices : ∀ ip c, p.devices.get? ip = some (.change c) → c.Legible manner
  views : KeysRead Uuid.ofText? p.views.entries
  whole : manner = .update → ∀ key c id, p.views.get? key = some (.change c) →
    Uuid.ofText? key = some id → c.Whole id

/-- **The patch takes one tree to another**: it does what it does at every place, and no act is
refused. -/
structure Takes (p : Patch) (manner : Tree.Manner) (now : Time) (t u : Tree) : Prop where
  legible : p.Legible manner
  wellFormed : u.WellFormed
  bounds : u.bounds = t.bounds
  headers : ∀ ip,
    (Header.place ip).runAll (t.header? ip) (p.headerActs manner ip) = some (u.header? ip)
  endpoints : ∀ ip eid,
    (Endpoint.place t.bounds now ip eid).runAll (t.endpointAt? ip eid)
      (p.endpointActs manner ip eid) = some (u.endpointAt? ip eid)
  views : ∀ id, (View.place id).runAll (t.view? id) (p.viewActs manner id) = some (u.view? id)

end Patch

end Fleet
