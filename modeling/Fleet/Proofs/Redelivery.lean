import Fleet.Proofs.Attributes
import Fleet.Proofs.Commuting

/-!
# Patches that arrive twice or in another order

A network may deliver a patch a second time, and it may deliver two patches in either order. This
module says when a tree does not notice.

* An update that was accepted is accepted again, and changes nothing (`Tree.applyUpdate_again`). The
  second run takes other ways than the first: what was created is there now and is changed instead,
  and what was removed is gone. Yet at every place the update finds what it has left and leaves it
  (`Patch.Takes.again`). At the header of a device and at an endpoint one thing is done at most, so
  all that counts is that a change made again changes nothing. At a view several things may be done
  one after another, but none of them depends on what is there, so the last one decides both times.
* Patches that have nothing in common may be applied in either order (`Tree.apply_swap`). What
  has nothing in common is `Patch.Independent`, and that independent patches can be swapped place by
  place is `Patch.Independent.takes_swap`.

Neither needs the clocks to agree, and the second run of an update may have another table of bounds:
clock and table are only asked when something is created.
-/

namespace Fleet

open Patch (Entry EndpointChange ViewChange)

/-! ### Acts that are done again -/

namespace Place

variable {α γ : Type} {place : Place α γ}

/-- **One act that is done again** changes nothing, also where creation goes by other rules: nothing
is created any more. -/
theorem LastWins.run_again (h : place.LastWins) (place' : Place α γ)
    (hsame : place'.update = place.update) {act : Act γ} {a b : Option α}
    (hb : place.run a act = some b) : place'.run b act = some b := by
  cases act with
  | keep => rfl
  | remove =>
    cases hb
    rfl
  | change c =>
    cases a with
    | some x =>
      cases hb
      rw [run_some_change, hsame, h.again]
    | none =>
      rw [run_none_change] at hb
      obtain ⟨x, hx, rfl⟩ := Option.map_eq_some_iff.mp hb
      rw [run_some_change, hsame, h.created x c hx]

/-- The same of all that is done at a place where one thing is done at most. -/
theorem LastWins.runAll_again_of_length_le (h : place.LastWins) (place' : Place α γ)
    (hsame : place'.update = place.update) {acts : List (Act γ)} (hle : acts.length ≤ 1)
    {a b : Option α} (hb : place.runAll a acts = some b) : place'.runAll b acts = some b := by
  obtain ⟨act, hact⟩ := exists_run_of_length_le (α := α) hle
  rw [hact] at hb ⊢
  exact h.run_again place' hsame hb

/-- **Acts that do not look at what is there** lead to the same again. -/
theorem runAll_again_of_settled {acts : List (Act γ)}
    (hsettled : ∀ act ∈ acts, ∀ a b, place.run a act = place.run b act) {a b : Option α}
    (hb : place.runAll a acts = some b) : place.runAll b acts = some b := by
  cases acts with
  | nil => rfl
  | cons act rest =>
    -- after the first act nothing is left of the difference between `a` and `b`
    rw [runAll_cons, hsettled act List.mem_cons_self b a, ← runAll_cons]
    exact hb

end Place

/-! ### Updates that arrive twice -/

namespace Patch

variable {p : Patch} {now : Time} {t u : Tree}

theorem length_headerActs_le (p : Patch) (manner : Tree.Manner) (ip : String) :
    (p.headerActs manner ip).length ≤ 1 := by
  cases he : p.devices.get? ip with
  | none =>
    rw [headerActs_none he]
    exact Nat.zero_le 1
  | some e =>
    rw [headerActs_some he]
    exact Nat.le_refl 1

/-- Views are changed as a whole, so what an update does to one does not depend on what it was. -/
theorem Legible.viewActs_settled (h : p.Legible .update) (id : Uuid) :
    ∀ act ∈ p.viewActs .update id, ∀ a b,
      (View.place id).run a act = (View.place id).run b act := by
  intro act hact a b
  obtain ⟨⟨key, e⟩, hmem, hact⟩ := List.mem_filterMap.mp hact
  obtain ⟨hkey, hact⟩ := Option.ite_none_right_eq_some.mp hact
  cases hact
  cases e with
  | tombstone => rfl
  | change c =>
    have hwhole : c.Whole id := h.whole rfl key c id (SortedMap.get?_eq_some_iff.mpr hmem) hkey
    obtain ⟨-, ⟨name, hname⟩, ⟨references, hreferences⟩⟩ := hwhole
    exact (View.run_change hname hreferences a).trans (View.run_change hname hreferences b).symm

/-- **An update takes the tree that it led to** to that tree again, at any clock and with any table
of bounds. -/
theorem Takes.again (h : p.Takes .update now t u) (now' : Time) (table : BoundsTable) :
    p.Takes .update now' { u with bounds := table } { u with bounds := table } where
  legible := h.legible
  wellFormed := h.wellFormed.withBounds table
  bounds := rfl
  headers ip := (Header.place_lastWins ip).runAll_again_of_length_le (Header.place ip) rfl
    (length_headerActs_le p .update ip) (h.headers ip)
  endpoints ip eid := (Endpoint.place_lastWins t.bounds now ip eid).runAll_again_of_length_le
    (Endpoint.place table now' ip eid) rfl (h.legible.length_endpointActs_le ip eid)
    (h.endpoints ip eid)
  views id := Place.runAll_again_of_settled (h.legible.viewActs_settled id) (h.views id)

end Patch

namespace Tree

variable {p q : Patch} {t u : Tree} {now : Time}

/-- **Retransmission is safe.** An update that a reachable tree has accepted is accepted again by
the tree that came of it, at any clock and under any table of bounds, and leaves it as it is. -/
theorem applyUpdate_again (ht : t.Reachable) (h : t.applyUpdate now p = .ok u) (now' : Time)
    (table : BoundsTable) :
    { u with bounds := table }.applyUpdate now' p = .ok { u with bounds := table } := by
  have htakes : p.Takes .update now t u := takes_of_apply ht.wellFormed h
  have hagain := htakes.again now' table
  exact (apply_eq_ok_iff (htakes.wellFormed.withBounds table)).mpr hagain

/-- The hall loses its lamp, a roof is made with a sensor that says nothing of its bounds, and a
view is removed and made under two spellings of its identifier. -/
def roofUpdate : Patch where
  devices := .ofList [
    ("hall", .change { endpoints := .ofList [("+07", .tombstone)] }),
    ("roof", .change { name := some "Roof", lastUpdate := some 6, endpoints := .ofList [
      ("3", .change { params := some (.sensor 1 "outside") })] })]
  views := .ofList [
    ("00000000-0000-0000-0000-0000000000AB", .tombstone),
    ("00000000-0000-0000-0000-0000000000ab",
      .change { name := some "All", references := some ["roof.3"] })]

theorem applyUpdate_again_roof : ∃ u, lampTree.applyUpdate 9 roofUpdate = .ok u ∧
    u.header? "roof" = some ⟨"Roof", 6⟩ ∧ u.endpointAt? "hall" 7 = none ∧
    { u with bounds := .ofFallback ⟨0, 1⟩ }.applyUpdate 50 roofUpdate =
      .ok { u with bounds := .ofFallback ⟨0, 1⟩ } := by
  have hreach : lampTree.Reachable := .command (.ofBounds _) 5 _
  have hplaces : (lampTree.applyUpdate 9 roofUpdate).toOption.map
      (fun u => (u.header? "roof", u.endpointAt? "hall" 7)) = some (some ⟨"Roof", 6⟩, none) := by
    decide +kernel
  obtain ⟨u, hu, hplaces⟩ := Option.map_eq_some_iff.mp hplaces
  obtain ⟨hroof, hlamp⟩ := Prod.mk.inj hplaces
  have hu := toOption_eq_some_iff.mp hu
  exact ⟨u, hu, hroof, hlamp, applyUpdate_again hreach hu 50 _⟩

/-! ### Patches in another order -/

/-- **Independent patches commute.** They are accepted one after the other in one order exactly if
they are in the other, each in its own manner and at its own clock, and then both orders lead to the
same tree. -/
theorem apply_swap (ht : t.Reachable) (h : p.Independent q) (manner manner' : Manner)
    (now now' : Time) (u : Tree) :
    (t.apply now manner p >>= fun v => v.apply now' manner' q) = .ok u ↔
      (t.apply now' manner' q >>= fun v => v.apply now manner p) = .ok u := by
  have hswap : ∀ {p q : Patch} {manner manner' : Manner} {now now' : Time}, p.Independent q →
      (t.apply now manner p >>= fun v => v.apply now' manner' q) = .ok u →
      (t.apply now' manner' q >>= fun v => v.apply now manner p) = .ok u := by
    intro p q manner manner' now now' h hu
    obtain ⟨v, hv, hu⟩ := bind_eq_ok_iff.mp hu
    have hfirst := takes_of_apply ht.wellFormed hv
    have hsecond := takes_of_apply hfirst.wellFormed hu
    obtain ⟨w, hw, hu⟩ := h.takes_swap ht.wellFormed hfirst hsecond
    exact bind_eq_ok_iff.mpr ⟨w, (apply_eq_ok_iff ht.wellFormed).mpr hw,
      (apply_eq_ok_iff hw.wellFormed).mpr hu⟩
  exact ⟨hswap h, hswap h.symm⟩

/-- A meter is put beside the lamp of the hall, and a device that does not exist is removed. -/
def meterUpdate : Patch where
  devices := .ofList [
    ("attic", .tombstone),
    ("hall", .change { endpoints := .ofList [
      (" 9", .change { params := some (.infrastructure 3 "meter") })] })]

theorem apply_swap_meter : roofUpdate.Independent meterUpdate ∧
    ∃ u, (lampTree.apply 9 .update roofUpdate >>= fun v => v.apply 8 .update meterUpdate) = .ok u ∧
      (lampTree.apply 8 .update meterUpdate >>= fun v => v.apply 9 .update roofUpdate) = .ok u := by
  have hreach : lampTree.Reachable := .command (.ofBounds _) 5 _
  have hindependent : roofUpdate.Independent meterUpdate := by decide +kernel
  have hsome : (lampTree.apply 9 .update roofUpdate >>= fun v =>
      v.apply 8 .update meterUpdate).toOption.isSome = true := by decide +kernel
  obtain ⟨u, hu⟩ := Option.isSome_iff_exists.mp hsome
  have hu := toOption_eq_some_iff.mp hu
  exact ⟨hindependent, u, hu, (apply_swap hreach hindependent .update .update 9 8 u).mp hu⟩

end Tree

end Fleet
