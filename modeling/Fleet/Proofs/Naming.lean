import Fleet.Proofs.Identifiers
import Fleet.Proofs.Restoring

/-!
# Endpoints are found under their full names

A full name is an address and a number with a dot between them, and the address may hold dots of its
own. Nothing but its place says which of the dots is the separator: decimal digits hold no dot, so
it is the last one (`Endpoint.splitLast_append`). Hence a full name is taken apart into what it
was put together from (`Endpoint.splitName?_fullName`), for every address, and no two places have
one full name (`Endpoint.fullName_injective`).

What looking up a full name finds then rests on where the tree keeps its endpoints. In a reachable
tree every device is under its own address, every endpoint under its own number in the device whose
address it carries, and every view under its own identifier (`Tree.WellFormed`), whichever way they
came in. So every endpoint of the tree is what is found under its own name, and different endpoints
have different names (`Tree.Reachable.endpoints_named`).
-/

namespace Fleet

/-! ### Full names -/

namespace Endpoint

theorem splitLast_of_notMem {cs : List Char} (h : separator ∉ cs) : splitLast cs = none := by
  induction cs with
  | nil => rfl
  | cons c rest ih =>
    rw [List.mem_cons, not_or] at h
    rw [splitLast, ih h.2]
    exact if_neg (Ne.symm h.1)

/-- **A text is split at the last separator**: only what comes after it must be without one. -/
theorem splitLast_append (before : List Char) {after : List Char} (h : separator ∉ after) :
    splitLast (before ++ separator :: after) = some (before, after) := by
  induction before with
  | nil =>
    rw [List.nil_append, splitLast, splitLast_of_notMem h]
    exact if_pos rfl
  | cons c before ih => rw [List.cons_append, splitLast, ih]

theorem separator_notMem_digits (n : Nat) : separator ∉ Decimal.digits n := by
  intro h
  have hdigit := Text.isDigit_of_mem_digits h
  exact absurd hdigit (by decide)

/-- **A full name is taken apart into its address and its number**, whatever the address. -/
@[simp] theorem splitName?_fullName (ip : String) (eid : Eid) :
    splitName? (fullName ip eid) = some (ip, eid) := by
  rw [splitName?, fullName, String.toList_ofList, splitLast_append _ (separator_notMem_digits _)]
  simp

/-- **Different places have different full names.** -/
theorem fullName_injective {ip ip' : String} {eid eid' : Eid}
    (h : fullName ip eid = fullName ip' eid') : ip = ip' ∧ eid = eid' := by
  have hsplit : some (ip, eid) = some (ip', eid') := calc
    some (ip, eid) = splitName? (fullName ip eid) := (splitName?_fullName ip eid).symm
    _ = splitName? (fullName ip' eid') := by rw [h]
    _ = some (ip', eid') := splitName?_fullName ip' eid'
  simpa using hsplit

end Endpoint

/-! ### Endpoints of a tree -/

namespace Tree

variable {t : Tree}

theorem endpoint?_fullName (t : Tree) (ip : String) (eid : Eid) :
    t.endpoint? (Endpoint.fullName ip eid) = t.endpointAt? ip eid := by
  rw [endpoint?, Endpoint.splitName?_fullName]
  rfl

/-- In a well-formed tree the name of an endpoint is that of its place. -/
theorem WellFormed.name_eq (ht : t.WellFormed) {ip : String} {eid : Eid} {e : Endpoint}
    (he : t.endpointAt? ip eid = some e) : e.name = Endpoint.fullName ip eid := by
  obtain ⟨d, hd, he⟩ := Option.bind_eq_some_iff.mp he
  obtain ⟨hip, heid⟩ := (ht.devices ip d hd).endpoints eid e he
  rw [Endpoint.name, hip, heid]

/-- **Everything in a reachable tree is under its own key, and its endpoints are found under their
names.** The tree is well-formed: devices are under their addresses, which are not empty, with their
endpoints under their numbers, and views are under their identifiers. What is found under the name
of an endpoint is this endpoint, and endpoints at different places have different names. -/
theorem Reachable.endpoints_named (h : t.Reachable) :
    t.WellFormed ∧
    (∀ ip eid e, t.endpointAt? ip eid = some e → t.endpoint? e.name = some e) ∧
    ∀ ip eid e ip' eid' e', t.endpointAt? ip eid = some e → t.endpointAt? ip' eid' = some e' →
      e.name = e'.name → ip = ip' ∧ eid = eid' ∧ e = e' := by
  have ht := h.wellFormed
  refine ⟨ht, ?_, ?_⟩
  · intro ip eid e he
    rw [ht.name_eq he, endpoint?_fullName, he]
  · intro ip eid e ip' eid' e' he he' hname
    rw [ht.name_eq he, ht.name_eq he'] at hname
    obtain ⟨rfl, rfl⟩ := Endpoint.fullName_injective hname
    exact ⟨rfl, rfl, Option.some.inj (he.symm.trans he')⟩

/-- A tree where the address of one device is the full name of an endpoint of another. -/
def dottedTree : Tree :=
  [Command.addDevice "hall" "Hall",
    .addEndpoint "hall" 1 (.ofFunction .infrastructure 1 "door"),
    .addDevice "hall.1" "Rack",
    .addEndpoint "hall.1" 2 (.ofFunction .actor 1 "lamp")].foldl
      (fun t c => (c.run 0 t).tree) (.ofBounds (.ofFallback ⟨0, 1⟩))

theorem Reachable.endpoints_named_dotted :
    dottedTree.Reachable ∧
    ∃ door lamp, dottedTree.endpointAt? "hall" 1 = some door ∧ door.name = "hall.1" ∧
      dottedTree.endpointAt? "hall.1" 2 = some lamp ∧ lamp.name = "hall.1.2" ∧
      dottedTree.endpoint? door.name = some door ∧ dottedTree.endpoint? lamp.name = some lamp := by
  have hreach : dottedTree.Reachable :=
    .command (.command (.command (.command (.ofBounds _) 0 _) 0 _) 0 _) 0 _
  have hdoor : ∃ e, dottedTree.endpointAt? "hall" 1 = some e ∧ e.name = "hall.1" := by
    decide +kernel
  have hlamp : ∃ e, dottedTree.endpointAt? "hall.1" 2 = some e ∧ e.name = "hall.1.2" := by
    decide +kernel
  obtain ⟨door, hdoor, hdoorName⟩ := hdoor
  obtain ⟨lamp, hlamp, hlampName⟩ := hlamp
  obtain ⟨-, hfound, -⟩ := hreach.endpoints_named
  exact ⟨hreach, door, lamp, hdoor, hdoorName, hlamp, hlampName, hfound _ _ _ hdoor,
    hfound _ _ _ hlamp⟩

end Tree

end Fleet
