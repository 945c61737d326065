/-!
# Finite maps in key order

Devices by address, endpoints by number, dashboards by identity and the members of a plain JSON
object are all *finite maps read in the order of their keys*. `SortedMap κ α` keeps such a map as
the list of its entries, with the proof that the keys strictly increase in the type. A map
therefore has exactly one representation, so

* equality of maps is equality of entry lists, and two maps that hold the same at every key are
  equal (`SortedMap.ext_get?`);
* reading the entries front to back is reading them in key order, which is the order in which
  documents are written and in which a patch is applied.

`insert` replaces the value at a key that is already there, and `ofList` inserts from left to
right, so of two entries with one key the later one counts. What the operations do at every key is
said by `SortedMap.get?_insert` and `SortedMap.get?_erase`.
-/

namespace Fleet

universe u v

variable {κ : Type u} {α β : Type v}

/-! ### Entry lists with increasing keys -/

/-- The keys strictly increase along the list. -/
def KeysIncrease [Ord κ] (entries : List (κ × α)) : Prop :=
  entries.Pairwise fun a b => compare a.1 b.1 = .lt

/-- The first key is less than all others, and those increase. -/
theorem keysIncrease_cons [Ord κ] {p : κ × α} {rest : List (κ × α)} :
    KeysIncrease (p :: rest) ↔ (∀ q ∈ rest, compare p.1 q.1 = .lt) ∧ KeysIncrease rest :=
  List.pairwise_cons

/-- Put a value at a key: a smaller key is passed over, an equal one is replaced, and before a
greater one the entry is new. -/
def insertEntry [Ord κ] (k : κ) (v : α) : List (κ × α) → List (κ × α)
  | [] => [(k, v)]
  | (k', v') :: rest =>
    match compare k k' with
    | .lt => (k, v) :: (k', v') :: rest
    | .eq => (k, v) :: rest
    | .gt => (k', v') :: insertEntry k v rest

/-- Whatever is in the list after an insertion was inserted or was there before. -/
theorem mem_keys_insertEntry [Ord κ] {k : κ} {v : α} {p : κ × α} :
    ∀ {entries : List (κ × α)}, p ∈ insertEntry k v entries → p = (k, v) ∨ p ∈ entries
  | [], h => .inl (by simpa [insertEntry] using h)
  | (k', v') :: rest, h => by
    unfold insertEntry at h
    split at h
    · simpa using h
    · rcases List.mem_cons.mp h with h | h
      · exact .inl h
      · exact .inr (List.mem_cons_of_mem _ h)
    · rcases List.mem_cons.mp h with h | h
      · exact .inr (h ▸ List.mem_cons_self)
      · rcases mem_keys_insertEntry h with h | h
        · exact .inl h
        · exact .inr (List.mem_cons_of_mem _ h)

/-- An insertion keeps the keys increasing. -/
theorem KeysIncrease.insertEntry [Ord κ] [Std.TransOrd κ] [Std.LawfulEqOrd κ] (k : κ) (v : α) :
    ∀ {entries : List (κ × α)}, KeysIncrease entries → KeysIncrease (insertEntry k v entries)
  | [], _ => by simp [Fleet.insertEntry, KeysIncrease]
  | (k', v') :: rest, h => by
    obtain ⟨hhead, htail⟩ := keysIncrease_cons.mp h
    unfold Fleet.insertEntry
    split
    -- before the first entry: the new key is less than every key
    · next hlt =>
      refine keysIncrease_cons.mpr ⟨fun p hp => ?_, h⟩
      rcases List.mem_cons.mp hp with rfl | hp
      · exact hlt
      · exact Std.TransCmp.lt_trans hlt (hhead p hp)
    -- in place of the first entry, with the same key
    · next heq =>
      have hk : k = k' := Std.LawfulEqCmp.eq_of_compare heq
      exact keysIncrease_cons.mpr ⟨fun p hp => hk ▸ hhead p hp, htail⟩
    -- behind the first entry, whose key stays the least
    · next hgt =>
      refine keysIncrease_cons.mpr ⟨fun p hp => ?_, KeysIncrease.insertEntry k v htail⟩
      rcases mem_keys_insertEntry hp with rfl | hp
      · exact Std.OrientedCmp.lt_of_gt hgt
      · exact hhead p hp

/-- An entry of a list with increasing keys is the only one with its key. -/
theorem KeysIncrease.eq_of_mem [Ord κ] [Std.TransOrd κ] :
    ∀ {entries : List (κ × α)}, KeysIncrease entries →
      ∀ {k : κ} {v w : α}, (k, v) ∈ entries → (k, w) ∈ entries → v = w
  | [], _, _, _, _, hv, _ => by simp at hv
  | (k', v') :: rest, h, k, v, w, hv, hw => by
    obtain ⟨hhead, htail⟩ := keysIncrease_cons.mp h
    have irrefl : ∀ u : α, k = k' → (k, u) ∉ rest := fun u hk hu => by
      have hlt := hhead (k, u) hu
      simp [hk, Std.ReflCmp.compare_self] at hlt
    rcases List.mem_cons.mp hv with hv | hv <;> rcases List.mem_cons.mp hw with hw | hw
    · cases hv; cases hw; rfl
    · cases hv; exact absurd hw (irrefl w rfl)
    · cases hw; exact absurd hv (irrefl v rfl)
    · exact htail.eq_of_mem hv hw

/-- **After an insertion** the list holds the new entry and all that have another key. -/
theorem KeysIncrease.mem_insertEntry_iff [Ord κ] [Std.TransOrd κ] [Std.LawfulEqOrd κ] {k : κ}
    {v : α} {p : κ × α} : ∀ {entries : List (κ × α)}, KeysIncrease entries →
      (p ∈ Fleet.insertEntry k v entries ↔ p = (k, v) ∨ p ∈ entries ∧ p.1 ≠ k)
  | [], _ => by simp [Fleet.insertEntry]
  | (k', v') :: rest, h => by
    obtain ⟨hhead, htail⟩ := keysIncrease_cons.mp h
    have below : ∀ {a b : κ}, compare a b = .lt → b ≠ a := fun hlt hba => by
      simp [hba, Std.ReflCmp.compare_self] at hlt
    unfold Fleet.insertEntry
    split
    -- the new key is less than every key, so every entry has another one
    · next hlt =>
      have hne : ∀ q ∈ (k', v') :: rest, q.1 ≠ k := fun q hq => by
        rcases List.mem_cons.mp hq with rfl | hq
        · exact below hlt
        · exact below (Std.TransCmp.lt_trans hlt (hhead q hq))
      simp only [List.mem_cons (a := p) (b := (k, v))]
      exact or_congr_right ⟨fun hp => ⟨hp, hne p hp⟩, And.left⟩
    -- the first entry is the one with the same key
    · next heq =>
      have hk : k = k' := Std.LawfulEqCmp.eq_of_compare heq
      subst hk
      have hne : ∀ q ∈ rest, q.1 ≠ k := fun q hq => below (hhead q hq)
      grind
    -- the first entry has another key, and stays
    · next hgt =>
      have hne : k' ≠ k := (below (Std.OrientedCmp.lt_of_gt hgt)).symm
      rw [List.mem_cons, List.mem_cons, htail.mem_insertEntry_iff]
      grind

/-- **Lists with increasing keys are determined by what they hold.** -/
theorem KeysIncrease.eq_of_mem_iff [Ord κ] [Std.TransOrd κ] :
    ∀ {a b : List (κ × α)}, KeysIncrease a → KeysIncrease b → (∀ p, p ∈ a ↔ p ∈ b) → a = b
  | [], [], _, _, _ => rfl
  | [], q :: _, _, _, h => by simpa using (h q).mpr List.mem_cons_self
  | p :: _, [], _, _, h => by simpa using (h p).mp List.mem_cons_self
  | p :: as, q :: bs, ha, hb, h => by
    obtain ⟨hpas, has⟩ := keysIncrease_cons.mp ha
    obtain ⟨hqbs, hbs⟩ := keysIncrease_cons.mp hb
    have irrefl : ∀ r : κ × α, compare r.1 r.1 ≠ .lt := fun r => by
      simp [Std.ReflCmp.compare_self]
    -- the least key of either list is in the other one, so the first entries agree
    have hpq : p = q := by
      rcases List.mem_cons.mp ((h p).mp List.mem_cons_self) with hp | hp
      · exact hp
      · rcases List.mem_cons.mp ((h q).mpr List.mem_cons_self) with hq | hq
        · exact hq.symm
        · exact absurd (Std.TransCmp.lt_trans (hpas q hq) (hqbs p hp)) (irrefl p)
    subst hpq
    have hrest : ∀ r, r ∈ as ↔ r ∈ bs := fun r => by
      have hr := h r
      simp only [List.mem_cons] at hr
      have hra : r ∈ as → r ≠ p := fun hm he => irrefl p (he ▸ hpas r hm)
      have hrb : r ∈ bs → r ≠ p := fun hm he => irrefl p (he ▸ hqbs r hm)
      grind
    rw [has.eq_of_mem_iff hbs hrest]

/-! ### The map -/

/-- A finite map: its entries in strictly increasing order of their keys. -/
structure SortedMap (κ : Type u) (α : Type v) [Ord κ] where
  /-- The entries, front to back in key order. -/
  entries : List (κ × α)
  /-- No key comes twice and none is out of order. -/
  increasing : KeysIncrease entries

namespace SortedMap

section
variable [Ord κ]

/-- Maps with the same entries are equal. -/
theorem eq_of_entries {m n : SortedMap κ α} (h : m.entries = n.entries) : m = n := by
  cases m; cases n; cases h; rfl

instance [DecidableEq κ] [DecidableEq α] : DecidableEq (SortedMap κ α) := fun m n =>
  if h : m.entries = n.entries then .isTrue (eq_of_entries h)
  else .isFalse fun hmn => h (hmn ▸ rfl)

/-- The map without entries. -/
def empty : SortedMap κ α := ⟨[], List.Pairwise.nil⟩

instance : EmptyCollection (SortedMap κ α) := ⟨empty⟩

instance : Inhabited (SortedMap κ α) := ⟨empty⟩

/-- Whether the map has no entry. -/
def isEmpty (m : SortedMap κ α) : Bool := m.entries.isEmpty

/-- The number of entries. -/
def size (m : SortedMap κ α) : Nat := m.entries.length

/-- The keys in increasing order. -/
def keys (m : SortedMap κ α) : List κ := m.entries.map (·.1)

/-- The values in the order of their keys. -/
def values (m : SortedMap κ α) : List α := m.entries.map (·.2)

/-- The value at a key. -/
def get? [DecidableEq κ] (m : SortedMap κ α) (k : κ) : Option α :=
  (m.entries.find? fun p => decide (p.1 = k)).map (·.2)

/-- Whether the map has a value at the key. -/
def contains [DecidableEq κ] (m : SortedMap κ α) (k : κ) : Bool := (m.get? k).isSome

@[simp] theorem get?_empty [DecidableEq κ] {k : κ} :
    (empty : SortedMap κ α).get? k = none := rfl

/-- The map without the key. -/
def erase [DecidableEq κ] (m : SortedMap κ α) (k : κ) : SortedMap κ α :=
  ⟨m.entries.filter fun p => p.1 ≠ k, List.Pairwise.filter _ m.increasing⟩

/-- The entries that pass a test of key and value. -/
def filter (keep : κ → α → Bool) (m : SortedMap κ α) : SortedMap κ α :=
  ⟨m.entries.filter fun p => keep p.1 p.2, List.Pairwise.filter _ m.increasing⟩

/-- Every value replaced by one computed from its key and itself. -/
def mapValues (f : κ → α → β) (m : SortedMap κ α) : SortedMap κ β :=
  ⟨m.entries.map fun p => (p.1, f p.1 p.2), by
    have h : m.entries.Pairwise fun a b => compare a.1 b.1 = .lt := m.increasing
    simpa [KeysIncrease, List.pairwise_map] using h⟩

end

/-! ### What a map holds at a key -/

section
variable [Ord κ] [Std.TransOrd κ] [DecidableEq κ]

/-- **The value at a key** is that of the entry with the key. -/
theorem get?_eq_some_iff {m : SortedMap κ α} {k : κ} {v : α} :
    m.get? k = some v ↔ (k, v) ∈ m.entries := by
  unfold get?
  constructor
  · intro h
    obtain ⟨⟨k', v'⟩, hfind, rfl⟩ := Option.map_eq_some_iff.mp h
    have hk : k' = k := by simpa using List.find?_some hfind
    exact hk ▸ List.mem_of_find?_eq_some hfind
  · intro h
    match hfind : m.entries.find? fun p => decide (p.1 = k) with
    | none => simpa using List.find?_eq_none.mp hfind _ h
    | some (k', v') =>
      have hk : k' = k := by simpa using List.find?_some hfind
      subst hk
      rw [hfind]
      exact congrArg some (m.increasing.eq_of_mem (List.mem_of_find?_eq_some hfind) h)

/-- **Maps that hold the same at every key are equal.** -/
theorem ext_get? {m n : SortedMap κ α} (h : ∀ k, m.get? k = n.get? k) : m = n :=
  eq_of_entries <| m.increasing.eq_of_mem_iff n.increasing fun p => by
    rw [← get?_eq_some_iff, ← get?_eq_some_iff, h]

/-- **An erasure** leaves one key without a value. -/
theorem get?_erase {m : SortedMap κ α} {k l : κ} :
    (m.erase k).get? l = if l = k then none else m.get? l := by
  refine Option.ext fun w => ?_
  rw [get?_eq_some_iff, erase]
  split
  · next h => simp [h]
  · next h => simp [h, get?_eq_some_iff]

end

/-! ### Insertions -/

section
variable [Ord κ] [Std.TransOrd κ] [Std.LawfulEqOrd κ]

/-- The map with the value at the key, in place of the one that was there. -/
def insert (m : SortedMap κ α) (k : κ) (v : α) : SortedMap κ α :=
  ⟨insertEntry k v m.entries, m.increasing.insertEntry k v⟩

/-- **An insertion** changes the map at one key. -/
theorem get?_insert [DecidableEq κ] {m : SortedMap κ α} {k l : κ} {v : α} :
    (m.insert k v).get? l = if l = k then some v else m.get? l := by
  refine Option.ext fun w => ?_
  rw [get?_eq_some_iff, insert, m.increasing.mem_insertEntry_iff]
  split
  · next h => simp [h, eq_comm]
  · next h => simp [h, get?_eq_some_iff]

/-- The map of one entry. -/
def singleton (k : κ) (v : α) : SortedMap κ α := empty.insert k v

/-- The map of a list of entries; of two with one key the later one counts. -/
def ofList (entries : List (κ × α)) : SortedMap κ α :=
  entries.foldl (fun m p => m.insert p.1 p.2) empty

end

end SortedMap

end Fleet
