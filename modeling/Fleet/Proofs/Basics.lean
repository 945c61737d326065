import Fleet.SortedMap

/-!
# Laws of results, lists and finite maps

What an operation gives that may fail is taken apart by `map_eq_ok_iff`, `mapError_eq_ok_iff` and
`bind_eq_ok_iff`: it has a result exactly if each of its steps has one.

`SortedMap.get?_insert`, `SortedMap.get?_erase` and `SortedMap.ext_get?` say what a map is. This
module derives what the rest of the theory needs of maps that are built from lists:

* a map of a list whose keys are distinct holds exactly the entries of the list
  (`SortedMap.get?_ofList`), and its entries are that list in key order
  (`SortedMap.entries_ofList`);
* a map is the map of its own entries (`SortedMap.ofList_entries`).
-/

namespace Fleet

/-! ### Results that may be errors -/

section

variable {ε ε' α β : Type}

theorem map_eq_ok_iff {x : Except ε α} {f : α → β} {b : β} :
    x.map f = .ok b ↔ ∃ a, x = .ok a ∧ f a = b := by
  cases x with
  | error e => simp [Except.map]
  | ok a => simp [Except.map]

theorem mapError_eq_ok_iff {x : Except ε α} {f : ε → ε'} {a : α} :
    x.mapError f = .ok a ↔ x = .ok a := by
  cases x with
  | error e =>
    constructor <;> intro h <;> cases h
  | ok a =>
    constructor <;> intro h <;> cases h <;> rfl

theorem bind_eq_ok_iff {x : Except ε α} {f : α → Except ε β} {b : β} :
    (x >>= f) = .ok b ↔ ∃ a, x = .ok a ∧ f a = .ok b := by
  cases x with
  | error e => simp [bind, Except.bind]
  | ok a => simp [bind, Except.bind]

theorem toOption_eq_some_iff {x : Except ε α} {a : α} : x.toOption = some a ↔ x = .ok a := by
  cases x with
  | error e => simp [Except.toOption]
  | ok a => simp [Except.toOption]

@[simp] theorem ok_bind {a : α} {f : α → Except ε β} : (Except.ok a >>= f) = f a := rfl

@[simp] theorem error_bind {e : ε} {f : α → Except ε β} :
    ((Except.error e : Except ε α) >>= f) = .error e := rfl

end

/-! ### Lists -/

/-- **Of the members with a property** one is the last. -/
theorem exists_last {α : Type} {P : α → Prop} {l : List α} (h : ∃ a ∈ l, P a) :
    ∃ before a after, l = before ++ a :: after ∧ P a ∧ ∀ b ∈ after, ¬ P b := by
  induction l with
  | nil =>
    obtain ⟨a, ha, -⟩ := h
    cases ha
  | cons a rest ih =>
    -- the first member counts only if no later one has the property
    by_cases hrest : ∃ b ∈ rest, P b
    · obtain ⟨before, b, after, rfl, hb, hafter⟩ := ih hrest
      exact ⟨a :: before, b, after, rfl, hb, hafter⟩
    · have hafter : ∀ b ∈ rest, ¬ P b := fun b hb hP => hrest ⟨b, hb, hP⟩
      obtain ⟨b, hb, hP⟩ := h
      rcases List.mem_cons.mp hb with rfl | hb
      · exact ⟨[], b, rest, rfl, hP, hafter⟩
      · exact absurd hP (hafter b hb)

namespace SortedMap

universe u v w

variable {κ : Type u} {α β : Type v}

/-! ### Maps without entries -/

section
variable [Ord κ]

@[simp] theorem entries_emptyc : (∅ : SortedMap κ α).entries = [] := rfl

@[simp] theorem get?_emptyc [DecidableEq κ] {k : κ} : (∅ : SortedMap κ α).get? k = none := rfl

theorem contains_eq_true_iff [DecidableEq κ] {m : SortedMap κ α} {k : κ} :
    m.contains k = true ↔ ∃ a, m.get? k = some a := Option.isSome_iff_exists

theorem contains_eq_false_iff [DecidableEq κ] {m : SortedMap κ α} {k : κ} :
    m.contains k = false ↔ m.get? k = none := by
  rw [contains, Option.isSome_eq_false_iff, Option.isNone_iff_eq_none]

theorem isEmpty_iff {m : SortedMap κ α} : m.isEmpty = true ↔ m = ∅ := by
  rw [isEmpty, List.isEmpty_iff]
  exact ⟨fun h => eq_of_entries h, fun h => h ▸ rfl⟩

end

/-! ### Keys -/

section
variable [Ord κ] [Std.TransOrd κ]

theorem nodup_keys (m : SortedMap κ α) : m.keys.Nodup := by
  unfold keys
  rw [List.nodup_iff_pairwise_ne, List.pairwise_map]
  have h : m.entries.Pairwise fun a b => compare a.1 b.1 = .lt := m.increasing
  exact h.imp fun hab heq => by simp [heq, Std.ReflCmp.compare_self] at hab

/-- The keys stay distinct where different keys get different ones. -/
theorem nodup_map_keys {ι : Type w} {f : κ → ι} (hf : ∀ k l, f k = f l → k = l) (g : κ → α → β)
    (m : SortedMap κ α) : ((m.entries.map fun p => (f p.1, g p.1 p.2)).map Prod.fst).Nodup := by
  rw [List.map_map]
  have h := m.nodup_keys
  unfold keys at h
  rw [List.nodup_iff_pairwise_ne, List.pairwise_map] at h ⊢
  exact h.imp fun hne heq => hne (hf _ _ heq)

variable [DecidableEq κ]

theorem mem_keys_iff {m : SortedMap κ α} {k : κ} : k ∈ m.keys ↔ ∃ a, m.get? k = some a := by
  unfold keys
  rw [List.mem_map]
  constructor
  · rintro ⟨⟨k', a⟩, h, rfl⟩
    exact ⟨a, get?_eq_some_iff.mpr h⟩
  · rintro ⟨a, h⟩
    exact ⟨(k, a), get?_eq_some_iff.mp h, rfl⟩

/-- What is said of every value at its key can be decided entry by entry. -/
instance {m : SortedMap κ α} {P : κ → α → Prop} [∀ k a, Decidable (P k a)] :
    Decidable (∀ k a, m.get? k = some a → P k a) :=
  decidable_of_iff (∀ p ∈ m.entries, P p.1 p.2)
    ⟨fun h k a ha => h (k, a) (get?_eq_some_iff.mp ha),
      fun h p hp => h p.1 p.2 (get?_eq_some_iff.mpr hp)⟩

end

/-! ### Entries taken out and values replaced -/

section
variable [Ord κ] [Std.TransOrd κ] [DecidableEq κ]

/-- **A selection** keeps what passes the test, at every key by itself. -/
theorem get?_filter {keep : κ → α → Bool} {m : SortedMap κ α} {k : κ} :
    (m.filter keep).get? k = (m.get? k).filter (keep k) := by
  refine Option.ext fun a => ?_
  rw [get?_eq_some_iff, filter, List.mem_filter, Option.filter_eq_some_iff, get?_eq_some_iff]

/-- **A map with other values** has them under the same keys. -/
theorem get?_mapValues {f : κ → α → β} {m : SortedMap κ α} {k : κ} :
    (m.mapValues f).get? k = (m.get? k).map (f k) := by
  refine Option.ext fun b => ?_
  rw [get?_eq_some_iff, mapValues, List.mem_map, Option.map_eq_some_iff]
  constructor
  · rintro ⟨⟨l, a⟩, hmem, heq⟩
    obtain ⟨rfl, rfl⟩ := Prod.mk.inj heq
    exact ⟨a, get?_eq_some_iff.mpr hmem, rfl⟩
  · rintro ⟨a, ha, rfl⟩
    exact ⟨(k, a), get?_eq_some_iff.mp ha, rfl⟩

end

/-! ### Maps of lists -/

section
variable [Ord κ] [Std.TransOrd κ] [Std.LawfulEqOrd κ]

@[simp] theorem entries_singleton {k : κ} {a : α} : (singleton k a).entries = [(k, a)] := rfl

variable [DecidableEq κ]

theorem get?_singleton {k l : κ} {a : α} :
    (singleton k a).get? l = if l = k then some a else none := by
  rw [singleton, get?_insert]
  rfl

/-- Putting back what is there changes nothing. -/
theorem insert_eq_self {m : SortedMap κ α} {k : κ} {a : α} (h : m.get? k = some a) :
    m.insert k a = m := by
  refine ext_get? fun l => ?_
  rw [get?_insert]
  split
  · next hl => rw [hl, h]
  · rfl

omit [Std.LawfulEqOrd κ] in
/-- Removing what is not there changes nothing. -/
theorem erase_eq_self {m : SortedMap κ α} {k : κ} (h : m.get? k = none) : m.erase k = m := by
  refine ext_get? fun l => ?_
  rw [get?_erase]
  split
  · next hl => rw [hl, h]
  · rfl

theorem isEmpty_insert {m : SortedMap κ α} {k : κ} {a : α} : (m.insert k a).isEmpty = false := by
  rw [Bool.eq_false_iff]
  intro h
  have hk : (m.insert k a).get? k = some a := by rw [get?_insert, if_pos rfl]
  rw [isEmpty_iff.mp h] at hk
  exact absurd hk (by simp)

/-- Entries with distinct keys, inserted one after another, are found; what was there before is
found at all other keys. -/
theorem get?_foldl_insert {entries : List (κ × α)} (h : (entries.map Prod.fst).Nodup)
    {m : SortedMap κ α} {k : κ} {a : α} :
    (entries.foldl (fun m p => m.insert p.1 p.2) m).get? k = some a ↔
      (k, a) ∈ entries ∨ k ∉ entries.map Prod.fst ∧ m.get? k = some a := by
  induction entries generalizing m with
  | nil => simp
  | cons p rest ih =>
    obtain ⟨l, b⟩ := p
    rw [List.map_cons, List.nodup_cons] at h
    rw [List.foldl_cons, ih h.2, get?_insert, List.mem_cons, List.map_cons, List.mem_cons]
    have hmem : (l, a) ∈ rest → l ∈ rest.map Prod.fst := fun hr =>
      List.mem_map.mpr ⟨_, hr, rfl⟩
    by_cases hk : k = l
    -- the key of the first entry, which is not that of a later one
    · subst hk
      have := h.1
      simp only [if_pos, Option.some.injEq, Prod.mk.injEq, true_and]
      grind
    · simp only [if_neg hk, Prod.mk.injEq]
      grind

/-- **What the map of a list holds**, if the keys are distinct. -/
theorem get?_ofList {entries : List (κ × α)} (h : (entries.map Prod.fst).Nodup) {k : κ} {a : α} :
    (ofList entries).get? k = some a ↔ (k, a) ∈ entries := by
  rw [ofList, get?_foldl_insert h]
  simp

/-- **The entries of the map of a list** are the list in key order, if the keys are distinct. -/
theorem entries_ofList {entries ordered : List (κ × α)} (h : entries.Perm ordered)
    (increasing : KeysIncrease ordered) : (ofList entries).entries = ordered := by
  refine (ofList entries).increasing.eq_of_mem_iff increasing fun p => ?_
  have hkeys : (entries.map Prod.fst).Nodup :=
    (h.map Prod.fst).nodup_iff.mpr (nodup_keys ⟨ordered, increasing⟩)
  rw [← get?_eq_some_iff, get?_ofList hkeys]
  exact h.mem_iff

/-- **A map is the map of its entries.** -/
theorem ofList_entries (m : SortedMap κ α) : ofList m.entries = m :=
  eq_of_entries (entries_ofList (List.Perm.refl _) m.increasing)

end

/-! ### Maps under other keys

Documents and patches keep the entries of a map under the texts of its keys. -/

section
variable [Ord κ] [Std.TransOrd κ] [Std.LawfulEqOrd κ] [DecidableEq κ]
variable {ι : Type w} [Ord ι] [Std.TransOrd ι] [DecidableEq ι]

/-- **A map under other keys** holds what the map holds. -/
theorem get?_ofList_map {f : ι → κ} (hf : ∀ i j, f i = f j → i = j) {g : ι → α → β}
    {m : SortedMap ι α} {k : κ} {b : β} :
    (ofList (m.entries.map fun p => (f p.1, g p.1 p.2))).get? k = some b ↔
      ∃ i a, m.get? i = some a ∧ f i = k ∧ g i a = b := by
  rw [get?_ofList (nodup_map_keys hf g m), List.mem_map]
  constructor
  · rintro ⟨⟨i, a⟩, h, heq⟩
    cases heq
    exact ⟨i, a, get?_eq_some_iff.mpr h, rfl, rfl⟩
  · rintro ⟨i, a, h, rfl, rfl⟩
    exact ⟨(i, a), get?_eq_some_iff.mp h, rfl⟩

end

end SortedMap

end Fleet
