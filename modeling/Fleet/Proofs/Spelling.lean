import Fleet.Proofs.Descriptions
import Fleet.Proofs.Naming
import Mathlib.Data.List.TakeWhile

/-!
# How endpoints are spelled

Which texts are the number of an endpoint, and which are a full name, without the functions that
read them. A number is one or more decimal digits with at most one plus before them, and has to fit
into 32 bits; leading zeros do not count. In a key it may stand between blanks, in a full name it
may not, and there it is what follows the last dot.

* `Text.trimmed_iff` says what is left of a text without the blanks around it. No numeral has a
  blank in it, so it is all or nothing whether one is found.
* `Endpoint.splitLast_eq_some_iff` says where a text is split. Decimal digits and a plus hold no
  dot, so every text that ends in a dot and a numeral is split there.

`Endpoint.spelling_exact` puts both together.
-/

namespace Fleet

/-! ### Blanks at both ends -/

namespace Text

variable {cs body : List Char}

/-- **The characters without the blanks around them**: only blanks come before and after, and what
is left neither begins nor ends with one. -/
structure Trimmed (cs body : List Char) : Prop where
  split : ∃ before after, cs = before ++ body ++ after ∧ (∀ c ∈ before, isBlank c = true) ∧
    ∀ c ∈ after, isBlank c = true
  begins : ∀ c, body.head? = some c → isBlank c = false
  ends : ∀ c, body.getLast? = some c → isBlank c = false

/-- What is left when blanks are dropped does not begin with one. -/
theorem isBlank_head?_dropWhile {c : Char} (h : (cs.dropWhile isBlank).head? = some c) :
    isBlank c = false := by
  have hnot := List.head?_dropWhile_not isBlank cs
  rw [h] at hnot
  exact hnot

/-- Characters that do not begin with a blank stay. -/
theorem dropWhile_isBlank_eq_self (h : ∀ c, cs.head? = some c → isBlank c = false) :
    cs.dropWhile isBlank = cs := by
  cases cs with
  | nil => rfl
  | cons c rest =>
    have hc : isBlank c = false := h c rfl
    exact List.dropWhile_cons_of_neg (by rw [hc]; exact Bool.false_ne_true)

theorem trimmed_trim (cs : List Char) : Trimmed cs (trim cs) := by
  -- the blanks at the front are taken away first, those at the back from the reversed rest
  have hfront : cs = cs.takeWhile isBlank ++ cs.dropWhile isBlank :=
    List.takeWhile_append_dropWhile.symm
  have hback : cs.dropWhile isBlank =
      trim cs ++ ((cs.dropWhile isBlank).reverse.takeWhile isBlank).reverse := by
    rw [trim, ← List.reverse_append, List.takeWhile_append_dropWhile, List.reverse_reverse]
  refine ⟨⟨cs.takeWhile isBlank, ((cs.dropWhile isBlank).reverse.takeWhile isBlank).reverse, ?_,
    fun c hc => List.mem_takeWhile_imp hc, fun c hc => ?_⟩, fun c hc => ?_, fun c hc => ?_⟩
  · rw [List.append_assoc, ← hback]
    exact hfront
  · exact List.mem_takeWhile_imp (List.mem_reverse.mp hc)
  · have hhead : (cs.dropWhile isBlank).head? = some c := by
      rw [hback, List.head?_append, hc, Option.some_or]
    exact isBlank_head?_dropWhile hhead
  · have hlast : ((cs.dropWhile isBlank).reverse.dropWhile isBlank).head? = some c := by
      rw [← List.getLast?_reverse]
      exact hc
    exact isBlank_head?_dropWhile hlast

/-- **Removing blanks at both ends** leaves exactly that. -/
theorem trimmed_iff : Trimmed cs body ↔ body = trim cs := by
  constructor
  · rintro ⟨⟨before, after, rfl, hbefore, hafter⟩, hbegins, hends⟩
    have hreverse : ∀ c, body.reverse.head? = some c → isBlank c = false := by
      rw [List.head?_reverse]
      exact hends
    rw [trim, List.append_assoc, List.dropWhile_append_of_pos hbefore]
    cases body with
    | nil => rw [List.nil_append, List.dropWhile_eq_nil_iff.mpr hafter]; rfl
    | cons c rest =>
      have hfront : (c :: rest ++ after).dropWhile isBlank = c :: rest ++ after :=
        dropWhile_isBlank_eq_self hbegins
      rw [hfront, List.reverse_append,
        List.dropWhile_append_of_pos fun c hc => hafter c (List.mem_reverse.mp hc),
        dropWhile_isBlank_eq_self hreverse, List.reverse_reverse]
  · rintro rfl
    exact trimmed_trim cs

/-! ### Numerals -/

variable {n : Nat} {c : Char}

/-- The characters of a numeral are digits and perhaps a plus. -/
theorem Spells.digit_or_plus (h : Spells cs n) (hc : c ∈ cs) : '0' ≤ c ∧ c ≤ '9' ∨ c = '+' := by
  rcases h with h | ⟨digits, rfl, h⟩
  · exact .inl (h.digits c hc)
  · rcases List.mem_cons.mp hc with rfl | hc
    · exact .inr rfl
    · exact .inl (h.digits c hc)

theorem Spells.separator_notMem (h : Spells cs n) : Endpoint.separator ∉ cs := by
  intro hc
  rcases h.digit_or_plus hc with ⟨hle, -⟩ | heq
  · exact absurd hle (by decide)
  · exact absurd heq (by decide)

end Text

/-! ### Numbers of endpoints -/

namespace Eid

variable {cs : List Char} {n : Nat}

/-- **A number without blanks** is a numeral with at most one plus before it that is not too
large. -/
theorem ofExact?_eq_some_iff :
    (∃ eid, ofExact? cs = some eid ∧ eid.toNat = n) ↔ Text.Spells cs n ∧ n ≤ 4294967295 := by
  have hfits : ∀ m, m ≤ Eid.max → (UInt32.ofNat m).toNat = m := fun m hm =>
    UInt32.toNat_ofNat_of_lt' (Nat.lt_succ_of_le hm)
  have hsignless : ∀ m, Text.signless? Eid.max cs = some m ↔ Text.Spells cs m ∧ m ≤ 4294967295 :=
    fun m => Text.signless?_eq_some_iff
  constructor
  · rintro ⟨eid, heid, rfl⟩
    obtain ⟨m, hm, rfl⟩ := Option.map_eq_some_iff.mp heid
    rw [hsignless] at hm
    rw [hfits m hm.2]
    exact hm
  · intro h
    exact ⟨UInt32.ofNat n, Option.map_eq_some_iff.mpr ⟨n, (hsignless n).mpr h, rfl⟩, hfits n h.2⟩

end Eid

/-! ### Full names -/

namespace Endpoint

theorem separator_notMem_of_splitLast {cs : List Char} (h : splitLast cs = none) :
    separator ∉ cs := by
  induction cs with
  | nil => exact List.not_mem_nil
  | cons c rest ih =>
    rw [splitLast] at h
    split at h
    · cases h
    · next hrest =>
      rw [List.mem_cons, not_or]
      refine ⟨fun hc => ?_, ih hrest⟩
      rw [if_pos hc.symm] at h
      cases h

/-- **A text is split at its last separator.** -/
theorem splitLast_eq_some_iff {cs before after : List Char} : splitLast cs = some (before, after) ↔
    cs = before ++ separator :: after ∧ separator ∉ after := by
  refine ⟨fun h => ?_, fun ⟨heq, hafter⟩ => heq ▸ splitLast_append before hafter⟩
  induction cs generalizing before with
  | nil => cases h
  | cons c rest ih =>
    rw [splitLast] at h
    split at h
    -- the rest has a separator, so the last one is there
    · next before' after' hrest =>
      cases h
      obtain ⟨rfl, hafter⟩ := ih hrest
      exact ⟨rfl, hafter⟩
    -- the rest has none, so the first character is the last separator, or there is none
    · next hrest =>
      obtain ⟨rfl, heq⟩ := Option.ite_none_right_eq_some.mp h
      cases heq
      exact ⟨rfl, separator_notMem_of_splitLast hrest⟩

/-- **A full name** is an address and a number that is spelled without blanks, with a dot between
them. -/
theorem splitName?_eq_some_iff {name ip : String} {n : Nat} :
    (∃ eid, splitName? name = some (ip, eid) ∧ eid.toNat = n) ↔
      ∃ number : String, name = ip ++ "." ++ number ∧ Text.Spells number.toList n ∧
        n ≤ 4294967295 := by
  constructor
  · rintro ⟨eid, h, hn⟩
    obtain ⟨⟨before, after⟩, hsplit, h⟩ := Option.bind_eq_some_iff.mp h
    obtain ⟨eid', heid, h⟩ := Option.bind_eq_some_iff.mp h
    cases h
    obtain ⟨hname, -⟩ := splitLast_eq_some_iff.mp hsplit
    refine ⟨String.ofList after, String.toList_inj.mp ?_, ?_⟩
    · rw [hname]
      simp [separator]
    · rw [String.toList_ofList]
      exact Eid.ofExact?_eq_some_iff.mp ⟨_, heid, hn⟩
  · rintro ⟨number, rfl, hspells⟩
    obtain ⟨eid, heid, hn⟩ := Eid.ofExact?_eq_some_iff.mpr hspells
    have hname : (ip ++ "." ++ number).toList = ip.toList ++ separator :: number.toList := by
      simp [separator]
    have hsplit : splitLast (ip ++ "." ++ number).toList = some (ip.toList, number.toList) :=
      splitLast_eq_some_iff.mpr ⟨hname, hspells.1.separator_notMem⟩
    refine ⟨eid, ?_, hn⟩
    unfold splitName?
    rw [hsplit, Option.bind_eq_bind, Option.bind_some]
    simp only [heid, Option.bind_eq_bind, Option.bind_some, String.ofList_toList]

/-- **Numbers and full names are spelled exactly so.** A key is the number of an endpoint if it is,
but for blanks around it, one or more decimal digits with at most one plus before them that denote
a number of 32 bits; there may be any number of leading zeros. Any other key is refused as what it
is. A full name is an address, which may be empty and hold dots, then a dot, then such a numeral
without blanks. So what was written as a full name is read back, whatever the address and the
number. -/
theorem spelling_exact :
    (∀ (raw : String) (n : Nat),
      (∃ eid : Eid, Device.requiredEid raw = .ok eid ∧ eid.toNat = n) ↔
        ∃ body, Text.Trimmed raw.toList body ∧ Text.Spells body n ∧ n ≤ 4294967295) ∧
    (∀ raw : String, (∃ eid, Device.requiredEid raw = .ok eid) ∨
      Device.requiredEid raw = .error (.badEid raw)) ∧
    (∀ (name ip : String) (n : Nat),
      (∃ eid : Eid, splitName? name = some (ip, eid) ∧ eid.toNat = n) ↔
        ∃ number : String, name = ip ++ "." ++ number ∧ Text.Spells number.toList n ∧
          n ≤ 4294967295) ∧
    ∀ (ip : String) (eid : Eid), splitName? (fullName ip eid) = some (ip, eid) := by
  refine ⟨fun raw n => ?_, fun raw => ?_, fun name ip n => ?_, splitName?_fullName⟩
  · simp only [Device.requiredEid_eq_ok_iff, Text.trimmed_iff, exists_eq_left]
    exact Eid.ofExact?_eq_some_iff
  · cases heid : Eid.ofText? raw with
    | some eid => exact .inl ⟨eid, Device.requiredEid_eq_ok_iff.mpr heid⟩
    | none => exact .inr (by rw [Device.requiredEid, heid])
  · exact splitName?_eq_some_iff

end Endpoint

end Fleet
