import Fleet.Endpoint.Id
import Fleet.Uuid
import Mathlib.Algebra.Group.Nat.Defs

/-!
# Identifiers are read back from their texts

Patches and snapshots keep the numbers of endpoints and the identifiers of views as texts, so a
replica sees of them only what `Eid.text` and `Uuid.text` have written. Reading gives them back:

* `Eid.ofText?_text` for the numbers of endpoints: decimal digits hold neither a sign nor a blank,
  and a number of 32 bits stays below the limit;
* `Uuid.ofText?_text` for the identifiers of views: the written form is the grouped one, which is
  neither in braces nor a resource name.

Different identifiers therefore have different texts (`Eid.text_injective`, `Uuid.text_injective`),
so that a map can be kept under the texts of its keys without loss.
-/

namespace Fleet

/-! ### Decimal numerals -/

namespace Text

/-- The last digit is the least significant one. -/
theorem ofDigits_concat {base d : Nat} {ds : List Nat} :
    ofDigits base (ds ++ [d]) = base * ofDigits base ds + d := by
  simp [ofDigits]

theorem decimalDigit?_digitChar {d : Nat} (h : d < 10) : decimalDigit? d.digitChar = some d := by
  have : ∀ d < 10, decimalDigit? (Nat.digitChar d) = some d := by decide
  exact this d h

/-- All digits of a number in decimal notation are digits, and they denote the number. There is at
least one, and the first of them is zero only if it is the only one. -/
theorem mapM_decimalDigit?_digits (n : Nat) :
    ∃ ds, (Decimal.digits n).mapM decimalDigit? = some ds ∧ ofDigits 10 ds = n ∧ ds ≠ [] ∧
      (ds.head? = some 0 → ds.length = 1) := by
  induction n using Nat.strongRecOn with
  | ind n ih =>
    unfold Decimal.digits at ih ⊢
    by_cases hn : n < 10
    -- a single digit
    · refine ⟨[n], ?_, by simp [ofDigits], by simp, fun _ => rfl⟩
      rw [Nat.toDigits_of_lt_base hn]
      simp [decimalDigit?_digitChar hn]
    -- the digits of a tenth, and one more
    · obtain ⟨ds, hds, hval, hne, hfirst⟩ := ih (n / 10) (by omega)
      have hlast : n % 10 < 10 := by omega
      refine ⟨ds ++ [n % 10], ?_, ?_, by simp, fun hzero => ?_⟩
      · rw [Nat.toDigits_of_base_le (by omega) (by omega), List.mapM_append, hds]
        simp [decimalDigit?_digitChar hlast]
      · calc ofDigits 10 (ds ++ [n % 10])
          _ = 10 * (n / 10) + n % 10 := by rw [ofDigits_concat, hval]
          _ = n := Nat.div_add_mod n 10
      -- a tenth that is written as zero is zero
      · obtain ⟨d, rest, rfl⟩ := List.exists_cons_of_ne_nil hne
        cases hzero
        obtain rfl : rest = [] := List.length_eq_zero_iff.mp (Nat.succ.inj (hfirst rfl))
        simp only [ofDigits, List.foldl_cons, List.foldl_nil] at hval
        omega

/-- **A number is read back from its decimal notation.** -/
theorem numeral?_digits (n : Nat) : numeral? (Decimal.digits n) = some n := by
  obtain ⟨ds, hds, hval, -⟩ := mapM_decimalDigit?_digits n
  have hne : (Decimal.digits n).isEmpty = false := by
    rw [List.isEmpty_eq_false_iff]
    exact Nat.toDigits_ne_nil
  rw [numeral?, hne, hds]
  simp [hval]

theorem isDigit_of_mem_digits {c : Char} {n : Nat} (h : c ∈ Decimal.digits n) : c.isDigit = true :=
  Nat.isDigit_of_mem_toDigits (by omega) (by omega) h

theorem isBlank_of_isDigit {c : Char} (h : c.isDigit = true) : isBlank c = false := by
  have hc : 48 ≤ c.toNat ∧ c.toNat ≤ 57 := by
    simpa [Char.isDigit, UInt32.le_iff_toNat_le] using h
  simp only [isBlank, blankRanges, List.any_cons, List.any_nil, Bool.or_false, Bool.or_eq_false_iff,
    Bool.and_eq_false_iff, decide_eq_false_iff_not]
  omega

/-- Characters without a blank stay as they are when blanks are removed. -/
theorem trim_eq_self {cs : List Char} (h : ∀ c ∈ cs, isBlank c = false) : trim cs = cs := by
  have keep : ∀ ds : List Char, (∀ c ∈ ds, isBlank c = false) → ds.dropWhile isBlank = ds := by
    intro ds hds
    cases ds with
    | nil => rfl
    | cons c rest => rw [List.dropWhile_cons, hds c List.mem_cons_self]; rfl
  have hrev : ∀ c ∈ cs.reverse, isBlank c = false := fun c hc => h c (List.mem_reverse.mp hc)
  rw [trim, keep cs h, keep cs.reverse hrev, List.reverse_reverse]

end Text

/-! ### Numbers of endpoints -/

namespace Eid

theorem ofExact?_digits {n : Nat} (h : n ≤ Eid.max) :
    ofExact? (Decimal.digits n) = some (UInt32.ofNat n) := by
  have hsign : Text.signless? Eid.max (Decimal.digits n) = some n := by
    unfold Text.signless?
    split
    -- no digit is a sign
    · next rest heq =>
      have hplus := Text.isDigit_of_mem_digits (n := n) (heq ▸ List.mem_cons_self)
      exact absurd hplus (by decide)
    · change (Text.numeral? (Decimal.digits n)).filter (· ≤ Eid.max) = some n
      rw [Text.numeral?_digits]
      simp [h]
  rw [ofExact?, hsign]
  rfl

/-- A number without blanks is read back from its digits. -/
@[simp] theorem ofExact?_digits_toNat (eid : Eid) :
    ofExact? (Decimal.digits eid.toNat) = some eid := by
  have hmax : eid.toNat ≤ Eid.max := by
    have := UInt32.toNat_lt eid
    simp only [Eid.max, UInt32.size]
    omega
  rw [ofExact?_digits hmax, UInt32.ofNat_toNat]

/-- **The number of an endpoint is read back from its text.** -/
@[simp] theorem ofText?_text (eid : Eid) : ofText? eid.text = some eid := by
  rw [ofText?, text, String.toList_ofList,
    Text.trim_eq_self fun c hc => Text.isBlank_of_isDigit (Text.isDigit_of_mem_digits hc),
    ofExact?_digits_toNat]

theorem text_injective {a b : Eid} (h : a.text = b.text) : a = b := by
  have hread : some a = some b := calc
    some a = ofText? a.text := a.ofText?_text.symm
    _ = ofText? b.text := by rw [h]
    _ = some b := b.ofText?_text
  exact Option.some.inj hread

end Eid

/-! ### Hexadecimal numerals -/

namespace Text

theorem hexDigit?_hexDigit {n : Nat} (h : n < 16) : hexDigit? (hexDigit n) = some n := by
  have : ∀ n < 16, hexDigit? (hexDigit n) = some n := by decide
  exact this n h

/-- No hexadecimal digit is a hyphen, a brace or the first letter of the resource scheme. -/
theorem hexDigit_ne {n : Nat} (h : n < 16) :
    hexDigit n ≠ '-' ∧ hexDigit n ≠ '\x7b' ∧ (hexDigit n).toLower ≠ 'u' := by
  have : ∀ n < 16, hexDigit n ≠ '-' ∧ hexDigit n ≠ '\x7b' ∧ (hexDigit n).toLower ≠ 'u' := by decide
  exact this n h

@[simp] theorem length_hexadecimal (width n : Nat) : (hexadecimal width n).length = width := by
  induction width generalizing n with
  | zero => rfl
  | succ width ih => simp [hexadecimal, ih]

/-- The digits of a fixed width denote the number as far as they reach. -/
theorem mapM_hexDigit?_hexadecimal (width n : Nat) :
    ∃ ds, (hexadecimal width n).mapM hexDigit? = some ds ∧ ofDigits 16 ds = n % 16 ^ width := by
  induction width generalizing n with
  | zero => exact ⟨[], rfl, by simp [ofDigits, Nat.mod_one]⟩
  | succ width ih =>
    obtain ⟨ds, hds, hval⟩ := ih (n / 16)
    have hlast : n % 16 < 16 := Nat.mod_lt _ (by omega)
    refine ⟨ds ++ [n % 16], ?_, ?_⟩
    · rw [hexadecimal, List.mapM_append, hds]
      simp [hexDigit?_hexDigit hlast]
    -- what is lost above the width is lost of `n / 16` first
    · calc ofDigits 16 (ds ++ [n % 16])
        _ = 16 * (n / 16 % 16 ^ width) + n % 16 := by rw [ofDigits_concat, hval]
        _ = n % (16 * 16 ^ width) := by rw [Nat.mod_mul, Nat.add_comm]
        _ = n % 16 ^ (width + 1) := by rw [Nat.pow_succ, Nat.mul_comm]

/-- **A number is read back from its digits**, if they are enough for it. -/
theorem hexadecimal?_hexadecimal {width n : Nat} (h : n < 16 ^ width) :
    hexadecimal? (hexadecimal width n) = some n := by
  obtain ⟨ds, hds, hval⟩ := mapM_hexDigit?_hexadecimal width n
  rw [hexadecimal?, hds, Option.map_some, hval, Nat.mod_eq_of_lt h]

/-- The first of the digits of a fixed width. -/
theorem exists_hexadecimal_eq_cons (width n : Nat) :
    ∃ d rest, d < 16 ∧ hexadecimal (width + 1) n = hexDigit d :: rest := by
  induction width generalizing n with
  | zero => exact ⟨n % 16, [], Nat.mod_lt _ (by omega), rfl⟩
  | succ width ih =>
    obtain ⟨d, rest, hd, heq⟩ := ih (n / 16)
    exact ⟨d, rest ++ [hexDigit (n % 16)], hd, by rw [hexadecimal, heq, List.cons_append]⟩

end Text

/-! ### Identifiers of views -/

namespace Uuid

/-- **Groups are taken apart where hyphens were put**, if the groups have the right length. -/
theorem unhyphenate?_hyphenate (lengths : List Nat) (n : Nat) {cs : List Char}
    (h : cs.length = n + lengths.foldr (· + ·) 0) :
    unhyphenate? (n :: lengths) (hyphenate (n :: lengths) cs) = some cs := by
  induction lengths generalizing n cs with
  | nil => rw [hyphenate, unhyphenate?, if_pos (by simpa using h)]; exact fun _ _ _ h => nomatch h
  | cons m lengths ih =>
    rw [List.foldr_cons] at h
    -- taking and dropping `n` of the hyphenated text gives back the first group and the rest
    have hfirst : (cs.take n).length = n := by rw [List.length_take]; omega
    have hrest : (cs.drop n).length = m + lengths.foldr (· + ·) 0 := by
      rw [List.length_drop]; omega
    have hdrop : (cs.take n ++ '-' :: hyphenate (m :: lengths) (cs.drop n)).drop n =
        '-' :: hyphenate (m :: lengths) (cs.drop n) := List.drop_left' hfirst
    have htake : (cs.take n ++ '-' :: hyphenate (m :: lengths) (cs.drop n)).take n = cs.take n :=
      List.take_left' hfirst
    rw [hyphenate, unhyphenate?, hdrop, htake]
    simp only [ih m hrest, Option.map_some, List.take_append_drop]

theorem ofGroups?_hyphenate (u : Uuid) :
    ofGroups? (hyphenate groups (Text.hexadecimal 32 u.bits.toNat)) = some u := by
  have hlt : u.bits.toNat < 16 ^ 32 := by
    have := u.bits.isLt
    omega
  have hgroups : unhyphenate? groups (hyphenate groups (Text.hexadecimal 32 u.bits.toNat)) =
      some (Text.hexadecimal 32 u.bits.toNat) :=
    unhyphenate?_hyphenate [4, 4, 4, 12] 8 (by simp)
  rw [ofGroups?, hgroups, Option.bind_some, ofDigits?, if_pos (Text.length_hexadecimal 32 _),
    Text.hexadecimal?_hexadecimal hlt]
  simp

theorem exists_hyphenate_eq_cons (u : Uuid) :
    ∃ d rest, d < 16 ∧
      hyphenate groups (Text.hexadecimal 32 u.bits.toNat) = Text.hexDigit d :: rest := by
  obtain ⟨d, rest, hd, heq⟩ := Text.exists_hexadecimal_eq_cons 31 u.bits.toNat
  exact ⟨d, _, hd, by rw [heq, groups, hyphenate, List.take_succ_cons, List.cons_append]⟩

/-- The written form is longer than a form without hyphens. -/
theorem length_hyphenate_groups (u : Uuid) :
    (hyphenate groups (Text.hexadecimal 32 u.bits.toNat)).length = 36 := by
  simp [groups, hyphenate]

theorem urnScheme_eq : urnScheme = ['u', 'r', 'n', ':', 'u', 'u', 'i', 'd', ':'] := by
  decide +kernel

/-- **An identifier is read back from its text.** -/
@[simp] theorem ofText?_text (u : Uuid) : ofText? u.text = some u := by
  obtain ⟨d, rest, hd, heq⟩ := u.exists_hyphenate_eq_cons
  obtain ⟨-, hbrace, hscheme⟩ := Text.hexDigit_ne hd
  -- the first digit rules out braces and the scheme, the length the form without hyphens
  have hopen : ¬ ((Text.hexDigit d :: rest).head? = some '\x7b' ∧
      (Text.hexDigit d :: rest).getLast? = some '\x7d') := by
    rintro ⟨h, -⟩
    exact hbrace (Option.some.inj h)
  have hurn : ((Text.hexDigit d :: rest).take urnScheme.length).map Char.toLower ≠ urnScheme := by
    rw [urnScheme_eq, List.length_cons, List.take_succ_cons, List.map_cons]
    exact fun h => hscheme (List.cons.inj h).1
  have hdigits : ofDigits? (Text.hexDigit d :: rest) = none := by
    have hlength : (Text.hexDigit d :: rest).length ≠ 32 := by
      rw [← heq, length_hyphenate_groups]
      decide
    rw [ofDigits?, if_neg hlength]
  rw [ofText?, text, String.toList_ofList, heq]
  simp only [if_neg hopen, if_neg hurn]
  rw [hdigits, Option.none_or, ← heq, ofGroups?_hyphenate]

theorem text_injective {a b : Uuid} (h : a.text = b.text) : a = b := by
  have hread : some a = some b := calc
    some a = ofText? a.text := a.ofText?_text.symm
    _ = ofText? b.text := by rw [h]
    _ = some b := b.ofText?_text
  exact Option.some.inj hread

end Uuid

end Fleet
