import Fleet.Json.Token
import Fleet.Proofs.Identifiers
import Mathlib.Data.List.TakeWhile

/-!
# Written numbers are read back

A number is written in characters that can occur in a number, the first of which is a digit or a
minus sign (`Number.text_eq_cons`). So its text is lexed as one token, unless such a character
follows.

An integer is always read back from its text, a double if it is one that its written form gives
back (`lexNumber_text`). The two are not confused: the text of a double has a point or an exponent
(`Decimal.Layout.asDouble_text`), and a literal that has neither consists of a sign and digits
(`Literal.plain_of_ofText?`).
-/

namespace Fleet

/-! ### Digits -/

namespace Text

theorem isSome_decimalDigit? (c : Char) : (decimalDigit? c).isSome = c.isDigit := by
  have hiff : ('0' ≤ c ∧ c ≤ '9') ↔ c.isDigit = true := by
    simp [Char.isDigit, Char.le_def, UInt32.le_iff_toNat_le]
  unfold decimalDigit?
  by_cases h : '0' ≤ c ∧ c ≤ '9'
  · rw [if_pos h, hiff.mp h, Option.isSome_some]
  · rw [if_neg h, Option.isSome_none, Bool.eq_false_iff.mpr fun hdigit => h (hiff.mpr hdigit)]

/-- The values of a list in which each item has one. -/
theorem filterMap_of_mapM {α β : Type} {f : α → Option β} {as : List α} {bs : List β}
    (h : as.mapM f = some bs) : as.filterMap f = bs := by
  induction as generalizing bs with
  | nil =>
    cases h
    rfl
  | cons a as ih =>
    rw [List.mapM_cons] at h
    obtain ⟨b, hb, h⟩ := Option.bind_eq_some_iff.mp h
    obtain ⟨bs', hbs, h⟩ := Option.bind_eq_some_iff.mp h
    cases h
    rw [List.filterMap_cons_some hb, ih hbs]

theorem exists_digits_eq_cons (n : Nat) :
    ∃ c rest, Decimal.digits n = c :: rest ∧ c.isDigit = true := by
  obtain ⟨c, rest, heq⟩ := List.exists_cons_of_ne_nil (Nat.toDigits_ne_nil (n := n) (b := 10))
  have heq' : Decimal.digits n = c :: rest := heq
  exact ⟨c, rest, heq', isDigit_of_mem_digits (heq' ▸ List.mem_cons_self)⟩

end Text

/-! ### Literals of integers -/

namespace Json.Literal

open Text

theorem splitDigits_digits {n : Nat} {ds : List Nat}
    (h : (Decimal.digits n).mapM decimalDigit? = some ds) :
    splitDigits (Decimal.digits n) = (ds, []) := by
  have hall : ∀ c ∈ Decimal.digits n, (decimalDigit? c).isSome = true := by
    intro c hc
    rw [isSome_decimalDigit?]
    exact isDigit_of_mem_digits hc
  unfold splitDigits
  rw [List.takeWhile_eq_self_iff.mpr hall, List.dropWhile_eq_nil_iff.mpr hall, filterMap_of_mapM h]

/-- **The literal of an integer** that is written with a sign or without. -/
theorem ofText?_digits (negative : Bool) (n : Nat) : ∃ ds,
    ofText? ((if negative then ['-'] else []) ++ Decimal.digits n) =
      some ⟨negative, ds, [], none⟩ ∧ ofDigits 10 ds = n := by
  obtain ⟨ds, hds, hval, hne, hfirst⟩ := mapM_decimalDigit?_digits n
  have hsplit := splitDigits_digits hds
  -- there are digits, and no zero stands in front of others
  have hleading : ¬ (ds.isEmpty = true ∨ (ds.head? = some 0 ∧ 1 < ds.length)) := by
    rintro (hempty | ⟨hzero, hlong⟩)
    · exact hne (List.isEmpty_iff.mp hempty)
    · have := hfirst hzero
      omega
  refine ⟨ds, ?_, hval⟩
  cases negative with
  | true =>
    show ofText? ('-' :: Decimal.digits n) = _
    unfold ofText?
    simp only [hsplit, if_neg hleading]
    rfl
  | false =>
    show ofText? (Decimal.digits n) = _
    -- the first character is a digit, so it is not taken for a sign
    obtain ⟨c, rest, heq, hc⟩ := exists_digits_eq_cons n
    have hsign : c ≠ '-' := by
      rintro rfl
      exact absurd hc (by decide)
    rw [heq] at hsplit ⊢
    unfold ofText?
    split
    next hmatch =>
    split at hmatch
    · next heq' =>
      cases heq'
      exact absurd rfl hsign
    · cases hmatch
      simp only [hsplit, if_neg hleading]
      rfl

/-! ### Literals of doubles -/

/-- **What a literal is taken from**: a sign or none, digits, a fraction and an exponent. -/
theorem ofText?_eq_some {cs : List Char} {l : Literal} (h : ofText? cs = some l) :
    ∃ sign rest after tail, cs = sign ++ rest ∧ (sign = [] ∨ sign = ['-']) ∧
      splitDigits rest = (l.whole, after) ∧ fraction? after = some (l.fraction, tail) ∧
      exponent? tail = some l.exponent := by
  have hunsigned : ∀ {negative : Bool} {rest : List Char},
      (if (splitDigits rest).1.isEmpty = true ∨
          ((splitDigits rest).1.head? = some 0 ∧ 1 < (splitDigits rest).1.length) then none
        else (fraction? (splitDigits rest).2).bind fun p => (exponent? p.2).bind fun exponent =>
          some (⟨negative, (splitDigits rest).1, p.1, exponent⟩ : Literal)) = some l →
      ∃ after tail, splitDigits rest = (l.whole, after) ∧
        fraction? after = some (l.fraction, tail) ∧ exponent? tail = some l.exponent := by
    intro negative rest hl
    split at hl
    · cases hl
    · obtain ⟨⟨fraction, tail⟩, hpoint, hl⟩ := Option.bind_eq_some_iff.mp hl
      obtain ⟨exponent, hmark, hl⟩ := Option.bind_eq_some_iff.mp hl
      cases hl
      exact ⟨_, tail, rfl, hpoint, hmark⟩
  unfold ofText? at h
  split at h
  next negative rest hsign =>
  obtain ⟨after, tail, hparts⟩ := hunsigned h
  split at hsign
  · cases hsign
    exact ⟨['-'], rest, after, tail, rfl, .inr rfl, hparts⟩
  · cases hsign
    exact ⟨[], cs, after, tail, rfl, .inl rfl, hparts⟩

theorem eq_of_fraction?_nil {cs tail : List Char} (h : fraction? cs = some ([], tail)) :
    cs = tail := by
  unfold fraction? at h
  split at h
  -- after a point there is a digit
  · dsimp only at h
    split at h
    · cases h
    · next hdigits =>
      have hnone := congrArg Prod.fst (Option.some.inj h)
      exact absurd (List.isEmpty_iff.mpr hnone) hdigits
  · cases h
    rfl

theorem eq_nil_of_exponent?_none {cs : List Char} (h : exponent? cs = some none) : cs = [] := by
  unfold exponent? at h
  split at h
  · rfl
  · split at h
    · split at h <;> simp at h
    · cases h

/-- **A literal without a fraction and an exponent** is written with digits and perhaps a sign. -/
theorem plain_of_ofText? {cs : List Char} {l : Literal} (h : ofText? cs = some l)
    (hfraction : l.fraction = []) (hexponent : l.exponent = none) :
    ∀ c ∈ cs, c.isDigit = true ∨ c = '-' := by
  obtain ⟨sign, rest, after, tail, rfl, hsign, hsplit, hpoint, hmark⟩ := ofText?_eq_some h
  rw [hexponent] at hmark
  rw [hfraction] at hpoint
  obtain rfl := eq_nil_of_exponent?_none hmark
  obtain rfl := eq_of_fraction?_nil hpoint
  obtain ⟨-, hrest⟩ := Prod.mk.inj hsplit
  have hdigits := List.dropWhile_eq_nil_iff.mp hrest
  intro c hc
  rcases List.mem_append.mp hc with hc | hc
  · rcases hsign with rfl | rfl
    · cases hc
    · exact .inr (List.mem_singleton.mp hc)
  · rw [← isSome_decimalDigit?]
    exact .inl (hdigits c hc)

end Json.Literal

/-! ### The layout of a double -/

namespace Decimal

/-- **What a double looks like**: it starts with a digit, consists of characters of numbers, and has
a point or an exponent. -/
structure AsDouble (cs : List Char) : Prop where
  first : ∃ c rest, cs = c :: rest ∧ c.isDigit = true
  numeric : ∀ c ∈ cs, Json.isNumeric c = true
  marked : '.' ∈ cs ∨ 'e' ∈ cs

theorem isNumeric_of_isDigit {c : Char} (h : c.isDigit = true) : Json.isNumeric c = true := by
  simp [Json.isNumeric, h]

theorem isNumeric_of_mem_digits {c : Char} {n : Nat} (h : c ∈ digits n) :
    Json.isNumeric c = true := isNumeric_of_isDigit (Text.isDigit_of_mem_digits h)

theorem asDouble_positional (n : Nat) (places : Int) : AsDouble (positional (digits n) places) := by
  obtain ⟨first, rest, hdigits, hfirst⟩ := Text.exists_digits_eq_cons n
  have hzeros : ∀ {k : Nat} {c : Char}, c ∈ List.replicate k '0' → Json.isNumeric c = true := by
    intro k c hc
    rw [List.eq_of_mem_replicate hc]
    decide
  unfold positional
  split
  -- the point stands before the digits, behind all of them, or among them
  · refine ⟨⟨'0', _, rfl, by decide⟩, fun c hc => ?_, .inl (by simp)⟩
    simp only [List.mem_cons, List.mem_append] at hc
    rcases hc with rfl | rfl | hc | hc
    · decide
    · decide
    · exact hzeros hc
    · exact isNumeric_of_mem_digits hc
  · dsimp only
    split
    · refine ⟨⟨first, _, by rw [hdigits]; rfl, hfirst⟩, fun c hc => ?_, .inl (by simp)⟩
      simp only [List.mem_append, List.mem_cons, List.not_mem_nil, or_false] at hc
      rcases hc with (hc | hc) | rfl | rfl
      · exact isNumeric_of_mem_digits hc
      · exact hzeros hc
      · decide
      · decide
    · refine ⟨⟨first, _, by rw [hdigits]; rfl, hfirst⟩, fun c hc => ?_, .inl (by simp)⟩
      simp only [List.mem_append, List.mem_cons] at hc
      rcases hc with hc | rfl | hc
      · exact isNumeric_of_mem_digits (List.mem_of_mem_take hc)
      · decide
      · exact isNumeric_of_mem_digits (List.mem_of_mem_drop hc)

theorem asDouble_scientific (n : Nat) (exponent : Int) :
    AsDouble (scientific (digits n) exponent) := by
  obtain ⟨first, rest, hdigits, hfirst⟩ := Text.exists_digits_eq_cons n
  have hrest : ∀ c ∈ rest, Json.isNumeric c = true := fun c hc =>
    isNumeric_of_mem_digits (n := n) (by rw [hdigits]; exact List.mem_cons_of_mem _ hc)
  -- the exponent with its mark and sign
  have hexponent : ∀ c ∈ 'e' :: (if exponent < 0 then '-' else '+') :: digits exponent.natAbs,
      Json.isNumeric c = true := by
    intro c hc
    simp only [List.mem_cons] at hc
    rcases hc with rfl | hc | hc
    · decide
    · rw [hc]
      split <;> decide
    · exact isNumeric_of_mem_digits hc
  unfold scientific
  rw [hdigits]
  cases rest with
  | nil =>
    refine ⟨⟨first, _, rfl, hfirst⟩, fun c hc => ?_, .inr (by simp)⟩
    rcases List.mem_append.mp hc with hc | hc
    · rw [List.mem_singleton.mp hc]
      exact isNumeric_of_isDigit hfirst
    · exact hexponent c hc
  | cons second rest =>
    refine ⟨⟨first, _, rfl, hfirst⟩, fun c hc => ?_, .inr (by simp)⟩
    rcases List.mem_append.mp hc with hc | hc
    · rcases List.mem_cons.mp hc with rfl | hc
      · exact isNumeric_of_isDigit hfirst
      · rcases List.mem_cons.mp hc with rfl | hc
        · decide
        · exact hrest c hc
    · exact hexponent c hc

/-- **The text of a double** is a sign or none and something that looks like a double. -/
theorem Layout.asDouble_text (l : Layout) (x : Float) : ∃ sign body,
    l.text x = sign ++ body ∧ (sign = [] ∨ sign = ['-']) ∧ AsDouble body := by
  refine ⟨_, _, rfl, ?_, ?_⟩
  · split
    · exact .inr rfl
    · exact .inl rfl
  · split
    · exact ⟨⟨'0', _, rfl, by decide⟩, List.all_eq_true.mp (by decide), .inl (by decide)⟩
    · unfold Layout.write
      dsimp only
      split
      · exact asDouble_positional _ _
      · exact asDouble_scientific _ _

end Decimal

/-! ### Numbers -/

namespace Json

/-- **The first character of a written number** is a digit or a minus sign, and all the others can
occur in a number too. -/
theorem Number.text_eq_cons (n : Number) : ∃ c rest, n.text = c :: rest ∧
    (c.isDigit = true ∨ c = '-') ∧ ∀ d ∈ rest, isNumeric d = true := by
  -- a body that starts with a digit, after a sign or none
  have hsigned : ∀ {sign body : List Char}, (sign = [] ∨ sign = ['-']) →
      (∃ c rest, body = c :: rest ∧ c.isDigit = true) → (∀ c ∈ body, isNumeric c = true) →
      ∃ c rest, sign ++ body = c :: rest ∧ (c.isDigit = true ∨ c = '-') ∧
        ∀ d ∈ rest, isNumeric d = true := by
    rintro sign body (rfl | rfl) ⟨c, rest, rfl, hc⟩ hnumeric
    · exact ⟨c, rest, rfl, .inl hc, fun d hd => hnumeric d (List.mem_cons_of_mem _ hd)⟩
    · exact ⟨'-', c :: rest, rfl, .inr rfl, hnumeric⟩
  cases n with
  | int n fits =>
    refine hsigned ?_ (Text.exists_digits_eq_cons n.natAbs) fun c hc =>
      Decimal.isNumeric_of_mem_digits hc
    split
    · exact .inr rfl
    · exact .inl rfl
  | float x finite =>
    obtain ⟨sign, body, htext, hsign, hbody⟩ := floatLayout.asDouble_text x
    show ∃ c rest, floatLayout.text x = c :: rest ∧ _
    rw [htext]
    exact hsigned hsign hbody.first hbody.numeric

/-- The number as a double, if it is one. -/
def Number.doubles : Number → List Float
  | .int _ _ => []
  | .float x _ => [x]

theorem Literal.number?_int {negative : Bool} {ds : List Nat} {n : Int} (fits : Fits n)
    (hsign : negative = decide (n < 0)) (hds : Text.ofDigits 10 ds = n.natAbs) :
    (⟨negative, ds, [], none⟩ : Literal).number? = some (.int n fits) := by
  have hint : (⟨negative, ds, [], none⟩ : Literal).int? = some n := by
    have hplain : (([] : List Nat).isEmpty && (none : Option Int).isNone) = true := rfl
    unfold Literal.int?
    dsimp only
    rw [hds, if_pos hplain]
    by_cases hn : n < 0
    · have habs : -((n.natAbs : Nat) : Int) = n := by omega
      have hzero : ((n.natAbs : Nat) : Int) ≠ 0 := by omega
      rw [hsign, decide_eq_true hn, if_pos rfl, habs, if_pos ⟨hzero, fits⟩]
    · have habs : ((n.natAbs : Nat) : Int) = n := by omega
      rw [hsign, decide_eq_false hn, if_neg Bool.false_ne_true, habs, if_pos fits]
  unfold Literal.number?
  rw [hint]
  exact dif_pos fits

/-- **A written number is lexed as the number**, if it is no double or one that reads back. -/
theorem lexNumber_text {n : Number} (h : ∀ x ∈ n.doubles, Number.ReadsBack x) :
    lexNumber n.text = .scalar (.number n) := by
  unfold lexNumber
  cases n with
  | int n fits =>
    obtain ⟨ds, hliteral, hds⟩ := Literal.ofText?_digits (decide (n < 0)) n.natAbs
    have htext : (Number.int n fits).text =
        (if decide (n < 0) then ['-'] else []) ++ Decimal.digits n.natAbs := by
      simp [Number.text]
    rw [htext, hliteral]
    simp only [Literal.number?_int fits rfl hds]
  | float x finite =>
    obtain ⟨l, hliteral, hfloat⟩ := Option.bind_eq_some_iff.mp (h x List.mem_cons_self)
    obtain ⟨sign, body, htext, -, hbody⟩ := floatLayout.asDouble_text x
    -- its text has a point or an exponent, so it is not taken for an integer
    have hint : l.int? = none := by
      unfold Literal.int?
      refine if_neg fun hplain => ?_
      obtain ⟨hfraction, hexponent⟩ := Bool.and_eq_true_iff.mp hplain
      have hall := Literal.plain_of_ofText? hliteral (List.isEmpty_iff.mp hfraction)
        (Option.isNone_iff_eq_none.mp hexponent)
      rw [htext] at hall
      rcases hbody.marked with hmark | hmark
      · exact absurd (hall _ (List.mem_append_right _ hmark)) (by decide)
      · exact absurd (hall _ (List.mem_append_right _ hmark)) (by decide)
    have hnumber : l.number? = some (.float x finite) := by
      unfold Literal.number?
      rw [hint, hfloat]
      exact dif_pos finite
    have hshown : (Number.float x finite).text = floatLayout.text x := rfl
    rw [hshown, hliteral]
    simp only [hnumber]

end Json
end Fleet
