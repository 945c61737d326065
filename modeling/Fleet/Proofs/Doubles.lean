import Fleet.Json.Number
import Mathlib.Algebra.Group.Nat.Defs

/-!
# Integers that are read as doubles

A bound may be written as an integer, and it is then the double nearest to it. The integers of JSON
have 64 bits at most, far below the greatest double, so the double is neither infinite nor undefined
(`Json.Number.isFinite_toFloat`). This is what makes every patch that was read writable again.

Nothing else is needed of rounding than how far it can move an exponent. `ExponentAtMost k` says of
an unpacked double that it is zero or has an exponent of at most `k`; packing keeps it up to the
greatest exponent of the format (`exponentAtMost_unpack_pack`), and rounding a mantissa of `a` bits
moves the exponent up by twice `a` at most (`exponentAtMost_roundWithAccuracy`), which is crude, and
enough.
-/

namespace Fleet.Doubles

open Float.Model UnpackedFloat

/-! ### Exponents -/

/-- **A zero, or an exponent of at most `k`**; no infinity and no undefined value. -/
def ExponentAtMost (k : Int) : UnpackedFloat → Prop
  | .zero _ => True
  | .finite _ _ e _ => e ≤ k
  | _ => False

variable {k : Int} {f : UnpackedFloat}

theorem ExponentAtMost.isFinite (h : ExponentAtMost k f) : f.isFinite = true := by
  cases f with
  | zero => rfl
  | finite => rfl
  | infinity => exact h.elim
  | notANumber => exact h.elim

theorem ExponentAtMost.neg (h : ExponentAtMost k f) : ExponentAtMost k f.neg := by
  cases f with
  | zero => trivial
  | finite => exact h
  | infinity => exact h.elim
  | notANumber => exact h.elim

theorem exponentBias_binary64 : Format.binary64.exponentBias = 1023 := by decide

theorem targetExponent_binary64 (t : Int) :
    Format.binary64.targetExponent t = max (t - 53) (-1074) := rfl

/-! ### Packing -/

theorem exponentAtMost_unpack_packComponents {s : Sign} {e : BitVec Format.binary64.exponentBits}
    {m : BitVec Format.binary64.mantissaBitsWithoutImplicit} (hbits : e ≠ -1#_)
    (hexp : (e.toNat : Int) - 1075 ≤ k) (hmin : -1074 ≤ k) :
    ExponentAtMost k
      (UnpackedFloat.unpack Format.binary64 (packComponents Format.binary64 s e m)) := by
  have hbias := exponentBias_binary64
  have hexponent : unpackExponent (packComponents Format.binary64 s e m) = e :=
    unpackExponent_packComponents
  have hnot : unpackExponent (packComponents Format.binary64 s e m) ≠ -1#_ := by
    rw [hexponent]
    exact hbits
  unfold UnpackedFloat.unpack
  dsimp only
  rw [if_neg hnot]
  by_cases hzero : unpackExponent (packComponents Format.binary64 s e m) = 0#_
  · rw [if_pos hzero]
    by_cases hmantissa : unpackMantissa (packComponents Format.binary64 s e m) = 0#_
    · rw [dif_pos hmantissa]
      trivial
    -- a subnormal double has the least exponent
    · rw [dif_neg hmantissa]
      show ((unpackExponent (packComponents Format.binary64 s e m)).toNat : Int) -
        (Format.binary64.exponentBias + 52) + 1 ≤ k
      rw [hzero, BitVec.toNat_zero, hbias]
      omega
  · rw [if_neg hzero]
    show ((unpackExponent (packComponents Format.binary64 s e m)).toNat : Int) -
      (Format.binary64.exponentBias + 52) ≤ k
    rw [hexponent, hbias]
    omega

/-- **Packing keeps an exponent** up to the greatest one of the format. -/
theorem exponentAtMost_unpack_pack (hmin : -1074 ≤ k) (hmax : k ≤ 971) (h : ExponentAtMost k f) :
    ExponentAtMost k (UnpackedFloat.unpack Format.binary64 (pack Format.binary64 f)) := by
  have hbias := exponentBias_binary64
  cases f with
  | infinity => exact h.elim
  | notANumber => exact h.elim
  | zero s => exact exponentAtMost_unpack_packComponents (by decide) (by simp; omega) hmin
  | finite s m e hm =>
    have he : e ≤ k := h
    unfold UnpackedFloat.pack
    simp only [hbias]
    rw [if_neg (by omega)]
    split
    -- a normal double: the exponent with its bias fits into eleven bits
    · have hfit : (e + 1023 + 52).toNat < 2 ^ 11 - 1 := by omega
      have hval : (BitVec.ofNat 11 (e + 1023 + 52).toNat).toNat = (e + 1023 + 52).toNat := by
        rw [BitVec.toNat_ofNat, Nat.mod_eq_of_lt (by omega)]
      refine exponentAtMost_unpack_packComponents (fun heq => ?_) ?_ hmin
      · have hall := congrArg BitVec.toNat heq
        change (BitVec.ofNat 11 (e + 1023 + 52).toNat).toNat = 2047 at hall
        omega
      · change ((BitVec.ofNat 11 (e + 1023 + 52).toNat).toNat : Int) - 1075 ≤ k
        omega
    · exact exponentAtMost_unpack_packComponents (by decide) (by simp; omega) hmin

/-! ### Rounding -/

theorem mantissa_shiftRight_le (n : Nat) (em : ExtendedMantissa) :
    (em >>> n).mantissa ≤ em.mantissa := by
  induction n generalizing em with
  | zero => exact Nat.le_refl _
  | succ n ih =>
    change (em >>> n).mantissa / 2 ≤ em.mantissa
    exact Nat.le_trans (Nat.div_le_self _ _) (ih em)

theorem roundedMantissa_le (em : ExtendedMantissa) : em.roundedMantissa ≤ em.mantissa + 1 := by
  obtain ⟨m, round, sticky⟩ := em
  cases round <;> cases sticky <;>
    simp only [ExtendedMantissa.roundedMantissa, ExtendedMantissa.accuracy,
      Accuracy.roundToNearestEven] <;> omega

theorem mantissa_shiftToTargetExponent_le (m : Nat) (e : Int) (acc : Accuracy) :
    (shiftToTargetExponent Format.binary64 m e acc).1.mantissa ≤ m := by
  refine Nat.le_trans (mantissa_shiftRight_le _ _) (Nat.le_of_eq ?_)
  cases acc with
  | exact => rfl
  | inexact o => cases o <;> rfl

theorem exponent_shiftToTargetExponent_le (m : Nat) (e : Int) (acc : Accuracy)
    (h : e + m.log2 ≤ k) (hmin : -1074 ≤ k) :
    (shiftToTargetExponent Format.binary64 m e acc).2 ≤ k := by
  change e + (Format.binary64.targetExponent (totalExponent m e) - e).toNat ≤ k
  rw [targetExponent_binary64, totalExponent]
  omega

/-- **Rounding moves an exponent** up by twice the number of bits of the mantissa at most. -/
theorem exponentAtMost_roundWithAccuracy {s : Sign} {m a : Nat} {e : Int} {acc : Accuracy}
    (hm : m < 2 ^ a) (hk : e + 2 * a ≤ k) (hmin : (a : Int) - 1074 ≤ k) :
    ExponentAtMost k (roundWithAccuracy Format.binary64 s m e acc) := by
  -- `2 ^ a` itself is allowed for, because rounding up may reach it
  have hlog : ∀ n ≤ 2 ^ a, n.log2 ≤ a := fun n hn => by
    by_cases hz : n = 0
    · simp [hz]
    · have hpow : 2 ^ a < 2 ^ (a + 1) := Nat.pow_lt_pow_right (by omega) (by omega)
      exact Nat.le_of_lt_succ ((Nat.log2_lt hz).mpr (by omega))
  unfold roundWithAccuracy
  have hexp := exponent_shiftToTargetExponent_le (k := max (e + a) (-1074)) m e acc
    (by have := hlog m (by omega); omega) (by omega)
  have hround := roundedMantissa_le (shiftToTargetExponent Format.binary64 m e acc).1
  have hle := mantissa_shiftToTargetExponent_le m e acc
  generalize shiftToTargetExponent Format.binary64 m e acc = first at hexp hround hle
  obtain ⟨em, e'⟩ := first
  dsimp only at hexp hround hle
  -- rounding may have filled up the mantissa, which is then shifted once more
  have hexp' := exponent_shiftToTargetExponent_le (k := k) em.roundedMantissa e' .exact
    (by have := hlog em.roundedMantissa (by omega); omega) (by omega)
  dsimp only
  generalize shiftToTargetExponent Format.binary64 em.roundedMantissa e' .exact = second at hexp' ⊢
  by_cases hzero : second.1.mantissa = 0
  · rw [dif_pos hzero]
    trivial
  · rw [dif_neg hzero]
    exact hexp'

/-! ### Integers -/

/-- An integer of up to `a` bits has an exponent of at most 500 as a double, for small `a`. -/
theorem exponentAtMost_round {s : Sign} {m a : Nat} (hm : m < 2 ^ a) (ha : a ≤ 128) :
    ExponentAtMost 500 (UnpackedFloat.round Format.binary64 s m 0) := by
  unfold UnpackedFloat.round decreaseExponent
  simp only [targetExponent_binary64, totalExponent]
  generalize hshift : ((0 : Int) - max (((m.log2 : Int) + 1 + 0) - 53) (-1074)).toNat = shift
  have hle : shift ≤ 52 := by omega
  have hlt : m <<< shift < 2 ^ (a + 52) := calc
    m <<< shift = m * 2 ^ shift := Nat.shiftLeft_eq m shift
    _ < 2 ^ a * 2 ^ 52 := Nat.mul_lt_mul_of_lt_of_le hm (Nat.pow_le_pow_right (by omega) hle)
      (Nat.two_pow_pos _)
    _ = 2 ^ (a + 52) := (Nat.pow_add 2 a 52).symm
  exact exponentAtMost_roundWithAccuracy hlt (by omega) (by omega)

theorem exponentAtMost_ofNat {n : Nat} (h : n < 2 ^ 64) :
    ExponentAtMost 500 (UnpackedFloat.ofNat Format.binary64 n) := by
  unfold UnpackedFloat.ofNat UnpackedFloat.ofInt UnpackedFloat.normalize
  split
  · exact exponentAtMost_round (a := 64) (by simp) (by omega)
  · trivial
  · exact exponentAtMost_round (a := 64) (by simpa using h) (by omega)

/-- The mantissa of an unpacked double has 53 bits. -/
theorem mantissa_unpack {b : BitVec Format.binary64.numBits} {s : Sign} {m : Nat} {e : Int}
    {hm : 0 < m} (h : UnpackedFloat.unpack Format.binary64 b = .finite s m e hm) : m < 2 ^ 53 := by
  unfold UnpackedFloat.unpack at h
  dsimp only at h
  by_cases hall : unpackExponent b = -1#_
  · rw [if_pos hall] at h
    by_cases hmantissa : unpackMantissa b = 0#_
    · rw [if_pos hmantissa] at h
      cases h
    · rw [if_neg hmantissa] at h
      cases h
  rw [if_neg hall] at h
  by_cases hzero : unpackExponent b = 0#_
  · rw [if_pos hzero] at h
    by_cases hmantissa : unpackMantissa b = 0#_
    · rw [dif_pos hmantissa] at h
      cases h
    · rw [dif_neg hmantissa] at h
      cases h
      exact Nat.lt_trans (BitVec.isLt _) (by decide)
  -- a normal double has one more bit, which is not written
  · rw [if_neg hzero] at h
    cases h
    exact BitVec.isLt _

/-- A double times one has the exponent of the double at most 200 higher. -/
theorem exponentAtMost_mul_one {b : BitVec Format.binary64.numBits}
    (h : ExponentAtMost 500 (UnpackedFloat.unpack Format.binary64 b)) :
    ExponentAtMost 971 (UnpackedFloat.mul Format.binary64 (UnpackedFloat.unpack Format.binary64 b)
      (Float.ofBits 0x3FF0000000000000).toModel.unpack) := by
  -- one is `2 ^ 52 * 2 ^ (-52)`
  have hone : (Float.ofBits 0x3FF0000000000000).toModel.unpack =
      .finite .positive 4503599627370496 (-52) (by decide) := by rfl
  rw [hone]
  generalize hf : UnpackedFloat.unpack Format.binary64 b = f at h
  cases f with
  | infinity => exact h.elim
  | notANumber => exact h.elim
  | zero => trivial
  | finite s m e hm =>
    have he : e ≤ 500 := h
    have hlt : m * 4503599627370496 < 2 ^ 106 := by
      have := mantissa_unpack hf
      omega
    exact exponentAtMost_roundWithAccuracy hlt (by omega) (by omega)

/-- **A natural number of 64 bits as a double** is packed from an exponent that is not too great. -/
theorem exists_ofNat_eq_pack {n : Nat} (h : n < 2 ^ 64) :
    ∃ f, Float.ofNat n = .ofModel (.pack f) ∧ ExponentAtMost 971 f := by
  change ∃ f, Float.ofScientific n false 0 = .ofModel (.pack f) ∧ ExponentAtMost 971 f
  unfold Float.ofScientific
  split
  -- a number that a double holds exactly, times one
  · refine ⟨_, rfl, ?_⟩
    have hsize : n.toUInt64.toNat < 2 ^ 64 := UInt64.toNat_lt _
    exact exponentAtMost_mul_one
      (exponentAtMost_unpack_pack (by omega) (by omega) (exponentAtMost_ofNat hsize))
  -- a number that is rounded
  · next hsmall =>
    refine ⟨_, rfl, ?_⟩
    change ExponentAtMost 971 (UnpackedFloat.ofScientific Format.binary64 n 0)
    unfold UnpackedFloat.ofScientific
    have hlog : ¬ (0 : Int) < -(2048 + n.log2) := by omega
    rw [dif_neg (by omega), if_neg (by decide)]
    change ExponentAtMost 971 (if (0 : Int) < -(2048 + n.log2) then _ else _)
    rw [if_neg hlog, if_pos (by omega)]
    have hbits : Format.binary64.mantissaBits = 53 := rfl
    have hlt : n <<< 53 * 10 ^ (0 : Int).toNat < 2 ^ 117 := by
      rw [Int.toNat_zero, Nat.pow_zero, Nat.mul_one, Nat.shiftLeft_eq]
      omega
    dsimp only [UnpackedFloat.mul]
    rw [hbits]
    refine exponentAtMost_roundWithAccuracy (a := 117) ?_ ?_ ?_
    · exact hlt
    · omega
    · omega

end Fleet.Doubles

namespace Fleet.Json.Number

open Doubles

/-- **A number that is read as a double is finite.** -/
theorem isFinite_toFloat (n : Number) : n.toFloat.isFinite = true := by
  cases n with
  | float x finite => exact finite
  | int i fits =>
    unfold Number.toFloat Float.ofInt
    cases i with
    | ofNat n =>
      obtain ⟨f, hf, h⟩ := exists_ofNat_eq_pack (n := n) (by have : (n : Int) < _ := fits.2; omega)
      simp only [hf]
      exact (exponentAtMost_unpack_pack (by omega) (by omega) h).isFinite
    | negSucc n =>
      obtain ⟨f, hf, h⟩ := exists_ofNat_eq_pack (n := n.succ) (by have := fits.1; omega)
      have hpack := exponentAtMost_unpack_pack (by omega) (by omega) h
      simp only [hf]
      exact (exponentAtMost_unpack_pack (by omega) (by omega) hpack.neg).isFinite

end Fleet.Json.Number
