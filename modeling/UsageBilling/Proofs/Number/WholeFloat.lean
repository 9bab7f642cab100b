import Mathlib
import UsageBilling.Json.Basic
import UsageBilling.Settings.Value

/-!
# Whole numbers that are read as floating-point numbers

An integer literal that does not fit 64 bits with a sign is read as a floating-point number.  What
is left of it when a whole number is asked for: zero of a negative one, and of another its first 53
bits, or the largest number of 64 bits.

* `exists_roundWithAccuracy_eq` : a number is rounded to 53 bits, half to even.
* `unpack_pack_finite`, `fields_of_unpack` : how such a number is stored, and what its bits say.
* `exists_isNormal_toFloat`, `IsNormal.mul`, `reachesTen_powerOfTen` : whole numbers, products and
  powers of ten as positive numbers of 53 bits.
* `unsignedOfFloat_of_toFloat?` : **the whole number that is read of an integer literal** of at
  least 64 bits.
-/

namespace UsageBilling.FloatText

open Float.Model Float.Model.UnpackedFloat

/-! ### Shifting and rounding -/

/-- A shift keeps the bit behind the point, and whether any other that it drops is set. -/
theorem shiftRight_succ (m k : Nat) : (ExtendedMantissa.mk m false false) >>> (k + 1) =
    ⟨m / 2 ^ (k + 1), m / 2 ^ k % 2 != 0, m % 2 ^ k != 0⟩ := by
  induction k with
  | zero => simp [HShiftRight.hShiftRight, Nat.repeat, ExtendedMantissa.shiftRightOne, Nat.mod_one]
  | succ k ih =>
    have hstep : (ExtendedMantissa.mk m false false) >>> (k + 1 + 1) =
        ((ExtendedMantissa.mk m false false) >>> (k + 1)).shiftRightOne := rfl
    have hpos : 2 ^ k ≠ 0 := (Nat.two_pow_pos k).ne'
    rw [hstep, ih, ExtendedMantissa.shiftRightOne]
    simp only [ExtendedMantissa.mk.injEq, Nat.div_div_eq_div_mul, ← Nat.pow_succ, true_and]
    rw [Nat.mod_pow_succ]
    rcases Nat.mod_two_eq_zero_or_one (m / 2 ^ k) with h | h <;> simp [h]

theorem roundedMantissa_mk (q : Nat) (half other : Bool) :
    (ExtendedMantissa.mk q half other).roundedMantissa =
      if half && (other || q % 2 = 1) then q + 1 else q := by
  have hodd := Nat.mod_two_eq_zero_or_one q
  cases half <;> cases other <;> simp [ExtendedMantissa.roundedMantissa, ExtendedMantissa.accuracy,
    Accuracy.roundToNearestEven]
  rcases hodd with h | h <;> simp [h]

/-- **A mantissa that is shifted is rounded half to even.** -/
theorem roundedMantissa_shiftRight (m k : Nat) :
    ((ExtendedMantissa.mk m false false) >>> k).roundedMantissa = roundHalfEven m (2 ^ k) := by
  cases k with
  | zero =>
    have hshift : (ExtendedMantissa.mk m false false) >>> 0 = ⟨m, false, false⟩ := rfl
    rw [hshift, roundedMantissa_mk]
    simp [roundHalfEven, Nat.mod_one]
  | succ k =>
    have hlt := Nat.mod_lt m (Nat.two_pow_pos k)
    rw [shiftRight_succ, roundedMantissa_mk, roundHalfEven, Nat.mod_pow_succ, Nat.pow_succ]
    refine if_congr ?_ rfl rfl
    rcases Nat.mod_two_eq_zero_or_one (m / 2 ^ k) with h | h <;> simp [h] <;> omega

/-! ### Rounding to 53 bits -/

theorem roundHalfEven_bounds {m k : Nat} (hm : m ≠ 0) (hlog : m.log2 = 52 + k) :
    2 ^ 52 ≤ roundHalfEven m (2 ^ k) ∧ roundHalfEven m (2 ^ k) ≤ 2 ^ 53 := by
  obtain ⟨hlower, hupper⟩ := (Nat.log2_eq_iff hm).1 hlog
  have hpos : 0 < 2 ^ k := Nat.two_pow_pos k
  have hle : 2 ^ 52 ≤ m / 2 ^ k := by
    rw [Nat.le_div_iff_mul_le hpos, ← Nat.pow_add]
    exact hlower
  have hlt : m / 2 ^ k < 2 ^ 53 := by
    rw [Nat.div_lt_iff_lt_mul hpos, ← Nat.pow_add]
    exact Nat.lt_of_lt_of_eq hupper (congrArg _ (by omega))
  rw [roundHalfEven]
  split <;> omega

theorem targetExponent_eq {m k : Nat} {e : Int} (hlog : m.log2 = 52 + k) (he : -1074 ≤ e + k) :
    Format.binary64.targetExponent (totalExponent m e) = e + k := by
  simp only [Format.targetExponent, totalExponent, Format.mantissaBits, Format.minExponent, hlog]
  norm_num
  omega

theorem shiftToTargetExponent_eq {m k : Nat} {e : Int} (hlog : m.log2 = 52 + k)
    (he : -1074 ≤ e + k) : shiftToTargetExponent Format.binary64 m e .exact =
      (ExtendedMantissa.mk m false false >>> k, e + k) := by
  have hshift : (e + k - e).toNat = k := by omega
  unfold shiftToTargetExponent
  simp only [targetExponent_eq hlog he, shiftToExponent, hshift]
  rfl

theorem roundWithAccuracy_of_shifts {sign : Sign} {m : Nat} {e e₁ e₂ : Int}
    {first second : ExtendedMantissa}
    (hfirst : shiftToTargetExponent Format.binary64 m e .exact = (first, e₁))
    (hsecond : shiftToTargetExponent Format.binary64 first.roundedMantissa e₁ .exact = (second, e₂))
    (hpos : 0 < second.mantissa) : roundWithAccuracy Format.binary64 sign m e .exact =
      .finite sign second.mantissa e₂ hpos := by
  unfold roundWithAccuracy
  simp only [hfirst, hsecond]
  exact dif_neg hpos.ne'

/-- **A number is rounded to 53 bits**, half to even; a carry out of them goes into the exponent. -/
theorem exists_roundWithAccuracy_eq (sign : Sign) {m k : Nat} {e : Int} (hm : m ≠ 0)
    (hlog : m.log2 = 52 + k) (he : -1074 ≤ e + k) :
    ∃ (m' carry : Nat) (hpos : 0 < m'), roundWithAccuracy Format.binary64 sign m e .exact =
        .finite sign m' (e + k + carry) hpos ∧
      m'.log2 = 52 ∧ carry ≤ 1 ∧ m' * 2 ^ carry = roundHalfEven m (2 ^ k) := by
  obtain ⟨hlower, hupper⟩ := roundHalfEven_bounds hm hlog
  have hfirst := shiftToTargetExponent_eq hlog he
  rcases Nat.lt_or_eq_of_le hupper with hlt | heq
  · have hlog' : (roundHalfEven m (2 ^ k)).log2 = 52 + 0 :=
      (Nat.log2_eq_iff (by omega)).2 ⟨hlower, hlt⟩
    have hsecond := @shiftToTargetExponent_eq _ 0 (e + k) hlog' (by omega)
    rw [← roundedMantissa_shiftRight] at hsecond hlog' hlower ⊢
    exact ⟨_, 0, Nat.lt_of_lt_of_le (by decide) hlower,
      roundWithAccuracy_of_shifts hfirst hsecond _, hlog', by decide, Nat.mul_one _⟩
  · have hlog' : (2 ^ 53).log2 = 52 + 1 := Nat.log2_two_pow
    have hsecond := @shiftToTargetExponent_eq _ 1 (e + k) hlog' (by omega)
    rw [shiftRight_succ, ← heq, ← roundedMantissa_shiftRight] at hsecond
    refine ⟨_, 1, ?_, roundWithAccuracy_of_shifts hfirst hsecond ?_, ?_, by decide, ?_⟩
    all_goals
      rw [roundedMantissa_shiftRight, heq]
      decide

/-! ### Stored numbers -/

theorem toNat_append_mantissa (mantissa : BitVec 52) :
    (1#1 ++ mantissa).toNat = 2 ^ 52 + mantissa.toNat := by
  rw [BitVec.toNat_append, ← Nat.shiftLeft_add_eq_or_of_lt mantissa.isLt]
  rfl

theorem unpack_packedInfinity (sign : Sign) :
    UnpackedFloat.unpack Format.binary64 (packedInfinity Format.binary64 sign) = .infinity sign := by
  cases sign <;> rfl

/-- The parts of a number between the smallest and the largest exponent. -/
theorem unpack_packComponents (sign : Sign) {exponent : Nat} {m : Nat} (hpos : 0 < m)
    (hlog : m.log2 = 52) (h : 0 < exponent) (h' : exponent < 2047) :
    UnpackedFloat.unpack Format.binary64 (packComponents Format.binary64 sign
      (BitVec.ofNat 11 exponent) (BitVec.ofNat 52 m)) = .finite sign m (exponent - 1075) hpos := by
  obtain ⟨hlower, hupper⟩ := (Nat.log2_eq_iff hpos.ne').1 hlog
  have hexponent : (BitVec.ofNat 11 exponent).toNat = exponent := by
    rw [BitVec.toNat_ofNat, Nat.mod_eq_of_lt (by omega)]
  have hmantissa : (1#1 ++ BitVec.ofNat 52 m).toNat = m := by
    rw [toNat_append_mantissa, BitVec.toNat_ofNat]
    omega
  have hlast : BitVec.ofNat 11 exponent ≠ -1#11 := fun heq => by
    have := hexponent.symm.trans (congrArg BitVec.toNat heq)
    rw [show (-1#11).toNat = 2047 from rfl] at this
    omega
  have hfirst : BitVec.ofNat 11 exponent ≠ 0#11 := fun heq => by
    have := hexponent.symm.trans (congrArg BitVec.toNat heq)
    rw [show (0#11).toNat = 0 from rfl] at this
    omega
  unfold UnpackedFloat.unpack
  simp only [unpackExponent_packComponents, unpackMantissa_packComponents,
    unpackSign_packComponents, Sign.ofBitVec_toBitVec, hlast, hfirst, if_false, hmantissa, hexponent]
  rfl

/-- **A number of 53 bits is stored as it is**, or as infinite if its exponent is too large. -/
theorem unpack_pack_finite (sign : Sign) {m : Nat} {e : Int} (hpos : 0 < m) (hlog : m.log2 = 52)
    (he : -1074 ≤ e) : (Float.Model.pack (.finite sign m e hpos)).unpack =
      if e ≤ 971 then .finite sign m e hpos else .infinity sign := by
  have hbias : e + (2 ^ (11 - 1) - 1 : Nat) + (52 : Nat) = e + 1075 := by omega
  unfold Float.Model.pack Float.Model.unpack
  simp only [UnpackedFloat.pack, Format.exponentBias, Format.mantissaBits, hlog, hbias]
  by_cases h : e ≤ 971
  · have hunpack := @unpack_packComponents sign (e + 1075).toNat m hpos hlog (by omega) (by omega)
    have hexponent : ((e + 1075).toNat : Int) - 1075 = e := by omega
    rw [hexponent] at hunpack
    rw [if_neg (by omega), if_pos trivial, if_pos h]
    exact hunpack
  · rw [if_pos (by omega), if_neg h]
    exact unpack_packedInfinity sign

theorem toNat_unpackMantissa (b : BitVec 64) :
    (@unpackMantissa Format.binary64 b).toNat = b.toNat % 2 ^ 52 := by
  simp [unpackMantissa]

theorem toNat_unpackExponent (b : BitVec 64) :
    (@unpackExponent Format.binary64 b).toNat = b.toNat / 2 ^ 52 % 2 ^ 11 := by
  simp [unpackExponent, Nat.shiftRight_eq_div_pow]

theorem toNat_unpackSign (b : BitVec 64) :
    (@unpackSign Format.binary64 b).toNat = b.toNat / 2 ^ 63 := by
  have := b.isLt
  simp [unpackSign, Nat.shiftRight_eq_div_pow]
  omega

theorem sign_eq_negative_iff (b : BitVec 1) : Sign.ofBitVec b = .negative ↔ b.toNat = 1 := by
  have hlt := b.isLt
  unfold Sign.ofBitVec
  split
  · next hzero => simp [hzero]
  · next hnonzero =>
    have hne : b.toNat ≠ 0 := fun hzero => hnonzero (BitVec.eq_of_toNat_eq hzero)
    exact ⟨fun _ => by omega, fun _ => rfl⟩

/-- **The fields of a number** are those of its bits. -/
theorem fields_of_unpack {x : Float} {sign : Sign} {m : Nat} {e : Int} {hpos : 0 < m}
    (h : x.toModel.unpack = .finite sign m e hpos) :
    (isNegative x = true ↔ sign = .negative) ∧ mantissa x = m ∧ exponent x = e := by
  have hlt := x.toModel.toBits.toBitVec.isLt
  have hmantissa := toNat_unpackMantissa x.toModel.toBits.toBitVec
  have hexponent := toNat_unpackExponent x.toModel.toBits.toBitVec
  have hsign := toNat_unpackSign x.toModel.toBits.toBitVec
  have hbits : x.toBits.toNat = x.toModel.toBits.toBitVec.toNat := rfl
  have hpowers : twoPow 63 = 2 ^ 63 ∧ twoPow 52 = 2 ^ 52 ∧ twoPow 11 = 2 ^ 11 := ⟨rfl, rfl, rfl⟩
  unfold isNegative mantissa exponent exponentField fractionField
  simp only [hbits, hpowers]
  unfold Float.Model.unpack UnpackedFloat.unpack at h
  simp only at h
  split at h
  · split at h <;> cases h
  split at h
  · next hzero =>
    rw [hzero, BitVec.toNat_zero] at hexponent
    split at h
    · cases h
    · injection h with hs hm he
      rw [← hexponent, ← hmantissa, if_pos rfl, if_pos rfl]
      refine ⟨?_, hm, ?_⟩
      · rw [← hs, sign_eq_negative_iff, hsign, decide_eq_true_eq]
        omega
      · rw [← he, hzero]
        rfl
  · next hnonzero =>
    have hne : x.toModel.toBits.toBitVec.toNat / 2 ^ 52 % 2 ^ 11 ≠ 0 := fun hzero =>
      hnonzero (BitVec.eq_of_toNat_eq (hexponent.trans hzero))
    injection h with hs hm he
    rw [← hmantissa, if_neg hne, if_neg hne]
    refine ⟨?_, ?_, ?_⟩
    · rw [← hs, sign_eq_negative_iff, hsign, decide_eq_true_eq]
      omega
    · rw [← hm, toNat_append_mantissa]
    · rw [← he, ← hexponent]
      rfl

/-! ### Positive numbers of 53 bits -/

/-- The positive number `m * 2 ^ e` of 53 bits. -/
structure IsNormal (x : Float) (m : Nat) (e : Int) : Prop where
  log2_eq : m.log2 = 52
  le_exponent : -1074 ≤ e
  exponent_le : e ≤ 971
  unpack_eq : ∃ hpos, x.toModel.unpack = .finite .positive m e hpos

variable {x y : Float} {m n : Nat} {e : Int}

theorem IsNormal.pos (h : IsNormal x m e) : 0 < m := h.unpack_eq.1

theorem IsNormal.bounds (h : IsNormal x m e) : 2 ^ 52 ≤ m ∧ m < 2 ^ 53 :=
  (Nat.log2_eq_iff h.pos.ne').1 h.log2_eq

theorem isNormal_of_pack (hpos : 0 < m) (hlog : m.log2 = 52) (he : -1074 ≤ e) (hle : e ≤ 971)
    (hx : x.toModel = .pack (.finite .positive m e hpos)) : IsNormal x m e := by
  refine ⟨hlog, he, hle, hpos, ?_⟩
  rw [hx, unpack_pack_finite .positive hpos hlog he, if_pos hle]

theorem isInf_of_pack (hpos : 0 < m) (hlog : m.log2 = 52) (he : 971 < e)
    (hx : x.toModel = .pack (.finite .positive m e hpos)) : x.isInf = true := by
  have hunpack := unpack_pack_finite .positive hpos hlog (by omega : -1074 ≤ e)
  rw [Float.isInf, Float.Model.isInf, hx, hunpack, if_neg (by omega)]
  rfl

/-- **A whole number of 53 to 64 bits as a floating-point number**: its digits behind the first 53
bits are rounded off. -/
theorem exists_isNormal_toFloat {k : Nat} (hlog : n.log2 = 52 + k) (hn : n < 2 ^ 64) :
    ∃ m carry, IsNormal (UInt64.ofNat n).toFloat m (k + carry : Nat) ∧
      m * 2 ^ carry = roundHalfEven n (2 ^ k) := by
  have hne : n ≠ 0 := by
    rintro rfl
    rw [Nat.log2_zero] at hlog
    omega
  have hk : n.log2 < 64 := (Nat.log2_lt hne).2 hn
  obtain ⟨m, carry, hpos, hround, hlog', hcarry, hvalue⟩ :=
    @exists_roundWithAccuracy_eq .positive n k 0 hne hlog (by omega)
  have htarget := @targetExponent_eq n k 0 hlog (by omega)
  have hmodel : (UInt64.ofNat n).toFloat.toModel =
      .pack (.finite .positive m (0 + k + carry) hpos) := by
    have hnat : (UInt64.ofNat n).toNat = n := UInt64.toNat_ofNat_of_lt' hn
    have hcompare : compare (n : Int) 0 = .gt := Int.compare_eq_gt.2 (by omega)
    rw [← hround]
    show Float.Model.pack (UnpackedFloat.normalize Format.binary64 ((UInt64.ofNat n).toNat : Int) 0 .positive) = _
    rw [hnat, UnpackedFloat.normalize, hcompare]
    have hshift : ((0 : Int) - (0 + k)).toNat = 0 := by omega
    simp only [Int.toNat_natCast, UnpackedFloat.round, htarget, decreaseExponent, hshift]
    rfl
  have hexponent : (0 : Int) + k + carry = (k + carry : Nat) := by omega
  rw [hexponent] at hmodel
  exact ⟨m, carry, isNormal_of_pack hpos hlog' (by omega) (by omega) hmodel, hvalue⟩

/-! ### Products -/

/-- **The product of two positive numbers** is rounded to 53 bits, or infinite. -/
theorem IsNormal.mul {m' : Nat} {e' : Int} (hx : IsNormal x m e) (hy : IsNormal y m' e')
    (he : -1126 ≤ e + e') : ∃ k m'' carry : Nat, (m * m').log2 = 52 + k ∧
      m'' * 2 ^ carry = roundHalfEven (m * m') (2 ^ k) ∧
        (IsNormal (x * y) m'' (e + e' + k + carry) ∨ (x * y).isInf = true) := by
  obtain ⟨hpos, hx'⟩ := hx.unpack_eq
  obtain ⟨hpos', hy'⟩ := hy.unpack_eq
  have hne : m * m' ≠ 0 := (Nat.mul_pos hpos hpos').ne'
  have hlower : 52 + 52 ≤ (m * m').log2 := by
    rw [Nat.le_log2 hne, Nat.pow_add]
    exact Nat.mul_le_mul hx.bounds.1 hy.bounds.1
  obtain ⟨k, hk⟩ := Nat.exists_eq_add_of_le (Nat.le_trans (by decide : 52 ≤ 52 + 52) hlower)
  obtain ⟨m'', carry, hpos'', hround, hlog, -, hvalue⟩ :=
    @exists_roundWithAccuracy_eq .positive (m * m') k (e + e') hne hk (by omega)
  have hmodel : (x * y).toModel = .pack (.finite .positive m'' (e + e' + k + carry) hpos'') := by
    show Float.Model.pack (UnpackedFloat.mul Format.binary64 x.toModel.unpack y.toModel.unpack) = _
    rw [hx', hy', ← hround]
    rfl
  refine ⟨k, m'', carry, hk, hvalue, ?_⟩
  by_cases hle : e + e' + k + carry ≤ 971
  · exact .inl (isNormal_of_pack hpos'' hlog (by omega) hle hmodel)
  · exact .inr (isInf_of_pack hpos'' hlog (by omega) hmodel)

/-- Nothing positive times an infinite number is finite. -/
theorem IsNormal.mul_infinity (hx : IsNormal x m e) (hy : y.toModel.unpack = .infinity .positive) :
    (x * y).isInf = true := by
  obtain ⟨hpos, hx'⟩ := hx.unpack_eq
  have hmodel : (x * y).toModel = .pack (.infinity .positive) := by
    show Float.Model.pack (UnpackedFloat.mul Format.binary64 x.toModel.unpack y.toModel.unpack) = _
    rw [hx', hy]
    rfl
  rw [Float.isInf, Float.Model.isInf, hmodel]
  exact congrArg UnpackedFloat.isInf (unpack_packedInfinity .positive)

theorem isNormal_one : IsNormal (JsonNumber.powerOfTen 0) (2 ^ 52) (-52) :=
  ⟨Nat.log2_two_pow, by decide, by decide, by decide, rfl⟩

/-- The number is at least ten, and its exponent is no smaller than that of one. -/
def ReachesTen : UnpackedFloat → Prop
  | .finite .positive m e _ =>
    m.log2 = 52 ∧ -52 ≤ e ∧ e ≤ 971 ∧ 10 * 2 ^ (-e).toNat ≤ m * 2 ^ e.toNat
  | .infinity .positive => True
  | _ => False

instance : (u : UnpackedFloat) → Decidable (ReachesTen u)
  | .finite .positive _ _ _ => inferInstanceAs (Decidable (_ ∧ _))
  | .infinity .positive => .isTrue trivial
  | .finite .negative _ _ _ | .infinity .negative | .zero _ | .notANumber => .isFalse id

theorem ReachesTen.isNormal (h : ReachesTen y.toModel.unpack) :
    y.toModel.unpack = .infinity .positive ∨
      ∃ m e, IsNormal y m e ∧ -52 ≤ e ∧ 10 * 2 ^ (-e).toNat ≤ m * 2 ^ e.toNat := by
  match hunpack : y.toModel.unpack with
  | .infinity .positive => exact .inl rfl
  | .finite .positive m e hpos =>
    rw [hunpack] at h
    obtain ⟨hlog, hge, hle, hbound⟩ := h
    exact .inr ⟨m, e, ⟨hlog, by omega, hle, hpos, hunpack⟩, hge, hbound⟩
  | .finite .negative _ _ _ | .infinity .negative | .zero _ | .notANumber =>
    rw [hunpack] at h
    exact h.elim

theorem reachesTen_small : ∀ p : Fin 22, ReachesTen (JsonNumber.powerOfTen (p + 1)).toModel.unpack := by
  decide +kernel

/-- **The powers of ten** up to `10 ^ 308` reach ten. -/
theorem reachesTen_powerOfTen {p : Nat} (hp : 0 < p) (hle : p ≤ 308) :
    ReachesTen (JsonNumber.powerOfTen p).toModel.unpack := by
  by_cases hsmall : p ≤ 22
  · have := reachesTen_small ⟨p - 1, by omega⟩
    rwa [Fin.val_mk, Nat.sub_add_cancel hp] at this
  have hmodel : (JsonNumber.powerOfTen p).toModel =
      .pack (UnpackedFloat.ofScientific Format.binary64 1 p) := by
    rw [JsonNumber.powerOfTen, Float.ofScientific, dif_neg (by omega)]
    rfl
  have hten : 2 ^ 76 ≤ 10 ^ p :=
    Nat.le_trans (by decide : 2 ^ 76 ≤ 10 ^ 23) (Nat.pow_le_pow_right (by decide) (by omega))
  have hne : 2 ^ 53 * 10 ^ p ≠ 0 := by omega
  have hlower : 129 ≤ (2 ^ 53 * 10 ^ p).log2 := by
    rw [Nat.le_log2 hne]
    omega
  obtain ⟨k, hk⟩ := Nat.exists_eq_add_of_le (Nat.le_trans (by decide : 52 ≤ 129) hlower)
  obtain ⟨m, carry, hpos, hround, hlog, hcarry, hvalue⟩ :=
    @exists_roundWithAccuracy_eq .positive _ k (-53) hne hk (by omega)
  have hscientific : UnpackedFloat.ofScientific Format.binary64 1 p =
      .finite .positive m (-53 + k + carry) hpos := by
    rw [UnpackedFloat.ofScientific, dif_neg (by decide), if_neg, if_neg, if_pos (by omega), ← hround]
    · rfl
    · have hlog2 : Nat.log2 1 = 0 := by decide
      simp only [hlog2]
      omega
    · simp only [gt_iff_lt, not_lt]
      omega
  rw [hmodel, hscientific, unpack_pack_finite .positive hpos hlog (by omega)]
  split
  · next hle =>
    have hm := ((Nat.log2_eq_iff hpos.ne').1 hlog).1
    have hexponent : (-(-53 + k + carry : Int)).toNat = 0 := by omega
    refine ⟨hlog, by omega, hle, ?_⟩
    rw [hexponent]
    exact Nat.le_trans (by omega) (Nat.le_mul_of_pos_right m (Nat.two_pow_pos _))
  · trivial

/-! ### Reading them as whole numbers -/

/-- A number without a fraction is read as it is, up to the largest number of 64 bits. -/
theorem IsNormal.unsignedOfFloat_eq {e : Nat} (h : IsNormal x m e) :
    SettingValue.unsignedOfFloat x = min SettingValue.maxUnsigned (m * 2 ^ e) := by
  obtain ⟨hpos, hx⟩ := h.unpack_eq
  obtain ⟨hsign, hmantissa, hexponent⟩ := fields_of_unpack hx
  have hpositive : ¬ isNegative x = true := fun hnegative => by
    cases hsign.1 hnegative
  rw [SettingValue.unsignedOfFloat, if_neg hpositive]
  simp only [hmantissa, hexponent, Int.natCast_nonneg, if_true, Int.toNat_natCast]
  rfl

/-- The opposite of a positive number is read as zero. -/
theorem IsNormal.unsignedOfFloat_neg (h : IsNormal x m e) :
    SettingValue.unsignedOfFloat (-x) = 0 := by
  obtain ⟨hpos, hx⟩ := h.unpack_eq
  have hmodel : (-x).toModel = .pack (.finite .negative m e hpos) := by
    show Float.Model.pack x.toModel.unpack.neg = _
    rw [hx]
    rfl
  have hunpack := unpack_pack_finite .negative hpos h.log2_eq h.le_exponent
  rw [← hmodel, if_pos h.exponent_le] at hunpack
  rw [SettingValue.unsignedOfFloat, if_pos ((fields_of_unpack hunpack).1.2 rfl)]

/-! ### The significand of a literal -/

open Text (withDigits withDigits_cons le_withDigits)

/-- Once a digit did not fit, all are dropped. -/
theorem readWhole_of_pos (digits : List Char) (significand : Nat) {power : Int} (h : 0 < power) :
    JsonNumber.readWhole digits significand power = (significand, power + digits.length) := by
  induction digits generalizing power with
  | nil => simp [JsonNumber.readWhole]
  | cons c rest ih =>
    rw [JsonNumber.readWhole, if_neg fun hzero => by omega, ih (by omega), List.length_cons]
    congr 1
    omega

/-- Digits that fit are read. -/
theorem readWhole_of_lt {digits : List Char} {significand : Nat}
    (h : withDigits significand digits < twoPow 64) :
    JsonNumber.readWhole digits significand 0 = (withDigits significand digits, 0) := by
  induction digits generalizing significand with
  | nil => rfl
  | cons c rest ih =>
    rw [withDigits_cons] at h ⊢
    rw [JsonNumber.readWhole]
    simp only
    rw [if_pos ⟨trivial, Nat.lt_of_le_of_lt (le_withDigits _ rest) h⟩, ih h]

/-- Digits that do not fit leave a significand of nearly 64 bits. -/
theorem exists_readWhole_eq {digits : List Char} (hdigits : ∀ c ∈ digits, Text.isDigit c = true)
    {significand : Nat} (hfits : significand < twoPow 64)
    (h : twoPow 64 ≤ withDigits significand digits) : ∃ significand' power : Nat, 0 < power ∧
      significand' < twoPow 64 ∧ twoPow 64 ≤ 10 * significand' + 9 ∧
        JsonNumber.readWhole digits significand 0 = (significand', (power : Int)) := by
  induction digits generalizing significand with
  | nil => exact absurd hfits (Nat.not_lt.2 h)
  | cons c rest ih =>
    rw [withDigits_cons] at h
    rw [JsonNumber.readWhole]
    simp only
    by_cases hnext : 10 * significand + Text.digitValue c < twoPow 64
    · rw [if_pos ⟨trivial, hnext⟩]
      exact ih (fun d hd => hdigits d (List.mem_cons_of_mem _ hd)) hnext h
    · have hdigit := Text.digitValue_lt (hdigits c List.mem_cons_self)
      rw [if_neg fun hboth => hnext hboth.2, readWhole_of_pos rest significand (by decide)]
      refine ⟨significand, rest.length + 1, Nat.succ_pos _, hfits, by omega, ?_⟩
      congr 1
      omega

theorem toFloat?_of_readWhole {negative : Bool} {whole significand power : Nat}
    (h : JsonNumber.readWhole (Text.decimal whole) 0 0 = (significand, (power : Int))) :
    JsonNumber.toFloat? ⟨negative, whole, [], none⟩ =
      (JsonNumber.multiplyByPower? (UInt64.ofNat significand).toFloat power).map
        fun x => if negative then -x else x := by
  have hpower : 0 ≤ (power : Int) + 0 := by omega
  have hnat : ((power : Int) + 0).toNat = power := by omega
  simp only [JsonNumber.toFloat?, h, JsonNumber.readFraction, Option.getD_none, hpower, if_true, hnat]

theorem IsNormal.multiplyByPower?_eq_some {p : Nat} (h : IsNormal x m e)
    (hy : JsonNumber.multiplyByPower? x p = some y) :
    p ≤ 308 ∧ y = x * JsonNumber.powerOfTen p ∧ y.isInf = false := by
  obtain ⟨hpos, hx⟩ := h.unpack_eq
  have hnonzero : (x == 0) = false := by
    show UnpackedFloat.beq x.toModel.unpack _ = false
    rw [hx]
    rfl
  rw [JsonNumber.multiplyByPower?] at hy
  split at hy
  · next hp =>
    simp only at hy
    split at hy
    · cases hy
    · next hinf =>
      obtain rfl := Option.some.inj hy
      exact ⟨hp, rfl, by simpa using hinf⟩
  · rw [hnonzero] at hy
    cases hy

/-- A product with a power of two as a bound on the binary logarithm. -/
theorem le_log2_add {a b n : Nat} (h : 2 ^ b ≤ n * 2 ^ a) : b ≤ n.log2 + a := by
  have hlt : n * 2 ^ a < 2 ^ (n.log2 + 1 + a) := by
    rw [Nat.pow_add 2 (n.log2 + 1) a]
    exact Nat.mul_lt_mul_of_pos_right Nat.lt_log2_self (Nat.two_pow_pos a)
  have := (Nat.pow_lt_pow_iff_right (by decide : 1 < 2)).1 (Nat.lt_of_le_of_lt h hlt)
  omega

/-- **A whole number of 64 bits keeps its first 53**, rounded half to even. -/
theorem exists_isNormal_of_lt {whole : Nat} (hlower : 2 ^ 63 ≤ whole) (hupper : whole < 2 ^ 64)
    (hy : JsonNumber.multiplyByPower? (UInt64.ofNat whole).toFloat 0 = some y) :
    ∃ m e : Nat, IsNormal y m e ∧ m * 2 ^ e = roundHalfEven whole 2048 * 2048 := by
  have hlog : whole.log2 = 52 + 11 := (Nat.log2_eq_iff (by omega)).2 ⟨hlower, hupper⟩
  obtain ⟨m, carry, hx, hvalue⟩ := exists_isNormal_toFloat hlog hupper
  obtain ⟨-, rfl, hfinite⟩ := hx.multiplyByPower?_eq_some hy
  obtain ⟨k, m', carry', hk, hvalue', hproduct⟩ := hx.mul isNormal_one (by omega)
  have hexact : k = 52 := by
    obtain ⟨hm, hm'⟩ := hx.bounds
    have hproductLog : (m * 2 ^ 52).log2 = 104 := (Nat.log2_eq_iff (by omega)).2 (by omega)
    omega
  subst hexact
  rw [roundHalfEven_mul (Nat.two_pow_pos 52)] at hvalue'
  refine ⟨m', 11 + carry + carry', ?_, ?_⟩
  · have hexponent : ((11 + carry : Nat) : Int) + -52 + (52 : Nat) + carry' =
        (11 + carry + carry' : Nat) := by omega
    rw [hexponent] at hproduct
    exact hproduct.resolve_right (by rw [hfinite]; exact Bool.false_ne_true)
  · have hpower : 2 ^ 11 = 2048 := by decide
    rw [← hpower, ← hvalue, ← hvalue']
    ring

/-- The least significand of a number that does not fit 64 bits is rounded up, so that ten times as
much still does not fit. -/
theorem le_of_roundHalfEven {significand m carry k : Nat} (h : 1844674407370955161 ≤ significand)
    (hlog : significand.log2 = 52 + k) (hupper : significand < 2 ^ 64)
    (hvalue : m * 2 ^ carry = roundHalfEven significand (2 ^ k)) :
    2 ^ 64 ≤ 10 * (m * 2 ^ (k + carry)) := by
  have hne : significand ≠ 0 := by omega
  obtain ⟨hlower, -⟩ := (Nat.log2_eq_iff hne).1 hlog
  have hk : k ≤ 11 := by
    have := (Nat.log2_lt hne).2 hupper
    omega
  have hk' : 8 ≤ k := by
    have := (Nat.le_log2 hne).2 (Nat.le_trans (by decide : 2 ^ 60 ≤ 1844674407370955161) h)
    omega
  have hnear : 2 * significand ≤ 2 * (roundHalfEven significand (2 ^ k) * 2 ^ k) + 2 ^ k :=
    (roundHalfEven_near (Nat.two_pow_pos k)).2
  have hshift : m * 2 ^ (k + carry) = roundHalfEven significand (2 ^ k) * 2 ^ k := by
    rw [← hvalue]
    ring
  rw [hshift]
  generalize roundHalfEven significand (2 ^ k) = rounded at hnear
  interval_cases k <;> omega

/-- **Ten times as much and more**: the product is infinite, or a whole number. -/
theorem IsNormal.mul_of_reachesTen {e : Nat} (hx : IsNormal x m e) (hten : 2 ^ 64 ≤ 10 * (m * 2 ^ e))
    (hy : ReachesTen y.toModel.unpack) :
    (x * y).isInf = true ∨ ∃ m' e' : Nat, IsNormal (x * y) m' e' ∧ 2 ^ 64 ≤ m' * 2 ^ e' := by
  obtain hinf | ⟨m', e', hy', hle, hbound⟩ := hy.isNormal
  · exact .inl (hx.mul_infinity hinf)
  obtain ⟨k, m'', carry, hk, -, hproduct⟩ := hx.mul hy' (by omega)
  refine hproduct.symm.imp_right fun hproduct => ?_
  -- the exponents make up for the bits that the product has less than 64
  have hlarge : 64 + (-e').toNat ≤ (m * m').log2 + (e + e'.toNat) := by
    refine le_log2_add ?_
    calc 2 ^ (64 + (-e').toNat)
        = 2 ^ 64 * 2 ^ (-e').toNat := Nat.pow_add ..
      _ ≤ 10 * (m * 2 ^ e) * 2 ^ (-e').toNat := Nat.mul_le_mul_right _ hten
      _ = 10 * 2 ^ (-e').toNat * (m * 2 ^ e) := by ring
      _ ≤ m' * 2 ^ e'.toNat * (m * 2 ^ e) := Nat.mul_le_mul_right _ hbound
      _ = m * m' * 2 ^ (e + e'.toNat) := by ring
  obtain ⟨exponent, hexponent⟩ := Int.eq_ofNat_of_zero_le (by omega : 0 ≤ (e : Int) + e' + k + carry)
  rw [hexponent] at hproduct
  refine ⟨m'', exponent, hproduct, ?_⟩
  calc 2 ^ 64 = 2 ^ 52 * 2 ^ 12 := by decide
    _ ≤ m'' * 2 ^ exponent :=
      Nat.mul_le_mul hproduct.bounds.1 (Nat.pow_le_pow_right (by decide) (by omega))

/-- **A number beyond 64 bits stays beyond them.** -/
theorem exists_isNormal_of_ge {significand p : Nat} (hp : 0 < p) (hupper : significand < 2 ^ 64)
    (h : 2 ^ 64 ≤ 10 * significand + 9)
    (hy : JsonNumber.multiplyByPower? (UInt64.ofNat significand).toFloat p = some y) :
    ∃ m e : Nat, IsNormal y m e ∧ 2 ^ 64 ≤ m * 2 ^ e := by
  have hne : significand ≠ 0 := by omega
  have hlower : 60 ≤ significand.log2 := by
    rw [Nat.le_log2 hne]
    omega
  obtain ⟨k, hk⟩ := Nat.exists_eq_add_of_le (Nat.le_trans (by decide : 52 ≤ 60) hlower)
  obtain ⟨m, carry, hx, hvalue⟩ := exists_isNormal_toFloat hk hupper
  have hten := le_of_roundHalfEven (by omega) hk hupper hvalue
  obtain ⟨hle, rfl, hfinite⟩ := hx.multiplyByPower?_eq_some hy
  refine (hx.mul_of_reachesTen hten (reachesTen_powerOfTen hp hle)).resolve_left ?_
  rw [hfinite]
  exact Bool.false_ne_true

/-- The magnitude of an integer literal of at least 64 bits. -/
theorem exists_isNormal_of_toFloat? {negative : Bool} {whole : Nat} (hwhole : 2 ^ 63 ≤ whole)
    (h : JsonNumber.toFloat? ⟨negative, whole, [], none⟩ = some x) :
    ∃ (y : Float) (m e : Nat), IsNormal y m e ∧ x = (if negative then -y else y) ∧
      min SettingValue.maxUnsigned (m * 2 ^ e) =
        min SettingValue.maxUnsigned (roundHalfEven whole 2048 * 2048) := by
  have hvalue : withDigits 0 (Text.decimal whole) = whole := Text.value_decimal whole
  have hlimit : twoPow 64 = 2 ^ 64 := rfl
  by_cases hlt : whole < 2 ^ 64
  · have hread := @readWhole_of_lt (Text.decimal whole) 0 (by omega)
    rw [hvalue] at hread
    rw [@toFloat?_of_readWhole negative whole whole 0 hread] at h
    obtain ⟨y, hy, rfl⟩ := Option.map_eq_some_iff.1 h
    obtain ⟨m, e, hnormal, hkept⟩ := exists_isNormal_of_lt hwhole hlt hy
    exact ⟨y, m, e, hnormal, rfl, by rw [hkept]⟩
  · obtain ⟨significand, power, hpower, hupper, hlower, hread⟩ :=
      @exists_readWhole_eq (Text.decimal whole) (fun _ => Text.isDigit_of_mem_decimal) 0
        (by decide) (by omega)
    rw [toFloat?_of_readWhole hread] at h
    obtain ⟨y, hy, rfl⟩ := Option.map_eq_some_iff.1 h
    obtain ⟨m, e, hnormal, hlarge⟩ := exists_isNormal_of_ge hpower hupper hlower hy
    have hrounded : 2 * whole ≤ 2 * (roundHalfEven whole 2048 * 2048) + 2048 :=
      (roundHalfEven_near (by decide)).2
    have hmax : SettingValue.maxUnsigned = 2 ^ 64 - 1 := rfl
    refine ⟨y, m, e, hnormal, rfl, ?_⟩
    rw [Nat.min_eq_left (by omega), Nat.min_eq_left (by omega)]

/-- **An integer literal of at least 64 bits**, read as a floating-point number and then as a whole
number: a negative one is zero, and others keep 53 bits or are the largest number. -/
theorem unsignedOfFloat_of_toFloat? {negative : Bool} {whole : Nat} (hwhole : 2 ^ 63 ≤ whole)
    (h : JsonNumber.toFloat? ⟨negative, whole, [], none⟩ = some x) :
    SettingValue.unsignedOfFloat x =
      if negative then 0 else min SettingValue.maxUnsigned (roundHalfEven whole 2048 * 2048) := by
  obtain ⟨y, m, e, hy, rfl, hkept⟩ := exists_isNormal_of_toFloat? hwhole h
  cases negative with
  | true => exact hy.unsignedOfFloat_neg
  | false => exact hy.unsignedOfFloat_eq.trans hkept

end UsageBilling.FloatText
