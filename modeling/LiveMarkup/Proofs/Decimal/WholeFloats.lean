import LiveMarkup.Value.Operators
import Mathlib
set_option autoImplicit false

/-! # Floats of whole numbers

A float has 53 binary digits. A whole number of 64 bits that has more of them becomes the nearest
number that has not (`nearestInt`), and half way between two of them the one whose last digit is
even. Two floats of whole numbers are equal just if the numbers become the same (`ofInt_beq`). -/

namespace LiveMarkup.Decimal

open Float.Model Float.Model.UnpackedFloat

/-! ## Rounding to nearest -/

/-- A number in steps of `2^s`, rounded to the nearest step, and half way to the even one. -/
def steps (n s : Nat) : Nat :=
  if 2 * (n % 2 ^ s) < 2 ^ s then n / 2 ^ s
  else if 2 * (n % 2 ^ s) = 2 ^ s then n / 2 ^ s + n / 2 ^ s % 2
  else n / 2 ^ s + 1

/-- The nearest number with no more than 53 binary digits in front of its last zeros. -/
def nearestWhole (n : Nat) : Nat := steps n (n.log2 - 52) * 2 ^ (n.log2 - 52)

theorem steps_scale (n s c : Nat) : steps (n * 2 ^ c) (s + c) = steps n s := by
  have hpos : 0 < 2 ^ c := Nat.two_pow_pos c
  have hdiv : n * 2 ^ c / 2 ^ (s + c) = n / 2 ^ s := by
    rw [Nat.pow_add, Nat.mul_div_mul_right _ _ hpos]
  have hmod : n * 2 ^ c % 2 ^ (s + c) = n % 2 ^ s * 2 ^ c := by
    rw [Nat.pow_add, Nat.mul_mod_mul_right]
  have hlt : 2 * (n % 2 ^ s * 2 ^ c) < 2 ^ (s + c) ↔ 2 * (n % 2 ^ s) < 2 ^ s := by
    rw [Nat.pow_add, ← Nat.mul_assoc, Nat.mul_lt_mul_right hpos]
  have heq : 2 * (n % 2 ^ s * 2 ^ c) = 2 ^ (s + c) ↔ 2 * (n % 2 ^ s) = 2 ^ s := by
    rw [Nat.pow_add, ← Nat.mul_assoc, Nat.mul_left_inj hpos.ne']
  simp only [steps, hdiv, hmod, hlt, heq]

theorem steps_zero (n : Nat) : steps n 0 = n := by simp [steps, Nat.mod_one]

theorem steps_bounds {n s : Nat} (h : n.log2 = 52 + s) :
    2 ^ 52 ≤ steps n s ∧ steps n s ≤ 2 ^ 53 := by
  have hn : n ≠ 0 := by
    rintro rfl
    simp at h
    omega
  have hlow : 2 ^ 52 ≤ n / 2 ^ s := by
    rw [Nat.le_div_iff_mul_le (Nat.two_pow_pos s), ← Nat.pow_add, ← h]
    exact Nat.log2_self_le hn
  have hhigh : n / 2 ^ s < 2 ^ 53 := by
    rw [Nat.div_lt_iff_lt_mul (Nat.two_pow_pos s), ← Nat.pow_add]
    have := Nat.lt_log2_self (n := n)
    rwa [h, Nat.add_right_comm] at this
  unfold steps
  split
  · omega
  · split <;> omega

/-- No number of steps is nearer: what is lost is half a step at most. -/
theorem steps_near (n s : Nat) :
    2 * (steps n s * 2 ^ s) ≤ 2 * n + 2 ^ s ∧ 2 * n ≤ 2 * (steps n s * 2 ^ s) + 2 ^ s := by
  have hn : n / 2 ^ s * 2 ^ s + n % 2 ^ s = n := by
    rw [Nat.mul_comm]
    exact Nat.div_add_mod n (2 ^ s)
  have hlt : n % 2 ^ s < 2 ^ s := Nat.mod_lt _ (Nat.two_pow_pos s)
  have heven := Nat.mod_two_eq_zero_or_one (n / 2 ^ s)
  unfold steps
  split
  · omega
  · split
    · obtain heven | heven := heven <;> rw [heven, Nat.add_mul] <;> omega
    · rw [Nat.add_mul]
      omega

/-! ## Rounding in the float model -/

theorem shifted_mantissa (em : ExtendedMantissa) (k : Nat) :
    (em >>> k).mantissa = em.mantissa / 2 ^ k := by
  induction k with
  | zero => simp [HShiftRight.hShiftRight, Nat.repeat]
  | succ k ih =>
      show (em >>> k).mantissa / 2 = _
      rw [ih, Nat.div_div_eq_div_mul, Nat.pow_succ]

/-- The two bits behind a shifted significand tell what was shifted out: whether it is half a
step or more, and whether it is neither nothing nor just half a step. -/
theorem shifted_bits (m k : Nat) :
    ((ExtendedMantissa.mk m false false >>> k).roundBit = true ↔ 2 ^ k ≤ 2 * (m % 2 ^ k)) ∧
      ((ExtendedMantissa.mk m false false >>> k).stickyBit = true ↔
        2 * (m % 2 ^ k) ≠ 0 ∧ 2 * (m % 2 ^ k) ≠ 2 ^ k) := by
  induction k with
  | zero => simp [HShiftRight.hShiftRight, Nat.repeat, Nat.mod_one]
  | succ k ih =>
      obtain ⟨hr, hs⟩ := ih
      have hround : (ExtendedMantissa.mk m false false >>> (k + 1)).roundBit =
          ((ExtendedMantissa.mk m false false >>> k).mantissa % 2 != 0) := rfl
      have hsticky : (ExtendedMantissa.mk m false false >>> (k + 1)).stickyBit =
          ((ExtendedMantissa.mk m false false >>> k).roundBit ||
            (ExtendedMantissa.mk m false false >>> k).stickyBit) := rfl
      have hlt : m % 2 ^ k < 2 ^ k := Nat.mod_lt _ (Nat.two_pow_pos k)
      have hmod : m % 2 ^ (k + 1) = m % 2 ^ k + 2 ^ k * (m / 2 ^ k % 2) := by
        rw [Nat.pow_succ, Nat.mod_mul]
      have hpow : 2 ^ (k + 1) = 2 * 2 ^ k := by rw [Nat.pow_succ, Nat.mul_comm]
      rw [hround, hsticky, shifted_mantissa, Bool.or_eq_true, hr, hs, hmod, hpow, bne_iff_ne]
      obtain hbit | hbit := Nat.mod_two_eq_zero_or_one (m / 2 ^ k) <;> rw [hbit]
      · exact ⟨by omega, by omega⟩
      · exact ⟨by omega, by omega⟩

theorem roundedMantissa_shift (m k : Nat) :
    (ExtendedMantissa.mk m false false >>> k).roundedMantissa = steps m k := by
  have hm : (ExtendedMantissa.mk m false false >>> k).mantissa = m / 2 ^ k := shifted_mantissa _ k
  obtain ⟨hr, hs⟩ := shifted_bits m k
  generalize ExtendedMantissa.mk m false false >>> k = em at hm hr hs
  obtain ⟨m', round, sticky⟩ := em
  dsimp only at hm hr hs
  subst hm
  have hpos : 0 < 2 ^ k := Nat.two_pow_pos k
  unfold steps
  obtain hlt | heq | hgt := Nat.lt_trichotomy (2 * (m % 2 ^ k)) (2 ^ k)
  · have hround : round = false := Bool.eq_false_iff.mpr fun h => by have := hr.mp h; omega
    rw [if_pos hlt, hround]
    cases sticky <;> rfl
  · have hround : round = true := hr.mpr (by omega)
    have hsticky : sticky = false := Bool.eq_false_iff.mpr fun h => (hs.mp h).2 heq
    rw [if_neg (by omega), if_pos heq, hround, hsticky]
    rfl
  · have hround : round = true := hr.mpr (by omega)
    have hsticky : sticky = true := hs.mpr (by omega)
    rw [if_neg (by omega), if_neg (by omega), hround, hsticky]
    rfl

/-- A float that stands for a whole number, up to its sign: 53 digits and a power of two. -/
def Holds (x : UnpackedFloat) (sign : Sign) (n : Nat) : Prop :=
  ∃ (m a : Nat) (hm : 0 < m), x = .finite sign m (a - 52) hm ∧
    2 ^ 52 ≤ m ∧ m < 2 ^ 53 ∧ a ≤ 100 ∧ m * 2 ^ a = n * 2 ^ 52

theorem shiftToTargetExponent_exact {m t : Nat} {e : Int} (h : m.log2 = 52 + t)
    (he : -1074 ≤ e + t) :
    shiftToTargetExponent Format.binary64 m e .exact =
      (ExtendedMantissa.mk m false false >>> t, e + t) := by
  have htarget : Format.binary64.targetExponent (totalExponent m e) = e + t := by
    simp only [Format.targetExponent, totalExponent, Format.mantissaBits, Format.minExponent, h]
    norm_num
    omega
  have hshift : (e + (t : Int) - e).toNat = t := by omega
  simp only [shiftToTargetExponent, shiftToExponent, htarget, hshift,
    ExtendedMantissa.ofMantissaAndAccuracy]

/-- Rounding a number in front of a power of two keeps 53 of its digits. -/
theorem holds_roundWithAccuracy {m t a n : Nat} {e : Int} {sign : Sign} (h : m.log2 = 52 + t)
    (he : e + t = a - 52) (ha : a < 100) (hn : steps m t * 2 ^ a = n * 2 ^ 52) :
    Holds (roundWithAccuracy Format.binary64 sign m e .exact) sign n := by
  obtain ⟨hlow, hhigh⟩ := steps_bounds h
  have hfirst := shiftToTargetExponent_exact h (by omega : -1074 ≤ e + t)
  unfold roundWithAccuracy
  rw [hfirst]
  dsimp only
  rw [roundedMantissa_shift, he]
  obtain hlt | heq := Nat.lt_or_eq_of_le hhigh
  · -- the rounded digits fit
    have hlog : (steps m t).log2 = 52 + 0 := (Nat.log2_eq_iff (by omega)).mpr ⟨hlow, hlt⟩
    rw [shiftToTargetExponent_exact hlog (by omega)]
    have hzero : steps m t ≠ 0 := by omega
    simp only [shifted_mantissa, Nat.pow_zero, Nat.div_one, hzero, ↓reduceDIte]
    exact ⟨steps m t, a, by omega, by simp, hlow, hlt, by omega, hn⟩
  · -- a carry out of the first digit
    have hlog : (steps m t).log2 = 52 + 1 := by rw [heq]; exact Nat.log2_two_pow
    rw [shiftToTargetExponent_exact hlog (by omega)]
    have hhalf : steps m t / 2 ^ 1 = 2 ^ 52 := by rw [heq]; norm_num
    have hexp : (a : Int) - 52 + (1 : Nat) = (a + 1 : Nat) - 52 := by omega
    have hzero : (2 ^ 52 : Nat) ≠ 0 := by decide
    simp only [shifted_mantissa, hhalf, hexp, hzero, ↓reduceDIte]
    refine ⟨2 ^ 52, a + 1, by decide, rfl, le_rfl, by decide, by omega, ?_⟩
    rw [← hn, heq]
    ring

/-! ## Packing -/

theorem unpackSign_packComponents {spec : Format} {sign : Sign} {exponent mantissa} :
    unpackSign (packComponents spec sign exponent mantissa) = sign.toBitVec := by
  ext i hi
  have hi0 : i = 0 := by omega
  subst hi0
  simp [unpackSign, packComponents, BitVec.getLsbD_append, BitVec.getElem_append]

theorem ofBitVec_toBitVec (sign : Sign) : Sign.ofBitVec sign.toBitVec = sign := by
  cases sign <;> rfl

/-- The first digit of 53 is not written and comes back. -/
theorem implicit_append {m : Nat} (hlow : 2 ^ 52 ≤ m) (hhigh : m < 2 ^ 53) :
    (1#1 ++ BitVec.ofNat 52 m).toNat = m := by
  have hone : (1#1).toNat <<< 52 = 2 ^ 52 := by decide
  rw [BitVec.toNat_append, ← Nat.shiftLeft_add_eq_or_of_lt (BitVec.isLt _), hone,
    BitVec.toNat_ofNat]
  omega

theorem Holds.unpack_pack {x : UnpackedFloat} {sign : Sign} {n : Nat} (h : Holds x sign n) :
    (Float.Model.pack x).unpack = x := by
  obtain ⟨m, a, hm, rfl, hlow, hhigh, ha, -⟩ := h
  have hlog : m.log2 = 52 := (Nat.log2_eq_iff hm.ne').mpr ⟨hlow, hhigh⟩
  have hbiased : ((a : Int) - 52 + (Format.binary64.exponentBias : Nat) +
      (Format.binary64.mantissaBitsWithoutImplicit : Nat)).toNat = a + 1023 := by
    simp only [Format.exponentBias]
    norm_num
    omega
  have hexp : (BitVec.ofNat 11 (a + 1023)).toNat = a + 1023 := by
    rw [BitVec.toNat_ofNat]
    omega
  have hnotLast : BitVec.ofNat 11 (a + 1023) ≠ -1#_ := by
    intro heq
    have := congrArg BitVec.toNat heq
    rw [hexp] at this
    simp at this
    omega
  have hnotFirst : BitVec.ofNat 11 (a + 1023) ≠ 0#_ := by
    intro heq
    have := congrArg BitVec.toNat heq
    rw [hexp] at this
    simp at this
  have hfits : ¬ 2 ^ 11 ≤ a + 1023 + 1 := by omega
  have hback : ((a + 1023 : Nat) : Int) - ((Format.binary64.exponentBias : Nat) +
      (Format.binary64.mantissaBitsWithoutImplicit : Nat)) = a - 52 := by
    simp only [Format.exponentBias]
    norm_num
    omega
  unfold Float.Model.unpack Float.Model.pack
  simp only [UnpackedFloat.pack, hlog, hbiased, hfits, Format.mantissaBits, ↓reduceIte]
  unfold UnpackedFloat.unpack
  simp only [unpackMantissa_packComponents, unpackExponent_packComponents,
    unpackSign_packComponents, ofBitVec_toBitVec, hnotLast, hnotFirst, hexp, hback,
    implicit_append hlow hhigh, ↓reduceIte]

/-! ## Floats of natural numbers -/

theorem log2_mul_two_pow {n : Nat} (hn : n ≠ 0) (k : Nat) : (n * 2 ^ k).log2 = n.log2 + k := by
  have hk : n * 2 ^ k ≠ 0 := Nat.mul_ne_zero hn (Nat.two_pow_pos k).ne'
  rw [Nat.log2_eq_iff hk]
  constructor
  · rw [Nat.pow_add]
    exact Nat.mul_le_mul_right _ (Nat.log2_self_le hn)
  · rw [Nat.add_right_comm, Nat.pow_add]
    exact Nat.mul_lt_mul_of_pos_right Nat.lt_log2_self (Nat.two_pow_pos k)

/-- A number of at most 53 digits is kept as it is. -/
theorem holds_round {n : Nat} (hn : n ≠ 0) (hlog : n.log2 ≤ 52) :
    Holds (UnpackedFloat.round Format.binary64 .positive n 0) .positive n := by
  have htarget : Format.binary64.targetExponent (totalExponent n 0) = n.log2 - 52 := by
    simp only [Format.targetExponent, totalExponent, Format.mantissaBits, Format.minExponent]
    norm_num
    omega
  have hshift : ((0 : Int) - (n.log2 - 52)).toNat = 52 - n.log2 := by omega
  unfold UnpackedFloat.round
  simp only [htarget, decreaseExponent, hshift, Nat.shiftLeft_eq]
  have hdigits : (n * 2 ^ (52 - n.log2)).log2 = 52 + 0 := by
    rw [log2_mul_two_pow hn]
    omega
  refine holds_roundWithAccuracy (a := n.log2) hdigits (by omega) (by omega) ?_
  rw [steps_zero, Nat.mul_assoc, ← Nat.pow_add, Nat.sub_add_cancel hlog]

/-- Multiplying by one changes nothing. -/
theorem Holds.mul_one {x : UnpackedFloat} {n : Nat} (h : Holds x .positive n) (hlt : n < 2 ^ 53) :
    Holds (UnpackedFloat.mul Format.binary64 x (.finite .positive (2 ^ 52) (-52) (by decide))) .positive n := by
  obtain ⟨m, a, hm, rfl, hlow, hhigh, ha, hn⟩ := h
  have hdigits : (m * 2 ^ 52).log2 = 52 + 52 := by
    rw [log2_mul_two_pow hm.ne', (Nat.log2_eq_iff hm.ne').mpr ⟨hlow, hhigh⟩]
  have hsteps : steps (m * 2 ^ 52) 52 = m := by
    have := steps_scale m 0 52
    rwa [Nat.zero_add, steps_zero] at this
  have hpow : 2 ^ a < 2 ^ 53 := by
    have := Nat.mul_le_mul_right (2 ^ a) hlow
    omega
  have hsmall : a < 53 := (Nat.pow_lt_pow_iff_right (by decide)).mp hpow
  refine holds_roundWithAccuracy (a := a) hdigits (by omega) (by omega) ?_
  rw [hsteps, hn]

theorem unpack_one : (Float.ofBits 0x3FF0000000000000).toModel.unpack =
    .finite .positive (2 ^ 52) (-52) (by decide) := by
  rfl

theorem holds_ofScientific {n : Nat} (hlow : 2 ^ 53 ≤ n) (hhigh : n < 2 ^ 64) :
    Holds (UnpackedFloat.ofScientific Format.binary64 n 0) .positive (nearestWhole n) := by
  have hn : n ≠ 0 := by omega
  have hlog : 53 ≤ n.log2 := (Nat.le_log2 hn).mpr hlow
  have hlog' : n.log2 < 64 := (Nat.log2_lt hn).mpr hhigh
  have hdigits : (n * 2 ^ 53).log2 = 52 + (n.log2 + 1) := by
    rw [log2_mul_two_pow hn]
    omega
  have hsteps : steps (n * 2 ^ 53) (n.log2 + 1) = steps n (n.log2 - 52) := by
    have := steps_scale n (n.log2 - 52) 53
    rwa [show n.log2 - 52 + 53 = n.log2 + 1 by omega] at this
  have hmul : UnpackedFloat.ofScientific Format.binary64 n 0 =
      roundWithAccuracy Format.binary64 .positive (n * 2 ^ 53) (-53) .exact := by
    have hsafe : ¬ (0 : Int) > 2 ^ 11 := by decide
    have hsafe' : ¬ (0 : Int) < -(2 ^ 11 + n.log2) := by omega
    simp only [UnpackedFloat.ofScientific, hn, hsafe, hsafe', UnpackedFloat.mul, le_rfl,
      Nat.shiftLeft_eq, ↓reduceDIte, ↓reduceIte]
    have hten : n * 2 ^ Format.binary64.mantissaBits * 10 ^ (0 : Int).toNat = n * 2 ^ 53 :=
      Nat.mul_one _
    rw [hten]
    rfl
  rw [hmul]
  refine holds_roundWithAccuracy (a := n.log2) hdigits (by omega) (by omega) ?_
  rw [hsteps, nearestWhole, Nat.mul_assoc, ← Nat.pow_add, Nat.sub_add_cancel (by omega)]

/-- The number that a digit sequence of at most 53 digits stands for is itself. -/
theorem nearestWhole_of_lt {n : Nat} (h : n < 2 ^ 53) : nearestWhole n = n := by
  have hlog : n.log2 - 52 = 0 := by
    by_cases hn : n = 0
    · subst hn
      rfl
    · have := (Nat.log2_lt hn).mpr h
      omega
  rw [nearestWhole, hlog, steps_zero, Nat.pow_zero, Nat.mul_one]

/-- The float of a natural number stands for the nearest number that 53 digits can give. -/
theorem holds_ofNat {n : Nat} (hn : n ≠ 0) (h : n < 2 ^ 64) :
    Holds (Float.ofNat n).toModel.unpack .positive (nearestWhole n) := by
  by_cases hlow : n < 2 ^ 53
  · have hlog : n.log2 ≤ 52 := by
      have := (Nat.log2_lt hn).mpr hlow
      omega
    have hword : n.toUInt64.toNat = n := by
      simp
      omega
    have hunit : n.toUInt64.toFloat.toModel =
        Float.Model.pack (UnpackedFloat.round Format.binary64 .positive n 0) := by
      have hcompare : compare (n : Int) 0 = .gt := by
        rw [Int.compare_eq_gt]
        omega
      show Float.Model.pack (UnpackedFloat.normalize Format.binary64 (n.toUInt64.toNat : Int) 0 .positive) = _
      rw [hword, UnpackedFloat.normalize, hcompare]
      rfl
    have hrounded := holds_round hn hlog
    have hmul : (Float.ofNat n).toModel = Float.Model.pack (UnpackedFloat.mul Format.binary64
        n.toUInt64.toFloat.toModel.unpack (Float.ofBits 0x3FF0000000000000).toModel.unpack) := by
      show (Float.ofScientific n false 0).toModel = _
      unfold Float.ofScientific
      rw [dif_pos ⟨hlow, by decide⟩]
      rfl
    have hproduct := hrounded.mul_one hlow
    rw [hmul, hunit, hrounded.unpack_pack, unpack_one, hproduct.unpack_pack,
      nearestWhole_of_lt hlow]
    exact hproduct
  · have hslow : (Float.ofNat n).toModel =
        Float.Model.pack (UnpackedFloat.ofScientific Format.binary64 n 0) := by
      show (Float.ofScientific n false 0).toModel = _
      unfold Float.ofScientific
      rw [dif_neg (by omega)]
      rfl
    have hrounded := holds_ofScientific (by omega) h
    rw [hslow, hrounded.unpack_pack]
    exact hrounded

/-! ## Floats of whole numbers -/

/-- The nearest whole number with no more than 53 binary digits in front of its last zeros. -/
def nearestInt (n : Int) : Int := n.sign * nearestWhole n.natAbs

/-- The sign of the float of a whole number. -/
def signOf (n : Int) : Sign := if n < 0 then .negative else .positive

theorem Holds.neg {x : UnpackedFloat} {n : Nat} (h : Holds x .positive n) :
    Holds x.neg .negative n := by
  obtain ⟨m, a, hm, rfl, hrest⟩ := h
  exact ⟨m, a, hm, rfl, hrest⟩

theorem holds_ofInt {n : Int} (hn : n ≠ 0) (h : n.natAbs < 2 ^ 64) :
    Holds (Float.ofInt n).toModel.unpack (signOf n) (nearestWhole n.natAbs) := by
  cases n with
  | ofNat n => exact holds_ofNat (by simpa using hn) h
  | negSucc n =>
      have hpositive := (holds_ofNat (Nat.succ_ne_zero n) h).neg
      have hsign : signOf (.negSucc n) = .negative := if_pos (Int.negSucc_lt_zero n)
      show Holds (Float.Model.pack (Float.ofNat n.succ).toModel.unpack.neg).unpack _ _
      rw [hpositive.unpack_pack, hsign]
      exact hpositive

/-- Two floats of whole numbers are equal just if the numbers they stand for are. -/
theorem Holds.beq_iff {x y : UnpackedFloat} {s t : Sign} {v w : Nat} (hx : Holds x s v)
    (hy : Holds y t w) : x.beq y = true ↔ s = t ∧ v = w := by
  obtain ⟨m, a, hm, rfl, hlow, hhigh, -, hv⟩ := hx
  obtain ⟨m', b, hm', rfl, hlow', hhigh', -, hw⟩ := hy
  have hvalue : v = w ↔ a = b ∧ m = m' := by
    constructor
    · rintro rfl
      have hlog := congrArg Nat.log2 (hv.trans hw.symm)
      rw [log2_mul_two_pow hm.ne', log2_mul_two_pow hm'.ne',
        (Nat.log2_eq_iff hm.ne').mpr ⟨hlow, hhigh⟩,
        (Nat.log2_eq_iff hm'.ne').mpr ⟨hlow', hhigh'⟩] at hlog
      have hab : a = b := by omega
      subst hab
      exact ⟨rfl, Nat.eq_of_mul_eq_mul_right (Nat.two_pow_pos a) (hv.trans hw.symm)⟩
    · rintro ⟨rfl, rfl⟩
      exact Nat.eq_of_mul_eq_mul_right (by decide) (hv.symm.trans hw)
  have hexp : compare ((a : Int) - 52) ((b : Int) - 52) = .eq ↔ a = b := by
    rw [Int.compare_eq_eq]
    omega
  cases s <;> cases t <;>
    simp [UnpackedFloat.beq, UnpackedFloat.compare, hvalue, Ordering.then_eq_eq, hexp]

theorem Holds.pos {x : UnpackedFloat} {s : Sign} {n : Nat} (h : Holds x s n) : 0 < n := by
  obtain ⟨m, a, hm, -, -, -, -, hn⟩ := h
  have := Nat.mul_pos hm (Nat.two_pow_pos a)
  omega

theorem Holds.zero_beq {x : UnpackedFloat} {s t : Sign} {n : Nat} (h : Holds x s n) :
    (UnpackedFloat.zero t).beq x = false ∧ x.beq (.zero t) = false := by
  obtain ⟨m, a, hm, rfl, -⟩ := h
  cases s <;> exact ⟨rfl, rfl⟩

theorem sign_nearestInt {n : Int} (h : n.natAbs < 2 ^ 64) : (nearestInt n).sign = n.sign := by
  by_cases hn : n = 0
  · subst hn
    rfl
  · have hpos : 0 < nearestWhole n.natAbs := (holds_ofInt hn h).pos
    rw [nearestInt, Int.sign_mul, Int.sign_sign, Int.sign_natCast_of_ne_zero hpos.ne', Int.mul_one]

theorem natAbs_nearestInt (n : Int) : (nearestInt n).natAbs = nearestWhole n.natAbs := by
  by_cases hn : n = 0
  · subst hn
    rfl
  · rw [nearestInt, Int.natAbs_mul, Int.natAbs_sign_of_ne_zero hn, Int.natAbs_natCast, Nat.one_mul]

/-- A number moves by half a step of its digits at most. -/
theorem nearestInt_near (n : Int) :
    2 * (nearestInt n - n).natAbs ≤ 2 ^ (n.natAbs.log2 - 52) := by
  have hmove : nearestInt n - n = n.sign * ((nearestWhole n.natAbs : Int) - n.natAbs) := by
    rw [Int.mul_sub, Int.sign_mul_natAbs, nearestInt]
  have hsign : n.sign.natAbs ≤ 1 := by
    rw [Int.natAbs_sign]
    split <;> decide
  have hnear := steps_near n.natAbs (n.natAbs.log2 - 52)
  rw [hmove, Int.natAbs_mul, nearestWhole]
  have hone := Nat.mul_le_mul_right
    ((steps n.natAbs (n.natAbs.log2 - 52) * 2 ^ (n.natAbs.log2 - 52) : Nat) - (n.natAbs : Int)).natAbs
    hsign
  omega

/-- The numbers up to `2^53` are kept. -/
theorem nearestInt_of_le {n : Int} (h : n.natAbs ≤ 2 ^ 53) : nearestInt n = n := by
  have hwhole : nearestWhole n.natAbs = n.natAbs := by
    obtain hlt | heq := Nat.lt_or_eq_of_le h
    · exact nearestWhole_of_lt hlt
    · rw [heq]
      decide
  rw [nearestInt, hwhole, Int.sign_mul_natAbs]

theorem nearestInt_ne_zero {n : Int} (hn : n ≠ 0) (h : n.natAbs < 2 ^ 64) : nearestInt n ≠ 0 := by
  intro hzero
  apply hn
  rw [← Int.sign_eq_zero_iff_zero, ← sign_nearestInt h, hzero, Int.sign_zero]

theorem nearestInt_eq_iff {a b : Int} (ha : a ≠ 0) (hb : b ≠ 0) (ha' : a.natAbs < 2 ^ 64)
    (hb' : b.natAbs < 2 ^ 64) :
    nearestInt a = nearestInt b ↔
      signOf a = signOf b ∧ nearestWhole a.natAbs = nearestWhole b.natAbs := by
  have hsign : signOf a = signOf b ↔ a.sign = b.sign := by
    unfold signOf
    obtain hneg | hpos := Int.lt_or_gt_of_ne ha <;> obtain hneg' | hpos' := Int.lt_or_gt_of_ne hb
    · simp [Int.sign_eq_neg_one_of_neg, *]
    · have : ¬ b < 0 := by omega
      simp [Int.sign_eq_neg_one_of_neg, Int.sign_eq_one_of_pos, *]
    · have : ¬ a < 0 := by omega
      simp [Int.sign_eq_neg_one_of_neg, Int.sign_eq_one_of_pos, *]
    · have : ¬ a < 0 := by omega
      have : ¬ b < 0 := by omega
      simp [Int.sign_eq_one_of_pos, *]
  rw [hsign, ← sign_nearestInt ha', ← sign_nearestInt hb', ← natAbs_nearestInt,
    ← natAbs_nearestInt]
  constructor
  · intro h
    exact ⟨congrArg Int.sign h, congrArg Int.natAbs h⟩
  · rintro ⟨h, habs⟩
    rw [← Int.sign_mul_natAbs (nearestInt a), h, habs, Int.sign_mul_natAbs]

/-- The floats of two whole numbers are equal just if the numbers round to the same one. -/
theorem ofInt_beq {a b : Int} (ha : a.natAbs < 2 ^ 64) (hb : b.natAbs < 2 ^ 64) :
    (Float.ofInt a == Float.ofInt b) = decide (nearestInt a = nearestInt b) := by
  show (Float.ofInt a).toModel.unpack.beq (Float.ofInt b).toModel.unpack = _
  have hzero : (Float.ofInt 0).toModel.unpack = .zero .positive := rfl
  by_cases ha0 : a = 0 <;> by_cases hb0 : b = 0
  · subst ha0 hb0
    rw [hzero]
    rfl
  · subst ha0
    rw [hzero, (holds_ofInt hb0 hb).zero_beq.1]
    exact (decide_eq_false (nearestInt_ne_zero hb0 hb).symm).symm
  · subst hb0
    rw [hzero, (holds_ofInt ha0 ha).zero_beq.2]
    exact (decide_eq_false (nearestInt_ne_zero ha0 ha)).symm
  · rw [Bool.eq_iff_iff, (holds_ofInt ha0 ha).beq_iff (holds_ofInt hb0 hb), decide_eq_true_iff,
      nearestInt_eq_iff ha0 hb0 ha hb]

end LiveMarkup.Decimal
