import LiveMarkup.Proofs.Decimal.WholeFloats
set_option autoImplicit false

/-! # Comparison of whole numbers

The order operators and `===` compare whole numbers as they are, `==` compares their floats. So the
operators tell one story of two whole numbers (`Value.Consistent`) unless the numbers differ and
their floats do not, which takes numbers beyond `2^53`. -/

namespace LiveMarkup

open Decimal

/-- The operator holds between two values. -/
def BinaryOp.IsTrue (op : BinaryOp) (l r : Value) : Prop := op.apply l r = .bool true

namespace Value

/-- The comparison operators agree about two values: just one of `<`, `==` and `>` holds, `<=` and
`>=` hold as their names say, and `==` holds where `===` does. -/
structure Consistent (l r : Value) : Prop where
  exactlyOne :
    (BinaryOp.lt.IsTrue l r ∧ ¬ BinaryOp.looseEq.IsTrue l r ∧ ¬ BinaryOp.gt.IsTrue l r) ∨
    (¬ BinaryOp.lt.IsTrue l r ∧ BinaryOp.looseEq.IsTrue l r ∧ ¬ BinaryOp.gt.IsTrue l r) ∨
    (¬ BinaryOp.lt.IsTrue l r ∧ ¬ BinaryOp.looseEq.IsTrue l r ∧ BinaryOp.gt.IsTrue l r)
  ltEq : BinaryOp.ltEq.IsTrue l r ↔ BinaryOp.lt.IsTrue l r ∨ BinaryOp.looseEq.IsTrue l r
  gtEq : BinaryOp.gtEq.IsTrue l r ↔ BinaryOp.gt.IsTrue l r ∨ BinaryOp.looseEq.IsTrue l r
  equal : BinaryOp.looseEq.IsTrue l r ↔ BinaryOp.strictEq.IsTrue l r

/-! ## Single operators -/

section

variable (a b : Int64)

theorem lt_int : BinaryOp.lt.apply (int a) (int b) = .bool (decide (a.toInt < b.toInt)) := by
  simp only [BinaryOp.apply, compare?, Option.some.injEq, Int.compare_eq_lt]

theorem gt_int : BinaryOp.gt.apply (int a) (int b) = .bool (decide (b.toInt < a.toInt)) := by
  simp only [BinaryOp.apply, compare?, Option.some.injEq, Int.compare_eq_gt]

theorem ltEq_int : BinaryOp.ltEq.apply (int a) (int b) = .bool (decide (a.toInt ≤ b.toInt)) := by
  simp only [BinaryOp.apply, compare?, Option.some.injEq, Int.compare_eq_lt, Int.compare_eq_eq,
    Int.le_iff_lt_or_eq, Bool.decide_or]

theorem gtEq_int : BinaryOp.gtEq.apply (int a) (int b) = .bool (decide (b.toInt ≤ a.toInt)) := by
  have hle : b.toInt ≤ a.toInt ↔ b.toInt < a.toInt ∨ a.toInt = b.toInt := by omega
  simp only [BinaryOp.apply, compare?, Option.some.injEq, Int.compare_eq_gt, Int.compare_eq_eq,
    hle, Bool.decide_or]

theorem strictEq_int : BinaryOp.strictEq.apply (int a) (int b) = .bool (decide (a = b)) := rfl

/-- `==` compares the floats: what is the same after rounding is the same. -/
theorem looseEq_int : BinaryOp.looseEq.apply (int a) (int b) =
    .bool (decide (nearestInt a.toInt = nearestInt b.toInt)) := by
  have hbound : ∀ n : Int64, n.toInt.natAbs < 2 ^ 64 := by
    intro n
    have := n.le_toInt
    have := n.toInt_lt
    omega
  rw [← ofInt_beq (hbound a) (hbound b)]
  rfl

end

/-! ## Agreement -/

theorem isTrue_iff {op : BinaryOp} {l r : Value} {p : Prop} [Decidable p]
    (h : op.apply l r = .bool (decide p)) : op.IsTrue l r ↔ p := by
  rw [BinaryOp.IsTrue, h, bool.injEq, decide_eq_true_iff]

/-- The comparison operators agree about two whole numbers if the numbers are the same or differ
after rounding too. -/
theorem consistent_int_iff (a b : Int64) :
    Consistent (int a) (int b) ↔ a = b ∨ nearestInt a.toInt ≠ nearestInt b.toInt := by
  have hlt := isTrue_iff (lt_int a b)
  have hgt := isTrue_iff (gt_int a b)
  have hle := isTrue_iff (ltEq_int a b)
  have hge := isTrue_iff (gtEq_int a b)
  have hloose := isTrue_iff (looseEq_int a b)
  have hstrict := isTrue_iff (strictEq_int a b)
  constructor
  · intro h
    by_cases hnear : nearestInt a.toInt = nearestInt b.toInt
    · exact .inl (hstrict.mp (h.equal.mp (hloose.mpr hnear)))
    · exact .inr hnear
  · intro h
    have hsame : nearestInt a.toInt = nearestInt b.toInt ↔ a.toInt = b.toInt := by
      obtain rfl | hnear := h
      · simp
      · refine ⟨fun heq => absurd heq hnear, fun heq => congrArg nearestInt heq⟩
    rw [hsame] at hloose
    rw [← Int64.toInt_inj] at hstrict
    refine ⟨?_, ?_, ?_, ?_⟩
    · rw [hlt, hloose, hgt]
      omega
    · rw [hle, hlt, hloose]
      omega
    · rw [hge, hgt, hloose]
      omega
    · rw [hloose, hstrict]

/-- The order operators and `===` compare two whole numbers exactly; `==` holds if they round to the
same number. The operators agree if the numbers are the same or do not round to one, so always up
to `2^53`. -/
theorem comparisons_int (a b : Int64) :
    BinaryOp.lt.apply (int a) (int b) = .bool (decide (a.toInt < b.toInt)) ∧
    BinaryOp.ltEq.apply (int a) (int b) = .bool (decide (a.toInt ≤ b.toInt)) ∧
    BinaryOp.gt.apply (int a) (int b) = .bool (decide (b.toInt < a.toInt)) ∧
    BinaryOp.gtEq.apply (int a) (int b) = .bool (decide (b.toInt ≤ a.toInt)) ∧
    BinaryOp.strictEq.apply (int a) (int b) = .bool (decide (a = b)) ∧
    BinaryOp.looseEq.apply (int a) (int b) =
      .bool (decide (nearestInt a.toInt = nearestInt b.toInt)) ∧
    (Consistent (int a) (int b) ↔ a = b ∨ nearestInt a.toInt ≠ nearestInt b.toInt) ∧
    (a.toInt.natAbs ≤ 2 ^ 53 → b.toInt.natAbs ≤ 2 ^ 53 → Consistent (int a) (int b)) := by
  refine ⟨lt_int a b, ltEq_int a b, gt_int a b, gtEq_int a b, strictEq_int a b, looseEq_int a b,
    consistent_int_iff a b, ?_⟩
  intro ha hb
  rw [consistent_int_iff, nearestInt_of_le ha, nearestInt_of_le hb, Ne, Int64.toInt_inj]
  exact em (a = b)

/-- The end of the range in which every whole number is its own float. -/
theorem comparisons_int_last :
    (9007199254740992 : Int64).toInt.natAbs ≤ 2 ^ 53 ∧
      (9007199254740991 : Int64).toInt.natAbs ≤ 2 ^ 53 ∧
      Consistent (int 9007199254740992) (int 9007199254740991) := by
  have hlast : (9007199254740992 : Int64).toInt.natAbs ≤ 2 ^ 53 := by decide
  have hbefore : (9007199254740991 : Int64).toInt.natAbs ≤ 2 ^ 53 := by decide
  obtain ⟨-, -, -, -, -, -, -, hsmall⟩ := comparisons_int 9007199254740992 9007199254740991
  exact ⟨hlast, hbefore, hsmall hlast hbefore⟩

/-- The first two numbers that one float stands for: the first is less than the second, and equal
to it. -/
theorem not_consistent_beyond_digits :
    BinaryOp.lt.IsTrue (int 9007199254740992) (int 9007199254740993) ∧
      BinaryOp.looseEq.IsTrue (int 9007199254740992) (int 9007199254740993) ∧
      ¬ BinaryOp.strictEq.IsTrue (int 9007199254740992) (int 9007199254740993) ∧
      ¬ Consistent (int 9007199254740992) (int 9007199254740993) := by
  have hnear : nearestInt 9007199254740992 = nearestInt 9007199254740993 := by decide +kernel
  have hlt := isTrue_iff (lt_int 9007199254740992 9007199254740993)
  have hloose := isTrue_iff (looseEq_int 9007199254740992 9007199254740993)
  have hstrict := isTrue_iff (strictEq_int 9007199254740992 9007199254740993)
  refine ⟨hlt.mpr (by decide), hloose.mpr hnear, ?_, ?_⟩
  · rw [hstrict]
    decide
  · rw [consistent_int_iff]
    rintro (heq | hne)
    · exact absurd heq (by decide)
    · exact hne hnear

end Value

end LiveMarkup
