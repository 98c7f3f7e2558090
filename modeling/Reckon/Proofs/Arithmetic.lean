import Mathlib.Algebra.Ring.Int.Parity
import Reckon.Arithmetic

/-!
# What the operators compute

Division and exponentiation do not compute what they give in the obvious way: a quotient is checked
and a remainder is not, and most powers are never computed at all. Here both are compared with plain
arithmetic, for integers of any size.

* `IsTruncated` is the law of division with the quotient rounded toward zero. It has one solution
  (`IsTruncated.unique`), which is what `Int.tdiv` and `Int.tmod` give.
* `//` divides the magnitudes of the two numbers, which comes to the same by `tdiv_eq_magnitudes`.
  Among words, a quotient is no greater than its dividend, and `isWord_tdiv_iff` tells the one case in
  which the opposite of the dividend is no word.
* `power_eq_checked` says that the shortcuts of `power` change nothing. The cut at the exponent 31 is
  the longest possible, as -2 to the 31st is still a word; beyond it `not_isWord_pow` applies.
-/

namespace Reckon

/-! ## Failures -/

section Failures

variable {n : Int} {cause : RuntimeCause}

/-- The operation fails because its result is no word. -/
def Overflows (result : Except RuntimeCause Int) : Prop :=
  ∃ cause, result = .error cause ∧ cause.kind = .overflow

/-- The operation fails because its right operand is zero. -/
def DividesByZero (result : Except RuntimeCause Int) : Prop :=
  ∃ cause, result = .error cause ∧ cause.kind = .interpretation ∧ cause.message = "division by zero"

@[simp] theorem not_overflows_ok : ¬ Overflows (.ok n) := by
  rintro ⟨cause, h, -⟩
  cases h

@[simp] theorem overflows_error : Overflows (.error cause) ↔ cause.kind = .overflow := by
  constructor
  · rintro ⟨cause', h, hkind⟩
    cases h
    exact hkind
  · exact fun hkind => ⟨cause, rfl, hkind⟩

theorem overflows_checked : Overflows (checked .resultOverflow n) ↔ ¬ IsWord n := by
  unfold checked
  split
  · next h => exact iff_of_false not_overflows_ok (not_not_intro h)
  · next h => exact iff_of_true (overflows_error.2 rfl) h

theorem dividesByZero_divisionByZero : DividesByZero (.error .divisionByZero) :=
  ⟨.divisionByZero, rfl, rfl, rfl⟩

theorem not_dividesByZero_ok : ¬ DividesByZero (.ok n) := by
  rintro ⟨cause, h, -⟩
  cases h

theorem not_dividesByZero_checked : ¬ DividesByZero (checked .resultOverflow n) := by
  unfold checked
  split
  · exact not_dividesByZero_ok
  · rintro ⟨cause, h, hkind, -⟩
    cases h
    cases hkind

end Failures

/-! ## Division -/

section Division

variable {a b q r q' r' : Int}

/-- Dividing `a` by `b` gives `q` and leaves `r`, where `q` is rounded toward zero. -/
structure IsTruncated (a b q r : Int) : Prop where
  /-- Quotient and remainder make up the dividend. -/
  sum : q * b + r = a
  /-- The remainder is smaller than the divisor. -/
  lt : r.natAbs < b.natAbs
  /-- If anything is left, it has the sign of the dividend. -/
  sign : r = 0 ∨ r.sign = a.sign

theorem IsTruncated.nonneg (h : IsTruncated a b q r) (ha : 0 ≤ a) : 0 ≤ r := by
  rcases h.sign with hr | hsign
  · omega
  · rw [← Int.sign_nonneg_iff, hsign]
    exact Int.sign_nonneg_iff.2 ha

theorem IsTruncated.nonpos (h : IsTruncated a b q r) (ha : a ≤ 0) : r ≤ 0 := by
  rcases h.sign with hr | hsign
  · omega
  · rw [← Int.sign_nonpos_iff, hsign]
    exact Int.sign_nonpos_iff.2 ha

/-- **A division has one result.** Two remainders differ by a multiple of the divisor, and they lie on
the same side of zero. -/
theorem IsTruncated.unique (h : IsTruncated a b q r) (h' : IsTruncated a b q' r') :
    q' = q ∧ r' = r := by
  have hmul : b * (q - q') = r' - r := by
    have hsum := h.sum.trans h'.sum.symm
    rw [Int.mul_sub, Int.mul_comm b q, Int.mul_comm b q']
    omega
  have hlt : (r' - r).natAbs < b.natAbs := by
    have hr := h.lt
    have hr' := h'.lt
    rcases Int.le_total 0 a with ha | ha
    · have := h.nonneg ha
      have := h'.nonneg ha
      omega
    · have := h.nonpos ha
      have := h'.nonpos ha
      omega
  have hzero : r' - r = 0 := Int.eq_zero_of_dvd_of_natAbs_lt_natAbs ⟨q - q', hmul.symm⟩ hlt
  rw [hzero, Int.mul_eq_zero] at hmul
  have hb : b ≠ 0 := by
    have := h.lt
    omega
  have hq := hmul.resolve_left hb
  constructor
  · omega
  · omega

theorem isTruncated_tdiv (hb : b ≠ 0) : IsTruncated a b (a.tdiv b) (a.tmod b) where
  sum := Int.tdiv_mul_add_tmod a b
  lt := by
    rw [Int.natAbs_tmod]
    exact Nat.mod_lt _ (Int.natAbs_pos.2 hb)
  sign := by
    by_cases hdvd : b ∣ a
    · exact .inl (Int.tmod_eq_zero_of_dvd hdvd)
    · right
      rw [Int.sign_tmod, if_neg hdvd]

/-- Only the least word has an opposite that is no word. -/
theorem isWord_tdiv_iff (ha : IsWord a) : IsWord (a.tdiv b) ↔ ¬ (a = minWord ∧ b = -1) := by
  have habs : (a.tdiv b).natAbs = a.natAbs / b.natAbs := Int.natAbs_tdiv a b
  unfold IsWord minWord maxWord at *
  constructor
  · rintro hq ⟨rfl, rfl⟩
    exact absurd hq (by decide)
  · intro hmin
    by_cases hb : b = -1
    · subst hb
      rw [Int.tdiv_neg, Int.tdiv_one]
      omega
    · by_cases hone : b = 1
      · subst hone
        rwa [Int.tdiv_one]
      · -- the quotient is zero, or at most half of the dividend
        have hhalf : a.natAbs / b.natAbs ≤ a.natAbs / 2 := by
          rcases Nat.eq_zero_or_pos b.natAbs with hzero | hpos
          · rw [hzero, Nat.div_zero]
            exact Nat.zero_le _
          · exact Nat.div_le_div_left (by omega) (by omega)
        omega

/-- **Division is truncated division**, for integers of any size. Where the divisor is not zero there
are just one quotient and one remainder that make up the dividend, the remainder smaller than the
divisor and of the dividend's sign; `%` gives this remainder, and `//` gives this quotient unless it is
no word. Among words, that is so for the least word divided by -1 alone. A remainder never overflows,
and both operations fail for a division by zero just if the divisor is zero. -/
theorem Operator.division_isTruncated (a b : Int) :
    (b ≠ 0 → ∃ q r, IsTruncated a b q r ∧ (∀ q' r', IsTruncated a b q' r' → q' = q ∧ r' = r) ∧
      q = quotientOfMagnitudes a b ∧ mod.apply a b = .ok r ∧
      (IsWord q → div.apply a b = .ok q) ∧ (Overflows (div.apply a b) ↔ ¬ IsWord q)) ∧
    (IsWord a → (Overflows (div.apply a b) ↔ a = minWord ∧ b = -1)) ∧
    ¬ Overflows (mod.apply a b) ∧
    (DividesByZero (div.apply a b) ↔ b = 0) ∧ (DividesByZero (mod.apply a b) ↔ b = 0) := by
  by_cases hb : b = 0
  · have hdiv : div.apply a b = .error .divisionByZero := if_pos hb
    have hmod : mod.apply a b = .error .divisionByZero := if_pos hb
    have hover : ¬ Overflows (.error .divisionByZero) := by simp [RuntimeCause.kind]
    rw [hdiv, hmod]
    refine ⟨fun hne => absurd hb hne, fun _ => iff_of_false hover ?_, hover, ?_, ?_⟩
    · rintro ⟨-, rfl⟩
      cases hb
    · exact iff_of_true dividesByZero_divisionByZero hb
    · exact iff_of_true dividesByZero_divisionByZero hb
  · have hdiv : div.apply a b = checked .resultOverflow (a.tdiv b) := apply_div hb
    have hmod : mod.apply a b = .ok (a.tmod b) := apply_mod hb
    have hlaw : IsTruncated a b (a.tdiv b) (a.tmod b) := isTruncated_tdiv hb
    rw [hdiv, hmod]
    refine ⟨fun _ => ⟨a.tdiv b, a.tmod b, hlaw, fun q' r' h => hlaw.unique h, tdiv_eq_magnitudes a b,
      rfl, fun hq => if_pos hq, overflows_checked⟩, fun ha => ?_, not_overflows_ok, ?_, ?_⟩
    · rw [overflows_checked, isWord_tdiv_iff ha, not_not]
    · exact iff_of_false not_dividesByZero_checked hb
    · exact iff_of_false not_dividesByZero_ok hb

/-- -7 is three times -2, and -1 is left. -/
theorem Operator.division_isTruncated_negative :
    div.apply (-7) (-2) = .ok 3 ∧ mod.apply (-7) (-2) = .ok (-1) ∧
      (∀ q r, IsTruncated (-7) (-2) q r → q = 3 ∧ r = -1) ∧
      Overflows (div.apply minWord (-1)) ∧ ¬ Overflows (mod.apply minWord (-1)) := by
  obtain ⟨hlaw, -⟩ := division_isTruncated (-7) (-2)
  obtain ⟨q, r, hqr, hunique, hq, hmod, hdiv, -⟩ := hlaw (by decide)
  obtain rfl : q = 3 := hq
  obtain rfl : r = -1 := by
    have := hqr.sum
    omega
  obtain ⟨-, hmin, hrem, -⟩ := division_isTruncated minWord (-1)
  exact ⟨hdiv (by decide), hmod, hunique, (hmin (by decide)).2 ⟨rfl, rfl⟩, hrem⟩

end Division

/-! ## Exponentiation -/

section Exponentiation

variable {base : Int} {n : Nat}

/-- **Powers grow out of the words.** -/
theorem not_isWord_pow (hbase : 2 ≤ base.natAbs) (hn : 31 < n) : ¬ IsWord (base ^ n) := by
  have hgrow : 2 ^ 32 ≤ (base ^ n).natAbs := by
    rw [Int.natAbs_pow]
    calc 2 ^ 32 ≤ 2 ^ n := Nat.pow_le_pow_right (by decide) hn
      _ ≤ base.natAbs ^ n := Nat.pow_le_pow_left hbase n
  unfold IsWord minWord maxWord
  omega

theorem checked_of_isWord (failure : RuntimeCause) {m : Int} (h : IsWord m) :
    checked failure m = .ok m := if_pos h

/-- Zero and one are all their powers but the zeroth, which is one. -/
theorem pow_of_zero_or_one (h : base = 0 ∨ base = 1) (n : Nat) :
    base ^ n = if n = 0 then 1 else base := by
  split
  · next hn => rw [hn, pow_zero]
  · next hn =>
    rcases h with rfl | rfl
    · exact zero_pow hn
    · exact one_pow n

theorem pow_of_neg_one (n : Nat) : (-1 : Int) ^ n = if n % 2 = 0 then 1 else -1 := by
  split
  · next hn => exact (Nat.even_iff.2 hn).neg_one_pow
  · next hn => exact (Nat.not_even_iff_odd.1 (mt Nat.even_iff.1 hn)).neg_one_pow

/-- **The shortcuts change nothing**: a power is what it would be if it were computed and checked. -/
theorem power_eq_checked (base : Int) (n : Nat) :
    power base n = checked .resultOverflow (base ^ n) := by
  unfold power
  rw [if_neg (by omega)]
  by_cases hsmall : base = 0 ∨ base = 1
  · have hword : IsWord (base ^ n) := by
      rw [pow_of_zero_or_one hsmall]
      split
      · decide
      · rcases hsmall with rfl | rfl <;> decide
    rw [if_pos hsmall, checked_of_isWord _ hword, pow_of_zero_or_one hsmall]
    simp only [Int.natCast_eq_zero]
  rw [if_neg hsmall]
  by_cases hneg : base = -1
  · subst hneg
    have hword : IsWord ((-1) ^ n) := by
      rw [pow_of_neg_one]
      split <;> decide
    have hparity : (n : Int) % 2 = 0 ↔ n % 2 = 0 := by omega
    rw [if_pos rfl, checked_of_isWord _ hword, pow_of_neg_one]
    simp only [hparity]
  rw [if_neg hneg]
  by_cases hn : 31 < n
  · have hbase : 2 ≤ base.natAbs := by omega
    rw [if_pos (by omega), checked, if_neg (not_isWord_pow hbase hn)]
  · rw [if_neg (by omega), Int.toNat_natCast]
    rfl

/-- **Exponentiation is exact**, for integers of any size: with a negative exponent it gives 0, and
otherwise the power, where 0 to the zeroth is 1, or an overflow if the power is no word. -/
theorem Operator.power_isExact (base exponent : Int) :
    (exponent < 0 → pow.apply base exponent = .ok 0) ∧
    (0 ≤ exponent →
      (IsWord (base ^ exponent.toNat) → pow.apply base exponent = .ok (base ^ exponent.toNat)) ∧
      (¬ IsWord (base ^ exponent.toNat) → Overflows (pow.apply base exponent))) := by
  refine ⟨fun h => if_pos h, fun h => ?_⟩
  have hpow : pow.apply base exponent = checked .resultOverflow (base ^ exponent.toNat) := by
    rw [← power_eq_checked, Int.toNat_of_nonneg h]
    rfl
  rw [hpow]
  exact ⟨fun hword => checked_of_isWord _ hword, overflows_checked.2⟩

/-- The least word is the last power of -2 that is a word. -/
theorem Operator.power_isExact_minusTwo :
    pow.apply (-2) 31 = .ok minWord ∧ Overflows (pow.apply (-2) 32) ∧ pow.apply 0 0 = .ok 1 ∧
      pow.apply 7 (-1) = .ok 0 :=
  ⟨((power_isExact (-2) 31).2 (by decide)).1 (by decide),
    ((power_isExact (-2) 32).2 (by decide)).2 (by decide),
    ((power_isExact 0 0).2 (by decide)).1 (by decide), (power_isExact 7 (-1)).1 (by decide)⟩

end Exponentiation

end Reckon
