import IonPow.Chain

/-! ppcoin's exponential retarget, shared by the legacy, PIVX-era and hybrid proof-of-stake
retargets: the previous target scaled by
`((nInterval - 1) * nTargetSpacing + 2 * nActualSpacing) / ((nInterval + 1) * nTargetSpacing)`
in 256-bit arithmetic, then replaced by the ceiling when it is zero or above it.

While the multiplier fits 32 bits and the product does not wrap, the body computes that
formula exactly (`exponentialRetarget_eq_exact`). It then keeps the target at equilibrium,
never hardens it after an interval of at least the target spacing, and never eases it after
a shorter one. -/

namespace IonPow

def exponentialRetarget (bnTargetLimit : ArithUint256) (nBits : UInt32)
    (nInterval nTargetSpacing nActualSpacing : Int) : Result UInt32 := do
  let bnNew := mulU32 (setCompact nBits).value
    ((nInterval - 1) * nTargetSpacing + nActualSpacing + nActualSpacing)
  let bnNew ← divU64 bnNew ((nInterval + 1) * nTargetSpacing)
  pure (getCompact (if bnNew ≤ 0 ∨ bnNew > bnTargetLimit then bnTargetLimit else bnNew))

def exponentialRetargetExact (bnTargetLimit : ArithUint256) (old : Nat)
    (nInterval nTargetSpacing nActualSpacing : Int) : UInt32 :=
  let r := old * ((nInterval - 1) * nTargetSpacing + 2 * nActualSpacing) /
    ((nInterval + 1) * nTargetSpacing)
  getCompact (if r = 0 ∨ r > bnTargetLimit.toNat then bnTargetLimit else BitVec.ofNat 256 r.toNat)

theorem exponentialRetarget_eq_exact {bnTargetLimit : ArithUint256} {nBits : UInt32}
    {nInterval nTargetSpacing nActualSpacing : Int}
    (nonnegative : 0 ≤ (nInterval - 1) * nTargetSpacing + nActualSpacing + nActualSpacing)
    (high : (nInterval - 1) * nTargetSpacing + nActualSpacing + nActualSpacing < 2 ^ 32)
    (low : 0 < (nInterval + 1) * nTargetSpacing)
    (divisorHigh : (nInterval + 1) * nTargetSpacing < 2 ^ 64)
    (noWrap : (setCompact nBits).value.toNat *
      ((nInterval - 1) * nTargetSpacing + nActualSpacing + nActualSpacing).toNat < 2 ^ 256) :
    exponentialRetarget bnTargetLimit nBits nInterval nTargetSpacing nActualSpacing =
      .ok (exponentialRetargetExact bnTargetLimit (setCompact nBits).value.toNat nInterval
        nTargetSpacing nActualSpacing) := by
  have twice : (nInterval - 1) * nTargetSpacing + 2 * nActualSpacing =
      (nInterval - 1) * nTargetSpacing + nActualSpacing + nActualSpacing := by ring
  simp only [exponentialRetarget, divU64_mulU32_eq_ok nonnegative high low divisorHigh noWrap, bind,
    Except.bind, exponentialRetargetExact, twice]
  generalize (nInterval - 1) * nTargetSpacing + nActualSpacing + nActualSpacing = m at *
  generalize (nInterval + 1) * nTargetSpacing = d at *
  generalize (setCompact nBits).value.toNat = old at *
  have quotient : (old : Int) * m / d = ((old * m.toNat / d.toNat : Nat) : Int) := by
    rw [Int.natCast_div, Nat.cast_mul, Int.toNat_of_nonneg nonnegative, Int.toNat_of_nonneg low.le]
  have value : (BitVec.ofNat 256 (old * m.toNat / d.toNat)).toNat = old * m.toNat / d.toNat := by
    rw [BitVec.toNat_ofNat, Nat.mod_eq_of_lt (lt_of_le_of_lt (Nat.div_le_self _ _) noWrap)]
  rw [quotient, Int.toNat_natCast]
  congr 2
  simp only [BitVec.le_def, gt_iff_lt, BitVec.lt_def, value, BitVec.ofNat_eq_ofNat,
    BitVec.toNat_ofNat, Nat.zero_mod, Nat.le_zero, Nat.cast_eq_zero, Nat.cast_lt]

theorem clamp_le (bnNew bnTargetLimit : ArithUint256) :
    (if bnNew ≤ 0 ∨ bnNew > bnTargetLimit then bnTargetLimit else bnNew) ≤ bnTargetLimit := by
  split
  · exact BitVec.le_refl _
  · rename_i within
    exact BitVec.not_lt.mp (fun above => within (.inr above))

theorem exponentialRetarget_within {bnTargetLimit : ArithUint256} {nBits nNew : UInt32}
    {nInterval nTargetSpacing nActualSpacing : Int}
    (returned : exponentialRetarget bnTargetLimit nBits nInterval nTargetSpacing nActualSpacing =
      .ok nNew) :
    CompactWithin nNew bnTargetLimit := by
  simp only [exponentialRetarget, bind, Except.bind] at returned
  split at returned
  · cases returned
  · cases returned
    exact (getCompact_within _).mono (clamp_le _ _)

theorem exponentialRetarget_canonical {bnTargetLimit : ArithUint256} {nBits nNew : UInt32}
    {nInterval nTargetSpacing nActualSpacing : Int}
    (returned : exponentialRetarget bnTargetLimit nBits nInterval nTargetSpacing nActualSpacing =
      .ok nNew) :
    CompactCanonical nNew := by
  simp only [exponentialRetarget, bind, Except.bind] at returned
  split at returned
  · cases returned
  · cases returned; exact compactCanonical_getCompact _

theorem exponentialRetarget_returns {bnTargetLimit : ArithUint256} {nBits : UInt32}
    {nInterval nTargetSpacing nActualSpacing : Int}
    (low : 0 < (nInterval + 1) * nTargetSpacing)
    (high : (nInterval + 1) * nTargetSpacing < 2 ^ 64) :
    ∃ nNew, exponentialRetarget bnTargetLimit nBits nInterval nTargetSpacing nActualSpacing =
      .ok nNew := by
  simp only [exponentialRetarget, divU64_eq_ok low high]
  exact ⟨_, rfl⟩

theorem exponentialRetarget_at_equilibrium {bnTargetLimit : ArithUint256} {nBits : UInt32}
    {nInterval nTargetSpacing : Int} (valid : (setCompact nBits).fOverflow = false)
    (positive : 0 < (setCompact nBits).value) (within : (setCompact nBits).value ≤ bnTargetLimit)
    (low : 0 < (nInterval + 1) * nTargetSpacing) (high : (nInterval + 1) * nTargetSpacing < 2 ^ 32)
    (noWrap : (setCompact nBits).value.toNat * ((nInterval + 1) * nTargetSpacing).toNat < 2 ^ 256) :
    ∃ nNew, exponentialRetarget bnTargetLimit nBits nInterval nTargetSpacing nTargetSpacing =
      .ok nNew ∧ setCompact nNew = ⟨(setCompact nBits).value, false, false⟩ := by
  have multiplier : (nInterval - 1) * nTargetSpacing + nTargetSpacing + nTargetSpacing =
      (nInterval + 1) * nTargetSpacing := by ring
  have unchanged : BitVec.ofNat 256
      ((mulU32 (setCompact nBits).value ((nInterval + 1) * nTargetSpacing)).toNat /
        ((nInterval + 1) * nTargetSpacing).toNat) = (setCompact nBits).value := by
    rw [mulU32_toNat low.le high, Nat.mod_eq_of_lt noWrap, Nat.mul_div_cancel _ (by omega)]
    simp
  have kept : ¬ ((setCompact nBits).value ≤ 0 ∨ (setCompact nBits).value > bnTargetLimit) :=
    fun clamped => clamped.elim (BitVec.not_le.mpr positive) (BitVec.not_lt.mpr within)
  simp only [exponentialRetarget, multiplier, divU64_eq_ok low (by omega), unchanged, bind,
    Except.bind, if_neg kept]
  exact ⟨_, rfl, setCompact_getCompact_value valid⟩

theorem exponentialRetarget_slower {bnTargetLimit : ArithUint256} {nBits nNew : UInt32}
    {nInterval nTargetSpacing nActualSpacing : Int} (valid : (setCompact nBits).fOverflow = false)
    (within : (setCompact nBits).value ≤ bnTargetLimit)
    (low : 0 < (nInterval + 1) * nTargetSpacing)
    (slower : (nInterval + 1) * nTargetSpacing ≤
      (nInterval - 1) * nTargetSpacing + nActualSpacing + nActualSpacing)
    (high : (nInterval - 1) * nTargetSpacing + nActualSpacing + nActualSpacing < 2 ^ 32)
    (noWrap : (setCompact nBits).value.toNat *
      ((nInterval - 1) * nTargetSpacing + nActualSpacing + nActualSpacing).toNat < 2 ^ 256)
    (returned : exponentialRetarget bnTargetLimit nBits nInterval nTargetSpacing nActualSpacing =
      .ok nNew) :
    (setCompact nBits).value ≤ (setCompact nNew).value := by
  simp only [exponentialRetarget, divU64_mulU32_eq_ok (by omega) high low (by omega) noWrap, bind,
    Except.bind] at returned
  cases returned
  refine le_getCompact_of_le valid ?_
  split
  · exact within
  · rw [BitVec.le_def, BitVec.toNat_ofNat,
      Nat.mod_eq_of_lt (lt_of_le_of_lt (Nat.div_le_self _ _) noWrap),
      Nat.le_div_iff_mul_le (by omega)]
    exact Nat.mul_le_mul_left _ (by omega)

theorem exponentialRetarget_faster {bnTargetLimit : ArithUint256} {nBits nNew : UInt32}
    {nInterval nTargetSpacing nActualSpacing : Int}
    (within : (setCompact nBits).value ≤ bnTargetLimit)
    (low : 0 < (nInterval + 1) * nTargetSpacing) (high : (nInterval + 1) * nTargetSpacing < 2 ^ 64)
    (nonnegative : 0 ≤ (nInterval - 1) * nTargetSpacing + nActualSpacing + nActualSpacing)
    (multiplierHigh : (nInterval - 1) * nTargetSpacing + nActualSpacing + nActualSpacing < 2 ^ 32)
    (faster : (nInterval - 1) * nTargetSpacing + nActualSpacing + nActualSpacing ≤
      (nInterval + 1) * nTargetSpacing)
    (positive : ((nInterval + 1) * nTargetSpacing).toNat ≤ (setCompact nBits).value.toNat *
      ((nInterval - 1) * nTargetSpacing + nActualSpacing + nActualSpacing).toNat)
    (noWrap : (setCompact nBits).value.toNat *
      ((nInterval - 1) * nTargetSpacing + nActualSpacing + nActualSpacing).toNat < 2 ^ 256)
    (returned : exponentialRetarget bnTargetLimit nBits nInterval nTargetSpacing nActualSpacing =
      .ok nNew) :
    (setCompact nNew).value ≤ (setCompact nBits).value := by
  simp only [exponentialRetarget, divU64_mulU32_eq_ok nonnegative multiplierHigh low high noWrap,
    bind, Except.bind] at returned
  cases returned
  generalize (nInterval - 1) * nTargetSpacing + nActualSpacing + nActualSpacing = m at *
  generalize (nInterval + 1) * nTargetSpacing = d at *
  generalize (setCompact nBits).value = old at *
  have atMost : old.toNat * m.toNat / d.toNat ≤ old.toNat :=
    Nat.div_le_of_le_mul (by rw [Nat.mul_comm d.toNat]; exact Nat.mul_le_mul_left _ (by omega))
  have nonzero : 0 < old.toNat * m.toNat / d.toNat := Nat.div_pos positive (by omega)
  have value : (BitVec.ofNat 256 (old.toNat * m.toNat / d.toNat)).toNat =
      old.toNat * m.toNat / d.toNat := by
    rw [BitVec.toNat_ofNat, Nat.mod_eq_of_lt (lt_of_le_of_lt atMost old.isLt)]
  have kept : ¬ (BitVec.ofNat 256 (old.toNat * m.toNat / d.toNat) ≤ 0 ∨
      BitVec.ofNat 256 (old.toNat * m.toNat / d.toNat) > bnTargetLimit) := by
    simp only [BitVec.le_def, gt_iff_lt, BitVec.lt_def, value, BitVec.ofNat_eq_ofNat,
      BitVec.toNat_ofNat, Nat.zero_mod]
    have := BitVec.le_def.mp within
    omega
  rw [if_neg kept]
  exact BitVec.le_trans (getCompact_within _).2.2 (by rw [BitVec.le_def, value]; exact atMost)

theorem exponentialRetarget_le_quotient {bnTargetLimit : ArithUint256} {nBits nNew : UInt32}
    {nInterval nTargetSpacing nActualSpacing : Int}
    (low : 0 < (nInterval + 1) * nTargetSpacing) (high : (nInterval + 1) * nTargetSpacing < 2 ^ 64)
    (nonnegative : 0 ≤ (nInterval - 1) * nTargetSpacing + nActualSpacing + nActualSpacing)
    (multiplierHigh : (nInterval - 1) * nTargetSpacing + nActualSpacing + nActualSpacing < 2 ^ 32)
    (positive : ((nInterval + 1) * nTargetSpacing).toNat ≤ (setCompact nBits).value.toNat *
      ((nInterval - 1) * nTargetSpacing + nActualSpacing + nActualSpacing).toNat)
    (noWrap : (setCompact nBits).value.toNat *
      ((nInterval - 1) * nTargetSpacing + nActualSpacing + nActualSpacing).toNat < 2 ^ 256)
    (returned : exponentialRetarget bnTargetLimit nBits nInterval nTargetSpacing nActualSpacing =
      .ok nNew) :
    (setCompact nNew).value.toNat ≤ (setCompact nBits).value.toNat *
      ((nInterval - 1) * nTargetSpacing + nActualSpacing + nActualSpacing).toNat /
        ((nInterval + 1) * nTargetSpacing).toNat := by
  simp only [exponentialRetarget, divU64_mulU32_eq_ok nonnegative multiplierHigh low high noWrap,
    bind, Except.bind] at returned
  cases returned
  generalize (nInterval - 1) * nTargetSpacing + nActualSpacing + nActualSpacing = m at *
  generalize (nInterval + 1) * nTargetSpacing = d at *
  generalize (setCompact nBits).value = old at *
  have nonzero : 0 < old.toNat * m.toNat / d.toNat := Nat.div_pos positive (by omega)
  have value : (BitVec.ofNat 256 (old.toNat * m.toNat / d.toNat)).toNat =
      old.toNat * m.toNat / d.toNat := by
    rw [BitVec.toNat_ofNat, Nat.mod_eq_of_lt (lt_of_le_of_lt (Nat.div_le_self _ _) noWrap)]
  refine le_trans (BitVec.le_def.mp (getCompact_within _).2.2) ?_
  split
  · rename_i replaced
    simp only [BitVec.le_def, gt_iff_lt, BitVec.lt_def, value, BitVec.ofNat_eq_ofNat,
      BitVec.toNat_ofNat, Nat.zero_mod] at replaced
    omega
  · exact value.le

theorem clamp_mono {a b : ArithUint256} (bnTargetLimit : ArithUint256) (positive : 0 < a.toNat)
    (le : a ≤ b) :
    (if a ≤ 0 ∨ a > bnTargetLimit then bnTargetLimit else a) ≤
      (if b ≤ 0 ∨ b > bnTargetLimit then bnTargetLimit else b) := by
  rw [BitVec.le_def] at le
  have zero : (0 : ArithUint256).toNat = 0 := rfl
  simp only [gt_iff_lt, BitVec.lt_def, BitVec.le_def, zero]
  split_ifs <;> omega

theorem exponentialRetarget_mono {bnTargetLimit : ArithUint256} {nBits nNew₁ nNew₂ : UInt32}
    {nInterval nTargetSpacing nActualSpacing₁ nActualSpacing₂ : Int}
    (low : 0 < (nInterval + 1) * nTargetSpacing) (high : (nInterval + 1) * nTargetSpacing < 2 ^ 64)
    (nonnegative : 0 ≤ (nInterval - 1) * nTargetSpacing + nActualSpacing₁ + nActualSpacing₁)
    (positive : ((nInterval + 1) * nTargetSpacing).toNat ≤ (setCompact nBits).value.toNat *
      ((nInterval - 1) * nTargetSpacing + nActualSpacing₁ + nActualSpacing₁).toNat)
    (slower : nActualSpacing₁ ≤ nActualSpacing₂)
    (multiplierHigh :
      (nInterval - 1) * nTargetSpacing + nActualSpacing₂ + nActualSpacing₂ < 2 ^ 32)
    (noWrap : (setCompact nBits).value.toNat *
      ((nInterval - 1) * nTargetSpacing + nActualSpacing₂ + nActualSpacing₂).toNat < 2 ^ 256)
    (returned₁ : exponentialRetarget bnTargetLimit nBits nInterval nTargetSpacing nActualSpacing₁ =
      .ok nNew₁)
    (returned₂ : exponentialRetarget bnTargetLimit nBits nInterval nTargetSpacing nActualSpacing₂ =
      .ok nNew₂) :
    (setCompact nNew₁).value ≤ (setCompact nNew₂).value := by
  have multipliers :
      ((nInterval - 1) * nTargetSpacing + nActualSpacing₁ + nActualSpacing₁).toNat ≤
        ((nInterval - 1) * nTargetSpacing + nActualSpacing₂ + nActualSpacing₂).toNat := by
    omega
  have noWrap₁ := lt_of_le_of_lt (Nat.mul_le_mul_left _ multipliers) noWrap
  simp only [exponentialRetarget, bind, Except.bind,
    divU64_mulU32_eq_ok nonnegative (by omega) low high noWrap₁,
    divU64_mulU32_eq_ok (by omega) multiplierHigh low high noWrap] at returned₁ returned₂
  cases returned₁
  cases returned₂
  generalize (nInterval + 1) * nTargetSpacing = d at *
  have fits₁ := lt_of_le_of_lt (Nat.div_le_self _ d.toNat) noWrap₁
  have fits₂ := lt_of_le_of_lt (Nat.div_le_self _ d.toNat) noWrap
  refine getCompact_mono (clamp_mono _ ?_ ?_)
  · rw [BitVec.toNat_ofNat, Nat.mod_eq_of_lt fits₁]
    exact Nat.div_pos positive (by omega)
  · rw [BitVec.le_def, BitVec.toNat_ofNat, BitVec.toNat_ofNat, Nat.mod_eq_of_lt fits₁,
      Nat.mod_eq_of_lt fits₂]
    exact Nat.div_le_div_right (Nat.mul_le_mul_left _ multipliers)

theorem exponentialRetarget_ge_fraction {bnTargetLimit : ArithUint256} {nBits nNew : UInt32}
    {nInterval nTargetSpacing nActualSpacing : Int}
    (within : (setCompact nBits).value ≤ bnTargetLimit) (interval : 1 ≤ nInterval)
    (spacing : 0 < nTargetSpacing) (nonnegative : 0 ≤ nActualSpacing)
    (high : (nInterval - 1) * nTargetSpacing + nActualSpacing + nActualSpacing < 2 ^ 32)
    (divisorHigh : (nInterval + 1) * nTargetSpacing < 2 ^ 64)
    (noWrap : (setCompact nBits).value.toNat *
      ((nInterval - 1) * nTargetSpacing + nActualSpacing + nActualSpacing).toNat < 2 ^ 256)
    (returned : exponentialRetarget bnTargetLimit nBits nInterval nTargetSpacing nActualSpacing =
      .ok nNew) :
    (nInterval - 1).toNat * (setCompact nBits).value.toNat / (nInterval + 1).toNat ≤
      (setCompact nNew).value.toNat + (setCompact nNew).value.toNat / 2 ^ 15 := by
  obtain ⟨n, below⟩ := Int.eq_ofNat_of_zero_le (sub_nonneg.2 interval)
  obtain rfl : nInterval = n + 1 := by omega
  obtain ⟨s, rfl⟩ := Int.eq_ofNat_of_zero_le spacing.le
  obtain ⟨a, rfl⟩ := Int.eq_ofNat_of_zero_le nonnegative
  have multiplier : ((n : Int) + 1 - 1) * s + a + a = ((n * s + a + a : Nat) : Int) := by
    push_cast; ring
  have divisor : ((n : Int) + 1 + 1) * s = (((n + 2) * s : Nat) : Int) := by push_cast; ring
  have positive : 0 < s := by exact_mod_cast spacing
  rw [multiplier] at high noWrap
  rw [divisor] at divisorHigh
  simp only [exponentialRetarget, multiplier, divisor] at returned
  simp only [divU64_mulU32_eq_ok (Int.natCast_nonneg _) high
    (Int.natCast_pos.2 (Nat.mul_pos (by omega) positive)) divisorHigh noWrap, bind, Except.bind,
    Int.toNat_natCast] at returned noWrap
  cases returned
  refine le_trans ?_ (le_getCompact_add_div _)
  rw [show ((n : Int) + 1 - 1).toNat = n by omega, show ((n : Int) + 1 + 1).toNat = n + 2 by omega]
  generalize (setCompact nBits).value = old at *
  have toOld : n * old.toNat / (n + 2) ≤ old.toNat :=
    Nat.div_le_of_le_mul (Nat.mul_le_mul_right _ (by omega))
  have toQuotient : n * old.toNat / (n + 2) ≤ old.toNat * (n * s + a + a) / ((n + 2) * s) :=
    calc n * old.toNat / (n + 2) = old.toNat * (n * s) / ((n + 2) * s) := by
          rw [← Nat.mul_div_mul_right _ _ positive]; congr 1; ring
      _ ≤ _ := Nat.div_le_div_right (Nat.mul_le_mul_left _ (by omega))
  split
  · exact le_trans toOld (BitVec.le_def.mp within)
  · rw [BitVec.toNat_ofNat, Nat.mod_eq_of_lt (lt_of_le_of_lt (Nat.div_le_self _ _) noWrap)]
    exact toQuotient

theorem exponentialRetarget_ne_zero {bnTargetLimit : ArithUint256} {nBits nNew : UInt32}
    {nInterval nTargetSpacing nActualSpacing : Int} (limit : bnTargetLimit ≠ 0)
    (returned : exponentialRetarget bnTargetLimit nBits nInterval nTargetSpacing nActualSpacing =
      .ok nNew) :
    (setCompact nNew).value ≠ 0 := by
  simp only [exponentialRetarget, bind, Except.bind] at returned
  split at returned
  · cases returned
  · cases returned
    refine getCompact_ne_zero ?_
    split
    · exact limit
    · rename_i kept
      intro zero
      exact kept (.inl (by rw [zero]; exact BitVec.le_refl _))

end IonPow
