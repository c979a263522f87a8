import IonPow.Classifier
import IonPow.Exponential

/-! `GetNextWorkRequiredOrig`, the legacy exponential retarget.

It finds the two most recent blocks that `IsProofOfStakeHeight` classifies as the requested
type with two `while` loops, each stepping back through `pprev` but stopping at genesis
whatever its type. The proof-of-work spacing is not capped, so a long spacing can wrap the
256-bit product; short of that wrap the retarget is the exact formula. -/

namespace IonPow

def lastBlockIndexOfType (params : Params) (fProofOfStake : Bool) :
    List CBlockIndex → List CBlockIndex
  | [] => []
  | [b] => [b]
  | b :: prev :: ancestors =>
    if isProofOfStakeHeight params (ancestors.length + 1) != fProofOfStake then
      lastBlockIndexOfType params fProofOfStake (prev :: ancestors)
    else b :: prev :: ancestors

def origTargetLimit (params : Params) (fProofOfStake : Bool) : ArithUint256 :=
  if fProofOfStake ∧ params.networkId = .main then
    BitVec.ofNat 256 0x00000fffffffffffffffffffffffffffffffffffffffffffffffffffffffffff
  else params.powLimit

def origActualSpacing (fProofOfStake : Bool) (nActualSpacing : Int) : Int :=
  if nActualSpacing < 0 then 64
  else if fProofOfStake ∧ nActualSpacing > 64 * 10 then 64 * 10
  else nActualSpacing

def getNextWorkRequiredOrig (params : Params) (pindexLast : List CBlockIndex)
    (fProofOfStake : Bool) : Result UInt32 :=
  if params.fPowNoRetargeting then
    match pindexLast with
    | [] => .error .nullDereference
    | last :: _ => .ok last.nBits
  else
    match pindexLast with
    | [] => .ok (getCompact (origTargetLimit params fProofOfStake))
    | _ :: _ =>
      match lastBlockIndexOfType params fProofOfStake pindexLast with
      | [] => .ok (getCompact (origTargetLimit params fProofOfStake))
      | prev :: prevAncestors =>
        match lastBlockIndexOfType params fProofOfStake prevAncestors with
        | [] => .ok (getCompact (origTargetLimit params fProofOfStake))
        | prevPrev :: _ =>
          exponentialRetarget (origTargetLimit params fProofOfStake) prev.nBits 10 64
            (origActualSpacing fProofOfStake (prev.getBlockTime - prevPrev.getBlockTime))

theorem getNextWorkRequiredOrig_within {params : Params} {pindexLast : List CBlockIndex}
    {fProofOfStake : Bool} {nNew : UInt32} (retargeting : params.fPowNoRetargeting = false)
    (returned : getNextWorkRequiredOrig params pindexLast fProofOfStake = .ok nNew) :
    CompactWithin nNew (origTargetLimit params fProofOfStake) := by
  simp only [getNextWorkRequiredOrig, retargeting, Bool.false_eq_true, if_false] at returned
  split at returned
  · cases returned; exact getCompact_within _
  · split at returned
    · cases returned; exact getCompact_within _
    · split at returned
      · cases returned; exact getCompact_within _
      · exact exponentialRetarget_within returned

theorem getNextWorkRequiredOrig_canonical {params : Params} {pindexLast : List CBlockIndex}
    {fProofOfStake : Bool} {nNew : UInt32} (retargeting : params.fPowNoRetargeting = false)
    (returned : getNextWorkRequiredOrig params pindexLast fProofOfStake = .ok nNew) :
    CompactCanonical nNew := by
  simp only [getNextWorkRequiredOrig, retargeting, Bool.false_eq_true, if_false] at returned
  repeat' split at returned
  all_goals first
    | exact exponentialRetarget_canonical returned
    | (cases returned; exact compactCanonical_getCompact _)

/-- With proof-of-stake from height 1, only block 1 of a two-block chain is a stake block, yet
the retarget does not return the ceiling: the second loop stops at the proof-of-work genesis
and the null checks after the loops never fire. -/
theorem getNextWorkRequiredOrig_single_stake_block :
    (List.range 2).countP (fun h => isProofOfStakeHeight
        { lateEraParams with posStartHeight := 1 } h) = 1 ∧
      getNextWorkRequiredOrig { lateEraParams with posStartHeight := 1 }
        [⟨0, 64, 0x1d00ffff⟩, ⟨0, 0, 0x1e0fffff⟩] true = .ok 0x1d00ffff ∧
      getCompact (origTargetLimit { lateEraParams with posStartHeight := 1 } true) =
        0x1e0fffff := by
  decide

/-- A proof-of-work spacing of `2 ^ 20` seconds after a target of `2 ^ 235`: the exact formula
gives the ceiling, but the 256-bit product wraps and the retarget returns a harder target. -/
theorem getNextWorkRequiredOrig_product_wraps :
    (setCompact 0x1e080000).value.toNat = 2 ^ 235 ∧
      getNextWorkRequiredOrig lateEraParams
        [⟨0, 1048576, 0x1e080000⟩, ⟨0, 0, 0x1e0fffff⟩] false = .ok 0x1e068ba2 ∧
      exponentialRetargetExact lateEraParams.powLimit (2 ^ 235) 10 64 1048576 = 0x1e0fffff := by
  decide

theorem origActualSpacing_nonneg (fProofOfStake : Bool) (nActualSpacing : Int) :
    0 ≤ origActualSpacing fProofOfStake nActualSpacing := by
  unfold origActualSpacing; split_ifs <;> omega

/-- The legacy retarget computes the exact formula from the two blocks it retargets from
whenever the scaled product does not wrap 256 bits: the wrap is the only way it leaves the
formula. -/
theorem getNextWorkRequiredOrig_eq_exact (params : Params) (pindexLast : List CBlockIndex)
    (fProofOfStake : Bool) (prev prevPrev : CBlockIndex) (prevAncestors older : List CBlockIndex)
    (retargeting : params.fPowNoRetargeting = false)
    (first : lastBlockIndexOfType params fProofOfStake pindexLast = prev :: prevAncestors)
    (second : lastBlockIndexOfType params fProofOfStake prevAncestors = prevPrev :: older)
    (fits : 9 * 64 +
      2 * origActualSpacing fProofOfStake (prev.getBlockTime - prevPrev.getBlockTime) < 2 ^ 32)
    (noWrap : (setCompact prev.nBits).value.toNat * (9 * 64 +
      2 * origActualSpacing fProofOfStake (prev.getBlockTime - prevPrev.getBlockTime)).toNat <
        2 ^ 256) :
    getNextWorkRequiredOrig params pindexLast fProofOfStake =
      .ok (exponentialRetargetExact (origTargetLimit params fProofOfStake)
        (setCompact prev.nBits).value.toNat 10 64
        (origActualSpacing fProofOfStake (prev.getBlockTime - prevPrev.getBlockTime))) := by
  cases pindexLast with
  | nil => cases first
  | cons tip ancestors =>
    simp only [getNextWorkRequiredOrig, retargeting, Bool.false_eq_true, if_false, first, second]
    have nonnegative := origActualSpacing_nonneg fProofOfStake
      (prev.getBlockTime - prevPrev.getBlockTime)
    generalize origActualSpacing fProofOfStake (prev.getBlockTime - prevPrev.getBlockTime) = A
      at fits noWrap nonnegative ⊢
    have multiplier : (10 - 1) * 64 + A + A = 9 * 64 + 2 * A := by ring
    rw [← multiplier] at fits noWrap
    exact exponentialRetarget_eq_exact (by omega) fits (by norm_num) (by norm_num) noWrap

theorem getNextWorkRequiredOrig_eq_exact_three_blocks :
    getNextWorkRequiredOrig lateEraParams
        [⟨0, 128, 0x1d00ffff⟩, ⟨0, 64, 0x1d00ffff⟩, ⟨0, 0, 0x1d00ffff⟩] false =
      .ok (exponentialRetargetExact (origTargetLimit lateEraParams false)
        (setCompact 0x1d00ffff).value.toNat 10 64
        (origActualSpacing false (CBlockIndex.getBlockTime ⟨0, 128, 0x1d00ffff⟩ -
          CBlockIndex.getBlockTime ⟨0, 64, 0x1d00ffff⟩))) :=
  getNextWorkRequiredOrig_eq_exact lateEraParams _ false ⟨0, 128, 0x1d00ffff⟩
    ⟨0, 64, 0x1d00ffff⟩ [⟨0, 64, 0x1d00ffff⟩, ⟨0, 0, 0x1d00ffff⟩] [⟨0, 0, 0x1d00ffff⟩] rfl
    (by decide) (by decide) (by decide) (by decide)

theorem getNextWorkRequiredOrig_returns (params : Params) (last : CBlockIndex)
    (ancestors : List CBlockIndex) (fProofOfStake : Bool) :
    ∃ nNew, getNextWorkRequiredOrig params (last :: ancestors) fProofOfStake = .ok nNew := by
  unfold getNextWorkRequiredOrig
  split
  · exact ⟨_, rfl⟩
  · dsimp only
    split
    · exact ⟨_, rfl⟩
    · split
      · exact ⟨_, rfl⟩
      · exact exponentialRetarget_returns (by norm_num) (by norm_num)

/-- At equilibrium the legacy retarget does not drift: when the two blocks it retargets from
are the nominal 64 seconds apart, the next target decodes exactly to the previous one. -/
theorem getNextWorkRequiredOrig_no_drift (params : Params) (pindexLast : List CBlockIndex)
    (fProofOfStake : Bool) (prev prevPrev : CBlockIndex) (prevAncestors older : List CBlockIndex)
    (retargeting : params.fPowNoRetargeting = false)
    (first : lastBlockIndexOfType params fProofOfStake pindexLast = prev :: prevAncestors)
    (second : lastBlockIndexOfType params fProofOfStake prevAncestors = prevPrev :: older)
    (nominal : prev.getBlockTime - prevPrev.getBlockTime = 64)
    (valid : (setCompact prev.nBits).fOverflow = false)
    (positive : 0 < (setCompact prev.nBits).value)
    (within : (setCompact prev.nBits).value ≤ origTargetLimit params fProofOfStake)
    (noWrap : (setCompact prev.nBits).value.toNat * 704 < 2 ^ 256) :
    ∃ nNew, getNextWorkRequiredOrig params pindexLast fProofOfStake = .ok nNew ∧
      setCompact nNew = ⟨(setCompact prev.nBits).value, false, false⟩ := by
  obtain ⟨nNew, returned, decoded⟩ := @exponentialRetarget_at_equilibrium
    (origTargetLimit params fProofOfStake) prev.nBits 10 64 valid positive within (by norm_num)
    (by norm_num) (by simpa using noWrap)
  refine ⟨nNew, ?_, decoded⟩
  cases pindexLast with
  | nil => cases first
  | cons tip ancestors =>
    simp only [getNextWorkRequiredOrig, retargeting, Bool.false_eq_true, if_false, first, second,
      origActualSpacing, nominal]
    simpa using returned

theorem getNextWorkRequiredOrig_no_drift_three_blocks :
    ∃ nNew, getNextWorkRequiredOrig lateEraParams
        [⟨0, 128, 0x1d00ffff⟩, ⟨0, 64, 0x1d00ffff⟩, ⟨0, 0, 0x1d00ffff⟩] false = .ok nNew ∧
      setCompact nNew = ⟨(setCompact 0x1d00ffff).value, false, false⟩ :=
  getNextWorkRequiredOrig_no_drift lateEraParams _ false ⟨0, 128, 0x1d00ffff⟩ ⟨0, 64, 0x1d00ffff⟩
    [⟨0, 64, 0x1d00ffff⟩, ⟨0, 0, 0x1d00ffff⟩] [⟨0, 0, 0x1d00ffff⟩] rfl (by decide) (by decide)
    (by decide) (by decide) (by decide) (by decide) (by decide)

theorem origActualSpacing_le_of_stake (nActualSpacing : Int) :
    origActualSpacing true nActualSpacing ≤ 64 * 10 := by
  simp only [origActualSpacing, true_and]; split_ifs <;> omega

/-- The legacy retarget moves the target by a bounded factor per block. A spacing is never
negative here, so the next target is never harder than `9 / 11` of the previous one, up to
the rounding of packing. For proof-of-stake the spacing is also capped at 640 seconds, so,
from a target of at least 2, the next is never easier than `29 / 11` of it. -/
theorem getNextWorkRequiredOrig_between (params : Params) (pindexLast : List CBlockIndex)
    (fProofOfStake : Bool) (prev prevPrev : CBlockIndex) (prevAncestors older : List CBlockIndex)
    (retargeting : params.fPowNoRetargeting = false)
    (first : lastBlockIndexOfType params fProofOfStake pindexLast = prev :: prevAncestors)
    (second : lastBlockIndexOfType params fProofOfStake prevAncestors = prevPrev :: older)
    (within : (setCompact prev.nBits).value ≤ origTargetLimit params fProofOfStake)
    (fits : 9 * 64 +
      2 * origActualSpacing fProofOfStake (prev.getBlockTime - prevPrev.getBlockTime) < 2 ^ 32)
    (noWrap : (setCompact prev.nBits).value.toNat * (9 * 64 +
      2 * origActualSpacing fProofOfStake (prev.getBlockTime - prevPrev.getBlockTime)).toNat <
        2 ^ 256) :
    ∃ nNew, getNextWorkRequiredOrig params pindexLast fProofOfStake = .ok nNew ∧
      9 * (setCompact prev.nBits).value.toNat / 11 ≤
        (setCompact nNew).value.toNat + (setCompact nNew).value.toNat / 2 ^ 15 ∧
      (fProofOfStake = true → 2 ≤ (setCompact prev.nBits).value.toNat →
        (setCompact nNew).value.toNat ≤ 29 * (setCompact prev.nBits).value.toNat / 11) := by
  cases pindexLast with
  | nil => cases first
  | cons tip ancestors =>
    simp only [getNextWorkRequiredOrig, retargeting, Bool.false_eq_true, if_false, first, second]
    have nonnegative := origActualSpacing_nonneg fProofOfStake
      (prev.getBlockTime - prevPrev.getBlockTime)
    have capped (stake : fProofOfStake = true) :=
      stake ▸ origActualSpacing_le_of_stake (prev.getBlockTime - prevPrev.getBlockTime)
    generalize origActualSpacing fProofOfStake (prev.getBlockTime - prevPrev.getBlockTime) = A
      at fits noWrap nonnegative capped ⊢
    have multiplier : (10 - 1) * 64 + A + A = 9 * 64 + 2 * A := by ring
    rw [← multiplier] at fits noWrap
    obtain ⟨nNew, returned⟩ := @exponentialRetarget_returns (origTargetLimit params fProofOfStake)
      prev.nBits 10 64 A (by norm_num) (by norm_num)
    refine ⟨nNew, returned, exponentialRetarget_ge_fraction within (by norm_num) (by norm_num)
      nonnegative fits (by norm_num) noWrap returned, fun stake atLeast => ?_⟩
    have bounded : ((10 - 1) * 64 + A + A).toNat ≤ 29 * 64 := by have := capped stake; omega
    have quotient := exponentialRetarget_le_quotient (by norm_num) (by norm_num) (by omega) fits
      (le_trans (by norm_num) (Nat.mul_le_mul atLeast (show 9 * 64 ≤ ((10 - 1) * 64 + A + A).toNat
        by omega))) noWrap returned
    calc (setCompact nNew).value.toNat
        ≤ (setCompact prev.nBits).value.toNat * ((10 - 1) * 64 + A + A).toNat / (11 * 64) :=
          quotient
      _ ≤ (setCompact prev.nBits).value.toNat * (29 * 64) / (11 * 64) :=
          Nat.div_le_div_right (Nat.mul_le_mul_left _ bounded)
      _ = 29 * (setCompact prev.nBits).value.toNat / 11 := by
          rw [← Nat.mul_assoc, Nat.mul_div_mul_right _ _ (by norm_num), Nat.mul_comm]

theorem getNextWorkRequiredOrig_between_three_stake_blocks :
    ∃ nNew, getNextWorkRequiredOrig { lateEraParams with posStartHeight := 0 }
        [⟨0, 128, 0x1d00ffff⟩, ⟨0, 64, 0x1d00ffff⟩, ⟨0, 0, 0x1d00ffff⟩] true = .ok nNew ∧
      9 * (setCompact 0x1d00ffff).value.toNat / 11 ≤
        (setCompact nNew).value.toNat + (setCompact nNew).value.toNat / 2 ^ 15 ∧
      (true = true → 2 ≤ (setCompact 0x1d00ffff).value.toNat →
        (setCompact nNew).value.toNat ≤ 29 * (setCompact 0x1d00ffff).value.toNat / 11) :=
  getNextWorkRequiredOrig_between { lateEraParams with posStartHeight := 0 } _ true
    ⟨0, 128, 0x1d00ffff⟩ ⟨0, 64, 0x1d00ffff⟩ [⟨0, 64, 0x1d00ffff⟩, ⟨0, 0, 0x1d00ffff⟩]
    [⟨0, 0, 0x1d00ffff⟩] rfl (by decide) (by decide) (by decide) (by decide) (by decide)

theorem getNextWorkRequiredOrig_ne_zero {params : Params} {pindexLast : List CBlockIndex}
    {fProofOfStake : Bool} {nNew : UInt32} (retargeting : params.fPowNoRetargeting = false)
    (limit : origTargetLimit params fProofOfStake ≠ 0)
    (returned : getNextWorkRequiredOrig params pindexLast fProofOfStake = .ok nNew) :
    (setCompact nNew).value ≠ 0 := by
  simp only [getNextWorkRequiredOrig, retargeting, Bool.false_eq_true, if_false] at returned
  split at returned
  · cases returned; exact getCompact_ne_zero limit
  · split at returned
    · cases returned; exact getCompact_ne_zero limit
    · split at returned
      · cases returned; exact getCompact_ne_zero limit
      · exact exponentialRetarget_ne_zero limit returned

end IonPow
