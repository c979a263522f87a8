import IonPow.Average
import IonPow.Chain

/-! `HybridPoWDarkGravityWave`, the proof-of-work track of the hybrid era.

It averages the targets of the 24 most recent non-staking blocks, each found with
`GetHybridPrevIndex`, and rescales the average by the window's timespan against
`24 * nHybridPowTargetSpacing`, clamped to a factor of four either way. -/

namespace IonPow

def hybridPowLast (bits : BlockTypeBits) (params : Params) (pindexLastIn : List CBlockIndex) :
    List CBlockIndex :=
  match pindexLastIn with
  | [] => []
  | tip :: _ => if bits.isStaking tip then
      getHybridPrevIndex bits pindexLastIn false params.posPowStartHeight
    else pindexLastIn

def hybridPowMinDifficulty (bits : BlockTypeBits) (params : Params) (last : CBlockIndex)
    (lastAncestors : List CBlockIndex) : Option UInt32 :=
  if params.fPowAllowMinDifficultyBlocks then
    match getHybridPrevIndex bits (last :: lastAncestors) false params.posPowStartHeight with
    | [] => some (getCompact params.hybridPowLimit)
    | prev :: _ =>
      if last.getBlockTime > prev.getBlockTime + 2 * 60 * 60 then
        some (getCompact params.hybridPowLimit)
      else if last.getBlockTime > prev.getBlockTime + params.nPowTargetSpacing * 4 then
        let bnNew := mulU32 (setCompact last.nBits).value 10
        some (getCompact (if bnNew > params.hybridPowLimit then params.hybridPowLimit else bnNew))
      else none
  else none

def hybridPowAverage (bits : BlockTypeBits) (posPowStartHeight : Int) :
    Nat → Nat → ArithUint256 → CBlockIndex → List CBlockIndex → Option (ArithUint256 × CBlockIndex)
  | 0, _, avg, b, _ => some (avg, b)
  | remaining + 1, nCountBlocks, avg, b, ancestors =>
    let bnTarget := (setCompact b.nBits).value
    let avg := if nCountBlocks = 1 then bnTarget else averageStep avg bnTarget nCountBlocks
    if nCountBlocks ≠ 24 then
      match getHybridPrevIndex bits (b :: ancestors) false posPowStartHeight with
      | [] => none
      | next :: nextAncestors =>
        if (nextAncestors.length : Int) ≤ posPowStartHeight then none
        else hybridPowAverage bits posPowStartHeight remaining (nCountBlocks + 1) avg next
          nextAncestors
    else hybridPowAverage bits posPowStartHeight remaining (nCountBlocks + 1) avg b ancestors

def hybridPoWDarkGravityWave (bits : BlockTypeBits) (params : Params)
    (pindexLastIn : List CBlockIndex) : Result UInt32 :=
  match pindexLastIn with
  | [] => .error .nullDereference
  | _ :: _ =>
    match hybridPowLast bits params pindexLastIn with
    | [] => .ok (getCompact params.hybridPowLimit)
    | last :: lastAncestors =>
      if (lastAncestors.length : Int) < params.posPowStartHeight + 24 then
        .ok (getCompact params.hybridPowLimit)
      else
        match hybridPowMinDifficulty bits params last lastAncestors with
        | some nBits => .ok nBits
        | none =>
          match hybridPowAverage bits params.posPowStartHeight 24 1 0 last lastAncestors with
          | none => .ok (getCompact params.hybridPowLimit)
          | some (bnPastTargetAvg, first) =>
            rescaleAverage bnPastTargetAvg (last.getBlockTime - first.getBlockTime)
              (24 * params.nHybridPowTargetSpacing) 4 params.hybridPowLimit

theorem hybridPowMinDifficulty_within {bits : BlockTypeBits} {params : Params}
    {last : CBlockIndex} {lastAncestors : List CBlockIndex} {nNew : UInt32}
    (returned : hybridPowMinDifficulty bits params last lastAncestors = some nNew) :
    CompactWithin nNew params.hybridPowLimit := by
  unfold hybridPowMinDifficulty at returned
  split_ifs at returned
  split at returned
  · cases returned; exact getCompact_within _
  · split_ifs at returned with above
    · cases returned; exact getCompact_within _
    · cases returned
      exact (getCompact_within _).mono (cap_le _ _)

theorem hybridPoWDarkGravityWave_within {bits : BlockTypeBits} {params : Params}
    {pindexLastIn : List CBlockIndex} {nNew : UInt32}
    (returned : hybridPoWDarkGravityWave bits params pindexLastIn = .ok nNew) :
    CompactWithin nNew params.hybridPowLimit := by
  unfold hybridPoWDarkGravityWave at returned
  split at returned
  · cases returned
  split at returned
  · cases returned; exact getCompact_within _
  split_ifs at returned
  · cases returned; exact getCompact_within _
  split at returned
  · cases returned; exact hybridPowMinDifficulty_within ‹_›
  split at returned
  · cases returned; exact getCompact_within _
  · exact rescaleAverage_within returned

theorem hybridPowMinDifficulty_canonical {bits : BlockTypeBits} {params : Params}
    {last : CBlockIndex} {lastAncestors : List CBlockIndex} {nNew : UInt32}
    (returned : hybridPowMinDifficulty bits params last lastAncestors = some nNew) :
    CompactCanonical nNew := by
  unfold hybridPowMinDifficulty at returned
  split_ifs at returned
  split at returned
  · cases returned; exact compactCanonical_getCompact _
  · split_ifs at returned <;> cases returned <;> exact compactCanonical_getCompact _

theorem hybridPoWDarkGravityWave_canonical {bits : BlockTypeBits} {params : Params}
    {pindexLastIn : List CBlockIndex} {nNew : UInt32}
    (returned : hybridPoWDarkGravityWave bits params pindexLastIn = .ok nNew) :
    CompactCanonical nNew := by
  unfold hybridPoWDarkGravityWave at returned
  split at returned
  · cases returned
  split at returned
  · cases returned; exact compactCanonical_getCompact _
  split_ifs at returned
  · cases returned; exact compactCanonical_getCompact _
  split at returned
  · cases returned; exact hybridPowMinDifficulty_canonical ‹_›
  split at returned
  · cases returned; exact compactCanonical_getCompact _
  · exact rescaleAverage_canonical returned

theorem hybridPoWDarkGravityWave_stalled {bits : BlockTypeBits} {params : Params}
    {pindexLastIn lastAncestors prevAncestors : List CBlockIndex} {last prev : CBlockIndex}
    {nNew : UInt32} (allowed : params.fPowAllowMinDifficultyBlocks = true)
    (found : hybridPowLast bits params pindexLastIn = last :: lastAncestors)
    (previous : getHybridPrevIndex bits (last :: lastAncestors) false params.posPowStartHeight =
      prev :: prevAncestors)
    (stalled : last.getBlockTime > prev.getBlockTime + params.nPowTargetSpacing * 4)
    (noWrap : (setCompact last.nBits).value.toNat * 10 < 2 ^ 256)
    (returned : hybridPoWDarkGravityWave bits params pindexLastIn = .ok nNew) :
    min params.hybridPowLimit.toNat ((setCompact last.nBits).value.toNat * 10) ≤
      (setCompact nNew).value.toNat + (setCompact nNew).value.toNat / 2 ^ 15 := by
  have ceiling := (min_le_left _ ((setCompact last.nBits).value.toNat * 10)).trans
    (le_getCompact_add_div params.hybridPowLimit)
  cases pindexLastIn with
  | nil => cases returned
  | cons =>
    simp only [hybridPoWDarkGravityWave, found] at returned
    split_ifs at returned
    · cases returned; exact ceiling
    simp only [hybridPowMinDifficulty, allowed, if_true, previous, stalled] at returned
    split_ifs at returned <;> cases returned
    · exact ceiling
    · exact ceiling
    · refine le_trans ?_ (le_getCompact_add_div _)
      rw [mulU32_toNat (by norm_num) (by norm_num), show (10 : Int).toNat = 10 from rfl,
        Nat.mod_eq_of_lt noWrap]
      exact min_le_right _ _

theorem hybridPoWDarkGravityWave_returns {bits : BlockTypeBits} {params : Params}
    {tip : CBlockIndex} {ancestors : List CBlockIndex}
    (low : 0 < 24 * params.nHybridPowTargetSpacing)
    (high : 24 * params.nHybridPowTargetSpacing < 2 ^ 64) :
    ∃ nNew, hybridPoWDarkGravityWave bits params (tip :: ancestors) = .ok nNew := by
  unfold hybridPoWDarkGravityWave
  dsimp only
  split
  · exact ⟨_, rfl⟩
  split_ifs
  · exact ⟨_, rfl⟩
  split
  · exact ⟨_, rfl⟩
  split
  · exact ⟨_, rfl⟩
  · exact rescaleAverage_returns low high

end IonPow
