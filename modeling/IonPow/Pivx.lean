import IonPow.Average
import IonPow.Exponential

/-! `GetNextWorkRequiredPivx`, the single-track retarget between `DGWDifficultyStartHeight`
and the hybrid era.

Past `POSStartHeight` (and, on the current testnet, for the last blocks before it) it is the
exponential retarget over a 40-block interval. Otherwise it averages the targets of up to 24
blocks back from the tip and rescales the average by the summed block intervals against
`CountBlocks * nPosTargetSpacing`, clamped to a factor of three either way. -/

namespace IonPow

structure PivxWindow where
  countBlocks : Nat
  pastDifficultyAverage : ArithUint256
  pastDifficultyAveragePrev : ArithUint256
  lastBlockTime : Int
  nActualTimespan : Int
  deriving DecidableEq, Repr

def PivxWindow.read (window : PivxWindow) (blockReading : CBlockIndex) : PivxWindow :=
  let countBlocks := window.countBlocks + 1
  let bnTarget := (setCompact blockReading.nBits).value
  let average := if countBlocks = 1 then bnTarget
    else averageStep window.pastDifficultyAveragePrev bnTarget countBlocks
  { countBlocks
    pastDifficultyAverage := if countBlocks ≤ 24 then average else window.pastDifficultyAverage
    pastDifficultyAveragePrev :=
      if countBlocks ≤ 24 then average else window.pastDifficultyAveragePrev
    lastBlockTime := blockReading.getBlockTime
    nActualTimespan := if window.lastBlockTime > 0 then
        window.nActualTimespan + (window.lastBlockTime - blockReading.getBlockTime)
      else window.nActualTimespan }

def pivxLoop : Nat → PivxWindow → List CBlockIndex → PivxWindow
  | _, window, [] => window
  | _, window, [_] => window
  | i, window, blockReading :: prev :: ancestors =>
    if i > 24 then window else pivxLoop (i + 1) (window.read blockReading) (prev :: ancestors)

def pivxActualSpacing (last : CBlockIndex) (ancestors : List CBlockIndex) : Int :=
  let nActualSpacing := match ancestors with
    | [] => 0
    | prev :: _ => last.getBlockTime - prev.getBlockTime
  if nActualSpacing < 0 then 1 else nActualSpacing

def getNextWorkRequiredPivx (params : Params) (pindexLast : List CBlockIndex)
    (fProofOfStake : Bool) : Result UInt32 :=
  if params.fPowNoRetargeting then
    match pindexLast with
    | [] => .error .nullDereference
    | last :: _ => .ok last.nBits
  else
    match pindexLast with
    | [] => .ok (getCompact params.powLimit)
    | last :: ancestors =>
      if ancestors.length = 0 ∨ (ancestors.length : Int) < params.dgwDifficultyStartHeight + 24
      then .ok (getCompact params.powLimit)
      else
        let bnTargetLimit := params.targetLimit fProofOfStake
        if (ancestors.length : Int) > params.posStartHeight then
          exponentialRetarget bnTargetLimit last.nBits (Int.tdiv (60 * 40) 60) 60
            (pivxActualSpacing last ancestors)
        else if params.networkId = .testnet ∧ (ancestors.length : Int) + 3 > params.posStartHeight
        then
          exponentialRetarget params.posLimit last.nBits (Int.tdiv (60 * 40) 60) 60
            (pivxActualSpacing last ancestors)
        else
          let window := pivxLoop 1 ⟨0, 0, 0, 0, 0⟩ pindexLast
          rescaleAverage window.pastDifficultyAverage window.nActualTimespan
            (window.countBlocks * params.nPosTargetSpacing) 3 bnTargetLimit

def pivxTargetLimit (params : Params) (pindexLast : List CBlockIndex) (fProofOfStake : Bool) :
    ArithUint256 :=
  match pindexLast with
  | [] => params.powLimit
  | _ :: ancestors =>
    if ancestors.length = 0 ∨ (ancestors.length : Int) < params.dgwDifficultyStartHeight + 24
    then params.powLimit
    else if ¬ (ancestors.length : Int) > params.posStartHeight ∧ params.networkId = .testnet ∧
        (ancestors.length : Int) + 3 > params.posStartHeight
    then params.posLimit
    else params.targetLimit fProofOfStake

theorem getNextWorkRequiredPivx_within {params : Params} {pindexLast : List CBlockIndex}
    {fProofOfStake : Bool} {nNew : UInt32} (retargeting : params.fPowNoRetargeting = false)
    (returned : getNextWorkRequiredPivx params pindexLast fProofOfStake = .ok nNew) :
    CompactWithin nNew (pivxTargetLimit params pindexLast fProofOfStake) := by
  simp only [getNextWorkRequiredPivx, retargeting, Bool.false_eq_true, if_false] at returned
  cases pindexLast with
  | nil => cases returned; exact getCompact_within _
  | cons last ancestors =>
    dsimp only at returned
    simp only [pivxTargetLimit]
    by_cases short :
        ancestors.length = 0 ∨ (ancestors.length : Int) < params.dgwDifficultyStartHeight + 24
    · rw [if_pos short] at returned ⊢
      cases returned; exact getCompact_within _
    rw [if_neg short] at returned ⊢
    by_cases late : (ancestors.length : Int) > params.posStartHeight
    · rw [if_pos late] at returned
      simpa [late] using exponentialRetarget_within returned
    rw [if_neg late] at returned
    by_cases exception :
        params.networkId = .testnet ∧ (ancestors.length : Int) + 3 > params.posStartHeight
    · rw [if_pos exception] at returned
      simpa [late, exception] using exponentialRetarget_within returned
    · rw [if_neg exception] at returned
      simpa [late, exception] using rescaleAverage_within returned

theorem getNextWorkRequiredPivx_canonical {params : Params} {pindexLast : List CBlockIndex}
    {fProofOfStake : Bool} {nNew : UInt32} (retargeting : params.fPowNoRetargeting = false)
    (returned : getNextWorkRequiredPivx params pindexLast fProofOfStake = .ok nNew) :
    CompactCanonical nNew := by
  simp only [getNextWorkRequiredPivx, retargeting, Bool.false_eq_true, if_false] at returned
  cases pindexLast with
  | nil => cases returned; exact compactCanonical_getCompact _
  | cons last ancestors =>
    dsimp only at returned
    split_ifs at returned with short late exception
    · cases returned; exact compactCanonical_getCompact _
    · exact exponentialRetarget_canonical returned
    · exact exponentialRetarget_canonical returned
    · exact rescaleAverage_canonical returned

@[simp] theorem PivxWindow.read_countBlocks (window : PivxWindow) (blockReading : CBlockIndex) :
    (window.read blockReading).countBlocks = window.countBlocks + 1 := rfl

theorem pivxLoop_countBlocks : ∀ (i : Nat) (window : PivxWindow) (pindex : List CBlockIndex),
    window.countBlocks ≤ (pivxLoop i window pindex).countBlocks ∧
      (pivxLoop i window pindex).countBlocks ≤ window.countBlocks + (25 - i) ∧
      (i ≤ 24 → 2 ≤ pindex.length → window.countBlocks < (pivxLoop i window pindex).countBlocks)
  | _, _, [] => by simp [pivxLoop]
  | _, _, [_] => by simp [pivxLoop]
  | i, window, blockReading :: prev :: ancestors => by
    by_cases stop : i > 24
    · simp only [pivxLoop, if_pos stop]; omega
    · have rest := pivxLoop_countBlocks (i + 1) (window.read blockReading) (prev :: ancestors)
      simp only [pivxLoop, if_neg stop, PivxWindow.read_countBlocks] at rest ⊢
      omega

theorem getNextWorkRequiredPivx_returns {params : Params} {last : CBlockIndex}
    {ancestors : List CBlockIndex} {fProofOfStake : Bool} (low : 0 < params.nPosTargetSpacing)
    (high : 24 * params.nPosTargetSpacing < 2 ^ 64) :
    ∃ nNew, getNextWorkRequiredPivx params (last :: ancestors) fProofOfStake = .ok nNew := by
  unfold getNextWorkRequiredPivx
  split
  · exact ⟨_, rfl⟩
  dsimp only
  split_ifs with short
  · exact ⟨_, rfl⟩
  · exact exponentialRetarget_returns (by decide) (by decide)
  · exact exponentialRetarget_returns (by decide) (by decide)
  · obtain ⟨-, atMost, atLeast⟩ := pivxLoop_countBlocks 1 ⟨0, 0, 0, 0, 0⟩ (last :: ancestors)
    have counted := atLeast (by norm_num) (by simp only [List.length_cons]; omega)
    set countBlocks := (pivxLoop 1 ⟨0, 0, 0, 0, 0⟩ (last :: ancestors)).countBlocks
    have window : (countBlocks : Int) * params.nPosTargetSpacing ≤ 24 * params.nPosTargetSpacing :=
      Int.mul_le_mul_of_nonneg_right (by simp at atMost; omega) low.le
    exact rescaleAverage_returns (Int.mul_pos (by simp at counted; omega) low) (by omega)

theorem getNextWorkRequiredPivx_ne_zero_of_late {params : Params} {last : CBlockIndex}
    {ancestors : List CBlockIndex} {fProofOfStake : Bool} {nNew : UInt32}
    (retargeting : params.fPowNoRetargeting = false)
    (late : params.posStartHeight < ancestors.length) (powLimit : params.powLimit ≠ 0)
    (limit : params.targetLimit fProofOfStake ≠ 0)
    (returned : getNextWorkRequiredPivx params (last :: ancestors) fProofOfStake = .ok nNew) :
    (setCompact nNew).value ≠ 0 := by
  simp only [getNextWorkRequiredPivx, retargeting, Bool.false_eq_true, if_false,
    if_pos (show (ancestors.length : Int) > params.posStartHeight by omega)] at returned
  split_ifs at returned
  · cases returned; exact getCompact_ne_zero powLimit
  · exact exponentialRetarget_ne_zero limit returned

end IonPow
