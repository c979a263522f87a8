import IonPow.HybridPow
import IonPow.HybridPos
import IonPow.Pivx
import IonPow.Midas
import IonPow.Orig

/-! `GetNextWorkRequired`, the entry point that picks the retarget by height, and
`CheckProofOfWork`.

The devnet minimum-difficulty check and the later era thresholds compare the previous block's
height; the hybrid-era check compares the new block's height. -/

namespace IonPow

def getNextWorkRequired (bits : BlockTypeBits) (params : Params)
    (pindexLast : List CBlockIndex) (fHybridPow : Bool) : Result UInt32 :=
  match pindexLast with
  | [] => .error .nullDereference
  | _ :: ancestors =>
    let nHeight : Int := ancestors.length + 1
    let fProofOfStake := isProofOfStakeHeight params nHeight
    if (ancestors.length : Int) < params.nMinimumDifficultyBlocks then
      .ok (getCompact params.powLimit)
    else if nHeight ≥ params.posPowStartHeight then
      if fHybridPow then hybridPoWDarkGravityWave bits params pindexLast
      else hybridPoSPIVXDifficulty bits params pindexLast
    else if (ancestors.length : Int) ≥ params.dgwDifficultyStartHeight then
      getNextWorkRequiredPivx params pindexLast fProofOfStake
    else if (ancestors.length : Int) ≥ params.midasStartHeight then
      getNextWorkRequiredMidas params pindexLast fProofOfStake
    else getNextWorkRequiredOrig params pindexLast fProofOfStake

def checkProofOfWork (hash : ArithUint256) (nBits : UInt32) (params : Params) : Bool :=
  let bnTarget := setCompact nBits
  if bnTarget.fNegative || bnTarget.value == 0 || bnTarget.fOverflow ||
      bnTarget.value > params.powLimit then false
  else if hash > bnTarget.value then false
  else true

theorem checkProofOfWork_eq_true {hash : ArithUint256} {nBits : UInt32} {params : Params} :
    checkProofOfWork hash nBits params = true ↔ CompactWithin nBits params.powLimit ∧
      (setCompact nBits).value ≠ 0 ∧ hash ≤ (setCompact nBits).value := by
  simp only [checkProofOfWork, CompactWithin]
  split_ifs with range above
  · simp only [Bool.false_eq_true, false_iff, not_and]
    rintro ⟨negative, overflow, within⟩ nonzero -
    simp [negative, overflow, BitVec.not_lt.mpr within] at range
    exact nonzero range
  all_goals simp_all [BitVec.not_lt]

/-- Staking from `POSPOWStartHeight` = 1 while `POSStartHeight` = 100: the proof-of-stake track
of a chain whose tip at height 2 stakes reaches the end of `HybridPoSPIVXDifficulty` without a
`return`. -/
theorem getNextWorkRequired_runs_off_hybridPos :
    getNextWorkRequired ⟨1, 1⟩ { lateEraParams with posPowStartHeight := 1, posStartHeight := 100 }
      [⟨1, 128, 0x1d00ffff⟩, ⟨0, 64, 0x1d00ffff⟩, ⟨0, 0, 0x1d00ffff⟩] false =
      .error .missingReturn := by
  decide

/-- The parameters under which no signed `int64_t` expression of the retargets leaves its range
and the `uint64_t` divisors of the averaged-window and exponential retargets are nonzero: those
three spacings positive and below `2 ^ 56`, so that `96 S` and `41 S` plus two block gaps stay
below `2 ^ 63`; `nPowTargetSpacing` below `2 ^ 56` in size; the Midas spacing and timespan below
`2 ^ 24` in size, so that with `int` heights the Midas products stay below `2 ^ 63`. -/
def Params.SpacingsInRange (params : Params) : Prop :=
  0 < params.nPosTargetSpacing ∧ params.nPosTargetSpacing < 2 ^ 56 ∧
    0 < params.nHybridPowTargetSpacing ∧ params.nHybridPowTargetSpacing < 2 ^ 56 ∧
    0 < params.nHybridPosTargetSpacing ∧ params.nHybridPosTargetSpacing < 2 ^ 56 ∧
    params.nPowTargetSpacing.natAbs < 2 ^ 56 ∧ params.nPosTargetSpacingMidas.natAbs < 2 ^ 24 ∧
    params.nPosTargetTimespanMidas.natAbs < 2 ^ 24

instance (params : Params) : Decidable params.SpacingsInRange :=
  inferInstanceAs (Decidable (_ ∧ _))

/-- Parameters in range on a chain whose heights, with the `+ 3` of the testnet exception, fit
an `int`: the inputs on which no integer expression of `pow.cpp` overflows. -/
def Params.NoOverflow (params : Params) (pindexLast : List CBlockIndex) : Prop :=
  params.SpacingsInRange ∧ pindexLast.length + 2 < 2 ^ 31

instance (params : Params) (pindexLast : List CBlockIndex) :
    Decidable (params.NoOverflow pindexLast) :=
  inferInstanceAs (Decidable (_ ∧ _))

/-- Where no integer overflows, `GetNextWorkRequired` on a chain faults in two places only: the
proof-of-stake track runs off the end of `HybridPoSPIVXDifficulty` when its staking block is
above `POSPOWStartHeight` but not above `POSStartHeight`, and the Midas retarget divides by
zero. -/
theorem getNextWorkRequired_fault_cases (bits : BlockTypeBits) (params : Params)
    (tip : CBlockIndex) (ancestors : List CBlockIndex) (fHybridPow : Bool) (e : Fault)
    (inRange : params.NoOverflow (tip :: ancestors))
    (faulted : getNextWorkRequired bits params (tip :: ancestors) fHybridPow = .error e) :
    (e = .missingReturn ∧ fHybridPow = false ∧
      params.posPowStartHeight ≤ (ancestors.length : Int) + 1 ∧
      ∃ last lastAncestors, hybridPosLast bits params (tip :: ancestors) = last :: lastAncestors ∧
        params.posPowStartHeight < lastAncestors.length ∧
        (lastAncestors.length : Int) ≤ params.posStartHeight) ∨
    (e = .divisionByZero ∧ (ancestors.length : Int) + 1 < params.posPowStartHeight ∧
      (ancestors.length : Int) < params.dgwDifficultyStartHeight ∧
      params.midasStartHeight ≤ ancestors.length) := by
  obtain ⟨⟨posLow, posHigh, powLow, powHigh, stakeLow, stakeHigh, -⟩, -⟩ := inRange
  simp only [getNextWorkRequired] at faulted
  split_ifs at faulted with minimum hybrid pow averaged midas
  · obtain ⟨_, returned⟩ :=
      @hybridPoWDarkGravityWave_returns bits params tip ancestors (by omega) (by omega)
    rw [returned] at faulted; cases faulted
  · obtain ⟨missing, chosen⟩ := hybridPoSPIVXDifficulty_fault (by omega) (by omega) faulted
    exact .inl ⟨missing, by simpa using pow, hybrid, chosen⟩
  · obtain ⟨_, returned⟩ := @getNextWorkRequiredPivx_returns params tip ancestors
      (isProofOfStakeHeight params ((ancestors.length : Int) + 1)) posLow (by omega)
    rw [returned] at faulted; cases faulted
  · exact .inr ⟨getNextWorkRequiredMidas_faultsOnly _ _ _ e faulted, by omega, by omega, midas⟩
  · obtain ⟨_, returned⟩ := getNextWorkRequiredOrig_returns params tip ancestors
      (isProofOfStakeHeight params ((ancestors.length : Int) + 1))
    rw [returned] at faulted; cases faulted

theorem getNextWorkRequired_fault_cases_hybrid_gap :
    (Fault.missingReturn = .missingReturn ∧ false = false ∧
      (1 : Int) ≤ ([⟨0, 64, 0x1d00ffff⟩, ⟨0, 0, 0x1d00ffff⟩] : List CBlockIndex).length + 1 ∧
      ∃ last lastAncestors, hybridPosLast ⟨1, 1⟩
          { lateEraParams with posPowStartHeight := 1, posStartHeight := 100 }
          [⟨1, 128, 0x1d00ffff⟩, ⟨0, 64, 0x1d00ffff⟩, ⟨0, 0, 0x1d00ffff⟩] =
          last :: lastAncestors ∧
        (1 : Int) < lastAncestors.length ∧ (lastAncestors.length : Int) ≤ 100) ∨
    (Fault.missingReturn = .divisionByZero ∧
      (([⟨0, 64, 0x1d00ffff⟩, ⟨0, 0, 0x1d00ffff⟩] : List CBlockIndex).length : Int) + 1 < 1 ∧
      (([⟨0, 64, 0x1d00ffff⟩, ⟨0, 0, 0x1d00ffff⟩] : List CBlockIndex).length : Int) < 1000 ∧
      (1000 : Int) ≤ ([⟨0, 64, 0x1d00ffff⟩, ⟨0, 0, 0x1d00ffff⟩] : List CBlockIndex).length) :=
  getNextWorkRequired_fault_cases ⟨1, 1⟩
    { lateEraParams with posPowStartHeight := 1, posStartHeight := 100 } ⟨1, 128, 0x1d00ffff⟩
    [⟨0, 64, 0x1d00ffff⟩, ⟨0, 0, 0x1d00ffff⟩] false .missingReturn (by decide) (by decide)

end IonPow
