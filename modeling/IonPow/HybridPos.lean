import IonPow.Exponential

/-! `HybridPoSPIVXDifficulty`, the proof-of-stake track of the hybrid era.

It retargets from the newest staking block with the exponential formula over a 40-block
interval. The formula sits under `if (pindexLast->nHeight > params.POSStartHeight)` with no
`else`, so a staking block between `POSPOWStartHeight` and `POSStartHeight` runs off the end
of the function. -/

namespace IonPow

def hybridPosLast (bits : BlockTypeBits) (params : Params) (pindexLastIn : List CBlockIndex) :
    List CBlockIndex :=
  match pindexLastIn with
  | [] => []
  | tip :: _ => if bits.isStaking tip then pindexLastIn
    else getHybridPrevIndex bits pindexLastIn true params.posPowStartHeight

def hybridPosRetarget (bits : BlockTypeBits) (params : Params) :
    List CBlockIndex → Result UInt32
  | [] => .ok (getCompact params.posLimit)
  | last :: lastAncestors =>
    if (lastAncestors.length : Int) ≤ params.posPowStartHeight then
      .ok (getCompact params.posLimit)
    else if params.fPowNoRetargeting then .ok last.nBits
    else if (lastAncestors.length : Int) > params.posStartHeight then
      let nActualSpacing :=
        match getHybridPrevIndex bits (last :: lastAncestors) true params.posPowStartHeight with
        | [] => 0
        | prev :: _ => last.getBlockTime - prev.getBlockTime
      exponentialRetarget params.posLimit last.nBits 40 params.nHybridPosTargetSpacing
        (if nActualSpacing < 0 then 1 else nActualSpacing)
    else .error .missingReturn

def hybridPoSPIVXDifficulty (bits : BlockTypeBits) (params : Params)
    (pindexLastIn : List CBlockIndex) : Result UInt32 :=
  match pindexLastIn with
  | [] => .error .nullDereference
  | _ :: _ => hybridPosRetarget bits params (hybridPosLast bits params pindexLastIn)

theorem hybridPosRetarget_within {bits : BlockTypeBits} {params : Params}
    {pindexLast : List CBlockIndex} {nNew : UInt32}
    (retargeting : params.fPowNoRetargeting = false)
    (returned : hybridPosRetarget bits params pindexLast = .ok nNew) :
    CompactWithin nNew params.posLimit := by
  cases pindexLast with
  | nil => cases returned; exact getCompact_within _
  | cons last lastAncestors =>
    simp only [hybridPosRetarget, retargeting, Bool.false_eq_true, if_false] at returned
    split_ifs at returned <;>
      first
      | exact exponentialRetarget_within returned
      | (cases returned; exact getCompact_within _)

theorem hybridPoSPIVXDifficulty_within {bits : BlockTypeBits} {params : Params}
    {pindexLastIn : List CBlockIndex} {nNew : UInt32}
    (retargeting : params.fPowNoRetargeting = false)
    (returned : hybridPoSPIVXDifficulty bits params pindexLastIn = .ok nNew) :
    CompactWithin nNew params.posLimit := by
  cases pindexLastIn with
  | nil => cases returned
  | cons => exact hybridPosRetarget_within retargeting returned

theorem hybridPosRetarget_canonical {bits : BlockTypeBits} {params : Params}
    {pindexLast : List CBlockIndex} {nNew : UInt32}
    (retargeting : params.fPowNoRetargeting = false)
    (returned : hybridPosRetarget bits params pindexLast = .ok nNew) :
    CompactCanonical nNew := by
  cases pindexLast with
  | nil => cases returned; exact compactCanonical_getCompact _
  | cons last lastAncestors =>
    simp only [hybridPosRetarget, retargeting, Bool.false_eq_true, if_false] at returned
    split_ifs at returned <;>
      first
      | exact exponentialRetarget_canonical returned
      | (cases returned; exact compactCanonical_getCompact _)

theorem hybridPoSPIVXDifficulty_canonical {bits : BlockTypeBits} {params : Params}
    {pindexLastIn : List CBlockIndex} {nNew : UInt32}
    (retargeting : params.fPowNoRetargeting = false)
    (returned : hybridPoSPIVXDifficulty bits params pindexLastIn = .ok nNew) :
    CompactCanonical nNew := by
  cases pindexLastIn with
  | nil => cases returned
  | cons => exact hybridPosRetarget_canonical retargeting returned

theorem hybridPoSPIVXDifficulty_fault {bits : BlockTypeBits} {params : Params}
    {tip : CBlockIndex} {ancestors : List CBlockIndex} {e : Fault}
    (low : 0 < 41 * params.nHybridPosTargetSpacing)
    (high : 41 * params.nHybridPosTargetSpacing < 2 ^ 64)
    (faulted : hybridPoSPIVXDifficulty bits params (tip :: ancestors) = .error e) :
    e = .missingReturn ∧ ∃ last lastAncestors,
      hybridPosLast bits params (tip :: ancestors) = last :: lastAncestors ∧
        params.posPowStartHeight < lastAncestors.length ∧
        (lastAncestors.length : Int) ≤ params.posStartHeight := by
  simp only [hybridPoSPIVXDifficulty] at faulted
  cases chosen : hybridPosLast bits params (tip :: ancestors) with
  | nil => rw [chosen] at faulted; cases faulted
  | cons last lastAncestors =>
    rw [chosen] at faulted
    simp only [hybridPosRetarget] at faulted
    by_cases hybrid : (lastAncestors.length : Int) ≤ params.posPowStartHeight
    · rw [if_pos hybrid] at faulted; cases faulted
    rw [if_neg hybrid] at faulted
    by_cases fixed : params.fPowNoRetargeting = true
    · rw [if_pos fixed] at faulted; cases faulted
    rw [if_neg fixed] at faulted
    by_cases late : (lastAncestors.length : Int) > params.posStartHeight
    · rw [if_pos late] at faulted
      obtain ⟨_, returned⟩ := @exponentialRetarget_returns params.posLimit last.nBits 40
        params.nHybridPosTargetSpacing _ (by omega) (by omega)
      rw [returned] at faulted; cases faulted
    · rw [if_neg late] at faulted
      cases faulted
      exact ⟨rfl, last, lastAncestors, rfl, by omega, by omega⟩

theorem hybridPoSPIVXDifficulty_ne_zero {bits : BlockTypeBits} {params : Params}
    {pindexLastIn : List CBlockIndex} {nNew : UInt32}
    (retargeting : params.fPowNoRetargeting = false) (limit : params.posLimit ≠ 0)
    (returned : hybridPoSPIVXDifficulty bits params pindexLastIn = .ok nNew) :
    (setCompact nNew).value ≠ 0 := by
  cases pindexLastIn with
  | nil => cases returned
  | cons tip ancestors =>
    simp only [hybridPoSPIVXDifficulty] at returned
    generalize hybridPosLast bits params (tip :: ancestors) = pindexLast at returned
    cases pindexLast with
    | nil => cases returned; exact getCompact_ne_zero limit
    | cons last lastAncestors =>
      simp only [hybridPosRetarget, retargeting, Bool.false_eq_true, if_false] at returned
      split_ifs at returned <;>
        first
        | exact exponentialRetarget_ne_zero limit returned
        | (cases returned; exact getCompact_ne_zero limit)

end IonPow
