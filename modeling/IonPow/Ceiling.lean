import IonPow.Dispatch

/-! Every target `GetNextWorkRequired` returns decodes cleanly to at most the ceiling of the
track it produces.

The ceiling is the one each path clamps to. In the averaged-window era that is not always the
requested type's limit: a chain too short for the window gets `powLimit` whatever the type,
and the testnet exception before `POSStartHeight` gets `posLimit` whatever the type.

Over a whole chain whose every block carries the retarget of its parent, a bound over all the
ceilings and the genesis target holds of every block: each retarget clamps to its ceiling,
except the Midas no-op, which keeps its parent's target. -/

namespace IonPow

def nextWorkCeiling (params : Params) (pindexLast : List CBlockIndex) (fHybridPow : Bool) :
    ArithUint256 :=
  match pindexLast with
  | [] => params.powLimit
  | _ :: ancestors =>
    let nHeight : Int := ancestors.length + 1
    let fProofOfStake := isProofOfStakeHeight params nHeight
    if (ancestors.length : Int) < params.nMinimumDifficultyBlocks then params.powLimit
    else if nHeight ≥ params.posPowStartHeight then
      if fHybridPow then params.hybridPowLimit else params.posLimit
    else if (ancestors.length : Int) ≥ params.dgwDifficultyStartHeight then
      pivxTargetLimit params pindexLast fProofOfStake
    else if (ancestors.length : Int) ≥ params.midasStartHeight then
      params.targetLimit fProofOfStake
    else origTargetLimit params fProofOfStake

theorem getNextWorkRequired_within_of_le {bits : BlockTypeBits} {params : Params}
    {tip : CBlockIndex} {ancestors : List CBlockIndex} {fHybridPow : Bool} {nNew : UInt32}
    {bound : ArithUint256} (retargeting : params.fPowNoRetargeting = false)
    (ceiling : nextWorkCeiling params (tip :: ancestors) fHybridPow ≤ bound)
    (tipWithin : (setCompact tip.nBits).value ≤ bound)
    (returned : getNextWorkRequired bits params (tip :: ancestors) fHybridPow = .ok nNew) :
    CompactWithin nNew bound := by
  simp only [getNextWorkRequired] at returned
  simp only [nextWorkCeiling] at ceiling
  split_ifs at returned ceiling
  · cases returned; exact (getCompact_within _).mono ceiling
  · exact (hybridPoWDarkGravityWave_within returned).mono ceiling
  · exact (hybridPoSPIVXDifficulty_within retargeting returned).mono ceiling
  · exact (getNextWorkRequiredPivx_within retargeting returned).mono ceiling
  · exact getNextWorkRequiredMidas_within tipWithin ceiling returned
  · exact (getNextWorkRequiredOrig_within retargeting returned).mono ceiling

/-- Whenever `GetNextWorkRequired` returns, its result decodes with neither flag set to at
most the ceiling of the track it produces, provided the tip's own target is within it. -/
theorem getNextWorkRequired_within (bits : BlockTypeBits) (params : Params)
    (tip : CBlockIndex) (ancestors : List CBlockIndex) (fHybridPow : Bool) (nNew : UInt32)
    (retargeting : params.fPowNoRetargeting = false)
    (tipWithin : (setCompact tip.nBits).value ≤
      nextWorkCeiling params (tip :: ancestors) fHybridPow)
    (returned : getNextWorkRequired bits params (tip :: ancestors) fHybridPow = .ok nNew) :
    CompactWithin nNew (nextWorkCeiling params (tip :: ancestors) fHybridPow) :=
  getNextWorkRequired_within_of_le retargeting (BitVec.le_refl _) tipWithin returned

def shortWindowParams : Params :=
  { lateEraParams with
    posLimit := BitVec.ofNat 256 (2 ^ 224 - 1)
    posStartHeight := 0
    dgwDifficultyStartHeight := 0
    midasStartHeight := 0 }

theorem getNextWorkRequired_within_short_window :
    CompactWithin 0x1e0fffff (nextWorkCeiling shortWindowParams [⟨0, 0, 0x1d00ffff⟩] false) :=
  getNextWorkRequired_within ⟨1, 1⟩ shortWindowParams ⟨0, 0, 0x1d00ffff⟩ [] false 0x1e0fffff rfl
    (by decide) (by decide)

/-- On a one-block chain the next block is a stake block in the averaged-window era, yet the
short-chain return gives it `powLimit`, above `posLimit`. -/
theorem getNextWorkRequired_short_window_above_posLimit :
    isProofOfStakeHeight shortWindowParams 1 = true ∧
      (setCompact 0x1d00ffff).value ≤ shortWindowParams.posLimit ∧
      getNextWorkRequired ⟨1, 1⟩ shortWindowParams [⟨0, 0, 0x1d00ffff⟩] false = .ok 0x1e0fffff ∧
      ¬ CompactWithin 0x1e0fffff shortWindowParams.posLimit := by
  decide

def Params.CeilingsAtMost (params : Params) (bound : ArithUint256) : Prop :=
  params.powLimit ≤ bound ∧ params.posLimit ≤ bound ∧ params.hybridPowLimit ≤ bound ∧
    origTargetLimit params true ≤ bound

instance (params : Params) (bound : ArithUint256) : Decidable (params.CeilingsAtMost bound) :=
  inferInstanceAs (Decidable (_ ∧ _))

theorem Params.CeilingsAtMost.targetLimit_le {params : Params} {bound : ArithUint256}
    (ceilings : params.CeilingsAtMost bound) (fProofOfStake : Bool) :
    params.targetLimit fProofOfStake ≤ bound := by
  cases fProofOfStake
  · exact ceilings.1
  · exact ceilings.2.1

theorem Params.CeilingsAtMost.origTargetLimit_le {params : Params} {bound : ArithUint256}
    (ceilings : params.CeilingsAtMost bound) (fProofOfStake : Bool) :
    origTargetLimit params fProofOfStake ≤ bound := by
  cases fProofOfStake
  · simpa [origTargetLimit] using ceilings.1
  · exact ceilings.2.2.2

theorem Params.CeilingsAtMost.pivxTargetLimit_le {params : Params} {bound : ArithUint256}
    (ceilings : params.CeilingsAtMost bound) (pindexLast : List CBlockIndex)
    (fProofOfStake : Bool) : pivxTargetLimit params pindexLast fProofOfStake ≤ bound := by
  unfold pivxTargetLimit
  split
  · exact ceilings.1
  · split_ifs
    · exact ceilings.1
    · exact ceilings.2.1
    · exact ceilings.targetLimit_le _

theorem Params.CeilingsAtMost.nextWorkCeiling_le {params : Params} {bound : ArithUint256}
    (ceilings : params.CeilingsAtMost bound) (pindexLast : List CBlockIndex) (fHybridPow : Bool) :
    nextWorkCeiling params pindexLast fHybridPow ≤ bound := by
  unfold nextWorkCeiling
  split
  · exact ceilings.1
  dsimp only
  split_ifs
  · exact ceilings.1
  · exact ceilings.2.2.1
  · exact ceilings.2.1
  · exact ceilings.pivxTargetLimit_le _ _
  · exact ceilings.targetLimit_le _
  · exact ceilings.origTargetLimit_le _

/-- With every ceiling at most `powLimit` and the tip's target within it, `CheckProofOfWork`
accepts a block carrying the `nBits` that `GetNextWorkRequired` returns for exactly the hashes
at most its target, once that target is nonzero: the retarget never asks for a target the
validity check refuses. -/
theorem checkProofOfWork_getNextWorkRequired (bits : BlockTypeBits) (params : Params)
    (tip : CBlockIndex) (ancestors : List CBlockIndex) (fHybridPow : Bool) (nNew : UInt32)
    (hash : ArithUint256) (retargeting : params.fPowNoRetargeting = false)
    (ceilings : params.CeilingsAtMost params.powLimit)
    (tipWithin : (setCompact tip.nBits).value ≤ params.powLimit)
    (returned : getNextWorkRequired bits params (tip :: ancestors) fHybridPow = .ok nNew)
    (nonzero : (setCompact nNew).value ≠ 0) :
    checkProofOfWork hash nNew params = true ↔ hash ≤ (setCompact nNew).value := by
  have within := getNextWorkRequired_within_of_le retargeting (ceilings.nextWorkCeiling_le _ _)
    tipWithin returned
  rw [checkProofOfWork_eq_true]
  exact ⟨fun accepted => accepted.2.2, fun meets => ⟨within, nonzero, meets⟩⟩

theorem checkProofOfWork_getNextWorkRequired_genesis :
    checkProofOfWork 0 0x1e0fffff lateEraParams = true ↔ 0 ≤ (setCompact 0x1e0fffff).value :=
  checkProofOfWork_getNextWorkRequired ⟨1, 1⟩ lateEraParams ⟨0, 0, 0x1d00ffff⟩ [] false 0x1e0fffff 0
    rfl (by decide) (by decide) (by decide) (by decide)

/-- Where `GetNextWorkRequired` retargets with the exponential formula, it never returns a
zero target, which `CheckProofOfWork` would reject for every hash. These paths are the
proof-of-stake track of the hybrid era, the single-track era past `POSStartHeight`, and the
legacy era. A zero quotient is replaced by the ceiling, even when the product wraps, and
packing a nonzero target keeps it nonzero. -/
theorem getNextWorkRequired_exponential_ne_zero (bits : BlockTypeBits) (params : Params)
    (pindexLast : List CBlockIndex) (fHybridPow : Bool) (nNew : UInt32)
    (retargeting : params.fPowNoRetargeting = false) (powLimit : params.powLimit ≠ 0)
    (posLimit : params.posLimit ≠ 0)
    (exponential :
      (params.posPowStartHeight ≤ (nHeight pindexLast : Int) + 1 ∧ fHybridPow = false) ∨
      ((nHeight pindexLast : Int) + 1 < params.posPowStartHeight ∧
        params.dgwDifficultyStartHeight ≤ nHeight pindexLast ∧
        params.posStartHeight < nHeight pindexLast) ∨
      ((nHeight pindexLast : Int) + 1 < params.posPowStartHeight ∧
        (nHeight pindexLast : Int) < params.dgwDifficultyStartHeight ∧
        (nHeight pindexLast : Int) < params.midasStartHeight))
    (returned : getNextWorkRequired bits params pindexLast fHybridPow = .ok nNew) :
    (setCompact nNew).value ≠ 0 := by
  cases pindexLast with
  | nil => cases returned
  | cons tip ancestors =>
    simp only [nHeight_cons] at exponential
    simp only [getNextWorkRequired] at returned
    split_ifs at returned with minimum hybrid staking window midas
    · cases returned; exact getCompact_ne_zero powLimit
    · rcases exponential with ⟨-, rfl⟩ | ⟨before, -⟩ | ⟨before, -⟩
      · cases staking
      all_goals omega
    · exact hybridPoSPIVXDifficulty_ne_zero retargeting posLimit returned
    · have late : params.posStartHeight < ancestors.length := by
        rcases exponential with ⟨before, -⟩ | ⟨-, -, late⟩ | ⟨-, before, -⟩ <;> omega
      exact getNextWorkRequiredPivx_ne_zero_of_late retargeting late powLimit
        (by unfold Params.targetLimit; split <;> assumption) returned
    · rcases exponential with ⟨before, -⟩ | ⟨-, before, -⟩ | ⟨-, -, before⟩ <;> omega
    · exact getNextWorkRequiredOrig_ne_zero retargeting
        (by unfold origTargetLimit; split <;> first | exact powLimit | decide) returned

theorem getNextWorkRequired_exponential_ne_zero_fast_stake :
    (setCompact 0x1d00f511).value ≠ 0 :=
  getNextWorkRequired_exponential_ne_zero ⟨1, 1⟩
    { lateEraParams with posPowStartHeight := 0, posStartHeight := 0 }
    [⟨1, 128, 0x1d00ffff⟩, ⟨1, 120, 0x1d00ffff⟩, ⟨0, 0, 0x1d00ffff⟩] false 0x1d00f511 rfl
    (by decide) (by decide) (.inl ⟨by decide, rfl⟩) (by decide)

/-- A chain each of whose blocks above genesis carries the `nBits` that `GetNextWorkRequired`
returns for its parent, on either track. -/
def RetargetedChain (bits : BlockTypeBits) (params : Params) : List CBlockIndex → Prop
  | [] => True
  | [_] => True
  | b :: prev :: ancestors =>
    (∃ fHybridPow, getNextWorkRequired bits params (prev :: ancestors) fHybridPow = .ok b.nBits) ∧
      RetargetedChain bits params (prev :: ancestors)

instance RetargetedChain.decide (bits : BlockTypeBits) (params : Params) :
    ∀ chain, Decidable (RetargetedChain bits params chain)
  | [] => isTrue trivial
  | [_] => isTrue trivial
  | _ :: prev :: ancestors =>
    have := RetargetedChain.decide bits params (prev :: ancestors)
    inferInstanceAs (Decidable (_ ∧ _))

/-- Every block of a retargeted chain decodes with neither flag to at most any bound over all
the ceilings and the genesis block's target: each retarget keeps the bound its parent
satisfies. -/
theorem retargetedChain_within (bits : BlockTypeBits) (params : Params) (bound : ArithUint256)
    (retargeting : params.fPowNoRetargeting = false) (ceilings : params.CeilingsAtMost bound) :
    ∀ chain, RetargetedChain bits params chain →
      (∀ genesis ∈ chain.getLast?, CompactWithin genesis.nBits bound) →
      ∀ b ∈ chain, CompactWithin b.nBits bound
  | [], _, _, _, member => by simp at member
  | [genesis], _, fromGenesis, _, member => by
    rw [List.mem_singleton.1 member]
    exact fromGenesis genesis rfl
  | b :: prev :: ancestors, ⟨⟨fHybridPow, returned⟩, earlier⟩, fromGenesis, c, member => by
    have below := retargetedChain_within bits params bound retargeting ceilings
      (prev :: ancestors) earlier (by simpa [List.getLast?_cons_cons] using fromGenesis)
    rcases List.mem_cons.1 member with rfl | older
    · exact getNextWorkRequired_within_of_le retargeting (ceilings.nextWorkCeiling_le _ _)
        (below prev (List.mem_cons_self _ _)).2.2 returned
    · exact below c older

theorem retargetedChain_within_three_blocks :
    CompactWithin (CBlockIndex.nBits ⟨0, 128, 0x1e0fffff⟩) lateEraParams.powLimit :=
  retargetedChain_within ⟨1, 1⟩ lateEraParams lateEraParams.powLimit rfl (by decide)
    [⟨0, 128, 0x1e0fffff⟩, ⟨0, 64, 0x1e0fffff⟩, ⟨0, 0, 0x1d00ffff⟩] (by decide) (by decide)
    ⟨0, 128, 0x1e0fffff⟩ (List.mem_cons_self _ _)

theorem getNextWorkRequired_canonical {bits : BlockTypeBits} {params : Params}
    {pindexLast : List CBlockIndex} {fHybridPow : Bool} {nNew : UInt32}
    (retargeting : params.fPowNoRetargeting = false)
    (returned : getNextWorkRequired bits params pindexLast fHybridPow = .ok nNew) :
    CompactCanonical nNew := by
  cases pindexLast with
  | nil => cases returned
  | cons tip ancestors =>
    simp only [getNextWorkRequired] at returned
    split_ifs at returned
    · cases returned; exact compactCanonical_getCompact _
    · exact hybridPoWDarkGravityWave_canonical returned
    · exact hybridPoSPIVXDifficulty_canonical retargeting returned
    · exact getNextWorkRequiredPivx_canonical retargeting returned
    · exact getNextWorkRequiredMidas_canonical returned
    · exact getNextWorkRequiredOrig_canonical retargeting returned

/-- Every block of a retargeted chain above genesis carries a canonical compact, whatever the
genesis block carries: decoding its `nBits` and packing the target again gives the same
`nBits`, so no two encodings of one target both follow a parent. -/
theorem retargetedChain_canonical (bits : BlockTypeBits) (params : Params)
    (retargeting : params.fPowNoRetargeting = false) :
    ∀ chain, RetargetedChain bits params chain → ∀ b ∈ chain.dropLast, CompactCanonical b.nBits
  | [], _, _, member => by simp at member
  | [_], _, _, member => by simp at member
  | b :: prev :: ancestors, ⟨⟨_, returned⟩, earlier⟩, c, member => by
    rw [List.dropLast_cons₂] at member
    rcases List.mem_cons.1 member with rfl | older
    · exact getNextWorkRequired_canonical retargeting returned
    · exact retargetedChain_canonical bits params retargeting (prev :: ancestors) earlier c older

theorem retargetedChain_canonical_three_blocks :
    CompactCanonical (CBlockIndex.nBits ⟨0, 64, 0x1e0fffff⟩) :=
  retargetedChain_canonical ⟨1, 1⟩ lateEraParams rfl
    [⟨0, 128, 0x1e0fffff⟩, ⟨0, 64, 0x1e0fffff⟩, ⟨0, 0, 0x1d00ffff⟩] (by decide)
    ⟨0, 64, 0x1e0fffff⟩ (by simp)

end IonPow
