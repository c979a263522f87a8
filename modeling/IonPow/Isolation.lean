import IonPow.Dispatch

/-! The two hybrid tracks read only their own sub-chain.

`trackView bits fHybridPow` keeps what the track `fHybridPow` may read of a block: its type
bits, and its time and target unless the block belongs to the other track. In the hybrid era
`GetNextWorkRequired` gives the same result on a chain and on its view, because every block
it reads comes from the walker filtered to its own type. Two chains that differ only in the
other track's times and targets have the same view. -/

namespace IonPow

def trackView (bits : BlockTypeBits) (fHybridPow : Bool) (b : CBlockIndex) : CBlockIndex :=
  if bits.isStaking b = fHybridPow then ⟨b.nVersion &&& bits.blockTypeBitsMask, 0, 0⟩
  else ⟨b.nVersion &&& bits.blockTypeBitsMask, b.nTime, b.nBits⟩

def SameForTrack (bits : BlockTypeBits) (fHybridPow : Bool) (b₁ b₂ : CBlockIndex) : Prop :=
  b₁.nVersion &&& bits.blockTypeBitsMask = b₂.nVersion &&& bits.blockTypeBitsMask ∧
    (bits.isStaking b₁ = fHybridPow ∨ b₁.nTime = b₂.nTime ∧ b₁.nBits = b₂.nBits)

instance (bits : BlockTypeBits) (fHybridPow : Bool) (b₁ b₂ : CBlockIndex) :
    Decidable (SameForTrack bits fHybridPow b₁ b₂) :=
  inferInstanceAs (Decidable (_ ∧ _))

theorem and_mask_idem (v m : UInt32) : v &&& m &&& m = v &&& m := by
  apply UInt32.eq_of_toBitVec_eq
  show (v.toBitVec &&& m.toBitVec) &&& m.toBitVec = v.toBitVec &&& m.toBitVec
  rw [BitVec.and_assoc, BitVec.and_self]

@[simp] theorem isStaking_trackView (bits : BlockTypeBits) (fHybridPow : Bool)
    (b : CBlockIndex) : bits.isStaking (trackView bits fHybridPow b) = bits.isStaking b := by
  unfold trackView
  split <;> simp [BlockTypeBits.isStaking, and_mask_idem]

theorem trackView_of_own (fHybridPow : Bool) {bits : BlockTypeBits} {b : CBlockIndex}
    (own : bits.isStaking b = !fHybridPow) :
    (trackView bits fHybridPow b).nTime = b.nTime ∧
      (trackView bits fHybridPow b).nBits = b.nBits := by
  cases fHybridPow <;> simp_all [trackView]

theorem SameForTrack.trackView_eq {bits : BlockTypeBits} {fHybridPow : Bool}
    {b₁ b₂ : CBlockIndex} (same : SameForTrack bits fHybridPow b₁ b₂) :
    trackView bits fHybridPow b₁ = trackView bits fHybridPow b₂ := by
  obtain ⟨typeBits, other | ⟨time, target⟩⟩ := same
  · have : bits.isStaking b₂ = fHybridPow := by
      simpa [BlockTypeBits.isStaking, typeBits] using other
    simp [trackView, other, this, typeBits]
  · have : bits.isStaking b₁ = bits.isStaking b₂ := by simp [BlockTypeBits.isStaking, typeBits]
    simp only [trackView, this, typeBits, time, target]

theorem map_trackView_eq {bits : BlockTypeBits} {fHybridPow : Bool}
    {chain₁ chain₂ : List CBlockIndex}
    (related : List.Forall₂ (SameForTrack bits fHybridPow) chain₁ chain₂) :
    chain₁.map (trackView bits fHybridPow) = chain₂.map (trackView bits fHybridPow) := by
  induction related with
  | nil => rfl
  | cons same _ ih => simp [same.trackView_eq, ih]

theorem getHybridPrevIndex_map_trackView (bits : BlockTypeBits) (fHybridPow fPos : Bool)
    (nMinHeight : Int) : ∀ pindex : List CBlockIndex,
    getHybridPrevIndex bits (pindex.map (trackView bits fHybridPow)) fPos nMinHeight =
      (getHybridPrevIndex bits pindex fPos nMinHeight).map (trackView bits fHybridPow)
  | [] => rfl
  | [_] => rfl
  | b :: prev :: ancestors => by
    have ih := getHybridPrevIndex_map_trackView bits fHybridPow fPos nMinHeight (prev :: ancestors)
    simp only [List.map_cons] at ih ⊢
    simp only [getHybridPrevIndex, List.length_map, isStaking_trackView]
    split_ifs <;> simp [ih]

theorem getHybridPrevIndex_head {bits : BlockTypeBits} {fPos : Bool} {nMinHeight : Int} :
    ∀ {pindex : List CBlockIndex} {b : CBlockIndex} {ancestors : List CBlockIndex},
    getHybridPrevIndex bits pindex fPos nMinHeight = b :: ancestors → bits.isStaking b = fPos
  | [], _, _, found => by simp [getHybridPrevIndex] at found
  | [_], _, _, found => by simp [getHybridPrevIndex] at found
  | _ :: prev :: older, b, ancestors, found => by
    simp only [getHybridPrevIndex] at found
    split_ifs at found with low same
    · cases found; simpa using same
    · exact getHybridPrevIndex_head found

theorem hybridPowLast_map_trackView (bits : BlockTypeBits) (params : Params)
    (fHybridPow : Bool) (pindexLastIn : List CBlockIndex) :
    hybridPowLast bits params (pindexLastIn.map (trackView bits fHybridPow)) =
      (hybridPowLast bits params pindexLastIn).map (trackView bits fHybridPow) := by
  cases pindexLastIn with
  | nil => rfl
  | cons tip ancestors =>
    rw [List.map_cons]
    simp only [hybridPowLast, isStaking_trackView]
    split
    · rw [← List.map_cons, getHybridPrevIndex_map_trackView]
    · rfl

theorem hybridPowLast_head {bits : BlockTypeBits} {params : Params}
    {pindexLastIn : List CBlockIndex} {last : CBlockIndex} {lastAncestors : List CBlockIndex}
    (found : hybridPowLast bits params pindexLastIn = last :: lastAncestors) :
    bits.isStaking last = false := by
  cases pindexLastIn with
  | nil => cases found
  | cons tip ancestors =>
    simp only [hybridPowLast] at found
    split at found
    · exact getHybridPrevIndex_head found
    · cases found; exact Bool.eq_false_iff.mpr ‹_›

theorem hybridPowMinDifficulty_trackView {bits : BlockTypeBits} {params : Params}
    {last : CBlockIndex} (lastAncestors : List CBlockIndex) (own : bits.isStaking last = false) :
    hybridPowMinDifficulty bits params (trackView bits true last)
        (lastAncestors.map (trackView bits true)) =
      hybridPowMinDifficulty bits params last lastAncestors := by
  obtain ⟨time, target⟩ := trackView_of_own true own
  simp only [hybridPowMinDifficulty]
  rw [← List.map_cons, getHybridPrevIndex_map_trackView]
  cases found : getHybridPrevIndex bits (last :: lastAncestors) false params.posPowStartHeight with
  | nil => rfl
  | cons prev _ =>
    obtain ⟨prevTime, -⟩ := trackView_of_own true (getHybridPrevIndex_head found)
    simp [CBlockIndex.getBlockTime, time, target, prevTime]

theorem hybridPowAverage_trackView (bits : BlockTypeBits) (posPowStartHeight : Int) :
    ∀ (remaining nCountBlocks : Nat) (avg : ArithUint256) (b : CBlockIndex)
      (ancestors : List CBlockIndex), bits.isStaking b = false →
      (hybridPowAverage bits posPowStartHeight remaining nCountBlocks avg (trackView bits true b)
          (ancestors.map (trackView bits true))).map (fun r => (r.1, r.2.getBlockTime)) =
        (hybridPowAverage bits posPowStartHeight remaining nCountBlocks avg b ancestors).map
          (fun r => (r.1, r.2.getBlockTime))
  | 0, _, _, b, _, own => by
    simp [hybridPowAverage, CBlockIndex.getBlockTime, (trackView_of_own true own).1]
  | remaining + 1, nCountBlocks, avg, b, ancestors, own => by
    simp only [hybridPowAverage, (trackView_of_own true own).2]
    rw [← List.map_cons, getHybridPrevIndex_map_trackView]
    by_cases last : nCountBlocks ≠ 24
    · simp only [if_pos last]
      cases found : getHybridPrevIndex bits (b :: ancestors) false posPowStartHeight with
      | nil => rfl
      | cons next nextAncestors =>
        simp only [List.map_cons, List.length_map]
        split
        · rfl
        · exact hybridPowAverage_trackView bits posPowStartHeight remaining _ _ next
            nextAncestors (getHybridPrevIndex_head found)
    · simp only [if_neg last]
      exact hybridPowAverage_trackView bits posPowStartHeight remaining _ _ b ancestors own

theorem hybridPoWDarkGravityWave_trackView (bits : BlockTypeBits) (params : Params)
    (pindexLastIn : List CBlockIndex) :
    hybridPoWDarkGravityWave bits params (pindexLastIn.map (trackView bits true)) =
      hybridPoWDarkGravityWave bits params pindexLastIn := by
  cases pindexLastIn with
  | nil => rfl
  | cons tip ancestors =>
    simp only [hybridPoWDarkGravityWave, List.map_cons]
    rw [← List.map_cons, hybridPowLast_map_trackView]
    cases found : hybridPowLast bits params (tip :: ancestors) with
    | nil => rfl
    | cons last lastAncestors =>
      have own := hybridPowLast_head found
      simp only [List.map_cons, List.length_map, hybridPowMinDifficulty_trackView _ own]
      split_ifs
      · rfl
      cases hybridPowMinDifficulty bits params last lastAncestors with
      | some nBits => rfl
      | none =>
        have loop := hybridPowAverage_trackView bits params.posPowStartHeight 24 1 0 last
          lastAncestors own
        revert loop
        cases hybridPowAverage bits params.posPowStartHeight 24 1 0 (trackView bits true last)
            (lastAncestors.map (trackView bits true)) <;>
          cases hybridPowAverage bits params.posPowStartHeight 24 1 0 last lastAncestors <;>
          simp_all [CBlockIndex.getBlockTime, (trackView_of_own true own).1]

theorem hybridPosLast_map_trackView (bits : BlockTypeBits) (params : Params)
    (fHybridPow : Bool) (pindexLastIn : List CBlockIndex) :
    hybridPosLast bits params (pindexLastIn.map (trackView bits fHybridPow)) =
      (hybridPosLast bits params pindexLastIn).map (trackView bits fHybridPow) := by
  cases pindexLastIn with
  | nil => rfl
  | cons tip ancestors =>
    rw [List.map_cons]
    simp only [hybridPosLast, isStaking_trackView]
    split
    · rfl
    · rw [← List.map_cons, getHybridPrevIndex_map_trackView]

theorem hybridPosLast_head {bits : BlockTypeBits} {params : Params}
    {pindexLastIn : List CBlockIndex} {last : CBlockIndex} {lastAncestors : List CBlockIndex}
    (found : hybridPosLast bits params pindexLastIn = last :: lastAncestors) :
    bits.isStaking last = true := by
  cases pindexLastIn with
  | nil => cases found
  | cons tip ancestors =>
    simp only [hybridPosLast] at found
    split at found
    · cases found; assumption
    · exact getHybridPrevIndex_head found

theorem hybridPosRetarget_trackView {bits : BlockTypeBits} {params : Params}
    {last : CBlockIndex} (lastAncestors : List CBlockIndex) (own : bits.isStaking last = true) :
    hybridPosRetarget bits params
        (trackView bits false last :: lastAncestors.map (trackView bits false)) =
      hybridPosRetarget bits params (last :: lastAncestors) := by
  obtain ⟨time, target⟩ := trackView_of_own false own
  simp only [hybridPosRetarget, List.length_map, time, target]
  rw [← List.map_cons, getHybridPrevIndex_map_trackView]
  cases found : getHybridPrevIndex bits (last :: lastAncestors) true params.posPowStartHeight with
  | nil => rfl
  | cons prev _ =>
    obtain ⟨prevTime, -⟩ := trackView_of_own false (getHybridPrevIndex_head found)
    simp [CBlockIndex.getBlockTime, time, prevTime]

theorem hybridPoSPIVXDifficulty_trackView (bits : BlockTypeBits) (params : Params)
    (pindexLastIn : List CBlockIndex) :
    hybridPoSPIVXDifficulty bits params (pindexLastIn.map (trackView bits false)) =
      hybridPoSPIVXDifficulty bits params pindexLastIn := by
  cases pindexLastIn with
  | nil => rfl
  | cons tip ancestors =>
    simp only [hybridPoSPIVXDifficulty, List.map_cons]
    rw [← List.map_cons, hybridPosLast_map_trackView]
    cases found : hybridPosLast bits params (tip :: ancestors) with
    | nil => rfl
    | cons last lastAncestors => exact hybridPosRetarget_trackView _ (hybridPosLast_head found)

theorem getNextWorkRequired_trackView (bits : BlockTypeBits) (params : Params)
    (pindexLast : List CBlockIndex) (fHybridPow : Bool)
    (hybrid : params.posPowStartHeight ≤ (pindexLast.length : Int)) :
    getNextWorkRequired bits params (pindexLast.map (trackView bits fHybridPow)) fHybridPow =
      getNextWorkRequired bits params pindexLast fHybridPow := by
  cases pindexLast with
  | nil => rfl
  | cons tip ancestors =>
    have started : (ancestors.length : Int) + 1 ≥ params.posPowStartHeight := by
      simpa using hybrid
    simp only [getNextWorkRequired, List.map_cons, List.length_map, started, if_true]
    rw [← List.map_cons]
    cases fHybridPow <;>
      simp only [Bool.false_eq_true, if_false, if_true, hybridPoSPIVXDifficulty_trackView,
        hybridPoWDarkGravityWave_trackView]

/-- Two chains of one height that differ only in the times and targets of the other track's
blocks get the same target from the track `fHybridPow` in the hybrid era. -/
theorem getNextWorkRequired_track_isolation (bits : BlockTypeBits) (params : Params)
    (fHybridPow : Bool) (chain₁ chain₂ : List CBlockIndex)
    (related : List.Forall₂ (SameForTrack bits fHybridPow) chain₁ chain₂)
    (hybrid : params.posPowStartHeight ≤ (nHeight chain₁ : Int) + 1) :
    getNextWorkRequired bits params chain₁ fHybridPow =
      getNextWorkRequired bits params chain₂ fHybridPow := by
  cases chain₁ with
  | nil => cases related; rfl
  | cons tip ancestors =>
    have length : ancestors.length + 1 = chain₂.length := by simpa using related.length_eq
    rw [← getNextWorkRequired_trackView bits params _ fHybridPow (by simpa using hybrid),
      map_trackView_eq related,
      getNextWorkRequired_trackView bits params _ fHybridPow
        (by simp only [nHeight_cons] at hybrid; omega)]

theorem getNextWorkRequired_track_isolation_full_window :
    getNextWorkRequired ⟨1, 1⟩ { lateEraParams with posPowStartHeight := 0 } alternatingChain
        true =
      getNextWorkRequired ⟨1, 1⟩ { lateEraParams with posPowStartHeight := 0 }
        (alternatingChain.set 5 ⟨1, 7200, 0x1c00ffff⟩) true :=
  getNextWorkRequired_track_isolation ⟨1, 1⟩ { lateEraParams with posPowStartHeight := 0 } true
    alternatingChain (alternatingChain.set 5 ⟨1, 7200, 0x1c00ffff⟩) (by decide) (by decide)

end IonPow
