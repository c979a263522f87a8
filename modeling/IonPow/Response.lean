import IonPow.Dispatch
import IonPow.Window

/-! How the hybrid-era and averaged-window retargets answer the intervals they read.

The proof-of-stake track moves its target with the newest staking interval. An interval of
at least the target spacing never makes the next target harder than the newest staking
block's. An interval of at most that spacing never makes it easier. Packing cannot undo
either direction: `GetCompact` keeps the order of targets and packs a valid compact target
exactly. Of two chains whose newest staking blocks carry the same target, the longer newest
staking interval never gets the harder target.

The averaged-window retargets ease by at most their clamp factor per block. The new target
is at most three times the largest target of the window in the single-track era, and at
most four times on the proof-of-work track. They tighten by at most the same factors: the new
target is at least a third, or a quarter, of the smallest target of the window, unless the
ceiling is lower, up to the rounding of packing, which drops less than one part in `2 ^ 15`.
Of two proof-of-work windows with the same targets, the one spanning longer never gets the
harder target. With minimum-difficulty blocks allowed, a proof-of-work block found more than
four spacings late eases the next target at least tenfold, up to the ceiling. The Midas
retarget at most doubles the tip's target. -/

namespace IonPow

theorem hybridPosLast_of_blocksOfType {bits : BlockTypeBits} {params : Params}
    {pindexLastIn : List CBlockIndex} {newest : CBlockIndex} {newestAncestors : List CBlockIndex}
    {older : List (CBlockIndex × List CBlockIndex)}
    (found : blocksOfType bits true pindexLastIn = (newest, newestAncestors) :: older)
    (high : params.posPowStartHeight ≤ newestAncestors.length) :
    hybridPosLast bits params pindexLastIn = newest :: newestAncestors := by
  cases pindexLastIn with
  | nil => simp [blocksOfType] at found
  | cons tip ancestors =>
    by_cases staking : bits.isStaking tip = true
    · simp only [blocksOfType, staking, if_true, List.cons.injEq, Prod.mk.injEq] at found
      obtain ⟨⟨rfl, rfl⟩, -⟩ := found
      simp [hybridPosLast, staking]
    · simp only [blocksOfType, staking, if_false] at found
      simpa [hybridPosLast, staking] using getHybridPrevIndex_of_blocksOfType _ found high

theorem getNextWorkRequired_pos_track_eq (bits : BlockTypeBits) (params : Params)
    (tip : CBlockIndex) (ancestors : List CBlockIndex) {last prev : CBlockIndex}
    {lastAncestors prevAncestors : List CBlockIndex}
    {older : List (CBlockIndex × List CBlockIndex)}
    (retargeting : params.fPowNoRetargeting = false)
    (minimum : params.nMinimumDifficultyBlocks ≤ ancestors.length)
    (found : blocksOfType bits true (tip :: ancestors) =
      (last, lastAncestors) :: (prev, prevAncestors) :: older)
    (prevHybrid : params.posPowStartHeight ≤ prevAncestors.length)
    (late : params.posStartHeight < lastAncestors.length) :
    getNextWorkRequired bits params (tip :: ancestors) false =
      exponentialRetarget params.posLimit last.nBits 40 params.nHybridPosTargetSpacing
        (if last.getBlockTime - prev.getBlockTime < 0 then 1
          else last.getBlockTime - prev.getBlockTime) := by
  obtain ⟨-, next⟩ := blocksOfType_eq_cons found
  have lastBelow := length_lt_of_mem_blocksOfType (found ▸ List.mem_cons_self _ _)
  have prevBelow := length_lt_of_mem_blocksOfType (next ▸ List.mem_cons_self _ _)
  simp only [List.length_cons] at lastBelow
  simp only [getNextWorkRequired, hybridPoSPIVXDifficulty, Bool.false_eq_true, if_false,
    @hybridPosLast_of_blocksOfType bits params _ _ _ _ found (by omega), hybridPosRetarget,
    retargeting,
    getHybridPrevIndex_of_blocksOfType _ next.symm prevHybrid,
    if_neg (show ¬ (ancestors.length : Int) < params.nMinimumDifficultyBlocks by omega),
    if_pos (show (ancestors.length : Int) + 1 ≥ params.posPowStartHeight by omega),
    if_neg (show ¬ (lastAncestors.length : Int) ≤ params.posPowStartHeight by omega),
    if_pos (show (lastAncestors.length : Int) > params.posStartHeight by omega)]

/-- On the proof-of-stake track of the hybrid era the next target moves with the newest
staking interval. An interval of at least `nHybridPosTargetSpacing` never makes it harder
than the newest staking block's target, and a shorter one never makes it easier. The newest
staking block's target is a valid compact target within `posLimit`, its interval is not
negative, and scaling the target does not wrap. -/
theorem getNextWorkRequired_pos_track_responds (bits : BlockTypeBits) (params : Params)
    (tip : CBlockIndex) (ancestors : List CBlockIndex) (last prev : CBlockIndex)
    (lastAncestors prevAncestors : List CBlockIndex)
    (older : List (CBlockIndex × List CBlockIndex))
    (retargeting : params.fPowNoRetargeting = false)
    (minimum : params.nMinimumDifficultyBlocks ≤ ancestors.length)
    (found : blocksOfType bits true (tip :: ancestors) =
      (last, lastAncestors) :: (prev, prevAncestors) :: older)
    (prevHybrid : params.posPowStartHeight ≤ prevAncestors.length)
    (late : params.posStartHeight < lastAncestors.length)
    (valid : (setCompact last.nBits).fOverflow = false)
    (within : blockTarget last ≤ params.posLimit)
    (ordered : prev.getBlockTime ≤ last.getBlockTime)
    (spacing : 0 < params.nHybridPosTargetSpacing)
    (high : 39 * params.nHybridPosTargetSpacing +
      2 * (last.getBlockTime - prev.getBlockTime) < 2 ^ 32)
    (noWrap : (blockTarget last).toNat * (39 * params.nHybridPosTargetSpacing +
      2 * (last.getBlockTime - prev.getBlockTime)).toNat < 2 ^ 256) :
    ∃ nNew, getNextWorkRequired bits params (tip :: ancestors) false = .ok nNew ∧
      (params.nHybridPosTargetSpacing ≤ last.getBlockTime - prev.getBlockTime →
        blockTarget last ≤ (setCompact nNew).value) ∧
      (last.getBlockTime - prev.getBlockTime ≤ params.nHybridPosTargetSpacing →
        2 ≤ (blockTarget last).toNat → (setCompact nNew).value ≤ blockTarget last) := by
  rw [getNextWorkRequired_pos_track_eq bits params tip ancestors retargeting minimum found
    prevHybrid late, if_neg (not_lt.mpr (sub_nonneg.mpr ordered))]
  have forward : 0 ≤ last.getBlockTime - prev.getBlockTime := sub_nonneg.mpr ordered
  generalize last.getBlockTime - prev.getBlockTime = A at *
  have multiplier : (40 - 1) * params.nHybridPosTargetSpacing + A + A =
      39 * params.nHybridPosTargetSpacing + 2 * A := by ring
  rw [← multiplier] at high noWrap
  obtain ⟨nNew, returned⟩ := @exponentialRetarget_returns params.posLimit last.nBits 40
    params.nHybridPosTargetSpacing A (by omega) (by omega)
  refine ⟨nNew, returned, fun slower => ?_, fun faster hard => ?_⟩
  · exact exponentialRetarget_slower valid within (by omega) (by omega) high noWrap returned
  · have scaled :=
      Nat.mul_le_mul_right ((40 - 1) * params.nHybridPosTargetSpacing + A + A).toNat hard
    exact exponentialRetarget_faster within (by omega) (by omega) (by omega) high (by omega)
      (by unfold blockTarget at scaled; omega) noWrap returned

theorem getNextWorkRequired_pos_track_responds_on_schedule :
    ∃ nNew, getNextWorkRequired ⟨1, 1⟩
        { lateEraParams with posPowStartHeight := 0, posStartHeight := 0 }
        [⟨1, 128, 0x1d00ffff⟩, ⟨1, 64, 0x1d00ffff⟩, ⟨0, 0, 0x1d00ffff⟩] false = .ok nNew ∧
      (64 ≤ CBlockIndex.getBlockTime ⟨1, 128, 0x1d00ffff⟩ -
          CBlockIndex.getBlockTime ⟨1, 64, 0x1d00ffff⟩ →
        blockTarget ⟨1, 128, 0x1d00ffff⟩ ≤ (setCompact nNew).value) ∧
      (CBlockIndex.getBlockTime ⟨1, 128, 0x1d00ffff⟩ -
          CBlockIndex.getBlockTime ⟨1, 64, 0x1d00ffff⟩ ≤ 64 →
        2 ≤ (blockTarget ⟨1, 128, 0x1d00ffff⟩).toNat →
        (setCompact nNew).value ≤ blockTarget ⟨1, 128, 0x1d00ffff⟩) :=
  getNextWorkRequired_pos_track_responds ⟨1, 1⟩
    { lateEraParams with posPowStartHeight := 0, posStartHeight := 0 } ⟨1, 128, 0x1d00ffff⟩
    [⟨1, 64, 0x1d00ffff⟩, ⟨0, 0, 0x1d00ffff⟩] ⟨1, 128, 0x1d00ffff⟩ ⟨1, 64, 0x1d00ffff⟩
    [⟨1, 64, 0x1d00ffff⟩, ⟨0, 0, 0x1d00ffff⟩] [⟨0, 0, 0x1d00ffff⟩] [] rfl (by decide)
    (by decide) (by decide) (by decide) (by decide) (by decide) (by decide) (by decide)
    (by decide) (by decide)

/-- On the proof-of-stake track of the hybrid era one retarget makes the target at most
`41 / 39` harder than the newest staking block's, up to the rounding of packing: a negative
interval is replaced by 1, so the multiplier is at least `39 * nHybridPosTargetSpacing`. -/
theorem getNextWorkRequired_pos_track_ge_39_over_41 (bits : BlockTypeBits) (params : Params)
    (tip : CBlockIndex) (ancestors : List CBlockIndex) (last prev : CBlockIndex)
    (lastAncestors prevAncestors : List CBlockIndex)
    (older : List (CBlockIndex × List CBlockIndex)) (nActualSpacing : Int)
    (retargeting : params.fPowNoRetargeting = false)
    (minimum : params.nMinimumDifficultyBlocks ≤ ancestors.length)
    (found : blocksOfType bits true (tip :: ancestors) =
      (last, lastAncestors) :: (prev, prevAncestors) :: older)
    (prevHybrid : params.posPowStartHeight ≤ prevAncestors.length)
    (late : params.posStartHeight < lastAncestors.length)
    (clamped : nActualSpacing = if last.getBlockTime - prev.getBlockTime < 0 then 1
      else last.getBlockTime - prev.getBlockTime)
    (within : blockTarget last ≤ params.posLimit)
    (spacing : 0 < params.nHybridPosTargetSpacing)
    (high : 39 * params.nHybridPosTargetSpacing + 2 * nActualSpacing < 2 ^ 32)
    (noWrap : (blockTarget last).toNat *
      (39 * params.nHybridPosTargetSpacing + 2 * nActualSpacing).toNat < 2 ^ 256) :
    ∃ nNew, getNextWorkRequired bits params (tip :: ancestors) false = .ok nNew ∧
      39 * (blockTarget last).toNat / 41 ≤
        (setCompact nNew).value.toNat + (setCompact nNew).value.toNat / 2 ^ 15 := by
  rw [getNextWorkRequired_pos_track_eq bits params tip ancestors retargeting minimum found
    prevHybrid late, ← clamped]
  have nonnegative : 0 ≤ nActualSpacing := by rw [clamped]; split <;> omega
  have multiplier : (40 - 1) * params.nHybridPosTargetSpacing + nActualSpacing + nActualSpacing =
      39 * params.nHybridPosTargetSpacing + 2 * nActualSpacing := by ring
  rw [← multiplier] at high noWrap
  obtain ⟨nNew, returned⟩ := @exponentialRetarget_returns params.posLimit last.nBits 40
    params.nHybridPosTargetSpacing nActualSpacing (by omega) (by omega)
  exact ⟨nNew, returned, exponentialRetarget_ge_fraction within (by norm_num) spacing nonnegative
    high (by omega) noWrap returned⟩

theorem getNextWorkRequired_pos_track_ge_39_over_41_on_schedule :
    ∃ nNew, getNextWorkRequired ⟨1, 1⟩
        { lateEraParams with posPowStartHeight := 0, posStartHeight := 0 }
        [⟨1, 128, 0x1d00ffff⟩, ⟨1, 64, 0x1d00ffff⟩, ⟨0, 0, 0x1d00ffff⟩] false = .ok nNew ∧
      39 * (blockTarget ⟨1, 128, 0x1d00ffff⟩).toNat / 41 ≤
        (setCompact nNew).value.toNat + (setCompact nNew).value.toNat / 2 ^ 15 :=
  getNextWorkRequired_pos_track_ge_39_over_41 ⟨1, 1⟩
    { lateEraParams with posPowStartHeight := 0, posStartHeight := 0 } ⟨1, 128, 0x1d00ffff⟩
    [⟨1, 64, 0x1d00ffff⟩, ⟨0, 0, 0x1d00ffff⟩] ⟨1, 128, 0x1d00ffff⟩ ⟨1, 64, 0x1d00ffff⟩
    [⟨1, 64, 0x1d00ffff⟩, ⟨0, 0, 0x1d00ffff⟩] [⟨0, 0, 0x1d00ffff⟩] [] 64 rfl (by decide)
    (by decide) (by decide) (by decide) (by decide) (by decide) (by decide) (by decide)
    (by decide)

/-- On the proof-of-stake track of the hybrid era, of two chains whose newest staking blocks
carry the same target, the one whose newest staking interval is longer never gets the harder
target. Each interval is the code's, a negative one replaced by 1; the newest staking target is
at least 2, so both quotients are nonzero. -/
theorem getNextWorkRequired_pos_track_mono (bits : BlockTypeBits) (params : Params)
    (tip₁ tip₂ last₁ last₂ prev₁ prev₂ : CBlockIndex)
    (ancestors₁ ancestors₂ lastAncestors₁ lastAncestors₂ prevAncestors₁ prevAncestors₂ :
      List CBlockIndex)
    (older₁ older₂ : List (CBlockIndex × List CBlockIndex)) (nActualSpacing₁ nActualSpacing₂ : Int)
    (retargeting : params.fPowNoRetargeting = false)
    (minimum₁ : params.nMinimumDifficultyBlocks ≤ ancestors₁.length)
    (minimum₂ : params.nMinimumDifficultyBlocks ≤ ancestors₂.length)
    (found₁ : blocksOfType bits true (tip₁ :: ancestors₁) =
      (last₁, lastAncestors₁) :: (prev₁, prevAncestors₁) :: older₁)
    (found₂ : blocksOfType bits true (tip₂ :: ancestors₂) =
      (last₂, lastAncestors₂) :: (prev₂, prevAncestors₂) :: older₂)
    (prevHybrid₁ : params.posPowStartHeight ≤ prevAncestors₁.length)
    (prevHybrid₂ : params.posPowStartHeight ≤ prevAncestors₂.length)
    (late₁ : params.posStartHeight < lastAncestors₁.length)
    (late₂ : params.posStartHeight < lastAncestors₂.length)
    (clamped₁ : nActualSpacing₁ = if last₁.getBlockTime - prev₁.getBlockTime < 0 then 1
      else last₁.getBlockTime - prev₁.getBlockTime)
    (clamped₂ : nActualSpacing₂ = if last₂.getBlockTime - prev₂.getBlockTime < 0 then 1
      else last₂.getBlockTime - prev₂.getBlockTime)
    (sameTarget : last₁.nBits = last₂.nBits) (hard : 2 ≤ (blockTarget last₁).toNat)
    (spacing : 0 < params.nHybridPosTargetSpacing)
    (high : 39 * params.nHybridPosTargetSpacing + 2 * nActualSpacing₂ < 2 ^ 32)
    (noWrap : (blockTarget last₁).toNat *
      (39 * params.nHybridPosTargetSpacing + 2 * nActualSpacing₂).toNat < 2 ^ 256)
    (slower : nActualSpacing₁ ≤ nActualSpacing₂) :
    ∃ nNew₁ nNew₂, getNextWorkRequired bits params (tip₁ :: ancestors₁) false = .ok nNew₁ ∧
      getNextWorkRequired bits params (tip₂ :: ancestors₂) false = .ok nNew₂ ∧
      (setCompact nNew₁).value ≤ (setCompact nNew₂).value := by
  rw [getNextWorkRequired_pos_track_eq bits params tip₁ ancestors₁ retargeting minimum₁ found₁
      prevHybrid₁ late₁, ← clamped₁,
    getNextWorkRequired_pos_track_eq bits params tip₂ ancestors₂ retargeting minimum₂ found₂
      prevHybrid₂ late₂, ← clamped₂, ← sameTarget]
  have nonnegative : 0 ≤ nActualSpacing₁ := by rw [clamped₁]; split <;> omega
  have multiplier : ∀ A : Int, (40 - 1) * params.nHybridPosTargetSpacing + A + A =
      39 * params.nHybridPosTargetSpacing + 2 * A := fun A => by ring
  rw [← multiplier] at high noWrap
  have doubled := Nat.mul_le_mul_right
    ((40 - 1) * params.nHybridPosTargetSpacing + nActualSpacing₁ + nActualSpacing₁).toNat hard
  obtain ⟨nNew₁, returned₁⟩ := @exponentialRetarget_returns params.posLimit last₁.nBits 40
    params.nHybridPosTargetSpacing nActualSpacing₁ (by omega) (by omega)
  obtain ⟨nNew₂, returned₂⟩ := @exponentialRetarget_returns params.posLimit last₁.nBits 40
    params.nHybridPosTargetSpacing nActualSpacing₂ (by omega) (by omega)
  exact ⟨nNew₁, nNew₂, returned₁, returned₂, exponentialRetarget_mono (by omega) (by omega)
    (by omega) (by unfold blockTarget at doubled; omega) slower high noWrap returned₁ returned₂⟩

theorem getNextWorkRequired_pos_track_mono_slow_tip :
    ∃ nNew₁ nNew₂, getNextWorkRequired ⟨1, 1⟩
        { lateEraParams with posPowStartHeight := 0, posStartHeight := 0 }
        [⟨1, 128, 0x1d00ffff⟩, ⟨1, 64, 0x1d00ffff⟩, ⟨0, 0, 0x1d00ffff⟩] false = .ok nNew₁ ∧
      getNextWorkRequired ⟨1, 1⟩ { lateEraParams with posPowStartHeight := 0, posStartHeight := 0 }
        [⟨1, 200, 0x1d00ffff⟩, ⟨1, 64, 0x1d00ffff⟩, ⟨0, 0, 0x1d00ffff⟩] false = .ok nNew₂ ∧
      (setCompact nNew₁).value ≤ (setCompact nNew₂).value :=
  getNextWorkRequired_pos_track_mono ⟨1, 1⟩
    { lateEraParams with posPowStartHeight := 0, posStartHeight := 0 } ⟨1, 128, 0x1d00ffff⟩
    ⟨1, 200, 0x1d00ffff⟩ ⟨1, 128, 0x1d00ffff⟩ ⟨1, 200, 0x1d00ffff⟩ ⟨1, 64, 0x1d00ffff⟩
    ⟨1, 64, 0x1d00ffff⟩ [⟨1, 64, 0x1d00ffff⟩, ⟨0, 0, 0x1d00ffff⟩]
    [⟨1, 64, 0x1d00ffff⟩, ⟨0, 0, 0x1d00ffff⟩] [⟨1, 64, 0x1d00ffff⟩, ⟨0, 0, 0x1d00ffff⟩]
    [⟨1, 64, 0x1d00ffff⟩, ⟨0, 0, 0x1d00ffff⟩] [⟨0, 0, 0x1d00ffff⟩] [⟨0, 0, 0x1d00ffff⟩] [] []
    64 136 rfl (by decide) (by decide) rfl rfl (by decide) (by decide) (by decide) (by decide)
    (by decide) (by decide) rfl (by decide) (by decide) (by decide) (by decide) (by decide)

theorem lt_of_mul_timespan_lt {hi : Nat} {nTargetTimespan : Int} (wide : 32 ≤ nTargetTimespan)
    (noWrap : hi * nTargetTimespan.toNat < 2 ^ 256) : hi < 2 ^ 251 := by
  have := Nat.mul_le_mul_left hi (show 32 ≤ nTargetTimespan.toNat by omega)
  omega

theorem rescaleAverage_eq_ok {bnPastTargetAvg bnTargetLimit : ArithUint256}
    {nActualTimespan nTargetTimespan c : Int} (factor : 0 < c) (low : 0 < nTargetTimespan)
    (high : nTargetTimespan * c < 2 ^ 32)
    (noWrap : bnPastTargetAvg.toNat * (nTargetTimespan * c).toNat < 2 ^ 256) :
    ∃ bnNew : ArithUint256, bnNew.toNat = bnPastTargetAvg.toNat *
        (min (max nActualTimespan (nTargetTimespan.tdiv c)) (nTargetTimespan * c)).toNat /
          nTargetTimespan.toNat ∧
      rescaleAverage bnPastTargetAvg nActualTimespan nTargetTimespan c bnTargetLimit =
        .ok (getCompact (if bnNew > bnTargetLimit then bnTargetLimit else bnNew)) := by
  have spanLow : 0 ≤ min (max nActualTimespan (nTargetTimespan.tdiv c)) (nTargetTimespan * c) :=
    le_min (le_max_of_le_right (Int.tdiv_nonneg low.le factor.le)) (by positivity)
  have spanHigh :=
    min_le_right (max nActualTimespan (nTargetTimespan.tdiv c)) (nTargetTimespan * c)
  have product : bnPastTargetAvg.toNat *
      (min (max nActualTimespan (nTargetTimespan.tdiv c)) (nTargetTimespan * c)).toNat <
        2 ^ 256 :=
    lt_of_le_of_lt (Nat.mul_le_mul_left _ (Int.toNat_le_toNat spanHigh)) noWrap
  refine ⟨_, by rw [BitVec.toNat_ofNat, Nat.mod_eq_of_lt (lt_of_le_of_lt (Nat.div_le_self _ _)
    product)], ?_⟩
  simp only [rescaleAverage, clamp_eq_min_max, divU64_mulU32_eq_ok spanLow
    (lt_of_le_of_lt spanHigh high) low
    (lt_of_le_of_lt (le_mul_of_one_le_right low.le factor) (by omega)) product]
  rfl

theorem rescaleAverage_le_factor {bnPastTargetAvg bnTargetLimit : ArithUint256}
    {nActualTimespan nTargetTimespan c : Int} {nNew : UInt32} (factor : 0 < c)
    (low : 0 < nTargetTimespan) (high : nTargetTimespan * c < 2 ^ 32)
    (noWrap : bnPastTargetAvg.toNat * (nTargetTimespan * c).toNat < 2 ^ 256)
    (returned : rescaleAverage bnPastTargetAvg nActualTimespan nTargetTimespan c bnTargetLimit =
      .ok nNew) :
    (setCompact nNew).value.toNat ≤ c.toNat * bnPastTargetAvg.toNat := by
  obtain ⟨bnNew, quotient, scaled⟩ := @rescaleAverage_eq_ok _ bnTargetLimit nActualTimespan _ _
    factor low high noWrap
  rw [scaled, Except.ok.injEq] at returned
  subst returned
  obtain ⟨T, rfl⟩ := Int.eq_ofNat_of_zero_le low.le
  obtain ⟨k, rfl⟩ := Int.eq_ofNat_of_zero_le factor.le
  have span := min_le_right (max nActualTimespan ((T : Int).tdiv k)) ((T : Int) * k)
  rw [← Nat.cast_mul, Int.toNat_natCast] at quotient
  calc (setCompact (getCompact _)).value.toNat ≤ bnNew.toNat :=
        BitVec.le_def.mp (BitVec.le_trans (getCompact_within _).2.2 (cap_le_self _ _))
    _ ≤ bnPastTargetAvg.toNat * (T * k) / T :=
        quotient ▸ Nat.div_le_div_right (Nat.mul_le_mul_left _ (by omega))
    _ = k * bnPastTargetAvg.toNat := by
      rw [Nat.mul_comm T k, ← Nat.mul_assoc, Nat.mul_div_cancel _ (by omega), Nat.mul_comm]

theorem averagedWindowTarget_le_factor {window : List CBlockIndex} {c S : Int}
    (L : ArithUint256) {hi : Nat} (divides : c ∣ 24) (factor : 0 < c) (spacing : 0 < S)
    (high : 24 * S * c < 2 ^ 32) (length : window.length ≤ 24) (nonempty : window ≠ [])
    (small : hi < 2 ^ 251) (bounded : ∀ b ∈ window, (blockTarget b).toNat ≤ hi)
    (noWrap : hi * (24 * S * c).toNat < 2 ^ 256) :
    ∃ nNew, averagedWindowTarget window c S L = .ok nNew ∧
      (setCompact nNew).value.toNat ≤ c.toNat * hi := by
  obtain ⟨newest, older, rfl⟩ := List.exists_cons_of_ne_nil nonempty
  have average := (@windowAverage_between newest older 0 hi length small
    fun b member => ⟨Nat.zero_le _, bounded b member⟩).2
  have timespan : 24 * S ≤ 24 * S * c := le_mul_of_one_le_right (by omega) factor
  rw [averagedWindowTarget_cons _ _ _ _ divides]
  obtain ⟨nNew, returned⟩ := @rescaleAverage_returns
    (pastTargetAverage (blockTarget newest) (older.map blockTarget)) L
    (newest.getBlockTime - (older.getLastD newest).getBlockTime) (24 * S) c (by omega) (by omega)
  refine ⟨nNew, returned, ?_⟩
  exact (rescaleAverage_le_factor factor (by omega) high
    (lt_of_le_of_lt (Nat.mul_le_mul_right _ average) noWrap) returned).trans
    (Nat.mul_le_mul_left _ average)

theorem rescaleAverage_ge_factor {bnPastTargetAvg bnTargetLimit : ArithUint256}
    {nActualTimespan nTargetTimespan c : Int} {nNew : UInt32} (factor : 0 < c)
    (low : 0 < nTargetTimespan) (high : nTargetTimespan * c < 2 ^ 32)
    (divides : c ∣ nTargetTimespan)
    (noWrap : bnPastTargetAvg.toNat * (nTargetTimespan * c).toNat < 2 ^ 256)
    (returned : rescaleAverage bnPastTargetAvg nActualTimespan nTargetTimespan c bnTargetLimit =
      .ok nNew) :
    min bnTargetLimit.toNat (bnPastTargetAvg.toNat / c.toNat) ≤
      (setCompact nNew).value.toNat + (setCompact nNew).value.toNat / 2 ^ 15 := by
  obtain ⟨bnNew, quotient, scaled⟩ := @rescaleAverage_eq_ok _ bnTargetLimit nActualTimespan _ _
    factor low high noWrap
  rw [scaled, Except.ok.injEq] at returned
  subst returned
  refine le_trans ?_ (le_getCompact_add_div _)
  obtain ⟨T, rfl⟩ := Int.eq_ofNat_of_zero_le low.le
  obtain ⟨k, rfl⟩ := Int.eq_ofNat_of_zero_le factor.le
  obtain ⟨n, rfl⟩ := Int.natCast_dvd_natCast.1 divides
  have whole : n ≤ k * n := Nat.le_mul_of_pos_left n (by omega)
  have floor : ((k * n : Nat) : Int).tdiv k = n := by
    rw [← Int.ofNat_tdiv, Nat.mul_div_cancel_left _ (by omega)]
  have clamped :
      (n : Int) ≤ min (max nActualTimespan (((k * n : Nat) : Int).tdiv k)) (↑(k * n) * k) :=
    le_min (le_max_of_le_right floor.ge)
      (by exact_mod_cast whole.trans (Nat.le_mul_of_pos_right _ (by omega)))
  have span := Int.toNat_le_toNat clamped
  rw [Int.toNat_natCast] at span
  have lower : bnPastTargetAvg.toNat / k ≤ bnNew.toNat := by
    rw [quotient, Int.toNat_natCast]
    calc bnPastTargetAvg.toNat / k = bnPastTargetAvg.toNat * n / (k * n) :=
          (Nat.mul_div_mul_right _ _ (Nat.pos_of_ne_zero (by rintro rfl; simp at low))).symm
      _ ≤ _ := Nat.div_le_div_right (Nat.mul_le_mul_left _ span)
  rw [Int.toNat_natCast]
  split
  · exact min_le_left _ _
  · exact min_le_of_right_le lower

theorem averagedWindowTarget_ge_factor {window : List CBlockIndex} {c S : Int}
    (L : ArithUint256) {lo hi : Nat} (divides : c ∣ 24) (factor : 0 < c) (spacing : 0 < S)
    (high : 24 * S * c < 2 ^ 32) (length : window.length ≤ 24) (nonempty : window ≠ [])
    (small : hi < 2 ^ 251)
    (bounded : ∀ b ∈ window, lo ≤ (blockTarget b).toNat ∧ (blockTarget b).toNat ≤ hi)
    (noWrap : hi * (24 * S * c).toNat < 2 ^ 256) :
    ∃ nNew, averagedWindowTarget window c S L = .ok nNew ∧
      min L.toNat (lo / c.toNat) ≤
        (setCompact nNew).value.toNat + (setCompact nNew).value.toNat / 2 ^ 15 := by
  obtain ⟨newest, older, rfl⟩ := List.exists_cons_of_ne_nil nonempty
  have average := windowAverage_between length small bounded
  have timespan : 24 * S ≤ 24 * S * c := le_mul_of_one_le_right (by omega) factor
  rw [averagedWindowTarget_cons _ _ _ _ divides]
  obtain ⟨nNew, returned⟩ := @rescaleAverage_returns
    (pastTargetAverage (blockTarget newest) (older.map blockTarget)) L
    (newest.getBlockTime - (older.getLastD newest).getBlockTime) (24 * S) c (by omega) (by omega)
  refine ⟨nNew, returned, le_trans ?_ (rescaleAverage_ge_factor factor (by omega) high
    (Dvd.dvd.mul_right divides S) (lt_of_le_of_lt (Nat.mul_le_mul_right _ average.2) noWrap)
    returned)⟩
  exact min_le_min_left _ (Nat.div_le_div_right average.1)

theorem rescaleAverage_mono {bnPastTargetAvg bnTargetLimit : ArithUint256}
    {nActualTimespan₁ nActualTimespan₂ nTargetTimespan c : Int} {nNew₁ nNew₂ : UInt32}
    (factor : 0 < c) (low : 0 < nTargetTimespan) (high : nTargetTimespan * c < 2 ^ 32)
    (noWrap : bnPastTargetAvg.toNat * (nTargetTimespan * c).toNat < 2 ^ 256)
    (slower : nActualTimespan₁ ≤ nActualTimespan₂)
    (returned₁ : rescaleAverage bnPastTargetAvg nActualTimespan₁ nTargetTimespan c
      bnTargetLimit = .ok nNew₁)
    (returned₂ : rescaleAverage bnPastTargetAvg nActualTimespan₂ nTargetTimespan c
      bnTargetLimit = .ok nNew₂) :
    (setCompact nNew₁).value ≤ (setCompact nNew₂).value := by
  obtain ⟨bnNew₁, quotient₁, scaled₁⟩ := @rescaleAverage_eq_ok _ bnTargetLimit nActualTimespan₁ _ _
    factor low high noWrap
  obtain ⟨bnNew₂, quotient₂, scaled₂⟩ := @rescaleAverage_eq_ok _ bnTargetLimit nActualTimespan₂ _ _
    factor low high noWrap
  rw [scaled₁, Except.ok.injEq] at returned₁
  rw [scaled₂, Except.ok.injEq] at returned₂
  subst returned₁ returned₂
  have spans : min (max nActualTimespan₁ (nTargetTimespan.tdiv c)) (nTargetTimespan * c) ≤
      min (max nActualTimespan₂ (nTargetTimespan.tdiv c)) (nTargetTimespan * c) :=
    min_le_min_right _ (max_le_max slower le_rfl)
  refine getCompact_mono (cap_mono _ ?_)
  rw [BitVec.le_def, quotient₁, quotient₂]
  exact Nat.div_le_div_right (Nat.mul_le_mul_left _ (Int.toNat_le_toNat spans))

def windowTimespan : List CBlockIndex → Int
  | [] => 0
  | newest :: older => newest.getBlockTime - (older.getLastD newest).getBlockTime

theorem averagedWindowTarget_mono {window₁ window₂ : List CBlockIndex} {c S : Int}
    (L : ArithUint256) {hi : Nat} (divides : c ∣ 24) (factor : 0 < c) (spacing : 0 < S)
    (high : 24 * S * c < 2 ^ 32) (length : window₁.length ≤ 24) (nonempty : window₁ ≠ [])
    (small : hi < 2 ^ 251) (bounded : ∀ b ∈ window₁, (blockTarget b).toNat ≤ hi)
    (noWrap : hi * (24 * S * c).toNat < 2 ^ 256)
    (sameTargets : window₁.map blockTarget = window₂.map blockTarget)
    (slower : windowTimespan window₁ ≤ windowTimespan window₂) :
    ∃ nNew₁ nNew₂, averagedWindowTarget window₁ c S L = .ok nNew₁ ∧
      averagedWindowTarget window₂ c S L = .ok nNew₂ ∧
      (setCompact nNew₁).value ≤ (setCompact nNew₂).value := by
  obtain ⟨newest₁, older₁, rfl⟩ := List.exists_cons_of_ne_nil nonempty
  rcases window₂ with _ | ⟨newest₂, older₂⟩
  · simp at sameTargets
  obtain ⟨newestSame, olderSame⟩ := List.cons.inj sameTargets
  have average := (@windowAverage_between newest₁ older₁ 0 hi length small
    fun b member => ⟨Nat.zero_le _, bounded b member⟩).2
  have timespan : 24 * S ≤ 24 * S * c := le_mul_of_one_le_right (by omega) factor
  simp only [averagedWindowTarget_cons _ _ _ _ divides, ← newestSame, ← olderSame]
  obtain ⟨nNew₁, returned₁⟩ := @rescaleAverage_returns
    (pastTargetAverage (blockTarget newest₁) (older₁.map blockTarget)) L
    (windowTimespan (newest₁ :: older₁)) (24 * S) c (by omega) (by omega)
  obtain ⟨nNew₂, returned₂⟩ := @rescaleAverage_returns
    (pastTargetAverage (blockTarget newest₁) (older₁.map blockTarget)) L
    (windowTimespan (newest₂ :: older₂)) (24 * S) c (by omega) (by omega)
  exact ⟨nNew₁, nNew₂, returned₁, returned₂, rescaleAverage_mono factor (by omega) high
    (lt_of_le_of_lt (Nat.mul_le_mul_right _ average) noWrap) slower returned₁ returned₂⟩

theorem getNextWorkRequired_pivx_eq (bits : BlockTypeBits) (params : Params)
    (last : CBlockIndex) (ancestors : List CBlockIndex) (fHybridPow : Bool)
    (minimum : params.nMinimumDifficultyBlocks ≤ ancestors.length)
    (beforeHybrid : (ancestors.length : Int) + 1 < params.posPowStartHeight)
    (dgwFromGenesis : 0 ≤ params.dgwDifficultyStartHeight)
    (retargeting : params.fPowNoRetargeting = false)
    (longEnough : params.dgwDifficultyStartHeight + 24 ≤ ancestors.length)
    (beforeStaking : (ancestors.length : Int) ≤ params.posStartHeight)
    (noException :
      ¬ (params.networkId = .testnet ∧ (ancestors.length : Int) + 3 > params.posStartHeight))
    (positive : ∀ b ∈ (last :: ancestors).take 24, 0 < b.getBlockTime) :
    getNextWorkRequired bits params (last :: ancestors) fHybridPow =
      averagedWindowTarget ((last :: ancestors).take 24) 3 params.nPosTargetSpacing
        (params.targetLimit (isProofOfStakeHeight params (ancestors.length + 1))) := by
  simp only [getNextWorkRequired,
    if_neg (show ¬ (ancestors.length : Int) < params.nMinimumDifficultyBlocks by omega),
    if_neg (show ¬ (ancestors.length : Int) + 1 ≥ params.posPowStartHeight by omega),
    if_pos (show (ancestors.length : Int) ≥ params.dgwDifficultyStartHeight by omega),
    getNextWorkRequiredPivx_eq_averagedWindow params last ancestors _ dgwFromGenesis retargeting
      longEnough beforeStaking noException positive]

/-- In the single-track averaged-window era the next target is at most three times the
largest target of the tip and its 23 nearest ancestors. -/
theorem getNextWorkRequired_pivx_le_threefold (bits : BlockTypeBits) (params : Params)
    (last : CBlockIndex) (ancestors : List CBlockIndex) (fHybridPow : Bool) {hi : Nat}
    (minimum : params.nMinimumDifficultyBlocks ≤ ancestors.length)
    (beforeHybrid : (ancestors.length : Int) + 1 < params.posPowStartHeight)
    (dgwFromGenesis : 0 ≤ params.dgwDifficultyStartHeight)
    (retargeting : params.fPowNoRetargeting = false)
    (longEnough : params.dgwDifficultyStartHeight + 24 ≤ ancestors.length)
    (beforeStaking : (ancestors.length : Int) ≤ params.posStartHeight)
    (noException :
      ¬ (params.networkId = .testnet ∧ (ancestors.length : Int) + 3 > params.posStartHeight))
    (positive : ∀ b ∈ (last :: ancestors).take 24, 0 < b.getBlockTime)
    (spacing : 0 < params.nPosTargetSpacing) (high : 72 * params.nPosTargetSpacing < 2 ^ 32)
    (bounded : ∀ b ∈ (last :: ancestors).take 24, (blockTarget b).toNat ≤ hi)
    (noWrap : hi * (72 * params.nPosTargetSpacing).toNat < 2 ^ 256) :
    ∃ nNew, getNextWorkRequired bits params (last :: ancestors) fHybridPow = .ok nNew ∧
      (setCompact nNew).value.toNat ≤ 3 * hi := by
  rw [getNextWorkRequired_pivx_eq bits params last ancestors fHybridPow minimum beforeHybrid
    dgwFromGenesis retargeting longEnough beforeStaking noException positive]
  rw [show (72 : Int) * params.nPosTargetSpacing = 24 * params.nPosTargetSpacing * 3 by ring]
    at high noWrap
  exact averagedWindowTarget_le_factor _ (by norm_num) (by norm_num) spacing high
    (by simp) (by simp) (lt_of_mul_timespan_lt (by omega) noWrap) bounded noWrap

theorem getNextWorkRequired_pivx_le_threefold_replicated :
    ∃ nNew, getNextWorkRequired ⟨1, 1⟩ { lateEraParams with dgwDifficultyStartHeight := 0 }
        (⟨0, 100, 0x1d00ffff⟩ :: List.replicate 24 ⟨0, 100, 0x1d00ffff⟩) false = .ok nNew ∧
      (setCompact nNew).value.toNat ≤ 3 * (blockTarget ⟨0, 100, 0x1d00ffff⟩).toNat :=
  getNextWorkRequired_pivx_le_threefold ⟨1, 1⟩ { lateEraParams with dgwDifficultyStartHeight := 0 }
    ⟨0, 100, 0x1d00ffff⟩ (List.replicate 24 ⟨0, 100, 0x1d00ffff⟩) false (by decide) (by decide)
    (by decide) rfl (by decide) (by decide) (by decide) (by decide) (by decide) (by decide)
    (by decide) (by decide)

/-- In the single-track averaged-window era the next target is at least a third of the
smallest target of the tip and its 23 nearest ancestors, or the ceiling when that is lower, up
to the rounding of packing. -/
theorem getNextWorkRequired_pivx_ge_third (bits : BlockTypeBits) (params : Params)
    (last : CBlockIndex) (ancestors : List CBlockIndex) (fHybridPow : Bool) {lo hi : Nat}
    (minimum : params.nMinimumDifficultyBlocks ≤ ancestors.length)
    (beforeHybrid : (ancestors.length : Int) + 1 < params.posPowStartHeight)
    (dgwFromGenesis : 0 ≤ params.dgwDifficultyStartHeight)
    (retargeting : params.fPowNoRetargeting = false)
    (longEnough : params.dgwDifficultyStartHeight + 24 ≤ ancestors.length)
    (beforeStaking : (ancestors.length : Int) ≤ params.posStartHeight)
    (noException :
      ¬ (params.networkId = .testnet ∧ (ancestors.length : Int) + 3 > params.posStartHeight))
    (positive : ∀ b ∈ (last :: ancestors).take 24, 0 < b.getBlockTime)
    (spacing : 0 < params.nPosTargetSpacing) (high : 72 * params.nPosTargetSpacing < 2 ^ 32)
    (bounded : ∀ b ∈ (last :: ancestors).take 24,
      lo ≤ (blockTarget b).toNat ∧ (blockTarget b).toNat ≤ hi)
    (noWrap : hi * (72 * params.nPosTargetSpacing).toNat < 2 ^ 256) :
    ∃ nNew, getNextWorkRequired bits params (last :: ancestors) fHybridPow = .ok nNew ∧
      min (params.targetLimit (isProofOfStakeHeight params (ancestors.length + 1))).toNat
          (lo / 3) ≤
        (setCompact nNew).value.toNat + (setCompact nNew).value.toNat / 2 ^ 15 := by
  rw [getNextWorkRequired_pivx_eq bits params last ancestors fHybridPow minimum beforeHybrid
    dgwFromGenesis retargeting longEnough beforeStaking noException positive]
  rw [show (72 : Int) * params.nPosTargetSpacing = 24 * params.nPosTargetSpacing * 3 by ring]
    at high noWrap
  exact averagedWindowTarget_ge_factor _ (by norm_num) (by norm_num) spacing high
    (by simp) (by simp) (lt_of_mul_timespan_lt (by omega) noWrap) bounded noWrap

theorem getNextWorkRequired_pivx_ge_third_replicated :
    ∃ nNew, getNextWorkRequired ⟨1, 1⟩ { lateEraParams with dgwDifficultyStartHeight := 0 }
        (⟨0, 100, 0x1d00ffff⟩ :: List.replicate 24 ⟨0, 100, 0x1d00ffff⟩) false = .ok nNew ∧
      min (({ lateEraParams with dgwDifficultyStartHeight := 0 } : Params).targetLimit
          (isProofOfStakeHeight { lateEraParams with dgwDifficultyStartHeight := 0 }
            (24 + 1))).toNat
          ((blockTarget ⟨0, 100, 0x1d00ffff⟩).toNat / 3) ≤
        (setCompact nNew).value.toNat + (setCompact nNew).value.toNat / 2 ^ 15 :=
  @getNextWorkRequired_pivx_ge_third ⟨1, 1⟩ { lateEraParams with dgwDifficultyStartHeight := 0 }
    ⟨0, 100, 0x1d00ffff⟩ (List.replicate 24 ⟨0, 100, 0x1d00ffff⟩) false
    (blockTarget ⟨0, 100, 0x1d00ffff⟩).toNat (blockTarget ⟨0, 100, 0x1d00ffff⟩).toNat
    (by decide) (by decide) (by decide) rfl (by decide) (by decide) (by decide) (by decide)
    (by decide) (by decide) (by decide) (by decide)

theorem getNextWorkRequired_pow_track_eq (bits : BlockTypeBits) (params : Params)
    (tip : CBlockIndex) (ancestors : List CBlockIndex)
    (minimum : params.nMinimumDifficultyBlocks ≤ ancestors.length)
    (noMinDifficulty : params.fPowAllowMinDifficultyBlocks = false)
    (enough : 24 ≤ (blocksOfType bits false (tip :: ancestors)).length)
    (hybridEra : ∀ e ∈ (blocksOfType bits false (tip :: ancestors)).take 24,
      params.posPowStartHeight < e.2.length) :
    getNextWorkRequired bits params (tip :: ancestors) true =
      averagedWindowTarget (((blocksOfType bits false (tip :: ancestors)).take 24).map Prod.fst) 4
        params.nHybridPowTargetSpacing params.hybridPowLimit := by
  obtain ⟨e, member⟩ := List.exists_mem_of_length_pos
    (show 0 < ((blocksOfType bits false (tip :: ancestors)).take 24).length by simp; omega)
  have inEra := hybridEra e member
  have below := length_lt_of_mem_blocksOfType (List.mem_of_mem_take member)
  simp only [List.length_cons] at below
  simp only [getNextWorkRequired,
    if_neg (show ¬ (ancestors.length : Int) < params.nMinimumDifficultyBlocks by omega),
    if_pos (show (ancestors.length : Int) + 1 ≥ params.posPowStartHeight by omega), if_true,
    hybridPoWDarkGravityWave_eq_averagedWindow bits params _ noMinDifficulty enough hybridEra]

/-- On the proof-of-work track of the hybrid era, once its 24 newest blocks are in the era,
the next target is at most four times the largest target among them. -/
theorem getNextWorkRequired_pow_track_le_fourfold (bits : BlockTypeBits) (params : Params)
    (tip : CBlockIndex) (ancestors : List CBlockIndex) {hi : Nat}
    (minimum : params.nMinimumDifficultyBlocks ≤ ancestors.length)
    (noMinDifficulty : params.fPowAllowMinDifficultyBlocks = false)
    (enough : 24 ≤ (blocksOfType bits false (tip :: ancestors)).length)
    (hybridEra : ∀ e ∈ (blocksOfType bits false (tip :: ancestors)).take 24,
      params.posPowStartHeight < e.2.length)
    (spacing : 0 < params.nHybridPowTargetSpacing)
    (high : 96 * params.nHybridPowTargetSpacing < 2 ^ 32)
    (bounded : ∀ e ∈ (blocksOfType bits false (tip :: ancestors)).take 24,
      (blockTarget e.1).toNat ≤ hi)
    (noWrap : hi * (96 * params.nHybridPowTargetSpacing).toNat < 2 ^ 256) :
    ∃ nNew, getNextWorkRequired bits params (tip :: ancestors) true = .ok nNew ∧
      (setCompact nNew).value.toNat ≤ 4 * hi := by
  rw [getNextWorkRequired_pow_track_eq bits params tip ancestors minimum noMinDifficulty enough
    hybridEra]
  rw [show (96 : Int) * params.nHybridPowTargetSpacing = 24 * params.nHybridPowTargetSpacing * 4
    by ring] at high noWrap
  refine averagedWindowTarget_le_factor _ (by norm_num) (by norm_num) spacing high (by simp)
    (List.ne_nil_of_length_pos (by simp; omega)) (lt_of_mul_timespan_lt (by omega) noWrap)
    (fun b window => ?_) noWrap
  obtain ⟨e, windowMember, rfl⟩ := List.mem_map.1 window
  exact bounded e windowMember

theorem getNextWorkRequired_pow_track_le_fourfold_replicated :
    ∃ nNew, getNextWorkRequired ⟨1, 1⟩ windowFromGenesisParams
        (⟨0, 100, 0x1d00ffff⟩ :: List.replicate 24 ⟨0, 100, 0x1d00ffff⟩) true = .ok nNew ∧
      (setCompact nNew).value.toNat ≤ 4 * (blockTarget ⟨0, 100, 0x1d00ffff⟩).toNat :=
  getNextWorkRequired_pow_track_le_fourfold ⟨1, 1⟩ windowFromGenesisParams ⟨0, 100, 0x1d00ffff⟩
    (List.replicate 24 ⟨0, 100, 0x1d00ffff⟩) (by decide) rfl (by decide) (by decide) (by decide)
    (by decide) (by decide) (by decide)

/-- On the proof-of-work track of the hybrid era, once its 24 newest blocks are in the era,
the next target is at least a quarter of the smallest target among them, or the ceiling when
that is lower, up to the rounding of packing. -/
theorem getNextWorkRequired_pow_track_ge_quarter (bits : BlockTypeBits) (params : Params)
    (tip : CBlockIndex) (ancestors : List CBlockIndex) {lo hi : Nat}
    (minimum : params.nMinimumDifficultyBlocks ≤ ancestors.length)
    (noMinDifficulty : params.fPowAllowMinDifficultyBlocks = false)
    (enough : 24 ≤ (blocksOfType bits false (tip :: ancestors)).length)
    (hybridEra : ∀ e ∈ (blocksOfType bits false (tip :: ancestors)).take 24,
      params.posPowStartHeight < e.2.length)
    (spacing : 0 < params.nHybridPowTargetSpacing)
    (high : 96 * params.nHybridPowTargetSpacing < 2 ^ 32)
    (bounded : ∀ e ∈ (blocksOfType bits false (tip :: ancestors)).take 24,
      lo ≤ (blockTarget e.1).toNat ∧ (blockTarget e.1).toNat ≤ hi)
    (noWrap : hi * (96 * params.nHybridPowTargetSpacing).toNat < 2 ^ 256) :
    ∃ nNew, getNextWorkRequired bits params (tip :: ancestors) true = .ok nNew ∧
      min params.hybridPowLimit.toNat (lo / 4) ≤
        (setCompact nNew).value.toNat + (setCompact nNew).value.toNat / 2 ^ 15 := by
  rw [getNextWorkRequired_pow_track_eq bits params tip ancestors minimum noMinDifficulty enough
    hybridEra]
  rw [show (96 : Int) * params.nHybridPowTargetSpacing = 24 * params.nHybridPowTargetSpacing * 4
    by ring] at high noWrap
  refine averagedWindowTarget_ge_factor _ (by norm_num) (by norm_num) spacing high (by simp)
    (List.ne_nil_of_length_pos (by simp; omega)) (lt_of_mul_timespan_lt (by omega) noWrap)
    (fun b window => ?_) noWrap
  obtain ⟨e, windowMember, rfl⟩ := List.mem_map.1 window
  exact bounded e windowMember

theorem getNextWorkRequired_pow_track_ge_quarter_replicated :
    ∃ nNew, getNextWorkRequired ⟨1, 1⟩ windowFromGenesisParams
        (⟨0, 100, 0x1d00ffff⟩ :: List.replicate 24 ⟨0, 100, 0x1d00ffff⟩) true = .ok nNew ∧
      min windowFromGenesisParams.hybridPowLimit.toNat
          ((blockTarget ⟨0, 100, 0x1d00ffff⟩).toNat / 4) ≤
        (setCompact nNew).value.toNat + (setCompact nNew).value.toNat / 2 ^ 15 :=
  @getNextWorkRequired_pow_track_ge_quarter ⟨1, 1⟩ windowFromGenesisParams ⟨0, 100, 0x1d00ffff⟩
    (List.replicate 24 ⟨0, 100, 0x1d00ffff⟩) (blockTarget ⟨0, 100, 0x1d00ffff⟩).toNat
    (blockTarget ⟨0, 100, 0x1d00ffff⟩).toNat (by decide) rfl (by decide) (by decide) (by decide)
    (by decide) (by decide) (by decide)

/-- On the proof-of-work track of the hybrid era, of two chains whose 24 newest non-staking
blocks are in the era and carry the same targets, the one whose window spans longer gets a
target at least as easy: slower blocks never make the proof-of-work target harder. -/
theorem getNextWorkRequired_pow_track_mono (bits : BlockTypeBits) (params : Params)
    (tip₁ tip₂ : CBlockIndex) (ancestors₁ ancestors₂ : List CBlockIndex) {hi : Nat}
    (minimum₁ : params.nMinimumDifficultyBlocks ≤ ancestors₁.length)
    (minimum₂ : params.nMinimumDifficultyBlocks ≤ ancestors₂.length)
    (noMinDifficulty : params.fPowAllowMinDifficultyBlocks = false)
    (enough₁ : 24 ≤ (blocksOfType bits false (tip₁ :: ancestors₁)).length)
    (enough₂ : 24 ≤ (blocksOfType bits false (tip₂ :: ancestors₂)).length)
    (hybridEra₁ : ∀ e ∈ (blocksOfType bits false (tip₁ :: ancestors₁)).take 24,
      params.posPowStartHeight < e.2.length)
    (hybridEra₂ : ∀ e ∈ (blocksOfType bits false (tip₂ :: ancestors₂)).take 24,
      params.posPowStartHeight < e.2.length)
    (spacing : 0 < params.nHybridPowTargetSpacing)
    (high : 96 * params.nHybridPowTargetSpacing < 2 ^ 32)
    (bounded : ∀ e ∈ (blocksOfType bits false (tip₁ :: ancestors₁)).take 24,
      (blockTarget e.1).toNat ≤ hi)
    (noWrap : hi * (96 * params.nHybridPowTargetSpacing).toNat < 2 ^ 256)
    (sameTargets :
      ((blocksOfType bits false (tip₁ :: ancestors₁)).take 24).map (blockTarget ∘ Prod.fst) =
        ((blocksOfType bits false (tip₂ :: ancestors₂)).take 24).map (blockTarget ∘ Prod.fst))
    (slower :
      windowTimespan (((blocksOfType bits false (tip₁ :: ancestors₁)).take 24).map Prod.fst) ≤
        windowTimespan (((blocksOfType bits false (tip₂ :: ancestors₂)).take 24).map Prod.fst)) :
    ∃ nNew₁ nNew₂, getNextWorkRequired bits params (tip₁ :: ancestors₁) true = .ok nNew₁ ∧
      getNextWorkRequired bits params (tip₂ :: ancestors₂) true = .ok nNew₂ ∧
      (setCompact nNew₁).value ≤ (setCompact nNew₂).value := by
  rw [getNextWorkRequired_pow_track_eq bits params tip₁ ancestors₁ minimum₁ noMinDifficulty enough₁
      hybridEra₁,
    getNextWorkRequired_pow_track_eq bits params tip₂ ancestors₂ minimum₂ noMinDifficulty enough₂
      hybridEra₂]
  rw [show (96 : Int) * params.nHybridPowTargetSpacing = 24 * params.nHybridPowTargetSpacing * 4
    by ring] at high noWrap
  refine averagedWindowTarget_mono _ (by norm_num) (by norm_num) spacing high (by simp)
    (List.ne_nil_of_length_pos (by simp; omega)) (lt_of_mul_timespan_lt (by omega) noWrap)
    (fun b window => ?_) noWrap
    (by simpa only [List.map_map] using sameTargets) slower
  obtain ⟨e, windowMember, rfl⟩ := List.mem_map.1 window
  exact bounded e windowMember

theorem getNextWorkRequired_pow_track_mono_late_tip :
    ∃ nNew₁ nNew₂, getNextWorkRequired ⟨1, 1⟩ windowFromGenesisParams
        (⟨0, 100, 0x1d00ffff⟩ :: List.replicate 24 ⟨0, 100, 0x1d00ffff⟩) true = .ok nNew₁ ∧
      getNextWorkRequired ⟨1, 1⟩ windowFromGenesisParams
        (⟨0, 200, 0x1d00ffff⟩ :: List.replicate 24 ⟨0, 100, 0x1d00ffff⟩) true = .ok nNew₂ ∧
      (setCompact nNew₁).value ≤ (setCompact nNew₂).value :=
  @getNextWorkRequired_pow_track_mono ⟨1, 1⟩ windowFromGenesisParams ⟨0, 100, 0x1d00ffff⟩
    ⟨0, 200, 0x1d00ffff⟩ (List.replicate 24 ⟨0, 100, 0x1d00ffff⟩)
    (List.replicate 24 ⟨0, 100, 0x1d00ffff⟩) (blockTarget ⟨0, 100, 0x1d00ffff⟩).toNat
    (by decide) (by decide) rfl (by decide) (by decide) (by decide) (by decide) (by decide)
    (by decide) (by decide) (by decide) (by decide) (by decide)

/-- With minimum-difficulty blocks allowed, on the proof-of-work track of the hybrid era, a
newest proof-of-work block found more than four spacings after the proof-of-work block before
it eases the next target to at least ten times its own, capped at `hybridPowLimit`, up to the
rounding of `GetCompact`. -/
theorem getNextWorkRequired_pow_track_stalled (bits : BlockTypeBits) (params : Params)
    (tip last prev : CBlockIndex) (ancestors lastAncestors prevAncestors : List CBlockIndex)
    (nNew : UInt32) (minimum : params.nMinimumDifficultyBlocks ≤ ancestors.length)
    (hybridEra : params.posPowStartHeight ≤ ancestors.length + 1)
    (allowed : params.fPowAllowMinDifficultyBlocks = true)
    (found : hybridPowLast bits params (tip :: ancestors) = last :: lastAncestors)
    (previous : getHybridPrevIndex bits (last :: lastAncestors) false params.posPowStartHeight =
      prev :: prevAncestors)
    (stalled : last.getBlockTime > prev.getBlockTime + params.nPowTargetSpacing * 4)
    (noWrap : (setCompact last.nBits).value.toNat * 10 < 2 ^ 256)
    (returned : getNextWorkRequired bits params (tip :: ancestors) true = .ok nNew) :
    min params.hybridPowLimit.toNat ((setCompact last.nBits).value.toNat * 10) ≤
      (setCompact nNew).value.toNat + (setCompact nNew).value.toNat / 2 ^ 15 := by
  simp only [getNextWorkRequired,
    if_neg (show ¬ (ancestors.length : Int) < params.nMinimumDifficultyBlocks by omega),
    if_pos (show (ancestors.length : Int) + 1 ≥ params.posPowStartHeight by omega), if_true]
    at returned
  exact hybridPoWDarkGravityWave_stalled allowed found previous stalled noWrap returned

def minDifficultyParams : Params :=
  { lateEraParams with fPowAllowMinDifficultyBlocks := true, posPowStartHeight := 0 }

theorem getNextWorkRequired_pow_track_stalled_late_block :
    min minDifficultyParams.hybridPowLimit.toNat
        ((setCompact (CBlockIndex.nBits ⟨0, 1000, 0x1d00ffff⟩)).value.toNat * 10) ≤
      (setCompact 0x1d09fff6).value.toNat + (setCompact 0x1d09fff6).value.toNat / 2 ^ 15 :=
  getNextWorkRequired_pow_track_stalled ⟨1, 1⟩ minDifficultyParams ⟨0, 1000, 0x1d00ffff⟩
    ⟨0, 1000, 0x1d00ffff⟩ ⟨0, 100, 0x1d00ffff⟩
    (List.replicate 25 ⟨0, 100, 0x1d00ffff⟩ ++ [⟨0, 0, 0x1d00ffff⟩])
    (List.replicate 25 ⟨0, 100, 0x1d00ffff⟩ ++ [⟨0, 0, 0x1d00ffff⟩])
    (List.replicate 24 ⟨0, 100, 0x1d00ffff⟩ ++ [⟨0, 0, 0x1d00ffff⟩]) 0x1d09fff6
    (by decide) (by decide) rfl (by decide) (by decide) (by decide) (by decide) (by decide)

/-- In the Midas era the next target is at most twice the tip's target whenever the retarget
returns and the tip's target is below `2 ^ 255`: the factor is clamped to "doubling or
halving", and the no-op path keeps the tip's target. -/
theorem getNextWorkRequired_midas_le_double (bits : BlockTypeBits) (params : Params)
    (tip : CBlockIndex) (ancestors : List CBlockIndex) (fHybridPow : Bool) (nNew : UInt32)
    (minimum : params.nMinimumDifficultyBlocks ≤ ancestors.length)
    (beforeHybrid : (ancestors.length : Int) + 1 < params.posPowStartHeight)
    (beforeWindow : (ancestors.length : Int) < params.dgwDifficultyStartHeight)
    (midas : params.midasStartHeight ≤ ancestors.length)
    (small : (blockTarget tip).toNat < 2 ^ 255)
    (returned : getNextWorkRequired bits params (tip :: ancestors) fHybridPow = .ok nNew) :
    (setCompact nNew).value.toNat ≤ 2 * (blockTarget tip).toNat := by
  simp only [getNextWorkRequired,
    if_neg (show ¬ (ancestors.length : Int) < params.nMinimumDifficultyBlocks by omega),
    if_neg (show ¬ (ancestors.length : Int) + 1 ≥ params.posPowStartHeight by omega),
    if_neg (show ¬ (ancestors.length : Int) ≥ params.dgwDifficultyStartHeight by omega),
    if_pos (show (ancestors.length : Int) ≥ params.midasStartHeight by omega),
    getNextWorkRequiredMidas, bind, Except.bind] at returned
  split at returned
  · cases returned
  split at returned
  · cases returned
  · exact applyDifficultyFactor_le_double (clampDifficultyFactor_between _).1
      (clampDifficultyFactor_between _).2 small returned

theorem getNextWorkRequired_midas_le_double_late_tip :
    (setCompact 0x1d019997).value.toNat ≤ 2 * (blockTarget ⟨0, 1300, 0x1d00ffff⟩).toNat :=
  getNextWorkRequired_midas_le_double ⟨1, 1⟩
    { lateEraParams with genesisTime := 1000, midasStartHeight := 0 } ⟨0, 1300, 0x1d00ffff⟩
    [⟨0, 1000, 0x1d00ffff⟩] false 0x1d019997 (by decide) (by decide) (by decide) (by decide)
    (by decide) (by decide)

/-- In the Midas era one retarget at most halves the tip's target: the factor is clamped to at
most 20000, so the next target is at least `bnOld / 20000 * 10000`, or the ceiling of the next
block's type when that is lower, up to the rounding of packing. -/
theorem getNextWorkRequired_midas_ge_half (bits : BlockTypeBits) (params : Params)
    (tip : CBlockIndex) (ancestors : List CBlockIndex) (fHybridPow : Bool) (nNew : UInt32)
    (minimum : params.nMinimumDifficultyBlocks ≤ ancestors.length)
    (beforeHybrid : (ancestors.length : Int) + 1 < params.posPowStartHeight)
    (beforeWindow : (ancestors.length : Int) < params.dgwDifficultyStartHeight)
    (midas : params.midasStartHeight ≤ ancestors.length)
    (small : (blockTarget tip).toNat < 2 ^ 255)
    (returned : getNextWorkRequired bits params (tip :: ancestors) fHybridPow = .ok nNew) :
    min (params.targetLimit (isProofOfStakeHeight params (ancestors.length + 1))).toNat
        ((blockTarget tip).toNat / 20000 * 10000) ≤
      (setCompact nNew).value.toNat + (setCompact nNew).value.toNat / 2 ^ 15 := by
  simp only [getNextWorkRequired,
    if_neg (show ¬ (ancestors.length : Int) < params.nMinimumDifficultyBlocks by omega),
    if_neg (show ¬ (ancestors.length : Int) + 1 ≥ params.posPowStartHeight by omega),
    if_neg (show ¬ (ancestors.length : Int) ≥ params.dgwDifficultyStartHeight by omega),
    if_pos (show (ancestors.length : Int) ≥ params.midasStartHeight by omega),
    getNextWorkRequiredMidas, bind, Except.bind] at returned
  split at returned
  · cases returned
  split at returned
  · cases returned
  · exact applyDifficultyFactor_ge_half (clampDifficultyFactor_between _).1
      (clampDifficultyFactor_between _).2 small returned

theorem getNextWorkRequired_midas_ge_half_late_tip :
    min (({ lateEraParams with genesisTime := 1000, midasStartHeight := 0 } : Params).targetLimit
          (isProofOfStakeHeight { lateEraParams with genesisTime := 1000, midasStartHeight := 0 }
            (1 + 1))).toNat
        ((blockTarget ⟨0, 1300, 0x1d00ffff⟩).toNat / 20000 * 10000) ≤
      (setCompact 0x1d019997).value.toNat + (setCompact 0x1d019997).value.toNat / 2 ^ 15 :=
  getNextWorkRequired_midas_ge_half ⟨1, 1⟩
    { lateEraParams with genesisTime := 1000, midasStartHeight := 0 } ⟨0, 1300, 0x1d00ffff⟩
    [⟨0, 1000, 0x1d00ffff⟩] false 0x1d019997 (by decide) (by decide) (by decide) (by decide)
    (by decide) (by decide)

end IonPow
