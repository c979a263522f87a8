import IonPow.Chain
import Mathlib.Algebra.Order.BigOperators.Group.List
import Mathlib.Tactic.Linarith

/-! `avgRecentTimestamps` and `GetNextWorkRequiredMidas`, the Midas retarget.

Midas steers the block interval toward a desired interval, blended between 9/10 and 11/10 of
`nPosTargetSpacingMidas` by how far the tip is from the schedule projected from genesis. It
compares the average intervals over the last 5, 7, 9 and 17 blocks against that goal and
scales the target by a factor in ten-thousandths, clamped to `[5000, 20000]`. -/

namespace IonPow

structure RecentIntervals where
  avgOf5 : Int
  avgOf7 : Int
  avgOf9 : Int
  avgOf17 : Int
  deriving DecidableEq, Repr

def recentIntervalsLoop (nPosTargetSpacing : Int) :
    Nat → Nat → List CBlockIndex → Int → RecentIntervals → RecentIntervals
  | 0, _, _, _, sums => sums
  | remaining + 1, blockoffset, pindexLast, blocktime, sums =>
    let oldblocktime := blocktime
    let (pindexLast, blocktime) := match pindexLast with
      | _ :: prev :: ancestors => (prev :: ancestors, prev.getBlockTime)
      | _ => (pindexLast, blocktime - nPosTargetSpacing)
    recentIntervalsLoop nPosTargetSpacing remaining (blockoffset + 1) pindexLast blocktime
      { avgOf5 := if blockoffset < 5 then sums.avgOf5 + (oldblocktime - blocktime) else sums.avgOf5
        avgOf7 := if blockoffset < 7 then sums.avgOf7 + (oldblocktime - blocktime) else sums.avgOf7
        avgOf9 := if blockoffset < 9 then sums.avgOf9 + (oldblocktime - blocktime) else sums.avgOf9
        avgOf17 := sums.avgOf17 + (oldblocktime - blocktime) }

def avgRecentTimestamps (pindexLast : List CBlockIndex) (params : Params) : RecentIntervals :=
  let blocktime := match pindexLast with
    | [] => 0
    | last :: _ => last.getBlockTime
  let sums := recentIntervalsLoop params.nPosTargetSpacing 17 0 pindexLast blocktime ⟨0, 0, 0, 0⟩
  ⟨sums.avgOf5.tdiv 5, sums.avgOf7.tdiv 7, sums.avgOf9.tdiv 9, sums.avgOf17.tdiv 17⟩

def recentBlockIntervals (nPosTargetSpacing : Int) :
    Nat → List CBlockIndex → Int → List Int
  | 0, _, _ => []
  | remaining + 1, pindexLast, blocktime =>
    match pindexLast with
    | _ :: prev :: ancestors => (blocktime - prev.getBlockTime) ::
        recentBlockIntervals nPosTargetSpacing remaining (prev :: ancestors) prev.getBlockTime
    | _ => nPosTargetSpacing ::
        recentBlockIntervals nPosTargetSpacing remaining pindexLast (blocktime - nPosTargetSpacing)

def midasIntervalDesired (params : Params) (now blockHeightTime : Int) : Result Int :=
  let nFastInterval := (params.nPosTargetSpacingMidas * 9).tdiv 10
  let nSlowInterval := (params.nPosTargetSpacingMidas * 11).tdiv 10
  if now < blockHeightTime + params.nPosTargetTimespanMidas ∧ now > blockHeightTime then
    divInt64 ((params.nPosTargetTimespanMidas - (now - blockHeightTime)) *
        params.nPosTargetSpacingMidas + (now - blockHeightTime) * nFastInterval)
      params.nPosTargetSpacingMidas
  else if now + params.nPosTargetTimespanMidas > blockHeightTime ∧ now < blockHeightTime then
    divInt64 ((params.nPosTargetTimespanMidas - (blockHeightTime - now)) *
        params.nPosTargetSpacingMidas + (blockHeightTime - now) * nSlowInterval)
      params.nPosTargetTimespanMidas
  else if now < blockHeightTime then .ok nSlowInterval
  else .ok nFastInterval

def midasDifficultyFactor (avgs : RecentIntervals) (nIntervalDesired : Int) : Result Int :=
  let toofast := (nIntervalDesired * 2).tdiv 3
  let tooslow := (nIntervalDesired * 3).tdiv 2
  if avgs.avgOf5 < toofast ∧ avgs.avgOf9 < toofast ∧ avgs.avgOf17 < toofast then
    .ok (Int.tdiv (10000 * 8) 5)
  else if avgs.avgOf5 > tooslow ∧ avgs.avgOf7 > tooslow ∧ avgs.avgOf9 > tooslow then
    .ok (Int.tdiv (10000 * 5) 8)
  else if ((avgs.avgOf5 > nIntervalDesired ∨ avgs.avgOf7 > nIntervalDesired) ∧
        avgs.avgOf9 > nIntervalDesired ∧ avgs.avgOf17 > nIntervalDesired) ∨
      ((avgs.avgOf5 < nIntervalDesired ∨ avgs.avgOf7 < nIntervalDesired) ∧
        avgs.avgOf9 < nIntervalDesired ∧ avgs.avgOf17 < nIntervalDesired) then
    divInt64 (10000 * (6 * nIntervalDesired)) (avgs.avgOf17 + 5 * nIntervalDesired)
  else .ok 10000

def clampDifficultyFactor (difficultyfactor : Int) : Int :=
  let difficultyfactor := if difficultyfactor > 20000 then 20000 else difficultyfactor
  if difficultyfactor < 5000 then 5000 else difficultyfactor

def applyDifficultyFactor (bnOld bnTargetLimit : ArithUint256) (difficultyfactor : Int) :
    Result UInt32 :=
  if difficultyfactor = 10000 then .ok (getCompact bnOld)
  else do
    let bnNew ← divU64 bnOld difficultyfactor
    let bnNew := mulU32 bnNew 10000
    pure (getCompact (if bnNew > bnTargetLimit then bnTargetLimit else bnNew))

def getNextWorkRequiredMidas (params : Params) (pindexLast : List CBlockIndex)
    (fProofOfStake : Bool) : Result UInt32 :=
  let bnTargetLimit := params.targetLimit fProofOfStake
  match pindexLast with
  | [] => .ok (getCompact bnTargetLimit)
  | last :: ancestors => do
    let blockHeightTime := (params.genesisTime.toNat : Int) +
      ancestors.length * params.nPosTargetSpacingMidas
    let nIntervalDesired ← midasIntervalDesired params last.getBlockTime blockHeightTime
    let difficultyfactor ←
      midasDifficultyFactor (avgRecentTimestamps pindexLast params) nIntervalDesired
    applyDifficultyFactor (setCompact last.nBits).value bnTargetLimit
      (clampDifficultyFactor difficultyfactor)

theorem applyDifficultyFactor_within {bnOld bnTargetLimit bound : ArithUint256}
    {difficultyfactor : Int} {nNew : UInt32} (old : bnOld ≤ bound) (limit : bnTargetLimit ≤ bound)
    (returned : applyDifficultyFactor bnOld bnTargetLimit difficultyfactor = .ok nNew) :
    CompactWithin nNew bound := by
  unfold applyDifficultyFactor at returned
  split at returned
  · cases returned; exact (getCompact_within _).mono old
  · simp only [bind, Except.bind] at returned
    split at returned
    · cases returned
    · cases returned; exact (getCompact_within _).mono (BitVec.le_trans (cap_le _ _) limit)

theorem getNextWorkRequiredMidas_within {params : Params} {last : CBlockIndex}
    {ancestors : List CBlockIndex} {fProofOfStake : Bool} {nNew : UInt32} {bound : ArithUint256}
    (tip : (setCompact last.nBits).value ≤ bound) (limit : params.targetLimit fProofOfStake ≤ bound)
    (returned : getNextWorkRequiredMidas params (last :: ancestors) fProofOfStake = .ok nNew) :
    CompactWithin nNew bound := by
  simp only [getNextWorkRequiredMidas, bind, Except.bind] at returned
  split at returned
  · cases returned
  split at returned
  · cases returned
  · exact applyDifficultyFactor_within tip limit returned

theorem applyDifficultyFactor_canonical {bnOld bnTargetLimit : ArithUint256}
    {difficultyfactor : Int} {nNew : UInt32}
    (returned : applyDifficultyFactor bnOld bnTargetLimit difficultyfactor = .ok nNew) :
    CompactCanonical nNew := by
  unfold applyDifficultyFactor at returned
  split at returned
  · cases returned; exact compactCanonical_getCompact _
  · simp only [bind, Except.bind] at returned
    split at returned
    · cases returned
    · cases returned; exact compactCanonical_getCompact _

theorem getNextWorkRequiredMidas_canonical {params : Params} {pindexLast : List CBlockIndex}
    {fProofOfStake : Bool} {nNew : UInt32}
    (returned : getNextWorkRequiredMidas params pindexLast fProofOfStake = .ok nNew) :
    CompactCanonical nNew := by
  simp only [getNextWorkRequiredMidas, bind, Except.bind] at returned
  split at returned
  · cases returned; exact compactCanonical_getCompact _
  split at returned
  · cases returned
  split at returned
  · cases returned
  · exact applyDifficultyFactor_canonical returned

theorem midasIntervalDesired_faultsOnly (params : Params) (now blockHeightTime : Int) :
    FaultsOnly .divisionByZero (midasIntervalDesired params now blockHeightTime) := by
  simp only [midasIntervalDesired]
  split_ifs <;> first | exact divInt64_faultsOnly _ _ | exact FaultsOnly.ok _ _

theorem midasDifficultyFactor_faultsOnly (avgs : RecentIntervals) (nIntervalDesired : Int) :
    FaultsOnly .divisionByZero (midasDifficultyFactor avgs nIntervalDesired) := by
  simp only [midasDifficultyFactor]
  split_ifs <;> first | exact divInt64_faultsOnly _ _ | exact FaultsOnly.ok _ _

theorem applyDifficultyFactor_faultsOnly (bnOld bnTargetLimit : ArithUint256)
    (difficultyfactor : Int) :
    FaultsOnly .divisionByZero (applyDifficultyFactor bnOld bnTargetLimit difficultyfactor) := by
  unfold applyDifficultyFactor
  split
  · exact FaultsOnly.ok _ _
  · exact (divU64_faultsOnly _ _).bind fun _ => FaultsOnly.ok _ _

theorem getNextWorkRequiredMidas_faultsOnly (params : Params) (pindexLast : List CBlockIndex)
    (fProofOfStake : Bool) :
    FaultsOnly .divisionByZero (getNextWorkRequiredMidas params pindexLast fProofOfStake) := by
  unfold getNextWorkRequiredMidas
  split
  · exact FaultsOnly.ok _ _
  · exact (midasIntervalDesired_faultsOnly _ _ _).bind fun _ =>
      (midasDifficultyFactor_faultsOnly _ _).bind fun _ => applyDifficultyFactor_faultsOnly _ _ _

theorem windowSum_step (window blockoffset : Nat) (sum interval : Int) (rest : List Int) :
    (if blockoffset < window then sum + interval else sum) +
        (rest.take (window - (blockoffset + 1))).sum =
      sum + ((interval :: rest).take (window - blockoffset)).sum := by
  by_cases inside : blockoffset < window
  · rw [show window - blockoffset = window - (blockoffset + 1) + 1 by omega]
    simp [inside, add_assoc]
  · simp [inside, show window - blockoffset = 0 by omega,
      show window - (blockoffset + 1) = 0 by omega]

theorem recentIntervalsLoop_eq (nPosTargetSpacing : Int) : ∀ (remaining blockoffset : Nat)
    (pindexLast : List CBlockIndex) (blocktime : Int) (sums : RecentIntervals),
    recentIntervalsLoop nPosTargetSpacing remaining blockoffset pindexLast blocktime sums =
      let intervals := recentBlockIntervals nPosTargetSpacing remaining pindexLast blocktime
      { avgOf5 := sums.avgOf5 + (intervals.take (5 - blockoffset)).sum
        avgOf7 := sums.avgOf7 + (intervals.take (7 - blockoffset)).sum
        avgOf9 := sums.avgOf9 + (intervals.take (9 - blockoffset)).sum
        avgOf17 := sums.avgOf17 + intervals.sum }
  | 0, _, _, _, _ => by simp [recentIntervalsLoop, recentBlockIntervals]
  | remaining + 1, blockoffset, pindexLast, blocktime, sums => by
    rcases pindexLast with _ | ⟨b, _ | ⟨prev, ancestors⟩⟩ <;>
      simp only [recentIntervalsLoop, recentBlockIntervals, recentIntervalsLoop_eq, windowSum_step,
        List.sum_cons, add_assoc, sub_sub_cancel]

theorem length_recentBlockIntervals (nPosTargetSpacing : Int) : ∀ (remaining : Nat)
    (pindexLast : List CBlockIndex) (blocktime : Int),
    (recentBlockIntervals nPosTargetSpacing remaining pindexLast blocktime).length = remaining
  | 0, _, _ => rfl
  | remaining + 1, pindexLast, blocktime => by
    rcases pindexLast with _ | ⟨b, _ | ⟨prev, ancestors⟩⟩ <;>
      simp [recentBlockIntervals, length_recentBlockIntervals]

def timeBack (nPosTargetSpacing : Int) (tip : CBlockIndex) (ancestors : List CBlockIndex)
    (k : Nat) : Int :=
  match (tip :: ancestors)[k]? with
  | some ancestor => ancestor.getBlockTime
  | none => (ancestors.getLastD tip).getBlockTime -
      ((k - ancestors.length : Nat) : Int) * nPosTargetSpacing

@[simp] theorem timeBack_zero (nPosTargetSpacing : Int) (tip : CBlockIndex)
    (ancestors : List CBlockIndex) :
    timeBack nPosTargetSpacing tip ancestors 0 = tip.getBlockTime := by
  simp [timeBack]

theorem timeBack_cons_succ (nPosTargetSpacing : Int) (tip prev : CBlockIndex)
    (ancestors : List CBlockIndex) (k : Nat) :
    timeBack nPosTargetSpacing tip (prev :: ancestors) (k + 1) =
      timeBack nPosTargetSpacing prev ancestors k := by
  simp only [timeBack, List.getElem?_cons_succ, List.getLastD_cons, List.length_cons,
    Nat.add_sub_add_right]

theorem timeBack_genesis (nPosTargetSpacing : Int) (genesis : CBlockIndex) (k : Nat) :
    timeBack nPosTargetSpacing genesis [] k = genesis.getBlockTime - k * nPosTargetSpacing := by
  cases k <;> simp [timeBack]

theorem recentBlockIntervals_genesis (nPosTargetSpacing : Int) (genesis : CBlockIndex) :
    ∀ (remaining : Nat) (blocktime : Int),
      recentBlockIntervals nPosTargetSpacing remaining [genesis] blocktime =
        List.replicate remaining nPosTargetSpacing
  | 0, _ => rfl
  | remaining + 1, blocktime => by
    simp only [recentBlockIntervals, recentBlockIntervals_genesis, List.replicate_succ]

theorem sum_take_recentBlockIntervals (nPosTargetSpacing : Int) :
    ∀ (ancestors : List CBlockIndex) (b : CBlockIndex) (remaining k : Nat), k ≤ remaining →
      ((recentBlockIntervals nPosTargetSpacing remaining (b :: ancestors) b.getBlockTime).take
          k).sum = b.getBlockTime - timeBack nPosTargetSpacing b ancestors k
  | [], b, remaining, k, within => by
    rw [recentBlockIntervals_genesis, List.take_replicate, List.sum_replicate, timeBack_genesis,
      min_eq_left within, nsmul_eq_mul]
    ring
  | _, b, _, 0, _ => by simp
  | prev :: ancestors, b, remaining + 1, k + 1, within => by
    simp only [recentBlockIntervals, List.take_succ_cons, List.sum_cons, timeBack_cons_succ,
      sum_take_recentBlockIntervals nPosTargetSpacing ancestors prev remaining k (by omega)]
    ring

/-- `avgRecentTimestamps` on a chain sets each `avgOfk` to the tip's time less the time `k`
blocks back, divided by `k` with truncation: the sums of its loop telescope. -/
theorem avgRecentTimestamps_eq_timeBack (params : Params) (tip : CBlockIndex)
    (ancestors : List CBlockIndex) :
    avgRecentTimestamps (tip :: ancestors) params =
      { avgOf5 := (tip.getBlockTime - timeBack params.nPosTargetSpacing tip ancestors 5).tdiv 5
        avgOf7 := (tip.getBlockTime - timeBack params.nPosTargetSpacing tip ancestors 7).tdiv 7
        avgOf9 := (tip.getBlockTime - timeBack params.nPosTargetSpacing tip ancestors 9).tdiv 9
        avgOf17 :=
          (tip.getBlockTime - timeBack params.nPosTargetSpacing tip ancestors 17).tdiv 17 } := by
  have telescopes (k : Nat) (within : k ≤ 17) :=
    sum_take_recentBlockIntervals params.nPosTargetSpacing ancestors tip 17 k within
  have all : (recentBlockIntervals params.nPosTargetSpacing 17 (tip :: ancestors)
      tip.getBlockTime).sum =
        tip.getBlockTime - timeBack params.nPosTargetSpacing tip ancestors 17 := by
    rw [← telescopes 17 le_rfl, List.take_of_length_le (length_recentBlockIntervals _ _ _ _).le]
  simp only [avgRecentTimestamps, recentIntervalsLoop_eq, zero_add, Nat.sub_zero, all,
    telescopes 5 (by norm_num), telescopes 7 (by norm_num), telescopes 9 (by norm_num)]

example : avgRecentTimestamps [⟨0, 300, 0⟩, ⟨0, 200, 0⟩, ⟨0, 100, 0⟩] lateEraParams =
    ⟨78, 74, 72, 68⟩ := by
  decide

def RecentIntervals.Within (avgs : RecentIntervals) (bound : Int) : Prop :=
  0 ≤ avgs.avgOf5 ∧ avgs.avgOf5 ≤ bound ∧ 0 ≤ avgs.avgOf7 ∧ avgs.avgOf7 ≤ bound ∧
    0 ≤ avgs.avgOf9 ∧ avgs.avgOf9 ≤ bound ∧ 0 ≤ avgs.avgOf17 ∧ avgs.avgOf17 ≤ bound

theorem RecentIntervals.Within.mono {avgs : RecentIntervals} {low high : Int}
    (within : avgs.Within low) (le : low ≤ high) : avgs.Within high := by
  unfold RecentIntervals.Within at *; omega

theorem tdiv_sum_between {intervals : List Int} {spacing k : Int} (positive : 0 < k)
    (short : (intervals.length : Int) ≤ k) (nonneg : 0 ≤ spacing)
    (each : ∀ interval ∈ intervals, 0 ≤ interval ∧ interval ≤ spacing) :
    0 ≤ intervals.sum.tdiv k ∧ intervals.sum.tdiv k ≤ spacing := by
  have low : 0 ≤ intervals.sum := List.sum_nonneg fun i member => (each i member).1
  have high : intervals.sum ≤ intervals.length • spacing :=
    List.sum_le_card_nsmul _ _ fun i member => (each i member).2
  rw [nsmul_eq_mul] at high
  rw [Int.tdiv_eq_ediv low positive.le]
  exact ⟨Int.ediv_nonneg low positive.le,
    Int.ediv_le_of_le_mul positive (by nlinarith)⟩

theorem avgRecentTimestamps_within {params : Params} {last : CBlockIndex}
    {ancestors : List CBlockIndex} {spacing : Int} (nonneg : 0 ≤ spacing)
    (intervals : ∀ interval ∈ recentBlockIntervals params.nPosTargetSpacing 17
      (last :: ancestors) last.getBlockTime, 0 ≤ interval ∧ interval ≤ spacing) :
    (avgRecentTimestamps (last :: ancestors) params).Within spacing := by
  have taken (k : Nat) (positive : 0 < k) :=
    @tdiv_sum_between ((recentBlockIntervals params.nPosTargetSpacing 17 (last :: ancestors)
      last.getBlockTime).take k) spacing k (by omega) (by simp) nonneg
      fun i member => intervals i (List.mem_of_mem_take member)
  have whole := @tdiv_sum_between _ spacing 17 (by norm_num)
    (by rw [length_recentBlockIntervals]; norm_num) nonneg intervals
  simp only [avgRecentTimestamps, recentIntervalsLoop_eq, zero_add, Nat.sub_zero]
  exact ⟨(taken 5 (by norm_num)).1, (taken 5 (by norm_num)).2, (taken 7 (by norm_num)).1,
    (taken 7 (by norm_num)).2, (taken 9 (by norm_num)).1, (taken 9 (by norm_num)).2,
    whole.1, whole.2⟩

theorem slowInterval_ge {spacing : Int} (positive : 0 < spacing) :
    spacing ≤ (spacing * 11).tdiv 10 := by
  rw [Int.tdiv_eq_ediv (by omega) (by norm_num)]; omega

theorem midasIntervalDesired_ahead {params : Params} {now blockHeightTime : Int}
    (spacing : 0 < params.nPosTargetSpacingMidas) (timespan : 0 < params.nPosTargetTimespanMidas)
    (ahead : now < blockHeightTime) :
    ∃ nIntervalDesired, midasIntervalDesired params now blockHeightTime = .ok nIntervalDesired ∧
      params.nPosTargetSpacingMidas ≤ nIntervalDesired := by
  have slow := slowInterval_ge spacing
  simp only [midasIntervalDesired, if_neg (show ¬ (now < blockHeightTime +
    params.nPosTargetTimespanMidas ∧ now > blockHeightTime) by omega), if_pos ahead]
  split_ifs
  · rw [divInt64_eq_ok timespan.ne']
    have behind := mul_le_mul_of_nonneg_left slow (show 0 ≤ blockHeightTime - now by omega)
    have product := mul_pos spacing timespan
    have blend : params.nPosTargetSpacingMidas * params.nPosTargetTimespanMidas ≤
        (params.nPosTargetTimespanMidas - (blockHeightTime - now)) *
          params.nPosTargetSpacingMidas +
        (blockHeightTime - now) * (params.nPosTargetSpacingMidas * 11).tdiv 10 := by linarith
    rw [Int.tdiv_eq_ediv (by linarith) timespan.le]
    exact ⟨_, rfl, Int.le_ediv_of_mul_le timespan blend⟩
  · exact ⟨_, rfl, slow⟩

theorem midasDifficultyFactor_ahead {avgs : RecentIntervals} {nIntervalDesired : Int}
    (positive : 0 < nIntervalDesired) (within : avgs.Within nIntervalDesired) :
    ∃ difficultyfactor, midasDifficultyFactor avgs nIntervalDesired = .ok difficultyfactor ∧
      10000 ≤ difficultyfactor ∧ difficultyfactor ≤ 20000 := by
  unfold RecentIntervals.Within at within
  have tooslow : nIntervalDesired ≤ (nIntervalDesired * 3).tdiv 2 := by
    rw [Int.tdiv_eq_ediv (by omega) (by norm_num)]; omega
  simp only [midasDifficultyFactor]
  split_ifs
  · exact ⟨_, rfl, by decide, by decide⟩
  · omega
  · rw [divInt64_eq_ok (by omega),
      Int.tdiv_eq_ediv (by omega) (by omega)]
    exact ⟨_, rfl, Int.le_ediv_of_mul_le (by omega) (by omega),
      Int.ediv_le_of_le_mul (by omega) (by omega)⟩
  · exact ⟨_, rfl, le_rfl, by decide⟩

theorem clampDifficultyFactor_of_between {difficultyfactor : Int}
    (low : 5000 ≤ difficultyfactor) (high : difficultyfactor ≤ 20000) :
    clampDifficultyFactor difficultyfactor = difficultyfactor := by
  simp only [clampDifficultyFactor]; split_ifs <;> omega

theorem applyDifficultyFactor_le_old {bnOld bnTargetLimit : ArithUint256}
    {difficultyfactor : Int} (low : 10000 ≤ difficultyfactor) (high : difficultyfactor ≤ 20000) :
    ∃ nNew, applyDifficultyFactor bnOld bnTargetLimit difficultyfactor = .ok nNew ∧
      CompactWithin nNew bnOld := by
  unfold applyDifficultyFactor
  split
  · exact ⟨_, rfl, getCompact_within _⟩
  · rw [divU64_eq_ok (by omega) (by omega)]
    set f := difficultyfactor.toNat
    have quotient : bnOld.toNat / f < 2 ^ 256 :=
      lt_of_le_of_lt (Nat.div_le_self _ _) bnOld.isLt
    have scaled : bnOld.toNat / f * 10000 ≤ bnOld.toNat :=
      calc bnOld.toNat / f * 10000 ≤ bnOld.toNat / f * f := Nat.mul_le_mul_left _ (by omega)
        _ ≤ bnOld.toNat := Nat.div_mul_le_self _ _
    have lower : mulU32 (BitVec.ofNat 256 (bnOld.toNat / f)) 10000 ≤ bnOld := by
      rw [BitVec.le_def, mulU32_toNat (by norm_num) (by norm_num), BitVec.toNat_ofNat,
        Nat.mod_eq_of_lt quotient]
      simpa [Nat.mod_eq_of_lt (lt_of_le_of_lt scaled bnOld.isLt)] using scaled
    exact ⟨_, rfl, (getCompact_within _).mono (BitVec.le_trans (cap_le_self _ _) lower)⟩

theorem clampDifficultyFactor_between (difficultyfactor : Int) :
    5000 ≤ clampDifficultyFactor difficultyfactor ∧
      clampDifficultyFactor difficultyfactor ≤ 20000 := by
  simp only [clampDifficultyFactor]; split_ifs <;> omega

theorem applyDifficultyFactor_le_double {bnOld bnTargetLimit : ArithUint256}
    {difficultyfactor : Int} {nNew : UInt32} (low : 5000 ≤ difficultyfactor)
    (high : difficultyfactor ≤ 20000) (small : bnOld.toNat < 2 ^ 255)
    (returned : applyDifficultyFactor bnOld bnTargetLimit difficultyfactor = .ok nNew) :
    (setCompact nNew).value.toNat ≤ 2 * bnOld.toNat := by
  unfold applyDifficultyFactor at returned
  split at returned
  · cases returned
    exact le_trans (BitVec.le_def.mp (getCompact_within _).2.2) (by omega)
  · rw [divU64_eq_ok (by omega) (by omega)] at returned
    cases returned
    set f := difficultyfactor.toNat
    have doubled : bnOld.toNat / f * 10000 ≤ 2 * bnOld.toNat :=
      calc bnOld.toNat / f * 10000 ≤ bnOld.toNat / 5000 * 10000 :=
            Nat.mul_le_mul_right _ (Nat.div_le_div_left (by omega) (by norm_num))
        _ ≤ 2 * bnOld.toNat := by omega
    have scaled : (mulU32 (BitVec.ofNat 256 (bnOld.toNat / f)) 10000).toNat =
        bnOld.toNat / f * 10000 := by
      rw [mulU32_toNat (by norm_num) (by norm_num), BitVec.toNat_ofNat,
        Nat.mod_eq_of_lt (lt_of_le_of_lt (Nat.div_le_self _ _) bnOld.isLt)]
      exact Nat.mod_eq_of_lt (by simp; omega)
    calc (setCompact (getCompact _)).value.toNat
        ≤ (mulU32 (BitVec.ofNat 256 (bnOld.toNat / f)) 10000).toNat :=
          BitVec.le_def.mp (BitVec.le_trans (getCompact_within _).2.2 (cap_le_self _ _))
      _ ≤ 2 * bnOld.toNat := scaled ▸ doubled

theorem applyDifficultyFactor_ge_half {bnOld bnTargetLimit : ArithUint256}
    {difficultyfactor : Int} {nNew : UInt32} (low : 5000 ≤ difficultyfactor)
    (high : difficultyfactor ≤ 20000) (small : bnOld.toNat < 2 ^ 255)
    (returned : applyDifficultyFactor bnOld bnTargetLimit difficultyfactor = .ok nNew) :
    min bnTargetLimit.toNat (bnOld.toNat / 20000 * 10000) ≤
      (setCompact nNew).value.toNat + (setCompact nNew).value.toNat / 2 ^ 15 := by
  unfold applyDifficultyFactor at returned
  split at returned
  · cases returned
    exact le_trans (min_le_of_right_le (by omega)) (le_getCompact_add_div _)
  · rw [divU64_eq_ok (by omega) (by omega)] at returned
    cases returned
    refine le_trans ?_ (le_getCompact_add_div _)
    set f := difficultyfactor.toNat
    have quotient : bnOld.toNat / f ≤ bnOld.toNat / 5000 :=
      Nat.div_le_div_left (by omega) (by norm_num)
    have scaled : (mulU32 (BitVec.ofNat 256 (bnOld.toNat / f)) 10000).toNat =
        bnOld.toNat / f * 10000 := by
      rw [mulU32_toNat (by norm_num) (by norm_num), BitVec.toNat_ofNat,
        Nat.mod_eq_of_lt (lt_of_le_of_lt (Nat.div_le_self _ _) bnOld.isLt)]
      exact Nat.mod_eq_of_lt (by simp; omega)
    have halved : bnOld.toNat / 20000 * 10000 ≤ bnOld.toNat / f * 10000 :=
      Nat.mul_le_mul_right _ (Nat.div_le_div_left (by omega) (by omega))
    split
    · exact min_le_left _ _
    · rw [scaled]; exact min_le_of_right_le halved

/-- Ahead of schedule, with every recent interval between 0 and `nPosTargetSpacingMidas`,
`GetNextWorkRequiredMidas` returns, and its target decodes cleanly to at most the tip's. -/
theorem getNextWorkRequiredMidas_ahead_of_schedule (params : Params) (last : CBlockIndex)
    (ancestors : List CBlockIndex) (fProofOfStake : Bool)
    (spacing : 0 < params.nPosTargetSpacingMidas) (timespan : 0 < params.nPosTargetTimespanMidas)
    (ahead : last.getBlockTime <
      (params.genesisTime.toNat : Int) + ancestors.length * params.nPosTargetSpacingMidas)
    (intervals : ∀ interval ∈ recentBlockIntervals params.nPosTargetSpacing 17
      (last :: ancestors) last.getBlockTime,
      0 ≤ interval ∧ interval ≤ params.nPosTargetSpacingMidas) :
    ∃ nNew, getNextWorkRequiredMidas params (last :: ancestors) fProofOfStake = .ok nNew ∧
      CompactWithin nNew (setCompact last.nBits).value := by
  obtain ⟨nIntervalDesired, desired, atLeast⟩ := midasIntervalDesired_ahead spacing timespan ahead
  obtain ⟨difficultyfactor, factor, low, high⟩ := midasDifficultyFactor_ahead (by omega)
    ((avgRecentTimestamps_within spacing.le intervals).mono atLeast)
  obtain ⟨nNew, applied, within⟩ := @applyDifficultyFactor_le_old (setCompact last.nBits).value
    (params.targetLimit fProofOfStake) _ low high
  refine ⟨nNew, ?_, within⟩
  simp only [getNextWorkRequiredMidas, desired, factor, bind, Except.bind,
    clampDifficultyFactor_of_between (by omega) high, applied]

theorem getNextWorkRequiredMidas_ahead_of_schedule_early_tip :
    ∃ nNew, getNextWorkRequiredMidas { lateEraParams with genesisTime := 1000 }
        [⟨0, 1010, 0x1d00ffff⟩, ⟨0, 1000, 0x1d00ffff⟩] false = .ok nNew ∧
      CompactWithin nNew (setCompact 0x1d00ffff).value :=
  getNextWorkRequiredMidas_ahead_of_schedule { lateEraParams with genesisTime := 1000 }
    ⟨0, 1010, 0x1d00ffff⟩ [⟨0, 1000, 0x1d00ffff⟩] false (by decide) (by decide) (by decide)
    (by decide)

theorem midasDifficultyFactor_steady {nIntervalDesired : Int} (positive : 0 < nIntervalDesired) :
    midasDifficultyFactor ⟨nIntervalDesired, nIntervalDesired, nIntervalDesired, nIntervalDesired⟩
      nIntervalDesired = .ok 10000 := by
  have toofast : (nIntervalDesired * 2).tdiv 3 ≤ nIntervalDesired := by
    rw [Int.tdiv_eq_ediv (by omega) (by norm_num)]; omega
  have tooslow : nIntervalDesired ≤ (nIntervalDesired * 3).tdiv 2 := by
    rw [Int.tdiv_eq_ediv (by omega) (by norm_num)]; omega
  simp only [midasDifficultyFactor]
  rw [if_neg (by omega), if_neg (by omega), if_neg (by omega)]

/-- When every recent average equals the desired interval the retarget is the no-op: it
returns the tip's own target, unclamped, packed by `GetCompact`, and that target packs back
exactly whenever it decodes without overflow. -/
theorem getNextWorkRequiredMidas_steady (params : Params) (last : CBlockIndex)
    (ancestors : List CBlockIndex) (fProofOfStake : Bool) (nIntervalDesired : Int)
    (desired : midasIntervalDesired params last.getBlockTime ((params.genesisTime.toNat : Int) +
      ancestors.length * params.nPosTargetSpacingMidas) = .ok nIntervalDesired)
    (positive : 0 < nIntervalDesired)
    (steady : avgRecentTimestamps (last :: ancestors) params =
      ⟨nIntervalDesired, nIntervalDesired, nIntervalDesired, nIntervalDesired⟩) :
    getNextWorkRequiredMidas params (last :: ancestors) fProofOfStake =
        .ok (getCompact (setCompact last.nBits).value) ∧
      ((setCompact last.nBits).fOverflow = false →
        setCompact (getCompact (setCompact last.nBits).value) =
          ⟨(setCompact last.nBits).value, false, false⟩) := by
  refine ⟨?_, setCompact_getCompact_value⟩
  simp only [getNextWorkRequiredMidas, bind, Except.bind, desired, steady,
    midasDifficultyFactor_steady positive,
    clampDifficultyFactor_of_between (show (5000 : Int) ≤ 10000 by norm_num) (by norm_num),
    applyDifficultyFactor, if_true]

theorem getNextWorkRequiredMidas_steady_genesis :
    getNextWorkRequiredMidas { lateEraParams with genesisTime := 100, nPosTargetSpacing := 57 }
        [⟨0, 100, 0x1d00ffff⟩] false = .ok (getCompact (setCompact 0x1d00ffff).value) ∧
      ((setCompact 0x1d00ffff).fOverflow = false →
        setCompact (getCompact (setCompact 0x1d00ffff).value) =
          ⟨(setCompact 0x1d00ffff).value, false, false⟩) :=
  getNextWorkRequiredMidas_steady { lateEraParams with genesisTime := 100, nPosTargetSpacing := 57 }
    ⟨0, 100, 0x1d00ffff⟩ [] false 57 (by decide) (by decide) (by decide)

def stretchedMidasParams : Params :=
  { lateEraParams with
    genesisTime := 1000
    nPosTargetSpacing := 10
    nPosTargetSpacingMidas := 10
    nPosTargetTimespanMidas := 1000 }

/-- Behind schedule by one second with every interval at least `nPosTargetSpacingMidas`: the
blend divides by the spacing where its twin divides by `nPosTargetTimespanMidas`, so the
desired interval is 999, intervals of 10 read as far too fast, and the next target is 5/8 of
the tip's. -/
theorem getNextWorkRequiredMidas_behind_schedule_harder :
    recentBlockIntervals 10 17 [⟨0, 1011, 0x1d00ffff⟩, ⟨0, 1000, 0x1d00ffff⟩] 1011 =
        11 :: List.replicate 16 10 ∧
      midasIntervalDesired stretchedMidasParams 1011 (1000 + 1 * 10) = .ok 999 ∧
      getNextWorkRequiredMidas stretchedMidasParams
        [⟨0, 1011, 0x1d00ffff⟩, ⟨0, 1000, 0x1d00ffff⟩] false = .ok 0x1d009fff ∧
      (setCompact 0x1d009fff).value < (setCompact 0x1d00ffff).value := by
  decide

def rewoundChain : List CBlockIndex :=
  ⟨0, 100000, 0x1d00ffff⟩ ::
    (List.range 9).map (fun k => ⟨0, UInt32.ofNat (100000 - 50 * (k + 1)), 0x1d00ffff⟩) ++
    List.replicate 8 ⟨0, 105950, 0x1d00ffff⟩

/-- On `rewoundChain` the short averages sit in the normal band just below the desired
interval 70 while the 17-block average is -350, so the normal adjustment divides by
`-350 + 5 * 70 = 0`. -/
theorem getNextWorkRequiredMidas_divides_by_zero :
    avgRecentTimestamps rewoundChain { lateEraParams with genesisTime := 105950 } =
        ⟨50, 50, 50, -350⟩ ∧
      midasIntervalDesired { lateEraParams with genesisTime := 105950 } 100000
        (105950 + 17 * 64) = .ok 70 ∧
      getNextWorkRequiredMidas { lateEraParams with genesisTime := 105950 } rewoundChain false =
        .error .divisionByZero := by
  decide

end IonPow
