import IonPow.Compact
import Mathlib.Tactic.Linarith

/-! The running target average of the two averaged-window retargets.

Both loops fold `avg = (avg * nCountBlocks + target) / (nCountBlocks + 1)` over the window,
newest block first, in 256-bit arithmetic. Over at most 24 targets below `2 ^ 251` the fold
never wraps, stays between the smallest and largest target, and is the mean in which the
newest target counts twice, up to a flooring loss below `k / 2`. -/

namespace IonPow

def averageStep (avg target : ArithUint256) (nCountBlocks : Nat) : ArithUint256 :=
  (avg * BitVec.ofNat 256 nCountBlocks + target) / BitVec.ofNat 256 (nCountBlocks + 1)

def averageFrom : ArithUint256 → Nat → List ArithUint256 → ArithUint256
  | avg, _, [] => avg
  | avg, nCountBlocks, target :: targets =>
    averageFrom (averageStep avg target nCountBlocks) (nCountBlocks + 1) targets

def pastTargetAverage (newest : ArithUint256) (older : List ArithUint256) : ArithUint256 :=
  averageFrom newest 2 older

def natAverageFrom : Nat → Nat → List Nat → Nat
  | avg, _, [] => avg
  | avg, nCountBlocks, target :: targets =>
    natAverageFrom ((avg * nCountBlocks + target) / (nCountBlocks + 1)) (nCountBlocks + 1)
      targets

theorem averageStep_toNat {avg target : ArithUint256} {nCountBlocks : Nat}
    (avgSmall : avg.toNat < 2 ^ 251) (targetSmall : target.toNat < 2 ^ 251)
    (count : nCountBlocks ≤ 24) :
    (averageStep avg target nCountBlocks).toNat =
      (avg.toNat * nCountBlocks + target.toNat) / (nCountBlocks + 1) := by
  have product : avg.toNat * nCountBlocks ≤ avg.toNat * 24 := Nat.mul_le_mul_left _ count
  have noWrap : avg.toNat * nCountBlocks + target.toNat < 2 ^ 256 := by omega
  have countSmall : nCountBlocks < 2 ^ 256 := by omega
  have divisorSmall : nCountBlocks + 1 < 2 ^ 256 := by omega
  simp only [averageStep, BitVec.toNat_udiv, BitVec.toNat_add, BitVec.toNat_mul,
    BitVec.toNat_ofNat, Nat.mod_eq_of_lt countSmall, Nat.mod_eq_of_lt divisorSmall]
  rw [Nat.mod_eq_of_lt (by omega : avg.toNat * nCountBlocks < 2 ^ 256), Nat.mod_eq_of_lt noWrap]

theorem natAverageStep_between {avg target nCountBlocks lo hi : Nat}
    (avgBetween : lo ≤ avg ∧ avg ≤ hi) (targetBetween : lo ≤ target ∧ target ≤ hi) :
    lo ≤ (avg * nCountBlocks + target) / (nCountBlocks + 1) ∧
      (avg * nCountBlocks + target) / (nCountBlocks + 1) ≤ hi := by
  have below := Nat.mul_le_mul_right nCountBlocks avgBetween.1
  have above := Nat.mul_le_mul_right nCountBlocks avgBetween.2
  constructor
  · rw [Nat.le_div_iff_mul_le (Nat.succ_pos _)]; linarith
  · rw [Nat.div_le_iff_le_mul_add_pred (Nat.succ_pos _), Nat.succ_sub_one, Nat.succ_mul]
    linarith

theorem natAverageStep_sum {avg target j sum : Nat}
    (lower : (j + 1) * avg ≤ sum) (upper : 2 * sum + 2 ≤ (j + 1) * (2 * avg + j)) :
    (j + 2) * ((avg * (j + 1) + target) / (j + 2)) ≤ sum + target ∧
      2 * (sum + target) + 2 ≤
        (j + 2) * (2 * ((avg * (j + 1) + target) / (j + 2)) + (j + 1)) := by
  have split := Nat.div_add_mod (avg * (j + 1) + target) (j + 2)
  have remainder := Nat.mod_lt (avg * (j + 1) + target) (show 0 < j + 2 by omega)
  generalize (avg * (j + 1) + target) / (j + 2) = q at *
  generalize (avg * (j + 1) + target) % (j + 2) = r at *
  constructor <;> linarith

theorem natAverageFrom_between {lo hi : Nat} : ∀ (avg nCountBlocks : Nat) (targets : List Nat),
    lo ≤ avg ∧ avg ≤ hi → (∀ t ∈ targets, lo ≤ t ∧ t ≤ hi) →
      lo ≤ natAverageFrom avg nCountBlocks targets ∧ natAverageFrom avg nCountBlocks targets ≤ hi
  | _, _, [], avgBetween, _ => avgBetween
  | _, _, target :: targets, avgBetween, each =>
    natAverageFrom_between _ _ targets
      (natAverageStep_between avgBetween (each target (List.mem_cons_self _ _)))
      (fun t member => each t (List.mem_cons_of_mem _ member))

theorem averageFrom_toNat : ∀ (avg : ArithUint256) (nCountBlocks : Nat)
    (targets : List ArithUint256), avg.toNat < 2 ^ 251 → (∀ t ∈ targets, t.toNat < 2 ^ 251) →
      nCountBlocks + targets.length ≤ 25 →
      (averageFrom avg nCountBlocks targets).toNat =
        natAverageFrom avg.toNat nCountBlocks (targets.map BitVec.toNat)
  | _, _, [], _, _, _ => rfl
  | avg, nCountBlocks, target :: targets, avgSmall, small, count => by
    have targetSmall := small target (List.mem_cons_self _ _)
    have step : (averageStep avg target nCountBlocks).toNat =
        (avg.toNat * nCountBlocks + target.toNat) / (nCountBlocks + 1) :=
      averageStep_toNat avgSmall targetSmall (by simp at count; omega)
    have stepSmall : (averageStep avg target nCountBlocks).toNat < 2 ^ 251 := by
      have := (@natAverageStep_between _ _ nCountBlocks 0 (2 ^ 251 - 1)
        ⟨Nat.zero_le _, Nat.le_pred_of_lt avgSmall⟩
        ⟨Nat.zero_le _, Nat.le_pred_of_lt targetSmall⟩).2
      omega
    simp only [averageFrom, natAverageFrom, List.map_cons]
    rw [averageFrom_toNat _ _ targets stepSmall
      (fun t member => small t (List.mem_cons_of_mem _ member))
      (by simp at count; omega), step]

theorem pastTargetAverage_between {newest : ArithUint256} {older : List ArithUint256}
    {lo hi : Nat} (window : older.length + 1 ≤ 24) (small : hi < 2 ^ 251)
    (bounded : ∀ t ∈ newest :: older, lo ≤ t.toNat ∧ t.toNat ≤ hi) :
    lo ≤ (pastTargetAverage newest older).toNat ∧ (pastTargetAverage newest older).toNat ≤ hi := by
  have olderBounded t (member : t ∈ older) := bounded t (List.mem_cons_of_mem _ member)
  rw [pastTargetAverage, averageFrom_toNat _ _ _
    (lt_of_le_of_lt (bounded newest (List.mem_cons_self _ _)).2 small)
    (fun t member => lt_of_le_of_lt (olderBounded t member).2 small) (by omega)]
  refine natAverageFrom_between _ _ _ (bounded newest (List.mem_cons_self _ _)) ?_
  intro _ member
  obtain ⟨t, tMember, rfl⟩ := List.mem_map.1 member
  exact olderBounded t tMember

theorem natAverageFrom_sum : ∀ (avg j sum : Nat) (targets : List Nat),
    (j + 1) * avg ≤ sum → 2 * sum + 2 ≤ (j + 1) * (2 * avg + j) →
      (j + targets.length + 1) * natAverageFrom avg (j + 1) targets ≤ sum + targets.sum ∧
      2 * (sum + targets.sum) + 2 ≤
        (j + targets.length + 1) * (2 * natAverageFrom avg (j + 1) targets + (j + targets.length))
  | _, _, _, [], lower, upper => by simpa using ⟨lower, upper⟩
  | avg, j, sum, target :: targets, lower, upper => by
    obtain ⟨lower', upper'⟩ := @natAverageStep_sum _ target _ _ lower upper
    have := natAverageFrom_sum _ (j + 1) (sum + target) targets lower' upper'
    simp only [natAverageFrom, List.length_cons, List.sum_cons] at this ⊢
    constructor
    · convert this.1 using 1 <;> ring
    · convert this.2 using 1 <;> ring

/-- The running average of a window of at most 24 targets below `2 ^ 251` never wraps, lies
between the smallest and the largest target, and is the mean with the newest target counted
twice, `S / (k + 1)`, up to a flooring loss below `k / 2`. -/
theorem pastTargetAverage_mean (newest : ArithUint256) (older : List ArithUint256)
    (window : older.length + 1 ≤ 24) (small : ∀ t ∈ newest :: older, t.toNat < 2 ^ 251) :
    (pastTargetAverage newest older).toNat =
        natAverageFrom newest.toNat 2 (older.map BitVec.toNat) ∧
      (∀ lo hi : Nat, (∀ t ∈ newest :: older, lo ≤ t.toNat ∧ t.toNat ≤ hi) →
        lo ≤ (pastTargetAverage newest older).toNat ∧
          (pastTargetAverage newest older).toNat ≤ hi) ∧
      (older.length + 2) * (pastTargetAverage newest older).toNat ≤
        2 * newest.toNat + (older.map BitVec.toNat).sum ∧
      2 * (2 * newest.toNat + (older.map BitVec.toNat).sum) <
        (older.length + 2) * (2 * (pastTargetAverage newest older).toNat + (older.length + 1)) := by
  have exact := averageFrom_toNat newest 2 older (small newest (List.mem_cons_self _ _))
    (fun t member => small t (List.mem_cons_of_mem _ member)) (by omega)
  have sums := natAverageFrom_sum newest.toNat 1 (2 * newest.toNat) (older.map BitVec.toNat)
    (by omega) (by omega)
  rw [List.length_map, show (1 + 1 : Nat) = 2 from rfl,
    show 1 + older.length + 1 = older.length + 2 by omega,
    show 1 + older.length = older.length + 1 by omega] at sums
  rw [pastTargetAverage, exact]
  refine ⟨rfl, fun lo hi each => ?_, sums.1, by omega⟩
  · refine natAverageFrom_between _ _ _ (each newest (List.mem_cons_self _ _)) ?_
    simp only [List.mem_map]
    rintro _ ⟨t, member, rfl⟩
    exact each t (List.mem_cons_of_mem _ member)

theorem pastTargetAverage_mean_nine_four :
    (pastTargetAverage 9#256 [4#256]).toNat = natAverageFrom 9 2 [4] ∧
      (∀ lo hi : Nat, (∀ t ∈ [9#256, 4#256], lo ≤ t.toNat ∧ t.toNat ≤ hi) →
        lo ≤ (pastTargetAverage 9#256 [4#256]).toNat ∧
          (pastTargetAverage 9#256 [4#256]).toNat ≤ hi) ∧
      3 * (pastTargetAverage 9#256 [4#256]).toNat ≤ 2 * 9 + 4 ∧
      2 * (2 * 9 + 4) < 3 * (2 * (pastTargetAverage 9#256 [4#256]).toNat + 2) :=
  pastTargetAverage_mean 9#256 [4#256] (by decide) (by simp)

def rescaleAverage (bnPastTargetAvg : ArithUint256) (nActualTimespan nTargetTimespan c : Int)
    (bnTargetLimit : ArithUint256) : Result UInt32 := do
  let nActualTimespan := if nActualTimespan < nTargetTimespan.tdiv c then nTargetTimespan.tdiv c
    else nActualTimespan
  let nActualTimespan := if nActualTimespan > nTargetTimespan * c then nTargetTimespan * c
    else nActualTimespan
  let bnNew ← divU64 (mulU32 bnPastTargetAvg nActualTimespan) nTargetTimespan
  pure (getCompact (if bnNew > bnTargetLimit then bnTargetLimit else bnNew))

theorem rescaleAverage_within {bnPastTargetAvg bnTargetLimit : ArithUint256}
    {nActualTimespan nTargetTimespan c : Int} {nNew : UInt32}
    (returned : rescaleAverage bnPastTargetAvg nActualTimespan nTargetTimespan c bnTargetLimit =
      .ok nNew) :
    CompactWithin nNew bnTargetLimit := by
  simp only [rescaleAverage, bind, Except.bind] at returned
  split at returned
  · cases returned
  · cases returned
    exact (getCompact_within _).mono (cap_le _ _)

theorem rescaleAverage_canonical {bnPastTargetAvg bnTargetLimit : ArithUint256}
    {nActualTimespan nTargetTimespan c : Int} {nNew : UInt32}
    (returned : rescaleAverage bnPastTargetAvg nActualTimespan nTargetTimespan c bnTargetLimit =
      .ok nNew) :
    CompactCanonical nNew := by
  simp only [rescaleAverage, bind, Except.bind] at returned
  split at returned
  · cases returned
  · cases returned; exact compactCanonical_getCompact _

theorem rescaleAverage_returns {bnPastTargetAvg bnTargetLimit : ArithUint256}
    {nActualTimespan nTargetTimespan c : Int} (low : 0 < nTargetTimespan)
    (high : nTargetTimespan < 2 ^ 64) :
    ∃ nNew, rescaleAverage bnPastTargetAvg nActualTimespan nTargetTimespan c bnTargetLimit =
      .ok nNew := by
  simp only [rescaleAverage, divU64_eq_ok low high]
  exact ⟨_, rfl⟩

end IonPow
