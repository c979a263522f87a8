import IonPow.HybridPow
import IonPow.Pivx

/-! The averaged-window retarget as one function of its window, and the two loops of `pow.cpp`
that compute it.

`averagedWindowTarget W c S L` is the retarget of the 24 blocks `W`, newest first: the running
average of their targets, scaled by the window's timespan clamped to `[24 S / c, 24 S c]`
against `24 S`, and capped at `L`. `GetNextWorkRequiredPivx` computes it over the tip and its
23 nearest ancestors with `c = 3`, summing the timespan interval by interval; the proof-of-work
track `HybridPoWDarkGravityWave` computes it over the 24 most recent non-staking blocks with
`c = 4`, stepping from one to the next with `GetHybridPrevIndex`, and returns its ceiling
whenever fewer than 24 of those blocks are above `POSPOWStartHeight`.

`averagedWindowSpec` is the same retarget over exact naturals. The code computes it only while
`24 S c` fits the `uint32_t` operand of `arith_uint256::operator*=` and no product wraps
(`averagedWindowTarget_eq_spec`); past that the multiplier is the timespan modulo `2 ^ 32`. -/

namespace IonPow

def blockTarget (b : CBlockIndex) : ArithUint256 := (setCompact b.nBits).value

def averagedWindowTarget (window : List CBlockIndex) (c S : Int) (L : ArithUint256) :
    Result UInt32 :=
  match window with
  | [] => .ok (getCompact L)
  | newest :: older => do
    let avg := pastTargetAverage (blockTarget newest) (older.map blockTarget)
    let timespan := min (max (newest.getBlockTime - (older.getLastD newest).getBlockTime)
      (24 * S / c)) (24 * S * c)
    let bnNew ← divU64 (mulU32 avg timespan) (24 * S)
    pure (getCompact (if bnNew > L then L else bnNew))

theorem clamp_eq_min_max (x lo hi : Int) :
    (if (if x < lo then lo else x) > hi then hi else if x < lo then lo else x) =
      min (max x lo) hi := by
  split_ifs <;> omega

theorem averagedWindowTarget_cons (newest : CBlockIndex) (older : List CBlockIndex) {c : Int}
    (S : Int) (L : ArithUint256) (divides : c ∣ 24) :
    averagedWindowTarget (newest :: older) c S L =
      rescaleAverage (pastTargetAverage (blockTarget newest) (older.map blockTarget))
        (newest.getBlockTime - (older.getLastD newest).getBlockTime) (24 * S) c L := by
  have floor : (24 * S).tdiv c = 24 * S / c :=
    Int.tdiv_eq_ediv_of_dvd (Dvd.dvd.mul_right divides S)
  simp only [averagedWindowTarget, rescaleAverage, floor, clamp_eq_min_max]

theorem windowAverage_between {newest : CBlockIndex} {older : List CBlockIndex} {lo hi : Nat}
    (length : (newest :: older).length ≤ 24) (small : hi < 2 ^ 251)
    (bounded : ∀ b ∈ newest :: older, lo ≤ (blockTarget b).toNat ∧ (blockTarget b).toNat ≤ hi) :
    lo ≤ (pastTargetAverage (blockTarget newest) (older.map blockTarget)).toNat ∧
      (pastTargetAverage (blockTarget newest) (older.map blockTarget)).toNat ≤ hi :=
  pastTargetAverage_between (by simpa using length) small fun t member => by
    obtain ⟨b, bMember, rfl⟩ := List.mem_map.1 (by rwa [← List.map_cons] at member)
    exact bounded b bMember

theorem pivxLoop_eq_foldl : ∀ (k i : Nat) (window : PivxWindow) (pindex : List CBlockIndex),
    i + k = 25 → k < pindex.length →
      pivxLoop i window pindex = (pindex.take k).foldl PivxWindow.read window
  | 0, i, window, [], _, _ => rfl
  | 0, i, window, [_], _, _ => rfl
  | 0, i, window, _ :: _ :: _, count, _ => by simp [pivxLoop, show i > 24 by omega]
  | k + 1, i, window, blockReading :: prev :: ancestors, count, long => by
    simp only [pivxLoop, if_neg (show ¬ i > 24 by omega), List.take_succ_cons, List.foldl_cons]
    exact pivxLoop_eq_foldl k (i + 1) _ _ (by omega) (by simpa using long)
  | k + 1, _, _, [_], _, long => absurd long (by simp)

theorem PivxWindow.read_initial (b : CBlockIndex) :
    PivxWindow.read ⟨0, 0, 0, 0, 0⟩ b = ⟨1, blockTarget b, blockTarget b, b.getBlockTime, 0⟩ := by
  simp [PivxWindow.read, blockTarget]

theorem PivxWindow.read_running {countBlocks : Nat} {avg : ArithUint256} {lastBlockTime : Int}
    (nActualTimespan : Int) (b : CBlockIndex) (started : 1 ≤ countBlocks)
    (inWindow : countBlocks < 24) (positive : 0 < lastBlockTime) :
    PivxWindow.read ⟨countBlocks, avg, avg, lastBlockTime, nActualTimespan⟩ b =
      ⟨countBlocks + 1, averageStep avg (blockTarget b) (countBlocks + 1),
        averageStep avg (blockTarget b) (countBlocks + 1), b.getBlockTime,
        nActualTimespan + (lastBlockTime - b.getBlockTime)⟩ := by
  simp [PivxWindow.read, blockTarget, show countBlocks + 1 ≠ 1 by omega,
    show countBlocks + 1 ≤ 24 by omega, positive]

theorem foldl_read_running : ∀ (blocks : List CBlockIndex) (countBlocks : Nat)
    (avg : ArithUint256) (lastBlock : CBlockIndex) (nActualTimespan : Int),
    1 ≤ countBlocks → countBlocks + blocks.length ≤ 24 → 0 < lastBlock.getBlockTime →
    (∀ b ∈ blocks, 0 < b.getBlockTime) →
    blocks.foldl PivxWindow.read ⟨countBlocks, avg, avg, lastBlock.getBlockTime, nActualTimespan⟩ =
      ⟨countBlocks + blocks.length, averageFrom avg (countBlocks + 1) (blocks.map blockTarget),
        averageFrom avg (countBlocks + 1) (blocks.map blockTarget),
        (blocks.getLastD lastBlock).getBlockTime,
        nActualTimespan + (lastBlock.getBlockTime - (blocks.getLastD lastBlock).getBlockTime)⟩
  | [], _, _, _, _, _, _, _, _ => by simp [averageFrom, List.getLastD]
  | b :: blocks, countBlocks, avg, lastBlock, nActualTimespan, started, count, positive, each => by
    simp only [List.length_cons] at count
    rw [List.foldl_cons, PivxWindow.read_running _ b started (by omega) positive,
      foldl_read_running blocks (countBlocks + 1) _ b _ (by omega) (by omega)
        (each b (List.mem_cons_self _ _))
        (fun b' member => each b' (List.mem_cons_of_mem _ member))]
    simp only [List.map_cons, averageFrom, List.getLastD_cons, List.length_cons,
      PivxWindow.mk.injEq]
    exact ⟨by omega, trivial, trivial, trivial, by omega⟩

theorem getNextWorkRequiredPivx_eq_averagedWindow (params : Params) (last : CBlockIndex)
    (ancestors : List CBlockIndex) (fProofOfStake : Bool)
    (dgwFromGenesis : 0 ≤ params.dgwDifficultyStartHeight)
    (retargeting : params.fPowNoRetargeting = false)
    (longEnough : params.dgwDifficultyStartHeight + 24 ≤ ancestors.length)
    (beforeStaking : (ancestors.length : Int) ≤ params.posStartHeight)
    (noException :
      ¬ (params.networkId = .testnet ∧ (ancestors.length : Int) + 3 > params.posStartHeight))
    (positive : ∀ b ∈ (last :: ancestors).take 24, 0 < b.getBlockTime) :
    getNextWorkRequiredPivx params (last :: ancestors) fProofOfStake =
      averagedWindowTarget ((last :: ancestors).take 24) 3 params.nPosTargetSpacing
        (params.targetLimit fProofOfStake) := by
  have window : (ancestors.take 23).length = 23 := by simp; omega
  have newest : (last :: ancestors).take 24 = last :: ancestors.take 23 := rfl
  have loop : pivxLoop 1 ⟨0, 0, 0, 0, 0⟩ (last :: ancestors) =
      ⟨24, pastTargetAverage (blockTarget last) ((ancestors.take 23).map blockTarget),
        pastTargetAverage (blockTarget last) ((ancestors.take 23).map blockTarget),
        ((ancestors.take 23).getLastD last).getBlockTime,
        last.getBlockTime - ((ancestors.take 23).getLastD last).getBlockTime⟩ := by
    rw [pivxLoop_eq_foldl 24 1 _ _ rfl (by simp; omega), newest, List.foldl_cons,
      PivxWindow.read_initial, foldl_read_running (ancestors.take 23) 1 _ last 0 le_rfl (by omega)
        (positive last (List.mem_cons_self _ _))
        (fun b member => positive b (List.mem_cons_of_mem _ member)), window]
    simp [pastTargetAverage]
  have short : ¬ (ancestors.length = 0 ∨
      (ancestors.length : Int) < params.dgwDifficultyStartHeight + 24) := by omega
  simp only [getNextWorkRequiredPivx, retargeting, Bool.false_eq_true, if_false, if_neg short,
    if_neg (show ¬ (ancestors.length : Int) > params.posStartHeight by omega),
    if_neg noException, loop, newest]
  rw [averagedWindowTarget_cons _ _ _ _ (by norm_num)]
  norm_num

theorem hybridPowLast_of_blocksOfType {bits : BlockTypeBits} {params : Params}
    {pindexLastIn : List CBlockIndex} {newest : CBlockIndex} {newestAncestors : List CBlockIndex}
    {older : List (CBlockIndex × List CBlockIndex)}
    (found : blocksOfType bits false pindexLastIn = (newest, newestAncestors) :: older)
    (high : params.posPowStartHeight ≤ newestAncestors.length) :
    hybridPowLast bits params pindexLastIn = newest :: newestAncestors := by
  cases pindexLastIn with
  | nil => simp [blocksOfType] at found
  | cons tip ancestors =>
    by_cases staking : bits.isStaking tip = true
    · simp only [blocksOfType, staking, Bool.true_eq_false, if_false] at found
      simpa [hybridPowLast, staking] using getHybridPrevIndex_of_blocksOfType _ found high
    · simp only [Bool.not_eq_true] at staking
      simp only [blocksOfType, staking, if_true, List.cons.injEq, Prod.mk.injEq] at found
      obtain ⟨⟨rfl, rfl⟩, -⟩ := found
      simp [hybridPowLast, staking]

theorem hybridPowAverage_eq_averageFrom (bits : BlockTypeBits) (m : Int) :
    ∀ (k nCountBlocks : Nat) (avg : ArithUint256) (b : CBlockIndex)
    (ancestors : List CBlockIndex),
    1 ≤ nCountBlocks → nCountBlocks + k = 24 → k ≤ (blocksOfType bits false ancestors).length →
    (∀ e ∈ (blocksOfType bits false ancestors).take k, m < e.2.length) →
    hybridPowAverage bits m (k + 1) nCountBlocks avg b ancestors =
      some (averageFrom
          (if nCountBlocks = 1 then blockTarget b else averageStep avg (blockTarget b) nCountBlocks)
          (nCountBlocks + 1)
          (((blocksOfType bits false ancestors).take k).map (blockTarget ∘ Prod.fst)),
        (((blocksOfType bits false ancestors).take k).map Prod.fst).getLastD b)
  | 0, nCountBlocks, avg, b, ancestors, _, count, _, _ => by
    obtain rfl : nCountBlocks = 24 := by omega
    simp [hybridPowAverage, averageFrom, blockTarget]
  | k + 1, nCountBlocks, avg, b, ancestors, started, count, long, high => by
    match found : blocksOfType bits false ancestors, long, high with
    | (next, nextAncestors) :: rest, long, high =>
      obtain ⟨-, rfl⟩ := blocksOfType_eq_cons found
      have nextHigh : m < nextAncestors.length := high _ (List.mem_cons_self _ _)
      rw [hybridPowAverage]
      simp only [if_pos (show nCountBlocks ≠ 24 by omega),
        getHybridPrevIndex_of_blocksOfType m found nextHigh.le,
        if_neg (show ¬ (nextAncestors.length : Int) ≤ m by omega)]
      rw [hybridPowAverage_eq_averageFrom bits m k (nCountBlocks + 1) _ next nextAncestors
        (by omega) (by omega) (by simpa using long)
        (fun e member => high e (List.mem_cons_of_mem _ member))]
      simp [averageFrom, blockTarget, show nCountBlocks + 1 ≠ 1 by omega,
        -List.getLastD_eq_getLast?, List.getLastD_cons]

theorem hybridPoWDarkGravityWave_eq_averagedWindow (bits : BlockTypeBits) (params : Params)
    (pindexLastIn : List CBlockIndex)
    (noMinDifficulty : params.fPowAllowMinDifficultyBlocks = false)
    (enough : 24 ≤ (blocksOfType bits false pindexLastIn).length)
    (hybridEra : ∀ e ∈ (blocksOfType bits false pindexLastIn).take 24,
      params.posPowStartHeight < e.2.length) :
    hybridPoWDarkGravityWave bits params pindexLastIn =
      averagedWindowTarget (((blocksOfType bits false pindexLastIn).take 24).map Prod.fst) 4
        params.nHybridPowTargetSpacing params.hybridPowLimit := by
  match found : blocksOfType bits false pindexLastIn, enough, hybridEra with
  | (newest, newestAncestors) :: older, enough, hybridEra =>
    have newestHigh : params.posPowStartHeight < newestAncestors.length :=
      hybridEra _ (List.mem_cons_self _ _)
    have tall := height_of_blocksOfType params.posPowStartHeight 23 found (by simpa using enough)
      hybridEra
    obtain ⟨-, rfl⟩ := blocksOfType_eq_cons found
    have loop := hybridPowAverage_eq_averageFrom bits params.posPowStartHeight 23 1 0 newest
      newestAncestors le_rfl rfl (by simpa using enough)
      (fun e member => hybridEra e (List.mem_cons_of_mem _ member))
    cases pindexLastIn with
    | nil => simp [blocksOfType] at found
    | cons tip ancestors =>
      simp only [hybridPoWDarkGravityWave, hybridPowLast_of_blocksOfType found newestHigh.le,
        if_neg (show ¬ (newestAncestors.length : Int) < params.posPowStartHeight + 24 by omega),
        hybridPowMinDifficulty, noMinDifficulty, Bool.false_eq_true, if_false, loop, if_true,
        List.take_succ_cons, List.map_cons]
      rw [averagedWindowTarget_cons _ _ _ _ (by norm_num), List.map_map]
      rfl

theorem blocksOfType_of_hybridPowLast {bits : BlockTypeBits} {params : Params}
    {pindexLastIn : List CBlockIndex} {last : CBlockIndex} {lastAncestors : List CBlockIndex}
    (start : hybridPowLast bits params pindexLastIn = last :: lastAncestors) :
    blocksOfType bits false pindexLastIn =
      (last, lastAncestors) :: blocksOfType bits false lastAncestors := by
  cases pindexLastIn with
  | nil => cases start
  | cons tip ancestors =>
    by_cases staking : bits.isStaking tip = true
    · simp only [hybridPowLast, staking, if_true, getHybridPrevIndex_eq_blocksOfType] at start
      simp only [blocksOfType, staking, Bool.true_eq_false, if_false]
      cases found : blocksOfType bits false ancestors with
      | nil => rw [found] at start; cases start
      | cons e rest =>
        rcases e with ⟨next, nextAncestors⟩
        rw [found] at start
        dsimp only at start
        split_ifs at start
        cases start
        rw [(blocksOfType_eq_cons found).2]
    · simp only [Bool.not_eq_true] at staking
      simp only [hybridPowLast, staking, Bool.false_eq_true, if_false, List.cons.injEq] at start
      obtain ⟨rfl, rfl⟩ := start
      simp [blocksOfType, staking]

theorem hybridPowAverage_eq_none (bits : BlockTypeBits) (m : Int) :
    ∀ (k nCountBlocks : Nat) (avg : ArithUint256) (b : CBlockIndex)
    (ancestors : List CBlockIndex), nCountBlocks + k = 24 →
    ¬ (k ≤ (blocksOfType bits false ancestors).length ∧
      ∀ e ∈ (blocksOfType bits false ancestors).take k, m < e.2.length) →
    hybridPowAverage bits m (k + 1) nCountBlocks avg b ancestors = none
  | 0, _, _, _, _, _, short => absurd ⟨Nat.zero_le _, by simp⟩ short
  | k + 1, nCountBlocks, avg, b, ancestors, count, short => by
    rw [hybridPowAverage]
    simp only [if_pos (show nCountBlocks ≠ 24 by omega), getHybridPrevIndex_eq_blocksOfType]
    cases found : blocksOfType bits false ancestors with
    | nil => rfl
    | cons e rest =>
      rcases e with ⟨next, nextAncestors⟩
      obtain ⟨-, rfl⟩ := blocksOfType_eq_cons found
      rw [found] at short
      by_cases high : m < nextAncestors.length
      · simp only [if_pos high.le, if_neg (show ¬ (nextAncestors.length : Int) ≤ m by omega)]
        refine hybridPowAverage_eq_none bits m k _ _ next nextAncestors (by omega) ?_
        rintro ⟨long, above⟩
        refine short ⟨by simpa using long, fun e member => ?_⟩
        rcases List.mem_cons.1 (by simpa using member) with rfl | later
        · exact high
        · exact above e later
      · by_cases atMin : m ≤ nextAncestors.length
        · simp only [if_pos atMin, if_pos (show (nextAncestors.length : Int) ≤ m by omega)]
        · simp only [if_neg atMin]

def windowFromGenesisParams : Params :=
  { lateEraParams with
    dgwDifficultyStartHeight := 0
    posPowStartHeight := 0 }

/-- With the minimum-difficulty rule off, `HybridPoWDarkGravityWave` returns exactly the
proof-of-work ceiling unless the 24 newest non-staking blocks are all above
`POSPOWStartHeight`. -/
theorem hybridPoWDarkGravityWave_short_window (bits : BlockTypeBits) (params : Params)
    (tip : CBlockIndex) (ancestors : List CBlockIndex)
    (noMinDifficulty : params.fPowAllowMinDifficultyBlocks = false)
    (short : ¬ (24 ≤ (blocksOfType bits false (tip :: ancestors)).length ∧
      ∀ e ∈ (blocksOfType bits false (tip :: ancestors)).take 24,
        params.posPowStartHeight < e.2.length)) :
    hybridPoWDarkGravityWave bits params (tip :: ancestors) =
      .ok (getCompact params.hybridPowLimit) := by
  simp only [hybridPoWDarkGravityWave]
  cases start : hybridPowLast bits params (tip :: ancestors) with
  | nil => rfl
  | cons last lastAncestors =>
    simp only
    split_ifs with low
    · rfl
    rw [blocksOfType_of_hybridPowLast start] at short
    simp only [hybridPowMinDifficulty, noMinDifficulty, Bool.false_eq_true, if_false]
    rw [hybridPowAverage_eq_none bits _ 23 1 0 last lastAncestors rfl ?_]
    rintro ⟨long, above⟩
    refine short ⟨by simpa using long, fun e member => ?_⟩
    rcases List.mem_cons.1 (by simpa using member) with rfl | later
    · simp only; omega
    · exact above e later

theorem hybridPoWDarkGravityWave_short_window_three_blocks :
    hybridPoWDarkGravityWave ⟨1, 1⟩ windowFromGenesisParams
        (List.replicate 3 ⟨0, 100, 0x1d00ffff⟩) =
      .ok (getCompact windowFromGenesisParams.hybridPowLimit) :=
  hybridPoWDarkGravityWave_short_window ⟨1, 1⟩ windowFromGenesisParams ⟨0, 100, 0x1d00ffff⟩
    (List.replicate 2 ⟨0, 100, 0x1d00ffff⟩) rfl (by decide)

end IonPow
