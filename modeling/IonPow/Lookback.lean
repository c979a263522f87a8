import IonPow.Dispatch

/-! How far back `GetNextWorkRequired` reads before the hybrid era.

From `MidasStartHeight` or `DGWDifficultyStartHeight` on, until `POSPOWStartHeight`, the
retarget reads a fixed window of the chain: the averaging loop of `GetNextWorkRequiredPivx`
reads its 24 most recent blocks, the interval loop of `avgRecentTimestamps` its 18 most
recent, and both read the chain's length for the height. Two chains of one length that agree
on their 24 most recent blocks get the same target there. The legacy retarget and both
hybrid tracks walk back to the nearest block of a type, which can lie arbitrarily deep; for
the proof-of-stake track, `getNextWorkRequired_pos_track_unbounded` shows that no depth
bounds what it reads. -/

namespace IonPow

theorem eq_of_take_eq {l l' : List CBlockIndex} {n : Nat} (short : l.length < n)
    (agree : l.take n = l'.take n) : l = l' := by
  have lengths := congrArg List.length agree
  simp only [List.length_take] at lengths
  rw [List.take_of_length_le (by omega), List.take_of_length_le (by omega)] at agree
  exact agree

theorem take_succ_cons_eq {b b' : CBlockIndex} {rest rest' : List CBlockIndex} {n : Nat}
    (agree : (b :: rest).take (n + 1) = (b' :: rest').take (n + 1)) :
    b = b' ∧ rest.take n = rest'.take n := by
  simpa only [List.take_succ_cons, List.cons.injEq] using agree

theorem take_take_eq {l l' : List CBlockIndex} {m n : Nat} (fewer : m ≤ n)
    (agree : l.take n = l'.take n) : l.take m = l'.take m := by
  have shorter := congrArg (List.take m) agree
  simpa [List.take_take, Nat.min_eq_left fewer] using shorter

theorem pivxLoop_of_gt {i : Nat} (window : PivxWindow) (done : i > 24) :
    ∀ chain, pivxLoop i window chain = window
  | [] => rfl
  | [_] => rfl
  | _ :: _ :: _ => by simp [pivxLoop, done]

theorem pivxLoop_congr : ∀ (i : Nat) (window : PivxWindow) (chain chain' : List CBlockIndex),
    chain.length = chain'.length → chain.take (25 - i) = chain'.take (25 - i) →
      pivxLoop i window chain = pivxLoop i window chain'
  | _, _, [], [], _, _ => rfl
  | _, _, [_], [_], _, _ => rfl
  | i, window, b :: p :: rest, b' :: p' :: rest', same, agree => by
    by_cases done : i > 24
    · rw [pivxLoop_of_gt window done, pivxLoop_of_gt window done]
    rw [show 25 - i = 24 - i + 1 by omega] at agree
    obtain ⟨rfl, older⟩ := take_succ_cons_eq agree
    simp only [pivxLoop, done, if_false]
    exact pivxLoop_congr (i + 1) _ _ _ (by simpa using same) (by convert older using 2 <;> omega)
  | _, _, [], _ :: _, same, _ | _, _, [_], [], same, _ | _, _, [_], _ :: _ :: _, same, _
  | _, _, _ :: _ :: _, [], same, _ | _, _, _ :: _ :: _, [_], same, _ => by simp at same

theorem pivxActualSpacing_congr (last : CBlockIndex) {ancestors ancestors' : List CBlockIndex}
    (same : ancestors.length = ancestors'.length) (agree : ancestors.take 1 = ancestors'.take 1) :
    pivxActualSpacing last ancestors = pivxActualSpacing last ancestors' := by
  cases ancestors <;> cases ancestors' <;> simp_all [pivxActualSpacing]

theorem getNextWorkRequiredPivx_congr (params : Params) (fProofOfStake : Bool)
    {chain chain' : List CBlockIndex} (same : chain.length = chain'.length)
    (agree : chain.take 24 = chain'.take 24) :
    getNextWorkRequiredPivx params chain fProofOfStake =
      getNextWorkRequiredPivx params chain' fProofOfStake := by
  have loop := pivxLoop_congr 1 ⟨0, 0, 0, 0, 0⟩ chain chain' same agree
  match chain, chain', same, agree with
  | [], [], _, _ => rfl
  | last :: ancestors, last' :: ancestors', same, agree =>
    obtain ⟨rfl, recent⟩ := take_succ_cons_eq agree
    have lengths : ancestors.length = ancestors'.length := by simpa using same
    have spacing := pivxActualSpacing_congr last lengths (take_take_eq (by norm_num) recent)
    simp only [getNextWorkRequiredPivx, loop, spacing, lengths]
  | [], _ :: _, same, _ | _ :: _, [], same, _ => simp at same

theorem recentIntervalsLoop_congr (nPosTargetSpacing : Int) : ∀ (remaining blockoffset : Nat)
    (chain chain' : List CBlockIndex) (blocktime : Int) (sums : RecentIntervals),
    chain.take (remaining + 1) = chain'.take (remaining + 1) →
      recentIntervalsLoop nPosTargetSpacing remaining blockoffset chain blocktime sums =
        recentIntervalsLoop nPosTargetSpacing remaining blockoffset chain' blocktime sums
  | 0, _, _, _, _, _, _ => rfl
  | remaining + 1, blockoffset, b :: p :: rest, b' :: p' :: rest', blocktime, sums, agree => by
    obtain ⟨rfl, older⟩ := take_succ_cons_eq agree
    obtain ⟨rfl, oldest⟩ := take_succ_cons_eq older
    simp only [recentIntervalsLoop]
    exact recentIntervalsLoop_congr nPosTargetSpacing remaining _ _ _ _ _
      (by rw [List.take_succ_cons, List.take_succ_cons, oldest])
  | remaining + 1, blockoffset, [], chain', blocktime, sums, agree
  | remaining + 1, blockoffset, [_], chain', blocktime, sums, agree => by
    rw [eq_of_take_eq (by simp) agree]
  | remaining + 1, blockoffset, b :: p :: rest, [], blocktime, sums, agree
  | remaining + 1, blockoffset, b :: p :: rest, [_], blocktime, sums, agree => by
    rw [eq_of_take_eq (by simp) agree.symm]

theorem avgRecentTimestamps_congr (params : Params) {chain chain' : List CBlockIndex}
    (agree : chain.take 18 = chain'.take 18) :
    avgRecentTimestamps chain params = avgRecentTimestamps chain' params := by
  have loop := recentIntervalsLoop_congr params.nPosTargetSpacing 17 0 chain chain'
  match chain, chain', agree with
  | last :: ancestors, last' :: ancestors', agree =>
    obtain ⟨rfl, -⟩ := take_succ_cons_eq agree
    simp only [avgRecentTimestamps, loop _ _ agree]
  | [], _, agree => rw [eq_of_take_eq (by simp) agree]
  | _ :: _, [], agree => rw [eq_of_take_eq (by simp) agree.symm]

theorem getNextWorkRequiredMidas_congr (params : Params) (fProofOfStake : Bool)
    {chain chain' : List CBlockIndex} (same : chain.length = chain'.length)
    (agree : chain.take 18 = chain'.take 18) :
    getNextWorkRequiredMidas params chain fProofOfStake =
      getNextWorkRequiredMidas params chain' fProofOfStake := by
  have averages := avgRecentTimestamps_congr params agree
  match chain, chain', same, agree with
  | [], [], _, _ => rfl
  | last :: ancestors, last' :: ancestors', same, agree =>
    obtain ⟨rfl, -⟩ := take_succ_cons_eq agree
    have lengths : ancestors.length = ancestors'.length := by simpa using same
    simp only [getNextWorkRequiredMidas, averages, lengths]
  | [], _ :: _, same, _ | _ :: _, [], same, _ => simp at same

/-- Between the legacy era and the hybrid era, `GetNextWorkRequired` gives the same result on
two chains of one length that agree on their 24 most recent blocks, whatever lies below:
a node needs only those blocks and the height to check the next block's `nBits`. -/
theorem getNextWorkRequired_recent_only (bits : BlockTypeBits) (params : Params)
    (chain chain' : List CBlockIndex) (fHybridPow : Bool)
    (windowed : params.midasStartHeight ≤ nHeight chain ∨
      params.dgwDifficultyStartHeight ≤ nHeight chain)
    (preHybrid : (nHeight chain : Int) + 1 < params.posPowStartHeight)
    (same : chain.length = chain'.length) (agree : chain.take 24 = chain'.take 24) :
    getNextWorkRequired bits params chain fHybridPow =
      getNextWorkRequired bits params chain' fHybridPow := by
  have midas := getNextWorkRequiredMidas_congr params
    (isProofOfStakeHeight params (chain.length : Int)) same
    (take_take_eq (by norm_num) agree)
  have pivx := getNextWorkRequiredPivx_congr params
    (isProofOfStakeHeight params (chain.length : Int)) same agree
  match chain, chain', same with
  | [], [], _ => rfl
  | tip :: ancestors, tip' :: ancestors', same =>
    have lengths : ancestors.length = ancestors'.length := by simpa using same
    simp only [nHeight_cons] at windowed preHybrid
    simp only [List.length_cons, Nat.cast_add, Nat.cast_one] at midas pivx
    simp only [getNextWorkRequired, ← lengths]
    refine ite_congr rfl (fun _ => rfl) fun _ => ite_congr rfl (fun hybrid => ?_) fun _ =>
      ite_congr rfl (fun _ => pivx) fun _ => ite_congr rfl (fun _ => midas) fun legacy => ?_
    · exact absurd hybrid (by omega)
    · exact absurd legacy (by omega)
  | [], _ :: _, same | _ :: _, [], same => simp at same

theorem getNextWorkRequired_recent_only_deep_genesis :
    getNextWorkRequired ⟨1, 1⟩ { lateEraParams with dgwDifficultyStartHeight := 0 }
        (List.replicate 25 ⟨0, 64, 0x1d00ffff⟩ ++ [⟨0, 0, 0x1d00ffff⟩]) false =
      getNextWorkRequired ⟨1, 1⟩ { lateEraParams with dgwDifficultyStartHeight := 0 }
        (List.replicate 25 ⟨0, 64, 0x1d00ffff⟩ ++ [⟨0, 0, 0x1c00ffff⟩]) false :=
  getNextWorkRequired_recent_only ⟨1, 1⟩ { lateEraParams with dgwDifficultyStartHeight := 0 }
    _ _ false (.inr (by decide)) (by decide) (by decide) (by decide)

theorem getHybridPrevIndex_replicate {bits : BlockTypeBits} {pow stake : CBlockIndex}
    (older : List CBlockIndex) (working : bits.isStaking pow = false)
    (staking : bits.isStaking stake = true) : ∀ K,
    getHybridPrevIndex bits (List.replicate (K + 1) pow ++ stake :: older) true 0 = stake :: older
  | 0 => by simp [getHybridPrevIndex, staking]
  | K + 1 => by
    have rest := getHybridPrevIndex_replicate older working staking K
    rw [List.replicate_succ, List.cons_append] at rest ⊢
    simpa [getHybridPrevIndex, working] using rest

def hybridFromGenesisParams : Params :=
  { lateEraParams with posPowStartHeight := 0, posStartHeight := 0 }

def stakeBase : List CBlockIndex := [⟨1, 100, 0x1d00ffff⟩, ⟨0, 0, 0x1d00ffff⟩]

def buriedStakeChain (K : Nat) (stake : CBlockIndex) : List CBlockIndex :=
  List.replicate K ⟨0, 300, 0x1d00ffff⟩ ++ stake :: stakeBase

theorem getNextWorkRequired_buriedStakeChain (K : Nat) {stake : CBlockIndex}
    (staking : (⟨1, 1⟩ : BlockTypeBits).isStaking stake = true) :
    getNextWorkRequired ⟨1, 1⟩ hybridFromGenesisParams (buriedStakeChain K stake) false =
      hybridPosRetarget ⟨1, 1⟩ hybridFromGenesisParams (stake :: stakeBase) := by
  have minimum : hybridFromGenesisParams.nMinimumDifficultyBlocks = 0 := rfl
  have start : hybridFromGenesisParams.posPowStartHeight = 0 := rfl
  cases K with
  | zero =>
    simp only [buriedStakeChain, List.replicate_zero, List.nil_append, getNextWorkRequired,
      hybridPoSPIVXDifficulty, hybridPosLast, minimum, start, staking, Bool.false_eq_true,
      if_true, if_false]
    rw [if_neg (by omega), if_pos (by omega)]
  | succ K =>
    have working : (⟨1, 1⟩ : BlockTypeBits).isStaking ⟨0, 300, 0x1d00ffff⟩ = false := rfl
    have walked := getHybridPrevIndex_replicate stakeBase working staking K
    rw [List.replicate_succ, List.cons_append] at walked
    simp only [buriedStakeChain, List.replicate_succ, List.cons_append, getNextWorkRequired,
      hybridPoSPIVXDifficulty, hybridPosLast, minimum, start, working, walked,
      Bool.false_eq_true, if_false]
    rw [if_neg (by omega), if_pos (by omega)]

/-- In the hybrid era no depth bounds what the proof-of-stake track reads: for every `K` there
are two chains of one length that agree on their `K` most recent blocks and get different
results, because the newest staking block lies below them. -/
theorem getNextWorkRequired_pos_track_unbounded (K : Nat) :
    ∃ chain chain' : List CBlockIndex, chain.length = chain'.length ∧
      chain.take K = chain'.take K ∧
      getNextWorkRequired ⟨1, 1⟩ hybridFromGenesisParams chain false ≠
        getNextWorkRequired ⟨1, 1⟩ hybridFromGenesisParams chain' false := by
  refine ⟨buriedStakeChain K ⟨1, 200, 0x1d00ffff⟩, buriedStakeChain K ⟨1, 200, 0x1c00ffff⟩,
    by simp [buriedStakeChain], by simp [buriedStakeChain], ?_⟩
  rw [@getNextWorkRequired_buriedStakeChain K ⟨1, 200, 0x1d00ffff⟩ rfl,
    @getNextWorkRequired_buriedStakeChain K ⟨1, 200, 0x1c00ffff⟩ rfl]
  decide

end IonPow
