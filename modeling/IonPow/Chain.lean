import IonPow.Compact

/-! Block summaries, the consensus parameters, and the hybrid walker `GetHybridPrevIndex`.

A `CBlockIndex*` is the list of the block and all its ancestors, newest first, and `[]` is
`nullptr`: `pprev` is the tail, and a block's height is the number of its ancestors, so every
list is a well-formed chain whose `pprev` links step down one height to a genesis block.
`GetHybridPrevIndex` is characterized once, against `blocksOfType`, the blocks of one type with
their ancestors; its description as the nearest ancestor of the type follows from that. -/

namespace IonPow

structure CBlockIndex where
  nVersion : UInt32
  nTime : UInt32
  nBits : UInt32
  deriving DecidableEq, Repr

def CBlockIndex.getBlockTime (b : CBlockIndex) : Int := b.nTime.toNat

def nHeight (pindex : List CBlockIndex) : Nat := pindex.length - 1

@[simp] theorem nHeight_cons (b : CBlockIndex) (ancestors : List CBlockIndex) :
    nHeight (b :: ancestors) = ancestors.length := by
  simp [nHeight]

structure BlockTypeBits where
  blockTypeBitsMask : UInt32
  blockTypeStaking : UInt32
  deriving DecidableEq, Repr

def BlockTypeBits.isStaking (bits : BlockTypeBits) (b : CBlockIndex) : Bool :=
  b.nVersion &&& bits.blockTypeBitsMask == bits.blockTypeStaking

inductive NetworkId where
  | main
  | testnet
  | devnet
  | regtest
  deriving DecidableEq, Repr

structure Params where
  powLimit : ArithUint256
  posLimit : ArithUint256
  hybridPowLimit : ArithUint256
  fPowAllowMinDifficultyBlocks : Bool
  fPowNoRetargeting : Bool
  nMinimumDifficultyBlocks : Int
  midasStartHeight : Int
  dgwDifficultyStartHeight : Int
  posStartHeight : Int
  posPowStartHeight : Int
  nPowTargetSpacing : Int
  nPosTargetSpacing : Int
  nPosTargetSpacingMidas : Int
  nPosTargetTimespanMidas : Int
  nHybridPowTargetSpacing : Int
  nHybridPosTargetSpacing : Int
  networkId : NetworkId
  genesisTime : UInt32
  deriving DecidableEq, Repr

def Params.targetLimit (params : Params) (fProofOfStake : Bool) : ArithUint256 :=
  if fProofOfStake then params.posLimit else params.powLimit

def lateEraParams : Params where
  powLimit := BitVec.ofNat 256 (2 ^ 236 - 1)
  posLimit := BitVec.ofNat 256 (2 ^ 236 - 1)
  hybridPowLimit := BitVec.ofNat 256 (2 ^ 236 - 1)
  fPowAllowMinDifficultyBlocks := false
  fPowNoRetargeting := false
  nMinimumDifficultyBlocks := 0
  midasStartHeight := 1000
  dgwDifficultyStartHeight := 1000
  posStartHeight := 1000
  posPowStartHeight := 1000
  nPowTargetSpacing := 64
  nPosTargetSpacing := 64
  nPosTargetSpacingMidas := 64
  nPosTargetTimespanMidas := 64
  nHybridPowTargetSpacing := 64
  nHybridPosTargetSpacing := 64
  networkId := .testnet
  genesisTime := 0

def alternatingChain : List CBlockIndex :=
  (List.range 50).map fun k =>
    ⟨UInt32.ofNat (k % 2), UInt32.ofNat (10000 - 90 * k), UInt32.ofNat (0x1d00ffff - 0x100 * k)⟩

def getHybridPrevIndex (bits : BlockTypeBits) :
    List CBlockIndex → Bool → Int → List CBlockIndex
  | [], _, _ => []
  | [_], _, _ => []
  | _ :: prev :: ancestors, fPos, nMinHeight =>
    if (ancestors.length : Int) < nMinHeight then []
    else if bits.isStaking prev == fPos then prev :: ancestors
    else getHybridPrevIndex bits (prev :: ancestors) fPos nMinHeight

/-- The nearest strict ancestor of `pindex` of type `fPos`, or `nullptr` when there is none. -/
def nearestAncestorOfType (bits : BlockTypeBits) (pindex : List CBlockIndex) (fPos : Bool) :
    List CBlockIndex :=
  pindex.tail.dropWhile (fun b => bits.isStaking b != fPos)

theorem nearestAncestorOfType_cons_cons (bits : BlockTypeBits) (b prev : CBlockIndex)
    (ancestors : List CBlockIndex) (fPos : Bool) :
    nearestAncestorOfType bits (b :: prev :: ancestors) fPos =
      if bits.isStaking prev == fPos then prev :: ancestors
      else nearestAncestorOfType bits (prev :: ancestors) fPos := by
  by_cases same : bits.isStaking prev = fPos <;>
    simp [nearestAncestorOfType, List.dropWhile_cons, same]

/-- The blocks of type `fPos` at or below `pindex`, newest first, each with its ancestors. -/
def blocksOfType (bits : BlockTypeBits) (fPos : Bool) :
    List CBlockIndex → List (CBlockIndex × List CBlockIndex)
  | [] => []
  | b :: ancestors =>
    if bits.isStaking b = fPos then (b, ancestors) :: blocksOfType bits fPos ancestors
    else blocksOfType bits fPos ancestors

section BlocksOfType

variable {bits : BlockTypeBits} {fPos : Bool}

theorem length_lt_of_mem_blocksOfType : ∀ {pindex : List CBlockIndex} {b : CBlockIndex}
    {ancestors : List CBlockIndex},
    (b, ancestors) ∈ blocksOfType bits fPos pindex → ancestors.length < pindex.length
  | [], _, _, member => by simp [blocksOfType] at member
  | p :: older, b, ancestors, member => by
    simp only [blocksOfType] at member
    split_ifs at member
    · rcases List.mem_cons.1 member with same | later
      · obtain ⟨-, rfl⟩ := Prod.mk.inj same
        simp
      · have := length_lt_of_mem_blocksOfType later
        simp only [List.length_cons]; omega
    · have := length_lt_of_mem_blocksOfType member
      simp only [List.length_cons]; omega

theorem blocksOfType_eq_cons : ∀ {pindex : List CBlockIndex} {b : CBlockIndex}
    {ancestors : List CBlockIndex} {rest : List (CBlockIndex × List CBlockIndex)},
    blocksOfType bits fPos pindex = (b, ancestors) :: rest →
      bits.isStaking b = fPos ∧ rest = blocksOfType bits fPos ancestors
  | [], _, _, _, found => by simp [blocksOfType] at found
  | p :: older, _, _, _, found => by
    simp only [blocksOfType] at found
    split_ifs at found with same
    · obtain ⟨⟨rfl, rfl⟩, rfl⟩ := List.cons.inj found |>.imp_left Prod.mk.inj
      exact ⟨same, rfl⟩
    · exact blocksOfType_eq_cons found

theorem getHybridPrevIndex_eq_blocksOfType (nMinHeight : Int) : ∀ (b : CBlockIndex)
    (ancestors : List CBlockIndex),
    getHybridPrevIndex bits (b :: ancestors) fPos nMinHeight =
      match blocksOfType bits fPos ancestors with
      | [] => []
      | (next, nextAncestors) :: _ =>
        if nMinHeight ≤ nextAncestors.length then next :: nextAncestors else []
  | _, [] => rfl
  | b, prev :: older => by
    by_cases same : bits.isStaking prev = fPos
    · simp only [getHybridPrevIndex, blocksOfType, same, beq_self_eq_true, if_true]
      split_ifs <;> first | rfl | omega
    · simp only [getHybridPrevIndex, blocksOfType, same, beq_iff_eq, if_false,
        getHybridPrevIndex_eq_blocksOfType nMinHeight prev older]
      split_ifs with low
      · cases found : blocksOfType bits fPos older with
        | nil => rfl
        | cons e rest =>
          rcases e with ⟨next, nextAncestors⟩
          have below := length_lt_of_mem_blocksOfType (found ▸ List.mem_cons_self _ rest)
          simp only [if_neg (show ¬ nMinHeight ≤ nextAncestors.length by omega)]
      · rfl

theorem getHybridPrevIndex_of_blocksOfType (nMinHeight : Int) {b : CBlockIndex}
    {ancestors : List CBlockIndex} {next : CBlockIndex} {nextAncestors : List CBlockIndex}
    {rest : List (CBlockIndex × List CBlockIndex)}
    (found : blocksOfType bits fPos ancestors = (next, nextAncestors) :: rest)
    (high : nMinHeight ≤ nextAncestors.length) :
    getHybridPrevIndex bits (b :: ancestors) fPos nMinHeight = next :: nextAncestors := by
  simp only [getHybridPrevIndex_eq_blocksOfType, found, if_pos high]

theorem height_of_blocksOfType (m : Int) : ∀ (k : Nat) {pindex : List CBlockIndex}
    {b : CBlockIndex} {ancestors : List CBlockIndex} {rest : List (CBlockIndex × List CBlockIndex)},
    blocksOfType bits fPos pindex = (b, ancestors) :: rest → k ≤ rest.length →
    (∀ e ∈ ((b, ancestors) :: rest).take (k + 1), m < e.2.length) →
    m + k < ancestors.length
  | 0, _, _, ancestors, _, _, _, high => by
    simpa using high (_, ancestors) (List.mem_cons_self _ _)
  | k + 1, _, _, ancestors, rest, found, long, high => by
    obtain ⟨-, rfl⟩ := blocksOfType_eq_cons found
    match next : blocksOfType bits fPos ancestors, long with
    | (b', ancestors') :: rest', long =>
      have deeper := height_of_blocksOfType m k next (by simpa using long)
        (fun e member => high e (List.mem_cons_of_mem _ (by rw [next]; simpa using member)))
      have below := length_lt_of_mem_blocksOfType (next ▸ List.mem_cons_self _ _)
      omega

theorem nearestAncestorOfType_eq_blocksOfType (b : CBlockIndex) : ∀ ancestors : List CBlockIndex,
    nearestAncestorOfType bits (b :: ancestors) fPos =
      match blocksOfType bits fPos ancestors with
      | [] => []
      | (next, nextAncestors) :: _ => next :: nextAncestors
  | [] => rfl
  | prev :: older => by
    rw [nearestAncestorOfType_cons_cons]
    by_cases same : bits.isStaking prev = fPos
    · simp [blocksOfType, same]
    · simp [blocksOfType, same, nearestAncestorOfType_eq_blocksOfType prev older]

end BlocksOfType

/-- `GetHybridPrevIndex` returns the nearest strict ancestor of the requested type when that
ancestor is at or above `nMinHeight`, and `nullptr` otherwise. -/
theorem getHybridPrevIndex_eq_nearest (bits : BlockTypeBits) (pindex : List CBlockIndex)
    (fPos : Bool) (nMinHeight : Int) :
    getHybridPrevIndex bits pindex fPos nMinHeight =
      if nearestAncestorOfType bits pindex fPos ≠ [] ∧
          nMinHeight ≤ nHeight (nearestAncestorOfType bits pindex fPos)
      then nearestAncestorOfType bits pindex fPos else [] := by
  cases pindex with
  | nil => rfl
  | cons b ancestors =>
    rw [getHybridPrevIndex_eq_blocksOfType, nearestAncestorOfType_eq_blocksOfType]
    cases blocksOfType bits fPos ancestors with
    | nil => simp
    | cons e _ => simp [nHeight]

end IonPow
