import IonPow.Chain

/-! `IsProofOfStakeHeight`: from `POSStartHeight` on every block is proof-of-stake; below it,
only main-net heights in a fixed table of early history are. -/

namespace IonPow

def mainnetStakeRanges : List (Int × Int) :=
  [(455, 479), (481, 489), (492, 492), (501, 501), (691, 691), (702, 703), (721, 721),
   (806, 811), (876, 876), (889, 889), (907, 907), (913, 914), (916, 929), (931, 931),
   (933, 942), (945, 947), (949, 960), (962, 962), (969, 969), (991, 991)]

def isProofOfStakeHeight (params : Params) (nHeight : Int) : Bool :=
  if nHeight ≥ params.posStartHeight then true
  else if params.networkId = .main then
    mainnetStakeRanges.any fun range => range.1 ≤ nHeight && nHeight ≤ range.2
  else false

theorem isProofOfStakeHeight_of_le {params : Params} {nHeight : Int}
    (started : params.posStartHeight ≤ nHeight) : isProofOfStakeHeight params nHeight := by
  simp [isProofOfStakeHeight, started]

theorem isProofOfStakeHeight_of_ne_main {params : Params} {nHeight : Int}
    (network : params.networkId ≠ .main) :
    isProofOfStakeHeight params nHeight = decide (params.posStartHeight ≤ nHeight) := by
  by_cases started : params.posStartHeight ≤ nHeight <;>
    simp [isProofOfStakeHeight, started, network]

end IonPow
