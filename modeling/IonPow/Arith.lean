import Mathlib.Data.BitVec
import Mathlib.Tactic.Ring

/-! The fixed-width arithmetic of `pow.cpp`.

Targets are `arith_uint256` values, modelled as `BitVec 256`. The `int64_t` quantities
the retargets compute (heights, times, spacings, factors) are integers; every conversion
the code makes from them into an unsigned operand is written out here, as are the two
ways a call can end without a value: a zero divisor and a missing `return`. -/

namespace IonPow

abbrev ArithUint256 := BitVec 256

inductive Fault where
  /-- `base_uint::operator/=` throws `uint_error` on a zero divisor; an `int64_t` division
  by zero is undefined. -/
  | divisionByZero
  /-- Control reaches the closing brace of a non-void function. -/
  | missingReturn
  /-- A null `CBlockIndex*` is dereferenced. -/
  | nullDereference
  deriving DecidableEq, Repr

abbrev Result := Except Fault

instance Result.decEq {α : Type} [DecidableEq α] : DecidableEq (Result α)
  | .error e₁, .error e₂ => decidable_of_iff (e₁ = e₂) (by simp)
  | .ok v₁, .ok v₂ => decidable_of_iff (v₁ = v₂) (by simp)
  | .error _, .ok _ => isFalse (by simp)
  | .ok _, .error _ => isFalse (by simp)

def FaultsOnly {α : Type} (fault : Fault) (r : Result α) : Prop :=
  ∀ e, r = .error e → e = fault

theorem FaultsOnly.ok {α : Type} (fault : Fault) (a : α) : FaultsOnly fault (.ok a : Result α) :=
  fun _ returned => by cases returned

theorem FaultsOnly.bind {α β : Type} {fault : Fault} {x : Result α} {g : α → Result β}
    (first : FaultsOnly fault x) (rest : ∀ a, FaultsOnly fault (g a)) :
    FaultsOnly fault (x >>= g) := by
  intro e faulted
  cases x with
  | error e' => cases faulted; exact first _ rfl
  | ok a => exact rest a e faulted

/-- `bn *= x` for an `int64_t` `x`: overload resolution picks `operator*=(uint32_t)` over the
user-defined conversion to `base_uint`, so `x` is taken modulo `2^32`. -/
def mulU32 (bn : ArithUint256) (x : Int) : ArithUint256 :=
  bn * BitVec.ofNat 256 (x % 2 ^ 32).toNat

/-- `bn /= x` for an `int64_t` `x`: `x` becomes a `base_uint` through `uint64_t`, and a zero
divisor throws. -/
def divU64 (bn : ArithUint256) (x : Int) : Result ArithUint256 :=
  if (x % 2 ^ 64).toNat = 0 then .error .divisionByZero
  else .ok (bn / BitVec.ofNat 256 (x % 2 ^ 64).toNat)

def divInt64 (a b : Int) : Result Int :=
  if b = 0 then .error .divisionByZero else .ok (a.tdiv b)

theorem cap_le (bnNew bnLimit : ArithUint256) :
    (if bnNew > bnLimit then bnLimit else bnNew) ≤ bnLimit := by
  split
  · exact BitVec.le_refl _
  · exact BitVec.not_lt.mp ‹_›

theorem cap_le_self (bnNew bnLimit : ArithUint256) :
    (if bnNew > bnLimit then bnLimit else bnNew) ≤ bnNew := by
  split
  · exact BitVec.not_lt.mp (BitVec.lt_asymm ‹_›)
  · exact BitVec.le_refl _

theorem cap_mono {a b : ArithUint256} (bnLimit : ArithUint256) (le : a ≤ b) :
    (if a > bnLimit then bnLimit else a) ≤ (if b > bnLimit then bnLimit else b) := by
  rw [BitVec.le_def] at le
  simp only [gt_iff_lt, BitVec.lt_def]
  split_ifs <;> rw [BitVec.le_def] <;> omega

theorem mulU32_toNat {x : Int} (low : 0 ≤ x) (high : x < 2 ^ 32) (bn : ArithUint256) :
    (mulU32 bn x).toNat = bn.toNat * x.toNat % 2 ^ 256 := by
  have small : x.toNat < 2 ^ 256 := by omega
  rw [mulU32, Int.emod_eq_of_lt low high]
  simp [Nat.mod_eq_of_lt small]

theorem divU64_eq_ok {x : Int} (low : 0 < x) (high : x < 2 ^ 64) (bn : ArithUint256) :
    divU64 bn x = .ok (BitVec.ofNat 256 (bn.toNat / x.toNat)) := by
  have nonzero : x.toNat ≠ 0 := by omega
  simp only [divU64, Int.emod_eq_of_lt low.le high, nonzero, if_false]
  congr 1
  apply BitVec.eq_of_toNat_eq
  have small : x.toNat < 2 ^ 256 := by omega
  have quotient : bn.toNat / x.toNat < 2 ^ 256 := lt_of_le_of_lt (Nat.div_le_self _ _) bn.isLt
  rw [BitVec.toNat_udiv, BitVec.toNat_ofNat, BitVec.toNat_ofNat, Nat.mod_eq_of_lt small,
    Nat.mod_eq_of_lt quotient]

theorem divU64_mulU32_eq_ok {bn : ArithUint256} {x y : Int} (xLow : 0 ≤ x) (xHigh : x < 2 ^ 32)
    (yLow : 0 < y) (yHigh : y < 2 ^ 64) (noWrap : bn.toNat * x.toNat < 2 ^ 256) :
    divU64 (mulU32 bn x) y = .ok (BitVec.ofNat 256 (bn.toNat * x.toNat / y.toNat)) := by
  rw [divU64_eq_ok yLow yHigh, mulU32_toNat xLow xHigh, Nat.mod_eq_of_lt noWrap]

theorem le_of_divU64_eq_ok {bn quotient : ArithUint256} {x : Int}
    (divided : divU64 bn x = .ok quotient) : quotient ≤ bn := by
  unfold divU64 at divided
  split at divided
  · cases divided
  · cases divided
    exact BitVec.le_def.mpr (by simpa using Nat.div_le_self _ _)

theorem divU64_faultsOnly (bn : ArithUint256) (x : Int) :
    FaultsOnly .divisionByZero (divU64 bn x) := by
  intro e faulted
  unfold divU64 at faulted
  split at faulted <;> cases faulted
  rfl

theorem divInt64_faultsOnly (a b : Int) : FaultsOnly .divisionByZero (divInt64 a b) := by
  intro e faulted
  unfold divInt64 at faulted
  split at faulted <;> cases faulted
  rfl

theorem divInt64_eq_ok {a b : Int} (nonzero : b ≠ 0) : divInt64 a b = .ok (a.tdiv b) := by
  simp [divInt64, nonzero]

end IonPow
