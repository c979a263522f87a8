import IonPow.Arith
import Mathlib.Tactic.IntervalCases

/-! The compact target codec: `arith_uint256::SetCompact` and `GetCompact`.

A compact `nBits` is a size byte over a 23-bit mantissa with a sign bit between them. The
codec is not under `src/`; both directions follow the spec's description of it. The results
the retargets need are `getCompact_within`, that packing a target never sets a flag and never
rounds up, and `getCompact_mono`, that packing keeps the order of targets. Both follow from
one analysis of what `GetCompact` drops, `setCompact_getCompact_truncates`. -/

namespace IonPow

structure Decoded where
  value : ArithUint256
  fNegative : Bool
  fOverflow : Bool
  deriving DecidableEq, Repr

def setCompact (nCompact : UInt32) : Decoded :=
  let nSize := nCompact.toNat / 2 ^ 24
  let nWord := if nSize ≤ 3 then nCompact.toNat % 2 ^ 23 / 256 ^ (3 - nSize)
    else nCompact.toNat % 2 ^ 23
  { value := BitVec.ofNat 256 (nWord * 256 ^ (nSize - 3))
    fNegative := nWord != 0 && nCompact.toNat / 2 ^ 23 % 2 == 1
    fOverflow := nWord != 0 &&
      (nSize > 34 || nWord > 0xff && nSize > 33 || nWord > 0xffff && nSize > 32) }

def byteLength : Nat → Nat → Nat
  | 0, _ => 0
  | fuel + 1, n => if n = 0 then 0 else byteLength fuel (n / 256) + 1

def getCompact (bn : ArithUint256) : UInt32 :=
  let nSize := byteLength 32 bn.toNat
  let nCompact := if nSize ≤ 3 then bn.toNat * 256 ^ (3 - nSize)
    else bn.toNat / 256 ^ (nSize - 3)
  if nCompact / 2 ^ 23 % 2 = 1 then UInt32.ofNat (nCompact / 256 + (nSize + 1) * 2 ^ 24)
  else UInt32.ofNat (nCompact + nSize * 2 ^ 24)

def CompactWithin (nBits : UInt32) (bound : ArithUint256) : Prop :=
  (setCompact nBits).fNegative = false ∧ (setCompact nBits).fOverflow = false ∧
    (setCompact nBits).value ≤ bound

instance (nBits : UInt32) (bound : ArithUint256) : Decidable (CompactWithin nBits bound) :=
  inferInstanceAs (Decidable (_ ∧ _ ∧ _))

theorem CompactWithin.mono {nBits : UInt32} {low high : ArithUint256}
    (within : CompactWithin nBits low) (le : low ≤ high) : CompactWithin nBits high :=
  ⟨within.1, within.2.1, BitVec.le_trans within.2.2 le⟩

@[simp] theorem byteLength_zero (fuel : Nat) : byteLength fuel 0 = 0 := by
  cases fuel <;> simp [byteLength]

theorem byteLength_bounds : ∀ (fuel n : Nat), n < 256 ^ fuel →
    n < 256 ^ byteLength fuel n ∧ (0 < n → 256 ^ byteLength fuel n ≤ 256 * n) ∧
      byteLength fuel n ≤ fuel
  | 0, n, below => by simp_all [byteLength]
  | fuel + 1, n, below => by
    by_cases zero : n = 0
    · simp [zero]
    have shifted : n / 256 < 256 ^ fuel := by
      rw [Nat.div_lt_iff_lt_mul (by norm_num)]; simpa [pow_succ] using below
    obtain ⟨upper, lower, length⟩ := byteLength_bounds fuel (n / 256) shifted
    simp only [byteLength, zero, if_false, pow_succ]
    refine ⟨by omega, fun _ => ?_, by omega⟩
    rcases Nat.eq_zero_or_pos (n / 256) with top | top
    · simp [top]; omega
    · have := lower top; omega

theorem setCompact_pack {c s : Nat} (mantissa : c < 2 ^ 23) (size : s < 256) :
    setCompact (UInt32.ofNat (c + s * 2 ^ 24)) =
      { value := BitVec.ofNat 256 ((if s ≤ 3 then c / 256 ^ (3 - s) else c) * 256 ^ (s - 3))
        fNegative := false
        fOverflow := (if s ≤ 3 then c / 256 ^ (3 - s) else c) != 0 &&
          (s > 34 || (if s ≤ 3 then c / 256 ^ (3 - s) else c) > 0xff && s > 33 ||
            (if s ≤ 3 then c / 256 ^ (3 - s) else c) > 0xffff && s > 32) } := by
  have packed : (UInt32.ofNat (c + s * 2 ^ 24)).toNat = c + s * 2 ^ 24 :=
    UInt32.toNat_ofNat_of_lt (by simp only [UInt32.size]; omega)
  have nSize : (c + s * 2 ^ 24) / 2 ^ 24 = s := by omega
  have nWord : (c + s * 2 ^ 24) % 2 ^ 23 = c := by omega
  have sign : (c + s * 2 ^ 24) / 2 ^ 23 % 2 = 0 := by omega
  simp only [setCompact, packed, nSize, nWord, sign]
  congr 1
  split <;> simp

theorem ofNat_le_of_le {value : Nat} {bn : ArithUint256} (le : value ≤ bn.toNat) :
    BitVec.ofNat 256 value ≤ bn := by
  rw [BitVec.le_def, BitVec.toNat_ofNat, Nat.mod_eq_of_lt (lt_of_le_of_lt le bn.isLt)]
  exact le

theorem setCompact_pack_valid {c s : Nat} (mantissa : c < 2 ^ 23)
    (size : s ≤ 32 ∨ s = 33 ∧ c ≤ 0xffff) :
    setCompact (UInt32.ofNat (c + s * 2 ^ 24)) =
      ⟨BitVec.ofNat 256 ((if s ≤ 3 then c / 256 ^ (3 - s) else c) * 256 ^ (s - 3)), false,
        false⟩ := by
  rw [setCompact_pack mantissa (by omega)]
  congr 1
  split <;> simp <;> omega

theorem setCompact_getCompact_truncates (bn : ArithUint256) : ∃ j,
    setCompact (getCompact bn) =
        ⟨BitVec.ofNat 256 (bn.toNat / 256 ^ j * 256 ^ j), false, false⟩ ∧
      bn.toNat / 256 ^ j < 2 ^ 23 ∧ (j = 0 ∨ 2 ^ 23 ≤ bn.toNat / 256 ^ (j - 1)) := by
  obtain ⟨upper, lower, length⟩ := byteLength_bounds 32 bn.toNat (by simpa using bn.isLt)
  have empty : bn.toNat = 0 → byteLength 32 bn.toNat = 0 := fun zero => by
    rw [zero, byteLength_zero]
  unfold getCompact
  generalize byteLength 32 bn.toNat = n at *
  generalize bn.toNat = v at *
  by_cases small : n ≤ 3
  · have top : v * 256 ^ (3 - n) < 2 ^ 24 :=
      calc v * 256 ^ (3 - n) < 256 ^ n * 256 ^ (3 - n) :=
            Nat.mul_lt_mul_of_pos_right upper (Nat.pos_pow_of_pos _ (by norm_num))
        _ = 2 ^ 24 := by rw [← pow_add, Nat.add_sub_cancel' small]; norm_num
    have unscale : v * 256 ^ (3 - n) / 256 ^ (3 - n) = v :=
      Nat.mul_div_cancel _ (Nat.pos_pow_of_pos _ (by norm_num))
    have scaled : v ≤ v * 256 ^ (3 - n) :=
      Nat.le_mul_of_pos_right _ (Nat.pos_pow_of_pos _ (by norm_num))
    simp only [small, if_true]
    split
    · rw [setCompact_pack_valid (by omega) (by omega)]
      by_cases three : n = 3
      · subst three
        refine ⟨1, ?_, ?_, .inr ?_⟩
        · simp
        · simp only [Nat.sub_self, pow_zero, mul_one] at *; omega
        · simp only [Nat.sub_self, pow_zero, mul_one] at *; omega
      · have shifted : v * 256 ≤ v * 256 ^ (3 - n) :=
          Nat.mul_le_mul_left _ (Nat.le_self_pow (by omega) _)
        refine ⟨0, ?_, by simp only [pow_zero, Nat.div_one]; omega, .inl rfl⟩
        simp only [show n + 1 ≤ 3 by omega, if_true, show n + 1 - 3 = 0 by omega, pow_zero,
          mul_one, Nat.div_one, Nat.div_div_eq_div_mul, ← pow_succ',
          show 3 - (n + 1) + 1 = 3 - n by omega, unscale]
    · rw [setCompact_pack_valid (by omega) (by omega)]
      refine ⟨0, ?_, by simp only [pow_zero, Nat.div_one]; omega, .inl rfl⟩
      simp only [small, if_true, show n - 3 = 0 by omega, pow_zero, mul_one, Nat.div_one, unscale]
  · have positive : 0 < 256 ^ (n - 3) := Nat.pos_pow_of_pos _ (by norm_num)
    have top : v / 256 ^ (n - 3) < 2 ^ 24 := by
      have factor : 256 ^ n = 2 ^ 24 * 256 ^ (n - 3) := by
        rw [show 2 ^ 24 = 256 ^ 3 by norm_num, ← pow_add]; congr 1; omega
      rw [Nat.div_lt_iff_lt_mul positive, ← factor]; exact upper
    simp only [small, if_false]
    generalize quotient : v / 256 ^ (n - 3) = q at *
    split
    · have size : n + 1 ≤ 32 ∨ n + 1 = 33 ∧ q / 256 ≤ 0xffff := by omega
      rw [setCompact_pack_valid (by omega) size]
      have dropped : v / 256 ^ (n - 2) = q / 256 := by
        rw [← quotient, Nat.div_div_eq_div_mul, ← pow_succ, show n - 3 + 1 = n - 2 by omega]
      refine ⟨n - 2, ?_, by rw [dropped]; omega, .inr ?_⟩
      · simp only [show ¬ n + 1 ≤ 3 by omega, if_false, show n + 1 - 3 = n - 2 by omega, dropped]
      · rw [show n - 2 - 1 = n - 3 by omega, quotient]; omega
    · rw [setCompact_pack_valid (by omega) (by omega)]
      refine ⟨n - 3, ?_, by omega, ?_⟩
      · simp only [small, if_false, ← quotient]
      · refine .inr ((Nat.le_div_iff_mul_le (Nat.pos_pow_of_pos _ (by norm_num))).2 ?_)
        have whole : 256 ^ n = 256 * (256 ^ 3 * 256 ^ (n - 3 - 1)) := by
          rw [← pow_add, ← pow_succ']; congr 1; omega
        have := lower (by omega)
        calc 2 ^ 23 * 256 ^ (n - 3 - 1) ≤ 256 ^ 3 * 256 ^ (n - 3 - 1) :=
              Nat.mul_le_mul_right _ (by norm_num)
          _ ≤ v := by omega

theorem getCompact_within (bn : ArithUint256) : CompactWithin (getCompact bn) bn := by
  obtain ⟨j, decoded, -⟩ := setCompact_getCompact_truncates bn
  rw [CompactWithin, decoded]
  exact ⟨rfl, rfl, ofNat_le_of_le (Nat.div_mul_le_self _ _)⟩

theorem toNat_truncated (bn : ArithUint256) (j : Nat) :
    (BitVec.ofNat 256 (bn.toNat / 256 ^ j * 256 ^ j)).toNat = bn.toNat / 256 ^ j * 256 ^ j := by
  rw [BitVec.toNat_ofNat, Nat.mod_eq_of_lt (lt_of_le_of_lt (Nat.div_mul_le_self _ _) bn.isLt)]

theorem mantissa_ge_of_dropped {v j : Nat} (dropped : 0 < j)
    (fewest : 2 ^ 23 ≤ v / 256 ^ (j - 1)) : 2 ^ 15 ≤ v / 256 ^ j := by
  have step : v / 256 ^ j = v / 256 ^ (j - 1) / 256 := by
    rw [Nat.div_div_eq_div_mul, ← pow_succ, Nat.sub_add_cancel dropped]
  omega

theorem getCompact_mono {a b : ArithUint256} (le : a ≤ b) :
    (setCompact (getCompact a)).value ≤ (setCompact (getCompact b)).value := by
  obtain ⟨i, decodedA, fitsA, fewestA⟩ := setCompact_getCompact_truncates a
  obtain ⟨j, decodedB, fitsB, fewestB⟩ := setCompact_getCompact_truncates b
  rw [decodedA, decodedB, BitVec.le_def, toNat_truncated, toNat_truncated]
  have order : a.toNat ≤ b.toNat := BitVec.le_def.mp le
  have positive : ∀ k, 0 < 256 ^ k := fun k => Nat.pos_pow_of_pos k (by norm_num)
  rcases lt_trichotomy i j with fewer | rfl | more
  · have kept := mantissa_ge_of_dropped (by omega) (fewestB.resolve_left (by omega))
    refine Nat.le_of_lt ?_
    calc a.toNat / 256 ^ i * 256 ^ i ≤ a.toNat := Nat.div_mul_le_self _ _
      _ < 2 ^ 23 * 256 ^ i := (Nat.div_lt_iff_lt_mul (positive i)).1 fitsA
      _ = 2 ^ 15 * 256 ^ (i + 1) := by rw [pow_succ]; ring
      _ ≤ 2 ^ 15 * 256 ^ j := Nat.mul_le_mul_left _ (Nat.pow_le_pow_right (by norm_num) fewer)
      _ ≤ b.toNat / 256 ^ j * 256 ^ j := Nat.mul_le_mul_right _ kept
  · exact Nat.mul_le_mul_right _ (Nat.div_le_div_right order)
  · rcases fewestA with zero | big
    · omega
    have coarser : b.toNat / 256 ^ (i - 1) ≤ b.toNat / 256 ^ j :=
      Nat.div_le_div_left (Nat.pow_le_pow_right (by norm_num) (by omega)) (positive j)
    have smaller : a.toNat / 256 ^ (i - 1) ≤ b.toNat / 256 ^ (i - 1) := Nat.div_le_div_right order
    omega

theorem le_getCompact_add_div (bn : ArithUint256) :
    bn.toNat ≤ (setCompact (getCompact bn)).value.toNat +
      (setCompact (getCompact bn)).value.toNat / 2 ^ 15 := by
  obtain ⟨j, decoded, fits, fewest⟩ := setCompact_getCompact_truncates bn
  rw [decoded, toNat_truncated]
  rcases Nat.eq_zero_or_pos j with rfl | dropped
  · simp
  have kept := mantissa_ge_of_dropped dropped (fewest.resolve_left (by omega))
  have unit : 256 ^ j ≤ bn.toNat / 256 ^ j * 256 ^ j / 2 ^ 15 :=
    (Nat.le_div_iff_mul_le (by norm_num)).2
      (Nat.mul_comm (256 ^ j) (2 ^ 15) ▸ Nat.mul_le_mul_right (256 ^ j) kept)
  have rest : bn.toNat < bn.toNat / 256 ^ j * 256 ^ j + 256 ^ j :=
    Nat.lt_div_mul_add (Nat.pos_pow_of_pos j (by norm_num))
  omega

theorem getCompact_ne_zero {bn : ArithUint256} (nonzero : bn ≠ 0) :
    (setCompact (getCompact bn)).value ≠ 0 := by
  intro zero
  have lost := le_getCompact_add_div bn
  rw [zero] at lost
  exact nonzero (BitVec.eq_of_toNat_eq (by simpa using lost))

theorem setCompact_getCompact {c k : Nat} (mantissa : c < 2 ^ 23)
    (fits : c * 256 ^ k < 2 ^ 256) :
    setCompact (getCompact (BitVec.ofNat 256 (c * 256 ^ k))) =
      ⟨BitVec.ofNat 256 (c * 256 ^ k), false, false⟩ := by
  obtain ⟨j, decoded, -, fewest⟩ :=
    setCompact_getCompact_truncates (BitVec.ofNat 256 (c * 256 ^ k))
  rw [BitVec.toNat_ofNat, Nat.mod_eq_of_lt fits] at decoded fewest
  rw [decoded]
  have kept : j ≤ k := by
    rcases fewest with none | big
    · omega
    · by_contra! deeper
      have shifted : c * 256 ^ k / 256 ^ (j - 1) ≤ c * 256 ^ k / 256 ^ k :=
        Nat.div_le_div_left (Nat.pow_le_pow_right (by norm_num) (by omega))
          (Nat.pos_pow_of_pos _ (by norm_num))
      rw [Nat.mul_div_cancel _ (Nat.pos_pow_of_pos _ (by norm_num))] at shifted
      exact absurd (big.trans shifted) (Nat.not_le.mpr mantissa)
  rw [Nat.div_mul_cancel (Dvd.dvd.mul_left (pow_dvd_pow 256 kept) c)]

theorem mul_pow_lt_of_lt {w j e : Nat} (below : w < 256 ^ j) (total : e + j ≤ 32) :
    w * 256 ^ e < 2 ^ 256 :=
  calc w * 256 ^ e < 256 ^ j * 256 ^ e :=
        Nat.mul_lt_mul_of_pos_right below (Nat.pos_pow_of_pos _ (by norm_num))
    _ = 256 ^ (e + j) := by rw [← pow_add, add_comm]
    _ ≤ 256 ^ 32 := Nat.pow_le_pow_right (by norm_num) total
    _ = 2 ^ 256 := by norm_num

theorem setCompact_value_eq {nBits : UInt32} (valid : (setCompact nBits).fOverflow = false) :
    ∃ w e, w < 2 ^ 23 ∧ w * 256 ^ e < 2 ^ 256 ∧
      (setCompact nBits).value = BitVec.ofNat 256 (w * 256 ^ e) := by
  simp only [setCompact] at valid ⊢
  generalize nBits.toNat / 2 ^ 24 = s at *
  generalize hw : (if s ≤ 3 then nBits.toNat % 2 ^ 23 / 256 ^ (3 - s)
    else nBits.toNat % 2 ^ 23) = w at *
  have small : w < 2 ^ 23 := by
    rw [← hw]; split
    · exact lt_of_le_of_lt (Nat.div_le_self _ _) (Nat.mod_lt _ (by norm_num))
    · exact Nat.mod_lt _ (by norm_num)
  refine ⟨w, s - 3, small, ?_, rfl⟩
  by_cases zero : w = 0
  · simp [zero]
  simp [zero] at valid
  rcases (show s ≤ 32 ∨ s = 33 ∨ s = 34 by omega) with low | three | four
  · exact @mul_pow_lt_of_lt w 3 _ (by omega) (by omega)
  · exact @mul_pow_lt_of_lt w 2 _ (by omega) (by omega)
  · exact @mul_pow_lt_of_lt w 1 _ (by omega) (by omega)

theorem setCompact_getCompact_value {nBits : UInt32}
    (valid : (setCompact nBits).fOverflow = false) :
    setCompact (getCompact (setCompact nBits).value) =
      ⟨(setCompact nBits).value, false, false⟩ := by
  obtain ⟨w, e, mantissa, fits, value⟩ := setCompact_value_eq valid
  rw [value, setCompact_getCompact mantissa fits]

theorem le_getCompact_of_le {nBits : UInt32} {bn : ArithUint256}
    (valid : (setCompact nBits).fOverflow = false) (le : (setCompact nBits).value ≤ bn) :
    (setCompact nBits).value ≤ (setCompact (getCompact bn)).value := by
  have packed := getCompact_mono le
  rwa [setCompact_getCompact_value valid] at packed

theorem byteLength_eq {k x : Nat} (positive : 0 < k) (short : k ≤ 32)
    (lower : 256 ^ (k - 1) ≤ x) (upper : x < 256 ^ k) : byteLength 32 x = k := by
  have fits : x < 256 ^ 32 := lt_of_lt_of_le upper (Nat.pow_le_pow_right (by norm_num) short)
  obtain ⟨above, below, -⟩ := byteLength_bounds 32 x fits
  have atMost := below (lt_of_lt_of_le (Nat.pos_pow_of_pos _ (by norm_num)) lower)
  by_contra differ
  rcases Nat.lt_or_gt_of_ne differ with fewer | more
  · have := Nat.pow_le_pow_right (show 0 < 256 by norm_num)
      (show byteLength 32 x ≤ k - 1 by omega)
    omega
  · have := Nat.pow_le_pow_right (show 0 < 256 by norm_num)
      (show k + 1 ≤ byteLength 32 x by omega)
    rw [pow_succ] at this
    omega

theorem getCompact_eq_of_size {bn : ArithUint256} {n c : Nat}
    (size : byteLength 32 bn.toNat = n)
    (mantissa : (if n ≤ 3 then bn.toNat * 256 ^ (3 - n) else bn.toNat / 256 ^ (n - 3)) = c) :
    getCompact bn = if c / 2 ^ 23 % 2 = 1 then UInt32.ofNat (c / 256 + (n + 1) * 2 ^ 24)
      else UInt32.ofNat (c + n * 2 ^ 24) := by
  subst size mantissa; rfl

theorem getCompact_mul_pow {m k : Nat} (lo : 2 ^ 16 ≤ m) (hi : m < 2 ^ 24) (short : k ≤ 29) :
    getCompact (BitVec.ofNat 256 (m * 256 ^ k)) =
      if m / 2 ^ 23 % 2 = 1 then UInt32.ofNat (m / 256 + (k + 3 + 1) * 2 ^ 24)
      else UInt32.ofNat (m + (k + 3) * 2 ^ 24) := by
  have fits : m * 256 ^ k < 2 ^ 256 := @mul_pow_lt_of_lt m 3 k (by norm_num; omega) (by omega)
  have positive : 0 < 256 ^ k := Nat.pos_pow_of_pos _ (by norm_num)
  apply getCompact_eq_of_size <;> rw [BitVec.toNat_ofNat, Nat.mod_eq_of_lt fits]
  · apply byteLength_eq (by omega) (by omega)
    · calc 256 ^ (k + 3 - 1) = 256 ^ 2 * 256 ^ k := by rw [← pow_add]; congr 1; omega
        _ ≤ m * 256 ^ k := Nat.mul_le_mul_right _ (by norm_num; omega)
    · calc m * 256 ^ k < 256 ^ 3 * 256 ^ k :=
            Nat.mul_lt_mul_of_pos_right (by norm_num; omega) positive
        _ = 256 ^ (k + 3) := by rw [← pow_add, add_comm]
  · rcases Nat.eq_zero_or_pos k with rfl | _
    · simp
    · simp only [show ¬ k + 3 ≤ 3 by omega, if_false, Nat.add_sub_cancel]
      exact Nat.mul_div_cancel _ positive

theorem getCompact_setCompact_getCompact (bn : ArithUint256) :
    getCompact (setCompact (getCompact bn)).value = getCompact bn := by
  obtain ⟨upper, lower, length⟩ := byteLength_bounds 32 bn.toNat (by simpa using bn.isLt)
  rcases Nat.eq_zero_or_pos bn.toNat with zero | positive
  · have : bn = 0 := BitVec.eq_of_toNat_eq (by simpa using zero)
    subst this; decide
  have least := lower positive
  generalize size : byteLength 32 bn.toNat = n at *
  generalize mantissa : (if n ≤ 3 then bn.toNat * 256 ^ (3 - n)
    else bn.toNat / 256 ^ (n - 3)) = c
  have packed := getCompact_eq_of_size size mantissa
  have wide : n ≠ 0 := by rintro rfl; simp at upper; omega
  rcases (show n ≤ 2 ∨ 3 ≤ n by omega) with short | large
  · -- a target of one or two bytes fits the mantissa whole and decodes back to itself
    obtain ⟨j, decoded, -, fewest⟩ := setCompact_getCompact_truncates bn
    have small : bn.toNat < 2 ^ 16 :=
      calc bn.toNat < 256 ^ n := upper
        _ ≤ 256 ^ 2 := Nat.pow_le_pow_right (by norm_num) short
        _ = 2 ^ 16 := by norm_num
    have whole : j = 0 := fewest.resolve_right fun big =>
      absurd (big.trans (Nat.div_le_self _ _)) (by omega)
    rw [decoded, whole]
    simp
  rw [packed]
  · obtain ⟨k, rfl⟩ : ∃ k, n = k + 3 := ⟨n - 3, by omega⟩
    have positive : 0 < 256 ^ k := Nat.pos_pow_of_pos _ (by norm_num)
    have shifted : c = bn.toNat / 256 ^ k := by
      rw [← mantissa]
      split
      · obtain rfl : k = 0 := by omega
        simp
      · rw [Nat.add_sub_cancel]
    have top : c < 2 ^ 24 := by
      rw [shifted, Nat.div_lt_iff_lt_mul positive]
      calc bn.toNat < 256 ^ (k + 3) := upper
        _ = 2 ^ 24 * 256 ^ k := by ring
    have bottom : 2 ^ 16 ≤ c := by
      rw [shifted, Nat.le_div_iff_mul_le positive]
      refine Nat.le_of_mul_le_mul_left ?_ (show 0 < 256 by norm_num)
      calc 256 * (2 ^ 16 * 256 ^ k) = 256 ^ (k + 3) := by ring
        _ ≤ 256 * bn.toNat := least
    split_ifs with sign
    · have value : (if k + 3 + 1 ≤ 3 then c / 256 / 256 ^ (3 - (k + 3 + 1)) else c / 256) *
          256 ^ (k + 3 + 1 - 3) = c / 256 * 256 * 256 ^ k := by
        rw [if_neg (by omega), show k + 3 + 1 - 3 = k + 1 by omega, pow_succ]; ring
      have dropped : c / 256 * 256 / 256 = c / 256 := by omega
      rw [@setCompact_pack_valid (c / 256) (k + 3 + 1) (by omega) (by omega), value,
        getCompact_mul_pow (by omega) (by omega) (by omega), if_pos (by omega), dropped]
    · have value : (if k + 3 ≤ 3 then c / 256 ^ (3 - (k + 3)) else c) = c := by
        split <;> simp [show 3 - (k + 3) = 0 by omega]
      rw [@setCompact_pack_valid c (k + 3) (by omega) (by omega), value, Nat.add_sub_cancel,
        getCompact_mul_pow (by omega) (by omega) (by omega), if_neg sign]

def CompactCanonical (nBits : UInt32) : Prop := getCompact (setCompact nBits).value = nBits

instance (nBits : UInt32) : Decidable (CompactCanonical nBits) :=
  inferInstanceAs (Decidable (_ = _))

theorem compactCanonical_getCompact (bn : ArithUint256) : CompactCanonical (getCompact bn) :=
  getCompact_setCompact_getCompact bn

theorem compactCanonical_iff (nBits : UInt32) :
    CompactCanonical nBits ↔ ∃ bn, getCompact bn = nBits :=
  ⟨fun canonical => ⟨_, canonical⟩, fun ⟨bn, packed⟩ => packed ▸ compactCanonical_getCompact bn⟩

example : CompactCanonical 0x1d00ffff ∧ ¬ CompactCanonical 0x1d007fff := by decide

end IonPow
