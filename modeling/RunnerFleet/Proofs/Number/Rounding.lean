import Mathlib.Tactic
import RunnerFleet.Number.Literal

/-!
# The size of a rounded product

Scaling a literal rounds a whole number and a power of ten to doubles and then their product. Each
of the three roundings leaves 53 bits and makes a number larger by one part in `2 ^ 52` at most. So
the product stays a double while its exact value keeps a little distance from `2 ^ 1024`.
-/

namespace RunnerFleet.Number

open Float.Model Float.Model.UnpackedFloat

/-! ## One rounding -/

theorem finite_congr {s : Sign} {m m' : Nat} {x x' : Int} {h : 0 < m} {h' : 0 < m'} (hm : m = m')
    (hx : x = x') : UnpackedFloat.finite s m x h = .finite s m' x' h' := by
  subst hm hx
  rfl

/-- A whole number without its last bits, and what these were. -/
def cutOff (m bits : Nat) : ExtendedMantissa := (⟨m, false, false⟩ : ExtendedMantissa) >>> bits

theorem mantissa_cutOff (m bits : Nat) : (cutOff m bits).mantissa = m / 2 ^ bits := by
  change (bits.repeat ExtendedMantissa.shiftRightOne _).mantissa = _
  induction bits with
  | zero => simp [Nat.repeat]
  | succ bits ih =>
    rw [Nat.repeat, ExtendedMantissa.shiftRightOne, ih, Nat.div_div_eq_div_mul, ← pow_succ]

theorem roundedMantissa_bounds (em : ExtendedMantissa) :
    em.mantissa ≤ em.roundedMantissa ∧ em.roundedMantissa ≤ em.mantissa + 1 := by
  obtain ⟨m, roundBit, stickyBit⟩ := em
  unfold ExtendedMantissa.roundedMantissa
  cases roundBit <;> cases stickyBit <;>
    simp only [ExtendedMantissa.accuracy, Accuracy.roundToNearestEven] <;> omega

theorem targetExponent_eq (e : Int) : Format.binary64.targetExponent e = max (e - 53) (-1074) := rfl

theorem shiftToTargetExponent_eq {m bits : Nat} {x : Int} (hbits : m.log2 = 52 + bits)
    (hx : -1074 ≤ x + bits) :
    shiftToTargetExponent Format.binary64 m x .exact = (cutOff m bits, x + bits) := by
  have hshift : (Format.binary64.targetExponent (totalExponent m x) - x).toNat = bits := by
    rw [targetExponent_eq, totalExponent, hbits]
    omega
  unfold shiftToTargetExponent shiftToExponent
  dsimp only
  rw [hshift]
  rfl

/-- Rounding up may carry into a 54th bit, which is then zero like all others. -/
theorem exists_carry {r : Nat} (hleast : 2 ^ 52 ≤ r) (hmost : r ≤ 2 ^ 53) :
    ∃ j, r.log2 = 52 + j ∧ r / 2 ^ j * 2 ^ j = r ∧ 2 ^ 52 ≤ r / 2 ^ j ∧ r / 2 ^ j < 2 ^ 53 := by
  obtain hlt | rfl := hmost.lt_or_eq
  · have hlog : r.log2 = 52 := (Nat.log2_eq_iff (by omega)).2 ⟨hleast, hlt⟩
    exact ⟨0, hlog, by simp, by simpa using hleast, by simpa using hlt⟩
  · exact ⟨1, by decide, by decide, by decide, by decide⟩

/-- Of a number of at least 53 bits a rounding leaves 53, and it makes the number larger by one part
in `2 ^ 52` at most. -/
theorem exists_roundWithAccuracy (s : Sign) {m : Nat} {x : Int} (hm : 2 ^ 52 ≤ m)
    (hx : -1074 ≤ x) :
    ∃ r bits h, roundWithAccuracy Format.binary64 s m x .exact = .finite s r (x + (bits : Nat)) h ∧
      2 ^ 52 ≤ r ∧ r < 2 ^ 53 ∧ m < 2 ^ 53 * 2 ^ bits ∧
      2 ^ 52 * (r * 2 ^ bits) ≤ (2 ^ 52 + 1) * m := by
  have hne : m ≠ 0 := by omega
  obtain ⟨k, hk⟩ := Nat.exists_eq_add_of_le ((Nat.le_log2 hne).2 hm)
  have hlow : 2 ^ 52 * 2 ^ k ≤ m := by
    rw [← pow_add, ← hk]
    exact Nat.log2_self_le hne
  have hhigh : m < 2 ^ 53 * 2 ^ k := by
    calc m < 2 ^ (m.log2 + 1) := Nat.lt_log2_self
      _ = 2 ^ 53 * 2 ^ k := by rw [hk]; ring
  have hpos : 0 < 2 ^ k := Nat.two_pow_pos k
  obtain ⟨hfloor, hceil⟩ := roundedMantissa_bounds (cutOff m k)
  rw [mantissa_cutOff] at hfloor hceil
  generalize hr : (cutOff m k).roundedMantissa = r at hfloor hceil
  have hleast : 2 ^ 52 ≤ r := ((Nat.le_div_iff_mul_le hpos).2 hlow).trans hfloor
  have hmost : r ≤ 2 ^ 53 := hceil.trans ((Nat.div_lt_iff_lt_mul hpos).2 hhigh)
  have hround : 2 ^ 52 * (r * 2 ^ k) ≤ (2 ^ 52 + 1) * m := by
    have hdiv : m / 2 ^ k * 2 ^ k ≤ m := Nat.div_mul_le_self m (2 ^ k)
    have hle : r * 2 ^ k ≤ (m / 2 ^ k + 1) * 2 ^ k := Nat.mul_le_mul_right _ hceil
    rw [Nat.add_mul, Nat.one_mul] at hle
    omega
  obtain ⟨j, hj, hcarry, hkept, hsmall⟩ := exists_carry hleast hmost
  refine ⟨r / 2 ^ j, k + j, by omega, ?_, hkept, hsmall, ?_, ?_⟩
  · unfold roundWithAccuracy
    rw [shiftToTargetExponent_eq hk (by omega)]
    dsimp only
    rw [hr, shiftToTargetExponent_eq hj (by omega)]
    rw [dif_neg (by rw [mantissa_cutOff]; omega)]
    exact finite_congr (mantissa_cutOff r j) (by omega)
  · exact hhigh.trans_le (Nat.mul_le_mul_left _ (Nat.pow_le_pow_right (by decide) (by omega)))
  · rw [pow_add, mul_comm (2 ^ k), ← mul_assoc (r / 2 ^ j), hcarry]
    exact hround

/-! ## Rounded numbers -/

/-- The float has 53 bits, the last of them not below `2 ^ (-52)`, and its magnitude exceeds `n` by
one part in `2 ^ 52` at most. -/
def Rounds (n : Nat) (u : UnpackedFloat) : Prop :=
  ∃ s m k h, u = .finite s m ((k : Nat) - 52) h ∧ 2 ^ 52 ≤ m ∧ m < 2 ^ 53 ∧
    m * 2 ^ k ≤ (2 ^ 52 + 1) * n

theorem rounds_ofNat {n : Nat} (hn : 0 < n) : Rounds n (.ofNat Format.binary64 n) := by
  -- small numbers are first shifted to the left by `a` bits
  obtain ⟨a, ha, htarget, hm⟩ : ∃ a ≤ 52, ((0 : Int) -
      Format.binary64.targetExponent (totalExponent n 0)).toNat = a ∧ 2 ^ 52 ≤ n * 2 ^ a := by
    have hlog := Nat.log2_self_le hn.ne'
    refine ⟨52 - n.log2, by omega, ?_, ?_⟩
    · rw [targetExponent_eq, totalExponent]
      omega
    · calc 2 ^ 52 ≤ 2 ^ (n.log2 + (52 - n.log2)) := Nat.pow_le_pow_right (by decide) (by omega)
        _ = 2 ^ n.log2 * 2 ^ (52 - n.log2) := pow_add ..
        _ ≤ n * 2 ^ (52 - n.log2) := Nat.mul_le_mul_right _ hlog
  obtain ⟨r, bits, h, heq, hleast, hmost, -, hround⟩ :=
    exists_roundWithAccuracy .positive (x := -a) hm (by omega)
  have hexceeds : r * 2 ^ (bits + (52 - a)) ≤ (2 ^ 52 + 1) * n := by
    have hsplit : 2 ^ 52 = 2 ^ (52 - a) * 2 ^ a := by rw [← pow_add]; congr 1; omega
    refine Nat.le_of_mul_le_mul_right (c := 2 ^ a) ?_ (Nat.two_pow_pos a)
    calc r * 2 ^ (bits + (52 - a)) * 2 ^ a = 2 ^ 52 * (r * 2 ^ bits) := by
          rw [pow_add, hsplit]; ring
      _ ≤ (2 ^ 52 + 1) * (n * 2 ^ a) := hround
      _ = (2 ^ 52 + 1) * n * 2 ^ a := by ring
  refine ⟨.positive, r, bits + (52 - a), h, ?_, hleast, hmost, hexceeds⟩
  have hgt : compare (n : Int) 0 = .gt := Int.compare_eq_gt.2 (by omega)
  unfold UnpackedFloat.ofNat UnpackedFloat.ofInt UnpackedFloat.normalize
  rw [hgt]
  unfold UnpackedFloat.round decreaseExponent
  dsimp only
  rw [Int.toNat_natCast, htarget, Nat.shiftLeft_eq, Int.zero_sub, heq]
  exact finite_congr rfl (by omega)

theorem exists_unpack {b : BitVec Format.binary64.numBits} (hfinite : unpackExponent b ≠ -1#11)
    (hnormal : unpackExponent b ≠ 0#11) :
    ∃ s h, UnpackedFloat.unpack Format.binary64 b =
      .finite s (1#1 ++ unpackMantissa b).toNat ((unpackExponent b).toNat - 1075) h := by
  have hpos : 0 < (1#1 ++ unpackMantissa b).toNat := by
    rw [BitVec.toNat_append, ← Nat.shiftLeft_add_eq_or_of_lt (BitVec.isLt _), Nat.shiftLeft_eq]
    exact Nat.add_pos_left (by decide) _
  refine ⟨.ofBitVec (unpackSign b), hpos, ?_⟩
  unfold UnpackedFloat.unpack
  dsimp only
  rw [if_neg hfinite, if_neg hnormal]
  rfl

/-- A float of 53 bits is kept but for its sign by the format, if its exponent is in range. -/
theorem exists_unpack_pack {s : Sign} {m : Nat} {x : Int} {h : 0 < m} (hleast : 2 ^ 52 ≤ m)
    (hmost : m < 2 ^ 53) (hlow : -1074 ≤ x) (hhigh : x ≤ 971) :
    ∃ s', (pack (.finite s m x h)).unpack = .finite s' m x h := by
  have hlog : m.log2 = 52 := (Nat.log2_eq_iff (by omega)).2 ⟨hleast, hmost⟩
  have hpack : UnpackedFloat.pack Format.binary64 (.finite s m x h) =
      packComponents Format.binary64 s (.ofNat 11 (x + 1075).toNat) (.ofNat 52 m) := by
    have hbias : x + (Format.binary64.exponentBias : Int) + (52 : Nat) = x + 1075 := by
      change x + 1023 + 52 = x + 1075
      omega
    unfold UnpackedFloat.pack
    dsimp only
    rw [hbias, if_neg (by omega), if_pos (by rw [hlog]; rfl)]
  have hexponent : (BitVec.ofNat 11 (x + 1075).toNat).toNat = (x + 1075).toNat := by
    rw [BitVec.toNat_ofNat, Nat.mod_eq_of_lt (by omega)]
  have hmantissa : (1#1 ++ BitVec.ofNat 52 m).toNat = m := by
    rw [BitVec.toNat_append, ← Nat.shiftLeft_add_eq_or_of_lt (BitVec.isLt _), Nat.shiftLeft_eq,
      BitVec.toNat_ofNat, BitVec.toNat_ofNat]
    omega
  have hfinite : BitVec.ofNat 11 (x + 1075).toNat ≠ -1#11 := by
    intro heq
    have hall : (BitVec.ofNat 11 (x + 1075).toNat).toNat = 2047 := congrArg BitVec.toNat heq
    omega
  have hnormal : BitVec.ofNat 11 (x + 1075).toNat ≠ 0#11 := by
    intro heq
    have hnone : (BitVec.ofNat 11 (x + 1075).toNat).toNat = 0 := congrArg BitVec.toNat heq
    omega
  obtain ⟨b, hb⟩ : ∃ b, UnpackedFloat.pack Format.binary64 (.finite s m x h) = b := ⟨_, rfl⟩
  have hfield : unpackExponent b = .ofNat 11 (x + 1075).toNat := by
    rw [← hb, hpack]
    exact unpackExponent_packComponents
  have hfraction : unpackMantissa b = .ofNat 52 m := by
    rw [← hb, hpack]
    exact unpackMantissa_packComponents
  obtain ⟨s', h', heq⟩ := exists_unpack (hfield ▸ hfinite) (hfield ▸ hnormal)
  refine ⟨s', ?_⟩
  change UnpackedFloat.unpack Format.binary64 (UnpackedFloat.pack Format.binary64 _) = _
  rw [hb, heq]
  refine finite_congr ?_ ?_
  · rw [hfraction, hmantissa]
  · rw [hfield, hexponent]
    omega

theorem Rounds.unpack_pack {n : Nat} {u : UnpackedFloat} (h : Rounds n u)
    (hn : (2 ^ 52 + 1) * n < 2 ^ 1076) : Rounds n (pack u).unpack := by
  obtain ⟨s, m, k, hpos, rfl, hleast, hmost, hround⟩ := h
  have hk : 52 + k < 1076 := by
    refine (Nat.pow_lt_pow_iff_right (a := 2) (by decide)).1 ?_
    calc 2 ^ (52 + k) = 2 ^ 52 * 2 ^ k := pow_add ..
      _ ≤ m * 2 ^ k := Nat.mul_le_mul_right _ hleast
      _ < 2 ^ 1076 := hround.trans_lt hn
  obtain ⟨s', heq⟩ := exists_unpack_pack (s := s) (x := (k : Int) - 52) (h := hpos) hleast hmost
    (by omega) (by omega)
  exact ⟨s', m, k, hpos, heq, hleast, hmost, hround⟩

/-- The larger powers of ten are rounded at 53 bits more. -/
theorem powerOfTen_toModel {e : Nat} (hmany : 22 < e) (he : e ≤ 308) :
    (powerOfTen e).toModel = pack
      (roundWithAccuracy Format.binary64 .positive (2 ^ 53 * 10 ^ e) (-53) .exact) := by
  have hexact : ¬ ((1 : Nat) < 2 ^ 53 ∧ e ≤ 22) := by omega
  have hbig : ¬ Int.ofNat e > 2 ^ Format.binary64.exponentBits := by
    change ¬ (e : Int) > 2 ^ 11
    omega
  have hsmall : ¬ Int.ofNat e < -(2 ^ Format.binary64.exponentBits + (Nat.log2 1 : Int)) := by
    change ¬ (e : Int) < -(2 ^ 11 + 0)
    omega
  have hnonneg : 0 ≤ Int.ofNat e := Int.natCast_nonneg e
  unfold powerOfTen Float.ofScientific
  rw [dif_neg hexact]
  change pack (UnpackedFloat.ofScientific Format.binary64 1 (.ofNat e)) = _
  unfold UnpackedFloat.ofScientific
  rw [dif_neg (by decide), if_neg hbig, if_neg hsmall, if_pos hnonneg]
  rfl

theorem rounds_powerOfTen {e : Nat} (he : e ≤ 308) :
    Rounds (10 ^ e) (powerOfTen e).toModel.unpack := by
  have hpos : 0 < 10 ^ e := by positivity
  obtain ⟨u, hu, hpower⟩ : ∃ u, Rounds (10 ^ e) u ∧ (powerOfTen e).toModel = pack u := by
    obtain hfew | hmany := le_or_gt e 22
    · have htable : ∀ e ≤ 22, (powerOfTen e).toModel = pack (.ofNat Format.binary64 (10 ^ e)) := by
        decide +kernel
      exact ⟨_, rounds_ofNat hpos, htable e hfew⟩
    · obtain ⟨r, bits, h, heq, hleast, hmost, hbits, hround⟩ :=
        exists_roundWithAccuracy .positive (m := 2 ^ 53 * 10 ^ e) (x := -53) (by omega) (by omega)
      obtain ⟨k, rfl⟩ : ∃ k, bits = k + 1 := by
        refine Nat.exists_eq_succ_of_ne_zero ?_
        rintro rfl
        omega
      refine ⟨.finite .positive r (-53 + (k + 1 : Nat)) h,
        ⟨_, r, k, h, finite_congr rfl (by omega), hleast, hmost, ?_⟩, ?_⟩
      · have hdouble : r * 2 ^ (k + 1) = 2 * (r * 2 ^ k) := by ring
        omega
      · rw [powerOfTen_toModel hmany he]
        exact congrArg pack heq
  have hroom : (2 ^ 52 + 1) * 10 ^ e < 2 ^ 1076 := by
    calc (2 ^ 52 + 1) * 10 ^ e ≤ (2 ^ 52 + 1) * 10 ^ 308 := by gcongr; decide
      _ < 2 ^ 1076 := by decide +kernel
  rw [hpower]
  exact hu.unpack_pack hroom

theorem rounds_toFloat {v : Nat} (hpos : 0 < v) (hv : v < 2 ^ 64) :
    Rounds v v.toUInt64.toFloat.toModel.unpack := by
  have hword : v.toUInt64.toNat = v := Nat.mod_eq_of_lt hv
  have hroom : (2 ^ 52 + 1) * v < 2 ^ 1076 := by
    calc (2 ^ 52 + 1) * v ≤ (2 ^ 52 + 1) * 2 ^ 64 := by gcongr
      _ < 2 ^ 1076 := by decide +kernel
  change Rounds v (pack (.ofNat Format.binary64 v.toUInt64.toNat)).unpack
  rw [hword]
  exact (rounds_ofNat hpos).unpack_pack hroom

/-- The product of two rounded numbers is no infinity if their exact product leaves room for three
roundings. -/
theorem Rounds.isInf_mul {a b : Nat} {u w : UnpackedFloat} (ha : Rounds a u) (hb : Rounds b w)
    (h : (2 ^ 52 + 1) ^ 3 * (a * b) < 2 ^ 1180) :
    (pack (UnpackedFloat.mul Format.binary64 u w)).isInf = false := by
  obtain ⟨s, m, k, hm, rfl, hmleast, -, hmround⟩ := ha
  obtain ⟨s', m', k', hm', rfl, hmleast', -, hmround'⟩ := hb
  have hleast : 2 ^ 52 ≤ m * m' := by
    calc 2 ^ 52 ≤ 2 ^ 52 * 2 ^ 52 := by decide
      _ ≤ m * m' := Nat.mul_le_mul hmleast hmleast'
  obtain ⟨r, bits, hr, heq, hrleast, hrmost, -, hround⟩ :=
    exists_roundWithAccuracy (s * s') (x := (k : Int) - 52 + ((k' : Int) - 52)) hleast (by omega)
  have hexponent : 104 + (bits + k + k') < 1180 := by
    refine (Nat.pow_lt_pow_iff_right (a := 2) (by decide)).1 ?_
    calc 2 ^ (104 + (bits + k + k')) = 2 ^ 52 * (2 ^ 52 * 2 ^ bits) * (2 ^ k * 2 ^ k') := by ring
      _ ≤ 2 ^ 52 * (r * 2 ^ bits) * (2 ^ k * 2 ^ k') := by gcongr
      _ ≤ (2 ^ 52 + 1) * (m * m') * (2 ^ k * 2 ^ k') := by gcongr
      _ = (2 ^ 52 + 1) * ((m * 2 ^ k) * (m' * 2 ^ k')) := by ring
      _ ≤ (2 ^ 52 + 1) * (((2 ^ 52 + 1) * a) * ((2 ^ 52 + 1) * b)) := by gcongr
      _ = (2 ^ 52 + 1) ^ 3 * (a * b) := by ring
      _ < 2 ^ 1180 := h
  obtain ⟨sign, hunpack⟩ := exists_unpack_pack (s := s * s')
    (x := (k : Int) - 52 + ((k' : Int) - 52) + (bits : Nat)) (h := hr) hrleast hrmost (by omega)
    (by omega)
  unfold Float.Model.isInf
  change (pack (roundWithAccuracy _ (s * s') _ _ _)).unpack.isInf = false
  rw [heq, hunpack]
  rfl

/-! ## Scaled numbers -/

/-- A 64-bit number times a power of ten is no infinity, unless their exact product is too near to
`2 ^ 1024`. -/
theorem isInf_mul_powerOfTen {v e : Nat} (hv : v < 2 ^ 64) (he : e ≤ 308)
    (h : v * 10 ^ e ≤ (2 ^ 55 - 34) * 2 ^ 969) :
    (v.toUInt64.toFloat * powerOfTen e).isInf = false := by
  have hpower := rounds_powerOfTen he
  obtain rfl | hpos := Nat.eq_zero_or_pos v
  · obtain ⟨s, m, k, hm, heq, -⟩ := hpower
    have hzero : (Nat.toUInt64 0).toFloat.toModel.unpack = .zero .positive := by rfl
    change (pack (UnpackedFloat.mul Format.binary64 _ _)).unpack.isInf = false
    rw [hzero, heq]
    cases s with
    | positive =>
      change (pack (.zero .positive)).unpack.isInf = false
      decide +kernel
    | negative =>
      change (pack (.zero .negative)).unpack.isInf = false
      decide +kernel
  · refine (rounds_toFloat hpos hv).isInf_mul hpower ?_
    calc (2 ^ 52 + 1) ^ 3 * (v * 10 ^ e) ≤ (2 ^ 52 + 1) ^ 3 * ((2 ^ 55 - 34) * 2 ^ 969) :=
          Nat.mul_le_mul_left _ h
      _ < 2 ^ 1180 := by decide +kernel

/-- A 64-bit number is scaled to a double, unless its exact multiple is too near to `2 ^ 1024`. -/
theorem exists_scale? {v : Nat} {e : Int} (hv : v < 2 ^ 64)
    (h : v * 10 ^ e.toNat ≤ (2 ^ 55 - 34) * 2 ^ 969) :
    ∃ x, scale? v.toUInt64.toFloat e = some x := by
  unfold scale?
  split
  · next he =>
    have hzero : v = 0 := by
      by_contra hpos
      refine absurd h (Nat.not_le.2 ?_)
      calc (2 ^ 55 - 34) * 2 ^ 969 < 10 ^ 309 := by decide +kernel
        _ ≤ 10 ^ e.toNat := Nat.pow_le_pow_right (by decide) (by omega)
        _ ≤ v * 10 ^ e.toNat := Nat.le_mul_of_pos_left _ (by omega)
    subst hzero
    exact ⟨_, if_pos (by decide +kernel)⟩
  · split
    · have hfinite := isInf_mul_powerOfTen (e := e.toNat) hv (by omega) h
      dsimp only
      rw [hfinite]
      exact ⟨_, rfl⟩
    · split
      · exact ⟨_, rfl⟩
      · split <;> exact ⟨_, rfl⟩

end RunnerFleet.Number
