import Mathlib.Data.List.DropRight
import RunnerFleet.Proofs.Number.Rounding
import RunnerFleet.Proofs.Number.Written

/-!
# Every finite double is read back

The text of a double is a number literal. Either it is scaled down, which cannot leave the doubles,
or it has one whole digit and an exponent and comes to a decimal in the rounding interval of the
double. Three roundings then stay below `2 ^ 1024`, but for the eight largest doubles of each sign;
these are read one by one.
-/

namespace RunnerFleet

namespace Decimal

theorem value_cons_eq (d : Char) (ds : List Char) :
    value (d :: ds) = value [d] * 10 ^ ds.length + value ds := by
  have hnil : value [] = 0 := rfl
  rw [value_cons d ds, value_cons d [], hnil, List.length_nil]
  ring

theorem value_digit_lt {d : Char} (h : d.isDigit = true) : value [d] < 10 := by
  have hone : ∀ c ∈ [d], c.isDigit = true := by simpa using h
  exact value_lt_pow hone

theorem isDigit_replicate_zero (n : Nat) : ∀ c ∈ List.replicate n '0', c.isDigit = true := by
  intro c hc
  rw [List.eq_of_mem_replicate hc]
  rfl

end Decimal

namespace Number

variable {ds whole sign : List Char}

/-! ## The gathered digits -/

section

variable {n : Nat}

theorem gather_lt (h : n < 2 ^ 64) (ds : List Char) : (gather n ds).1 < 2 ^ 64 := by
  induction ds generalizing n with
  | nil => exact h
  | cons d ds ih =>
    unfold gather
    dsimp only
    split
    · next hnext => exact ih hnext
    · exact h

theorem gather_length (n : Nat) (ds : List Char) :
    (gather n ds).2.1 + (gather n ds).2.2 = ds.length := by
  induction ds generalizing n with
  | nil => rfl
  | cons d ds ih =>
    unfold gather
    dsimp only
    split
    · rw [List.length_cons, ← ih (n * 10 + Decimal.value [d])]
      exact Nat.add_right_comm _ _ _
    · rw [List.length_cons, Nat.zero_add]

/-- With zeros for the digits that were left the number is not greater than with all digits. -/
theorem gather_le (n : Nat) (ds : List Char) :
    (gather n ds).1 * 10 ^ (gather n ds).2.2 ≤ n * 10 ^ ds.length + Decimal.value ds := by
  induction ds generalizing n with
  | nil => exact Nat.le_add_right _ _
  | cons d ds ih =>
    unfold gather
    dsimp only
    split
    · refine (ih _).trans_eq ?_
      rw [Decimal.value_cons_eq d ds, List.length_cons]
      ring
    · exact Nat.le_add_right _ _

/-- Few digits are all gathered. -/
theorem left_gather (hds : ∀ c ∈ ds, c.isDigit = true) (h : (n + 1) * 10 ^ ds.length ≤ 2 ^ 64) :
    (gather n ds).2.2 = 0 := by
  induction ds generalizing n with
  | nil => rfl
  | cons d ds ih =>
    obtain ⟨hd, hds⟩ := List.forall_mem_cons.1 hds
    have hdigit := Decimal.value_digit_lt hd
    have hnext : (n * 10 + Decimal.value [d] + 1) * 10 ^ ds.length ≤ 2 ^ 64 := by
      calc (n * 10 + Decimal.value [d] + 1) * 10 ^ ds.length ≤ (n + 1) * 10 * 10 ^ ds.length :=
            Nat.mul_le_mul_right _ (by omega)
        _ = (n + 1) * 10 ^ (ds.length + 1) := by ring
        _ ≤ 2 ^ 64 := h
    have hfits : n * 10 + Decimal.value [d] < UInt64.size :=
      (Nat.le_mul_of_pos_right _ (by positivity)).trans hnext
    unfold gather
    dsimp only
    rw [if_pos hfits]
    exact ih hds hnext

end

/-! ## The digits of a decimal -/

/-- The digits that are written of a decimal, and the zeros that are cut off. -/
theorem Scientific.exists_zeros (s : Scientific) :
    ∃ k, Decimal.digits s.coefficient = s.parts.1 ++ List.replicate k '0' ∧
      s.coefficient = Decimal.value s.parts.1 * 10 ^ k ∧
      s.parts.2 = s.parts.1.length + k + s.exponent := by
  obtain ⟨k, hk⟩ : ∃ k, Decimal.digits s.coefficient = s.parts.1 ++ List.replicate k '0' := by
    refine ⟨((Decimal.digits s.coefficient).rtakeWhile (· = '0')).length, ?_⟩
    have hzeros := List.eq_replicate_of_mem (a := '0')
      (l := (Decimal.digits s.coefficient).rtakeWhile (· = '0')) fun c hc => by
        simpa using List.mem_rtakeWhile_imp hc
    rw [← hzeros]
    exact (List.rdropWhile_append_rtakeWhile (p := (· = '0'))).symm
  refine ⟨k, hk, ?_, ?_⟩
  · rw [← Decimal.value_digits s.coefficient, hk, Decimal.value, Nat.ofDigitChars_append,
      Nat.ofDigitChars_replicate_zero, mul_comm]
    rfl
  · change ((Decimal.digits s.coefficient).length : Int) + s.exponent = _
    rw [hk]
    simp

/-- The gathered number fits into 64 bits, and scaled up it is not greater than the decimal. -/
def Literal.Within (l : Literal) (s : Scientific) : Prop :=
  l.scaled.1 < 2 ^ 64 ∧ (0 < l.scaled.2 → l.scaled.1 * 10 ^ l.scaled.2.toNat *
    10 ^ (-s.exponent).toNat ≤ s.coefficient * 10 ^ s.exponent.toNat)

namespace Literal

variable {s : Scientific} {l : Literal}

/-- A literal with few whole digits and no exponent is only ever scaled down. -/
theorem within_of_positional (hwhole : ∀ c ∈ l.whole, c.isDigit = true)
    (hfew : l.whole.length ≤ 16) (hexponent : l.exponent = none) : l.Within s := by
  have hleft : (gather 0 l.whole).2.2 = 0 := by
    refine left_gather hwhole ?_
    calc (0 + 1) * 10 ^ l.whole.length ≤ (0 + 1) * 10 ^ 16 := by gcongr; decide
      _ ≤ 2 ^ 64 := by decide
  refine ⟨gather_lt (gather_lt (by decide) _) _, fun hscale => ?_⟩
  have hdown : l.scaled.2 ≤ 0 := by
    change ((gather 0 l.whole).2.2 : Int) - _ + l.exponent.getD 0 ≤ 0
    rw [hleft, hexponent, Option.getD_none]
    omega
  omega

/-- A literal with one whole digit and an exponent is the decimal that it was written for, up to
digits that are not gathered. -/
theorem within_of_exponential {d : Char} {ds : List Char} (hd : d.isDigit = true)
    (hds : s.parts.1 = d :: ds) (hwhole : l.whole = [d]) (hfraction : l.fraction.getD [] = ds)
    (hexponent : l.exponent = some (s.parts.2 - 1)) : l.Within s := by
  have hdigit := Decimal.value_digit_lt hd
  have hone : gather 0 l.whole = (Decimal.value [d], 1, 0) := by
    rw [hwhole]
    simp only [gather, Nat.zero_mul, Nat.zero_add]
    rw [if_pos (hdigit.trans (by decide))]
  have hscaled : l.scaled = ((gather (Decimal.value [d]) ds).1,
      ((0 : Nat) : Int) - (gather (Decimal.value [d]) ds).2.1 + (s.parts.2 - 1)) := by
    unfold scaled
    rw [hone, hfraction, hexponent]
    rfl
  obtain ⟨k, -, hcoefficient, hpoint⟩ := s.exists_zeros
  rw [hds, List.length_cons] at hpoint
  have hlength := gather_length (Decimal.value [d]) ds
  have hle : (gather (Decimal.value [d]) ds).1 * 10 ^ (gather (Decimal.value [d]) ds).2.2 ≤
      Decimal.value s.parts.1 := by
    refine (gather_le _ _).trans_eq ?_
    rw [hds, Decimal.value_cons_eq d ds]
  have hbelow : (gather (Decimal.value [d]) ds).1 < 2 ^ 64 :=
    gather_lt (hdigit.trans (by decide)) ds
  rw [Within, hscaled]
  generalize gather (Decimal.value [d]) ds = gathered at *
  obtain ⟨v, taken, left⟩ := gathered
  dsimp only at *
  refine ⟨hbelow, fun hscale => ?_⟩
  generalize hE : (((0 : Nat) : Int) - taken + (s.parts.2 - 1)).toNat = E
  have hpowers : E + (-s.exponent).toNat = left + k + s.exponent.toNat := by omega
  calc v * 10 ^ E * 10 ^ (-s.exponent).toNat = v * 10 ^ left * 10 ^ k * 10 ^ s.exponent.toNat := by
        rw [mul_assoc, ← pow_add, hpowers, pow_add, pow_add]
        ring
    _ ≤ Decimal.value s.parts.1 * 10 ^ k * 10 ^ s.exponent.toNat := by gcongr
    _ = s.coefficient * 10 ^ s.exponent.toNat := by rw [hcoefficient]

end Literal

theorem Scientific.parts_digits {s : Scientific} (hs : s.coefficient ≠ 0) :
    s.parts.1 ≠ [] ∧ (∀ c ∈ s.parts.1, c.isDigit = true) ∧ s.parts.1.head? ≠ some '0' := by
  obtain ⟨k, hdigits, hcoefficient, -⟩ := s.exists_zeros
  have hall : ∀ c ∈ s.parts.1, c.isDigit = true := fun c hc =>
    Decimal.isDigit_of_mem_digits (hdigits ▸ List.mem_append_left _ hc)
  have hne : s.parts.1 ≠ [] := by
    intro hnil
    rw [hnil] at hcoefficient
    exact hs (hcoefficient.trans (Nat.zero_mul _))
  refine ⟨hne, hall, fun hzero => ?_⟩
  obtain ⟨ds, hds⟩ := List.head?_eq_some_iff.1 hzero
  rw [hds, List.cons_append] at hdigits
  have hnil := Decimal.eq_singleton_of_digits_eq_cons hdigits
  rw [List.append_eq_nil_iff] at hnil
  rw [hds, hnil.1] at hcoefficient
  exact hs (hcoefficient.trans (Nat.zero_mul _))

section

variable {s : Scientific} {point : Int}

theorem Scientific.exists_positional (s : Scientific) (hsign : sign = [] ∨ sign = ['-'])
    (hwhole : IsWhole whole) (hfew : whole.length ≤ 16) (hne : ds ≠ [])
    (hds : ∀ c ∈ ds, c.isDigit = true) :
    ∃ l, Literal.ofChars? (sign ++ (whole ++ '.' :: ds)) = some l ∧ l.Within s := by
  have hend : ∀ c ∈ ([] : List Char).head?, c.isDigit = false := nofun
  have hmark : ∀ c ∈ ('.' :: ds).head?, c.isDigit = false := by simp
  have hpoint := fraction?_point hne hds hend
  rw [List.append_nil] at hpoint
  have hread := Literal.ofChars?_append hsign hwhole hmark hpoint rfl
  rw [← List.append_assoc]
  exact ⟨_, hread, Literal.within_of_positional hwhole.2.1 hfew rfl⟩

theorem Scientific.exists_exponential {d : Char} (hsign : sign = [] ∨ sign = ['-'])
    (hds : ∀ c ∈ d :: ds, c.isDigit = true) (hzero : d ≠ '0') (hparts : s.parts = (d :: ds, point)) :
    ∃ l, Literal.ofChars? (sign ++ ((if ds = [] then [d] else d :: '.' :: ds) ++
      exponentText Json.numberLayout (point - 1))) = some l ∧ l.Within s := by
  obtain ⟨hd, hds⟩ := List.forall_mem_cons.1 hds
  have hwhole : IsWhole [d] := ⟨nofun, by simpa using hd, .inr (by simpa using hzero)⟩
  have hpower := exponent?_exponentText (point - 1)
  have hmark : ∀ c ∈ (exponentText Json.numberLayout (point - 1)).head?, c.isDigit = false := by
    simp [exponentText, Json.numberLayout]
  have hfirst : s.parts.1 = d :: ds := by rw [hparts]
  have hpoint : s.parts.2 = point := by rw [hparts]
  subst hpoint
  split
  · next hnil =>
    have hread := Literal.ofChars?_append hsign hwhole hmark rfl hpower
    rw [List.append_assoc] at hread
    exact ⟨_, hread, Literal.within_of_exponential hd hfirst rfl hnil.symm rfl⟩
  · next hsome =>
    have hpoint := fraction?_point hsome hds hmark
    have hread := Literal.ofChars?_append hsign hwhole (by simp) hpoint hpower
    rw [List.append_assoc] at hread
    exact ⟨_, hread, Literal.within_of_exponential hd hfirst rfl rfl rfl⟩

/-- A decimal is written as a literal that is not greater. -/
theorem Scientific.exists_literal (hs : s.coefficient ≠ 0) (hsign : sign = [] ∨ sign = ['-']) :
    ∃ l, Literal.ofChars? (sign ++ s.write Json.numberLayout) = some l ∧ l.Within s := by
  obtain ⟨hne, hdigits, hzero⟩ := s.parts_digits hs
  unfold Scientific.write
  generalize hparts : s.parts = parts at hne hdigits hzero ⊢
  obtain ⟨ds, point⟩ := parts
  dsimp only at hne hdigits hzero ⊢
  split
  · next hnear =>
    have hpoint : point ≤ 16 := hnear.2
    split
    · have hwhole : IsWhole ['0'] := ⟨nofun, by simp, .inl rfl⟩
      exact s.exists_positional hsign hwhole (by decide) (by simp [hne])
        (List.forall_mem_append.2 ⟨Decimal.isDigit_replicate_zero _, hdigits⟩)
    · split
      · have hwhole := List.forall_mem_append.2
          ⟨hdigits, Decimal.isDigit_replicate_zero (point.toNat - ds.length)⟩
        refine s.exists_positional hsign ⟨by simp [hne], hwhole, .inr ?_⟩ ?_ nofun (by simp)
        · rwa [List.head?_append_of_ne_nil _ hne]
        · rw [List.length_append, List.length_replicate]
          omega
      · rw [List.append_assoc]
        have hwhole : IsWhole (ds.take point.toNat) := by
          refine ⟨fun htake => ?_, fun c hc => hdigits c (List.mem_of_mem_take hc), .inr ?_⟩
          · obtain hnone | hnil := List.take_eq_nil_iff.1 htake
            · omega
            · exact hne hnil
          · rwa [List.head?_take, if_neg (by omega)]
        have hfraction : ∀ c ∈ ds.drop point.toNat, c.isDigit = true :=
          fun c hc => hdigits c (List.mem_of_mem_drop hc)
        have hfew : (ds.take point.toNat).length ≤ 16 := by
          rw [List.length_take]
          omega
        have hsome : ds.drop point.toNat ≠ [] := by
          rw [Ne, List.drop_eq_nil_iff]
          omega
        exact s.exists_positional hsign hwhole hfew hsome hfraction
  · obtain ⟨d, rest, rfl⟩ := List.exists_cons_of_ne_nil hne
    have hread := Scientific.exists_exponential hsign hdigits (by simpa using hzero) hparts
    cases rest with
    | nil => exact hread
    | cons r rest => exact hread

end

/-! ## The decimal in the rounding interval -/

theorem Interval.le_of_contains {i : Interval} {n : Nat} (h : i.contains n = true) :
    i.lower ≤ n * i.denominator ∧ n * i.denominator ≤ i.upper := by
  unfold contains at h
  split at h
  · simpa using h
  · rw [Bool.and_eq_true, decide_eq_true_iff, decide_eq_true_iff] at h
    exact ⟨h.1.le, h.2.le⟩

theorem Interval.contains_of_withDigits? {i : Interval} {count : Nat} {s : Scientific}
    (h : i.withDigits? count = some s) : (i.inUnits s.exponent).contains s.coefficient = true := by
  obtain ⟨n, hn, rfl⟩ := Option.map_eq_some_iff.1 h
  unfold nearest? at hn
  exact List.find?_some hn

/-- The decimal that is written of a double is not above the rounding interval of the double. -/
theorem Dyadic.shortest_le {d : Dyadic} {bound : Nat} (hd : d.significand ≠ 0)
    (h : (4 * d.significand + 2) * 2 ^ (d.exponent - 2).toNat ≤ bound) :
    d.shortest = ⟨0, 0⟩ ∨ d.shortest.coefficient ≠ 0 ∧
      d.shortest.coefficient * 10 ^ d.shortest.exponent.toNat ≤
        bound * 10 ^ (-d.shortest.exponent).toNat := by
  unfold Dyadic.shortest
  dsimp only
  cases hfound : (List.range mostDigits).findSome? fun k => d.interval.withDigits? (k + 1) with
  | none => exact .inl rfl
  | some s =>
    right
    rw [Option.getD_some]
    obtain ⟨k, -, hk⟩ := List.exists_of_findSome?_eq_some hfound
    obtain ⟨hlower, hupper⟩ := Interval.le_of_contains (Interval.contains_of_withDigits? hk)
    constructor
    · have hpositive : 0 < (d.interval.inUnits s.exponent).lower := by
        refine Nat.mul_pos (Nat.mul_pos (Nat.sub_pos_of_lt ?_) (Nat.two_pow_pos _))
          (Nat.pow_pos (by decide))
        split <;> omega
      intro hzero
      rw [hzero, Nat.zero_mul] at hlower
      omega
    · have hone : 1 ≤ d.interval.denominator := Nat.one_le_two_pow
      calc s.coefficient * 10 ^ s.exponent.toNat ≤
            s.coefficient * (d.interval.denominator * 10 ^ s.exponent.toNat) :=
            Nat.mul_le_mul_left _ (Nat.le_mul_of_pos_left _ hone)
        _ ≤ (4 * d.significand + 2) * 2 ^ (d.exponent - 2).toNat * 10 ^ (-s.exponent).toNat := hupper
        _ ≤ bound * 10 ^ (-s.exponent).toNat := Nat.mul_le_mul_right _ h

theorem Literal.Within.exists_toFloat? {l : Literal} {s : Scientific} (hl : l.Within s)
    (h : s.coefficient * 10 ^ s.exponent.toNat ≤ (2 ^ 55 - 34) * 2 ^ 969 * 10 ^ (-s.exponent).toNat) :
    ∃ y, l.toFloat? = some y := by
  obtain ⟨hword, hscaled⟩ := hl
  have hle : l.scaled.1 * 10 ^ l.scaled.2.toNat ≤ (2 ^ 55 - 34) * 2 ^ 969 := by
    by_cases hup : 0 < l.scaled.2
    · exact Nat.le_of_mul_le_mul_right ((hscaled hup).trans h) (by positivity)
    · rw [Int.toNat_of_nonpos (by omega), pow_zero, mul_one]
      exact hword.le.trans (by decide +kernel)
  obtain ⟨x, hx⟩ := exists_scale? hword hle
  exact ⟨if l.negative then -x else x, Option.map_eq_some_iff.2 ⟨x, hx, rfl⟩⟩

theorem Dyadic.upper_le {d : Dyadic} (hm : d.significand < 2 ^ 53) (hq : d.exponent ≤ 971)
    (h : d.exponent = 971 → d.significand ≤ 2 ^ 53 - 9) :
    (4 * d.significand + 2) * 2 ^ (d.exponent - 2).toNat ≤ (2 ^ 55 - 34) * 2 ^ 969 := by
  by_cases hlast : d.exponent = 971
  · have hpower : (d.exponent - 2).toNat = 969 := by omega
    rw [hpower]
    exact Nat.mul_le_mul_right _ (by omega)
  · have hless : (d.exponent - 2).toNat + 1 ≤ 969 := by omega
    calc (4 * d.significand + 2) * 2 ^ (d.exponent - 2).toNat ≤
          (2 ^ 55 - 34) * 2 * 2 ^ (d.exponent - 2).toNat := Nat.mul_le_mul_right _ (by omega)
      _ = (2 ^ 55 - 34) * 2 ^ ((d.exponent - 2).toNat + 1) := by rw [mul_assoc, ← pow_succ']
      _ ≤ (2 ^ 55 - 34) * 2 ^ 969 := by gcongr; decide

/-- The largest doubles, up to which the bound on three roundings does not reach. -/
theorem Dyadic.exists_largest_reading {d : Dyadic} (hm : d.significand < 2 ^ 53)
    (hq : d.exponent = 971) (h : 2 ^ 53 - 9 < d.significand) (hsign : sign = [] ∨ sign = ['-']) :
    ∃ y, (Literal.ofChars? (sign ++ d.shortest.write Json.numberLayout)).bind Literal.toFloat? =
      some y := by
  have hlargest : ∀ k < 8, ∀ negative : Bool, ((Literal.ofChars? ((if negative then ['-'] else []) ++
      (Dyadic.mk (2 ^ 53 - 1 - k) 971).shortest.write Json.numberLayout)).bind
        Literal.toFloat?).isSome = true := by decide +kernel
  have hd : d = ⟨2 ^ 53 - 1 - (2 ^ 53 - 1 - d.significand), 971⟩ := by
    rw [Nat.sub_sub_self (by omega), ← hq]
  have hread := hlargest (2 ^ 53 - 1 - d.significand) (by omega)
  rw [← hd] at hread
  obtain rfl | rfl := hsign
  · exact Option.isSome_iff_exists.1 (hread false)
  · exact Option.isSome_iff_exists.1 (hread true)

theorem Dyadic.exists_reading {d : Dyadic} (hm : d.significand < 2 ^ 53) (hq : d.exponent ≤ 971)
    (hsign : sign = [] ∨ sign = ['-']) :
    ∃ y, (Literal.ofChars? (sign ++ d.write Json.numberLayout)).bind Literal.toFloat? = some y := by
  have hzero : ∃ y, (Literal.ofChars? (sign ++ ['0', '.', '0'])).bind Literal.toFloat? = some y := by
    obtain rfl | rfl := hsign
    · exact ⟨0, by decide +kernel⟩
    · exact ⟨-0, by decide +kernel⟩
  unfold Dyadic.write
  split
  · exact hzero
  · next hsignificand =>
    by_cases hlarge : d.exponent = 971 ∧ 2 ^ 53 - 9 < d.significand
    · exact exists_largest_reading hm hlarge.1 hlarge.2 hsign
    · have hbound := upper_le hm hq fun hlast => Nat.not_lt.1 fun hlt => hlarge ⟨hlast, hlt⟩
      obtain hnone | ⟨hcoefficient, hle⟩ := d.shortest_le hsignificand hbound
      · rw [hnone]
        exact hzero
      · obtain ⟨l, hread, hwithin⟩ := d.shortest.exists_literal hcoefficient hsign
        rw [hread]
        exact hwithin.exists_toFloat? hle

theorem field_ne_of_isFinite {x : Float} (h : x.isFinite = true) :
    x.toBits.toNat / 2 ^ 52 % 2048 ≠ 2047 := by
  intro hfield
  have hexponent : @Float.Model.UnpackedFloat.unpackExponent Float.Model.Format.binary64
      x.toModel.toBits.toBitVec = -1#_ := by
    refine BitVec.eq_of_toNat_eq ?_
    unfold Float.Model.UnpackedFloat.unpackExponent
    rw [BitVec.toNat_cast, BitVec.extractLsb_toNat, Nat.shiftRight_eq_div_pow]
    exact hfield
  change x.toModel.unpack.isFinite = true at h
  unfold Float.Model.unpack Float.Model.UnpackedFloat.unpack at h
  dsimp only at h
  rw [if_pos hexponent] at h
  split at h <;> cases h

theorem exists_reread {x : Float} (h : x.isFinite = true) : ∃ y, Json.reread x = some y := by
  have hfield := field_ne_of_isFinite h
  unfold Json.reread write
  rw [if_pos h]
  refine Dyadic.exists_reading ?_ ?_ ?_
  · have hfraction : x.toBits.toNat % 2 ^ 52 < 2 ^ 52 := Nat.mod_lt _ (by decide)
    unfold Dyadic.ofBits
    dsimp only
    split
    · exact hfraction.trans (by decide)
    · change 2 ^ 52 + x.toBits.toNat % 2 ^ 52 < 2 ^ 53
      omega
  · unfold Dyadic.ofBits
    dsimp only
    split
    · exact (by decide : (-1074 : Int) ≤ 971)
    · change ((x.toBits.toNat / 2 ^ 52 % 2048 : Nat) : Int) - 1075 ≤ 971
      omega
  · split
    · exact .inl rfl
    · exact .inr rfl

/-- Every finite double is read back as some double, and no other is. -/
theorem reread_eq_none_iff {x : Float} : Json.reread x = none ↔ x.isFinite = false := by
  constructor
  · intro hnone
    by_contra hfinite
    obtain ⟨y, hy⟩ := exists_reread (Bool.not_eq_false _ ▸ hfinite)
    exact nomatch hnone.symm.trans hy
  · intro hnot
    unfold Json.reread write
    rw [hnot, if_neg Bool.false_ne_true]
    decide

end Number

end RunnerFleet
