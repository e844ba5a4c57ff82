import Mathlib.Data.List.TakeWhile
import Mathlib.Tactic
import RunnerFleet.Json.Printer
import RunnerFleet.Number.Literal

/-!
# Numbers as they are written

A literal is a sign, whole digits, and then a fraction and an exponent that each begin with a mark
of their own. The digits of a whole number have no such mark and no leading zero. A double is always
written with a mark, so that no double is taken for a whole number.
-/

namespace RunnerFleet

namespace Decimal

theorem value_cons (c : Char) (ds : List Char) :
    value (c :: ds) = 10 ^ ds.length * (c.toNat - '0'.toNat) + value ds := by
  rw [value, Nat.ofDigitChars_cons, Nat.mul_zero, Nat.zero_add,
    Nat.ofDigitChars_eq_ofDigitChars_zero, value]

theorem digit_lt_ten {c : Char} (h : c.isDigit = true) :
    '0'.toNat ≤ c.toNat ∧ c.toNat - '0'.toNat < 10 := by
  rw [Char.isDigit, Bool.and_eq_true, decide_eq_true_iff, decide_eq_true_iff] at h
  obtain ⟨hlow, hhigh⟩ := h
  have hlow : '0'.toNat ≤ c.toNat := UInt32.le_iff_toNat_le.1 hlow
  have hhigh : c.toNat ≤ '9'.toNat := UInt32.le_iff_toNat_le.1 hhigh
  have hnine : '9'.toNat = '0'.toNat + 9 := rfl
  omega

theorem value_lt_pow {ds : List Char} (h : ∀ c ∈ ds, c.isDigit = true) : value ds < 10 ^ ds.length := by
  induction ds with
  | nil => decide
  | cons c ds ih =>
    obtain ⟨hc, hds⟩ := List.forall_mem_cons.1 h
    have hrest := ih hds
    have hdigit : c.toNat - '0'.toNat ≤ 9 := Nat.le_of_lt_succ (digit_lt_ten hc).2
    have hfirst := Nat.mul_le_mul_left (10 ^ ds.length) hdigit
    rw [value_cons, List.length_cons, Nat.pow_succ]
    omega

/-- Only zero is written with a zero in front. -/
theorem eq_singleton_of_digits_eq_cons {n : Nat} {ds : List Char} (h : digits n = '0' :: ds) :
    ds = [] := by
  induction n using Nat.strongRecOn generalizing ds with
  | _ n ih =>
    unfold digits at h ih
    by_cases hn : n < 10
    · rw [Nat.toDigits_of_lt_base hn] at h
      exact (List.cons.inj h).2.symm
    · rw [Nat.toDigits_of_base_le (by omega) (by omega)] at h
      obtain ⟨d, front, hfront⟩ := List.exists_cons_of_ne_nil (digits_ne_nil (n / 10))
      unfold digits at hfront
      rw [hfront] at h
      obtain ⟨rfl, -⟩ := List.cons.inj h
      have hnil := ih (n / 10) (by omega) hfront
      rw [hnil] at hfront
      have hvalue := value_digits (n / 10)
      rw [digits, hfront] at hvalue
      exact absurd hvalue.symm (by change ¬ n / 10 = 0; omega)

end Decimal

namespace Number

variable {cs ds rest : List Char} {l : Literal}

theorem digits?_eq_some (h : digits? cs = some (ds, rest)) :
    cs = ds ++ rest ∧ ∀ c ∈ ds, c.isDigit = true := by
  unfold digits? at h
  dsimp only at h
  split at h
  · cases h
  · cases h
    exact ⟨(List.takeWhile_append_dropWhile).symm, fun c hc => List.mem_takeWhile_imp hc⟩

theorem wholeDigits?_eq_some (h : wholeDigits? cs = some (ds, rest)) :
    cs = ds ++ rest ∧ ∀ c ∈ ds, c.isDigit = true := by
  obtain ⟨⟨ds', rest'⟩, hdigits, h⟩ := Option.bind_eq_some_iff.1 h
  dsimp only at h
  split at h
  · cases h
  · cases h
    exact digits?_eq_some hdigits

/-- What follows the whole digits, if it begins with its mark. -/
theorem fraction?_eq_some {fraction : Option (List Char)}
    (h : fraction? cs = some (fraction, rest)) :
    fraction = none ∧ cs = rest ∨
      ∃ ds, fraction = some ds ∧ cs = '.' :: ds ++ rest ∧ ∀ c ∈ ds, c.isDigit = true := by
  unfold fraction? at h
  split at h
  · obtain ⟨⟨ds, rest'⟩, hdigits, heq⟩ := Option.map_eq_some_iff.1 h
    cases heq
    obtain ⟨rfl, hds⟩ := digits?_eq_some hdigits
    exact .inr ⟨ds, rfl, rfl, hds⟩
  · cases h
    exact .inl ⟨rfl, rfl⟩

theorem exponentDigits?_eq_some {negative : Bool} {e : Int}
    (h : exponentDigits? negative cs = some (e, rest)) :
    ∃ ds, cs = ds ++ rest ∧ ∀ c ∈ ds, c.isDigit = true := by
  obtain ⟨⟨ds, rest'⟩, hdigits, heq⟩ := Option.map_eq_some_iff.1 h
  cases heq
  exact ⟨ds, digits?_eq_some hdigits⟩

def IsNumeric (c : Char) : Prop :=
  c.isDigit = true ∨ c = '-' ∨ c = '+' ∨ c = '.' ∨ c = 'e' ∨ c = 'E'

/-- Digits behind numeric marks are numeric. -/
theorem isNumeric_of_mem_append (marks : List Char) (hmarks : ∀ c ∈ marks, IsNumeric c)
    (h : ∀ c ∈ ds, c.isDigit = true) : ∀ c ∈ marks ++ ds, IsNumeric c := by
  intro c hc
  obtain hc | hc := List.mem_append.1 hc
  · exact hmarks c hc
  · exact .inl (h c hc)

/-- The digits of an exponent behind its marks. -/
theorem power_of_exponentDigits? {negative : Bool} {e : Int} (marks : List Char)
    (hmarks : ∀ c ∈ marks, IsNumeric c) (h : exponentDigits? negative cs = some (e, rest)) :
    ∃ power, marks ++ cs = power ++ rest ∧ ∀ c ∈ power, IsNumeric c := by
  obtain ⟨ds, rfl, hds⟩ := exponentDigits?_eq_some h
  exact ⟨marks ++ ds, (List.append_assoc marks ds rest).symm, isNumeric_of_mem_append marks hmarks hds⟩

theorem exponent?_eq_some {exponent : Option Int} (h : exponent? cs = some (exponent, rest)) :
    exponent = none ∧ cs = rest ∨
      exponent ≠ none ∧ ∃ power, cs = power ++ rest ∧ ∀ c ∈ power, IsNumeric c := by
  unfold exponent? at h
  split at h
  iterate 2
    obtain ⟨⟨e, rest'⟩, hdigits, heq⟩ := Option.map_eq_some_iff.1 h
    cases heq
    refine .inr ⟨nofun, ?_⟩
    split at hdigits
    · exact power_of_exponentDigits? [_, '-'] (by simp [IsNumeric]) hdigits
    · exact power_of_exponentDigits? [_, '+'] (by simp [IsNumeric]) hdigits
    · exact power_of_exponentDigits? [_] (by simp [IsNumeric]) hdigits
  · cases h
    exact .inl ⟨rfl, rfl⟩

theorem digits?_append (hne : ds ≠ []) (hds : ∀ c ∈ ds, c.isDigit = true)
    (hrest : ∀ c ∈ rest.head?, c.isDigit = false) : digits? (ds ++ rest) = some (ds, rest) := by
  have hstop : rest.takeWhile Char.isDigit = [] ∧ rest.dropWhile Char.isDigit = rest := by
    cases rest with
    | nil => exact ⟨rfl, rfl⟩
    | cons c rest =>
      have hc : c.isDigit = false := hrest c rfl
      simp [hc]
  unfold digits?
  rw [List.takeWhile_append_of_pos hds, List.dropWhile_append_of_pos hds, hstop.1, hstop.2,
    List.append_nil, if_neg hne]

/-- The digits before a point or a mark: a lone zero, or the first one is no zero. -/
def IsWhole (ds : List Char) : Prop :=
  ds ≠ [] ∧ (∀ c ∈ ds, c.isDigit = true) ∧ (ds = ['0'] ∨ ds.head? ≠ some '0')

theorem wholeDigits?_append (h : IsWhole ds) (hrest : ∀ c ∈ rest.head?, c.isDigit = false) :
    wholeDigits? (ds ++ rest) = some (ds, rest) := by
  obtain ⟨hne, hds, hzero⟩ := h
  unfold wholeDigits?
  rw [digits?_append hne hds hrest]
  simp only [Option.bind_eq_bind, Option.bind_some]
  split
  · obtain hzero | hzero := hzero
    · cases hzero
    · exact absurd rfl hzero
  · rfl

theorem fraction?_point (hne : ds ≠ []) (hds : ∀ c ∈ ds, c.isDigit = true)
    (hrest : ∀ c ∈ rest.head?, c.isDigit = false) :
    fraction? ('.' :: ds ++ rest) = some (some ds, rest) := by
  change (digits? (ds ++ rest)).map _ = _
  rw [digits?_append hne hds hrest]
  rfl

theorem exponentDigits?_digits (negative : Bool) (n : Nat) :
    exponentDigits? negative (Decimal.digits n) = some (if negative then -(n : Int) else n, []) := by
  have hend : ∀ c ∈ ([] : List Char).head?, c.isDigit = false := nofun
  have hdigits := digits?_append (Decimal.digits_ne_nil n)
    (fun c => Decimal.isDigit_of_mem_digits) hend
  rw [List.append_nil] at hdigits
  unfold exponentDigits?
  rw [hdigits, Option.map_some]
  dsimp only
  rw [Decimal.value_digits]

theorem exponent?_exponentText (e : Int) :
    exponent? (exponentText Json.numberLayout e) = some (some e, []) := by
  unfold exponentText
  by_cases he : e < 0
  · have habs : -(e.natAbs : Int) = e := by omega
    rw [if_pos he]
    change (exponentDigits? true (Decimal.digits e.natAbs)).map _ = _
    rw [exponentDigits?_digits, if_pos rfl, habs, Option.map_some]
  · have habs : (e.natAbs : Int) = e := by omega
    rw [if_neg he]
    change (exponentDigits? false (Decimal.digits e.natAbs)).map _ = _
    rw [exponentDigits?_digits, if_neg Bool.false_ne_true, habs, Option.map_some]

theorem isWhole_digits (n : Nat) : IsWhole (Decimal.digits n) := by
  refine ⟨Decimal.digits_ne_nil n, fun c => Decimal.isDigit_of_mem_digits, ?_⟩
  by_cases hzero : (Decimal.digits n).head? = some '0'
  · obtain ⟨ds, hds⟩ := List.head?_eq_some_iff.1 hzero
    exact .inl (by rw [hds, Decimal.eq_singleton_of_digits_eq_cons hds])
  · exact .inr hzero

namespace Literal

theorem ofChars?_eq_some (h : ofChars? cs = some l) :
    ∃ sign body afterWhole afterFraction, (sign = [] ∨ sign = ['-']) ∧ cs = sign ++ body ∧
      wholeDigits? body = some (l.whole, afterWhole) ∧
      fraction? afterWhole = some (l.fraction, afterFraction) ∧
      exponent? afterFraction = some (l.exponent, []) := by
  unfold ofChars? at h
  split at h
  next negative body hsign =>
    have hcs : ∃ sign, (sign = [] ∨ sign = ['-']) ∧ cs = sign ++ body := by
      split at hsign
      · cases hsign
        exact ⟨['-'], .inr rfl, rfl⟩
      · cases hsign
        exact ⟨[], .inl rfl, rfl⟩
    clear hsign
    obtain ⟨sign, hsign, rfl⟩ := hcs
    obtain ⟨⟨whole, afterWhole⟩, hwhole, h⟩ := Option.bind_eq_some_iff.1 h
    obtain ⟨⟨fraction, afterFraction⟩, hfraction, h⟩ := Option.bind_eq_some_iff.1 h
    obtain ⟨⟨exponent, left⟩, hexponent, h⟩ := Option.bind_eq_some_iff.1 h
    dsimp only at h
    split at h
    · next hend =>
      cases h
      cases hend
      exact ⟨sign, body, afterWhole, afterFraction, hsign, rfl, hwhole, hfraction, hexponent⟩
    · cases h

theorem isNumeric_of_ofChars? (h : ofChars? cs = some l) : ∀ c ∈ cs, IsNumeric c := by
  obtain ⟨sign, body, afterWhole, afterFraction, hsign, rfl, hwhole, hfraction, hexponent⟩ :=
    ofChars?_eq_some h
  obtain ⟨rfl, hdigits⟩ := wholeDigits?_eq_some hwhole
  have hsign : ∀ c ∈ sign, IsNumeric c := by
    rcases hsign with rfl | rfl
    · exact nofun
    · simp [IsNumeric]
  have hpower : ∀ c ∈ afterFraction, IsNumeric c := by
    obtain ⟨-, rfl⟩ | ⟨-, power, rfl, hpower⟩ := exponent?_eq_some hexponent
    · exact nofun
    · rw [List.append_nil]
      exact hpower
  have hpoint : ∀ c ∈ afterWhole, IsNumeric c := by
    obtain ⟨-, rfl⟩ | ⟨ds, -, rfl, hds⟩ := fraction?_eq_some hfraction
    · exact hpower
    · intro c hc
      obtain hc | hc := List.mem_append.1 hc
      · exact isNumeric_of_mem_append ['.'] (by simp [IsNumeric]) hds c hc
      · exact hpower c hc
  intro c hc
  simp only [List.mem_append] at hc
  obtain hc | hc | hc := hc
  · exact hsign c hc
  · exact .inl (hdigits c hc)
  · exact hpoint c hc

/-- A literal that stands for a whole number has no mark of a fraction or an exponent. -/
theorem toUInt64?_eq_none (h : ofChars? cs = some l) (hmark : '.' ∈ cs ∨ 'e' ∈ cs) :
    l.toUInt64? = none := by
  obtain ⟨sign, body, afterWhole, afterFraction, hsign, rfl, hwhole, hfraction, hexponent⟩ :=
    ofChars?_eq_some h
  obtain ⟨rfl, hdigits⟩ := wholeDigits?_eq_some hwhole
  unfold toUInt64?
  obtain ⟨hnone, rfl⟩ | ⟨ds, hsome, -⟩ := fraction?_eq_some hfraction
  · obtain ⟨-, rfl⟩ | ⟨hsome, -⟩ := exponent?_eq_some hexponent
    · have hplain : ∀ c ∈ sign ++ (l.whole ++ []), c = '-' ∨ c.isDigit = true := by
        intro c hc
        simp only [List.append_nil, List.mem_append] at hc
        obtain hc | hc := hc
        · rcases hsign with rfl | rfl
          · cases hc
          · exact .inl (List.mem_singleton.1 hc)
        · exact .inr (hdigits c hc)
      obtain hmark | hmark := hmark
      · exact absurd (hplain _ hmark) (by decide)
      · exact absurd (hplain _ hmark) (by decide)
    · rw [if_pos (by simp [Option.isSome_iff_ne_none.2 hsome])]
  · rw [if_pos (by simp [hsome])]

theorem ofChars?_append {sign whole power : List Char} {fraction : Option (List Char)}
    {exponent : Option Int} (hsign : sign = [] ∨ sign = ['-']) (hwhole : IsWhole whole)
    (hrest : ∀ c ∈ rest.head?, c.isDigit = false) (hfraction : fraction? rest = some (fraction, power))
    (hexponent : exponent? power = some (exponent, [])) :
    ofChars? (sign ++ whole ++ rest) = some ⟨!sign.isEmpty, whole, fraction, exponent⟩ := by
  have hbody := wholeDigits?_append hwhole hrest
  unfold ofChars?
  obtain rfl | rfl := hsign
  · rw [List.nil_append]
    split
    next negative body heq =>
      split at heq
      · next cs hminus =>
        obtain ⟨c, ds, rfl⟩ := List.exists_cons_of_ne_nil hwhole.1
        cases hminus
        exact absurd (hwhole.2.1 '-' List.mem_cons_self) (by decide)
      · cases heq
        simp [hbody, hfraction, hexponent]
  · simp [hbody, hfraction, hexponent]

theorem ofChars?_digits (n : Nat) :
    ofChars? (Decimal.digits n) = some ⟨false, Decimal.digits n, none, none⟩ := by
  have hend : ∀ c ∈ ([] : List Char).head?, c.isDigit = false := nofun
  simpa using ofChars?_append (.inl rfl) (isWhole_digits n) hend rfl rfl

theorem toUInt64?_digits (n : UInt64) :
    (Literal.mk false (Decimal.digits n.toNat) none none).toUInt64? = some n := by
  have hlt : Decimal.value (Decimal.digits n.toNat) < UInt64.size := by
    rw [Decimal.value_digits]
    exact n.toNat_lt
  unfold toUInt64?
  simp only [Option.isSome_none, Bool.or_false, Bool.false_eq_true, if_false, if_pos hlt]
  rw [Decimal.value_digits]
  exact congrArg some (UInt64.ofNat_toNat)

end Literal

theorem mark_mem_scientific (s : Scientific) :
    '.' ∈ s.write Json.numberLayout ∨ 'e' ∈ s.write Json.numberLayout := by
  unfold Scientific.write
  dsimp only
  split
  · left
    split
    · simp
    · split
      · simp [Json.numberLayout]
      · simp
  · right
    simp [exponentText, Json.numberLayout]

/-- Every finite double is written with the mark of a fraction or of an exponent. -/
theorem mark_mem_write {x : Float} (h : x.isFinite = true) :
    '.' ∈ write Json.numberLayout x ∨ 'e' ∈ write Json.numberLayout x := by
  unfold write Dyadic.write
  rw [if_pos h, List.mem_append, List.mem_append]
  by_cases hzero : (Dyadic.ofBits x.toBits).significand = 0
  · rw [if_pos hzero]
    simp [Json.numberLayout]
  · rw [if_neg hzero]
    exact (mark_mem_scientific (Dyadic.ofBits x.toBits).shortest).imp .inr .inr

end Number

end RunnerFleet
