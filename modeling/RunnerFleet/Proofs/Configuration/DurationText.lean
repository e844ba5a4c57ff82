import Mathlib.Algebra.Group.Nat.Defs
import Mathlib.Data.List.Basic
import Mathlib.Data.List.TakeWhile
import Mathlib.Data.Set.Subsingleton
import RunnerFleet.Duration

/-!
# Which texts are durations

A reading of a text finds white space around it, perhaps a plus sign, digits, and either nothing
more or a unit with perhaps white space in front. No text has two readings, although one unit ends
in another. The durations that can be read are those whose number and whose seconds fit into 64
bits.
-/

namespace RunnerFleet

/-! ## White space at the two ends -/

namespace Text

def Tidy (cs : List Char) : Prop :=
  (∀ c ∈ cs.head?, isBlank c = false) ∧ ∀ c ∈ cs.getLast?, isBlank c = false

/-- The text is `core` with white space around it. -/
def Surrounds (core cs : List Char) : Prop :=
  ∃ before after, (∀ c ∈ before, isBlank c = true) ∧ (∀ c ∈ after, isBlank c = true) ∧
    cs = before ++ core ++ after

variable {before after core cs : List Char}

theorem trimStart_append (hbefore : ∀ c ∈ before, isBlank c = true)
    (hcore : ∀ c ∈ core.head?, isBlank c = false) : trimStart (before ++ core) = core := by
  unfold trimStart
  rw [List.dropWhile_append_of_pos hbefore]
  cases core with
  | nil => rfl
  | cons c core =>
    rw [List.dropWhile_cons, hcore c rfl]
    rfl

theorem trimEnd_append (hafter : ∀ c ∈ after, isBlank c = true)
    (hcore : ∀ c ∈ core.getLast?, isBlank c = false) : trimEnd (core ++ after) = core := by
  have hreversed : trimStart (after.reverse ++ core.reverse) = core.reverse := by
    refine trimStart_append (fun c hc => hafter c (List.mem_reverse.1 hc)) ?_
    rwa [List.head?_reverse]
  unfold trimEnd
  rw [List.reverse_append, ← trimStart, hreversed, List.reverse_reverse]

theorem exists_trimStart (cs : List Char) :
    ∃ before, (∀ c ∈ before, isBlank c = true) ∧ cs = before ++ trimStart cs :=
  ⟨cs.takeWhile isBlank, fun _ hc => List.mem_takeWhile_imp hc,
    List.takeWhile_append_dropWhile.symm⟩

theorem exists_trimEnd (cs : List Char) :
    ∃ after, (∀ c ∈ after, isBlank c = true) ∧ cs = trimEnd cs ++ after := by
  obtain ⟨after, hafter, heq⟩ := exists_trimStart cs.reverse
  refine ⟨after.reverse, fun c hc => hafter c (List.mem_reverse.1 hc), ?_⟩
  have hreversed := congrArg List.reverse heq
  rwa [List.reverse_reverse, List.reverse_append] at hreversed

theorem head?_trimStart (cs : List Char) : ∀ c ∈ (trimStart cs).head?, isBlank c = false := by
  intro c hc
  have hnot := List.head?_dropWhile_not isBlank cs
  unfold trimStart at hc
  rwa [Option.mem_def.1 hc] at hnot

theorem tidy_trim (cs : List Char) : Tidy (trim cs) := by
  constructor
  · obtain ⟨after, -, heq⟩ := exists_trimEnd (trimStart cs)
    intro c hc
    apply head?_trimStart cs
    rw [heq]
    exact List.mem_head?_append_of_mem_head? hc
  · intro c hc
    unfold trim trimEnd at hc
    rw [List.getLast?_reverse] at hc
    exact head?_trimStart (trimStart cs).reverse c hc

/-- Trimming finds the part without white space at its ends that has only white space around it. -/
theorem trim_eq_iff : trim cs = core ↔ Tidy core ∧ Surrounds core cs := by
  constructor
  · rintro rfl
    obtain ⟨before, hbefore, hstart⟩ := exists_trimStart cs
    obtain ⟨after, hafter, hend⟩ := exists_trimEnd (trimStart cs)
    refine ⟨tidy_trim cs, before, after, hbefore, hafter, ?_⟩
    rw [List.append_assoc, trim, ← hend]
    exact hstart
  · rintro ⟨⟨hfirst, hlast⟩, before, after, hbefore, hafter, rfl⟩
    by_cases hcore : core = []
    · have hnil : trimStart (before ++ after) = [] :=
        List.dropWhile_eq_nil_iff.2 fun c hc => (List.mem_append.1 hc).elim (hbefore c) (hafter c)
      rw [hcore, List.append_nil, trim, hnil]
      rfl
    · rw [List.append_assoc, trim, trimStart_append hbefore, trimEnd_append hafter hlast]
      rwa [List.head?_append_of_ne_nil _ hcore]

end Text

/-! ## Numerals -/

namespace Decimal

variable {ds : List Char} {n : Nat}

theorem not_isBlank_of_isDigit {c : Char} (h : c.isDigit = true) : Text.isBlank c = false := by
  simp only [Char.isDigit, Bool.and_eq_true, decide_eq_true_eq] at h
  have hlow : 48 ≤ c.toNat := h.1
  have hhigh : c.toNat ≤ 57 := h.2
  simp only [Text.isBlank, Text.blankRanges, List.any_cons, List.any_nil, Bool.or_eq_false_iff,
    Bool.and_eq_false_iff, decide_eq_false_iff_not, and_true]
  omega

def sign (signed : Bool) : List Char := if signed then ['+'] else []

theorem withoutPlus_sign (signed : Bool) (hds : ds ≠ []) (hdigits : ∀ c ∈ ds, c.isDigit = true) :
    withoutPlus (sign signed ++ ds) = ds := by
  cases signed with
  | true => rfl
  | false =>
    obtain ⟨d, rest, rfl⟩ := List.exists_cons_of_ne_nil hds
    have hne : d ≠ '+' := by
      rintro rfl
      exact absurd (hdigits '+' List.mem_cons_self) (by decide)
    change withoutPlus (d :: rest) = d :: rest
    unfold withoutPlus
    split
    · next heq => exact absurd (List.cons.inj heq).1 hne
    · rfl

theorem exists_sign (cs : List Char) : ∃ signed, cs = sign signed ++ withoutPlus cs := by
  unfold withoutPlus
  split
  · exact ⟨true, rfl⟩
  · exact ⟨false, rfl⟩

theorem read?_eq_some_iff {bound : Nat} {cs : List Char} :
    read? bound cs = some n ↔ ∃ signed ds, cs = sign signed ++ ds ∧ ds ≠ [] ∧
      (∀ c ∈ ds, c.isDigit = true) ∧ value ds = n ∧ n < bound := by
  unfold read?
  simp only [List.all_eq_true, Option.ite_none_right_eq_some, Option.some.injEq]
  constructor
  · rintro ⟨⟨hds, hdigits, hbound⟩, rfl⟩
    obtain ⟨signed, heq⟩ := exists_sign cs
    exact ⟨signed, withoutPlus cs, heq, hds, hdigits, rfl, hbound⟩
  · rintro ⟨signed, ds, rfl, hds, hdigits, rfl, hbound⟩
    rw [withoutPlus_sign signed hds hdigits]
    exact ⟨⟨hds, hdigits, hbound⟩, rfl⟩

end Decimal

/-! ## Readings -/

namespace Duration

def Unit.chars : Unit → List Char
  | .milliseconds => ['m', 's']
  | .seconds => ['s']
  | .minutes => ['m']
  | .hours => ['h']

def Unit.wholeSeconds (n : Nat) : Unit → Nat
  | .milliseconds => n / 1000
  | .seconds => n
  | .minutes => 60 * n
  | .hours => 3600 * n

def Unit.restNanos (n : Nat) : Unit → Nat
  | .milliseconds => n % 1000 * 1000000
  | _ => 0

theorem Unit.restNanos_lt (n : Nat) (unit : Unit) : unit.restNanos n < 2 ^ 32 := by
  cases unit with
  | milliseconds =>
    change n % 1000 * 1000000 < 2 ^ 32
    omega
  | seconds | minutes | hours => exact Nat.two_pow_pos 32

structure Reading where
  signed : Bool
  digits : List Char
  gap : List Char
  unit : Option Unit
  digits_ne_nil : digits ≠ []
  isDigit : ∀ c ∈ digits, c.isDigit = true
  isBlank : ∀ c ∈ gap, Text.isBlank c = true
  gap_eq_nil : unit = none → gap = []

namespace Reading

def numeral (r : Reading) : List Char := Decimal.sign r.signed ++ r.digits

def suffix (r : Reading) : List Char := r.gap ++ r.unit.elim [] Unit.chars

def chars (r : Reading) : List Char := r.numeral ++ r.suffix

def IsOf (r : Reading) (text : String) : Prop := Text.Surrounds r.chars text.toList

def number (r : Reading) : Nat := Decimal.value r.digits

def unitInForce (r : Reading) : Unit := r.unit.getD .seconds

def seconds (r : Reading) : Nat := r.unitInForce.wholeSeconds r.number

def nanos (r : Reading) : Nat := r.unitInForce.restNanos r.number

/-- The number and the seconds that it comes to have at most 64 bits. -/
def Fits (r : Reading) : Prop := r.number < 2 ^ 64 ∧ r.seconds < 2 ^ 64

variable {r q : Reading} {text : String}

theorem not_isBlank_of_mem_numeral {c : Char} (hc : c ∈ r.numeral) : Text.isBlank c = false := by
  obtain hc | hc := List.mem_append.1 hc
  · cases hsigned : r.signed with
    | true =>
      rw [hsigned] at hc
      obtain rfl := List.mem_singleton.1 hc
      decide
    | false =>
      rw [hsigned] at hc
      cases hc
  · exact Decimal.not_isBlank_of_isDigit (r.isDigit c hc)

theorem numeral_ne_nil : r.numeral ≠ [] := List.append_ne_nil_of_right_ne_nil _ r.digits_ne_nil

theorem getLast?_numeral : ∀ c ∈ r.numeral.getLast?, c.isDigit = true := by
  intro c hc
  rw [numeral, List.getLast?_append_of_ne_nil _ r.digits_ne_nil] at hc
  exact r.isDigit c (List.mem_of_getLast? hc)

theorem trim_numeral_append {gap : List Char} (hgap : ∀ c ∈ gap, Text.isBlank c = true) :
    Text.trim (r.numeral ++ gap) = r.numeral :=
  Text.trim_eq_iff.2
    ⟨⟨fun _ hc => not_isBlank_of_mem_numeral (List.mem_of_head? hc),
        fun _ hc => not_isBlank_of_mem_numeral (List.mem_of_getLast? hc)⟩,
      [], gap, nofun, hgap, rfl⟩

/-- What stands before a unit ends in a digit or in white space. -/
theorem getLast?_before_unit {c : Char} (hc : c ∈ (r.numeral ++ r.gap).getLast?) :
    c.isDigit = true ∨ Text.isBlank c = true := by
  by_cases hgap : r.gap = []
  · rw [hgap, List.append_nil] at hc
    exact .inl (getLast?_numeral c hc)
  · rw [List.getLast?_append_of_ne_nil _ hgap] at hc
    exact .inr (r.isBlank c (List.mem_of_getLast? hc))

end Reading

/-! ## Splitting off the unit -/

theorem splitUnit_of_no_unit {cs : List Char} (h : ∀ c ∈ cs.getLast?, c.isDigit = true) :
    splitUnit cs = (cs, .seconds) := by
  rw [← List.head?_reverse] at h
  unfold splitUnit
  cases hcs : cs.reverse with
  | nil => rfl
  | cons c rest =>
    rw [hcs] at h
    have hdigit : c.isDigit = true := h c rfl
    split
    iterate 4
      next heq =>
        obtain ⟨rfl, -⟩ := List.cons.inj heq
        exact absurd hdigit (by decide)
    rfl

theorem splitUnit_of_unit {cs : List Char} {unit : Unit}
    (h : unit = .seconds → ∀ c ∈ cs.getLast?, c ≠ 'm') :
    splitUnit (cs ++ unit.chars) = (Text.trim cs, unit) := by
  unfold splitUnit
  rw [List.reverse_append]
  cases unit with
  | milliseconds => simp [Unit.chars]
  | minutes => simp [Unit.chars]
  | hours => simp [Unit.chars]
  | seconds =>
    have hm : ∀ rest, cs.reverse ≠ 'm' :: rest := by
      intro rest heq
      refine h rfl 'm' ?_ rfl
      rw [← List.head?_reverse, heq]
      rfl
    simp only [Unit.chars, List.reverse_singleton, List.singleton_append, List.reverse_reverse]

theorem splitUnit_cases (cs : List Char) :
    (∃ front unit, cs = front ++ Unit.chars unit ∧ splitUnit cs = (Text.trim front, unit)) ∨
      splitUnit cs = (cs, .seconds) := by
  have hreverse : ∀ {r}, cs.reverse = r → cs = r.reverse :=
    fun heq => by rw [← heq, List.reverse_reverse]
  unfold splitUnit
  split
  · next r heq => exact .inl ⟨r.reverse, .milliseconds, by simp [hreverse heq, Unit.chars], rfl⟩
  · next r _ heq => exact .inl ⟨r.reverse, .seconds, by simp [hreverse heq, Unit.chars], rfl⟩
  · next r heq => exact .inl ⟨r.reverse, .minutes, by simp [hreverse heq, Unit.chars], rfl⟩
  · next r heq => exact .inl ⟨r.reverse, .hours, by simp [hreverse heq, Unit.chars], rfl⟩
  · exact .inr rfl

namespace Reading

variable {r q : Reading} {text : String}

theorem splitUnit_chars (r : Reading) : splitUnit r.chars = (r.numeral, r.unitInForce) := by
  unfold chars suffix unitInForce
  cases hunit : r.unit with
  | none =>
    rw [r.gap_eq_nil hunit]
    exact (List.append_nil r.numeral).symm ▸ splitUnit_of_no_unit getLast?_numeral
  | some unit =>
    have hsplit : splitUnit ((r.numeral ++ r.gap) ++ unit.chars) =
        (Text.trim (r.numeral ++ r.gap), unit) := by
      refine splitUnit_of_unit fun _ c hc => ?_
      rintro rfl
      obtain hdigit | hblank := getLast?_before_unit hc
      · exact absurd hdigit (by decide)
      · exact absurd hblank (by decide)
    rw [trim_numeral_append r.isBlank, List.append_assoc] at hsplit
    exact hsplit

theorem tidy_chars (r : Reading) : Text.Tidy r.chars := by
  constructor
  · intro c hc
    rw [chars, List.head?_append_of_ne_nil _ numeral_ne_nil] at hc
    exact not_isBlank_of_mem_numeral (List.mem_of_head? hc)
  · intro c hc
    cases hunit : r.unit with
    | none =>
      rw [chars, suffix, r.gap_eq_nil hunit, hunit] at hc
      rw [Option.elim_none, List.append_nil, List.append_nil] at hc
      exact Decimal.not_isBlank_of_isDigit (getLast?_numeral c hc)
    | some unit =>
      rw [chars, suffix, hunit, Option.elim_some, ← List.append_assoc] at hc
      cases unit <;>
        · rw [List.getLast?_append_of_ne_nil _ (by simp [Unit.chars])] at hc
          cases hc
          decide

theorem isOf_iff : r.IsOf text ↔ Text.trim text.toList = r.chars := by
  rw [Text.trim_eq_iff]
  exact (and_iff_right r.tidy_chars).symm

theorem sign_append_inj {signed signed' : Bool} {ds ds' : List Char} (hds : ds ≠ [])
    (hdigits : ∀ c ∈ ds, c.isDigit = true) (hds' : ds' ≠ [])
    (hdigits' : ∀ c ∈ ds', c.isDigit = true)
    (h : Decimal.sign signed ++ ds = Decimal.sign signed' ++ ds') :
    signed = signed' ∧ ds = ds' := by
  have heq : ds = ds' := by
    rw [← Decimal.withoutPlus_sign signed hds hdigits, h,
      Decimal.withoutPlus_sign signed' hds' hdigits']
  subst heq
  have hsign := List.append_cancel_right h
  cases signed <;> cases signed' <;> first | exact ⟨rfl, rfl⟩ | cases hsign

theorem suffix_eq_nil_iff : r.suffix = [] ↔ r.unit = none := by
  constructor
  · intro h
    cases hunit : r.unit with
    | none => rfl
    | some unit =>
      rw [suffix, hunit] at h
      have hchars := (List.append_eq_nil_iff.1 h).2
      cases unit <;> cases hchars
  · intro hunit
    rw [suffix, r.gap_eq_nil hunit, hunit]
    rfl

/-- A text has at most one reading. -/
theorem eq_of_chars_eq (h : r.chars = q.chars) : r = q := by
  have hsplit : (r.numeral, r.unitInForce) = (q.numeral, q.unitInForce) := by
    rw [← splitUnit_chars, ← splitUnit_chars, h]
  obtain ⟨hnumeral, hforce⟩ := Prod.mk.inj hsplit
  obtain ⟨hsigned, hdigits⟩ := sign_append_inj r.digits_ne_nil r.isDigit q.digits_ne_nil q.isDigit
    hnumeral
  have hsuffix : r.suffix = q.suffix := by
    rw [chars, chars, hnumeral] at h
    exact List.append_cancel_left h
  have hunit : r.unit = q.unit := by
    have hnone : r.unit = none ↔ q.unit = none := by
      rw [← suffix_eq_nil_iff, ← suffix_eq_nil_iff, hsuffix]
    unfold unitInForce at hforce
    cases hr : r.unit with
    | none => exact (hnone.1 hr).symm
    | some unit =>
      obtain ⟨unit', hq⟩ := Option.ne_none_iff_exists'.1 fun hq => nomatch hr ▸ hnone.2 hq
      rw [hr, hq] at hforce
      rw [hq]
      exact congrArg some hforce
  have hgap : r.gap = q.gap := by
    rw [suffix, suffix, hunit] at hsuffix
    exact List.append_cancel_right hsuffix
  obtain ⟨signed, digits, gap, unit⟩ := r
  obtain ⟨signed', digits', gap', unit'⟩ := q
  simp only at hsigned hdigits hgap hunit
  subst hsigned hdigits hgap hunit
  rfl

end Reading

theorem exists_reading {cs number : List Char} {unit : Unit} (htidy : Text.Tidy cs)
    (hsplit : splitUnit cs = (number, unit)) {signed : Bool} {ds : List Char}
    (hnumber : number = Decimal.sign signed ++ ds) (hds : ds ≠ [])
    (hdigits : ∀ c ∈ ds, c.isDigit = true) :
    ∃ r : Reading, r.chars = cs ∧ r.digits = ds ∧ r.unitInForce = unit := by
  obtain ⟨front, unit', rfl, heq⟩ | heq := splitUnit_cases cs
  · rw [hsplit] at heq
    obtain ⟨rfl, rfl⟩ := Prod.mk.inj heq
    obtain ⟨-, before, gap, hbefore, hgap, hfront⟩ := Text.trim_eq_iff.1 hnumber
    have hnil : before = [] := by
      cases before with
      | nil => rfl
      | cons c before =>
        have hblank := hbefore c List.mem_cons_self
        have hfirst := htidy.1 c (by rw [hfront]; rfl)
        rw [hblank] at hfirst
        cases hfirst
    refine ⟨⟨signed, ds, gap, some unit, hds, hdigits, hgap, nofun⟩, ?_, rfl, rfl⟩
    rw [hfront, hnil, List.nil_append, List.append_assoc]
    rfl
  · rw [hsplit] at heq
    obtain ⟨rfl, rfl⟩ := Prod.mk.inj heq
    refine ⟨⟨signed, ds, [], none, hds, hdigits, nofun, fun _ => rfl⟩, ?_, rfl, rfl⟩
    rw [hnumber]
    exact List.append_nil _

theorem scaled?_eq_some_iff {n : UInt64} {factor : Nat} {d : Duration} :
    scaled? n factor = some d ↔
      factor * n.toNat < 2 ^ 64 ∧ d.seconds.toNat = factor * n.toNat ∧ d.nanos.toNat = 0 := by
  obtain ⟨seconds, nanos⟩ := d
  unfold scaled? ofSeconds
  rw [Option.ite_none_right_eq_some, Option.some.injEq, Duration.mk.injEq, Nat.mul_comm,
    ← UInt64.toNat_inj, ← UInt32.toNat_inj, UInt64.toNat_ofNat', UInt32.toNat_zero]
  change _ < 2 ^ 64 ∧ _ ↔ _
  constructor
  · rintro ⟨hlt, hseconds, hnanos⟩
    rw [Nat.mod_eq_of_lt hlt] at hseconds
    exact ⟨hlt, hseconds.symm, hnanos.symm⟩
  · rintro ⟨hlt, hseconds, hnanos⟩
    rw [Nat.mod_eq_of_lt hlt]
    exact ⟨hlt, hseconds.symm, hnanos.symm⟩

theorem ofUnits?_eq_some_iff {n : UInt64} {unit : Unit} {d : Duration} :
    ofUnits? n unit = some d ↔ unit.wholeSeconds n.toNat < 2 ^ 64 ∧
      d.seconds.toNat = unit.wholeSeconds n.toNat ∧ d.nanos.toNat = unit.restNanos n.toNat := by
  have hn := n.toNat_lt
  cases unit with
  | milliseconds =>
    obtain ⟨seconds, nanos⟩ := d
    have hseconds : (n / 1000).toNat = n.toNat / 1000 := UInt64.toNat_div n 1000
    have hnanos : ((n % 1000).toUInt32 * 1000000).toNat = n.toNat % 1000 * 1000000 := by
      have hmillis : (n % 1000).toUInt32.toNat = n.toNat % 1000 := by
        rw [UInt64.toNat_toUInt32, UInt64.toNat_mod]
        exact Nat.mod_eq_of_lt (by change n.toNat % 1000 < 2 ^ 32; omega)
      rw [UInt32.toNat_mul, hmillis]
      exact Nat.mod_eq_of_lt (by change n.toNat % 1000 * 1000000 < 2 ^ 32; omega)
    rw [ofUnits?, ofMillis, Option.some.injEq, Duration.mk.injEq, ← UInt64.toNat_inj,
      ← UInt32.toNat_inj, hseconds, hnanos]
    change _ ↔ n.toNat / 1000 < 2 ^ 64 ∧ seconds.toNat = n.toNat / 1000 ∧
      nanos.toNat = n.toNat % 1000 * 1000000
    omega
  | seconds =>
    obtain ⟨seconds, nanos⟩ := d
    rw [ofUnits?, ofSeconds, Option.some.injEq, Duration.mk.injEq, ← UInt64.toNat_inj,
      ← UInt32.toNat_inj, UInt32.toNat_zero]
    change _ ↔ n.toNat < 2 ^ 64 ∧ seconds.toNat = n.toNat ∧ nanos.toNat = 0
    omega
  | minutes => exact scaled?_eq_some_iff
  | hours => exact scaled?_eq_some_iff

theorem parse?_eq_some_iff {text : String} {d : Duration} :
    parse? text = some d ↔ ∃ r : Reading, r.IsOf text ∧ r.Fits ∧
      d.seconds.toNat = r.seconds ∧ d.nanos.toNat = r.nanos := by
  unfold parse? Decimal.readUInt64?
  rcases hsplit : splitUnit (Text.trim text.toList) with ⟨number, unit⟩
  simp only [Option.bind_eq_some_iff, Option.map_eq_some_iff, Decimal.read?_eq_some_iff,
    ofUnits?_eq_some_iff]
  constructor
  · rintro ⟨_, ⟨n, ⟨signed, ds, hnumber, hds, hdigits, rfl, hlt⟩, rfl⟩, hfits, hseconds, hnanos⟩
    obtain ⟨r, hchars, rfl, rfl⟩ := exists_reading (Text.tidy_trim _) hsplit hnumber hds hdigits
    rw [UInt64.toNat_ofNat_of_lt' hlt] at hfits hseconds hnanos
    exact ⟨r, Reading.isOf_iff.2 hchars.symm, ⟨hlt, hfits⟩, hseconds, hnanos⟩
  · rintro ⟨r, hof, ⟨hlt, hfits⟩, hseconds, hnanos⟩
    rw [Reading.isOf_iff.1 hof, Reading.splitUnit_chars] at hsplit
    obtain ⟨rfl, rfl⟩ := Prod.mk.inj hsplit
    refine ⟨_, ⟨r.number, ⟨r.signed, r.digits, rfl, r.digits_ne_nil, r.isDigit, rfl, hlt⟩, rfl⟩, ?_⟩
    rw [UInt64.toNat_ofNat_of_lt' hlt]
    exact ⟨hfits, hseconds, hnanos⟩

/-- The texts that are durations are those with a reading that fits, and the duration is what the
reading says. No text has two readings. -/
theorem parse?_iff_fitting_reading (text : String) :
    (∀ d, parse? text = some d ↔ ∃ r : Reading, r.IsOf text ∧ r.Fits ∧
      d.seconds.toNat = r.seconds ∧ d.nanos.toNat = r.nanos) ∧
    (parse? text = none ↔ ¬ ∃ r : Reading, r.IsOf text ∧ r.Fits) ∧
    {r : Reading | r.IsOf text}.Subsingleton := by
  refine ⟨fun d => parse?_eq_some_iff, ?_, ?_⟩
  · rw [← not_iff_not, not_not, ← ne_eq, Option.ne_none_iff_exists']
    constructor
    · rintro ⟨d, hd⟩
      obtain ⟨r, hof, hfits, -⟩ := parse?_eq_some_iff.1 hd
      exact ⟨r, hof, hfits⟩
    · rintro ⟨r, hof, hfits⟩
      refine ⟨⟨.ofNat r.seconds, .ofNat r.nanos⟩, parse?_eq_some_iff.2 ⟨r, hof, hfits, ?_, ?_⟩⟩
      · exact UInt64.toNat_ofNat_of_lt' hfits.2
      · exact UInt32.toNat_ofNat_of_lt' (Unit.restNanos_lt r.number r.unitInForce)
  · intro r hr q hq
    exact Reading.eq_of_chars_eq ((Reading.isOf_iff.1 hr).symm.trans (Reading.isOf_iff.1 hq))

/-- Milliseconds are one unit, which white space takes apart. -/
example : parse? "\u2003+0090 ms\n" = some ⟨0, 90000000⟩ ∧ parse? "90m s" = none := by decide

end Duration

end RunnerFleet
