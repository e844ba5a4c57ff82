import RunnerFleet.Proofs.Configuration.DurationText
import RunnerFleet.Proofs.Decision.Count
import RunnerFleet.Proofs.Operator.Refusal

/-!
# Whether a reservation takes effect

A reservation is read to the millisecond but expires at a whole second, the fraction cut off. A
reservation of less than a second is thus accepted, for it is longer than nothing, and expires in
the second in which it is made. Every other one adds its replicas to those that are reserved.
-/

namespace RunnerFleet

namespace Duration

/-- The text is a number of milliseconds that do not make a second. -/
def Subsecond (text : String) : Prop :=
  ∃ number ms, splitUnit (Text.trim text.toList) = (number, .milliseconds) ∧
    Decimal.readUInt64? number = some ms ∧ ms.toNat < 1000

variable {text : String} {d : Duration}

/-- The only durations that are longer than nothing and shorter than a second are given in
milliseconds. -/
theorem seconds_eq_zero_iff (h : parse? text = some d) (hlong : d.isZero = false) :
    d.seconds = 0 ↔ Subsecond text := by
  unfold parse? at h
  unfold Subsecond
  rcases hsplit : splitUnit (Text.trim text.toList) with ⟨number, unit⟩
  rw [hsplit] at h
  obtain ⟨n, hn, hd⟩ := Option.bind_eq_some_iff.1 h
  obtain ⟨-, hseconds, hnanos⟩ := ofUnits?_eq_some_iff.1 hd
  by_cases hunit : unit = .milliseconds
  · subst hunit
    have hzero : d.seconds = 0 ↔ n.toNat / 1000 = 0 := by
      rw [← UInt64.toNat_inj, hseconds]
      rfl
    rw [hzero]
    constructor
    · exact fun hlt => ⟨number, n, rfl, hn, by omega⟩
    · rintro ⟨_, ms, heq, hms, hlt⟩
      cases heq
      rw [hn] at hms
      cases hms
      omega
  · have hwhole : d.nanos = 0 := by
      rw [← UInt32.toNat_inj, hnanos]
      cases unit with
      | milliseconds => exact absurd rfl hunit
      | seconds | minutes | hours => rfl
    have hne : d.seconds ≠ 0 := by
      intro hzero
      simp [isZero, hzero, hwhole] at hlong
    simp only [hne, false_iff]
    rintro ⟨_, ms, heq, -⟩
    exact hunit (Prod.mk.inj heq).2

end Duration

namespace Reservation

theorem activeTotal_append (rs qs : List Reservation) (now : Seconds) :
    activeTotal (rs ++ qs) now = activeTotal rs now + activeTotal qs now := by
  simp only [activeTotal, List.filter_append, List.map_append, List.sum_append]

/-- Those that are over do not count. -/
theorem activeTotal_filter (rs : List Reservation) (now : Seconds) :
    activeTotal (rs.filter (·.isActive now)) now = activeTotal rs now := by
  simp only [activeTotal, List.filter_filter, Bool.and_self]

theorem activeTotal_singleton (r : Reservation) (now : Seconds) :
    activeTotal [r] now = if r.isActive now then r.replicas.toNat else 0 := by
  unfold activeTotal
  cases hr : r.isActive now <;> simp [hr]

/-- Short of the last second of all, a reservation is active as soon as it lasts a second. -/
theorem isActive_plus_iff {now : Seconds} (hnow : now.toNat < Seconds.largest) (replicas : Count)
    (seconds : Seconds) :
    (Reservation.mk replicas (Seconds.plus now seconds)).isActive now = true ↔ seconds ≠ 0 := by
  rw [isActive, decide_eq_true_iff, UInt64.lt_iff_toNat_lt, Seconds.toNat_plus, Ne,
    ← UInt64.toNat_inj, UInt64.toNat_zero]
  omega

end Reservation

/-- Of two readings of an autoscaler, the later one has a further reservation of so many replicas.
It is active and adds them to the active total. -/
def Autoscaler.Gains (before after : Autoscaler) (replicas : Count) (now : Seconds) : Prop :=
  ∃ r, after.spec.reservations.getLast? = some r ∧ r.replicas = replicas ∧
    r.isActive now = true ∧
    Reservation.activeTotal after.spec.reservations now =
      Reservation.activeTotal before.spec.reservations now + replicas.toNat

namespace Command

variable {s : Store} {key length output : String} {replicas : Count} {now : Seconds}

/-- A reservation that is accepted is added to those that are not over. -/
theorem reserve_eq_ok (h : (reserve key replicas length now s).1 = .ok output) :
    ∃ d a b, Duration.parse? length = some d ∧ d.isZero = false ∧
      s.autoscaler? key = .ok (some a) ∧
      (reserve key replicas length now s).2.autoscaler? key = .ok (some b) ∧
      b.spec.reservations = a.spec.reservations.filter (·.isActive now) ++
        [⟨replicas, Seconds.plus now d.seconds⟩] := by
  obtain ⟨-, ⟨d, hparse, hlong⟩, -⟩ := reserve_isOk_iff.1 ⟨output, h⟩
  obtain ⟨e, heq⟩ | ⟨d', a, hparse', hread, heq⟩ := reserve_cases key replicas length now s
  · rw [heq] at h
    cases h
  · rw [hparse] at hparse'
    cases hparse'
    refine ⟨d, a, ?_⟩
    rw [heq]
    simp only [Store.autoscaler?, Table.read?_insert_written, if_true]
    exact ⟨_, hparse, hlong, hread, rfl, rfl⟩

/-- A reservation that is accepted takes effect exactly if it lasts a second or more. Of fewer
milliseconds nothing remains: the reservation is stored, but it is over already. -/
theorem reserve_gains_iff (hnow : now.toNat < Seconds.largest)
    (h : (reserve key replicas length now s).1 = .ok output) :
    ∃ before after, s.autoscaler? key = .ok (some before) ∧
      (reserve key replicas length now s).2.autoscaler? key = .ok (some after) ∧
      (before.Gains after replicas now ↔ ¬ Duration.Subsecond length) ∧
      (Duration.Subsecond length →
        Reservation.activeTotal after.spec.reservations now =
          Reservation.activeTotal before.spec.reservations now) := by
  obtain ⟨d, a, b, hparse, hlong, hread, hread', hreservations⟩ := reserve_eq_ok h
  have hzero := Duration.seconds_eq_zero_iff hparse hlong
  have hactive := Reservation.isActive_plus_iff hnow replicas d.seconds
  have htotal : Reservation.activeTotal b.spec.reservations now =
      Reservation.activeTotal a.spec.reservations now +
        if d.seconds ≠ 0 then replicas.toNat else 0 := by
    rw [hreservations, Reservation.activeTotal_append, Reservation.activeTotal_filter,
      Reservation.activeTotal_singleton]
    simp only [hactive]
  refine ⟨a, b, hread, hread', ⟨?_, fun hsecond => ?_⟩, fun hsubsecond => ?_⟩
  · rintro ⟨r, hlast, -, hr, -⟩
    rw [hreservations, List.getLast?_concat] at hlast
    cases hlast
    rw [← hzero]
    exact hactive.1 hr
  · rw [← hzero] at hsecond
    refine ⟨_, by rw [hreservations, List.getLast?_concat], rfl, hactive.2 hsecond, ?_⟩
    rw [htotal, if_pos hsecond]
  · rw [htotal, if_neg (not_not.2 (hzero.2 hsubsecond)), Nat.add_zero]

def halfExpired : Store :=
  Store.empty.run
    [.createAutoscaler
      ⟨.fresh "ci" "builds", ⟨"linux", none, none, none, [], [⟨5, 900⟩, ⟨2, 5000⟩]⟩, .empty⟩]

theorem reserve_gains_halfExpired :
    ∃ before after, halfExpired.autoscaler? "ci/builds" = .ok (some before) ∧
      (reserve "ci/builds" 3 "1500ms" 1000 halfExpired).2.autoscaler? "ci/builds" =
        .ok (some after) ∧
      before.Gains after 3 1000 ∧ after.spec.reservations = [⟨2, 5000⟩, ⟨3, 1001⟩] := by
  have haccepted : (reserve "ci/builds" 3 "1500ms" 1000 halfExpired).1 =
      .ok "reserved 3 replica(s) on ci/builds until 1001\n" := by
    decide +kernel
  have hstored : ((reserve "ci/builds" 3 "1500ms" 1000 halfExpired).2.autoscaler? "ci/builds").map
      (Option.map fun a => a.spec.reservations) = .ok (some [⟨2, 5000⟩, ⟨3, 1001⟩]) := by
    decide +kernel
  have hsplit : Duration.splitUnit (Text.trim "1500ms".toList) =
      ("1500".toList, .milliseconds) := by
    decide
  have hsecond : ¬ Duration.Subsecond "1500ms" := by
    rintro ⟨number, ms, heq, hms, hlt⟩
    rw [hsplit] at heq
    cases heq
    have hread : Decimal.readUInt64? "1500".toList = some 1500 := by decide
    rw [hread] at hms
    cases hms
    exact absurd hlt (by decide)
  obtain ⟨before, after, hread, hread', hgains, -⟩ := reserve_gains_iff (by decide) haccepted
  rw [hread'] at hstored
  exact ⟨before, after, hread, hread', hgains.2 hsecond, Option.some.inj (Except.ok.inj hstored)⟩

/-- Half a second is accepted, and the replicas are said to be reserved until the second in which
they are. -/
theorem not_gains_halfSecond :
    (reserve "ci/builds" 3 "500ms" 1000 halfExpired).1 =
      .ok "reserved 3 replica(s) on ci/builds until 1000\n" ∧
    ∃ before after, halfExpired.autoscaler? "ci/builds" = .ok (some before) ∧
      (reserve "ci/builds" 3 "500ms" 1000 halfExpired).2.autoscaler? "ci/builds" =
        .ok (some after) ∧
      ¬ before.Gains after 3 1000 ∧
      Reservation.activeTotal after.spec.reservations 1000 =
        Reservation.activeTotal before.spec.reservations 1000 := by
  refine ⟨by decide +kernel, _, _, rfl, rfl, ?_, by decide +kernel⟩
  rintro ⟨r, hlast, -, hactive, -⟩
  have hlast' : some (Reservation.mk 3 1000) = some r := hlast
  cases hlast'
  cases hactive

end Command

end RunnerFleet
