import Mathlib.Data.List.Chain
import RunnerFleet.Proofs.Decision.Turn

/-!
# The published count does not flap

The delay rule is applied only where a count is computed, while a cached count bypasses it. What
keeps the published count up on a cache hit is an invariant of runs: the published count is at most
the cached baseline with the reservations on top, cut off at the ceiling. As long as neither the
reservations nor the ceiling fall from turn to turn, no turn inside the delay window lowers it.
-/

namespace RunnerFleet

/-- Neither the active reservations nor the ceiling, where none is higher than any, fall from the
one turn to the other. -/
def Turn.Rises (t u : Turn) : Prop :=
  t.reserved ≤ u.reserved ∧
    ∀ m, u.autoscaler.spec.maxReplicas = some m →
      ∃ n, t.autoscaler.spec.maxReplicas = some n ∧ n ≤ m

theorem Turn.Rises.ceiling_le {t u : Turn} (h : t.Rises u) : t.ceiling ≤ u.ceiling := by
  cases hu : u.autoscaler.spec.maxReplicas with
  | none =>
    have hle := t.autoscaler.ceiling_le_largest
    simpa only [Turn.ceiling, Autoscaler.ceiling, hu] using hle
  | some m =>
    obtain ⟨n, hn, hle⟩ := h.2 m hu
    simpa only [Turn.ceiling, Autoscaler.ceiling, hu, hn] using UInt32.le_iff_toNat_le.1 hle

/-- Nothing is published yet, or the published count is at most the one cached baseline with
`reserved` replicas on top, cut off at `ceiling`. -/
inductive Covered (reserved ceiling : Nat) : AutoscalerStatus → Prop
  | unpublished : Covered reserved ceiling .empty
  | published {p : Count} {grown : Option Seconds} {e : CacheEntry}
      (h : p.toNat ≤ min (e.value.toNat + reserved) ceiling) :
      Covered reserved ceiling ⟨some p, grown, [e]⟩

namespace Covered

variable {r c : Nat} {s : AutoscalerStatus} {t : Turn}

theorem mono {r' c' : Nat} (h : Covered r c s) (hr : r ≤ r') (hc : c ≤ c') : Covered r' c' s := by
  cases h with
  | unpublished => exact .unpublished
  | published h => exact .published (by omega)

/-- Whatever a turn publishes is covered by its own baseline. -/
theorem of_baseline (t : Turn) (b : Count) (grown : Option Seconds) (e : CacheEntry)
    (he : e.value = b) :
    Covered t.reserved t.ceiling ⟨some (t.desired b), grown, [e]⟩ := by
  apply published
  rw [Turn.toNat_desired, he]

theorem stored (h : Covered t.reserved t.ceiling s) :
    Covered t.reserved t.ceiling (t.stored s) := by
  obtain ⟨b, hit, heq⟩ | ⟨c, _, _, heq⟩ | ⟨_, _, heq⟩ := t.stored_cases s
  · rw [heq]
    cases h with
    | unpublished => cases hit
    | published h => exact of_baseline t b _ _ (cached?_singleton hit).symm
  · rw [heq]
    exact of_baseline t _ _ _ rfl
  · rw [heq]
    exact h

theorem statusAfter {ts : List Turn} {t : Turn} (rising : (ts ++ [t]).IsChain Turn.Rises) :
    Covered t.reserved t.ceiling (statusAfter ts) := by
  induction ts using List.reverseRecOn generalizing t with
  | nil => exact .unpublished
  | append_singleton ts u ih =>
    rw [statusAfter_snoc]
    -- covered by the limits of `u`, hence by those of `t`, which are no lower
    have hrise : u.Rises t := by
      rw [List.append_assoc, List.singleton_append] at rising
      exact (List.isChain_append_cons_cons.1 rising).2.1
    exact (ih rising.left_of_append).stored.mono hrise.1 hrise.ceiling_le

end Covered

/-- A turn inside the delay window publishes no less than what was published: on a hit because the
cached baseline covers it, and on a miss because the delay keeps it. -/
theorem Turn.le_stored_desired {t : Turn} {s : AutoscalerStatus} {grown : Seconds}
    (h : Covered t.reserved t.ceiling s) (hgrown : s.lastScaleOut = some grown)
    (hdelay : t.now.toNat < grown.toNat + t.delay.toNat) (hnow : t.now.toNat < Seconds.largest) :
    ∃ p q, s.desired = some p ∧ (t.stored s).desired = some q ∧ p ≤ q := by
  cases h with
  | unpublished => cases hgrown
  | @published p g e hp =>
    cases hgrown
    have hle : ∀ b : Count, min (e.value.toNat + t.reserved) t.ceiling ≤
        min (b.toNat + t.reserved) t.ceiling ∨ p.toNat ≤ b.toNat → p ≤ t.desired b := by
      intro b hb
      rw [UInt32.le_iff_toNat_le, toNat_desired]
      omega
    obtain ⟨b, hit, heq⟩ | ⟨c, _, _, heq⟩ | ⟨_, _, heq⟩ :=
      t.stored_cases ⟨some p, some grown, [e]⟩
    · refine ⟨p, t.desired b, rfl, by rw [heq], hle b (.inl ?_)⟩
      rw [cached?_singleton hit]
    · refine ⟨p, _, rfl, by rw [heq], hle _ (.inr ?_)⟩
      exact le_acceptCount hdelay hnow
    · exact ⟨p, p, rfl, by rw [heq], UInt32.le_refl p⟩

/-- Over a run in which neither the active reservations nor the ceiling fall, a turn inside the
scale-down delay does not lower the published count, whether its baseline is cached or computed. -/
theorem desired_le_desired_of_delay (before : List Turn) (t : Turn) (grown : Seconds)
    (rising : (before ++ [t]).IsChain Turn.Rises)
    (hgrown : (statusAfter before).lastScaleOut = some grown)
    (hdelay : t.now.toNat < grown.toNat + t.delay.toNat) (hnow : t.now.toNat < Seconds.largest) :
    ∃ p q, (statusAfter before).desired = some p ∧
      (statusAfter (before ++ [t])).desired = some q ∧ p ≤ q := by
  rw [statusAfter_snoc]
  exact t.le_stored_desired (.statusAfter rising) hgrown hdelay hnow

/-- Growth to seven at second 1000; at second 1060 the cached count is over and one replica would
do, but the delay lasts ten minutes. -/
theorem seven_kept_after_growth :
    (statusAfter [.withThreeReserved 4 1000]).lastScaleOut = some 1000 ∧
      ∃ p q, (statusAfter [.withThreeReserved 4 1000]).desired = some p ∧
        (statusAfter [.withThreeReserved 4 1000, .withThreeReserved 1 1060]).desired = some q ∧
        p ≤ q := by
  have hrise : (Turn.withThreeReserved 4 1000).Rises (.withThreeReserved 1 1060) :=
    ⟨by decide, fun m hm => ⟨m, hm, UInt32.le_refl m⟩⟩
  refine ⟨by decide, ?_⟩
  exact desired_le_desired_of_delay [.withThreeReserved 4 1000] (.withThreeReserved 1 1060) 1000
    (.cons_cons hrise (.singleton _)) (by decide) (by decide) (by decide)

end RunnerFleet
