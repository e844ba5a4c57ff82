import Mathlib.Data.List.Induction
import RunnerFleet.Proofs.Decision.Turn

/-!
# When reservations are counted once

Inside the delay window the published count takes the place of a lower computed one as baseline, and
the reservations come on top of the baseline. But the published count may already hold reservations.
A ledger beside a run keeps what the evaluator has returned and what the delay has kept, and tells
exactly at which turns more is published than the evaluator and the active reservations account for.
-/

namespace RunnerFleet

def Turn.candidate? (t : Turn) (s : AutoscalerStatus) : Option Count :=
  match s.cached? t.now, t.answer with
  | none, .ok c => some c
  | _, _ => none

structure Ledger where
  status : AutoscalerStatus
  /-- The largest count that the evaluator has returned so far. -/
  top : Nat
  /-- The published count that the delay kept when the evaluator last returned a count. -/
  kept : Option Count

namespace Ledger

def start : Ledger := ⟨.empty, 0, none⟩

def next (l : Ledger) (t : Turn) : Ledger :=
  match t.candidate? l.status with
  | none => { l with status := t.stored l.status }
  | some c =>
    { status := t.stored l.status
      top := max l.top c.toNat
      kept := keptCount l.status.desired c l.status.lastScaleOut t.delay t.now }

def after (ts : List Turn) : Ledger := ts.foldl next start

theorem after_snoc (ts : List Turn) (t : Turn) : after (ts ++ [t]) = (after ts).next t := by
  simp only [after, List.foldl_append, List.foldl_cons, List.foldl_nil]

/-- A baseline that the delay has not kept is a count that the evaluator has returned. -/
def Explains (l : Ledger) (baseline : Count) : Prop :=
  l.kept = some baseline ∨ l.kept = none ∧ baseline.toNat ≤ l.top

/-- Nothing is published yet, or the ledger explains the one cached baseline. -/
inductive Sound (l : Ledger) : Prop
  | unpublished (h : l.status = .empty)
  | published {p : Count} {grown : Option Seconds} {e : CacheEntry}
      (h : l.status = ⟨some p, grown, [e]⟩) (explained : l.Explains e.value)

variable {l : Ledger} {t : Turn} {d : Decision}

theorem next_of_candidate {c : Count} (h : t.candidate? l.status = some c) :
    l.next t = ⟨t.stored l.status, max l.top c.toNat,
      keptCount l.status.desired c l.status.lastScaleOut t.delay t.now⟩ := by
  simp only [next, h]

theorem next_of_no_candidate (h : t.candidate? l.status = none) :
    l.next t = { l with status := t.stored l.status } := by
  simp only [next, h]

theorem explains_computed {c : Count} (h : t.candidate? l.status = some c) :
    (l.next t).Explains (t.baseline l.status c) := by
  rw [next_of_candidate h]
  unfold Explains Turn.baseline
  rw [acceptCount_eq_keptCount]
  cases keptCount l.status.desired c l.status.lastScaleOut t.delay t.now with
  | some p => exact .inl rfl
  | none => exact .inr ⟨rfl, le_max_right _ _⟩

theorem Sound.next (h : l.Sound) (t : Turn) : (l.next t).Sound := by
  obtain ⟨b, hit, heq⟩ | ⟨c, hmiss, ha, heq⟩ | ⟨hmiss, ⟨cause, ha⟩, heq⟩ := t.stored_cases l.status
  · have hc : t.candidate? l.status = none := by simp only [Turn.candidate?, hit]
    rw [next_of_no_candidate hc, heq]
    cases h with
    | unpublished hs =>
      rw [hs] at hit
      cases hit
    | published hs explained => exact .published (by rw [hs]) explained
  · have hc : t.candidate? l.status = some c := by simp only [Turn.candidate?, hmiss, ha]
    have hexp := explains_computed hc
    rw [next_of_candidate hc, heq] at hexp ⊢
    exact .published rfl hexp
  · have hc : t.candidate? l.status = none := by simp only [Turn.candidate?, hmiss, ha]
    rw [next_of_no_candidate hc, heq]
    exact h

theorem sound_after (ts : List Turn) : (after ts).Sound := by
  induction ts using List.reverseRecOn with
  | nil => exact .unpublished rfl
  | append_singleton ts t ih =>
    rw [after_snoc]
    exact ih.next t

/-- The ledger of a turn explains the turn's own baseline, cached or computed. -/
theorem Sound.explains_baseline (h : l.Sound) (hd : t.decision l.status = .ok d) :
    (l.next t).Explains d.baseline ∧
      d.desired.toNat = min (d.baseline.toNat + t.reserved) t.ceiling := by
  cases hcached : l.status.cached? t.now with
  | some b =>
    have hc : t.candidate? l.status = none := by simp only [Turn.candidate?, hcached]
    rw [Turn.decision_of_cached hcached] at hd
    cases hd
    refine ⟨?_, t.toNat_desired b⟩
    rw [next_of_no_candidate hc]
    cases h with
    | unpublished hs =>
      rw [hs] at hcached
      cases hcached
    | published hs explained =>
      rw [hs] at hcached
      change l.Explains b
      rwa [cached?_singleton hcached]
  | none =>
    rw [Turn.decision_of_not_cached hcached] at hd
    cases ha : t.answer with
    | error cause =>
      rw [ha] at hd
      cases hd
    | ok c =>
      have hc : t.candidate? l.status = some c := by simp only [Turn.candidate?, hcached, ha]
      rw [ha] at hd
      cases hd
      exact ⟨explains_computed hc, t.toNat_desired _⟩

end Ledger

/-- Every turn of the run that decides publishes at most the largest count that the evaluator has
returned so far, with the replicas of the active reservations on top. -/
def CountedOnce (ts : List Turn) : Prop :=
  ∀ before t rest d, ts = before ++ t :: rest → t.decision (Ledger.after before).status = .ok d →
    d.desired.toNat ≤ (Ledger.after (before ++ [t])).top + t.reserved

/-- At every turn of the run that decides, a published count that the delay has kept is no more than
the evaluator has returned so far, or the ceiling cuts the excess off. -/
def KeptAccounted (ts : List Turn) : Prop :=
  ∀ before t rest d, ts = before ++ t :: rest → t.decision (Ledger.after before).status = .ok d →
    ∀ p, (Ledger.after (before ++ [t])).kept = some p →
      p.toNat ≤ (Ledger.after (before ++ [t])).top ∨
        t.ceiling ≤ (Ledger.after (before ++ [t])).top + t.reserved

theorem desired_le_iff {before : List Turn} {t : Turn} {d : Decision}
    (hd : t.decision (Ledger.after before).status = .ok d) :
    d.desired.toNat ≤ (Ledger.after (before ++ [t])).top + t.reserved ↔
      ∀ p, (Ledger.after (before ++ [t])).kept = some p →
        p.toNat ≤ (Ledger.after (before ++ [t])).top ∨
          t.ceiling ≤ (Ledger.after (before ++ [t])).top + t.reserved := by
  obtain ⟨explained, hdesired⟩ := (Ledger.sound_after before).explains_baseline hd
  rw [← Ledger.after_snoc] at explained
  rw [hdesired]
  obtain hkept | ⟨hkept, hle⟩ := explained
  · rw [hkept]
    simp only [Option.some.injEq, forall_eq']
    omega
  · rw [hkept]
    simp only [reduceCtorEq, false_implies, implies_true, iff_true]
    omega

/-- Over a run that begins with an empty status, reservations are counted once at every turn exactly
if no turn builds on a kept count that exceeds all that the evaluator has returned. -/
theorem countedOnce_iff (ts : List Turn) : CountedOnce ts ↔ KeptAccounted ts := by
  constructor
  · intro h before t rest d hts hd
    exact (desired_le_iff hd).1 (h before t rest d hts hd)
  · intro h before t rest d hts hd
    exact (desired_le_iff hd).2 (h before t rest d hts hd)

/-- Two replicas are needed throughout and three are reserved. The second turn takes the five that
the first published for its baseline and publishes eight. -/
theorem not_countedOnce_kept_reservation :
    [Turn.withThreeReserved 2 1000, Turn.withThreeReserved 2 1060].Pairwise (·.now ≤ ·.now) ∧
      ¬ CountedOnce [.withThreeReserved 2 1000, .withThreeReserved 2 1060] := by
  refine ⟨by decide, fun h => ?_⟩
  have hd : (Turn.withThreeReserved 2 1060).decision
      (Ledger.after [.withThreeReserved 2 1000]).status =
        .ok ⟨5, 8, false, some 8, some ⟨some 8, some 1060, [⟨.desiredReplicas, 5, 1090⟩]⟩⟩ := by decide
  have hle := h [.withThreeReserved 2 1000] (.withThreeReserved 2 1060) [] _ rfl hd
  exact absurd hle (by decide)

end RunnerFleet
