import RunnerFleet.Decision.Parts
import RunnerFleet.Proofs.Operator.Terms
import RunnerFleet.Proofs.Store.Marked

/-!
# Dropping reservations that are over

A reservation that is added drives out those that are over by then. No later reader can tell: what
is active from then on is what would be active if nothing had ever been dropped, in the same order
and as often.
-/

namespace RunnerFleet

namespace Reservation

/-- What is over stays over. -/
theorem filter_pruned {now t : Seconds} (h : now ≤ t) (rs : List Reservation) :
    (rs.filter (·.isActive now)).filter (·.isActive t) = rs.filter (·.isActive t) := by
  rw [List.filter_filter]
  refine List.filter_congr fun r _ => ?_
  simp only [isActive, Bool.and_eq_left_iff_imp, decide_eq_true_eq]
  exact UInt64.lt_of_le_of_lt h

/-- Only active reservations count. -/
theorem overlay_congr {rs qs : List Reservation} {now : Seconds}
    (h : rs.filter (·.isActive now) = qs.filter (·.isActive now)) (baseline : Count) :
    overlay baseline rs now = overlay baseline qs now := by
  rw [overlay, overlay, activeSum, activeSum, h]

end Reservation

namespace Store

namespace Operation

def reserves? (key : String) : Operation → Option (Seconds × Reservation)
  | addReservation k r now => if k = key then some (now, r) else none
  | _ => none

def resets (key : String) : Operation → Bool
  | putAutoscaler a => a.key = key
  | deleteAutoscaler k => k = key
  | _ => false

theorem reserves?_eq_some_iff {key : String} {op : Operation} {now : Seconds} {r : Reservation} :
    op.reserves? key = some (now, r) ↔ op = .addReservation key r now := by
  cases op with
  | addReservation k q t =>
    simp only [reserves?, Option.ite_none_right_eq_some, Option.some.injEq, Prod.mk.injEq,
      addReservation.injEq]
    tauto
  | _ => simp [reserves?]

end Operation

def reserved (key : String) (ops : List Operation) : List (Seconds × Reservation) :=
  ops.filterMap (·.reserves? key)

variable {s s' : Store} {op : Operation} {key : String} {a : Autoscaler} {now : Seconds}
  {r : Reservation}

theorem perform_addReservation (h : s.autoscaler? key = .ok (some a)) (r : Reservation)
    (now : Seconds) :
    s.perform (.addReservation key r now) =
      let b := Versioned.bumped { a with
        spec := { a.spec with reservations := a.spec.reservations.filter (·.isActive now) ++ [r] } }
      .ok (.autoscaler b, { s with autoscalers := s.autoscalers.insert key (.written b) }) := by
  change written .autoscaler (s.onAutoscalers (·.update key _)) = _
  rw [onAutoscalers, Table.update_of_read h]
  rfl

/-- A reservation is stored behind those that are not over. -/
theorem reservations_added (h : s.autoscaler? key = .ok (some a)) (r : Reservation)
    (now : Seconds) :
    ∃ b, (s.after (.addReservation key r now)).autoscaler? key = .ok (some b) ∧
      b.spec.reservations = a.spec.reservations.filter (·.isActive now) ++ [r] := by
  rw [after, perform_addReservation h]
  simp only [autoscaler?, Table.read?_insert_written, if_true]
  exact ⟨_, rfl, rfl⟩

/-- Whatever else is done to the autoscaler leaves its reservations, as long as it is not put or
deleted. -/
theorem reservations_kept (h : s.autoscaler? key = .ok (some a)) (hop : op.resets key = false)
    (hnone : op.reserves? key = none) :
    ∃ b, (s.after op).autoscaler? key = .ok (some b) ∧
      b.spec.reservations = a.spec.reservations := by
  unfold after
  split
  · next answer s' hok =>
    cases performed_of_perform hok with
    | wroteDeployment | deletedDeployment | tookDemand | recorded | looked => exact ⟨a, h, rfl⟩
    | @deletedAutoscaler k =>
      refine ⟨a, ?_, rfl⟩
      rw [autoscaler?, Table.read?_erase, if_neg fun hk => of_decide_eq_false hop hk.symm]
      exact h
    | @wroteAutoscaler _ k b writes =>
      by_cases hk : key = k
      · subst hk
        refine ⟨Encoded.reread b, by rw [autoscaler?, Table.read?_insert_written, if_pos rfl], ?_⟩
        cases writes with
        | created free => cases free.symm.trans h
        | put read => exact absurd rfl (of_decide_eq_false hop)
        | reservationAdded read => simp [Operation.reserves?] at hnone
        | statusUpdated read | marked read =>
          cases read.symm.trans h
          rfl
      · refine ⟨a, ?_, rfl⟩
        rw [autoscaler?, Table.read?_insert_written, if_neg hk]
        exact h
  · exact ⟨a, h, rfl⟩

/-- What is stored has, from the last call on, the same active reservations as the whole history. -/
theorem active_run (h : s.autoscaler? key = .ok (some a)) (ops : List Operation)
    (hops : ∀ op ∈ ops, op.resets key = false) :
    ∃ b, (s.run ops).autoscaler? key = .ok (some b) ∧
      ∀ t, (∀ call ∈ reserved key ops, call.1 ≤ t) →
        b.spec.reservations.filter (·.isActive t) =
          (a.spec.reservations ++ (reserved key ops).map Prod.snd).filter (·.isActive t) := by
  induction ops using List.reverseRecOn with
  | nil => exact ⟨a, h, fun t _ => by simp [reserved]⟩
  | append_singleton ops op ih =>
    obtain ⟨b, hb, hactive⟩ := ih fun op hop => hops op (List.mem_append_left _ hop)
    have hop := hops op (List.mem_append_right _ (List.mem_singleton_self op))
    have hrun : s.run (ops ++ [op]) = (s.run ops).after op := run_append s ops [op]
    rw [hrun, reserved, List.filterMap_append]
    cases hcall : op.reserves? key with
    | none =>
      obtain ⟨c, hc, hkept⟩ := reservations_kept hb hop hcall
      refine ⟨c, hc, fun t ht => ?_⟩
      simp only [List.filterMap_cons, hcall, List.filterMap_nil, List.append_nil] at ht ⊢
      rw [hkept]
      exact hactive t ht
    | some call =>
      obtain ⟨now, r⟩ := call
      obtain rfl := Operation.reserves?_eq_some_iff.1 hcall
      obtain ⟨c, hc, hadded⟩ := reservations_added hb r now
      refine ⟨c, hc, fun t ht => ?_⟩
      simp only [List.filterMap_cons, hcall, List.filterMap_nil, List.forall_mem_append,
        List.forall_mem_singleton] at ht ⊢
      rw [hadded, List.filter_append, Reservation.filter_pruned ht.2, hactive t ht.1,
        ← List.filter_append, List.map_append, List.append_assoc]
      rfl

/-- Between two puts of an autoscaler, at every time from the last call on, the stored reservations
that are active are those of the whole history that expire later, and they come to the same on top
of any baseline. Every call succeeds and leaves beside its own reservation only active ones. -/
theorem pruning_unseen (h : s.autoscaler? key = .ok (some a)) (ops : List Operation)
    (hops : ∀ op ∈ ops, op.resets key = false) :
    (∃ b, (s.run ops).autoscaler? key = .ok (some b) ∧
      ∀ t, (∀ call ∈ reserved key ops, call.1 ≤ t) →
        let all := a.spec.reservations ++ (reserved key ops).map Prod.snd
        b.spec.reservations.filter (·.isActive t) = all.filter (t < ·.expiresAt) ∧
          ∀ baseline, Reservation.overlay baseline b.spec.reservations t =
            Reservation.overlay baseline all t) ∧
    ∀ earlier r now, earlier ++ [.addReservation key r now] <+: ops →
      ((s.run earlier).perform (.addReservation key r now)).isOk = true ∧
      ∃ b kept, (s.run (earlier ++ [.addReservation key r now])).autoscaler? key = .ok (some b) ∧
        b.spec.reservations = kept ++ [r] ∧ ∀ q ∈ kept, q.isActive now = true := by
  refine ⟨?_, fun earlier r now hbegins => ?_⟩
  · obtain ⟨b, hb, hactive⟩ := active_run h ops hops
    refine ⟨b, hb, fun t ht => ⟨hactive t ht, fun baseline => ?_⟩⟩
    exact Reservation.overlay_congr (hactive t ht) baseline
  · obtain ⟨b, hb, -⟩ := active_run h earlier fun op hop =>
      hops op (hbegins.subset (List.mem_append_left _ hop))
    obtain ⟨c, hc, hadded⟩ := reservations_added hb r now
    refine ⟨by rw [perform_addReservation hb]; rfl, c, _, ?_, hadded, fun q hq => ?_⟩
    · rw [run_append]
      exact hc
    · exact (List.mem_filter.1 hq).2

def boosted : Store :=
  empty.run
    [.createAutoscaler
      ⟨.fresh "ci" "builds", ⟨"linux", none, none, none, [], [⟨5, 1000⟩, ⟨2, 5000⟩, ⟨2, 5000⟩]⟩,
        .empty⟩]

/-- Reservations are added that end with the last call, that are over already, and that equal older
ones; of the status updates between them one is refused. -/
theorem pruning_unseen_boosted :
    let ops : List Operation :=
      [.addReservation "ci/builds" ⟨3, 2000⟩ 1000, .updateStatus "ci/builds" 2 ⟨some 4, none, []⟩,
       .addReservation "ci/builds" ⟨4, 1500⟩ 1500, .updateStatus "ci/builds" 1 .empty,
       .addReservation "ci/builds" ⟨2, 5000⟩ 2000]
    ∃ b, (boosted.run ops).autoscaler? "ci/builds" = .ok (some b) ∧
      b.spec.reservations.filter (·.isActive 2000) = [⟨2, 5000⟩, ⟨2, 5000⟩, ⟨2, 5000⟩] ∧
      Reservation.overlay 1 b.spec.reservations 2000 = 7 := by
  intro ops
  have hread : boosted.autoscaler? "ci/builds" = .ok (some ⟨⟨"ci", "builds", 1, none⟩,
      ⟨"linux", none, none, none, [], [⟨5, 1000⟩, ⟨2, 5000⟩, ⟨2, 5000⟩]⟩, .empty⟩) := by
    decide +kernel
  obtain ⟨⟨b, hb, hactive⟩, -⟩ := pruning_unseen hread ops (by decide)
  obtain ⟨hlater, hoverlay⟩ := hactive 2000 (by decide)
  exact ⟨b, hb, hlater, hoverlay 1⟩

end Store

end RunnerFleet
