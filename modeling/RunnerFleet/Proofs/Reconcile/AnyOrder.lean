import RunnerFleet.Proofs.Reconcile.Visit

/-!
# A pass over all autoscalers in any order

Visits of different autoscalers commute where nobody interferes: their edits have no row in common,
their events never share a key, and each touches one back-off of its own. So the order in which
autoscalers are visited cannot be told from what the pass leaves. Events go by the autoscaler's own
key, so it has to be the one that it is stored under, as in every store that operations have made.
-/

namespace RunnerFleet

theorem Snapshot.readsDemand_evaluate (staleness : Duration) (clock : Seconds) :
    Evaluator.ReadsDemand (evaluate staleness clock) := by
  intro s s' target a h
  unfold evaluate load Store.demand?
  rw [h]

namespace Controller

variable {c : Controller} {evaluate : Evaluator} {now : Seconds} {t : Tally}

theorem revise_comm {backoff : Table Backoff} {k l : String} (h : k ≠ l)
    (r q : Option PassResult) :
    c.revise (c.revise backoff k now r) l now q = c.revise (c.revise backoff l now q) k now r := by
  apply Table.ext
  intro x
  simp only [get?_revise, if_neg h, if_neg h.symm]
  by_cases hk : x = k
  · have hl : x ≠ l := fun hl => h (hk.symm.trans hl)
    simp only [if_pos hk, if_neg hl]
  · simp only [if_neg hk]

theorem visit_comm (hlocal : evaluate.ReadsDemand) (calm : t.world.pending = [])
    (filed : t.world.store.Filed) (targets : t.world.store.TargetsDistinct) (k l : String) :
    c.visit evaluate now (c.visit evaluate now t k) l =
      c.visit evaluate now (c.visit evaluate now t l) k := by
  by_cases hne : k = l
  · rw [hne]
  · have hk : c.finding evaluate now (c.visit evaluate now t l) k = c.finding evaluate now t k :=
      finding_congr hlocal (sameFor_visit calm targets hne)
    have hl : c.finding evaluate now (c.visit evaluate now t k) l = c.finding evaluate now t l :=
      finding_congr hlocal (sameFor_visit calm targets (Ne.symm hne))
    have hapart : (c.finding evaluate now t k).2.Apart (c.finding evaluate now t l).2 :=
      within_finding.apart within_finding hne filed targets
    rw [visit_of_calm (pending_visit calm), hl, visit_of_calm (pending_visit calm), hk,
      visit_of_calm calm, visit_of_calm calm]
    simp only [Tally.mk.injEq]
    refine ⟨Edit.onWorld_comm hapart t.world, revise_comm hne _ _, ?_⟩
    exact SyncReport.plus_right_comm _ _ _

/-- Where nobody interferes and no two autoscalers drive the same deployment, visits of all
autoscalers end in the same stores, back-offs and report in whatever order they are made. -/
theorem visitAll_perm (c : Controller) {evaluate : Evaluator} (hlocal : evaluate.ReadsDemand)
    (now : Seconds) {t : Tally} (calm : t.world.pending = []) (filed : t.world.store.Filed)
    (targets : t.world.store.TargetsDistinct) {order order' : List String}
    (h : order.Perm order') :
    c.visitAll evaluate now order t = c.visitAll evaluate now order' t := by
  unfold visitAll
  induction h generalizing t with
  | nil => rfl
  | cons k _ ih =>
    exact ih (pending_visit calm) (filed.congr (identityAt_visit calm))
      (targets.congr (identityAt_visit calm))
  | swap k l rest =>
    rw [List.foldl_cons, List.foldl_cons, List.foldl_cons, List.foldl_cons,
      visit_comm hlocal calm filed targets l k]
  | trans _ _ ih ih' => exact (ih calm filed targets).trans (ih' calm filed targets)

def twoTargets : Store :=
  Store.empty.run
    [.createDeployment ⟨.fresh "ci" "linux", .empty⟩,
     .createDeployment ⟨.fresh "ci" "mac", .empty⟩,
     .createAutoscaler
      ⟨.fresh "ci" "builds", ⟨"linux", none, none, none, [.workflowRuns], []⟩, .empty⟩,
     .createAutoscaler
      ⟨.fresh "ci" "builds:mac", ⟨"mac", none, some 4, none, [.workflowRuns], []⟩, .empty⟩,
     .putDemand ⟨"ci/linux", 2, 1, 0, 0, 90⟩,
     .putDemand ⟨"ci/mac", 7, 0, 0, 0, 95⟩]

/-- Both autoscalers scale their targets in the same second, one of them first. -/
theorem visitAll_twoTargets :
    twoTargets.Filed ∧ twoTargets.TargetsDistinct ∧
      (ofSettings .default).visitAll (Snapshot.evaluate (.ofSeconds 300) 100) 100
          ["ci/builds", "ci/builds:mac"] ⟨.ofStore twoTargets, .empty, .zero⟩ =
        (ofSettings .default).visitAll (Snapshot.evaluate (.ofSeconds 300) 100) 100
          ["ci/builds:mac", "ci/builds"] ⟨.ofStore twoTargets, .empty, .zero⟩ := by
  have filed : twoTargets.Filed := Store.filed_run _
  have listed : ∃ as, twoTargets.listAutoscalers = .ok as ∧
      (as.map Autoscaler.targetKey).Nodup := by
    refine ⟨_, rfl, ?_⟩
    decide
  have targets : twoTargets.TargetsDistinct := by
    obtain ⟨as, hlist, hnodup⟩ := listed
    exact Store.targetsDistinct_of_nodup hlist hnodup
  exact ⟨filed, targets, visitAll_perm _ (Snapshot.readsDemand_evaluate _ _) 100 rfl filed targets
    (.swap _ _ _)⟩

end Controller

end RunnerFleet
