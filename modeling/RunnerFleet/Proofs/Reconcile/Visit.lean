import RunnerFleet.Proofs.Reconcile.Edit
import RunnerFleet.Reconcile.Controller

/-!
# Visits that nobody interferes with

A visit changes three things apart from each other: the world by the edit of its pass, one back-off,
and the report by one count. Each follows from what the visit finds of its own autoscaler, and a
visit of another autoscaler that has another target leaves all of that alone.
-/

namespace RunnerFleet

def Skip.AppliesTo (key : String) (s : Store) : Skip → Prop
  | .autoscalerNotFound => s.autoscaler? key = .ok none
  | .autoscalerDeleting => ∃ a, s.autoscaler? key = .ok (some a) ∧ a.metadata.isDeleting = true
  | .targetNotFound =>
    ∃ a, s.autoscaler? key = .ok (some a) ∧ s.deployment? a.targetKey = .ok none
  | .targetDeleting =>
    ∃ a target, s.autoscaler? key = .ok (some a) ∧
      s.deployment? a.targetKey = .ok (some target) ∧ target.metadata.isDeleting = true

namespace Pass

variable {p : Pass} {s : Store} {r : PassResult}

theorem readAutoscaler_eq_finished (h : p.readAutoscaler s = .finished r) :
    (∃ why, r = .ok (.skipped why) ∧ why.AppliesTo p.key s) ∨
      ∃ e, r = .error (.store e) ∧ s.autoscaler? p.key = .error e := by
  unfold readAutoscaler at h
  split at h
  · next e hread =>
    cases h
    exact .inr ⟨e, rfl, hread⟩
  · next hread =>
    cases h
    exact .inl ⟨.autoscalerNotFound, rfl, hread⟩
  · next a hread =>
    split at h
    · next hdeleting =>
      cases h
      exact .inl ⟨.autoscalerDeleting, rfl, a, hread, hdeleting⟩
    · cases h

theorem readTarget_eq_finished {a : Autoscaler} (ha : s.autoscaler? p.key = .ok (some a))
    (h : readTarget a s = .finished r) :
    (∃ why, r = .ok (.skipped why) ∧ why.AppliesTo p.key s) ∨
      ∃ e, r = .error (.store e) ∧ s.deployment? a.targetKey = .error e := by
  unfold readTarget at h
  split at h
  · next e hread =>
    cases h
    exact .inr ⟨e, rfl, hread⟩
  · next hread =>
    cases h
    exact .inl ⟨.targetNotFound, rfl, a, ha, hread⟩
  · next target hread =>
    split at h
    · next hdeleting =>
      cases h
      exact .inl ⟨.targetDeleting, rfl, a, target, ha, hread, hdeleting⟩
    · cases h

/-- A pass that loads nothing either skips for a reason that the store gives, or has met a row that
it cannot read. -/
theorem load_eq_error (h : p.load s = .error r) :
    (∃ why, r = .ok (.skipped why) ∧ why.AppliesTo p.key s) ∨
      ∃ e, r = .error (.store e) ∧ (s.autoscaler? p.key = .error e ∨
        ∃ a, s.autoscaler? p.key = .ok (some a) ∧ s.deployment? a.targetKey = .error e) := by
  unfold load at h
  obtain ⟨q, hq, -⟩ | ⟨a, hread, -, ha⟩ := p.readAutoscaler_cases s
  · simp only [hq, result] at h
    cases h
    obtain hskip | ⟨e, he, hread⟩ := readAutoscaler_eq_finished hq
    · exact .inl hskip
    · exact .inr ⟨e, he, .inl hread⟩
  · obtain ⟨q, hq, -⟩ | ⟨target, -, -, ht⟩ := readTarget_cases a s
    · simp only [ha, hq, result] at h
      cases h
      obtain hskip | ⟨e, he, htarget⟩ := readTarget_eq_finished hread hq
      · exact .inl hskip
      · exact .inr ⟨e, he, .inr ⟨a, hread, htarget⟩⟩
    · simp only [ha, ht] at h
      cases h

/-- Where nobody interferes there is no conflict. -/
theorem isConflict_of_plan {e : PassError} (h : (p.plan s).1 = .error e) :
    e.isConflict = false := by
  obtain ⟨r, hload, hplan⟩ | ⟨a, target, cause, -, -, hplan⟩ | ⟨a, target, d, -, -, hplan⟩ :=
    p.plan_cases s
  · rw [hplan] at h
    obtain ⟨why, rfl, -⟩ | ⟨cause, rfl, -⟩ := load_eq_error hload
    · cases h
    · cases h
      rfl
  · rw [hplan] at h
    cases h
    rfl
  · rw [hplan] at h
    cases h

end Pass

/-- The answer depends on nothing in the store but the recorded demand. -/
def Evaluator.ReadsDemand (evaluate : Evaluator) : Prop :=
  ∀ s s' target a, s'.demand = s.demand → evaluate s' target a = evaluate s target a

theorem Pass.plan_congr {p : Pass} {s s' : Store}
    (hread : s'.autoscaler? p.key = s.autoscaler? p.key)
    (htarget : ∀ a, s.autoscaler? p.key = .ok (some a) →
      s'.deployment? a.targetKey = s.deployment? a.targetKey)
    (hdemand : s'.demand = s.demand) (hlocal : p.evaluate.ReadsDemand) : p.plan s' = p.plan s := by
  have hload := load_congr hread htarget
  have hanswer : ∀ target a, p.evaluate s' target a = p.evaluate s target a :=
    fun target a => hlocal s s' target a hdemand
  simp only [plan, hload, hanswer]

namespace SyncReport

def plus (r q : SyncReport) : SyncReport where
  applied := r.applied + q.applied
  scaled := r.scaled + q.scaled
  skipped := r.skipped + q.skipped
  conflicts := r.conflicts + q.conflicts
  failed := r.failed + q.failed
  deferred := r.deferred + q.deferred

theorem plus_right_comm (r x y : SyncReport) : (r.plus x).plus y = (r.plus y).plus x := by
  simp only [plus, SyncReport.mk.injEq]
  omega

def ofVisit : Option PassResult → SyncReport
  | none => { zero with deferred := 1 }
  | some r => Controller.count zero r

theorem count_eq_plus (r : SyncReport) (x : PassResult) :
    Controller.count r x = r.plus (ofVisit (some x)) := by
  cases x with
  | error e => cases e <;> rfl
  | ok o =>
    cases o with
    | skipped why => rfl
    | applied d =>
      cases hscaled : d.targetPatch <;> simp [ofVisit, Controller.count, plus, zero, hscaled]

end SyncReport

namespace Controller

variable {c : Controller} {evaluate : Evaluator} {now : Seconds} {t : Tally} {key k : String}

def revised (c : Controller) (earlier : Option Backoff) (now : Seconds) :
    Option PassResult → Option Backoff
  | none => earlier
  | some (.ok _) => none
  | some (.error (.writeConflict _)) => earlier
  | some (.error _) => some (c.fail earlier now)

def revise (c : Controller) (backoff : Table Backoff) (key : String) (now : Seconds) :
    Option PassResult → Table Backoff
  | none => backoff
  | some r => c.settle backoff key now r

theorem get?_revise (backoff : Table Backoff) (r : Option PassResult) :
    (c.revise backoff key now r).get? k =
      if k = key then c.revised (backoff.get? key) now r else backoff.get? k := by
  by_cases hk : k = key
  · subst hk
    unfold revise revised settle
    split
    · simp
    · split <;> simp
  · unfold revise settle
    split
    · simp [hk]
    · split <;> simp [hk]

/-- What a visit finds where nobody interferes: the result of the pass, unless it is put off, and
the edit. -/
def finding (c : Controller) (evaluate : Evaluator) (now : Seconds) (t : Tally) (key : String) :
    Option PassResult × Edit :=
  if isDeferred t.backoff key now then (none, .none)
  else
    let plan := Pass.plan ⟨key, now, c.engine, evaluate⟩ t.world.store
    (some plan.1, plan.2)

theorem attempt_of_calm {p : Pass} {w : World} (h : w.pending = []) :
    attempt p w = p.reconcile w := by
  rw [attempt, Pass.reconcile_of_calm h]
  cases hresult : (p.plan w.store).1 with
  | ok o => rfl
  | error e =>
    have hno := Pass.isConflict_of_plan hresult
    simp only [hno, Bool.false_eq_true, if_false]

theorem visit_of_calm (h : t.world.pending = []) :
    c.visit evaluate now t key =
      { world := (c.finding evaluate now t key).2.onWorld t.world
        backoff := c.revise t.backoff key now (c.finding evaluate now t key).1
        report := t.report.plus (.ofVisit (c.finding evaluate now t key).1) } := by
  by_cases hdeferred : isDeferred t.backoff key now = true
  · simp only [visit, finding, hdeferred, if_true]
    rfl
  · simp only [visit, finding, hdeferred, Bool.false_eq_true, if_false, attempt_of_calm h,
      Pass.reconcile_of_calm h, SyncReport.count_eq_plus]
    rfl

theorem pending_visit (h : t.world.pending = []) :
    (c.visit evaluate now t key).world.pending = [] := by
  rw [visit_of_calm h]
  exact h

theorem within_finding :
    (c.finding evaluate now t key).2.Within key t.world.store := by
  unfold finding
  split
  · exact Edit.within_none _ _
  · exact Pass.within_plan _ _

theorem identityAt_visit (h : t.world.pending = []) :
    (c.visit evaluate now t key).world.store.identityAt = t.world.store.identityAt := by
  rw [visit_of_calm h]
  exact within_finding.identityAt

end Controller

/-! ## What every pass keeps -/

namespace Controller

variable {P : World → Prop} (hpass : ∀ p w, P w → P (Pass.reconcile p w).2)
include hpass

theorem attempt_preserves (p : Pass) {w : World} (h : P w) : P (attempt p w).2 := by
  unfold attempt
  split
  · next e v heq =>
    have hfirst := hpass p w h
    rw [heq] at hfirst
    split
    · exact hpass p v hfirst
    · exact hfirst
  · exact hpass p w h

theorem visitAll_preserves (c : Controller) (evaluate : Evaluator) (now : Seconds)
    (order : List String) {t : Tally} (h : P t.world) :
    P (c.visitAll evaluate now order t).world := by
  induction order generalizing t with
  | nil => exact h
  | cons k rest ih =>
    refine ih ?_
    unfold visit
    split
    · exact h
    · exact attempt_preserves hpass _ h

theorem sync_preserves {c : Controller} {evaluate : Evaluator} {now : Seconds} {w : World}
    {backoff : Table Backoff} {t : Tally} (hsync : c.sync evaluate now w backoff = .ok t)
    (h : P w) : P t.world := by
  obtain ⟨as, -, ht⟩ := Except.bind_eq_ok_iff.1 hsync
  obtain rfl := Except.ok.inj ht
  exact visitAll_preserves hpass c evaluate now _ h

end Controller

/-! ## What a visit leaves of another autoscaler -/

/-- The two tallies hold the same for the autoscaler under `key`: its row, its target, and its
back-off. -/
structure Tally.SameFor (key : String) (t t' : Tally) : Prop where
  autoscaler : t'.world.store.autoscaler? key = t.world.store.autoscaler? key
  target : ∀ a, t.world.store.autoscaler? key = .ok (some a) →
    t'.world.store.deployment? a.targetKey = t.world.store.deployment? a.targetKey
  demand : t'.world.store.demand = t.world.store.demand
  backoff : t'.backoff.get? key = t.backoff.get? key

namespace Controller

variable {c : Controller} {evaluate : Evaluator} {now : Seconds} {t : Tally} {key k : String}

/-- A visit of one autoscaler leaves every other one as it was. -/
theorem sameFor_visit (h : t.world.pending = []) (targets : t.world.store.TargetsDistinct)
    (hne : k ≠ key) : t.SameFor k (c.visit evaluate now t key) := by
  rw [visit_of_calm h]
  have hwithin : (c.finding evaluate now t key).2.Within key t.world.store := within_finding
  refine ⟨hwithin.autoscaler?_of_ne hne, fun a ha => ?_, rfl, ?_⟩
  · apply hwithin.deployment?_of_ne
    intro b hb heq
    exact hne (targets ha hb heq.symm)
  · rw [get?_revise, if_neg hne]

theorem finding_congr {t' : Tally} (hlocal : evaluate.ReadsDemand) (h : t.SameFor key t') :
    c.finding evaluate now t' key = c.finding evaluate now t key := by
  have hdeferred : isDeferred t'.backoff key now = isDeferred t.backoff key now := by
    rw [isDeferred, isDeferred, h.backoff]
  let p : Pass := ⟨key, now, c.engine, evaluate⟩
  have hplan : p.plan t'.world.store = p.plan t.world.store :=
    Pass.plan_congr h.autoscaler h.target h.demand hlocal
  simp only [finding, hdeferred, p, hplan]

end Controller

end RunnerFleet
