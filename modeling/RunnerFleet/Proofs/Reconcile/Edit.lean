import RunnerFleet.Proofs.Reconcile.Course
import RunnerFleet.Proofs.Store.Listing

/-!
# Passes that nobody interferes with

Where no interference is queued, every write of a pass is done. The result of the pass and all that
it writes is then a function of the few rows that it reads, so passes can be compared by these
edits, and none of the steps has to be followed again.
-/

namespace RunnerFleet

namespace Table

variable {α : Type}

def writing (t : Table (Row α)) : Option (String × α) → Table (Row α)
  | some (key, a) => t.insert key (.written a)
  | none => t

@[simp] theorem writing_none (t : Table (Row α)) : t.writing none = t := rfl

@[simp] theorem writing_some (t : Table (Row α)) (key : String) (a : α) :
    t.writing (some (key, a)) = t.insert key (.written a) := rfl

theorem read?_writing_of_ne [Encoded α] {t : Table (Row α)} {row : Option (String × α)}
    {k : String} (h : ∀ r, row = some r → r.1 ≠ k) : (t.writing row).read? k = t.read? k := by
  cases row with
  | none => rfl
  | some r =>
    have hne : k ≠ r.1 := (h r rfl).symm
    rw [writing, read?_insert_written, if_neg hne]

theorem writing_comm {t : Table (Row α)} {row row' : Option (String × α)}
    (h : ∀ r r', row = some r → row' = some r' → r.1 ≠ r'.1) :
    (t.writing row).writing row' = (t.writing row').writing row := by
  cases row with
  | none => rfl
  | some r =>
    cases row' with
    | none => rfl
    | some r' => exact insert_comm t (h r r' rfl rfl) _ _

end Table

namespace Store

def recording (s : Store) : Option Event → Store
  | some e => s.recordEvent e
  | none => s

theorem events_recording_congr {s s' : Store} (h : s.events = s'.events) (e : Option Event) :
    (s.recording e).events = (s'.recording e).events := by
  cases e with
  | none => exact h
  | some e =>
    have hseq : s.freeSeq e = s'.freeSeq e := by rw [freeSeq, freeSeq, h]
    rw [recording, recording, recordEvent, recordEvent, hseq, h]

theorem recording_comm {s : Store} {e f : Option Event}
    (h : ∀ x y, e = some x → f = some y → x.objectKey ≠ y.objectKey) :
    (s.recording e).recording f = (s.recording f).recording e := by
  cases e with
  | none => rfl
  | some x =>
    cases f with
    | none => rfl
    | some y => exact recordEvent_comm (h x y rfl rfl)

end Store

namespace Decision

def left (d : Decision) (a : Autoscaler) : Autoscaler :=
  match d.statusPatch with
  | none => a
  | some status => a.reread.publishing status

def leftTarget (d : Decision) (target : Deployment) : Deployment :=
  match d.targetPatch with
  | none => target
  | some replicas => target.scaledTo replicas

@[simp] theorem status_left (d : Decision) (a : Autoscaler) :
    (d.left a).status = d.statusPatch.getD a.status := by
  unfold left
  cases d.statusPatch <;> rfl

@[simp] theorem targetKey_left (d : Decision) (a : Autoscaler) :
    (d.left a).targetKey = a.targetKey := by
  unfold left
  cases d.statusPatch <;> rfl

@[simp] theorem isDeleting_left (d : Decision) (a : Autoscaler) :
    (d.left a).metadata.isDeleting = a.metadata.isDeleting := by
  unfold left
  cases d.statusPatch <;> rfl

@[simp] theorem desiredCount_left (d : Decision) (a : Autoscaler) (baseline : Count)
    (now : Seconds) :
    Engine.desiredCount (d.left a) baseline now = Engine.desiredCount a baseline now := by
  unfold left
  cases d.statusPatch <;> rfl

@[simp] theorem replicas_leftTarget (d : Decision) (target : Deployment) :
    (d.leftTarget target).replicas = d.targetPatch.getD target.replicas := by
  unfold leftTarget
  cases d.targetPatch <;> rfl

@[simp] theorem isDeleting_leftTarget (d : Decision) (target : Deployment) :
    (d.leftTarget target).metadata.isDeleting = target.metadata.isDeleting := by
  unfold leftTarget
  cases d.targetPatch <;> rfl

end Decision

structure Edit where
  autoscaler : Option (String × Autoscaler)
  target : Option (String × Deployment)
  event : Option Event
  evaluations : Nat

namespace Edit

def none : Edit := ⟨.none, .none, .none, 0⟩

def onStore (e : Edit) (s : Store) : Store where
  autoscalers := s.autoscalers.writing e.autoscaler
  deployments := s.deployments.writing e.target
  demand := s.demand
  events := (s.recording e.event).events

def onWorld (e : Edit) (w : World) : World where
  store := e.onStore w.store
  pending := w.pending
  evaluations := w.evaluations + e.evaluations

@[simp] theorem onWorld_none (w : World) : none.onWorld w = w := rfl

/-- Two edits that write no row in common and record events of different objects. -/
structure Apart (e f : Edit) : Prop where
  autoscaler : ∀ r r', e.autoscaler = some r → f.autoscaler = some r' → r.1 ≠ r'.1
  target : ∀ r r', e.target = some r → f.target = some r' → r.1 ≠ r'.1
  event : ∀ x y, e.event = some x → f.event = some y → x.objectKey ≠ y.objectKey

theorem onStore_comm {e f : Edit} (h : e.Apart f) (s : Store) :
    f.onStore (e.onStore s) = e.onStore (f.onStore s) := by
  have hevents : ∀ x y : Edit, ((x.onStore s).recording y.event).events =
      ((s.recording x.event).recording y.event).events := by
    intro x y
    have hbase : (x.onStore s).events = (s.recording x.event).events := rfl
    exact Store.events_recording_congr hbase y.event
  unfold onStore at hevents ⊢
  rw [hevents e f, hevents f e, Table.writing_comm h.autoscaler, Table.writing_comm h.target,
    Store.recording_comm h.event]

theorem onWorld_comm {e f : Edit} (h : e.Apart f) (w : World) :
    f.onWorld (e.onWorld w) = e.onWorld (f.onWorld w) := by
  unfold onWorld
  rw [onStore_comm h, Nat.add_right_comm]

/-- An edit of a pass for the autoscaler under `key`: it writes that autoscaler, with its identity
kept, and the target, and it tells about no other object. -/
structure Within (e : Edit) (key : String) (s : Store) : Prop where
  autoscaler : ∀ r, e.autoscaler = some r → r.1 = key ∧
    ∃ a, s.autoscaler? key = .ok (some a) ∧ r.2.key = a.key ∧ r.2.targetKey = a.targetKey
  target : ∀ r, e.target = some r → ∃ a, s.autoscaler? key = .ok (some a) ∧ r.1 = a.targetKey
  event : ∀ x, e.event = some x → ∃ a, s.autoscaler? key = .ok (some a) ∧ x.objectKey = a.key

theorem within_none (key : String) (s : Store) : none.Within key s := ⟨nofun, nofun, nofun⟩

namespace Within

variable {e f : Edit} {k l : String} {s : Store}

theorem apart (he : e.Within k s) (hf : f.Within l s) (hne : k ≠ l) (filed : s.Filed)
    (targets : s.TargetsDistinct) : e.Apart f where
  autoscaler r r' hr hr' := by
    rw [(he.autoscaler r hr).1, (hf.autoscaler r' hr').1]
    exact hne
  target r r' hr hr' := by
    obtain ⟨a, ha, hra⟩ := he.target r hr
    obtain ⟨b, hb, hrb⟩ := hf.target r' hr'
    rw [hra, hrb]
    exact fun heq => hne (targets ha hb heq)
  event x y hx hy := by
    obtain ⟨a, ha, hxa⟩ := he.event x hx
    obtain ⟨b, hb, hyb⟩ := hf.event y hy
    rw [hxa, hyb, filed ha, filed hb]
    exact hne

theorem autoscaler?_of_ne (he : e.Within k s) (hne : l ≠ k) :
    (e.onStore s).autoscaler? l = s.autoscaler? l := by
  apply Table.read?_writing_of_ne
  intro r hr
  rw [(he.autoscaler r hr).1]
  exact hne.symm

theorem deployment?_of_ne (he : e.Within k s)
    (hne : ∀ a, s.autoscaler? k = .ok (some a) → a.targetKey ≠ l) :
    (e.onStore s).deployment? l = s.deployment? l := by
  apply Table.read?_writing_of_ne
  intro r hr
  obtain ⟨a, ha, htarget⟩ := he.target r hr
  rw [htarget]
  exact hne a ha

theorem identityAt (he : e.Within k s) : (e.onStore s).identityAt = s.identityAt := by
  funext l
  by_cases hl : l = k
  · cases hrow : e.autoscaler with
    | none => simp only [Store.identityAt, Store.autoscaler?, onStore, hrow, Table.writing_none]
    | some r =>
      obtain ⟨hkey, a, ha, hid, htarget⟩ := he.autoscaler r hrow
      have hread : (e.onStore s).autoscaler? l = .ok (some r.2.reread) := by
        rw [Store.autoscaler?, onStore, hrow]
        simp only [Table.writing, Table.read?_insert_written, hkey, hl, if_true]
        rfl
      rw [Store.identityAt_of_read hread, hl, Store.identityAt_of_read ha, ← hid, ← htarget]
      rfl
  · rw [Store.identityAt, he.autoscaler?_of_ne hl, Store.identityAt]

end Within

end Edit

namespace World

variable {w : World} {key : String}

def withAutoscaler (w : World) (row : Option (String × Autoscaler)) : World :=
  { w with store := { w.store with autoscalers := w.store.autoscalers.writing row } }

def withTarget (w : World) (row : Option (String × Deployment)) : World :=
  { w with store := { w.store with deployments := w.store.deployments.writing row } }

theorem next_of_calm (h : w.pending = []) (sort : WriteSort) (key : String) :
    w.next sort key = (.nothing, w) := by
  rw [next, h]
  rfl

theorem writeTarget_of_calm (h : w.pending = []) {d : Deployment}
    (hread : w.store.deployment? key = .ok (some d)) (replicas : Count) :
    w.writeTarget key d.metadata.version replicas =
      (.ok (), w.withTarget (some (key, d.scaledTo replicas))) := by
  have hcheck : checkVersion key d.metadata.version d.metadata.version = .ok () :=
    checkVersion_eq_ok_iff.2 rfl
  have hupdate : w.store.updateReplicas key d.metadata.version replicas =
      .ok (d.scaledTo replicas, (w.withTarget (some (key, d.scaledTo replicas))).store) := by
    rw [Store.updateReplicas, Store.onDeployments, Table.update_of_read hread, hcheck]
    rfl
  rw [writeTarget, next_of_calm h]
  simp only [attempt, hupdate]
  rfl

theorem writeStatus_of_calm (h : w.pending = []) {a : Autoscaler}
    (hread : w.store.autoscaler? key = .ok (some a)) (status : AutoscalerStatus) :
    w.writeStatus key a.metadata.version status =
      (.ok (), w.withAutoscaler (some (key, a.publishing status))) := by
  have hcheck : checkVersion key a.metadata.version a.metadata.version = .ok () :=
    checkVersion_eq_ok_iff.2 rfl
  have hupdate : w.store.updateStatus key a.metadata.version status =
      .ok (a.publishing status, (w.withAutoscaler (some (key, a.publishing status))).store) := by
    rw [Store.updateStatus, Store.onAutoscalers, Table.update_of_read hread, hcheck]
    rfl
  rw [writeStatus, next_of_calm h]
  simp only [attempt, hupdate]
  rfl

end World

namespace Pass

variable {p : Pass} {w v : World} {s : Store} {a : Autoscaler} {target : Deployment} {d : Decision}
  {r : PassResult} {cause : EvaluationError}

/-- The autoscaler and the target that a pass decides about, or how the pass ends without them. -/
def load (p : Pass) (s : Store) : Except PassResult (Autoscaler × Deployment) :=
  match p.readAutoscaler s with
  | .loaded a => match readTarget a s with
    | .targeted a target => .ok (a, target)
    | stage => .error (result stage)
  | stage => .error (result stage)

theorem load_eq_ok_iff :
    p.load s = .ok (a, target) ↔
      (s.autoscaler? p.key = .ok (some a) ∧ a.metadata.isDeleting = false) ∧
        s.deployment? a.targetKey = .ok (some target) ∧ target.metadata.isDeleting = false := by
  constructor
  · intro h
    unfold load at h
    obtain ⟨r, hr, -⟩ | ⟨b, hread, hstays, hb⟩ := p.readAutoscaler_cases s
    · rw [hr] at h
      cases h
    · obtain ⟨r, hr, -⟩ | ⟨t, htarget, htstays, ht⟩ := readTarget_cases b s
      · simp only [hb, hr] at h
        cases h
      · simp only [hb, ht] at h
        cases h
        exact ⟨⟨hread, hstays⟩, htarget, htstays⟩
  · rintro ⟨⟨hread, hstays⟩, htarget, htstays⟩
    simp [load, readAutoscaler, readTarget, hread, hstays, htarget, htstays]

theorem steps_add (m n : Nat) (x : Stage × World) :
    p.steps (m + n) x = p.steps n (p.steps m x) := by
  induction m generalizing x with
  | zero => rw [Nat.zero_add, steps]
  | succ m ih =>
    rw [Nat.add_right_comm, steps, steps]
    exact ih _

theorem steps_finished (n : Nat) (r : PassResult) (w : World) :
    p.steps n (.finished r, w) = (.finished r, w) := by
  induction n with
  | zero => rfl
  | succ n ih => exact ih

theorem reconcile_of_steps {n : Nat} (h : p.steps n (.begun, w) = (.finished r, v))
    (hn : n ≤ length) : p.reconcile w = (r, v) := by
  have hlength : p.steps length (.begun, w) = (.finished r, v) := by
    rw [← Nat.add_sub_cancel' hn, steps_add, h, steps_finished]
  simp only [reconcile, hlength, result]

theorem steps_of_load (h : p.load w.store = .ok (a, target)) :
    p.steps 2 (.begun, w) = (.targeted a target, w) := by
  obtain ⟨⟨hread, hstays⟩, htarget, htstays⟩ := load_eq_ok_iff.1 h
  simp [steps, step, readAutoscaler, readTarget, hread, hstays, htarget, htstays]

theorem reconcile_of_not_loaded (h : p.load w.store = .error r) : p.reconcile w = (r, w) := by
  apply reconcile_of_steps (n := 2)
  · unfold load at h
    obtain ⟨q, hq, -⟩ | ⟨b, -, -, hb⟩ := p.readAutoscaler_cases w.store
    · simp only [hq, result] at h
      cases h
      simp only [steps, step, hq]
    · obtain ⟨q, hq, -⟩ | ⟨t, -, -, ht⟩ := readTarget_cases b w.store
      · simp only [hb, hq, result] at h
        cases h
        simp only [steps, step, hb, hq]
      · simp only [hb, ht] at h
        cases h
  · decide

theorem reconcile_of_undecided (h : p.load w.store = .ok (a, target))
    (hd : p.engine.decide a target (p.evaluate w.store target a) p.now = .error cause) :
    p.reconcile w = (.error (.evaluation p.key cause),
      (p.asking a w).record (failureEvent a cause p.now)) := by
  apply reconcile_of_steps (n := 3)
  · rw [steps_add 2 1, steps_of_load h]
    simp only [steps, step, decide_eq, hd]
  · decide

def carryOut (p : Pass) (a : Autoscaler) (target : Deployment) (d : Decision) (w : World) :
    PassResult × World :=
  let (stage, w) := p.steps 2 (.decided a target d, w)
  (result stage, w)

theorem reconcile_of_decided (h : p.load w.store = .ok (a, target))
    (hd : p.engine.decide a target (p.evaluate w.store target a) p.now = .ok d) :
    p.reconcile w = p.carryOut a target d (p.asking a w) := by
  have hthree : p.steps 3 (.begun, w) = (.decided a target d, p.asking a w) := by
    rw [steps_add 2 1, steps_of_load h]
    simp only [steps, step, decide_eq, hd]
  rw [reconcile, length, steps_add 3 2, hthree]
  rfl

theorem carryOut_of_scaled (h : p.scaleTarget a target d w = (.scaled a d, v)) :
    p.carryOut a target d w = (result (p.publish a d v).1, (p.publish a d v).2) := by
  simp only [carryOut, steps, step, h]

def edit (p : Pass) (a : Autoscaler) (target : Deployment) (d : Decision) (evaluations : Nat) :
    Edit where
  autoscaler := d.statusPatch.map fun status => (p.key, a.publishing status)
  target := d.targetPatch.map fun replicas => (a.targetKey, target.scaledTo replicas)
  event := d.targetPatch.map fun replicas => scaledEvent a target.replicas replicas p.now
  evaluations

theorem autoscaler?_edit (h : s.autoscaler? p.key = .ok (some a)) (target : Deployment)
    (d : Decision) (n : Nat) :
    ((p.edit a target d n).onStore s).autoscaler? p.key = .ok (some (d.left a)) := by
  unfold Edit.onStore edit Decision.left Store.autoscaler?
  cases d.statusPatch with
  | none => exact h
  | some status =>
    simp only [Option.map_some, Table.writing_some, Table.read?_insert_written, if_true]
    rfl

theorem deployment?_edit (h : s.deployment? a.targetKey = .ok (some target)) (p : Pass)
    (d : Decision) (n : Nat) :
    ((p.edit a target d n).onStore s).deployment? a.targetKey =
      .ok (some (d.leftTarget target)) := by
  unfold Edit.onStore edit Decision.leftTarget Store.deployment?
  cases d.targetPatch with
  | none => exact h
  | some replicas =>
    simp only [Option.map_some, Table.writing_some, Table.read?_insert_written, if_true]
    rfl

/-- The next pass loads what this one has left. -/
theorem load_edit (h : p.load s = .ok (a, target)) (d : Decision) (n : Nat) :
    p.load ((p.edit a target d n).onStore s) = .ok (d.left a, d.leftTarget target) := by
  obtain ⟨⟨hread, hstays⟩, htarget, htstays⟩ := load_eq_ok_iff.1 h
  refine load_eq_ok_iff.2 ⟨⟨autoscaler?_edit hread target d n, ?_⟩, ?_, ?_⟩
  · rw [Decision.isDeleting_left, hstays]
  · rw [Decision.targetKey_left]
    exact deployment?_edit htarget p d n
  · rw [Decision.isDeleting_leftTarget, htstays]

theorem publish_of_calm (h : w.pending = []) (hread : w.store.autoscaler? p.key = .ok (some a))
    (d : Decision) :
    p.publish a d w = (.finished (.ok (.applied d)),
      w.withAutoscaler (d.statusPatch.map fun status => (p.key, a.publishing status))) := by
  unfold publish
  cases d.statusPatch with
  | none => rfl
  | some status =>
    simp only [World.writeStatus_of_calm h hread]
    rfl

theorem carryOut_of_calm (h : w.pending = []) (hread : w.store.autoscaler? p.key = .ok (some a))
    (htarget : w.store.deployment? a.targetKey = .ok (some target)) (d : Decision) :
    p.carryOut a target d w = (.ok (.applied d), (p.edit a target d 0).onWorld w) := by
  cases hpatch : d.targetPatch with
  | none =>
    have hscale : p.scaleTarget a target d w = (.scaled a d, w) := by rw [scaleTarget, hpatch]
    rw [carryOut_of_scaled hscale, publish_of_calm h hread]
    simp only [result, edit, hpatch]
    rfl
  | some replicas =>
    let v := (w.withTarget (some (a.targetKey, target.scaledTo replicas))).record
      (scaledEvent a target.replicas replicas p.now)
    have hscale : p.scaleTarget a target d w = (.scaled a d, v) := by
      rw [scaleTarget, hpatch]
      simp only [World.writeTarget_of_calm h htarget replicas]
      rfl
    have hv : v.pending = [] := h
    rw [carryOut_of_scaled hscale, publish_of_calm hv hread]
    simp only [result, edit, hpatch]
    rfl

def evaluations (p : Pass) (a : Autoscaler) : Nat :=
  if (a.status.cached? p.now).isSome then 0 else 1

theorem onWorld_asking (e : Edit) (p : Pass) (a : Autoscaler) (w : World) :
    ({ e with evaluations := 0 } : Edit).onWorld (p.asking a w) =
      ({ e with evaluations := p.evaluations a } : Edit).onWorld w := by
  unfold asking evaluations
  split <;> rfl

/-- The result of a pass that nobody interferes with, and its edit. -/
def plan (p : Pass) (s : Store) : PassResult × Edit :=
  match p.load s with
  | .error r => (r, .none)
  | .ok (a, target) =>
    match p.engine.decide a target (p.evaluate s target a) p.now with
    | .error cause => (.error (.evaluation p.key cause),
        ⟨none, none, some (failureEvent a cause p.now), p.evaluations a⟩)
    | .ok d => (.ok (.applied d), p.edit a target d (p.evaluations a))

theorem plan_of_not_loaded (h : p.load s = .error r) : p.plan s = (r, .none) := by
  simp only [plan, h]

theorem plan_of_undecided (h : p.load s = .ok (a, target))
    (hd : p.engine.decide a target (p.evaluate s target a) p.now = .error cause) :
    p.plan s = (.error (.evaluation p.key cause),
      ⟨none, none, some (failureEvent a cause p.now), p.evaluations a⟩) := by
  simp only [plan, h, hd]

theorem plan_of_decided (h : p.load s = .ok (a, target))
    (hd : p.engine.decide a target (p.evaluate s target a) p.now = .ok d) :
    p.plan s = (.ok (.applied d), p.edit a target d (p.evaluations a)) := by
  simp only [plan, h, hd]

/-- Every plan: to end without a decision to carry out, or to carry one out. -/
theorem plan_cases (p : Pass) (s : Store) :
    (∃ r, p.load s = .error r ∧ p.plan s = (r, .none)) ∨
    (∃ a target cause, p.load s = .ok (a, target) ∧
      p.engine.decide a target (p.evaluate s target a) p.now = .error cause ∧
      p.plan s = (.error (.evaluation p.key cause),
        ⟨none, none, some (failureEvent a cause p.now), p.evaluations a⟩)) ∨
    ∃ a target d, p.load s = .ok (a, target) ∧
      p.engine.decide a target (p.evaluate s target a) p.now = .ok d ∧
      p.plan s = (.ok (.applied d), p.edit a target d (p.evaluations a)) := by
  cases hload : p.load s with
  | error r => exact .inl ⟨r, rfl, plan_of_not_loaded hload⟩
  | ok found =>
    obtain ⟨a, target⟩ := found
    cases hd : p.engine.decide a target (p.evaluate s target a) p.now with
    | error cause => exact .inr (.inl ⟨a, target, cause, rfl, hd, plan_of_undecided hload hd⟩)
    | ok d => exact .inr (.inr ⟨a, target, d, rfl, hd, plan_of_decided hload hd⟩)

/-- Where nobody interferes a pass does what it plans. -/
theorem reconcile_of_calm (h : w.pending = []) :
    p.reconcile w = ((p.plan w.store).1, (p.plan w.store).2.onWorld w) := by
  cases hload : p.load w.store with
  | error r =>
    rw [reconcile_of_not_loaded hload, plan_of_not_loaded hload]
    rfl
  | ok found =>
    obtain ⟨a, target⟩ := found
    cases hd : p.engine.decide a target (p.evaluate w.store target a) p.now with
    | error cause =>
      rw [reconcile_of_undecided hload hd, plan_of_undecided hload hd]
      exact congrArg _ (onWorld_asking ⟨none, none, some _, 0⟩ p a w)
    | ok d =>
      obtain ⟨⟨hread, -⟩, htarget, -⟩ := load_eq_ok_iff.1 hload
      have hcalm : (p.asking a w).pending = [] := by rw [pending_asking, h]
      have hout := carryOut_of_calm hcalm (by rw [store_asking]; exact hread)
        (by rw [store_asking]; exact htarget) d
      rw [reconcile_of_decided hload hd, plan_of_decided hload hd, hout]
      exact congrArg _ (onWorld_asking (p.edit a target d 0) p a w)

theorem within_plan (p : Pass) (s : Store) : (p.plan s).2.Within p.key s := by
  obtain ⟨r, -, hplan⟩ | ⟨a, target, cause, hload, -, hplan⟩ | ⟨a, target, d, hload, -, hplan⟩ :=
    p.plan_cases s
  · rw [hplan]
    exact Edit.within_none _ _
  · obtain ⟨⟨hread, -⟩, -, -⟩ := load_eq_ok_iff.1 hload
    rw [hplan]
    refine ⟨nofun, nofun, fun x hx => ⟨a, hread, ?_⟩⟩
    cases hx
    rfl
  · obtain ⟨⟨hread, -⟩, -, -⟩ := load_eq_ok_iff.1 hload
    rw [hplan]
    refine ⟨fun r hr => ?_, fun r hr => ?_, fun x hx => ?_⟩
    · obtain ⟨status, -, rfl⟩ := Option.map_eq_some_iff.1 hr
      exact ⟨rfl, a, hread, rfl, rfl⟩
    · obtain ⟨replicas, -, rfl⟩ := Option.map_eq_some_iff.1 hr
      exact ⟨a, hread, rfl⟩
    · obtain ⟨replicas, -, rfl⟩ := Option.map_eq_some_iff.1 hx
      exact ⟨a, hread, rfl⟩

theorem load_congr {s' : Store} (hread : s'.autoscaler? p.key = s.autoscaler? p.key)
    (htarget : ∀ a, s.autoscaler? p.key = .ok (some a) →
      s'.deployment? a.targetKey = s.deployment? a.targetKey) : p.load s' = p.load s := by
  unfold load
  have hstage : p.readAutoscaler s' = p.readAutoscaler s := by
    rw [readAutoscaler, readAutoscaler, hread]
  rw [hstage]
  obtain ⟨r, hr, -⟩ | ⟨a, ha, -, hstage⟩ := p.readAutoscaler_cases s
  · rw [hr]
  · have hsecond : readTarget a s' = readTarget a s := by
      rw [readTarget, readTarget, htarget a ha]
    simp only [hstage, hsecond]

end Pass

end RunnerFleet
