import RunnerFleet.Proofs.Reconcile.Step

/-!
# Passes under way

Any number of passes take their steps at one store, among the operations of other clients. Once a
deployment is marked for deletion, every pass that reads it is skipped. A pass that has read it
before writes to it exactly if the version that it has read stands again.
-/

namespace RunnerFleet

structure Flight where
  pass : Pass
  stage : Stage

structure Traffic where
  store : Store
  evaluations : Nat
  flights : List Flight

inductive Move where
  | operate (op : Store.Operation)
  | begin (p : Pass)
  | step (i : Nat)

namespace Traffic

def ofStore (s : Store) : Traffic := ⟨s, 0, []⟩

def world (t : Traffic) : World := ⟨t.store, [], t.evaluations⟩

def advance (t : Traffic) (i : Nat) (f : Flight) : Traffic :=
  let (stage, w) := f.pass.step f.stage t.world
  ⟨w.store, w.evaluations, t.flights.set i ⟨f.pass, stage⟩⟩

def act (t : Traffic) : Move → Traffic
  | .operate op => { t with store := t.store.after op }
  | .begin p => { t with flights := t.flights ++ [⟨p, .begun⟩] }
  | .step i => (t.flights[i]?).elim t (t.advance i)

def run (t : Traffic) (moves : List Move) : Traffic := moves.foldl act t

def stage? (t : Traffic) (i : Nat) : Option Stage := t.flights[i]?.map (·.stage)

def chosen? (t : Traffic) (i : Nat) : Option (Autoscaler × Deployment) :=
  (t.stage? i).bind Stage.chosen?

def asked (t : Traffic) : Move → List Store.Operation
  | .operate op => [op]
  | .begin _ => []
  | .step i => (t.flights[i]?).elim [] fun f => f.pass.asked f.stage t.store

def operations (t : Traffic) : List Move → List Store.Operation
  | [] => []
  | m :: moves => t.asked m ++ (t.act m).operations moves

def fate (t : Traffic) (key : String) (moves : List Move) : Store.Fate :=
  t.store.fate ⟨.deployment, key⟩ (t.operations moves)

/-- The next step of the flight gives the deployment another replica count. -/
def Rescales (t : Traffic) (i : Nat) (key : String) : Prop :=
  (t.act (.step i)).store.replicasAt key ≠ t.store.replicasAt key

/-- The next step of the flight reads its target, and finds this one. -/
def Reads (t : Traffic) (i : Nat) (a : Autoscaler) (target : Deployment) : Prop :=
  t.stage? i = some (.loaded a) ∧ t.store.deployment? a.targetKey = .ok (some target) ∧
    target.metadata.isDeleting = false

/-- The next step of the flight ends its pass without a call of the evaluator or a write. -/
def Skips (t : Traffic) (i : Nat) : Prop :=
  let next := t.act (.step i)
  next.store = t.store ∧ next.evaluations = t.evaluations ∧
    ∀ moves, (next.run moves).stage? i = some (.finished (.ok (.skipped .targetDeleting)))

variable {t : Traffic} {i : Nat} {m : Move} {stage : Stage} {a : Autoscaler} {target : Deployment}

theorem store_act (t : Traffic) (m : Move) : (t.act m).store = t.store.run (t.asked m) := by
  cases m with
  | operate op | begin p => rfl
  | step i =>
    simp only [act, asked]
    cases t.flights[i]? with
    | none => rfl
    | some f => exact f.pass.store_step (w := t.world) f.stage rfl

theorem store_run (t : Traffic) (moves : List Move) :
    (t.run moves).store = t.store.run (t.operations moves) := by
  induction moves generalizing t with
  | nil => rfl
  | cons m moves ih =>
    rw [operations, Store.run_append, ← store_act]
    exact ih (t.act m)

theorem run_append (t : Traffic) (moves moves' : List Move) :
    t.run (moves ++ moves') = (t.run moves).run moves' :=
  List.foldl_append

theorem operations_append (t : Traffic) (moves moves' : List Move) :
    t.operations (moves ++ moves') = t.operations moves ++ (t.run moves).operations moves' := by
  induction moves generalizing t with
  | nil => rfl
  | cons m moves ih =>
    rw [List.cons_append, operations, operations, ih, List.append_assoc]
    rfl

theorem stage?_begin (t : Traffic) (p : Pass) (i : Nat) :
    (t.act (.begin p)).stage? i = if i = t.flights.length then some .begun else t.stage? i := by
  simp only [act, stage?, List.getElem?_append]
  by_cases hlt : i < t.flights.length
  · rw [if_pos hlt, if_neg hlt.ne]
  · by_cases heq : i = t.flights.length
    · simp [heq]
    · have hout : [Flight.mk p .begun].length ≤ i - t.flights.length :=
        Nat.le_sub_of_add_le (by rw [List.length_singleton]; omega)
      rw [if_neg hlt, if_neg heq, List.getElem?_eq_none hout,
        List.getElem?_eq_none (Nat.le_of_not_lt hlt)]

theorem stage?_step_self {f : Flight} (h : t.flights[i]? = some f) :
    (t.act (.step i)).stage? i = some (f.pass.step f.stage t.world).1 := by
  have hlt := (List.getElem?_eq_some_iff.1 h).1
  simp only [act, h, Option.elim, stage?, advance, List.getElem?_set_self hlt, Option.map_some]

theorem stage?_step_of_ne {j : Nat} (h : j ≠ i) : (t.act (.step j)).stage? i = t.stage? i := by
  simp only [act]
  cases t.flights[j]? with
  | none => rfl
  | some f => simp only [Option.elim, advance, stage?, List.getElem?_set_ne h]

theorem stage?_finished {r : PassResult} (h : t.stage? i = some (.finished r))
    (moves : List Move) : (t.run moves).stage? i = some (.finished r) := by
  induction moves generalizing t with
  | nil => exact h
  | cons m moves ih =>
    refine ih ?_
    obtain ⟨f, hf, hstage⟩ := Option.map_eq_some_iff.1 h
    cases m with
    | operate op => exact h
    | begin p =>
      have hlt := (List.getElem?_eq_some_iff.1 hf).1
      rw [stage?_begin, if_neg hlt.ne]
      exact h
    | step j =>
      by_cases hj : j = i
      · subst hj
        rw [stage?_step_self hf, hstage]
        rfl
      · exact (stage?_step_of_ne hj).trans h

theorem chosen?_act (h : (t.act m).chosen? i = some (a, target)) :
    t.chosen? i = some (a, target) ∨ m = .step i ∧ t.Reads i a target := by
  unfold chosen? at h ⊢
  cases m with
  | operate op => exact .inl h
  | begin p =>
    rw [stage?_begin] at h
    split at h
    · cases h
    · exact .inl h
  | step j =>
    by_cases hj : j = i
    · subst hj
      cases hf : t.flights[j]? with
      | none =>
        simp only [act, hf, Option.elim] at h
        exact .inl h
      | some f =>
        have hstage : t.stage? j = some f.stage := by rw [stage?, hf]; rfl
        rw [stage?_step_self hf] at h
        rw [hstage]
        obtain hsame | ⟨hloaded, hread⟩ := Pass.chosen?_step h
        · exact .inl hsame
        · exact .inr ⟨rfl, hstage.trans (congrArg some hloaded), hread⟩
    · rw [stage?_step_of_ne hj] at h
      exact .inl h

/-- A flight that is about to write to its target was so from the start, or it has read the target
by one of the moves. -/
theorem chosen?_run {moves : List Move} (h : (t.run moves).chosen? i = some (a, target)) :
    t.chosen? i = some (a, target) ∨
      ∃ earlier since, moves = earlier ++ .step i :: since ∧ (t.run earlier).Reads i a target := by
  induction moves generalizing t with
  | nil => exact .inl h
  | cons m moves ih =>
    obtain hstart | ⟨earlier, since, rfl, hreads⟩ := ih h
    · obtain hsame | ⟨rfl, hreads⟩ := chosen?_act hstart
      · exact .inl hsame
      · exact .inr ⟨[], moves, rfl, hreads⟩
    · exact .inr ⟨m :: earlier, since, rfl, hreads⟩

theorem not_replaces_of_operations {key : String} {moves : List Move}
    (kept : ∀ op, .operate op ∈ moves → ¬ op.Replaces key) :
    ∀ op ∈ t.operations moves, ¬ op.Replaces key := by
  induction moves generalizing t with
  | nil => exact fun op hop => nomatch hop
  | cons m moves ih =>
    intro op hop
    obtain hm | hrest := List.mem_append.1 hop
    · cases m with
      | operate op' =>
        obtain rfl := List.mem_singleton.1 hm
        exact kept _ List.mem_cons_self
      | begin p => cases hm
      | step j =>
        unfold asked at hm
        cases hf : t.flights[j]? with
        | none =>
          simp only [hf, Option.elim] at hm
          cases hm
        | some f =>
          simp only [hf, Option.elim] at hm
          exact Pass.not_replaces_of_asked hm key
    · exact ih (fun op hop => kept op (List.mem_cons_of_mem _ hop)) op hrest

theorem isMarked_run {key : String} (h : t.store.IsMarked key) (moves : List Move)
    (kept : ∀ op, .operate op ∈ moves → ¬ op.Replaces key) : (t.run moves).store.IsMarked key := by
  rw [store_run]
  exact h.run (not_replaces_of_operations kept)

theorem skips_of_isMarked (h : t.store.IsMarked a.targetKey)
    (hstage : t.stage? i = some (.loaded a)) : t.Skips i := by
  obtain ⟨d, hread, hmarked⟩ := h
  obtain ⟨f, hf, hloaded⟩ := Option.map_eq_some_iff.1 hstage
  have hstep : f.pass.step f.stage t.world =
      (.finished (.ok (.skipped .targetDeleting)), t.world) := by
    simp only [hloaded, Pass.step, Pass.readTarget, world, hread, hmarked, if_true]
  have hnext : (t.act (.step i)).stage? i = some (.finished (.ok (.skipped .targetDeleting))) := by
    rw [stage?_step_self hf, hstep]
  have hadvance : t.act (.step i) = t.advance i f := by
    simp only [act, hf, Option.elim]
  refine ⟨?_, ?_, stage?_finished hnext⟩
  · rw [hadvance, advance, hstep]
    rfl
  · rw [hadvance, advance, hstep]
    rfl

theorem rescales_iff (key : String) :
    t.Rescales i key ↔
      ∃ a target d replicas, t.stage? i = some (.decided a target d) ∧ a.targetKey = key ∧
        d.targetPatch = some replicas ∧ t.store.replicasAt key ≠ .ok (some (some replicas)) ∧
        t.store.versionAt ⟨.deployment, key⟩ = .ok (some target.metadata.version) := by
  unfold Rescales
  rw [store_act]
  cases hf : t.flights[i]? with
  | none => simp [asked, stage?, hf, Store.run]
  | some f =>
    simp only [asked, stage?, hf, Option.elim, Option.map_some, Option.some.injEq]
    exact Pass.replicasAt_asked_ne_iff f.pass f.stage t.store key

/-- The version of a target since a flight has read it. -/
theorem versionAt_since_read (h : t.Reads i a target) (moves : List Move) :
    (t.run moves).store.versionAt ⟨.deployment, a.targetKey⟩ =
      .ok ((t.fate a.targetKey moves).version? target.metadata.version) := by
  have hstart : (Store.Fate.kept 0).version? target.metadata.version =
      some target.metadata.version := (Store.Fate.version?_eq_read_iff _ _).2 (.inl rfl)
  rw [store_run]
  refine Store.versionAt_run _ ?_
  rw [hstart]
  exact Store.versionAt_of_deployment? h.2.1

/-- A deployment that is marked among moves has been written since any move before the mark. -/
theorem fate_ne_kept_zero {key : String} {now : Seconds} {since : List Move}
    (marked : ((t.run since).store.perform (.markDeployment key now)).isOk) (after : List Move) :
    t.fate key (since ++ .operate (.markDeployment key now) :: after) ≠ .kept 0 := by
  have hwrite : (t.run since).store.effectOn ⟨.deployment, key⟩ (.markDeployment key now) =
      .write := by
    unfold Store.effectOn
    rw [if_neg (by exact nofun), if_pos ⟨rfl, marked⟩]
  rw [fate, Store.fate, operations_append, operations, Store.fateFrom_append, ← store_run]
  simp only [asked, List.singleton_append, Store.fateFrom, hwrite]
  refine Store.fateFrom_ne_kept_zero ?_ _
  generalize Store.fateFrom _ _ _ _ = f
  cases f <;> simp [Store.Fate.next]

/-- A mark for deletion stays, among all passes and operations, until the deployment is put or
deleted, and whatever pass reads the target meanwhile is skipped. Only a flight that read the target
before the mark can still scale it, and does so exactly if the version that it read stands again. -/
theorem marked_rescales_iff (s : Store) (before after : List Move) {key : String} {now : Seconds}
    (marked : (((ofStore s).run before).store.perform (.markDeployment key now)).isOk)
    (kept : ∀ op, .operate op ∈ after → ¬ op.Replaces key) :
    let mark := Move.operate (.markDeployment key now)
    let t := (ofStore s).run (before ++ mark :: after)
    t.store.IsMarked key ∧
      (∀ i a, t.stage? i = some (.loaded a) → a.targetKey = key → t.Skips i) ∧
      ∀ i, t.Rescales i key ↔
        ∃ a target d replicas, t.stage? i = some (.decided a target d) ∧ a.targetKey = key ∧
          d.targetPatch = some replicas ∧ t.store.replicasAt key ≠ .ok (some (some replicas)) ∧
          ∃ earlier since, before = earlier ++ .step i :: since ∧
            ((ofStore s).run earlier).Reads i a target ∧
            (((ofStore s).run earlier).fate key (.step i :: since ++ mark :: after)).Recurs
              target.metadata.version := by
  intro mark t
  have hrun : t = (((ofStore s).run before).act mark).run after := run_append _ _ _
  have hmark : (((ofStore s).run before).act mark).store.IsMarked key :=
    Store.isMarked_after_mark marked
  have hmarked : t.store.IsMarked key := hrun ▸ isMarked_run hmark after kept
  -- the version of the target now, by what has happened since a flight has read it
  have hversion : ∀ {i a target earlier since}, before = earlier ++ .step i :: since →
      ((ofStore s).run earlier).Reads i a target →
      t.store.versionAt ⟨.deployment, a.targetKey⟩ =
        .ok ((((ofStore s).run earlier).fate a.targetKey
          (.step i :: since ++ mark :: after)).version? target.metadata.version) := by
    intro i a target earlier since hbefore hreads
    rw [← versionAt_since_read hreads, ← run_append, ← List.append_assoc, ← hbefore]
  refine ⟨hmarked, fun i a hstage hkey => skips_of_isMarked (hkey ▸ hmarked) hstage, fun i => ?_⟩
  rw [rescales_iff]
  constructor
  · rintro ⟨a, target, d, replicas, hstage, rfl, hpatch, hne, hcurrent⟩
    refine ⟨a, target, d, replicas, hstage, rfl, hpatch, hne, ?_⟩
    have hchosen : t.chosen? i = some (a, target) := by
      rw [chosen?, hstage]
      rfl
    rw [hrun] at hchosen
    obtain hearly | ⟨earlier, since, rfl, hreads⟩ := chosen?_run hchosen
    · obtain hstart | ⟨earlier, since, hbefore, hreads⟩ := chosen?_run (t := ofStore s) hearly
      · cases hstart
      · refine ⟨earlier, since, hbefore, hreads, ?_⟩
        rw [hversion hbefore hreads, Except.ok.injEq] at hcurrent
        refine ((Store.Fate.version?_eq_read_iff _ _).1 hcurrent).resolve_left ?_
        rw [hbefore, run_append] at marked
        exact fate_ne_kept_zero marked after
    · obtain ⟨found, hfound, hdeleting⟩ := isMarked_run hmark earlier
        fun op hop => kept op (List.mem_append_left _ hop)
      obtain ⟨-, hread, hstays⟩ := hreads
      cases hread.symm.trans hfound
      exact absurd hdeleting (by rw [hstays]; exact Bool.false_ne_true)
  · rintro ⟨a, target, d, replicas, hstage, rfl, hpatch, hne, earlier, since, hbefore, hreads,
      hrecurs⟩
    refine ⟨a, target, d, replicas, hstage, rfl, hpatch, hne, ?_⟩
    rw [hversion hbefore hreads, Except.ok.injEq]
    exact (Store.Fate.version?_eq_read_iff _ _).2 (.inr hrecurs)

def scaledOnce : Store :=
  Store.empty.run
    [.createDeployment ⟨.fresh "ci" "runners", .empty⟩,
     .createAutoscaler
      ⟨.fresh "ci" "builds", ⟨"runners", none, none, none, [.workflowRuns], []⟩, .empty⟩,
     .updateReplicas "ci/runners" 1 2]

def fiveNeeded : Pass where
  key := "ci/builds"
  now := 100
  engine := ⟨.ofSeconds 60, .ofSeconds 600⟩
  evaluate _ _ _ := .ok 5

/-- A pass decides, and then the target is deleted and put back. -/
def rebirth : List Move :=
  [.begin fiveNeeded, .step 0, .step 0, .step 0, .operate (.deleteDeployment "ci/runners"),
   .operate (.putDeployment ⟨.fresh "ci" "runners", .empty⟩)]

/-- Of two passes, the one that reads the new target is skipped, and the one that had decided on the
old one scales it. -/
theorem marked_rescales_rebirth :
    let t := (ofStore scaledOnce).run (rebirth ++ .operate (.markDeployment "ci/runners" 150) ::
      [.begin fiveNeeded, .step 1])
    t.store.IsMarked "ci/runners" ∧ t.Skips 1 ∧ t.Rescales 0 "ci/runners" := by
  intro t
  have marked : (((ofStore scaledOnce).run rebirth).store.perform
      (.markDeployment "ci/runners" 150)).isOk := by decide +kernel
  have kept : ∀ op, Move.operate op ∈ [Move.begin fiveNeeded, .step 1] →
      ¬ op.Replaces "ci/runners" := by
    intro op hop
    simp at hop
  obtain ⟨hmarked, hskips, hrescales⟩ := marked_rescales_iff scaledOnce rebirth _ marked kept
  refine ⟨hmarked, ?_, (hrescales 0).2 ?_⟩
  · obtain ⟨a, hstage, hkey⟩ : ∃ a, t.stage? 1 = some (.loaded a) ∧ a.targetKey = "ci/runners" :=
      ⟨_, rfl, by decide +kernel⟩
    exact hskips 1 a hstage hkey
  · refine ⟨_, _, _, 5, rfl, ?_, ?_, ?_, [.begin fiveNeeded, .step 0], _, rfl, ⟨rfl, rfl, ?_⟩, ?_⟩
    all_goals decide +kernel

/-- A deployment that is pending deletion is scaled by a pass that has read an earlier one. -/
theorem not_unscaled_rebirth :
    let before := (ofStore scaledOnce).run rebirth
    (before.store.perform (.markDeployment "ci/runners" 150)).isOk ∧
      (before.act (.operate (.markDeployment "ci/runners" 150))).Rescales 0 "ci/runners" := by
  refine ⟨by decide +kernel, ?_⟩
  unfold Rescales
  decide +kernel

end Traffic

end RunnerFleet
