import RunnerFleet.Proofs.Operator.Terms
import RunnerFleet.Proofs.Reconcile.Effect
import RunnerFleet.Scenario

/-!
# What commands refuse

A command checks its arguments and what it finds stored before it writes. So one that fails has
changed nothing, except that a manifest which is in order is stored up to the first row that cannot
be read, and only rows from outside cannot be. Demand that is recorded by commands alone therefore
always passes their checks, also long after the deployment that it names is gone.
-/

namespace RunnerFleet

inductive Request where
  | apply (text : String)
  | reserve (key : String) (replicas : Count) (length : String) (now : Seconds)
  | demand (key : String) (counts : DemandCounts) (now : Seconds)
  | status (key : String)
  deriving DecidableEq, Repr

namespace Request

def run : Request → Store → Ran
  | apply text => Command.apply text
  | reserve key replicas length now => Command.reserve key replicas length now
  | demand key counts now => Command.demand key counts now
  | status key => Command.status key

/-- What a command asks of its arguments and of the store. -/
def Admissible (s : Store) : Request → Prop
  | apply text => ∃ m, Manifest.read text = .ok m ∧ m.Readable s
  | reserve key _ length _ => isObjectReference key = true ∧
      (∃ d, Duration.parse? length = some d ∧ d.isZero = false) ∧
      ∃ a, s.autoscaler? key = .ok (some a)
  | demand key counts _ => isObjectReference key = true ∧ counts.busy ≤ counts.registered ∧
      ∃ d, s.deployment? key = .ok (some d)
  | status key => isObjectReference key = true ∧ (∃ a, s.autoscaler? key = .ok (some a)) ∧
      ∃ events, s.eventsOf key = .ok events

end Request

namespace Command

variable {s : Store} {key : String}

theorem fst_isOk_iff {r : Ran} : (∃ output, r.1 = .ok output) ↔ ∃ output s', r = (.ok output, s') := by
  constructor
  · rintro ⟨output, h⟩
    exact ⟨output, r.2, Prod.ext h rfl⟩
  · rintro ⟨output, s', rfl⟩
    exact ⟨output, rfl⟩

theorem addReservation_isOk_iff {r : Reservation} {now : Seconds} :
    (∃ x, s.addReservation key r now = .ok x) ↔ ∃ a, s.autoscaler? key = .ok (some a) := by
  constructor
  · rintro ⟨⟨b, s'⟩, h⟩
    obtain ⟨t, ht, -⟩ := Store.onAutoscalers_eq_ok h
    obtain ⟨a, -, hread, -⟩ := Table.update_eq_ok ht
    exact ⟨a, hread⟩
  · rintro ⟨a, hread⟩
    rw [Store.addReservation, Store.onAutoscalers, Table.update_of_read hread]
    exact ⟨_, rfl⟩

theorem reserve_isOk_iff {replicas : Count} {length : String} {now : Seconds} :
    (∃ output, (reserve key replicas length now s).1 = .ok output) ↔
      (Request.reserve key replicas length now).Admissible s := by
  simp only [fst_isOk_iff, reserve_eq_ok_iff, Request.Admissible]
  constructor
  · rintro ⟨output, s', hkey, d, hlength, b, hadd, -⟩
    exact ⟨hkey, ⟨d, hlength⟩, addReservation_isOk_iff.1 ⟨_, hadd⟩⟩
  · rintro ⟨hkey, ⟨d, hlength⟩, hread⟩
    obtain ⟨⟨b, s'⟩, hadd⟩ := addReservation_isOk_iff.2 hread
    exact ⟨_, s', hkey, d, hlength, b, hadd, rfl⟩

/-- A demand command that does not fail has made all its checks, and records what it was given. -/
theorem demand_eq_ok {counts : DemandCounts} {now : Seconds} {output : String}
    (h : (demand key counts now s).1 = .ok output) :
    (Request.demand key counts now).Admissible s ∧
      (demand key counts now s).2 = s.putDemand (counts.seenAt key now) := by
  obtain ⟨hkey, hbusy, hread, -, hwritten⟩ := demand_eq_ok_iff.1 (Prod.ext h rfl)
  exact ⟨⟨hkey, hbusy, hread⟩, hwritten⟩

theorem demand_isOk_iff {counts : DemandCounts} {now : Seconds} :
    (∃ output, (demand key counts now s).1 = .ok output) ↔
      (Request.demand key counts now).Admissible s := by
  constructor
  · rintro ⟨output, h⟩
    exact (demand_eq_ok h).1
  · rintro ⟨hkey, hbusy, hread⟩
    exact ⟨_, congrArg Prod.fst (demand_eq_ok_iff.2 ⟨hkey, hbusy, hread, rfl, rfl⟩)⟩

theorem status_isOk_iff :
    (∃ output, (status key s).1 = .ok output) ↔ (Request.status key).Admissible s := by
  simp only [fst_isOk_iff, status_eq_ok_iff, Request.Admissible]
  constructor
  · rintro ⟨output, s', hkey, a, listed, hread, hlisted, -⟩
    exact ⟨hkey, ⟨a, hread⟩, listed, hlisted⟩
  · rintro ⟨hkey, ⟨a, hread⟩, listed, hlisted⟩
    exact ⟨_, s, hkey, a, listed, hread, hlisted, rfl, rfl⟩

theorem apply_isOk_iff_admissible {text : String} :
    (∃ output, (apply text s).1 = .ok output) ↔ (Request.apply text).Admissible s := by
  cases hm : Manifest.read text with
  | error e => simp [apply, Request.Admissible, hm]
  | ok m =>
    rw [Request.Admissible]
    simp only [hm, Except.ok.injEq, exists_eq_left', ← apply_isOk_iff hm s]
    constructor
    · rintro ⟨output, h⟩
      rw [apply_of_read hm] at h ⊢
      obtain ⟨_, happly, -⟩ := Except.map_eq_ok_iff.1 h
      exact Except.map_eq_ok_iff.2 ⟨_, happly, rfl⟩
    · intro h
      exact ⟨_, h⟩

end Command

namespace Request

variable {s : Store} {q : Request} {e : CommandError}

theorem isOk_iff : (∃ output, (q.run s).1 = .ok output) ↔ q.Admissible s := by
  cases q with
  | apply text => exact Command.apply_isOk_iff_admissible
  | reserve key replicas length now => exact Command.reserve_isOk_iff
  | demand key counts now => exact Command.demand_isOk_iff
  | status key => exact Command.status_isOk_iff

/-- Only a manifest that is in order can have stored something before it fails. -/
theorem snd_run_of_error (h : (q.run s).1 = .error e) :
    (q.run s).2 = s ∨ ∃ text m, q = .apply text ∧ Manifest.read text = .ok m ∧ ¬ m.Readable s := by
  cases q with
  | apply text =>
    cases hm : Manifest.read text with
    | error cause =>
      left
      rw [run, Command.apply, hm]
    | ok m =>
      refine .inr ⟨text, m, rfl, hm, fun hreadable => ?_⟩
      rw [run, (Command.apply_isOk_iff hm s).2 hreadable] at h
      cases h
  | reserve key replicas length now => exact .inl (Command.snd_reserve_of_error h)
  | demand key counts now => exact .inl (Command.snd_demand_of_error h)
  | status key => exact .inl (Command.snd_status_of_error h)

/-- Rows that the store has written itself can all be read. -/
theorem snd_run_of_ownRows (own : s.OwnRows) (h : (q.run s).1 = .error e) : (q.run s).2 = s := by
  obtain hsame | ⟨text, m, -, -, hunreadable⟩ := snd_run_of_error h
  · exact hsame
  · exact absurd ⟨fun d _ => own.deployments.read? d.key, fun a _ => own.autoscalers.read? a.key⟩
      hunreadable

end Request

/-! ## Who writes demand -/

/-- The other writers of a pass write neither demand nor events. -/
theorem Pass.spares_others (p : Pass) (w : World) :
    (p.others w).demand = w.store.demand ∧ (p.others w).events = w.store.events := by
  have hat : ∀ n, (p.othersAt w n).demand = w.store.demand ∧
      (p.othersAt w n).events = w.store.events := by
    intro n
    induction n with
    | zero => exact ⟨rfl, rfl⟩
    | succ n ih =>
      rw [othersAt_succ]
      unfold meanwhile
      split
      · split <;> exact ih
      · split <;> exact ih
      · exact ih
  exact hat length

theorem Pass.demand_reconcile (p : Pass) (w : World) :
    (p.reconcile w).2.store.demand = w.store.demand :=
  (p.demand_after w).trans (p.spares_others w).1

/-- Applying a manifest writes neither demand nor events. -/
theorem Command.spares_apply (text : String) (s : Store) :
    (apply text s).2.demand = s.demand ∧ (apply text s).2.events = s.events := by
  refine apply_preserves (P := fun s' => s'.demand = s.demand ∧ s'.events = s.events) ?_ ?_
    ⟨rfl, rfl⟩ text
  · intro s₁ d s₂ hs h
    obtain ⟨d', rfl⟩ := Manifest.applyDeployment_eq_ok h
    exact hs
  · intro s₁ a s₂ hs h
    obtain ⟨found, b, -, -, rfl⟩ := Manifest.applyAutoscaler_eq_ok h
    exact hs

namespace Scenario

/-- The step writes the table of demand past the command for it. -/
def Step.bypasses : Step → Bool
  | .operate (.putDemand _) => true
  | .overwrite .demand _ _ => true
  | _ => false

def run (c : Scenario) (steps : List Step) : Scenario := steps.foldl (fun c x => (c.play x).2) c

theorem run_append_singleton (c : Scenario) (steps : List Step) (x : Step) :
    c.run (steps ++ [x]) = ((c.run steps).play x).2 := List.foldl_append

/-- Among the steps a command has recorded the demand, for a deployment that was there then. -/
def Records (c : Scenario) (steps : List Step) (key : String) (d : Demand) : Prop :=
  ∃ before counts now later target, steps = before ++ .demand key counts now :: later ∧
    counts.busy ≤ counts.registered ∧
    (c.run before).world.store.deployment? key = .ok (some target) ∧ d = counts.seenAt key now

variable {c : Scenario} {x : Step} {steps : List Step} {key : String} {d : Demand}

theorem Records.append_singleton (h : c.Records steps key d) (x : Step) :
    c.Records (steps ++ [x]) key d := by
  obtain ⟨before, counts, now, later, target, rfl, h⟩ := h
  exact ⟨before, counts, now, later ++ [x], target, by simp, h⟩

theorem demand_sync {evaluate : Evaluator} {controller : Controller} {now : Seconds} {w : World}
    {backoff : Table Backoff} {t : Tally}
    (h : controller.sync evaluate now w backoff = .ok t) :
    t.world.store.demand = w.store.demand :=
  Controller.sync_preserves (P := fun v => v.store.demand = w.store.demand)
    (fun p v hv => (p.demand_reconcile v).trans hv) h rfl

/-- A step leaves the recorded demand alone, or it is a command that records more. -/
theorem demand_play (hx : x.bypasses = false) :
    (c.play x).2.world.store.demand = c.world.store.demand ∨
      ∃ key counts now target, x = .demand key counts now ∧ counts.busy ≤ counts.registered ∧
        c.world.store.deployment? key = .ok (some target) ∧
        (c.play x).2.world.store.demand =
          c.world.store.demand.insert key (.written (counts.seenAt key now)) := by
  cases x with
  | operate op =>
    unfold play
    dsimp only
    split
    · next answer s hop =>
      cases Store.performed_of_perform hop with
      | tookDemand => cases hx
      | wroteAutoscaler | wroteDeployment | deletedAutoscaler | deletedDeployment | recorded
      | looked => exact .inl rfl
    · exact .inl rfl
  | script key answer => cases answer <;> exact .inl rfl
  | interfere sort key is => exact .inl rfl
  | reconcile key now clock => exact .inl (Pass.demand_reconcile _ c.world)
  | sync now clock =>
    unfold play
    dsimp only
    split
    · exact .inl rfl
    · next t hsync => exact .inl (demand_sync hsync)
  | apply text => exact .inl (Command.spares_apply text c.world.store).1
  | reserve key replicas length now =>
    left
    obtain ⟨e, heq⟩ | ⟨d, a, -, -, heq⟩ :=
      Command.reserve_cases key replicas length now c.world.store
    · simp only [play, command, heq, withStore]
    · simp only [play, command, heq, withStore]
  | demand key counts now =>
    cases hran : (Command.demand key counts now c.world.store).1 with
    | error e =>
      have hsame := Command.snd_demand_of_error hran
      exact .inl (congrArg Store.demand hsame)
    | ok output =>
      obtain ⟨⟨-, hbusy, target, hread⟩, hput⟩ := Command.demand_eq_ok hran
      exact .inr ⟨key, counts, now, target, rfl, hbusy, hread, congrArg Store.demand hput⟩
  | status key => exact .inl (congrArg Store.demand (Command.status_snd key c.world.store))
  | reopen =>
    unfold play
    dsimp only
    split <;> exact .inl rfl
  | overwrite table key text =>
    unfold play
    dsimp only
    split
    · exact .inl rfl
    · cases table with
      | demand => cases hx
      | autoscalers | deployments | events => exact .inl rfl

/-- What is recorded without any bypass was recorded by a command. -/
theorem records_run (hnone : c.world.store.demand = .empty)
    (hsteps : ∀ x ∈ steps, x.bypasses = false) {row : Row Demand}
    (h : (c.run steps).world.store.demand.get? key = some row) :
    ∃ d, row = .written d ∧ c.Records steps key d := by
  induction steps using List.reverseRecOn with
  | nil =>
    change c.world.store.demand.get? key = some row at h
    rw [hnone] at h
    cases h
  | append_singleton steps x ih =>
    rw [run_append_singleton] at h
    have hbefore : ∀ y ∈ steps, y.bypasses = false := fun y hy => hsteps y (by simp [hy])
    obtain hsame | ⟨k, counts, now, target, rfl, hbusy, hread, hput⟩ :=
      demand_play (c := c.run steps) (hsteps x (by simp))
    · rw [hsame] at h
      obtain ⟨d, hrow, hrecords⟩ := ih hbefore h
      exact ⟨d, hrow, hrecords.append_singleton x⟩
    · rw [hput, Table.get?_insert] at h
      split at h
      · next hk =>
        subst hk
        cases h
        exact ⟨_, rfl, steps, counts, now, [], target, rfl, hbusy, hread, rfl⟩
      · obtain ⟨d, hrow, hrecords⟩ := ih hbefore h
        exact ⟨d, hrow, hrecords.append_singleton _⟩

/-- A command succeeds exactly if what it asks for holds, and otherwise leaves every table alone; a
manifest that is in order fails only at a row from outside. A demand command that succeeds records
what it was given. And in every run in which demand is recorded by commands alone, whatever else
happens, all recorded demand passes the checks of the command: no more runners are busy than
registered, and it stands under the key of a deployment that was there when it was recorded. -/
theorem checked_before_written (s : Store) (q : Request) (backend : Backend) (settings : Settings)
    {steps : List Step} (hsteps : ∀ x ∈ steps, x.bypasses = false) :
    ((∃ output, (q.run s).1 = .ok output) ↔ q.Admissible s) ∧
    (∀ e, (q.run s).1 = .error e → (q.run s).2 = s ∨
      ∃ text m, q = .apply text ∧ Manifest.read text = .ok m ∧ ¬ m.Readable s) ∧
    (s.OwnRows → ∀ e, (q.run s).1 = .error e → (q.run s).2 = s) ∧
    (∀ key counts now, q = .demand key counts now → q.Admissible s →
      (q.run s).2 = s.putDemand (counts.seenAt key now)) ∧
    ∀ key row, ((start backend settings).run steps).world.store.demand.get? key = some row →
      ∃ d, row.read = .ok d ∧ d.deploymentKey = key ∧ d.busyRunners ≤ d.registeredRunners ∧
        (start backend settings).Records steps key d := by
  refine ⟨Request.isOk_iff, fun e h => Request.snd_run_of_error h,
    fun own e h => Request.snd_run_of_ownRows own h, fun key counts now hq h => ?_,
    fun key row hrow => ?_⟩
  · subst hq
    obtain ⟨output, hok⟩ := Command.demand_isOk_iff.2 h
    exact (Command.demand_eq_ok hok).2
  · obtain ⟨d, rfl, hrecords⟩ := records_run (c := start backend settings) rfl hsteps hrow
    have hd := hrecords
    obtain ⟨-, counts, now, -, -, -, hbusy, -, rfl⟩ := hd
    exact ⟨_, rfl, rfl, hbusy, hrecords⟩

def outlived : List Step :=
  [.operate (.createDeployment ⟨.fresh "ci" "linux", .empty⟩),
   .demand "ci/linux" ⟨4, 2, 1, 3⟩ 500,
   .demand "ci/linux" ⟨9, 0, 2, 1⟩ 600,
   .operate (.deleteDeployment "ci/linux"),
   .sync 700 700]

/-- Without the deployment the same command is refused, and nothing changes. -/
theorem checked_before_written_outlived :
    let s := ((start .disk .default).run outlived).world.store
    let q : Request := .demand "ci/linux" ⟨4, 2, 1, 3⟩ 800
    (q.run s).1 = .error (.noDeployment "ci/linux") ∧ (q.run s).2 = s ∧ ¬ q.Admissible s ∧
      s.demand? "ci/linux" = .ok (some ⟨"ci/linux", 4, 2, 1, 3, 500⟩) ∧
      (start .disk .default).Records outlived "ci/linux" ⟨"ci/linux", 4, 2, 1, 3, 500⟩ := by
  intro s q
  have hrefused : (q.run s).1 = .error (.noDeployment "ci/linux") := by decide +kernel
  have hrow : s.demand.get? "ci/linux" = some (.written ⟨"ci/linux", 4, 2, 1, 3, 500⟩) := by
    decide +kernel
  have hsteps : ∀ x ∈ outlived, x.bypasses = false := by decide
  obtain ⟨hok, hsame, -, -, hrecords⟩ := checked_before_written s q .disk .default hsteps
  obtain ⟨d, hread, -, -, hd⟩ := hrecords "ci/linux" _ hrow
  cases hread
  refine ⟨hrefused, ?_, fun h => ?_, by rw [Store.demand?, Table.read?, hrow]; rfl, hd⟩
  · obtain hsame | ⟨text, m, happly, -⟩ := hsame _ hrefused
    · exact hsame
    · simp [q] at happly
  · obtain ⟨output, haccepted⟩ := hok.2 h
    rw [hrefused] at haccepted
    cases haccepted

end Scenario

end RunnerFleet
