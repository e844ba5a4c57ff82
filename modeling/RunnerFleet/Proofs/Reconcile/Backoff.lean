import RunnerFleet.Proofs.Reconcile.Settled

/-!
# Back-off over whole runs

Between the passes of a run anything may happen to the store, and every pass may visit what it lists
in another order. Still the back-off of an autoscaler is a function of its own outcomes: of the
number of its failures in a row and of the time of the latest one. So these alone decide whether a
pass attempts it.
-/

namespace RunnerFleet

structure Round where
  now : Seconds
  world : World
  evaluate : Evaluator
  order : List String
  complete : ∀ as, world.store.listAutoscalers = .ok as → order.Perm (Controller.keysOf as)

inductive Treatment where
  /-- No autoscaler could be listed, so the pass has done nothing. -/
  | unlisted
  | absent
  | deferred
  | attempted (r : PassResult)

/-- Failures since the autoscaler last succeeded, was skipped or was absent. -/
structure Streak where
  failures : Nat
  latest : Seconds
  deriving DecidableEq, Repr

namespace Streak

/-- Deferrals and conflicts neither end a streak nor make it longer. -/
def next (s : Option Streak) (now : Seconds) : Treatment → Option Streak
  | .unlisted | .deferred | .attempted (.error (.writeConflict _)) => s
  | .absent | .attempted (.ok _) => none
  | .attempted (.error _) => some ⟨(s.map (·.failures)).getD 0 + 1, now⟩

def ofHistory (history : List (Seconds × Treatment)) : Option Streak :=
  history.foldl (fun s x => next s x.1 x.2) none

end Streak

/-- The passes of one turn: a second one if the first ends in a conflict, whatever comes of it. -/
inductive Pass.Tries (p : Pass) (w : World) : List PassResult → World → Prop
  | once {r : PassResult} {v : World} (pass : p.reconcile w = (r, v))
      (settled : ∀ key, r ≠ .error (.writeConflict key)) : Tries p w [r] v
  | again {key : String} {r : PassResult} {v v' : World}
      (first : p.reconcile w = (.error (.writeConflict key), v))
      (second : p.reconcile v = (r, v')) : Tries p w [.error (.writeConflict key), r] v'

def Pass.lastResult (p : Pass) (w : World) : PassResult :=
  match p.reconcile w with
  | (.error (.writeConflict _), v) => (p.reconcile v).1
  | (r, _) => r

namespace Round

variable (r : Round) (c : Controller) (backoff : Table Backoff)

def start (as : List Autoscaler) : Tally :=
  ⟨r.world, Controller.retain backoff (Controller.keysOf as), .zero⟩

def backoffAfter : Table Backoff :=
  match r.world.store.listAutoscalers with
  | .error _ => backoff
  | .ok as => (c.visitAll r.evaluate r.now r.order (r.start backoff as)).backoff

def treatmentAt (t : Tally) (key : String) : Treatment :=
  if Controller.isDeferred t.backoff key r.now then .deferred
  else .attempted (Pass.lastResult ⟨key, r.now, c.engine, r.evaluate⟩ t.world)

def treatment (key : String) : Treatment :=
  match r.world.store.listAutoscalers with
  | .error _ => .unlisted
  | .ok as =>
    if key ∈ r.order then
      r.treatmentAt c (c.visitAll r.evaluate r.now (r.order.takeWhile (· ≠ key))
        (r.start backoff as)) key
    else .absent

end Round

namespace Pass

variable {p : Pass} {w v : World} {rs : List PassResult}

theorem tries_attempt (p : Pass) (w : World) :
    ∃ rs, p.Tries w rs (Controller.attempt p w).2 ∧
      rs.getLast? = some (Controller.attempt p w).1 := by
  unfold Controller.attempt
  rcases hpass : p.reconcile w with ⟨r, v⟩
  rcases r with (cause | key | cause) | o
  · exact ⟨_, .once hpass nofun, rfl⟩
  · exact ⟨_, .again hpass rfl, rfl⟩
  · exact ⟨_, .once hpass nofun, rfl⟩
  · exact ⟨_, .once hpass nofun, rfl⟩

theorem Tries.getLast?_eq (h : p.Tries w rs v) : rs.getLast? = some (p.lastResult w) := by
  unfold lastResult
  cases h with
  | once pass settled =>
    rw [pass]
    split
    · next heq => exact absurd (congrArg Prod.fst heq) (settled _)
    · next heq => exact congrArg some (congrArg Prod.fst heq)
  | again first second =>
    rw [first]
    exact congrArg some (congrArg Prod.fst second).symm

end Pass

namespace Controller

variable (c : Controller) (key : String)

def backoffFrom (backoff : Table Backoff) (rounds : List Round) : Table Backoff :=
  rounds.foldl (fun backoff r => r.backoffAfter c backoff) backoff

def historyFrom (backoff : Table Backoff) : List Round → List (Seconds × Treatment)
  | [] => []
  | r :: rounds =>
    (r.now, r.treatment c backoff key) :: historyFrom (r.backoffAfter c backoff) rounds

def history (rounds : List Round) : List (Seconds × Treatment) := c.historyFrom key .empty rounds

def backoffOf (s : Option Streak) : Option Backoff :=
  s.map fun s =>
    let failures := UInt32.ofNat s.failures
    ⟨failures, Seconds.plus s.latest (c.backoffDelay failures)⟩

variable {c key} {evaluate : Evaluator} {now : Seconds} {t : Tally} {s : Option Streak}
  {backoff : Table Backoff} {r : Round} {as : List Autoscaler} {order : List String}

theorem fail_backoffOf (s : Option Streak) (now : Seconds) :
    c.fail (c.backoffOf s) now =
      ⟨UInt32.ofNat ((s.map (·.failures)).getD 0 + 1),
        Seconds.plus now
          (c.backoffDelay (UInt32.ofNat ((s.map (·.failures)).getD 0 + 1)))⟩ := by
  cases s with
  | none => rfl
  | some s =>
    have hsucc : UInt32.ofNat (s.failures + 1) = UInt32.ofNat s.failures + 1 :=
      UInt32.ofNat_add s.failures 1
    simp only [fail, backoffOf, Option.map_some, Option.getD_some, hsucc]

theorem get?_backoff_visit {k : String} (hne : k ≠ key) :
    (c.visit evaluate now t key).backoff.get? k = t.backoff.get? k := by
  unfold visit
  split
  · rfl
  · exact (get?_revise t.backoff (some _)).trans (if_neg hne)

theorem get?_backoff_visitAll (hkey : key ∉ order) :
    (c.visitAll evaluate now order t).backoff.get? key = t.backoff.get? key := by
  induction order generalizing t with
  | nil => rfl
  | cons k rest ih =>
    rw [List.mem_cons, not_or] at hkey
    exact (ih hkey.2).trans (get?_backoff_visit hkey.1)

theorem revised_backoffOf (s : Option Streak) (now : Seconds) (result : PassResult) :
    c.revised (c.backoffOf s) now (some result) =
      c.backoffOf (Streak.next s now (.attempted result)) := by
  cases result with
  | ok o => rfl
  | error e =>
    cases e with
    | writeConflict key => rfl
    | evaluation autoscaler cause | store cause => exact congrArg some (fail_backoffOf s now)

/-- A visit is a turn, and its last result says the rest. -/
theorem visit_cases (c : Controller) (evaluate : Evaluator) (now : Seconds) (t : Tally)
    (key : String) :
    ∃ rs v, (isDeferred t.backoff key now = true ∧ rs = [] ∧ v = t.world ∨
        isDeferred t.backoff key now = false ∧
          Pass.Tries ⟨key, now, c.engine, evaluate⟩ t.world rs v) ∧
      c.visit evaluate now t key =
        ⟨v, c.revise t.backoff key now rs.getLast?, t.report.plus (.ofVisit rs.getLast?)⟩ := by
  cases hwaits : isDeferred t.backoff key now with
  | true => exact ⟨[], t.world, .inl ⟨rfl, rfl, rfl⟩, if_pos hwaits⟩
  | false =>
    obtain ⟨rs, htries, hlast⟩ := Pass.tries_attempt ⟨key, now, c.engine, evaluate⟩ t.world
    refine ⟨rs, _, .inr ⟨rfl, htries⟩, ?_⟩
    have hdue : ¬ isDeferred t.backoff key now = true := by simp [hwaits]
    rw [hlast, ← SyncReport.count_eq_plus, visit, if_neg hdue]
    rfl

/-- A visit takes the back-off along with the streak. -/
theorem get?_backoff_visit_self (h : t.backoff.get? key = c.backoffOf s) :
    (c.visit r.evaluate r.now t key).backoff.get? key =
      c.backoffOf (Streak.next s r.now (r.treatmentAt c t key)) := by
  obtain ⟨rs, v, hturn, hvisit⟩ := visit_cases c r.evaluate r.now t key
  rw [hvisit, get?_revise, if_pos rfl, h, Round.treatmentAt]
  obtain ⟨hwaits, rfl, -⟩ | ⟨hdue, htries⟩ := hturn
  · rw [if_pos hwaits]
    rfl
  · rw [if_neg (by simp [hdue]), htries.getLast?_eq, revised_backoffOf]

theorem get?_retain {keys : List String} :
    (retain backoff keys).get? key = if key ∈ keys then backoff.get? key else none := by
  simp only [retain, Table.get?_restrict, List.contains_iff_mem]

/-- The turn of a listed autoscaler comes once in a pass, with its back-off as before the pass. -/
theorem exists_turn (c : Controller) (backoff : Table Backoff)
    (lists : r.world.store.listAutoscalers = .ok as) (listed : key ∈ keysOf as) :
    ∃ earlier later, r.order = earlier ++ key :: later ∧ key ∉ earlier ∧ key ∉ later ∧
      r.order.takeWhile (· ≠ key) = earlier ∧
      (c.visitAll r.evaluate r.now earlier (r.start backoff as)).backoff.get? key =
        backoff.get? key := by
  have hperm := r.complete as lists
  obtain ⟨earlier, later, horder⟩ := List.append_of_mem (hperm.mem_iff.2 listed)
  have hnodup := hperm.nodup_iff.2 (nodup_keysOf as)
  rw [horder, List.nodup_middle, List.nodup_cons, List.mem_append, not_or] at hnodup
  obtain ⟨⟨hearlier, hlater⟩, -⟩ := hnodup
  refine ⟨earlier, later, horder, hearlier, hlater, ?_, ?_⟩
  · rw [horder, List.takeWhile_append_of_pos, List.takeWhile_cons_of_neg (by simp),
      List.append_nil]
    intro k hk
    have hne : k ≠ key := fun h => hearlier (h ▸ hk)
    simpa using hne
  · rw [get?_backoff_visitAll hearlier]
    exact get?_retain.trans (if_pos listed)

/-- A pass takes every back-off along with the streak. -/
theorem get?_backoffAfter (h : backoff.get? key = c.backoffOf s) :
    (r.backoffAfter c backoff).get? key =
      c.backoffOf (Streak.next s r.now (r.treatment c backoff key)) := by
  unfold Round.backoffAfter Round.treatment
  cases lists : r.world.store.listAutoscalers with
  | error e => exact h
  | ok as =>
    simp only
    by_cases listed : key ∈ keysOf as
    · obtain ⟨earlier, later, horder, -, hlater, htake, hget⟩ :=
        exists_turn c backoff lists listed
      rw [if_pos ((r.complete as lists).mem_iff.2 listed), htake, horder, visitAll,
        List.foldl_append, List.foldl_cons]
      refine (get?_backoff_visitAll hlater).trans ?_
      exact get?_backoff_visit_self (hget.trans h)
    · have horder : key ∉ r.order := fun hmem => listed ((r.complete as lists).mem_iff.1 hmem)
      rw [if_neg horder]
      refine (get?_backoff_visitAll horder).trans ?_
      exact get?_retain.trans (if_neg listed)

theorem get?_backoffFrom (h : backoff.get? key = c.backoffOf s) (rounds : List Round) :
    (c.backoffFrom backoff rounds).get? key =
      c.backoffOf ((c.historyFrom key backoff rounds).foldl (fun s x => Streak.next s x.1 x.2) s) := by
  induction rounds generalizing backoff s with
  | nil => exact h
  | cons r rounds ih => exact ih (get?_backoffAfter h)

theorem get?_backoff_run (rounds : List Round) (key : String) :
    (c.backoffFrom .empty rounds).get? key = c.backoffOf (Streak.ofHistory (c.history key rounds)) :=
  get?_backoffFrom (s := none) rfl rounds

def waitsUntil (c : Controller) (s : Streak) : Nat :=
  min (s.latest.toNat + c.wait s.failures) Seconds.largest

theorem isDeferred_backoffOf_some (now : Seconds) {s : Streak} (hs : s.failures < 2 ^ 32)
    (h : backoff.get? key = c.backoffOf (some s)) :
    isDeferred backoff key now = true ↔ now.toNat < c.waitsUntil s := by
  have hfailures : (UInt32.ofNat s.failures).toNat = s.failures := by
    rw [UInt32.toNat_ofNat', Nat.mod_eq_of_lt hs]
  have hwait := c.toNat_backoffDelay (UInt32.ofNat s.failures)
  rw [hfailures] at hwait
  rw [isDeferred, h, waitsUntil, ← hwait, ← Seconds.toNat_plus]
  exact decide_eq_true_iff.trans UInt64.lt_iff_toNat_lt

theorem isDeferred_backoffOf_none (h : backoff.get? key = c.backoffOf none) :
    isDeferred backoff key now = false := by
  rw [isDeferred, h]
  rfl

end Controller

namespace Round

variable (r : Round) (c : Controller) (t : Tally) (key : String)

/-- The visit that begins with the tally `t` counts a deferral and does nothing else. -/
def Defers : Prop :=
  c.visit r.evaluate r.now t key =
    { t with report := { t.report with deferred := t.report.deferred + 1 } }

/-- The visit that begins with the tally `t` makes a pass for the autoscaler, and another one after a
conflict. The last result says the rest. -/
def Attempts : Prop :=
  ∃ rs v, Pass.Tries ⟨key, r.now, c.engine, r.evaluate⟩ t.world rs v ∧
    c.visit r.evaluate r.now t key =
      ⟨v, c.revise t.backoff key r.now rs.getLast?, t.report.plus (.ofVisit rs.getLast?)⟩

variable {r c t key}

theorem defers (h : Controller.isDeferred t.backoff key r.now = true) : r.Defers c t key := by
  rw [Defers, Controller.visit, if_pos h]

theorem attempts (h : Controller.isDeferred t.backoff key r.now = false) :
    r.Attempts c t key := by
  obtain ⟨rs, v, ⟨hwaits, -⟩ | ⟨-, htries⟩, hvisit⟩ :=
    Controller.visit_cases c r.evaluate r.now t key
  · rw [h] at hwaits
    cases hwaits
  · exact ⟨rs, v, htries, hvisit⟩

end Round

namespace Controller

/-- In every pass of a run each listed autoscaler has one turn. Its own streak of failures alone
decides whether that turn is put off: the wait after the latest failure doubles with every failure
in a row, up to the longest wait. -/
theorem attempted_once_waited (c : Controller) (rounds : List Round) (r : Round)
    {as : List Autoscaler} (lists : r.world.store.listAutoscalers = .ok as) {key : String}
    (listed : key ∈ keysOf as) :
    ∃ earlier later, r.order = earlier ++ key :: later ∧ key ∉ earlier ∧ key ∉ later ∧
      let t := c.visitAll r.evaluate r.now earlier (r.start (c.backoffFrom .empty rounds) as)
      (Streak.ofHistory (c.history key rounds) = none → r.Attempts c t key) ∧
      ∀ s, Streak.ofHistory (c.history key rounds) = some s → s.failures < 2 ^ 32 →
        (r.now.toNat < c.waitsUntil s → r.Defers c t key) ∧
        (c.waitsUntil s ≤ r.now.toNat → r.Attempts c t key) := by
  obtain ⟨earlier, later, horder, hearlier, hlater, -, hget⟩ :=
    exists_turn c (c.backoffFrom .empty rounds) lists listed
  have hrun := hget.trans (get?_backoff_run rounds key)
  refine ⟨earlier, later, horder, hearlier, hlater, fun hnone => ?_, fun s hs hfew => ?_⟩
  · rw [hnone] at hrun
    exact Round.attempts (isDeferred_backoffOf_none hrun)
  · rw [hs] at hrun
    have hiff := isDeferred_backoffOf_some r.now hfew hrun
    refine ⟨fun hlt => Round.defers (hiff.2 hlt), fun hle => Round.attempts ?_⟩
    rw [Bool.eq_false_iff, Ne, hiff]
    exact Nat.not_lt.2 hle

def threeFatesRound (now : Seconds) : Round where
  now := now
  world := .ofStore threeFates
  evaluate := Snapshot.evaluate (.ofSeconds 300) now
  order := ["ci/site", "ci/docs", "ci/builds"]
  complete as lists := by
    have hkeys : (threeFates.listAutoscalers.map keysOf) =
        .ok ["ci/builds", "ci/docs", "ci/site"] := by decide +kernel
    rw [show threeFates.listAutoscalers = .ok as from lists] at hkeys
    rw [Except.ok.inj hkeys]
    decide

/-- The failure at 100 puts the autoscaler off for twice the half minute between passes. -/
theorem attempted_once_waited_threeFates :
    let c := ofSettings .default
    let failed := [threeFatesRound 100]
    Streak.ofHistory (c.history "ci/docs" failed) = some ⟨1, 100⟩ ∧
      ∃ as, threeFates.listAutoscalers = .ok as ∧ ∀ now, let r := threeFatesRound now
        ∃ earlier later, r.order = earlier ++ "ci/docs" :: later ∧
          let t := c.visitAll r.evaluate now earlier (r.start (c.backoffFrom .empty failed) as)
          (now < 160 → r.Defers c t "ci/docs") ∧ (160 ≤ now → r.Attempts c t "ci/docs") := by
  intro c failed
  have hstreak : Streak.ofHistory (c.history "ci/docs" failed) = some ⟨1, 100⟩ := by
    decide +kernel
  have huntil : c.waitsUntil ⟨1, 100⟩ = 160 := by decide +kernel
  obtain ⟨as, lists, hkeys⟩ : ∃ as, threeFates.listAutoscalers = .ok as ∧ "ci/docs" ∈ keysOf as :=
    ⟨_, rfl, by decide +kernel⟩
  refine ⟨hstreak, as, lists, fun now => ?_⟩
  obtain ⟨earlier, later, horder, -, -, -, hturn⟩ :=
    attempted_once_waited c failed (threeFatesRound now) lists hkeys
  obtain ⟨hdefers, hattempts⟩ := hturn ⟨1, 100⟩ hstreak (by decide)
  rw [huntil] at hdefers hattempts
  refine ⟨earlier, later, horder, fun h => ?_, fun h => ?_⟩
  · exact hdefers (UInt64.lt_iff_toNat_lt.1 h)
  · exact hattempts (UInt64.le_iff_toNat_le.1 h)

end Controller

end RunnerFleet
