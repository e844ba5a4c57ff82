import RunnerFleet.Proofs.Reconcile.Backoff

/-!
# What a pass over all autoscalers counts

Others may write between any two steps of a pass, and a conflict is tried again at once, which may
end in any way. Still each listed autoscaler has one turn: it is put off, or there is one pass for
it, or a second one after a conflict. The last result of the turn alone decides where the report
counts the autoscaler and what becomes of its back-off.
-/

namespace RunnerFleet

/-- Where a report counts an autoscaler. -/
inductive Column where
  | applied
  | skipped
  | conflicts
  | failed
  | deferred
  deriving DecidableEq, Repr

def Column.of : Option PassResult → Column
  | none => .deferred
  | some (.ok (.applied _)) => .applied
  | some (.ok (.skipped _)) => .skipped
  | some (.error (.writeConflict _)) => .conflicts
  | some (.error _) => .failed

def Column.scales : Option PassResult → Bool
  | some (.ok (.applied d)) => d.targetPatch.isSome
  | _ => false

theorem Column.of_eq_conflicts_iff (r : PassResult) :
    of (some r) = .conflicts ↔ ∃ key, r = .error (.writeConflict key) := by
  rcases r with (cause | key | cause) | (d | why) <;> simp [of]

theorem Column.of_eq_applied {last : Option PassResult} (h : scales last = true) :
    of last = .applied := by
  rcases last with - | ((cause | key | cause) | (d | why))
  case some.ok.applied => rfl
  all_goals cases h

namespace SyncReport

def get (r : SyncReport) : Column → Nat
  | .applied => r.applied
  | .skipped => r.skipped
  | .conflicts => r.conflicts
  | .failed => r.failed
  | .deferred => r.deferred

def total (r : SyncReport) : Nat :=
  r.applied + r.skipped + r.conflicts + r.failed + r.deferred

theorem total_plus (r q : SyncReport) : (r.plus q).total = r.total + q.total := by
  simp only [total, plus]
  omega

theorem get_ofVisit (last : Option PassResult) (column : Column) :
    (ofVisit last).get column = if Column.of last = column then 1 else 0 := by
  rcases last with - | ((cause | key | cause) | (d | why)) <;> cases column <;> rfl

theorem scaled_ofVisit (last : Option PassResult) :
    (ofVisit last).scaled = if Column.scales last then 1 else 0 := by
  rcases last with - | ((cause | key | cause) | (d | why)) <;> rfl

theorem total_ofVisit (last : Option PassResult) : (ofVisit last).total = 1 := by
  rcases last with - | ((cause | key | cause) | (d | why)) <;> rfl

/-- A number that adds up over reports counts the turns that it is one for. -/
theorem foldl_plus_ofVisit {f : SyncReport → Nat} {p : Option PassResult → Bool}
    (hplus : ∀ r q, f (r.plus q) = f r + f q)
    (hone : ∀ last, f (ofVisit last) = if p last then 1 else 0) (lasts : List (Option PassResult))
    (r : SyncReport) :
    f (lasts.foldl (fun r last => r.plus (ofVisit last)) r) = f r + lasts.countP p := by
  induction lasts generalizing r with
  | nil => rfl
  | cons last rest ih =>
    rw [List.foldl_cons, ih, hplus, hone, List.countP_cons]
    omega

end SyncReport

namespace Pass

namespace Tries

variable {p : Pass} {w v : World} {rs : List PassResult}

theorem ne_nil (h : p.Tries w rs v) : rs ≠ [] := by
  cases h <;> simp

theorem length_le (h : p.Tries w rs v) : rs.length ≤ 2 := by
  cases h <;> simp

theorem length_eq_two_iff (h : p.Tries w rs v) :
    rs.length = 2 ↔ ∃ key, rs.head? = some (.error (.writeConflict key)) := by
  cases h with
  | once pass settled => simp [settled]
  | again first second => simp

theorem conflicts_iff (h : p.Tries w rs v) :
    Column.of rs.getLast? = .conflicts ↔
      rs.length = 2 ∧ ∀ r ∈ rs, ∃ key, r = .error (.writeConflict key) := by
  cases h with
  | once pass settled => simp [Column.of_eq_conflicts_iff, settled]
  | again first second => simp [Column.of_eq_conflicts_iff]

end Tries

end Pass

namespace Controller

/-- The turns of a pass over all autoscalers, from the world of each to that of the next: which
autoscaler, and the results of the passes for it. Where its back-off puts it off there is none. -/
inductive Journal (c : Controller) (evaluate : Evaluator) (now : Seconds)
    (backoff : Table Backoff) : World → List (String × List PassResult) → World → Prop
  | nil {w : World} : Journal c evaluate now backoff w [] w
  | deferred {w v : World} {key : String} {log : List (String × List PassResult)}
      (waits : isDeferred backoff key now = true) (rest : Journal c evaluate now backoff w log v) :
      Journal c evaluate now backoff w ((key, []) :: log) v
  | tried {w u v : World} {key : String} {rs : List PassResult}
      {log : List (String × List PassResult)} (due : isDeferred backoff key now = false)
      (tries : Pass.Tries ⟨key, now, c.engine, evaluate⟩ w rs u)
      (rest : Journal c evaluate now backoff u log v) :
      Journal c evaluate now backoff w ((key, rs) :: log) v

variable {c : Controller} {evaluate : Evaluator} {now : Seconds} {w v : World}
  {backoff : Table Backoff} {t : Tally} {key : String} {order : List String}
  {log : List (String × List PassResult)}

/-- Visits of different autoscalers write a journal. Each finds the back-off that was there before
the first visit, and leaves it as its last result says. -/
theorem journal_visitAll (c : Controller) (evaluate : Evaluator) (now : Seconds)
    (hnodup : order.Nodup) (hbackoff : ∀ k ∈ order, t.backoff.get? k = backoff.get? k) :
    ∃ log, log.map Prod.fst = order ∧
      c.Journal evaluate now backoff t.world log (c.visitAll evaluate now order t).world ∧
      (c.visitAll evaluate now order t).report =
        (log.map (·.2.getLast?)).foldl (fun r last => r.plus (.ofVisit last)) t.report ∧
      ∀ turn ∈ log, (c.visitAll evaluate now order t).backoff.get? turn.1 =
        c.revised (backoff.get? turn.1) now turn.2.getLast? := by
  induction order generalizing t with
  | nil => exact ⟨[], rfl, .nil, rfl, by simp⟩
  | cons k rest ih =>
    obtain ⟨hk, hrest⟩ := List.nodup_cons.1 hnodup
    obtain ⟨rs, u, hturn, hvisit⟩ := visit_cases c evaluate now t k
    have hfirst : t.backoff.get? k = backoff.get? k := hbackoff k (by simp)
    have hothers : ∀ l ∈ rest, (c.visit evaluate now t k).backoff.get? l = backoff.get? l := by
      intro l hl
      have hne : l ≠ k := fun h => hk (h ▸ hl)
      rw [get?_backoff_visit hne, hbackoff l (by simp [hl])]
    obtain ⟨log, hlog, hjournal, hreport, hlast⟩ := ih hrest hothers
    have hwaits : isDeferred t.backoff k now = isDeferred backoff k now := by
      rw [isDeferred, isDeferred, hfirst]
    refine ⟨(k, rs) :: log, by rw [List.map_cons, hlog], ?_, ?_, ?_⟩
    · rw [hvisit] at hjournal
      obtain ⟨hdeferred, rfl, rfl⟩ | ⟨hdue, htries⟩ := hturn
      · exact .deferred (hwaits.symm.trans hdeferred) (by rwa [visitAll, List.foldl_cons, hvisit])
      · refine .tried (hwaits.symm.trans hdue) htries ?_
        rwa [visitAll, List.foldl_cons, hvisit]
    · rw [visitAll, List.foldl_cons, ← visitAll, hreport, hvisit]
      rfl
    · intro turn hmem
      rw [visitAll, List.foldl_cons, ← visitAll]
      obtain rfl | hmem := List.mem_cons.1 hmem
      · rw [get?_backoff_visitAll hk, hvisit, get?_revise, if_pos rfl, hfirst]
      · exact hlast turn hmem

/-- The result of a turn that a journal tells of. -/
theorem Journal.turn_cases (h : c.Journal evaluate now backoff w log v)
    {turn : String × List PassResult} (hmem : turn ∈ log) :
    isDeferred backoff turn.1 now = true ∧ turn.2 = [] ∨
      isDeferred backoff turn.1 now = false ∧
        ∃ w v, Pass.Tries ⟨turn.1, now, c.engine, evaluate⟩ w turn.2 v := by
  induction h with
  | nil => cases hmem
  | deferred waits rest ih =>
    obtain rfl | hmem := List.mem_cons.1 hmem
    · exact .inl ⟨waits, rfl⟩
    · exact ih hmem
  | tried due tries rest ih =>
    obtain rfl | hmem := List.mem_cons.1 hmem
    · exact .inr ⟨due, _, _, tries⟩
    · exact ih hmem

namespace Journal

variable {turn : String × List PassResult}

theorem deferred_iff (h : c.Journal evaluate now backoff w log v) (hmem : turn ∈ log) :
    turn.2 = [] ↔ isDeferred backoff turn.1 now = true := by
  obtain ⟨hwaits, hnil⟩ | ⟨hdue, w, v, htries⟩ := h.turn_cases hmem
  · simp [hwaits, hnil]
  · simp [hdue, htries.ne_nil]

theorem retried (h : c.Journal evaluate now backoff w log v) (hmem : turn ∈ log) :
    turn.2.length ≤ 2 ∧
      (turn.2.length = 2 ↔ ∃ key, turn.2.head? = some (.error (.writeConflict key))) := by
  obtain ⟨-, hnil⟩ | ⟨-, w, v, htries⟩ := h.turn_cases hmem
  · simp [hnil]
  · exact ⟨htries.length_le, htries.length_eq_two_iff⟩

theorem conflicts_iff (h : c.Journal evaluate now backoff w log v) (hmem : turn ∈ log) :
    Column.of turn.2.getLast? = .conflicts ↔
      turn.2.length = 2 ∧ ∀ r ∈ turn.2, ∃ key, r = .error (.writeConflict key) := by
  obtain ⟨-, hnil⟩ | ⟨-, w, v, htries⟩ := h.turn_cases hmem
  · simp [hnil, Column.of]
  · exact htries.conflicts_iff

end Journal

theorem mem_keysOf (as : List Autoscaler) (key : String) :
    key ∈ keysOf as ↔ ∃ a ∈ as, a.key = key := by
  have hsome := get?_foldl_insert_key as .empty key
  rw [Table.get?_empty] at hsome
  simp only [Option.isSome_none, Bool.false_eq_true, false_or] at hsome
  rw [← hsome, keysOf, Table.keys, List.mem_map, Option.isSome_iff_exists]
  constructor
  · rintro ⟨⟨k, u⟩, hmem, rfl⟩
    exact ⟨u, Table.mem_rows_iff.1 hmem⟩
  · rintro ⟨u, hget⟩
    exact ⟨(key, u), Table.mem_rows_iff.2 hget, rfl⟩

/-- There are as many turns as autoscalers exactly if no two of these have the same key. -/
theorem length_keysOf_eq_iff (as : List Autoscaler) :
    (keysOf as).length = as.length ↔ (as.map Autoscaler.key).Nodup := by
  have hperm : (keysOf as).Perm (as.map Autoscaler.key).dedup := by
    rw [List.perm_ext_iff_of_nodup (nodup_keysOf as) (List.nodup_dedup _)]
    intro key
    rw [mem_keysOf, List.mem_dedup, List.mem_map]
  rw [hperm.length_eq, ← as.length_map Autoscaler.key, ← List.dedup_eq_self]
  exact (List.dedup_sublist _).length_eq

theorem isSome_revised (earlier : Option Backoff) (last : Option PassResult) :
    (c.revised earlier now last).isSome ↔ Column.of last = .failed ∨
      (Column.of last = .deferred ∨ Column.of last = .conflicts) ∧ earlier.isSome := by
  rcases last with - | ((cause | key | cause) | (d | why)) <;> simp [revised, Column.of]

/-- What a pass over all autoscalers that began in the world `w` with the back-offs `backoff` has
done, turn by turn, and how its tally tells so. -/
structure Accounts (c : Controller) (evaluate : Evaluator) (now : Seconds) (w : World)
    (backoff : Table Backoff) (log : List (String × List PassResult)) (t : Tally) : Prop where
  journal : c.Journal evaluate now backoff w log t.world
  deferred : ∀ turn ∈ log, turn.2 = [] ↔ isDeferred backoff turn.1 now = true
  /-- There are two passes exactly if the first ends in a conflict, and never more. -/
  retried : ∀ turn ∈ log, turn.2.length ≤ 2 ∧
    (turn.2.length = 2 ↔ ∃ key, turn.2.head? = some (.error (.writeConflict key)))
  counted : ∀ column, t.report.get column =
    log.countP fun turn => Column.of turn.2.getLast? = column
  total : t.report.total = log.length
  scaled : t.report.scaled = log.countP fun turn => Column.scales turn.2.getLast?
  /-- Only two conflicts in a row count as one. -/
  conflicts : ∀ turn ∈ log, Column.of turn.2.getLast? = .conflicts ↔
    turn.2.length = 2 ∧ ∀ r ∈ turn.2, ∃ key, r = .error (.writeConflict key)
  backoff : ∀ key, (t.backoff.get? key).isSome ↔ ∃ turn ∈ log, turn.1 = key ∧
    (Column.of turn.2.getLast? = .failed ∨
      (Column.of turn.2.getLast? = .deferred ∨ Column.of turn.2.getLast? = .conflicts) ∧
        (backoff.get? key).isSome)

/-- What the last results of turns say of the back-offs they say of all back-offs, if there were none
of autoscalers without a turn. -/
theorem isSome_backoff_iff {t' : Tally} (hnodup : (log.map Prod.fst).Nodup)
    (hlast : ∀ turn ∈ log, t'.backoff.get? turn.1 =
      c.revised (backoff.get? turn.1) now turn.2.getLast?)
    (hnone : ∀ k ∉ log.map Prod.fst, t'.backoff.get? k = none) (key : String) :
    (t'.backoff.get? key).isSome ↔ ∃ turn ∈ log, turn.1 = key ∧
      (Column.of turn.2.getLast? = .failed ∨
        (Column.of turn.2.getLast? = .deferred ∨ Column.of turn.2.getLast? = .conflicts) ∧
          (backoff.get? key).isSome) := by
  by_cases hkey : key ∈ log.map Prod.fst
  · obtain ⟨turn, hmem, rfl⟩ := List.mem_map.1 hkey
    rw [hlast turn hmem, isSome_revised]
    constructor
    · exact fun h => ⟨turn, hmem, rfl, h⟩
    · rintro ⟨turn', hmem', heq, h⟩
      have hsame : turn' = turn := List.inj_on_of_nodup_map hnodup hmem' hmem heq
      rwa [hsame] at h
  · rw [hnone key hkey]
    simp only [Option.isSome_none, Bool.false_eq_true, false_iff]
    rintro ⟨turn, hmem, rfl, -⟩
    exact hkey (List.mem_map_of_mem hmem)

/-- Visits of different autoscalers by a tally that is new account for all that they do. -/
theorem accounts_visitAll (c : Controller) (evaluate : Evaluator) (now : Seconds) (t : Tally)
    (hnodup : order.Nodup) (hzero : t.report = .zero)
    (hbackoff : ∀ k, t.backoff.get? k = if k ∈ order then backoff.get? k else none) :
    ∃ log, log.map Prod.fst = order ∧
      c.Accounts evaluate now t.world backoff log (c.visitAll evaluate now order t) := by
  obtain ⟨log, hlog, hjournal, hreport, hlast⟩ :=
    journal_visitAll c evaluate now hnodup fun k hk => (hbackoff k).trans (if_pos hk)
  have hcount : ∀ {f : SyncReport → Nat} {p : Option PassResult → Bool}, f .zero = 0 →
      (∀ r q, f (r.plus q) = f r + f q) →
      (∀ last, f (.ofVisit last) = if p last then 1 else 0) →
      f (c.visitAll evaluate now order t).report = log.countP fun turn => p turn.2.getLast? := by
    intro f p hnone hplus hone
    rw [hreport, SyncReport.foldl_plus_ofVisit hplus hone, hzero, hnone, Nat.zero_add,
      List.countP_map]
    rfl
  refine ⟨log, hlog, hjournal, fun _ => hjournal.deferred_iff, fun _ => hjournal.retried, ?_,
    ?_, ?_, fun _ => hjournal.conflicts_iff, ?_⟩
  · intro column
    refine hcount (f := (·.get column)) (p := fun last => Column.of last = column) ?_ ?_ ?_
    · cases column <;> rfl
    · intro r q
      cases column <;> rfl
    · intro last
      simpa using SyncReport.get_ofVisit last column
  · rw [hcount (f := (·.total)) (p := fun _ => true) rfl SyncReport.total_plus
      SyncReport.total_ofVisit, List.countP_true]
  · exact hcount (f := (·.scaled)) rfl (fun _ _ => rfl) SyncReport.scaled_ofVisit
  · refine isSome_backoff_iff (hlog ▸ hnodup) hlast fun k hk => ?_
    rw [hlog] at hk
    rw [get?_backoff_visitAll hk, hbackoff, if_neg hk]

/-- In a pass over all autoscalers each listed one has exactly one turn, in whatever order and
whatever others do meanwhile. So the report counts each of them in exactly one column, and a
back-off is left to those that failed or had one that the turn did not end. -/
theorem each_has_one_turn (c : Controller) (evaluate : Evaluator) (now : Seconds) {w : World}
    {as : List Autoscaler} (lists : w.store.listAutoscalers = .ok as) {order : List String}
    (h : order.Perm (keysOf as)) (backoff : Table Backoff) :
    let t := c.visitAll evaluate now order ⟨w, retain backoff (keysOf as), .zero⟩
    (order = keysOf as → c.sync evaluate now w backoff = .ok t) ∧
      (order.Nodup ∧ ∀ key, key ∈ order ↔ ∃ a ∈ as, a.key = key) ∧
      (∃ log, log.map Prod.fst = order ∧ c.Accounts evaluate now w backoff log t) ∧
      t.report.total = order.length ∧
      (t.report.total = as.length ↔ (as.map Autoscaler.key).Nodup) ∧
      (w.store.Filed → t.report.total = as.length) ∧
      t.report.scaled ≤ t.report.applied := by
  intro t
  have hnodup : order.Nodup := h.nodup_iff.2 (nodup_keysOf as)
  have hretain : ∀ k, (retain backoff (keysOf as)).get? k =
      if k ∈ order then backoff.get? k else none := by
    intro k
    simp only [get?_retain, h.mem_iff]
  obtain ⟨log, hlog, haccounts⟩ :
      ∃ log, log.map Prod.fst = order ∧ c.Accounts evaluate now w backoff log t :=
    accounts_visitAll c evaluate now ⟨w, retain backoff (keysOf as), .zero⟩ hnodup rfl hretain
  have htotal : t.report.total = order.length := by
    rw [haccounts.total, ← hlog, List.length_map]
  have hnumber : t.report.total = as.length ↔ (as.map Autoscaler.key).Nodup := by
    rw [htotal, h.length_eq, length_keysOf_eq_iff]
  refine ⟨fun horder => ?_, ⟨hnodup, fun key => ?_⟩, ⟨log, hlog, haccounts⟩, htotal, hnumber,
    fun filed => ?_, ?_⟩
  · simp only [sync, lists, t, horder]
    rfl
  · rw [h.mem_iff, mem_keysOf]
  · rw [hnumber, filed.map_key lists]
    exact Table.nodup_keys _
  · have happlied : t.report.applied =
        log.countP fun turn => Column.of turn.2.getLast? = .applied := haccounts.counted .applied
    rw [haccounts.scaled, happlied]
    exact List.countP_mono_left fun turn _ hscales => decide_eq_true (Column.of_eq_applied hscales)

/-- Two more autoscalers drive a target of the first, and someone writes that target three times. -/
def threeTouches : World where
  store := threeFates.run
    [.createAutoscaler
      ⟨.fresh "ci" "lint", ⟨"linux", none, none, none, [.workflowRuns], []⟩, .empty⟩,
     .createAutoscaler
      ⟨.fresh "ci" "nightly", ⟨"linux", none, none, none, [.workflowRuns], []⟩, .empty⟩]
  pending := List.replicate 3 ⟨.target, "ci/linux", .touch⟩
  evaluations := 0

/-- Two of them hit both passes of one autoscaler and the third the first pass of another, which
then scales the target after all. So of five autoscalers each is counted in a column of its own. -/
theorem each_has_one_turn_threeTouches :
    let c := ofSettings .default
    let order := ["ci/site", "ci/nightly", "ci/lint", "ci/docs", "ci/builds"]
    let evaluate := Snapshot.evaluate (.ofSeconds 300) 100
    let backoff := (Table.empty.insert "ci/nightly" ⟨2, 160⟩).insert "ci/lint" ⟨1, 90⟩
    ∃ as, threeTouches.store.listAutoscalers = .ok as ∧ as.length = 5 ∧
      let t := c.visitAll evaluate 100 order ⟨threeTouches, retain backoff (keysOf as), .zero⟩
      t.report = ⟨1, 1, 1, 1, 1, 1⟩ ∧ t.report.total = as.length ∧
        t.backoff.keys = ["ci/docs", "ci/lint", "ci/nightly"] ∧
        ∃ log, log.map Prod.fst = order ∧ c.Accounts evaluate 100 threeTouches backoff log t := by
  intro c order evaluate backoff
  have hreport : (threeTouches.store.listAutoscalers.map fun as =>
      let t := c.visitAll evaluate 100 order ⟨threeTouches, retain backoff (keysOf as), .zero⟩
      (keysOf as, as.length, t.report, t.backoff.keys)) =
      .ok (order.reverse, 5, ⟨1, 1, 1, 1, 1, 1⟩, ["ci/docs", "ci/lint", "ci/nightly"]) := by
    decide +kernel
  obtain ⟨as, lists, hfacts⟩ := Except.map_eq_ok_iff.1 hreport
  simp only [Prod.mk.injEq] at hfacts
  obtain ⟨hkeys, hlength, hreport, hbackoff⟩ := hfacts
  have hperm : order.Perm (keysOf as) := by
    rw [hkeys]
    exact order.reverse_perm.symm
  obtain ⟨-, -, hlog, htotal, -⟩ := each_has_one_turn c evaluate 100 lists hperm backoff
  exact ⟨as, lists, hlength, hreport, htotal.trans hlength.symm, hbackoff, hlog⟩

end Controller

end RunnerFleet
