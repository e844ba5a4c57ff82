import RunnerFleet.Proofs.Store.Listing
import RunnerFleet.Proofs.Store.Performed
import RunnerFleet.Proofs.Store.StaleWrite
import RunnerFleet.Proofs.Text.ByteOrder

/-!
# What a store tells of its history

In a store that operations have made from an empty one, every row stands under the key of its own
metadata, its version is the number of writes since the row came into being, and a list of a table
shows every row once, in the order of the keys' bytes. A row is read as reading returns what its
last write has left. That is what this write has returned exactly if the doubles in it are read back
as they were.
-/

namespace RunnerFleet

/-- A listed table shows every row once, in the order of the bytes of the keys. -/
theorem Table.listed {α : Type} [Versioned α] {t : Table (Row α)} (own : t.OwnRows)
    (filed : ∀ k a, t.read? k = .ok (some a) → Versioned.key a = k) :
    ∃ as, t.readAll = .ok as ∧
      (as.map fun a => ByteOrder.bytes (Versioned.key a)).Pairwise (· < ·) ∧
      ∀ a, a ∈ as ↔ t.read? (Versioned.key a) = .ok (some a) := by
  obtain ⟨as, has⟩ := readAll_isOk_iff.2 own.read?
  refine ⟨as, has, ?_, fun a => ?_⟩
  · have hfiled : ∀ r ∈ t.rows, r.2.read.map Versioned.key = .ok r.1 := by
      intro r hr
      obtain ⟨a, -, ha⟩ := List.mem_map.1 (map_read_of_readAll has ▸ List.mem_map_of_mem hr)
      have hread : t.read? r.1 = .ok (some a) := read?_eq_some_iff.2 ⟨r.2, hr, ha.symm⟩
      rw [← ha, ← filed r.1 a hread]
      rfl
    have hkeys : as.map Versioned.key = t.rows.map Prod.fst := by
      refine List.map_injective_iff.2 (fun x y hxy => Except.ok.inj hxy)
        ((map_read_map_of_readAll has).symm.trans ?_)
      rw [List.map_map]
      exact List.map_congr_left hfiled
    have hrows : (as.map Versioned.key).Pairwise (· < ·) := by
      rw [hkeys, List.pairwise_map]
      exact t.ordered
    exact List.pairwise_map.2 ((List.pairwise_map.1 hrows).imp ByteOrder.bytes_lt_iff.2)
  · rw [mem_of_readAll has]
    constructor
    · rintro ⟨k, hk⟩
      rw [filed k a hk]
      exact hk
    · exact fun h => ⟨_, h⟩

namespace Store

def Answer.resource? : Answer → Option Resource
  | autoscaler a => some (.autoscaler a)
  | deployment d => some (.deployment d)
  | _ => none

theorem autoscaler?_of_resourceAt {s : Store} {place : Place} {a : Autoscaler}
    (h : s.resourceAt place = .ok (some (.autoscaler a))) :
    s.autoscaler? place.key = .ok (some a) := by
  obtain ⟨kind, key⟩ := place
  cases kind with
  | autoscaler =>
    obtain ⟨b, hb, hmap⟩ := Except.map_eq_ok_iff.1 h
    obtain ⟨_, rfl, ⟨⟩⟩ := Option.map_eq_some_iff.1 hmap
    exact hb
  | deployment =>
    obtain ⟨d, hd, hmap⟩ := Except.map_eq_ok_iff.1 h
    obtain ⟨_, -, ⟨⟩⟩ := Option.map_eq_some_iff.1 hmap

theorem versionAt_of_resourceAt {s : Store} {place : Place} {found : Option Resource}
    (h : s.resourceAt place = .ok found) :
    s.versionAt place = .ok (found.map Resource.version) := by
  rw [versionAt_eq_readAt, readAt, h]
  rfl

section

variable {s s' : Store} {op : Operation} {answer : Answer} {key : String} {place : Place}

theorem effectOn_of_isRead (h : op.isRead = true) : s.effectOn place op = .none := by
  cases op <;> first | rfl | cases h

def returned (s : Store) (op : Operation) : Option Resource :=
  match s.perform op with
  | .ok (answer, _) => answer.resource?
  | .error _ => none

/-- What the last write has returned once an operation has had this effect, where it was `last`
before and the operation returns `new`. -/
def Effect.leaves (last new : Option Resource) : Effect → Option Resource
  | none => last
  | write => new
  | delete => .none

/-- What the last write at a place has returned, from an earlier such return on; nothing where the
row has been deleted since. -/
def lastFrom (place : Place) (last : Option Resource) (s : Store) :
    List Operation → Option Resource
  | [] => last
  | op :: ops => lastFrom place ((s.effectOn place op).leaves last (s.returned op)) (s.after op) ops

def lastWritten (place : Place) (ops : List Operation) : Option Resource :=
  lastFrom place none empty ops

/-- A read at a place returns `last` as reading it back returns it, and `last` is filed there. -/
def Shows (s : Store) (place : Place) (last : Option Resource) : Prop :=
  s.resourceAt place = .ok (last.map Resource.reread) ∧ ∀ r ∈ last, r.key = place.key

theorem Shows.key_eq {last : Option Resource} {r : Resource} (h : s.Shows place last)
    (hr : s.resourceAt place = .ok (some r)) : r.key = place.key := by
  rw [h.1] at hr
  obtain ⟨r', hr', rfl⟩ := Option.map_eq_some_iff.1 (Except.ok.inj hr)
  exact (Resource.key_reread r').trans (h.2 r' hr')

theorem Shows.of_write {last : Option Resource} {target : Place} {r : Resource}
    (h : s.Shows place last)
    (hs : s'.resourceAt place =
      if place = target then .ok (some r.reread) else s.resourceAt place)
    (hkey : place = target → r.key = target.key) :
    s'.Shows place ((if place = target then Effect.write else .none).leaves last (some r)) := by
  by_cases hp : place = target
  · rw [if_pos hp] at hs ⊢
    refine ⟨hs, ?_⟩
    rintro _ ⟨⟩
    rw [hkey hp, hp]
  · rw [if_neg hp] at hs ⊢
    exact ⟨hs.trans h.1, h.2⟩

theorem Shows.of_delete {last new : Option Resource} {target : Place} (h : s.Shows place last)
    (hs : s'.resourceAt place = if place = target then .ok none else s.resourceAt place) :
    s'.Shows place ((if place = target then Effect.delete else .none).leaves last new) := by
  by_cases hp : place = target
  · rw [if_pos hp] at hs ⊢
    exact ⟨hs, fun r hr => absurd hr (Option.not_mem_none r)⟩
  · rw [if_neg hp] at hs ⊢
    exact ⟨hs.trans h.1, h.2⟩

/-- What a read returns before an operation determines what it returns afterwards. -/
theorem Shows.after {last : Option Resource} (h : s.Shows place last) (op : Operation) :
    (s.after op).Shows place ((s.effectOn place op).leaves last (s.returned op)) := by
  unfold Store.after returned
  cases hop : s.perform op with
  | error e =>
    rw [effectOn_of_error hop]
    exact h
  | ok r =>
    obtain ⟨answer, s'⟩ := r
    cases performed_of_perform hop with
    | @wroteAutoscaler _ key a writes =>
      rw [effectOn_of_writes? writes.writes? hop]
      refine h.of_write (resourceAt_file s place key (.autoscaler a)) ?_
      rintro rfl
      exact writes.key_eq fun b hb => h.key_eq (resourceAt_of_autoscaler hb)
    | @wroteDeployment _ key d writes =>
      rw [effectOn_of_writes? writes.writes? hop]
      refine h.of_write (resourceAt_file s place key (.deployment d)) ?_
      rintro rfl
      exact writes.key_eq fun b hb => h.key_eq (resourceAt_of_deployment hb)
    | @deletedAutoscaler key =>
      rw [effectOn_of_deletes? rfl]
      exact h.of_delete (resourceAt_clear s place ⟨.autoscaler, key⟩)
    | @deletedDeployment key =>
      rw [effectOn_of_deletes? rfl]
      exact h.of_delete (resourceAt_clear s place ⟨.deployment, key⟩)
    | tookDemand => exact h
    | recorded => exact h
    | looked read =>
      rw [effectOn_of_isRead read]
      exact h

theorem Shows.run {last : Option Resource} (h : s.Shows place last) (ops : List Operation) :
    (s.run ops).Shows place (lastFrom place last s ops) := by
  induction ops generalizing s last with
  | nil => exact h
  | cons op ops ih => exact ih (h.after op)

theorem shows_lastWritten (place : Place) (ops : List Operation) :
    (empty.run ops).Shows place (lastWritten place ops) := by
  refine Shows.run ⟨?_, by simp⟩ ops
  obtain ⟨kind, key⟩ := place
  cases kind <;> rfl

def writesFrom (place : Place) (n : Nat) (s : Store) : List Operation → Nat
  | [] => n
  | op :: ops =>
    let n := match s.effectOn place op with
      | .none => n
      | .write => n + 1
      | .delete => 0
    writesFrom place n (s.after op) ops

def writesSince (place : Place) (ops : List Operation) : Nat := writesFrom place 0 empty ops

theorem writesFrom_append (place : Place) (n : Nat) (s : Store) (before later : List Operation) :
    writesFrom place n s (before ++ later) =
      writesFrom place (writesFrom place n s before) (s.run before) later := by
  induction before generalizing n s with
  | nil => rfl
  | cons op before ih => exact ih _ _

theorem writesFrom_le (place : Place) (n : Nat) (s : Store) (ops : List Operation) :
    writesFrom place n s ops ≤ n + ops.length := by
  induction ops generalizing n s with
  | nil => exact Nat.le_refl n
  | cons op ops ih =>
    refine (ih _ _).trans ?_
    rw [List.length_cons]
    cases s.effectOn place op with
    | none => exact Nat.add_le_add_left (Nat.le_succ _) n
    | write => exact (Nat.add_right_comm n 1 _).le
    | delete => exact Nat.add_le_add (Nat.zero_le n) (Nat.le_succ _)

/-- As long as nothing deletes the row, its writes add up. -/
theorem writesFrom_of_kept (n : Nat) {ops : List Operation}
    (hkept : ∀ op ∈ ops, op.deletes? ≠ some place) :
    writesFrom place n s ops = n + writesFrom place 0 s ops := by
  induction ops generalizing n s with
  | nil => rfl
  | cons op ops ih =>
    have ih := fun n s => @ih s n fun op hop => hkept op (List.mem_cons_of_mem _ hop)
    have hop : s.effectOn place op ≠ .delete := by
      unfold effectOn
      rw [if_neg (hkept op List.mem_cons_self)]
      split <;> nofun
    unfold writesFrom
    cases heffect : s.effectOn place op with
    | none => exact ih n _
    | write =>
      have hfirst := ih (n + 1) (s.after op)
      have hone := ih (0 + 1) (s.after op)
      simp only [] at hfirst hone ⊢
      omega
    | delete => exact absurd heffect hop

def countedVersion : Nat → Option UInt64
  | 0 => none
  | n + 1 => some (UInt64.ofNat (n + 1))

theorem versionAt_run_writesFrom {n : Nat} (h : s.versionAt place = .ok (countedVersion n))
    (ops : List Operation) :
    (s.run ops).versionAt place = .ok (countedVersion (writesFrom place n s ops)) := by
  induction ops generalizing s n with
  | nil => exact h
  | cons op ops ih =>
    refine ih ?_
    rw [versionAt_after]
    cases s.effectOn place op with
    | none => exact h
    | delete => rfl
    | write =>
      rw [h]
      cases n with
      | zero => rfl
      | succ n =>
        have hnext : nextVersion (UInt64.ofNat (n + 1)) = UInt64.ofNat (n + 1 + 1) :=
          (UInt64.ofNat_add (n + 1) 1).symm
        simp only [countedVersion, Except.map, Option.getD_some, hnext]

end

variable {place : Place} {ops before later : List Operation} {r : Resource}

/-- What a run from an empty store leaves in order, whatever versions the resources come with. -/
structure Orderly (ops : List Operation) : Prop where
  readable : ∀ place, ∃ found, (empty.run ops).resourceAt place = .ok found
  filed : ∀ place r, (empty.run ops).resourceAt place = .ok (some r) → r.key = place.key
  counted : ∀ place r, (empty.run ops).resourceAt place = .ok (some r) →
    r.version.toNat = writesSince place ops ∧ 0 < writesSince place ops
  absent : ∀ place, (empty.run ops).resourceAt place = .ok none → writesSince place ops = 0
  /-- Every write counts the version up until the row is deleted. -/
  grows : ∀ place before later r, ops = before ++ later → (∀ op ∈ later, op.deletes? ≠ some place) →
    (empty.run before).resourceAt place = .ok (some r) →
    ∃ r', (empty.run ops).resourceAt place = .ok (some r') ∧
      r'.version.toNat = r.version.toNat + writesFrom place 0 (empty.run before) later
  autoscalersListed : ∃ as, (empty.run ops).listAutoscalers = .ok as ∧
    (as.map fun a => ByteOrder.bytes a.key).Pairwise (· < ·) ∧
    ∀ a, a ∈ as ↔ (empty.run ops).autoscaler? a.key = .ok (some a)
  deploymentsListed : ∃ ds, (empty.run ops).listDeployments = .ok ds ∧
    (ds.map fun d => ByteOrder.bytes d.key).Pairwise (· < ·) ∧
    ∀ d, d ∈ ds ↔ (empty.run ops).deployment? d.key = .ok (some d)

/-- Every read returns what the last write at its place has returned. -/
def GetsLastWritten (ops : List Operation) : Prop :=
  ∀ place, (empty.run ops).resourceAt place = .ok (lastWritten place ops)

theorem version_counted (place : Place) (ops : List Operation) :
    (empty.run ops).versionAt place = .ok (countedVersion (writesSince place ops)) := by
  refine versionAt_run_writesFrom ?_ ops
  obtain ⟨kind, key⟩ := place
  cases kind <;> rfl

theorem writesSince_of_resourceAt (hlen : ops.length < UInt64.size)
    (h : (empty.run ops).resourceAt place = .ok (some r)) :
    r.version.toNat = writesSince place ops ∧ 0 < writesSince place ops := by
  have hversion := (versionAt_of_resourceAt h).symm.trans (version_counted place ops)
  have hle : writesSince place ops ≤ 0 + ops.length := writesFrom_le place 0 empty ops
  cases hn : writesSince place ops with
  | zero =>
    rw [hn] at hversion
    cases hversion
  | succ n =>
    rw [hn] at hversion hle
    have hr : r.version = UInt64.ofNat (n + 1) := Option.some.inj (Except.ok.inj hversion)
    refine ⟨?_, Nat.succ_pos n⟩
    rw [hr, UInt64.toNat_ofNat_of_lt' (by omega)]

theorem writesSince_of_absent
    (h : (empty.run ops).resourceAt place = .ok none) : writesSince place ops = 0 := by
  have hversion := (versionAt_of_resourceAt h).symm.trans (version_counted place ops)
  cases hn : writesSince place ops with
  | zero => rfl
  | succ n =>
    rw [hn] at hversion
    cases hversion

theorem resourceAt_of_kept (hlen : (before ++ later).length < UInt64.size)
    (hkept : ∀ op ∈ later, op.deletes? ≠ some place)
    (h : (empty.run before).resourceAt place = .ok (some r)) :
    ∃ r', (empty.run (before ++ later)).resourceAt place = .ok (some r') ∧
      r'.version.toNat = r.version.toNat + writesFrom place 0 (empty.run before) later := by
  have hbefore : before.length < UInt64.size := by
    rw [List.length_append] at hlen
    omega
  obtain ⟨hr, hpos⟩ := writesSince_of_resourceAt hbefore h
  have hsum : writesSince place (before ++ later) =
      writesSince place before + writesFrom place 0 (empty.run before) later := by
    rw [writesSince, writesFrom_append, writesFrom_of_kept _ hkept]
    rfl
  have hshow := (shows_lastWritten place (before ++ later)).1
  cases hlast : lastWritten place (before ++ later) with
  | none =>
    rw [hlast] at hshow
    have := writesSince_of_absent hshow
    omega
  | some last =>
    rw [hlast] at hshow
    have := (writesSince_of_resourceAt hlen hshow).1
    exact ⟨last.reread, hshow, by omega⟩

theorem listAutoscalers_run (ops : List Operation) :
    ∃ as, (empty.run ops).listAutoscalers = .ok as ∧
      (as.map fun a => ByteOrder.bytes a.key).Pairwise (· < ·) ∧
      ∀ a, a ∈ as ↔ (empty.run ops).autoscaler? a.key = .ok (some a) := by
  refine Table.listed (ownRows_run ops).autoscalers fun k a ha => ?_
  exact (shows_lastWritten _ ops).key_eq (resourceAt_of_autoscaler ha)

theorem listDeployments_run (ops : List Operation) :
    ∃ ds, (empty.run ops).listDeployments = .ok ds ∧
      (ds.map fun d => ByteOrder.bytes d.key).Pairwise (· < ·) ∧
      ∀ d, d ∈ ds ↔ (empty.run ops).deployment? d.key = .ok (some d) := by
  refine Table.listed (ownRows_run ops).deployments fun k d hd => ?_
  exact (shows_lastWritten _ ops).key_eq (resourceAt_of_deployment hd)

theorem orderly (hlen : ops.length < UInt64.size) : Orderly ops where
  readable place := ⟨_, (shows_lastWritten place ops).1⟩
  filed place _ := (shows_lastWritten place ops).key_eq
  counted _ _ := writesSince_of_resourceAt hlen
  absent _ := writesSince_of_absent
  grows place before later r heq hkept h := by
    subst heq
    exact resourceAt_of_kept hlen hkept h
  autoscalersListed := listAutoscalers_run ops
  deploymentsListed := listDeployments_run ops

theorem getsLastWritten_iff (ops : List Operation) :
    GetsLastWritten ops ↔
      ∀ place a, lastWritten place ops = some (.autoscaler a) → a.reread = a := by
  have hreads : GetsLastWritten ops ↔
      ∀ place, (lastWritten place ops).map Resource.reread = lastWritten place ops := by
    simp only [GetsLastWritten, (shows_lastWritten _ ops).1, Except.ok.injEq]
  rw [hreads]
  constructor
  · intro h place a ha
    have hsame := h place
    rw [ha] at hsame
    exact Resource.autoscaler.inj (Option.some.inj hsame)
  · intro h place
    cases hlast : lastWritten place ops with
    | none => rfl
    | some r =>
      cases r with
      | autoscaler a => exact congrArg (some ∘ Resource.autoscaler) (h place a hlast)
      | deployment d => rfl

/-- A store that operations have made is in order, and its reads return what was last written
exactly if the doubles in it are read back as they were. -/
theorem history_kept (ops : List Operation) (hlen : ops.length < UInt64.size) :
    Orderly ops ∧
      (GetsLastWritten ops ↔
        ∀ place a, lastWritten place ops = some (.autoscaler a) → a.reread = a) :=
  ⟨orderly hlen, getsLastWritten_iff ops⟩

/-- An autoscaler that shrinks its deployment below a busy share of 5.591287406077752e-8. Read back
this is the next greater double. -/
def neighbouringShare : Autoscaler where
  metadata := .fresh "ci" "builds"
  spec :=
    { targetName := "runners"
      minReplicas := none
      maxReplicas := none
      scaleDownDelay := none
      metrics := [.busyShare ⟨none, some (.ofBits 4498538143126001387), none, none⟩]
      reservations := [] }
  status := .empty

theorem history_kept_over_rebirth :
    let ops : List Operation :=
      [.createDeployment ⟨.fresh "ci" "runners", .empty⟩, .updateReplicas "ci/runners" 1 3,
       .deleteDeployment "ci/runners", .putDeployment ⟨⟨"ci", "runners", 7, none⟩, .empty⟩]
    ops.length < UInt64.size ∧ Orderly ops ∧ GetsLastWritten ops ∧
      writesSince ⟨.deployment, "ci/runners"⟩ ops = 1 := by
  intro ops
  have hlen : ops.length < UInt64.size := by decide
  obtain ⟨horderly, hgets⟩ := history_kept ops hlen
  refine ⟨hlen, horderly, hgets.2 fun place a ha => ?_, by decide +kernel⟩
  have hread := (shows_lastWritten place ops).1
  rw [ha] at hread
  have habsent : (empty.run ops).autoscaler? place.key = .ok none := rfl
  rw [autoscaler?_of_resourceAt hread] at habsent
  cases habsent

theorem not_getsLastWritten_neighbouringShare :
    ¬ GetsLastWritten [.createAutoscaler neighbouringShare] := by
  intro h
  exact absurd (h ⟨.autoscaler, "ci/builds"⟩) (by decide +kernel)

end Store

end RunnerFleet
