import Mathlib.Data.List.Nodup
import RunnerFleet.Proofs.Store.Performed

/-!
# Stored autoscalers and their keys

A list of a whole table holds what a read finds under each key. In a store that operations have made
every autoscaler is stored under its own key, since each write either goes to the key of what it
writes or changes a row that it has read.
-/

namespace RunnerFleet

theorem Row.readAll_eq_ok_iff {α : Type} [Encoded α] {rows : List (Row α)} {as : List α} :
    Row.readAll rows = .ok as ↔ rows.map Row.read = as.map .ok := by
  unfold Row.readAll
  induction rows generalizing as with
  | nil => cases as <;> simp [pure, Except.pure]
  | cons r rows ih =>
    rw [List.mapM_cons, Except.bind_eq_ok_iff]
    constructor
    · rintro ⟨a, ha, h⟩
      obtain ⟨rest, hrest, h⟩ := Except.bind_eq_ok_iff.1 h
      cases h
      rw [List.map_cons, List.map_cons, ha, ih.1 hrest]
    · intro h
      cases as with
      | nil => cases h
      | cons a rest =>
        obtain ⟨ha, hrest⟩ := List.cons.inj h
        exact ⟨a, ha, Except.bind_eq_ok_iff.2 ⟨rest, ih.2 hrest, rfl⟩⟩

theorem Row.readAll_isOk {α : Type} [Encoded α] {rows : List (Row α)}
    (h : ∀ r ∈ rows, ∃ a, r.read = .ok a) : ∃ as, Row.readAll rows = .ok as := by
  induction rows with
  | nil => exact ⟨[], rfl⟩
  | cons r rows ih =>
    obtain ⟨a, ha⟩ := h r (by simp)
    obtain ⟨as, has⟩ := ih fun r hr => h r (by simp [hr])
    refine ⟨a :: as, Row.readAll_eq_ok_iff.2 ?_⟩
    rw [List.map_cons, List.map_cons, ha, Row.readAll_eq_ok_iff.1 has]

namespace Table

variable {α : Type} [Encoded α] {t : Table (Row α)} {k l : String} {a b : α} {as : List α}

theorem read?_eq_some_iff :
    t.read? k = .ok (some a) ↔ ∃ row, (k, row) ∈ t.rows ∧ row.read = .ok a := by
  unfold read?
  simp only [mem_rows_iff]
  cases t.get? k with
  | none => simp
  | some row => simp [Except.map_eq_ok_iff]

theorem map_read_of_readAll (h : t.readAll = .ok as) :
    t.rows.map (fun r => r.2.read) = as.map .ok := by
  rw [← Row.readAll_eq_ok_iff.1 h, values, List.map_map]
  rfl

theorem map_read_map_of_readAll {β : Type} {f : α → β} (h : t.readAll = .ok as) :
    t.rows.map (fun r => r.2.read.map f) = (as.map f).map .ok := by
  have := congrArg (List.map (Except.map f)) (map_read_of_readAll h)
  simpa [List.map_map, Function.comp_def, Except.map] using this

/-- The list of a table holds exactly what is read under some key. -/
theorem mem_of_readAll (h : t.readAll = .ok as) : a ∈ as ↔ ∃ k, t.read? k = .ok (some a) := by
  have hmem : (.ok a : Except StoreError α) ∈ as.map .ok ↔ a ∈ as := by simp
  rw [← hmem, ← map_read_of_readAll h]
  simp only [List.mem_map, Prod.exists, read?_eq_some_iff]

theorem readAll_isOk_iff :
    (∃ as, t.readAll = .ok as) ↔ ∀ k, ∃ found, t.read? k = .ok found := by
  constructor
  · rintro ⟨as, h⟩ k
    unfold read?
    cases hget : t.get? k with
    | none => exact ⟨none, rfl⟩
    | some row =>
      have hmem : row.read ∈ t.rows.map (fun r => r.2.read) :=
        List.mem_map.2 ⟨(k, row), mem_rows_iff.2 hget, rfl⟩
      rw [map_read_of_readAll h] at hmem
      obtain ⟨a, -, ha⟩ := List.mem_map.1 hmem
      exact ⟨some a, congrArg (Except.map some) ha.symm⟩
  · intro h
    have hread : ∀ r ∈ t.values, ∃ a, r.read = .ok a := by
      intro r hr
      obtain ⟨⟨k, row⟩, hmem, rfl⟩ := List.mem_map.1 hr
      obtain ⟨found, hfound⟩ := h k
      unfold read? at hfound
      rw [mem_rows_iff.1 hmem] at hfound
      obtain ⟨a, ha, -⟩ := Except.map_eq_ok_iff.1 hfound
      exact ⟨a, ha⟩
    exact Row.readAll_isOk hread

/-- Resources that a listed table tells apart stand under different keys. -/
theorem eq_of_nodup_map {β : Type} {f : α → β} (h : t.readAll = .ok as) (hf : (as.map f).Nodup)
    (ha : t.read? k = .ok (some a)) (hb : t.read? l = .ok (some b)) (heq : f a = f b) : k = l := by
  obtain ⟨r, hr, har⟩ := read?_eq_some_iff.1 ha
  obtain ⟨q, hq, hbq⟩ := read?_eq_some_iff.1 hb
  have hnodup : (t.rows.map fun r => r.2.read.map f).Nodup := by
    rw [map_read_map_of_readAll h]
    exact hf.map fun x y hxy => Except.ok.inj hxy
  have hsame : r.read.map f = q.read.map f := by
    rw [har, hbq]
    exact congrArg Except.ok heq
  have := List.inj_on_of_nodup_map hnodup hr hq hsame
  exact congrArg Prod.fst this

end Table

namespace Store

variable {s s' : Store} {op : Operation} {answer : Answer} {key : String}

/-- No two stored autoscalers drive the same deployment. -/
def TargetsDistinct (s : Store) : Prop :=
  ∀ ⦃k l a b⦄, s.autoscaler? k = .ok (some a) → s.autoscaler? l = .ok (some b) →
    a.targetKey = b.targetKey → k = l

theorem targetsDistinct_of_nodup {as : List Autoscaler} (h : s.listAutoscalers = .ok as)
    (hn : (as.map Autoscaler.targetKey).Nodup) : s.TargetsDistinct :=
  fun _ _ _ _ ha hb heq => Table.eq_of_nodup_map h hn ha hb heq

/-- Every autoscaler is stored under its own key. -/
def Filed (s : Store) : Prop := ∀ ⦃k a⦄, s.autoscaler? k = .ok (some a) → a.key = k

/-- So the listed autoscalers have the keys of their table, in its order. -/
theorem Filed.map_key (h : s.Filed) {as : List Autoscaler} (lists : s.listAutoscalers = .ok as) :
    as.map Autoscaler.key = s.autoscalers.keys := by
  have hread : s.autoscalers.rows.map (fun r => r.2.read.map Autoscaler.key) =
      (as.map Autoscaler.key).map .ok := Table.map_read_map_of_readAll lists
  have hown : s.autoscalers.rows.map (fun r => r.2.read.map Autoscaler.key) =
      s.autoscalers.keys.map .ok := by
    rw [Table.keys, List.map_map]
    refine List.map_congr_left fun ⟨k, row⟩ hrow => ?_
    obtain ⟨a, -, ha⟩ : ∃ a ∈ as, row.read = .ok a := by
      have hmem : row.read ∈ s.autoscalers.rows.map (fun r => r.2.read) :=
        List.mem_map.2 ⟨(k, row), hrow, rfl⟩
      rw [Table.map_read_of_readAll lists] at hmem
      obtain ⟨a, ha, heq⟩ := List.mem_map.1 hmem
      exact ⟨a, ha, heq.symm⟩
    have hkey : a.key = k := h (Table.read?_eq_some_iff.2 ⟨row, hrow, ha⟩)
    simp only [ha, Function.comp_apply, ← hkey]
    rfl
  exact List.map_injective_iff.2 (fun _ _ => Except.ok.inj) (hread.symm.trans hown)

theorem filed_empty : empty.Filed := nofun

theorem Filed.of_insert {a : Autoscaler} (h : s.Filed)
    (hs : s'.autoscalers = s.autoscalers.insert key (.written a)) (hkey : a.key = key) :
    s'.Filed := by
  intro k b hb
  rw [autoscaler?, hs, Table.read?_insert_written] at hb
  by_cases hk : k = key
  · rw [if_pos hk] at hb
    cases hb
    rw [hk]
    exact hkey
  · rw [if_neg hk] at hb
    exact h hb

theorem Filed.of_erase (h : s.Filed) (hs : s'.autoscalers = s.autoscalers.erase key) :
    s'.Filed := by
  intro k b hb
  rw [autoscaler?, hs, Table.read?_erase] at hb
  split at hb
  · cases hb
  · exact h hb

theorem Filed.perform (h : s.Filed) (hop : s.perform op = .ok (answer, s')) : s'.Filed := by
  cases performed_of_perform hop with
  | wroteAutoscaler writes => exact h.of_insert rfl (writes.key_eq fun _ hread => h hread)
  | deletedAutoscaler => exact h.of_erase rfl
  | wroteDeployment | deletedDeployment | tookDemand | recorded | looked => exact h

theorem filed_run (ops : List Operation) : (empty.run ops).Filed := by
  induction ops using List.reverseRecOn with
  | nil => exact filed_empty
  | append_singleton ops op ih =>
    rw [run, List.foldl_append, List.foldl_cons, List.foldl_nil, after]
    change (empty.run ops).Filed at ih
    split
    · next hop => exact ih.perform hop
    · exact ih

/-- The key of the autoscaler that is read under `k`, and the key of the deployment it drives. -/
def identityAt (s : Store) (k : String) : Except StoreError (Option (String × String)) :=
  (s.autoscaler? k).map (Option.map fun a => (a.key, a.targetKey))

theorem identityAt_of_read {k : String} {a : Autoscaler} (h : s.autoscaler? k = .ok (some a)) :
    s.identityAt k = .ok (some (a.key, a.targetKey)) := by
  rw [identityAt, h]
  rfl

theorem read_of_identityAt {k x y : String} (h : s.identityAt k = .ok (some (x, y))) :
    ∃ a, s.autoscaler? k = .ok (some a) ∧ a.key = x ∧ a.targetKey = y := by
  obtain ⟨found, hread, hfound⟩ := Except.map_eq_ok_iff.1 h
  obtain ⟨a, rfl, ha⟩ := Option.map_eq_some_iff.1 hfound
  obtain ⟨hkey, htarget⟩ := Prod.mk.inj ha
  exact ⟨a, hread, hkey, htarget⟩

theorem Filed.congr (h : s.Filed) (hs : s'.identityAt = s.identityAt) : s'.Filed := by
  intro k a ha
  have hid := identityAt_of_read ha
  rw [hs] at hid
  obtain ⟨b, hb, hkey, -⟩ := read_of_identityAt hid
  rw [← hkey]
  exact h hb

theorem TargetsDistinct.congr (h : s.TargetsDistinct) (hs : s'.identityAt = s.identityAt) :
    s'.TargetsDistinct := by
  intro k l a b ha hb heq
  have hida := identityAt_of_read ha
  have hidb := identityAt_of_read hb
  rw [hs] at hida hidb
  obtain ⟨a', ha', -, htargeta⟩ := read_of_identityAt hida
  obtain ⟨b', hb', -, htargetb⟩ := read_of_identityAt hidb
  exact h ha' hb' (by rw [htargeta, htargetb, heq])

theorem isOk_identityAt_iff {k : String} :
    (∃ found, s.identityAt k = .ok found) ↔ ∃ found, s.autoscaler? k = .ok found := by
  unfold identityAt
  cases s.autoscaler? k <;> simp [Except.map]

end Store

end RunnerFleet
