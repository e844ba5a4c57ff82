import Mathlib.Data.List.Nodup
import Mathlib.Data.List.Perm.Subperm
import RunnerFleet.Store.Basic

/-!
# Recording an event adds one row

Events of one object and second differ in the last part of their keys. Distinct numbers make
distinct keys, so among more numbers than there are rows one is free, and the event that takes it
replaces nothing. Keys of events about different objects never meet, so such events can be recorded
in either order.
-/

namespace RunnerFleet

theorem Decimal.value_padded (width n : Nat) : value (padded width n) = n := by
  have hdigits := value_digits n
  unfold value at hdigits ⊢
  rw [padded, Nat.ofDigitChars_append, Nat.ofDigitChars_replicate_zero, Nat.mul_zero, hdigits]

theorem Decimal.colon_notMem_padded (width n : Nat) : ':' ∉ padded width n := by
  intro h
  rw [padded, List.mem_append] at h
  rcases h with h | h
  · have heq := List.eq_of_mem_replicate h
    exact absurd heq (by decide)
  · have hdigit := isDigit_of_mem_digits h
    exact absurd hdigit (by decide)

/-- A text splits at its last colon in one way. -/
theorem eq_of_append_colon {xs ys ds es : List Char} (hds : ':' ∉ ds) (hes : ':' ∉ es)
    (h : xs ++ ':' :: ds = ys ++ ':' :: es) : xs = ys ∧ ds = es := by
  rcases List.append_eq_append_iff.1 h with ⟨zs, rfl, hrest⟩ | ⟨zs, rfl, hrest⟩
  · cases zs with
    | nil => simpa using hrest
    | cons z zs =>
      simp only [List.cons_append, List.cons.injEq] at hrest
      exact absurd (by simp [hrest.2]) hds
  · cases zs with
    | nil => simpa using hrest.symm
    | cons z zs =>
      simp only [List.cons_append, List.cons.injEq] at hrest
      exact absurd (by simp [hrest.2]) hes

namespace Event

variable {e f : Event} {m n : Nat}

def keyEnd (e : Event) (n : Nat) : List Char :=
  Decimal.padded 20 e.timestamp.toNat ++ ':' :: Decimal.padded 6 n

theorem toList_keyStart (objectKey : String) :
    (keyStart objectKey).toList = objectKey.toList ++ [':'] := by
  rw [keyStart, String.toList_append]
  rfl

theorem toList_tableKey (e : Event) (n : Nat) :
    (e.tableKey n).toList = (keyStart e.objectKey).toList ++ e.keyEnd n := by
  have hcolon : (":" : String).toList = [':'] := rfl
  simp only [tableKey, keyEnd, String.toList_append, String.toList_ofList, hcolon,
    List.append_assoc, List.cons_append, List.nil_append]

/-- A key tells the object, the second and the number, whatever characters stand in the names. -/
theorem tableKey_eq_iff :
    e.tableKey m = f.tableKey n ↔
      (e.objectKey = f.objectKey ∧ e.timestamp = f.timestamp) ∧ m = n := by
  constructor
  · intro h
    have hchars := congrArg String.toList h
    simp only [toList_tableKey, toList_keyStart, keyEnd, List.append_assoc, List.cons_append,
      List.nil_append] at hchars
    rw [← List.cons_append, ← List.append_assoc, ← List.cons_append, ← List.append_assoc] at hchars
    obtain ⟨hfront, hnumber⟩ := eq_of_append_colon (Decimal.colon_notMem_padded 6 m)
      (Decimal.colon_notMem_padded 6 n) hchars
    obtain ⟨hobject, htime⟩ := eq_of_append_colon (Decimal.colon_notMem_padded 20 _)
      (Decimal.colon_notMem_padded 20 _) hfront
    have htime := congrArg Decimal.value htime
    have hnumber := congrArg Decimal.value hnumber
    rw [Decimal.value_padded, Decimal.value_padded] at htime hnumber
    exact ⟨⟨String.toList_injective hobject, UInt64.toNat_inj.1 htime⟩, hnumber⟩
  · rintro ⟨⟨hobject, htime⟩, rfl⟩
    rw [tableKey, tableKey, hobject, htime]

theorem tableKey_injective (e : Event) : Function.Injective e.tableKey :=
  fun _ _ h => (tableKey_eq_iff.1 h).2

/-- Keys of events about different objects differ. -/
theorem objectKey_eq_of_tableKey_eq (h : e.tableKey m = f.tableKey n) :
    e.objectKey = f.objectKey := (tableKey_eq_iff.1 h).1.1

end Event

theorem Table.insert_comm {α : Type} (t : Table α) {k l : String} (h : k ≠ l) (v w : α) :
    (t.insert k v).insert l w = (t.insert l w).insert k v := by
  apply Table.ext
  intro x
  simp only [get?_insert]
  by_cases hl : x = l
  · have hk : x ≠ k := fun hk => h (hk.symm.trans hl)
    simp [hl, Ne.symm h]
  · simp [hl]

theorem Table.mem_keys_of_get?_ne_none {α : Type} {t : Table α} {key : String}
    (h : t.get? key ≠ none) : key ∈ t.keys := by
  obtain ⟨a, ha⟩ := Option.ne_none_iff_exists'.1 h
  exact List.mem_map.2 ⟨(key, a), Table.mem_rows_iff.2 ha, rfl⟩

/-- Of keys that are numbered without repetition one is free, at most as far on as there are
rows. -/
theorem Table.exists_free {α : Type} (t : Table α) {key : Nat → String}
    (hkey : Function.Injective key) : ∃ n, n < t.rows.length + 1 ∧ t.get? (key n) = none := by
  by_contra hnone
  push Not at hnone
  have hnodup : ((List.range (t.rows.length + 1)).map key).Nodup := List.nodup_range.map hkey
  have hsubset : (List.range (t.rows.length + 1)).map key ⊆ t.keys := by
    intro k hk
    obtain ⟨n, hn, rfl⟩ := List.mem_map.1 hk
    exact Table.mem_keys_of_get?_ne_none (hnone n (List.mem_range.1 hn))
  have hlength := (List.subperm_of_subset hnodup hsubset).length_le
  rw [List.length_map, List.length_range, Table.keys, List.length_map] at hlength
  omega

/-- One row more, under a key of the event that was free. -/
def EventAdded (e : Event) (t t' : Table (Row Event)) : Prop :=
  ∃ seq, t.get? (e.tableKey seq) = none ∧ t' = t.insert (e.tableKey seq) (.written e)

namespace Store

variable (s : Store) (e : Event)

theorem get?_tableKey_freeSeq : s.events.get? (e.tableKey (s.freeSeq e)) = none := by
  unfold freeSeq
  cases hfind : (List.range (s.events.rows.length + 1)).find? fun seq =>
      (s.events.get? (e.tableKey seq)).isNone with
  | some seq =>
    have hfree := List.find?_some hfind
    exact Option.isNone_iff_eq_none.1 hfree
  | none =>
    obtain ⟨n, hn, hfree⟩ := s.events.exists_free e.tableKey_injective
    have htaken := List.find?_eq_none.1 hfind n (List.mem_range.2 hn)
    rw [hfree] at htaken
    exact absurd rfl htaken

theorem eventAdded_recordEvent : EventAdded e s.events (s.recordEvent e).events :=
  ⟨s.freeSeq e, s.get?_tableKey_freeSeq e, rfl⟩

theorem freeSeq_eq_iff {s : Store} {e : Event} {n : Nat} :
    s.freeSeq e = n ↔ s.events.get? (e.tableKey n) = none ∧
      ∀ m < n, s.events.get? (e.tableKey m) ≠ none := by
  have hfree : ∀ i, (List.range (s.events.rows.length + 1)).find?
      (fun seq => (s.events.get? (e.tableKey seq)).isNone) = some i →
      s.events.get? (e.tableKey i) = none ∧ ∀ m < i, s.events.get? (e.tableKey m) ≠ none := by
    intro i hi
    obtain ⟨hnone, -, hbelow⟩ := List.find?_range_eq_some.1 hi
    refine ⟨Option.isNone_iff_eq_none.1 hnone, fun m hm hm' => ?_⟩
    have := hbelow m hm
    simp [hm'] at this
  have hfound : ∃ i, (List.range (s.events.rows.length + 1)).find?
      (fun seq => (s.events.get? (e.tableKey seq)).isNone) = some i := by
    obtain ⟨i, hi, hnone⟩ := s.events.exists_free e.tableKey_injective
    apply Option.isSome_iff_exists.1
    rw [List.find?_isSome]
    exact ⟨i, List.mem_range.2 hi, by rw [hnone]; rfl⟩
  obtain ⟨i, hi⟩ := hfound
  have heq : s.freeSeq e = i := by rw [freeSeq, hi, Option.getD_some]
  obtain ⟨hnone, hbelow⟩ := hfree i hi
  rw [heq]
  constructor
  · rintro rfl
    exact ⟨hnone, hbelow⟩
  · rintro ⟨hn, hlt⟩
    rcases Nat.lt_trichotomy i n with h | h | h
    · exact absurd hnone (hlt i h)
    · exact h
    · exact absurd hn (hbelow n h)

/-- An event about another object leaves the number of the next event as it is. -/
theorem freeSeq_recordEvent {s : Store} {e f : Event} (h : e.objectKey ≠ f.objectKey) :
    (s.recordEvent f).freeSeq e = s.freeSeq e := by
  have hget : ∀ m,
      (s.recordEvent f).events.get? (e.tableKey m) = s.events.get? (e.tableKey m) := by
    intro m
    have hne : e.tableKey m ≠ f.tableKey (s.freeSeq f) :=
      fun heq => h (Event.objectKey_eq_of_tableKey_eq heq)
    rw [recordEvent, Table.get?_insert, if_neg hne]
  obtain ⟨hnone, hbelow⟩ := freeSeq_eq_iff.1 (rfl : s.freeSeq e = _)
  apply freeSeq_eq_iff.2
  exact ⟨by rw [hget]; exact hnone, fun m hm => by rw [hget]; exact hbelow m hm⟩

theorem recordEvent_comm {s : Store} {e f : Event} (h : e.objectKey ≠ f.objectKey) :
    (s.recordEvent e).recordEvent f = (s.recordEvent f).recordEvent e := by
  have hne : e.tableKey (s.freeSeq e) ≠ f.tableKey (s.freeSeq f) :=
    fun heq => h (Event.objectKey_eq_of_tableKey_eq heq)
  have he := freeSeq_recordEvent (s := s) h
  have hf := freeSeq_recordEvent (s := s) h.symm
  unfold recordEvent at he hf ⊢
  rw [he, hf]
  simp only [Table.insert_comm _ hne]

end Store

end RunnerFleet
