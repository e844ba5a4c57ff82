import Mathlib.Data.Set.List
import Mathlib.Data.String.Basic
import RunnerFleet.Proofs.Number.Written
import RunnerFleet.Proofs.Store.Event
import RunnerFleet.Proofs.Store.Listing

/-!
# The log of events

A recorded event gets a row of its own and no row ever goes, so the table of events grows by one row
with each recorded event. Up to a million events of one object and second the keys sort as the
numbers in them do: a listing shows the events of an object by time, and those of one second in the
order in which they were recorded.
-/

namespace RunnerFleet

/-! ## The order of padded numerals -/

namespace Decimal

variable {ds es : List Char} {width m n : Nat}

theorem isDigit_of_mem_padded {c : Char} (h : c ∈ padded width n) : c.isDigit = true := by
  rw [padded, List.mem_append] at h
  obtain h | h := h
  · rw [List.eq_of_mem_replicate h]
    rfl
  · exact isDigit_of_mem_digits h

theorem length_padded (hwidth : 0 < width) (h : n < 10 ^ width) :
    (padded width n).length = width := by
  have hdigits : (digits n).length ≤ width :=
    (Nat.length_toDigits_le_iff (by decide) hwidth).2 h
  rw [padded, List.length_append, List.length_replicate]
  exact Nat.sub_add_cancel hdigits

/-- Numerals of one length are in the order of their values. -/
theorem value_lt_value (hlength : ds.length = es.length) (hds : ∀ c ∈ ds, c.isDigit = true)
    (hes : ∀ c ∈ es, c.isDigit = true) (h : ds < es) : value ds < value es := by
  induction ds generalizing es with
  | nil =>
    rw [List.eq_nil_of_length_eq_zero hlength.symm] at h
    exact absurd h (List.lt_irrefl [])
  | cons d ds ih =>
    cases es with
    | nil => exact absurd h (List.not_lt_nil _)
    | cons e es =>
      obtain ⟨hd, hds'⟩ := List.forall_mem_cons.1 hds
      obtain ⟨he, hes'⟩ := List.forall_mem_cons.1 hes
      have htail : ds.length = es.length := Nat.succ.inj hlength
      rw [value_cons, value_cons, htail]
      obtain hlt | ⟨rfl, hrest⟩ := List.cons_lt_cons_iff.1 h
      · -- one more in the first place outweighs all that follow
        have hlt : d.toNat < e.toNat := UInt32.lt_iff_toNat_lt.1 (Char.lt_def.1 hlt)
        have hmore : d.toNat - '0'.toNat + 1 ≤ e.toNat - '0'.toNat := by
          have := (digit_lt_ten hd).1
          omega
        have hfirst := Nat.mul_le_mul_left (10 ^ es.length) hmore
        have hbelow := value_lt_pow hds'
        rw [htail] at hbelow
        rw [Nat.mul_add, Nat.mul_one] at hfirst
        omega
      · exact Nat.add_lt_add_left (ih htail hds' hes' hrest) _

theorem padded_lt_padded (h : m < n) (hn : n < 10 ^ width) (hwidth : 0 < width) :
    padded width m < padded width n := by
  have hlength : (padded width n).length = (padded width m).length := by
    rw [length_padded hwidth hn, length_padded hwidth (h.trans hn)]
  by_contra hnot
  obtain heq | hlt := (not_lt.1 hnot).eq_or_lt
  · have hvalue := congrArg value heq
    rw [value_padded, value_padded] at hvalue
    exact absurd hvalue h.ne'
  · have hvalue := value_lt_value hlength (fun _ => isDigit_of_mem_padded)
      (fun _ => isDigit_of_mem_padded) hlt
    rw [value_padded, value_padded] at hvalue
    exact absurd hvalue h.not_gt

end Decimal

theorem append_lt_append_of_lt {xs ys as bs : List Char} (hlength : xs.length = ys.length)
    (h : xs < ys) : xs ++ as < ys ++ bs := by
  induction xs generalizing ys with
  | nil =>
    rw [List.eq_nil_of_length_eq_zero hlength.symm] at h
    exact absurd h (List.lt_irrefl [])
  | cons x xs ih =>
    cases ys with
    | nil => exact absurd h (List.not_lt_nil _)
    | cons y ys =>
      rw [List.cons_append, List.cons_append]
      refine List.cons_lt_cons_iff.2 ?_
      obtain hlt | ⟨rfl, hrest⟩ := List.cons_lt_cons_iff.1 h
      · exact .inl hlt
      · exact .inr ⟨rfl, ih (Nat.succ.inj hlength) hrest⟩

namespace Event

variable {e f : Event} {m n : Nat}

def sameSecond (e f : Event) : Bool := f.timestamp = e.timestamp && f.objectKey = e.objectKey

theorem sameSecond_iff :
    e.sameSecond f = true ↔ f.objectKey = e.objectKey ∧ f.timestamp = e.timestamp := by
  simp [sameSecond, and_comm]

theorem sameSecond_congr (hobject : e.objectKey = f.objectKey) (htime : e.timestamp = f.timestamp) :
    e.sameSecond = f.sameSecond := by
  funext g
  rw [sameSecond, sameSecond, hobject, htime]

/-- Keys about one object are in the order of time, and within one second in that of the number. -/
theorem tableKey_lt_tableKey (hobject : e.objectKey = f.objectKey) (hn : n < 10 ^ 6)
    (h : e.timestamp < f.timestamp ∨ e.timestamp = f.timestamp ∧ m < n) :
    e.tableKey m < f.tableKey n := by
  have hwidth : ∀ g : Event, g.timestamp.toNat < 10 ^ 20 := by
    intro g
    have := g.timestamp.toNat_lt
    omega
  rw [String.lt_iff, toList_tableKey, toList_tableKey, hobject]
  refine List.append_left_lt ?_
  unfold keyEnd
  obtain htime | ⟨htime, hnumber⟩ := h
  · refine append_lt_append_of_lt ?_ ?_
    · rw [Decimal.length_padded (by decide) (hwidth e), Decimal.length_padded (by decide) (hwidth f)]
    · exact Decimal.padded_lt_padded (UInt64.lt_iff_toNat_lt.1 htime) (hwidth f) (by decide)
  · rw [htime]
    refine List.append_left_lt (List.cons_lt_cons_iff.2 (.inr ⟨rfl, ?_⟩))
    exact Decimal.padded_lt_padded hnumber hn (by decide)

end Event

namespace Table

variable {α : Type}

/-- A row under a new key comes between the others, which all stay. -/
theorem rows_insert_of_free {t : Table α} {k : String} (h : t.get? k = none) (v : α) :
    ∃ before after, t.rows = before ++ after ∧ (t.insert k v).rows = before ++ (k, v) :: after := by
  obtain ⟨rows, ordered⟩ := t
  simp only [get?, insert] at h ⊢
  clear ordered
  induction rows with
  | nil => exact ⟨[], [], rfl, rfl⟩
  | cons r rows ih =>
    obtain ⟨k', v'⟩ := r
    have hne : k ≠ k' := by
      rintro rfl
      simp [lookup] at h
    rw [lookup, if_neg hne] at h
    by_cases hlt : k < k'
    · exact ⟨[], (k', v') :: rows, rfl, by rw [insertRow, if_pos hlt, List.nil_append]⟩
    · obtain ⟨before, after, hrows, hinsert⟩ := ih h
      refine ⟨(k', v') :: before, after, by rw [hrows, List.cons_append], ?_⟩
      rw [insertRow, if_neg hlt, if_neg hne, hinsert, List.cons_append]

end Table

namespace Store

def Operation.event? : Operation → Option Event
  | recordEvent e => some e
  | _ => none

def recorded (ops : List Operation) : List Event := ops.filterMap Operation.event?

def recordedFor (objectKey : String) (ops : List Operation) : List Event :=
  (recorded ops).filter (·.objectKey = objectKey)

/-- The rows hold exactly the events `es`, those of one object and second numbered from zero. -/
def Logs (t : Table (Row Event)) (es : List Event) : Prop :=
  ∀ key row, t.get? key = some row ↔
    ∃ e n, row = .written e ∧ key = e.tableKey n ∧ (es.filter e.sameSecond)[n]? = some e

variable {s : Store} {op : Operation} {es : List Event} {e : Event}

theorem events_after (s : Store) (op : Operation) :
    (s.after op).events = match op.event? with
      | some e => (s.recordEvent e).events
      | none => s.events := by
  unfold after
  cases hop : s.perform op with
  | error cause =>
    cases op with
    | recordEvent e => cases hop
    | _ => rfl
  | ok r =>
    obtain ⟨answer, s'⟩ := r
    cases performed_of_perform hop with
    | wroteAutoscaler writes => cases writes <;> rfl
    | wroteDeployment writes => cases writes <;> rfl
    | deletedAutoscaler | deletedDeployment | tookDemand | recorded => rfl
    | looked read =>
      cases op with
      | recordEvent e => cases read
      | _ => rfl

/-- The next event of an object and second takes the number of those before it. -/
theorem freeSeq_of_logs (h : Logs s.events es) (e : Event) :
    s.freeSeq e = (es.filter e.sameSecond).length := by
  apply freeSeq_eq_iff.2
  constructor
  · rw [Option.eq_none_iff_forall_ne_some]
    intro row hrow
    obtain ⟨f, n, -, heq, hf⟩ := (h _ _).1 hrow
    obtain ⟨⟨hobject, htime⟩, rfl⟩ := Event.tableKey_eq_iff.1 heq
    rw [← Event.sameSecond_congr hobject htime, List.getElem?_eq_none (Nat.le_refl _)] at hf
    cases hf
  · intro m hm hnone
    obtain ⟨f, hf⟩ : ∃ f, (es.filter e.sameSecond)[m]? = some f :=
      ⟨_, List.getElem?_eq_getElem hm⟩
    have hmem : f ∈ es.filter e.sameSecond := List.mem_of_getElem? hf
    obtain ⟨hobject, htime⟩ := Event.sameSecond_iff.1 (List.mem_filter.1 hmem).2
    rw [← Event.sameSecond_congr hobject htime] at hf
    have hkey : e.tableKey m = f.tableKey m :=
      Event.tableKey_eq_iff.2 ⟨⟨hobject.symm, htime.symm⟩, rfl⟩
    have hrow : s.events.get? (e.tableKey m) = some (.written f) :=
      (h _ _).2 ⟨f, m, rfl, hkey, hf⟩
    rw [hnone] at hrow
    cases hrow

theorem Logs.recordEvent (h : Logs s.events es) (e : Event) :
    Logs (s.recordEvent e).events (es ++ [e]) := by
  have hfree := s.get?_tableKey_freeSeq e
  have hself : e.sameSecond e = true := Event.sameSecond_iff.2 ⟨rfl, rfl⟩
  have hseq := freeSeq_of_logs h e
  intro key row
  rw [Store.recordEvent, Table.get?_insert]
  constructor
  · intro hget
    by_cases hkey : key = e.tableKey (s.freeSeq e)
    · rw [if_pos hkey] at hget
      cases hget
      refine ⟨e, s.freeSeq e, rfl, hkey, ?_⟩
      rw [List.filter_append, hseq, List.getElem?_append_right (Nat.le_refl _), Nat.sub_self,
        List.filter_cons_of_pos hself]
      rfl
    · rw [if_neg hkey] at hget
      obtain ⟨f, n, hrow, hf, hn⟩ := (h key row).1 hget
      refine ⟨f, n, hrow, hf, ?_⟩
      rw [List.filter_append, List.getElem?_append_left (List.getElem?_eq_some_iff.1 hn).1, hn]
  · rintro ⟨f, n, rfl, rfl, hn⟩
    rw [List.filter_append] at hn
    by_cases hlt : n < (es.filter f.sameSecond).length
    · rw [List.getElem?_append_left hlt] at hn
      have hget := (h _ _).2 ⟨f, n, rfl, rfl, hn⟩
      rw [if_neg, hget]
      rintro heq
      rw [heq, hfree] at hget
      cases hget
    · rw [List.getElem?_append_right (Nat.le_of_not_lt hlt)] at hn
      have hmem := List.mem_of_getElem? hn
      obtain ⟨hmem, hsame⟩ := List.mem_filter.1 hmem
      obtain rfl := List.mem_singleton.1 hmem
      rw [List.filter_cons_of_pos hself, List.filter_nil] at hn
      have hfirst := (List.getElem?_eq_some_iff.1 hn).1
      rw [List.length_singleton] at hfirst
      have hlast : n = s.freeSeq f := by omega
      rw [if_pos (by rw [hlast])]

theorem recorded_append (before later : List Operation) :
    recorded (before ++ later) = recorded before ++ recorded later := List.filterMap_append

theorem logs_run (ops : List Operation) : Logs (empty.run ops).events (recorded ops) := by
  induction ops using List.reverseRecOn with
  | nil =>
    intro key row
    constructor
    · nofun
    · rintro ⟨e, n, -, -, hn⟩
      cases hn
  | append_singleton ops op ih =>
    rw [run, List.foldl_append, List.foldl_cons, List.foldl_nil, recorded_append, events_after]
    change Logs (empty.run ops).events (recorded ops) at ih
    cases hop : op.event? with
    | none =>
      have hnone : recorded [op] = [] := by rw [recorded, List.filterMap_cons_none hop]; rfl
      rw [hnone, List.append_nil]
      exact ih
    | some e =>
      have hsome : recorded [op] = [e] := by rw [recorded, List.filterMap_cons_some hop]; rfl
      rw [hsome]
      exact ih.recordEvent e

theorem length_rows_run (s : Store) (ops : List Operation) :
    (s.run ops).events.rows.length = s.events.rows.length + (recorded ops).length := by
  induction ops generalizing s with
  | nil => rfl
  | cons op ops ih =>
    refine (ih (s.after op)).trans ?_
    rw [events_after]
    cases hop : op.event? with
    | none => rw [recorded, recorded, List.filterMap_cons_none hop]
    | some e =>
      obtain ⟨before, later, hrows, hinsert⟩ :=
        Table.rows_insert_of_free (s.get?_tableKey_freeSeq e) (.written e)
      rw [recorded, recorded, List.filterMap_cons_some hop]
      simp only [Store.recordEvent, hinsert, hrows, List.length_append, List.length_cons]
      omega

/-- The rows as keys with events, in the order of the keys. -/
theorem Logs.entries {t : Table (Row Event)} (h : Logs t es) :
    ∃ entries : List (String × Event),
      t.rows = entries.map (fun r => (r.1, .written r.2)) ∧ entries.Pairwise (·.1 < ·.1) ∧
      ∀ r, r ∈ entries ↔
        ∃ n, r.1 = r.2.tableKey n ∧ (es.filter r.2.sameSecond)[n]? = some r.2 := by
  have hwritten : t.rows ∈ Set.range (List.map fun r : String × Event => (r.1, Row.written r.2)) := by
    rw [Set.range_list_map]
    rintro ⟨key, row⟩ hr
    obtain ⟨e, n, rfl, -⟩ := (h key row).1 (Table.mem_rows_iff.1 hr)
    exact ⟨(key, e), rfl⟩
  obtain ⟨entries, hentries⟩ := hwritten
  refine ⟨entries, hentries.symm, ?_, ?_⟩
  · have hordered := t.ordered
    rw [← hentries, List.pairwise_map] at hordered
    exact hordered
  · rintro ⟨key, e⟩
    have hrow : (key, e) ∈ entries ↔ (key, Row.written e) ∈ t.rows := by
      rw [← hentries, List.mem_map]
      constructor
      · exact fun hmem => ⟨_, hmem, rfl⟩
      · rintro ⟨r, hmem, heq⟩
        cases heq
        exact hmem
    rw [hrow, Table.mem_rows_iff, h key]
    constructor
    · rintro ⟨f, n, heq, hkey, hn⟩
      cases heq
      exact ⟨n, hkey, hn⟩
    · rintro ⟨n, hkey, hn⟩
      exact ⟨e, n, rfl, hkey, hn⟩

/-- The events of one object are listed by time, and those of one second as they were recorded. -/
structure Chronicle (recorded listed : List Event) : Prop where
  same : listed.Perm recorded
  byTime : listed.Pairwise (·.timestamp ≤ ·.timestamp)
  bySecond : ∀ t, listed.filter (·.timestamp = t) = recorded.filter (·.timestamp = t)

theorem Chronicle.of_bySecond {recorded listed : List Event}
    (byTime : listed.Pairwise (·.timestamp ≤ ·.timestamp))
    (bySecond : ∀ t, listed.filter (·.timestamp = t) = recorded.filter (·.timestamp = t)) :
    Chronicle recorded listed := by
  refine ⟨List.perm_iff_count.2 fun e => ?_, byTime, bySecond⟩
  have hcount := congrArg (List.count e) (bySecond e.timestamp)
  rwa [List.count_filter (by simp), List.count_filter (by simp)] at hcount

theorem isEventKeyOf_tableKey (e : Event) (n : Nat) :
    isEventKeyOf e.objectKey (e.tableKey n) = true := by
  rw [isEventKeyOf, Event.toList_tableKey, List.isPrefixOf_iff_prefix]
  exact List.prefix_append _ _

/-- The events of `es` about one object with their keys, in the order of the keys. -/
structure Numbered (objectKey : String) (es : List Event) (own : List (String × Event)) :
    Prop where
  ordered : own.Pairwise (·.1 < ·.1)
  mem_iff : ∀ r, r ∈ own ↔ r.2.objectKey = objectKey ∧
    ∃ n, r.1 = r.2.tableKey n ∧ (es.filter r.2.sameSecond)[n]? = some r.2

/-- A listing for an object may show events about others, but its own all and in order. -/
theorem Logs.listed (h : Logs s.events es) (objectKey : String) :
    ∃ listed own, s.eventsOf objectKey = .ok listed ∧ Numbered objectKey es own ∧
      listed.filter (·.objectKey = objectKey) = own.map (·.2) := by
  obtain ⟨entries, hrows, hordered, hmem⟩ := h.entries
  refine ⟨(entries.filter fun r => isEventKeyOf objectKey r.1).map (·.2),
    entries.filter (·.2.objectKey = objectKey), ?_, ⟨hordered.filter _, fun r => ?_⟩, ?_⟩
  · rw [eventsOf, Row.readAll_eq_ok_iff, Table.select, hrows, List.filter_map]
    simp only [List.map_map]
    rfl
  · rw [List.mem_filter, hmem, decide_eq_true_iff, and_comm]
  · rw [List.filter_map, List.filter_filter]
    congr 1
    refine List.filter_congr fun r hr => ?_
    obtain ⟨n, hkey, -⟩ := (hmem r).1 hr
    by_cases hobject : r.2.objectKey = objectKey
    · rw [hkey, ← hobject, isEventKeyOf_tableKey, Bool.and_true]
      rfl
    · simp [hobject]

/-- No second has more events than there are numbers of six digits. -/
def InSixDigits (es : List Event) : Prop :=
  ∀ t : Seconds, (es.filter (·.timestamp = t)).length ≤ 10 ^ 6

namespace Numbered

variable {objectKey : String} {own : List (String × Event)} {r q : String × Event}

theorem filter_second (h : Numbered objectKey es own) (hr : r ∈ own) :
    (es.filter (·.objectKey = objectKey)).filter (·.timestamp = r.2.timestamp) =
      es.filter r.2.sameSecond := by
  obtain ⟨rfl, -⟩ := (h.mem_iff r).1 hr
  rw [List.filter_filter]
  rfl

theorem exists_number (h : Numbered objectKey es own)
    (hfew : InSixDigits (es.filter (·.objectKey = objectKey))) (hr : r ∈ own) :
    ∃ n < 10 ^ 6, r.1 = r.2.tableKey n := by
  obtain ⟨-, n, hkey, hn⟩ := (h.mem_iff r).1 hr
  refine ⟨n, ?_, hkey⟩
  have hlt := (List.getElem?_eq_some_iff.1 hn).1
  have hle := hfew r.2.timestamp
  rw [h.filter_second hr] at hle
  omega

theorem timestamp_le (h : Numbered objectKey es own)
    (hfew : InSixDigits (es.filter (·.objectKey = objectKey))) (hr : r ∈ own) (hq : q ∈ own)
    (hlt : r.1 < q.1) : r.2.timestamp ≤ q.2.timestamp := by
  obtain ⟨m, hm, hrkey⟩ := h.exists_number hfew hr
  obtain ⟨n, -, hqkey⟩ := h.exists_number hfew hq
  obtain ⟨hrobject, -⟩ := (h.mem_iff r).1 hr
  obtain ⟨hqobject, -⟩ := (h.mem_iff q).1 hq
  by_contra hnot
  have hback : q.2.tableKey n < r.2.tableKey m :=
    Event.tableKey_lt_tableKey (hqobject.trans hrobject.symm) hm (.inl (UInt64.not_le.1 hnot))
  rw [← hqkey, ← hrkey] at hback
  exact String.lt_irrefl _ (String.lt_trans hlt hback)

/-- The entries of one second are its events as recorded, numbered from zero. -/
theorem filter_eq_zipIdx (h : Numbered objectKey es own)
    (hfew : InSixDigits (es.filter (·.objectKey = objectKey))) (t : Seconds) :
    own.filter (·.2.timestamp = t) =
      ((es.filter (·.objectKey = objectKey)).filter (·.timestamp = t)).zipIdx.map
        fun x => (x.1.tableKey x.2, x.1) := by
  have hfew := hfew t
  have hsecond : ∀ r ∈ own, r.2.timestamp = t →
      es.filter r.2.sameSecond =
        (es.filter (·.objectKey = objectKey)).filter (·.timestamp = t) := by
    rintro r hr rfl
    exact (h.filter_second hr).symm
  have hfield : ∀ e ∈ (es.filter (·.objectKey = objectKey)).filter (·.timestamp = t),
      (e.objectKey = objectKey ∧ e.timestamp = t) ∧
        es.filter e.sameSecond =
          (es.filter (·.objectKey = objectKey)).filter (·.timestamp = t) := by
    intro e he
    obtain ⟨he, htime⟩ := List.mem_filter.1 he
    have hobject := (List.mem_filter.1 he).2
    rw [decide_eq_true_iff] at htime hobject
    subst htime hobject
    refine ⟨⟨rfl, rfl⟩, ?_⟩
    rw [List.filter_filter]
    rfl
  generalize (es.filter (·.objectKey = objectKey)).filter (·.timestamp = t) = ofSecond
    at hfew hsecond hfield ⊢
  have hstrict : (ofSecond.zipIdx.map fun x => (x.1.tableKey x.2, x.1)).Pairwise
      (fun r q => r.1 < q.1) := by
    rw [List.pairwise_map, List.pairwise_iff_getElem]
    intro i j hi hj hij
    rw [List.length_zipIdx] at hi hj
    rw [List.getElem_zipIdx, List.getElem_zipIdx]
    obtain ⟨⟨hobject, htime⟩, -⟩ := hfield _ (List.getElem_mem hi)
    obtain ⟨⟨hobject', htime'⟩, -⟩ := hfield _ (List.getElem_mem hj)
    exact Event.tableKey_lt_tableKey (hobject.trans hobject'.symm) (by omega)
      (.inr ⟨htime.trans htime'.symm, by omega⟩)
  have hirrefl : Std.Irrefl fun r q : String × Event => r.1 < q.1 :=
    ⟨fun r => String.lt_irrefl r.1⟩
  have hantisymm : Std.Antisymm fun r q : String × Event => r.1 < q.1 :=
    ⟨fun r q hrq hqr => absurd (String.lt_trans hrq hqr) (String.lt_irrefl r.1)⟩
  refine (h.ordered.filter _).eq_of_mem_iff hstrict fun r => ?_
  rw [List.mem_filter, h.mem_iff, decide_eq_true_iff, List.mem_map]
  constructor
  · rintro ⟨hr, htime⟩
    have hmem := (h.mem_iff r).2 hr
    obtain ⟨-, n, hkey, hn⟩ := hr
    rw [hsecond r hmem htime] at hn
    exact ⟨(r.2, n), List.mem_zipIdx_iff_getElem?.2 hn, Prod.ext hkey.symm rfl⟩
  · rintro ⟨⟨e, n⟩, hn, rfl⟩
    have hn := List.mem_zipIdx_iff_getElem?.1 hn
    obtain ⟨⟨hobject, htime⟩, hsame⟩ := hfield e (List.mem_of_getElem? hn)
    exact ⟨⟨hobject, n, rfl, by rw [hsame]; exact hn⟩, htime⟩

theorem chronicle (h : Numbered objectKey es own)
    (hfew : InSixDigits (es.filter (·.objectKey = objectKey))) :
    Chronicle (es.filter (·.objectKey = objectKey)) (own.map (·.2)) := by
  refine .of_bySecond ?_ fun t => ?_
  · rw [List.pairwise_map]
    exact h.ordered.imp_of_mem fun hr hq hlt => h.timestamp_le hfew hr hq hlt
  · have hown := congrArg (List.map Prod.snd) (h.filter_eq_zipIdx hfew t)
    rw [List.map_map] at hown
    rw [List.filter_map]
    exact hown.trans (List.zipIdx_map_fst 0 _)

end Numbered

/-- Recording the event ends: the search stops at the first free number, and the row under it is
the only one that is added. -/
def RecordsOneRow (s : Store) (e : Event) : Prop :=
  ∃ seq ≤ s.events.rows.length, s.events.get? (e.tableKey seq) = none ∧
    (∀ m < seq, s.events.get? (e.tableKey m) ≠ none) ∧
    ∃ before after s', s.events.rows = before ++ after ∧
      s.perform (.recordEvent e) = .ok (.done, s') ∧
      s'.events.rows = before ++ (e.tableKey seq, .written e) :: after ∧
      s'.autoscalers = s.autoscalers ∧ s'.deployments = s.deployments ∧ s'.demand = s.demand

theorem freeSeq_le (s : Store) (e : Event) : s.freeSeq e ≤ s.events.rows.length := by
  obtain ⟨n, hn, hfree⟩ := s.events.exists_free e.tableKey_injective
  obtain ⟨-, hbelow⟩ := freeSeq_eq_iff.1 (rfl : s.freeSeq e = _)
  have : ¬ n < s.freeSeq e := fun hlt => hbelow n hlt hfree
  omega

/-- The search stays within a word. -/
theorem freeSeq_lt_size {s : Store} (h : s.events.rows.length < UInt64.size) (e : Event) :
    s.freeSeq e < UInt64.size :=
  (s.freeSeq_le e).trans_lt h

theorem recordsOneRow (s : Store) (e : Event) : s.RecordsOneRow e := by
  obtain ⟨hfree, hbelow⟩ := freeSeq_eq_iff.1 (rfl : s.freeSeq e = _)
  obtain ⟨before, after, hrows, hinsert⟩ := Table.rows_insert_of_free hfree (.written e)
  exact ⟨s.freeSeq e, s.freeSeq_le e, hfree, hbelow, before, after, s.recordEvent e, hrows, rfl,
    hinsert, rfl, rfl, rfl⟩

/-- No event is lost. Each recorded event adds its one row, so the table grows by as many rows as
events are recorded, and up to a million events of one object and second are listed in order. -/
theorem events_chronicled (ops : List Operation) :
    (∀ (s : Store) (e : Event), s.RecordsOneRow e) ∧
    (∀ s : Store, (s.run ops).events.rows.length =
      s.events.rows.length + (recorded ops).length) ∧
    ∀ objectKey, InSixDigits (recordedFor objectKey ops) →
      ∃ listed, (empty.run ops).eventsOf objectKey = .ok listed ∧
        Chronicle (recordedFor objectKey ops) (listed.filter (·.objectKey = objectKey)) := by
  refine ⟨recordsOneRow, fun s => length_rows_run s ops, fun objectKey hfew => ?_⟩
  obtain ⟨listed, own, hlist, hown, heq⟩ := (logs_run ops).listed objectKey
  refine ⟨listed, hlist, ?_⟩
  rw [heq]
  exact hown.chronicle hfew

def mixedEvents : List Operation :=
  [.recordEvent ⟨"ci/a", .normal, "Scaled", "first", 10⟩,
   .recordEvent ⟨"ci/a:b", .warning, "Failed", "of another object", 9⟩,
   .recordEvent ⟨"ci/a", .normal, "Scaled", "second", 10⟩,
   .deleteAutoscaler "ci/a",
   .recordEvent ⟨"ci/a", .normal, "Scaled", "earlier", 9⟩]

theorem events_chronicled_mixedEvents :
    InSixDigits (recordedFor "ci/a" mixedEvents) ∧
      ∃ listed, (empty.run mixedEvents).eventsOf "ci/a" = .ok listed ∧
        Chronicle (recordedFor "ci/a" mixedEvents) (listed.filter (·.objectKey = "ci/a")) := by
  have hfew : InSixDigits (recordedFor "ci/a" mixedEvents) := by
    intro t
    have hall : (recordedFor "ci/a" mixedEvents).length ≤ 10 ^ 6 := by decide
    exact (List.length_filter_le _ _).trans hall
  exact ⟨hfew, (events_chronicled mixedEvents).2.2 "ci/a" hfew⟩

end Store

end RunnerFleet
