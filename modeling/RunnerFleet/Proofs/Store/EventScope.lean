import RunnerFleet.Proofs.Operator.Procedure
import RunnerFleet.Proofs.Store.EventLog

/-!
# Whose events a listing shows

A listing takes the events whose keys begin with the object's key and a colon. A colon may also
stand in a namespace or a name, and time and number follow the object in the same key. So the
listing for one object shows events about another one whose key continues the first key after a
colon, and for a key that ends like a time the events of that time. Every other event that it shows
is the object's own.
-/

namespace RunnerFleet

/-- Where a separator is looked for in front of its last place. -/
theorem append_singleton_prefix_iff {α : Type} {c : α} {xs ys zs : List α} (h : c ∉ zs) :
    xs ++ [c] <+: ys ++ c :: zs ↔ xs = ys ∨ xs ++ [c] <+: ys := by
  constructor
  · rintro ⟨rest, heq⟩
    rw [List.append_assoc, List.singleton_append] at heq
    obtain ⟨us, rfl, hrest⟩ | ⟨us, rfl, hrest⟩ := List.append_eq_append_iff.1 heq
    · cases us with
      | nil => exact .inl (List.append_nil xs).symm
      | cons u us =>
        obtain rfl : c = u := (List.cons.inj hrest).1
        exact .inr ⟨us, by rw [List.append_assoc, List.singleton_append]⟩
    · cases us with
      | nil => exact .inl (List.append_nil ys)
      | cons u us =>
        have hzs : zs = us ++ c :: rest := (List.cons.inj hrest).2
        exact absurd (hzs ▸ by simp) h
  · rintro (rfl | hprefix)
    · exact ⟨zs, by rw [List.append_assoc, List.singleton_append]⟩
    · exact hprefix.trans (List.prefix_append ys _)

namespace Event

variable {e : Event} {key : String} {n : Nat}

/-- The event is about another object whose key goes on after `key` and a colon, or `key` is that
object's key followed by the time of the event. -/
def StraysInto (key : String) (e : Event) : Prop :=
  (keyStart key).toList <+: e.objectKey.toList ∨
    key.toList = (keyStart e.objectKey).toList ++ Decimal.padded 20 e.timestamp.toNat

instance (key : String) (e : Event) : Decidable (e.StraysInto key) :=
  inferInstanceAs (Decidable (_ ∨ _))

theorem StraysInto.objectKey_ne (h : e.StraysInto key) : e.objectKey ≠ key := by
  rintro rfl
  have hlength : e.objectKey.toList.length < (keyStart e.objectKey).toList.length := by
    rw [toList_keyStart, List.length_append]
    exact Nat.lt_succ_self _
  obtain hprefix | heq := h
  · exact absurd hprefix.length_le (Nat.not_le.2 hlength)
  · have hsame := congrArg List.length heq
    rw [List.length_append] at hsame
    omega

end Event

namespace Store

variable {s : Store} {es : List Event} {key : String}

theorem isEventKeyOf_tableKey_iff {e : Event} {n : Nat} :
    isEventKeyOf key (e.tableKey n) = true ↔ e.objectKey = key ∨ e.StraysInto key := by
  -- the number stands behind the last colon of the key, and the time behind the one before it
  have hkey : (e.tableKey n).toList =
      (e.objectKey.toList ++ ':' :: Decimal.padded 20 e.timestamp.toNat) ++
        ':' :: Decimal.padded 6 n := by
    rw [Event.toList_tableKey, Event.toList_keyStart, Event.keyEnd]
    simp only [List.append_assoc, List.cons_append, List.nil_append]
  rw [isEventKeyOf, List.isPrefixOf_iff_prefix, hkey, Event.StraysInto, Event.toList_keyStart,
    append_singleton_prefix_iff (Decimal.colon_notMem_padded 6 n),
    append_singleton_prefix_iff (Decimal.colon_notMem_padded 20 _), Event.toList_keyStart,
    List.append_assoc, List.singleton_append, String.toList_inj, eq_comm (a := key)]
  tauto

example : Event.StraysInto "ci/builds:00000000000000000100"
    ⟨"ci/builds", .normal, "Scaled", "scaled to 3", 100⟩ := by decide

/-- The listing for `key` holds the recorded events about it and those that stray into it. -/
theorem Logs.mem_listed_iff (h : Logs s.events es) (key : String) :
    ∃ listed, s.eventsOf key = .ok listed ∧
      ∀ e, e ∈ listed ↔ e ∈ es ∧ (e.objectKey = key ∨ e.StraysInto key) := by
  obtain ⟨entries, hrows, -, hmem⟩ := h.entries
  refine ⟨(entries.filter fun r => isEventKeyOf key r.1).map (·.2), ?_, fun e => ?_⟩
  · rw [eventsOf, Row.readAll_eq_ok_iff, Table.select, hrows, List.filter_map]
    simp only [List.map_map]
    rfl
  · simp only [List.mem_map, List.mem_filter]
    constructor
    · rintro ⟨r, ⟨hr, hshown⟩, rfl⟩
      obtain ⟨n, hkey, hn⟩ := (hmem r).1 hr
      rw [hkey, isEventKeyOf_tableKey_iff] at hshown
      exact ⟨(List.mem_filter.1 (List.mem_of_getElem? hn)).1, hshown⟩
    · rintro ⟨he, hshown⟩
      have hown : e ∈ es.filter e.sameSecond :=
        List.mem_filter.2 ⟨he, Event.sameSecond_iff.2 ⟨rfl, rfl⟩⟩
      obtain ⟨n, hn⟩ := List.mem_iff_getElem?.1 hown
      refine ⟨(e.tableKey n, e), ⟨(hmem _).2 ⟨n, rfl, hn⟩, ?_⟩, rfl⟩
      exact isEventKeyOf_tableKey_iff.2 hshown

def latest (listed : List Event) : List Event :=
  listed.drop (listed.length - Command.shownEvents)

/-- The listing for an object, and what a status prints for it, show its own events only. -/
structure ShowsOwn (s : Store) (key : String) : Prop where
  listed : ∀ {listed}, s.eventsOf key = .ok listed → ∀ e ∈ listed, e.objectKey = key
  printed : ∀ {text}, (Command.status key s).1 = .ok text → ∃ a listed,
    s.autoscaler? key = .ok (some a) ∧ s.eventsOf key = .ok listed ∧
      text = (Command.statusJson a listed).indented ++ "\n" ∧
      ∀ e ∈ latest listed, e.objectKey = key

/-- What a status prints stands in the listing, so it shows no stray event that the listing does
not show. -/
theorem ShowsOwn.of_listed (h : ∀ {listed}, s.eventsOf key = .ok listed →
    ∀ e ∈ listed, e.objectKey = key) : s.ShowsOwn key := by
  refine ⟨h, fun hprint => ?_⟩
  obtain ⟨e, heq⟩ | ⟨a, listed, hread, hlist, heq⟩ := Command.status_cases key s
  · rw [heq] at hprint
    cases hprint
  · rw [heq] at hprint
    exact ⟨a, listed, hread, hlist, (Except.ok.inj hprint).symm,
      fun e he => h hlist e (List.mem_of_mem_drop he)⟩

/-- In every store that operations have made, the listing for a key succeeds and holds the events
recorded about that key and those that stray into it. So it shows the object's own events exactly if
no recorded event strays. -/
theorem showsOwn_iff (ops : List Operation) (key : String) :
    (∃ listed, (empty.run ops).eventsOf key = .ok listed ∧
      ∀ e, e ∈ listed ↔ e ∈ recorded ops ∧ (e.objectKey = key ∨ e.StraysInto key)) ∧
    ((empty.run ops).ShowsOwn key ↔ ∀ e ∈ recorded ops, ¬ e.StraysInto key) := by
  obtain ⟨listed, hlist, hmem⟩ := (logs_run ops).mem_listed_iff key
  refine ⟨⟨listed, hlist, hmem⟩, fun hown e he hstray => ?_, fun hnone => .of_listed ?_⟩
  · have hshown := (hmem e).2 ⟨he, .inr hstray⟩
    exact hstray.objectKey_ne (hown.listed hlist e hshown)
  · intro listed' hlist' e he
    rw [hlist] at hlist'
    cases hlist'
    obtain ⟨hrecorded, hobject | hstray⟩ := (hmem e).1 he
    · exact hobject
    · exact absurd hstray (hnone e hrecorded)

def nightlyBuilds : List Operation :=
  [.createAutoscaler ⟨.fresh "ci" "builds", ⟨"runners", none, none, none, [], []⟩, .empty⟩,
   .createAutoscaler ⟨.fresh "ci" "builds:nightly", ⟨"runners", none, none, none, [], []⟩, .empty⟩,
   .recordEvent ⟨"ci/builds:nightly", .normal, "Scaled", "scaled to 3", 100⟩]

theorem not_showsOwn_nightlyBuilds : ¬ (empty.run nightlyBuilds).ShowsOwn "ci/builds" := by
  intro h
  have hlist : (empty.run nightlyBuilds).eventsOf "ci/builds" =
      .ok [⟨"ci/builds:nightly", .normal, "Scaled", "scaled to 3", 100⟩] := by decide
  have hkey := h.listed hlist _ (List.mem_singleton_self _)
  exact absurd hkey (by decide)

end Store

end RunnerFleet
