import Mathlib.Data.List.TakeWhile
import RunnerFleet.Proofs.Store.Performed

/-!
# Merging entries into a table

Entries are stored one after another, each merged with what stands under its key when its turn
comes. The first key that cannot be read ends this. A key that could not be read before cannot be
read in between, so how far it goes depends on the table at the start alone. Every key up to there
holds what its own entries come to, one after another, and its version has grown by their number.
-/

namespace RunnerFleet

namespace Versioned

variable {α : Type} [Versioned α] {a : α} {as : List α} {k : String}

/-- The version that is stored where `found` stands; a row that does not exist has the version
zero. -/
def storedVersion (found : Option α) : UInt64 := (found.map version).getD 0

@[simp] theorem storedVersion_some (a : α) : storedVersion (some a) = version a := rfl

theorem nextVersion_add_ofNat (v : UInt64) (n : Nat) :
    nextVersion v + UInt64.ofNat n = v + UInt64.ofNat (n + 1) := by
  rw [nextVersion, UInt64.add_assoc, Nat.add_comm n 1, UInt64.ofNat_add]
  rfl

def entriesAt (k : String) (as : List α) : List α := as.filter (key · = k)

theorem entriesAt_cons_self (a : α) (as : List α) :
    entriesAt (key a) (a :: as) = a :: entriesAt (key a) as :=
  List.filter_cons_of_pos (decide_eq_true rfl)

theorem entriesAt_cons_of_ne (h : key a ≠ k) (as : List α) :
    entriesAt k (a :: as) = entriesAt k as :=
  List.filter_cons_of_neg (by simpa using h)

theorem entriesAt_eq_nil_iff : entriesAt k as = [] ↔ ∀ a ∈ as, key a ≠ k := by
  simp [entriesAt]

end Versioned

/-- How an entry is merged with what is stored under its key. Neither the version of that matters
nor whether it has been written and read. -/
structure Merge (α : Type) [Versioned α] where
  merged : Option α → α → α
  key_merged : ∀ found a, Versioned.key (merged found a) = Versioned.key a
  merged_withVersion : ∀ b n a, merged (some (Versioned.withVersion b n)) a = merged (some b) a
  merged_reread : ∀ b a, merged (some (Encoded.reread b)) a = merged (some b) a

section

variable {α : Type} [Versioned α]

open Versioned

def Row.renewed (n : Nat) : Row α → Row α
  | written a => written (withVersion a (version a + UInt64.ofNat n))
  | foreign text => foreign text

theorem Row.renewed_zero : Row.renewed 0 = (id : Row α → Row α) := by
  funext row
  cases row with
  | written a =>
    have hversion : version a + UInt64.ofNat 0 = version a := UInt64.add_zero _
    rw [renewed, hversion, withVersion_version]
    rfl
  | foreign text => rfl

namespace Merge

def stored (μ : Merge α) (found : Option α) (a : α) : α :=
  withVersion (μ.merged found a) (nextVersion (storedVersion found))

def mergedAll (μ : Merge α) (found : Option α) (a : α) (as : List α) : α :=
  as.foldl (fun b => μ.merged (some b)) (μ.merged found a)

/-- Entries that are merged with what they came to the last time come to the same. -/
def Settles (μ : Merge α) : Prop :=
  ∀ found a as, μ.mergedAll (some (μ.mergedAll found a as)) a as = μ.mergedAll found a as

variable {μ : Merge α}

theorem mergedAll_append_singleton (found : Option α) (a b : α) (as : List α) :
    μ.mergedAll found a (as ++ [b]) = μ.merged (some (μ.mergedAll found a as)) b := by
  rw [mergedAll, List.foldl_append]
  rfl

theorem merged_reread_withVersion (b : α) (n : UInt64) (a : α) :
    μ.merged (some (Encoded.reread (withVersion b n))) a = μ.merged (some b) a := by
  rw [μ.merged_reread, μ.merged_withVersion]

theorem mergedAll_reread_withVersion (b : α) (n : UInt64) (a : α) (as : List α) :
    μ.mergedAll (some (Encoded.reread (withVersion b n))) a as = μ.mergedAll (some b) a as := by
  unfold mergedAll
  rw [merged_reread_withVersion]

theorem mergedAll_cons (found : Option α) (a b : α) (as : List α) :
    μ.mergedAll found a (b :: as) = μ.mergedAll (some (μ.merged found a)) b as := rfl

end Merge

namespace Table

def canRead (t : Table (Row α)) (k : String) : Bool := (t.read? k).isOk

/-- The entries up to the first whose key cannot be read. -/
def reached (t : Table (Row α)) (as : List α) : List α := as.takeWhile fun a => t.canRead (key a)

def merge (μ : Merge α) (t : Table (Row α)) (a : α) : Except StoreError (Table (Row α)) :=
  (t.read? (key a)).bind fun found => (t.put (μ.merged found a)).map Prod.snd

def mergeEach (μ : Merge α) (t : Table (Row α)) : List α → Except StoreError Unit × Table (Row α)
  | [] => (.ok (), t)
  | a :: as => match t.merge μ a with
    | .ok t' => t'.mergeEach μ as
    | .error e => (.error e, t)

variable {μ : Merge α} {t t' : Table (Row α)} {a : α} {as es : List α} {k : String}
  {found : Option α}

theorem canRead_iff : t.canRead k = true ↔ ∃ found, t.read? k = .ok found := by
  unfold canRead
  cases t.read? k <;> simp [Except.isOk, Except.toBool]

theorem canRead_insert_written (hread : t.canRead k = true) (a : α) :
    (t.insert k (.written a)).canRead = t.canRead := by
  funext l
  by_cases hl : l = k
  · subst hl
    rw [hread, canRead_iff, read?_insert_written, if_pos rfl]
    exact ⟨_, rfl⟩
  · rw [canRead, read?_insert_written, if_neg hl, canRead]

theorem put_eq (t : Table (Row α)) (a : α) :
    t.put a = (t.read? (key a)).map fun found =>
      t.write (key a) (withVersion a (nextVersion (storedVersion found))) := by
  unfold put
  cases t.read? (key a) with
  | error e => rfl
  | ok found => cases found <;> rfl

theorem merge_eq (μ : Merge α) (t : Table (Row α)) (a : α) :
    t.merge μ a =
      (t.read? (key a)).map fun found => t.insert (key a) (.written (μ.stored found a)) := by
  unfold merge
  simp only [put_eq, μ.key_merged]
  cases t.read? (key a) <;> rfl

theorem mergeEach_cons_of_read (h : t.read? (key a) = .ok found) :
    t.mergeEach μ (a :: as) = (t.insert (key a) (.written (μ.stored found a))).mergeEach μ as := by
  rw [mergeEach, merge_eq, h]
  rfl

theorem mergeEach_cons_of_error {e : StoreError} (h : t.read? (key a) = .error e) :
    t.mergeEach μ (a :: as) = (.error e, t) := by
  rw [mergeEach, merge_eq, h]
  rfl

theorem reached_cons_of_read (h : t.read? (key a) = .ok found) (b : α) :
    t.reached (a :: as) = a :: (t.insert (key a) (.written b)).reached as := by
  have hread : t.canRead (key a) = true := canRead_iff.2 ⟨found, h⟩
  unfold reached
  rw [List.takeWhile_cons_of_pos (p := fun a => t.canRead (key a)) hread,
    canRead_insert_written hread]

theorem reached_cons_of_error {e : StoreError} (h : t.read? (key a) = .error e) :
    t.reached (a :: as) = [] := by
  refine List.takeWhile_cons_of_neg fun hread => ?_
  obtain ⟨found, hfound⟩ := canRead_iff.1 hread
  rw [h] at hfound
  cases hfound

theorem reached_eq_self_iff :
    t.reached as = as ↔ ∀ a ∈ as, ∃ found, t.read? (key a) = .ok found := by
  rw [reached, List.takeWhile_eq_self_iff]
  simp only [canRead_iff]

theorem entriesAt_reached_eq_nil (t : Table (Row α)) (h : entriesAt k as = []) :
    entriesAt k (t.reached as) = [] :=
  entriesAt_eq_nil_iff.2 fun a ha =>
    entriesAt_eq_nil_iff.1 h a ((List.takeWhile_sublist _).subset ha)

/-- Merging succeeds exactly if all keys can be read. -/
theorem mergeEach_isOk_iff : (t.mergeEach μ as).1 = .ok () ↔ t.reached as = as := by
  induction as generalizing t with
  | nil => exact ⟨fun _ => rfl, fun _ => rfl⟩
  | cons a as ih =>
    cases hread : t.read? (key a) with
    | error e =>
      rw [mergeEach_cons_of_error hread, reached_cons_of_error hread]
      exact ⟨nofun, nofun⟩
    | ok found =>
      rw [mergeEach_cons_of_read hread, reached_cons_of_read hread (μ.stored found a), ih,
        List.cons.injEq, eq_self, true_and]

theorem get?_mergeEach_of_unnamed (h : entriesAt k (t.reached as) = []) :
    (t.mergeEach μ as).2.get? k = t.get? k := by
  induction as generalizing t with
  | nil => rfl
  | cons a as ih =>
    cases hread : t.read? (key a) with
    | error e => rw [mergeEach_cons_of_error hread]
    | ok found =>
      rw [reached_cons_of_read hread (μ.stored found a), entriesAt_eq_nil_iff] at h
      obtain ⟨hne, hrest⟩ := List.forall_mem_cons.1 h
      rw [mergeEach_cons_of_read hread, ih (entriesAt_eq_nil_iff.2 hrest), get?_insert,
        if_neg (Ne.symm hne)]

/-- A key holds what its entries come to, its version has grown by their number. -/
theorem get?_mergeEach_of_named (hread : t.read? k = .ok found)
    (h : entriesAt k (t.reached as) = a :: es) :
    (t.mergeEach μ as).2.get? k = some (.written (withVersion (μ.mergedAll found a es)
      (storedVersion found + UInt64.ofNat (es.length + 1)))) := by
  induction as generalizing t found a es with
  | nil => cases h
  | cons b as ih =>
    cases hb : t.read? (key b) with
    | error e =>
      rw [reached_cons_of_error hb] at h
      cases h
    | ok old =>
      rw [reached_cons_of_read hb (μ.stored old b)] at h
      rw [mergeEach_cons_of_read hb]
      by_cases hk : key b = k
      · subst hk
        obtain rfl : old = found := Except.ok.inj (hb.symm.trans hread)
        rw [entriesAt_cons_self] at h
        obtain ⟨rfl, hes⟩ := List.cons.inj h
        cases es with
        | nil =>
          rw [get?_mergeEach_of_unnamed hes, get?_insert, if_pos rfl]
          rfl
        | cons c es =>
          have hnew : (t.insert (key b) (.written (μ.stored old b))).read? (key b) =
              .ok (some (Encoded.reread (μ.stored old b))) := by
            rw [read?_insert_written, if_pos rfl]
          rw [ih hnew hes, Merge.stored, Merge.mergedAll_reread_withVersion, Merge.mergedAll_cons,
            storedVersion_some, version_reread, version_withVersion, nextVersion_add_ofNat,
            List.length_cons]
      · rw [entriesAt_cons_of_ne hk] at h
        refine ih ?_ h
        rw [read?_insert_written, if_neg (Ne.symm hk)]
        exact hread

theorem canRead_mergeEach (μ : Merge α) (t : Table (Row α)) (as : List α) :
    (t.mergeEach μ as).2.canRead = t.canRead := by
  induction as generalizing t with
  | nil => rfl
  | cons a as ih =>
    cases hread : t.read? (key a) with
    | error e => rw [mergeEach_cons_of_error hread]
    | ok found =>
      rw [mergeEach_cons_of_read hread, ih, canRead_insert_written (canRead_iff.2 ⟨found, hread⟩)]

theorem reached_mergeEach (μ : Merge α) (t : Table (Row α)) (as bs : List α) :
    (t.mergeEach μ as).2.reached bs = t.reached bs := by
  rw [reached, canRead_mergeEach, reached]

theorem read?_of_reached (h : entriesAt k (t.reached as) = a :: es) :
    ∃ found, t.read? k = .ok found := by
  have hmem : a ∈ entriesAt k (t.reached as) := h ▸ List.mem_cons_self
  obtain ⟨hreached, hkey⟩ := List.mem_filter.1 hmem
  obtain rfl := of_decide_eq_true hkey
  exact canRead_iff.1 (List.mem_takeWhile_imp (p := fun a => t.canRead (key a)) hreached)

/-- What of a resource is always that of its last entry is so after merging. -/
theorem map_read?_mergeEach {β : Type} {g : α → β}
    (hlast : ∀ found a as n, g (Encoded.reread (withVersion (μ.mergedAll found a as) n)) =
      g (as.getLast?.getD a))
    (t : Table (Row α)) (as : List α) (k : String) :
    ((t.mergeEach μ as).2.read? k).map (Option.map g) =
      match (entriesAt k (t.reached as)).getLast? with
      | some a => .ok (some (g a))
      | none => (t.read? k).map (Option.map g) := by
  cases hentries : entriesAt k (t.reached as) with
  | nil =>
    rw [read?, get?_mergeEach_of_unnamed hentries]
    rfl
  | cons a es =>
    obtain ⟨found, hread⟩ := read?_of_reached hentries
    rw [read?, get?_mergeEach_of_named hread hentries, List.getLast?_cons]
    exact congrArg (fun b => Except.ok (some b)) (hlast found a es _)

/-- Merging the same entries once more renews their rows and changes nothing else. -/
theorem get?_mergeEach_again (hμ : μ.Settles) (t : Table (Row α)) (as : List α) (k : String) :
    ((t.mergeEach μ as).2.mergeEach μ as).2.get? k =
      ((t.mergeEach μ as).2.get? k).map (Row.renewed (entriesAt k (t.reached as)).length) := by
  have hreached := reached_mergeEach μ t as as
  cases hentries : entriesAt k (t.reached as) with
  | nil =>
    rw [get?_mergeEach_of_unnamed (by rw [hreached, hentries]), List.length_nil,
      Row.renewed_zero, Option.map_id, id]
  | cons a es =>
    obtain ⟨found, hread⟩ := read?_of_reached hentries
    have hrow := get?_mergeEach_of_named (μ := μ) hread hentries
    have hagain : (t.mergeEach μ as).2.read? k = .ok (some (Encoded.reread (withVersion
        (μ.mergedAll found a es) (storedVersion found + UInt64.ofNat (es.length + 1))))) := by
      rw [read?, hrow]
      rfl
    rw [get?_mergeEach_of_named hagain (by rw [hreached, hentries]), hrow,
      Merge.mergedAll_reread_withVersion, hμ, storedVersion_some, version_reread]
    simp only [Option.map_some, Row.renewed, version_withVersion, withVersion_withVersion,
      List.length_cons]

end Table

end

end RunnerFleet
