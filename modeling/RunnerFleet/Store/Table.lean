/-!
# Ordered tables

A table holds rows under text keys, each key once, in the order of the keys. That order goes by
code points, which is also the order of the keys' UTF-8 bytes. A table is determined by what its
keys hold.
-/

namespace RunnerFleet

theorem lt_of_not_lt_of_ne {a b : String} (h : ¬ a < b) (hne : a ≠ b) : b < a := by
  rcases Decidable.em (b < a) with hb | hb
  · exact hb
  · exact absurd (String.le_antisymm (String.not_lt.1 hb) (String.not_lt.1 h)) hne

/-- Rows in strictly increasing order of their keys. -/
structure Table (α : Type) where
  rows : List (String × α)
  ordered : rows.Pairwise (·.1 < ·.1)
  deriving DecidableEq

namespace Table

variable {α : Type}

def lookup (k : String) : List (String × α) → Option α
  | [] => none
  | (k', v) :: rows => if k = k' then some v else lookup k rows

def insertRow (k : String) (v : α) : List (String × α) → List (String × α)
  | [] => [(k, v)]
  | (k', v') :: rows =>
    if k < k' then (k, v) :: (k', v') :: rows
    else if k = k' then (k, v) :: rows
    else (k', v') :: insertRow k v rows

theorem mem_insertRow {k : String} {v : α} {rows : List (String × α)} {r : String × α}
    (h : r ∈ insertRow k v rows) : r = (k, v) ∨ r ∈ rows := by
  induction rows with
  | nil => simpa [insertRow] using h
  | cons r' rows ih =>
    simp only [insertRow] at h
    split at h
    · simpa using h
    · split at h
      · simp only [List.mem_cons] at h ⊢
        exact h.imp id .inr
      · simp only [List.mem_cons] at h ⊢
        rcases h with h | h
        · exact .inr (.inl h)
        · exact (ih h).imp id .inr

theorem pairwise_insertRow (k : String) (v : α) {rows : List (String × α)}
    (h : rows.Pairwise (·.1 < ·.1)) : (insertRow k v rows).Pairwise (·.1 < ·.1) := by
  induction rows with
  | nil => simp [insertRow]
  | cons r rows ih =>
    obtain ⟨hr, hrows⟩ := List.pairwise_cons.1 h
    simp only [insertRow]
    split
    · next hlt =>
      refine List.pairwise_cons.2 ⟨fun r' hr' => ?_, h⟩
      rcases List.mem_cons.1 hr' with rfl | hr'
      · exact hlt
      · exact String.lt_trans hlt (hr r' hr')
    · split
      · next heq => exact List.pairwise_cons.2 ⟨fun r' hr' => heq ▸ hr r' hr', hrows⟩
      · next hlt hne =>
        refine List.pairwise_cons.2 ⟨fun r' hr' => ?_, ih hrows⟩
        rcases mem_insertRow hr' with rfl | hr'
        · exact lt_of_not_lt_of_ne hlt hne
        · exact hr r' hr'

def empty : Table α := ⟨[], .nil⟩

def get? (t : Table α) (k : String) : Option α := lookup k t.rows

def insert (t : Table α) (k : String) (v : α) : Table α :=
  ⟨insertRow k v t.rows, pairwise_insertRow k v t.ordered⟩

def erase (t : Table α) (k : String) : Table α :=
  ⟨t.rows.filter (·.1 ≠ k), t.ordered.filter _⟩

def select (t : Table α) (p : String → Bool) : List (String × α) := t.rows.filter fun r => p r.1

def keys (t : Table α) : List String := t.rows.map (·.1)

def values (t : Table α) : List α := t.rows.map (·.2)

def restrict (t : Table α) (p : String → Bool) : Table α :=
  ⟨t.rows.filter fun r => p r.1, t.ordered.filter _⟩

theorem lookup_insertRow (k k' : String) (v : α) (rows : List (String × α)) :
    lookup k' (insertRow k v rows) = if k' = k then some v else lookup k' rows := by
  induction rows with
  | nil => simp [insertRow, lookup]
  | cons r rows ih => grind [insertRow, lookup]

theorem lookup_filter (p : String → Bool) (k : String) (rows : List (String × α)) :
    lookup k (rows.filter fun r => p r.1) = if p k then lookup k rows else none := by
  induction rows with
  | nil => simp [lookup]
  | cons r rows ih => grind [lookup]

theorem lookup_eq_none {k : String} {rows : List (String × α)} (h : ∀ r ∈ rows, k < r.1) :
    lookup k rows = none := by
  induction rows with
  | nil => rfl
  | cons r rows ih =>
    have hne : k ≠ r.1 := fun heq => String.lt_irrefl r.1 (heq ▸ h r (by simp))
    simp only [lookup, if_neg hne]
    exact ih fun r' hr' => h r' (by simp [hr'])

@[simp] theorem get?_empty (k : String) : (empty : Table α).get? k = none := rfl

@[simp] theorem get?_insert (t : Table α) (k k' : String) (v : α) :
    (t.insert k v).get? k' = if k' = k then some v else t.get? k' := lookup_insertRow k k' v t.rows

@[simp] theorem get?_erase (t : Table α) (k k' : String) :
    (t.erase k).get? k' = if k' = k then none else t.get? k' := by
  have h := lookup_filter (fun x => decide (x ≠ k)) k' t.rows
  grind [get?, erase]

@[simp] theorem get?_restrict (t : Table α) (p : String → Bool) (k : String) :
    (t.restrict p).get? k = if p k then t.get? k else none := lookup_filter p k t.rows

theorem rows_eq_of_lookup {rows rows' : List (String × α)} (h : rows.Pairwise (·.1 < ·.1))
    (h' : rows'.Pairwise (·.1 < ·.1)) (heq : ∀ k, lookup k rows = lookup k rows') :
    rows = rows' := by
  induction rows generalizing rows' with
  | nil =>
    cases rows' with
    | nil => rfl
    | cons r' rows' => simpa [lookup] using heq r'.1
  | cons r rows ih =>
    obtain ⟨hr, hrows⟩ := List.pairwise_cons.1 h
    cases rows' with
    | nil => simpa [lookup] using heq r.1
    | cons r' rows' =>
      obtain ⟨hr', hrows'⟩ := List.pairwise_cons.1 h'
      obtain ⟨k, v⟩ := r
      obtain ⟨k', v'⟩ := r'
      have hk : k = k' := by
        have below : ∀ {a b : String} {v' : α} {rest : List (String × α)} {v : α},
            (∀ r ∈ rest, b < r.1) → lookup a ((b, v') :: rest) = some v → ¬ a < b := by
          intro a b v' rest v hrest hget hlt
          have : lookup a ((b, v') :: rest) = none := by
            refine lookup_eq_none fun r hr => ?_
            rcases List.mem_cons.1 hr with rfl | hr
            · exact hlt
            · exact String.lt_trans hlt (hrest r hr)
          simp [this] at hget
        have hget : lookup k ((k', v') :: rows') = some v := by simpa [lookup] using (heq k).symm
        have hget' : lookup k' ((k, v) :: rows) = some v' := by simpa [lookup] using heq k'
        have h1 : ¬ k < k' := below hr' hget
        have h2 : ¬ k' < k := below hr hget'
        exact Decidable.byContradiction fun hne => h2 (lt_of_not_lt_of_ne h1 hne)
      subst hk
      have hv : v = v' := by simpa [lookup] using heq k
      subst hv
      congr 1
      refine ih hrows hrows' fun x => ?_
      by_cases hx : x = k
      · subst hx
        rw [lookup_eq_none hr, lookup_eq_none hr']
      · simpa [lookup, hx] using heq x

/-- Tables that hold the same under every key are equal. -/
theorem ext {t t' : Table α} (h : ∀ k, t.get? k = t'.get? k) : t = t' := by
  obtain ⟨rows, hrows⟩ := t
  obtain ⟨rows', hrows'⟩ := t'
  obtain rfl := rows_eq_of_lookup hrows hrows' h
  rfl

theorem mem_rows_iff {t : Table α} {k : String} {v : α} : (k, v) ∈ t.rows ↔ t.get? k = some v := by
  obtain ⟨rows, h⟩ := t
  simp only [get?]
  induction rows with
  | nil => simp [lookup]
  | cons r rows ih =>
    obtain ⟨hr, hrows⟩ := List.pairwise_cons.1 h
    obtain ⟨k', v'⟩ := r
    by_cases hk : k = k'
    · subst hk
      have : (k, v) ∉ rows := fun hm => String.lt_irrefl k (hr _ hm)
      simp only [List.mem_cons, Prod.mk.injEq, true_and, lookup, if_true, Option.some.injEq, this,
        or_false]
      exact eq_comm
    · simpa [lookup, hk] using ih hrows

end Table

end RunnerFleet
