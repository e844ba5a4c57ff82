import Mathlib.Data.List.Nodup
import Mathlib.Logic.Relation
import RunnerFleet.Json.Record

/-!
# Variants of a value

A reader of records looks the fields up by their names. So it cannot tell in which order the members
of an object stand, and of members that are not fields it does not even know that they are there.
This holds at every depth: where records stand in a value is told by its shape, and what is read of
a field depends on no more than the reader of that field lets through.
-/

namespace RunnerFleet.Json

inductive Shape where
  | plain
  | list (item : Shape)
  /-- A record with these fields in their order. A strict one admits no other members. -/
  | record (strict : Bool) (fields : List (String × Shape))
  /-- A record that names its kind in the member `tag`. The kind decides which members are fields,
  and all of them are plain. -/
  | tagged (tag : String) (fieldsOf : String → List String)

namespace Shape

def flat (names : List String) : Shape := record false (names.map (·, plain))

end Shape

/-- The second value is the first one but for the order of the members of one record, or for one
more member that is not a field. A record with a tag is kept as a value until its kind is known, so
there a further member has to be one that can be kept. -/
inductive Variant : Shape → Json → Json → Prop
  | permuted {strict : Bool} {fields : List (String × Shape)} {members members' : List (String × Json)}
      (h : members.Perm members') :
      Variant (.record strict fields) (.object members) (.object members')
  | extended {fields : List (String × Shape)} {before after : List (String × Json)} {k : String}
      {j : Json} (h : k ∉ fields.map Prod.fst) :
      Variant (.record false fields) (.object (before ++ after)) (.object (before ++ (k, j) :: after))
  | permutedTagged {tag : String} {fieldsOf : String → List String}
      {members members' : List (String × Json)} (h : members.Perm members') :
      Variant (.tagged tag fieldsOf) (.object members) (.object members')
  | extendedTagged {tag : String} {fieldsOf : String → List String}
      {before after : List (String × Json)} {k : String} {j : Json} (htag : k ≠ tag)
      (hfield : ∀ kind, (tag, .string kind) ∈ before ++ after → k ∉ fieldsOf kind)
      (hsound : j.sound = true) :
      Variant (.tagged tag fieldsOf) (.object (before ++ after))
        (.object (before ++ (k, j) :: after))
  | member {strict : Bool} {fields : List (String × Shape)} {before after : List (String × Json)}
      {k : String} {shape : Shape} {j j' : Json} (hfield : (k, shape) ∈ fields)
      (h : Variant shape j j') :
      Variant (.record strict fields) (.object (before ++ (k, j) :: after))
        (.object (before ++ (k, j') :: after))
  | position {strict : Bool} {fields : List (String × Shape)} {before after : List Json}
      {k : String} {shape : Shape} {j j' : Json} (hfield : fields[before.length]? = some (k, shape))
      (h : Variant shape j j') :
      Variant (.record strict fields) (.array (before ++ j :: after)) (.array (before ++ j' :: after))
  | item {shape : Shape} {before after : List Json} {j j' : Json} (h : Variant shape j j') :
      Variant (.list shape) (.array (before ++ j :: after)) (.array (before ++ j' :: after))

/-- The values come from each other by any number of such changes. -/
def Alike (shape : Shape) : Json → Json → Prop := Relation.EqvGen (Variant shape)

section

variable {k k' : String} {j : Json} {before after members members' : List (String × Json)}

theorem member?_perm (h : members.Perm members') (k : String) :
    member? k members = member? k members' := by
  unfold member?
  have hfound := h.filter (fun m => decide (m.1 = k))
  cases hm : members.filter fun m => decide (m.1 = k) with
  | nil =>
    rw [hm] at hfound
    rw [hfound.nil_eq.symm]
  | cons m ms =>
    rw [hm] at hfound
    cases ms with
    | nil => rw [List.perm_singleton.1 hfound.symm]
    | cons m' ms =>
      have hlength := hfound.length_eq
      cases hm' : members'.filter fun m => decide (m.1 = k) with
      | nil => simp [hm'] at hlength
      | cons x xs =>
        cases xs with
        | nil => simp [hm'] at hlength
        | cons y ys => rfl

theorem mem_of_member? (h : member? k members = some (some j)) : (k, j) ∈ members := by
  unfold member? at h
  split at h
  · cases h
  · next k' j' hfilter =>
    cases h
    have hmem : (k', j) ∈ members.filter fun m => decide (m.1 = k) := by rw [hfilter]; simp
    obtain ⟨hmem, hk⟩ := List.mem_filter.1 hmem
    exact of_decide_eq_true hk ▸ hmem
  · cases h

theorem member?_insert_of_ne (h : k' ≠ k) :
    member? k (before ++ (k', j) :: after) = member? k (before ++ after) := by
  simp only [member?, List.filter_append, List.filter_cons, decide_eq_true_eq, if_neg h]

theorem fields?_congr {names : List String}
    (h : ∀ k ∈ names, member? k members = member? k members') :
    (Json.object members).fields? names = (Json.object members').fields? names := by
  unfold fields?
  dsimp only
  induction names with
  | nil => rfl
  | cons k names ih =>
    obtain ⟨hk, hnames⟩ := List.forall_mem_cons.1 h
    rw [List.mapM_cons, List.mapM_cons, hk, ih hnames]

end

inductive FieldAlike (shape : Shape) : Option Json → Option Json → Prop
  | same (field : Option Json) : FieldAlike shape field field
  | varied {j j' : Json} (h : Variant shape j j') : FieldAlike shape (some j) (some j')

inductive FieldsAlike : List (String × Shape) → List (Option Json) → List (Option Json) → Prop
  | nil : FieldsAlike [] [] []
  | cons {k : String} {shape : Shape} {fields : List (String × Shape)} {o o' : Option Json}
      {os os' : List (Option Json)} (first : FieldAlike shape o o') (rest : FieldsAlike fields os os') :
      FieldsAlike ((k, shape) :: fields) (o :: os) (o' :: os')

theorem FieldAlike.eq_of_plain {o o' : Option Json} (h : FieldAlike .plain o o') : o = o' := by
  cases h with
  | same => rfl
  | varied h => cases h

/-- Plain fields have no part that may vary. -/
theorem FieldsAlike.eq_of_plain {names : List String} {os os' : List (Option Json)}
    (h : FieldsAlike (names.map (·, .plain)) os os') : os = os' := by
  induction names generalizing os os' with
  | nil =>
    cases h
    rfl
  | cons k names ih =>
    obtain _ | ⟨hfirst, hrest⟩ := h
    rw [hfirst.eq_of_plain, ih hrest]

section

variable {strict : Bool} {fields : List (String × Shape)} {shape : Shape} {k : String} {j j' : Json}
  {before after members members' : List (String × Json)}

theorem member?_varied (h : Variant shape j j') :
    Option.Rel (FieldAlike shape) (member? k (before ++ (k, j) :: after))
      (member? k (before ++ (k, j') :: after)) := by
  simp only [member?, List.filter_append, List.filter_cons, decide_true, if_true]
  cases before.filter fun m => decide (m.1 = k) with
  | cons m ms => cases ms <;> exact .none
  | nil =>
    cases after.filter fun m => decide (m.1 = k) with
    | cons m ms => exact .none
    | nil => exact .some (.varied h)

theorem member?_alike_of_eq (h : member? k members = member? k members') :
    Option.Rel (FieldAlike shape) (member? k members) (member? k members') := by
  rw [h]
  cases member? k members' with
  | none => exact .none
  | some field => exact .some (.same field)

/-- Objects that have alike fields one by one have them all together. -/
theorem fields?_alike
    (h : ∀ f ∈ fields, Option.Rel (FieldAlike f.2) (member? f.1 members) (member? f.1 members')) :
    Option.Rel (FieldsAlike fields) ((Json.object members).fields? (fields.map Prod.fst))
      ((Json.object members').fields? (fields.map Prod.fst)) := by
  unfold fields?
  dsimp only
  induction fields with
  | nil => exact .some .nil
  | cons f fields ih =>
    obtain ⟨hf, hfields⟩ := List.forall_mem_cons.1 h
    have hrest := ih hfields
    rw [List.map_cons, List.mapM_cons, List.mapM_cons]
    generalize member? f.1 members = x, member? f.1 members' = x' at hf ⊢
    generalize (fields.map Prod.fst).mapM (member? · members) = y,
      (fields.map Prod.fst).mapM (member? · members') = y' at hrest ⊢
    cases hf with
    | none => exact .none
    | some hf =>
      cases hrest with
      | none => exact .none
      | some hrest => exact .some (.cons hf hrest)

theorem fieldsAlike_refl {os : List (Option Json)} (h : os.length = fields.length) :
    FieldsAlike fields os os := by
  induction fields generalizing os with
  | nil =>
    rw [List.eq_nil_of_length_eq_zero h]
    exact .nil
  | cons f fields ih =>
    obtain ⟨o, os, rfl⟩ := List.exists_cons_of_length_eq_add_one h
    exact .cons (.same o) (ih (Nat.succ.inj h))

theorem fieldsAlike_at {xs ys : List (Option Json)} (hfield : fields[xs.length]? = some (k, shape))
    (h : Variant shape j j') (hlength : (xs ++ some j :: ys).length = fields.length) :
    FieldsAlike fields (xs ++ some j :: ys) (xs ++ some j' :: ys) := by
  induction xs generalizing fields with
  | nil =>
    cases fields with
    | nil => cases hfield
    | cons f fields =>
      cases hfield
      exact .cons (.varied h) (fieldsAlike_refl (Nat.succ.inj hlength))
  | cons x xs ih =>
    cases fields with
    | nil => cases hfield
    | cons f fields => exact .cons (.same x) (ih hfield (Nat.succ.inj hlength))

/-- Variants of a record have alike fields, or both have none. -/
theorem Variant.fieldsAlike (hnodup : (fields.map Prod.fst).Nodup)
    (h : Variant (.record strict fields) j j') :
    Option.Rel (FieldsAlike fields) (j.fields? (fields.map Prod.fst))
      (j'.fields? (fields.map Prod.fst)) := by
  cases h with
  | permuted h => exact fields?_alike fun f _ => member?_alike_of_eq (member?_perm h f.1)
  | extended hnew =>
    refine fields?_alike fun f hf => member?_alike_of_eq (member?_insert_of_ne ?_).symm
    rintro rfl
    exact hnew (List.mem_map_of_mem hf)
  | @member _ _ before after k shape v v' hfield h =>
    refine fields?_alike fun f hf => ?_
    by_cases hk : k = f.1
    · obtain rfl : (k, shape) = f := List.inj_on_of_nodup_map hnodup hfield hf hk
      exact member?_varied h
    · exact member?_alike_of_eq ((member?_insert_of_ne hk).trans (member?_insert_of_ne hk).symm)
  | @position _ _ before after k shape v v' hfield h =>
    have hlength : (before ++ v :: after).length = (before ++ v' :: after).length := by simp
    unfold fields?
    dsimp only
    rw [← hlength]
    split
    · next hle =>
      refine .some ?_
      simp only [List.map_append, List.map_cons, List.append_assoc, List.cons_append]
      refine fieldsAlike_at (by rw [List.length_map]; exact hfield) h ?_
      simp only [List.length_append, List.length_cons, List.length_map, List.length_replicate]
        at hle ⊢
      omega
    · exact .none

/-- Flat records do not differ at all in their fields. -/
theorem Variant.fields?_eq {names : List String} (hnodup : names.Nodup)
    (h : Variant (.flat names) j j') : j.fields? names = j'.fields? names := by
  have hnames : (names.map (·, Shape.plain)).map Prod.fst = names := by
    rw [List.map_map]
    exact List.map_id names
  have hfields := Variant.fieldsAlike (by rw [hnames]; exact hnodup) h
  rw [hnames] at hfields
  generalize j.fields? names = x, j'.fields? names = y at hfields ⊢
  cases hfields with
  | none => rfl
  | some h => rw [h.eq_of_plain]

end

/-! ## Readers -/

/-- The reader gives the same for values that are alike. -/
def Shape.OverlookedBy {α : Type} (shape : Shape) (read : Json → Option α) : Prop :=
  ∀ ⦃j j'⦄, Alike shape j j' → read j = read j'

section

variable {α : Type} {shape : Shape} {read : Json → Option α} {o o' : Option Json} {j j' : Json}

/-- A reader that does not notice one change notices no number of them. -/
theorem Shape.OverlookedBy.of_variant (h : ∀ j j', Variant shape j j' → read j = read j') :
    shape.OverlookedBy read := by
  intro j j' halike
  induction halike with
  | rel _ _ hstep => exact h _ _ hstep
  | refl _ => rfl
  | symm _ _ _ ih => exact ih.symm
  | trans _ _ _ _ _ ih ih' => exact ih.trans ih'

theorem Shape.OverlookedBy.variant (h : shape.OverlookedBy read) (hvariant : Variant shape j j') :
    read j = read j' := h (.rel _ _ hvariant)

theorem Shape.OverlookedBy.list (h : shape.OverlookedBy read) :
    (Shape.list shape).OverlookedBy (toList? read) := by
  refine .of_variant ?_
  rintro _ _ ⟨⟩
  next hitem => simp only [toList?, List.mapM_append, List.mapM_cons, h.variant hitem]

namespace FieldAlike

theorem required_eq (h : FieldAlike shape o o') (hread : shape.OverlookedBy read) :
    required read o = required read o' := by
  cases h with
  | same => rfl
  | varied h => exact hread.variant h

theorem defaulted_eq (h : FieldAlike shape o o') (hread : shape.OverlookedBy read) (d : α) :
    defaulted d read o = defaulted d read o' := by
  cases h with
  | same => rfl
  | varied h => exact hread.variant h

end FieldAlike

/-- A record is read the same if it is read the same from all alike fields. -/
theorem Variant.bind_fields?_eq {strict : Bool} {fields : List (String × Shape)}
    {read : List (Option Json) → Option α} (hnodup : (fields.map Prod.fst).Nodup)
    (h : Variant (.record strict fields) j j')
    (hread : ∀ os os', FieldsAlike fields os os' → read os = read os') :
    (j.fields? (fields.map Prod.fst)).bind read = (j'.fields? (fields.map Prod.fst)).bind read := by
  have hfields := h.fieldsAlike hnodup
  generalize j.fields? _ = x, j'.fields? _ = y at hfields ⊢
  cases hfields with
  | none => rfl
  | some h => exact hread _ _ h

theorem Shape.OverlookedBy.of_fields {strict : Bool} {fields : List (String × Shape)}
    {read : List (Option Json) → Option α} (hnodup : (fields.map Prod.fst).Nodup)
    (hread : ∀ os os', FieldsAlike fields os os' → read os = read os') :
    (Shape.record strict fields).OverlookedBy
      fun j => (j.fields? (fields.map Prod.fst)).bind read :=
  .of_variant fun _ _ h => h.bind_fields?_eq hnodup hread

theorem Shape.OverlookedBy.of_flat {names : List String} {read : List (Option Json) → Option α}
    (hnodup : names.Nodup) :
    (Shape.flat names).OverlookedBy fun j => (j.fields? names).bind read := by
  refine .of_variant fun j j' h => ?_
  rw [h.fields?_eq hnodup]

end

end RunnerFleet.Json
