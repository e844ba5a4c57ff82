import Mathlib.Data.List.Nodup
import RunnerFleet.Json.Record
import RunnerFleet.Proofs.Json.Reading

/-!
# A written record is read back

The fields of a record have different names, so each is found again by its name, whatever stands
beside it. A field that is absent is written as no member at all.
-/

namespace RunnerFleet

theorem Option.mapM_eq_some_map {α β : Type} {f : α → Option β} {g : α → β} {xs : List α}
    (h : ∀ x ∈ xs, f x = some (g x)) : xs.mapM f = some (xs.map g) := by
  induction xs with
  | nil => rfl
  | cons x xs ih =>
    obtain ⟨hx, hxs⟩ := List.forall_mem_cons.1 h
    simp [hx, ih hxs]

namespace Json

variable {α : Type} {fields : List (String × Option Json)} {k : String} {field : Option Json}

theorem filter_absent (h : k ∉ fields.map Prod.fst) :
    (fields.filterMap fun (k, j) => j.map (k, ·)).filter (·.1 = k) = [] := by
  rw [List.filter_eq_nil_iff]
  intro m hm hkey
  obtain ⟨⟨k', field⟩, hmem, hfield⟩ := List.mem_filterMap.1 hm
  obtain ⟨j, -, rfl⟩ := Option.map_eq_some_iff.1 hfield
  exact h (List.mem_map.2 ⟨(k', field), hmem, of_decide_eq_true hkey⟩)

theorem member?_of_mem (hnodup : (fields.map Prod.fst).Nodup) (hmem : (k, field) ∈ fields) :
    member? k (fields.filterMap fun (k, j) => j.map (k, ·)) = some field := by
  induction fields with
  | nil => cases hmem
  | cons f fields ih =>
    obtain ⟨k', field'⟩ := f
    rw [List.map_cons, List.nodup_cons] at hnodup
    obtain ⟨hnew, hnodup⟩ := hnodup
    obtain heq | hmem := List.mem_cons.1 hmem
    · cases heq
      unfold member?
      cases field with
      | none => simp [filter_absent hnew]
      | some j => simp [filter_absent hnew]
    · have hne : k' ≠ k := by
        rintro rfl
        exact hnew (List.mem_map.2 ⟨_, hmem, rfl⟩)
      have hrest := ih hnodup hmem
      unfold member? at hrest ⊢
      cases field' with
      | none => simpa using hrest
      | some j => simpa [hne] using hrest

/-- Some of the fields of a written record, looked up by their names. -/
theorem fields?_of_subset {sub : List (String × Option Json)}
    (hnodup : (fields.map Prod.fst).Nodup) (hsub : sub ⊆ fields) :
    (ofFields fields).fields? (sub.map Prod.fst) = some (sub.map Prod.snd) := by
  unfold ofFields fields?
  dsimp only
  rw [List.mapM_map]
  exact Option.mapM_eq_some_map fun f hf => member?_of_mem hnodup (hsub hf)

theorem fields?_ofFields {names : List String} (hnames : fields.map Prod.fst = names)
    (hnodup : names.Nodup) : (ofFields fields).fields? names = some (fields.map Prod.snd) := by
  subst hnames
  exact fields?_of_subset hnodup (List.Subset.refl _)

theorem fields?_ofFields_tagged {names : List String} {tag : String × Option Json}
    (hnames : fields.map Prod.fst = names) (hnodup : (tag.1 :: names).Nodup) :
    (ofFields (tag :: fields)).fields? names = some (fields.map Prod.snd) := by
  subst hnames
  exact fields?_of_subset hnodup (List.subset_cons_self tag fields)

theorem optional_map {f : Json → Option α} {g : α → Json} (hread : ∀ x, f (g x) = some x)
    (hnull : ∀ x, g x ≠ .null) (o : Option α) : optional f (o.map g) = some o := by
  cases o with
  | none => rfl
  | some x =>
    have hx := hnull x
    rw [Option.map_some, optional]
    · rw [hread]
      rfl
    · exact hx

theorem toList?_map_map {β : Type} {f : Json → Option α} {g : β → Json} {h : β → α}
    (hread : ∀ x, f (g x) = some (h x)) (xs : List β) :
    toList? f (.array (xs.map g)) = some (xs.map h) := by
  unfold toList?
  dsimp only
  rw [List.mapM_map]
  exact Option.mapM_eq_some_map fun x _ => hread x

theorem toList?_map {f : Json → Option α} {g : α → Json} (hread : ∀ x, f (g x) = some x)
    (xs : List α) : toList? f (.array (xs.map g)) = some xs :=
  Option.mapM_map_eq_some hread xs

theorem toUInt32?_whole (n : UInt32) : toUInt32? (.whole n.toUInt64) = some n := by
  unfold toUInt32?
  have hlt : n.toUInt64.toNat < UInt32.size := by
    rw [UInt32.toNat_toUInt64]
    exact n.toNat_lt
  dsimp only
  rw [if_pos hlt, UInt32.toUInt32_toUInt64]

theorem optional_whole (o : Option UInt64) : optional toUInt64? (o.map .whole) = some o :=
  optional_map (g := .whole) (fun _ => rfl) (fun _ => nofun) o

theorem optional_count (o : Option UInt32) :
    optional toUInt32? (o.map (.whole ·.toUInt64)) = some o :=
  optional_map toUInt32?_whole (fun _ => nofun) o

theorem optional_string (o : Option String) : optional toString? (o.map .string) = some o :=
  optional_map (g := .string) (fun _ => rfl) (fun _ => nofun) o

/-- A double that is not finite is written as null, so the field is absent when it is read. -/
theorem optional_real (o : Option Float) :
    optional toFloat? ((o.map .real).map asRead) = some (o.bind reread) := by
  cases o with
  | none => rfl
  | some x =>
    rw [Option.map_some, Option.map_some, Option.bind_some, asRead]
    cases reread x <;> rfl

theorem member?_asRead (k : String) (members : List (String × Json)) :
    member? k (members.map fun m => (m.1, m.2.asRead)) =
      (member? k members).map (Option.map asRead) := by
  have hfilter : (members.map fun m => (m.1, m.2.asRead)).filter (·.1 = k) =
      (members.filter (·.1 = k)).map fun m => (m.1, m.2.asRead) := List.filter_map
  unfold member?
  rw [hfilter]
  generalize members.filter (·.1 = k) = found
  cases found with
  | nil => rfl
  | cons m ms => cases ms <;> rfl

/-- The fields of a record come back as they would if each were written alone. -/
theorem fields?_asRead {names : List String} {found : List (Option Json)}
    (h : (ofFields fields).fields? names = some found) :
    (ofFields fields).asRead.fields? names = some (found.map (Option.map asRead)) := by
  unfold ofFields at h ⊢
  rw [asRead_object]
  unfold fields? at h ⊢
  dsimp only at h ⊢
  induction names generalizing found with
  | nil =>
    cases h
    rfl
  | cons k names ih =>
    rw [List.mapM_cons] at h ⊢
    obtain ⟨field, hfield, h⟩ := Option.bind_eq_some_iff.1 h
    obtain ⟨rest, hrest, h⟩ := Option.bind_eq_some_iff.1 h
    cases h
    rw [member?_asRead, hfield, ih hrest]
    rfl

theorem Legible.array_map {P : Float → Prop} {room : Nat} {g : α → Json} {xs : List α}
    (h : ∀ x ∈ xs, Legible P room (g x)) : Legible P (room + 1) (.array (xs.map g)) := by
  refine .array fun j hj => ?_
  obtain ⟨x, hx, rfl⟩ := List.mem_map.1 hj
  exact h x hx

theorem Legible.ofFields {P : Float → Prop} {room : Nat}
    (h : ∀ f ∈ fields, ∀ j, f.2 = some j → Legible P room j) :
    Legible P (room + 1) (ofFields fields) := by
  refine .object fun m hm => ?_
  obtain ⟨f, hf, hfield⟩ := List.mem_filterMap.1 hm
  obtain ⟨j, hj, rfl⟩ := Option.map_eq_some_iff.1 hfield
  exact h f hf j hj

end Json

end RunnerFleet
