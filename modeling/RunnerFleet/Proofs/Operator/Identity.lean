import RunnerFleet.Operator.Command
import RunnerFleet.Proofs.Operator.Upsert
import RunnerFleet.Proofs.Reconcile.Effect
import RunnerFleet.Proofs.Store.History

/-!
# Which names tell resources apart

A key joins a namespace and a name by a slash and escapes none, so it has one reading if neither part
has a slash of its own, and a second reading otherwise. Commands take only keys with one slash. A
manifest is checked for empty names alone, so with slashes in its names it may name a resource that
no command can address, overwrite one of its own resources by another, or drive the deployment of
another namespace.
-/

namespace RunnerFleet

/-! ## Keys and their readings -/

def Unslashed (part : String) : Prop := '/' ∉ part.toList

instance (part : String) : Decidable (Unslashed part) :=
  inferInstanceAs (Decidable ('/' ∉ part.toList))

variable {ns name ns' name' : String}

theorem toList_objectKey (ns name : String) :
    (objectKey ns name).toList = ns.toList ++ '/' :: name.toList := by
  simp [objectKey]

theorem splitSlash_append {xs ys : List Char} (h : '/' ∉ xs) :
    splitSlash (xs ++ '/' :: ys) = (xs, some ys) := by
  have hbefore : ∀ c ∈ xs, decide (c ≠ '/') = true := by
    intro c hc
    have hne : c ≠ '/' := fun heq => h (heq ▸ hc)
    simpa using hne
  unfold splitSlash
  rw [List.dropWhile_append_of_pos hbefore, List.takeWhile_append_of_pos hbefore]
  simp

/-- What commands take for a reference are the keys of names that are not empty and have no slash. -/
theorem isObjectReference_objectKey_iff :
    isObjectReference (objectKey ns name) = true ↔
      (ns ≠ "" ∧ name ≠ "") ∧ Unslashed ns ∧ Unslashed name := by
  unfold isObjectReference Unslashed
  rw [toList_objectKey]
  by_cases hns : '/' ∈ ns.toList
  · obtain ⟨before, rest, hsplit, hbefore⟩ := List.eq_append_cons_of_mem hns
    rw [hsplit, List.append_assoc, List.cons_append, splitSlash_append hbefore]
    simp
  · rw [splitSlash_append hns]
    simp [hns, and_assoc]

/-- A key of parts without slashes has one reading. -/
theorem eq_of_objectKey_eq (hns : Unslashed ns) (hname : Unslashed name)
    (h : objectKey ns' name' = objectKey ns name) : ns' = ns ∧ name' = name := by
  have hlists : ns'.toList ++ '/' :: name'.toList = ns.toList ++ '/' :: name.toList := by
    rw [← toList_objectKey, ← toList_objectKey, h]
  have hslashes := congrArg (List.count '/') hlists
  simp only [List.count_append, List.count_cons_self, List.count_eq_zero.2 hns,
    List.count_eq_zero.2 hname] at hslashes
  have hns' : '/' ∉ ns'.toList := List.count_eq_zero.1 (by omega)
  have hsplit := congrArg splitSlash hlists
  rw [splitSlash_append hns', splitSlash_append hns] at hsplit
  obtain ⟨hleft, hright⟩ := Prod.mk.inj hsplit
  exact ⟨String.toList_inj.1 hleft, String.toList_inj.1 (Option.some.inj hright)⟩

/-- A key of which a part has a slash has another reading. -/
theorem exists_other_reading (ns name : String) (h : ¬ (Unslashed ns ∧ Unslashed name)) :
    ∃ ns' name', objectKey ns' name' = objectKey ns name ∧ ns' ≠ ns := by
  have hother : ∀ xs ys : List Char, ns.toList ++ '/' :: name.toList = xs ++ '/' :: ys →
      xs.length ≠ ns.length →
      ∃ ns' name', objectKey ns' name' = objectKey ns name ∧ ns' ≠ ns := by
    intro xs ys hsplit hlength
    refine ⟨String.ofList xs, String.ofList ys, ?_, ?_⟩
    · apply String.toList_inj.1
      rw [toList_objectKey, toList_objectKey, hsplit, String.toList_ofList, String.toList_ofList]
    · rintro rfl
      exact hlength (String.length_ofList ▸ rfl)
  by_cases hns : Unslashed ns
  · have hname : '/' ∈ name.toList := by
      by_contra hname
      exact h ⟨hns, hname⟩
    obtain ⟨before, rest, hsplit, -⟩ := List.eq_append_cons_of_mem hname
    refine hother (ns.toList ++ '/' :: before) rest ?_ ?_
    · rw [hsplit, List.append_assoc, List.cons_append]
    · simp only [List.length_append, List.length_cons, String.length_toList]
      omega
  · obtain ⟨before, rest, hsplit, -⟩ := List.eq_append_cons_of_mem (not_not.1 hns)
    refine hother before (rest ++ '/' :: name.toList) ?_ ?_
    · rw [hsplit, List.append_assoc, List.cons_append]
    · have hlength := congrArg List.length hsplit
      simp only [List.length_append, List.length_cons, String.length_toList] at hlength
      omega

def Metadata.SameObject (m n : Metadata) : Prop := m.ns = n.ns ∧ m.name = n.name

theorem Metadata.eq_of_key_eq {m n : Metadata} (hns : Unslashed n.ns) (hname : Unslashed n.name)
    (h : m.key = n.key) : m.SameObject n := eq_of_objectKey_eq hns hname h

/-! ## Deployments and the passes that write them -/

namespace Store

/-- Every deployment is stored under its own key. -/
def DeploymentsFiled (s : Store) : Prop := ∀ ⦃k d⦄, s.deployment? k = .ok (some d) → d.key = k

end Store

/-- Passes for an autoscaler of this namespace with this target write no deployment but the one of
that name in the namespace. -/
def Autoscaler.DrivesOwnTarget (a : Autoscaler) : Prop :=
  ∀ (p : Pass) (w : World) (b : Autoscaler), w.store.DeploymentsFiled →
    w.store.autoscaler? p.key = .ok (some b) → b.metadata.ns = a.metadata.ns →
    b.spec.targetName = a.spec.targetName →
    ∀ k, (p.after w).deployments.get? k ≠ (p.others w).deployments.get? k →
      ∃ d, w.store.deployment? k = .ok (some d) ∧ d.metadata.ns = a.metadata.ns ∧
        d.metadata.name = a.spec.targetName

theorem Autoscaler.drivesOwnTarget {a : Autoscaler}
    (htarget : ∀ d : Deployment, d.key = a.targetKey →
      d.metadata.ns = a.metadata.ns ∧ d.metadata.name = a.spec.targetName) :
    a.DrivesOwnTarget := by
  intro p w b filed hread hns hname k hk
  obtain hsame | ⟨c, target, -, -, hstage, rfl, -⟩ := p.deployments_after w k
  · exact absurd hsame hk
  · obtain ⟨r, hfinished, -⟩ | ⟨b', target', hloaded⟩ := p.finished_or_loaded w
    · rw [hfinished] at hstage
      cases hstage
    · have htwo := hloaded.stage_two
      rw [hstage] at htwo
      cases htwo
      have hown := hloaded.autoscaler_read
      rw [hread] at hown
      cases hown
      refine ⟨target, hloaded.target_read, htarget target ?_⟩
      rw [filed hloaded.target_read, targetKey, targetKey, hns, hname]

namespace Manifest

open Versioned

def names (m : Manifest) : List Metadata :=
  m.autoscalers.map (·.metadata) ++ m.deployments.map (·.metadata)

structure Plain (m : Manifest) : Prop where
  names : ∀ x ∈ m.names, Unslashed x.ns ∧ Unslashed x.name
  targets : ∀ a ∈ m.autoscalers, Unslashed a.spec.targetName

/-- The manifest tells its resources and their targets apart. -/
structure Identifies (m : Manifest) : Prop where
  /-- The commands take the keys of its resources. -/
  addressable : ∀ x ∈ m.names, isObjectReference x.key = true
  autoscalersApart : ∀ a ∈ m.autoscalers, ∀ b ∈ m.autoscalers, a.key = b.key →
    a.metadata.SameObject b.metadata
  deploymentsApart : ∀ d ∈ m.deployments, ∀ e ∈ m.deployments, d.key = e.key →
    d.metadata.SameObject e.metadata
  /-- Where it can be applied, all its resources are stored, none in place of another. -/
  autoscalersStored : ∀ s, m.Readable s → ∀ a ∈ m.autoscalers,
    ∃ b, (m.apply s).2.autoscaler? a.key = .ok (some b) ∧ b.metadata.SameObject a.metadata
  deploymentsStored : ∀ s, m.Readable s → ∀ d ∈ m.deployments,
    ∃ e, (m.apply s).2.deployment? d.key = .ok (some e) ∧ e.metadata.SameObject d.metadata
  /-- The target of an autoscaler is the deployment of that name in its namespace and no other. -/
  targetsApart : ∀ a ∈ m.autoscalers, ∀ d : Deployment, d.key = a.targetKey →
    d.metadata.ns = a.metadata.ns ∧ d.metadata.name = a.spec.targetName
  drivesOwnTargets : ∀ a ∈ m.autoscalers, a.DrivesOwnTarget

variable {text : String} {m : Manifest}

theorem fault?_of_read (h : read text = .ok m) : m.fault? = none := by
  unfold read at h
  split at h
  · cases h
  · split at h
    · cases h
    · next hfault =>
      cases h
      exact hfault

/-- The check of a manifest is for names that are empty. -/
theorem named_of_read (h : read text = .ok m) {x : Metadata} (hx : x ∈ m.names) :
    x.ns ≠ "" ∧ x.name ≠ "" := by
  have hnames := (Option.or_eq_none_iff.1 (fault?_of_read h)).1
  have hfault := List.findSome?_eq_none_iff.1 hnames x hx
  unfold nameFault? at hfault
  split at hfault
  · cases hfault
  · next hnamed => exact not_or.1 hnamed

theorem metadata_mem_names {a : Autoscaler} (h : a ∈ m.autoscalers) : a.metadata ∈ m.names :=
  List.mem_append_left _ (List.mem_map_of_mem h)

theorem deployment_mem_names {d : Deployment} (h : d ∈ m.deployments) : d.metadata ∈ m.names :=
  List.mem_append_right _ (List.mem_map_of_mem h)

/-- The entries of a manifest for the key of a resource in it: a first and a last one. -/
theorem exists_entriesAt {α : Type} [Versioned α] {as : List α} {a : α} (h : a ∈ as) :
    ∃ first last, (entriesAt (key a) as).head? = some first ∧
      (entriesAt (key a) as).getLast? = some last ∧ last ∈ as ∧ key last = key a := by
  have hmem : a ∈ entriesAt (key a) as := List.mem_filter.2 ⟨h, decide_eq_true rfl⟩
  have hne := List.ne_nil_of_mem hmem
  obtain ⟨hlast, hkey⟩ := List.mem_filter.1 (List.getLast_mem hne)
  exact ⟨_, _, List.head?_eq_some_head hne, List.getLast?_eq_some_getLast hne, hlast,
    of_decide_eq_true hkey⟩

namespace Plain

theorem autoscaler (h : m.Plain) {a b : Autoscaler} (hb : b ∈ m.autoscalers)
    (hkey : a.key = b.key) : a.metadata.SameObject b.metadata := by
  obtain ⟨hns, hname⟩ := h.names _ (metadata_mem_names hb)
  exact Metadata.eq_of_key_eq hns hname hkey

theorem deployment (h : m.Plain) {d e : Deployment} (he : e ∈ m.deployments)
    (hkey : d.key = e.key) : d.metadata.SameObject e.metadata := by
  obtain ⟨hns, hname⟩ := h.names _ (deployment_mem_names he)
  exact Metadata.eq_of_key_eq hns hname hkey

theorem target (h : m.Plain) {a : Autoscaler} (ha : a ∈ m.autoscalers) {d : Deployment}
    (hkey : d.key = a.targetKey) :
    d.metadata.ns = a.metadata.ns ∧ d.metadata.name = a.spec.targetName :=
  eq_of_objectKey_eq (h.names _ (metadata_mem_names ha)).1 (h.targets a ha) hkey

/-- The row of an autoscaler is that of the last entry for its key. -/
theorem autoscalerStored (h : m.Plain) {s : Store} (hs : m.Readable s) {a : Autoscaler}
    (ha : a ∈ m.autoscalers) :
    ∃ b, (m.apply s).2.autoscaler? a.key = .ok (some b) ∧ b.metadata.SameObject a.metadata := by
  obtain ⟨found, hfound⟩ := hs.autoscalers a ha
  obtain ⟨first, last, hfirst, hlast, -, hkey⟩ := exists_entriesAt ha
  refine ⟨_, (upserts_apply hs).autoscalers hfound hfirst hlast, ?_⟩
  exact h.autoscaler (a := last) ha hkey

theorem deploymentStored (h : m.Plain) {s : Store} (hs : m.Readable s) {d : Deployment}
    (hd : d ∈ m.deployments) :
    ∃ e, (m.apply s).2.deployment? d.key = .ok (some e) ∧ e.metadata.SameObject d.metadata := by
  obtain ⟨found, hfound⟩ := hs.deployments d hd
  obtain ⟨first, last, -, hlast, -, hkey⟩ := exists_entriesAt hd
  refine ⟨_, (upserts_apply hs).deployments hfound hlast, ?_⟩
  exact h.deployment (d := last) hd hkey

end Plain

/-- A manifest that is accepted tells its resources and their targets apart exactly if no name in it
has a slash. -/
theorem identifies_iff (hm : read text = .ok m) : m.Identifies ↔ m.Plain := by
  constructor
  · intro h
    have hnames : ∀ x ∈ m.names, Unslashed x.ns ∧ Unslashed x.name := fun x hx =>
      (isObjectReference_objectKey_iff.1 (h.addressable x hx)).2
    refine ⟨hnames, fun a ha => ?_⟩
    by_contra hslash
    obtain ⟨ns, name, hkey, hne⟩ :=
      exists_other_reading a.metadata.ns a.spec.targetName fun h => hslash h.2
    exact hne (h.targetsApart a ha ⟨.fresh ns name, .empty⟩ hkey).1
  · intro h
    refine ⟨fun x hx => ?_, fun a _ b hb => h.autoscaler hb, fun d _ e he => h.deployment he,
      fun s hs a ha => h.autoscalerStored hs ha, fun s hs d hd => h.deploymentStored hs hd,
      fun a ha d => h.target ha, fun a ha => Autoscaler.drivesOwnTarget fun d => h.target ha⟩
    exact isObjectReference_objectKey_iff.2 ⟨named_of_read hm hx, h.names x hx⟩

def sameNames : Manifest where
  autoscalers :=
    [⟨.fresh "ci" "builds", ⟨"linux", none, none, none, [.workflowRuns], []⟩, .empty⟩,
     ⟨.fresh "ci:nightly" "builds", ⟨"linux", none, none, none, [.workflowRuns], []⟩, .empty⟩]
  deployments := [⟨.fresh "ci" "linux", .empty⟩, ⟨.fresh "ci:nightly" "linux", .empty⟩]

theorem identifies_sameNames : read sameNames.text = .ok sameNames ∧ sameNames.Identifies := by
  have hread : read sameNames.text = .ok sameNames := read_text (by decide) (by decide)
  exact ⟨hread, (identifies_iff hread).2 ⟨by decide, by decide⟩⟩

/-- Two deployments that share a key, and an autoscaler that has one of them for its target. -/
def sharedKey : Manifest where
  autoscalers :=
    [⟨.fresh "ci" "builds", ⟨"linux/x64", none, none, none, [.workflowRuns], []⟩, .empty⟩]
  deployments := [⟨.fresh "ci" "linux/x64", .empty⟩, ⟨.fresh "ci/linux" "x64", .empty⟩]

/-- Only the second deployment is stored, which is of another namespace than the autoscaler that
drives it, and no command takes its key. -/
theorem not_identifies_sharedKey :
    read sharedKey.text = .ok sharedKey ∧ sharedKey.Readable .empty ∧
      (sharedKey.apply .empty).2.listDeployments.map (List.map fun d => (d.key, d.metadata.ns)) =
        .ok [("ci/linux/x64", "ci/linux")] ∧
      sharedKey.autoscalers.map (fun a => (a.targetKey, a.metadata.ns)) =
        [("ci/linux/x64", "ci")] ∧
      isObjectReference "ci/linux/x64" = false ∧ ¬ sharedKey.Identifies := by
  have hread : read sharedKey.text = .ok sharedKey := read_text (by decide) (by decide)
  refine ⟨hread, ⟨fun _ _ => ⟨none, rfl⟩, fun _ _ => ⟨none, rfl⟩⟩, by decide +kernel, rfl,
    by decide, fun h => ?_⟩
  have hboth := h.deploymentsApart ⟨.fresh "ci" "linux/x64", .empty⟩ (by decide)
    ⟨.fresh "ci/linux" "x64", .empty⟩ (by decide) rfl
  exact absurd hboth.1 (by decide)

end Manifest

end RunnerFleet
