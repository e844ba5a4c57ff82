import RunnerFleet.Operator.Command
import RunnerFleet.Proofs.Resource.RoundTrip
import RunnerFleet.Proofs.Store.Merge

/-!
# What applying a manifest leaves

A manifest may name a key more than once, and its entries are stored one after another. Of an
autoscaler the status that was stored before stays, or else that of the first entry; of a deployment
the replica count of the last entry that sets one, or else the stored one. The rest is that of the
last entry, as reading returns it. Applying the manifest once more only counts the versions up.
-/

namespace RunnerFleet

open Versioned

theorem Store.onAutoscalers_snd {α : Type} (s : Store)
    (f : Table (Row Autoscaler) → Except StoreError (α × Table (Row Autoscaler))) :
    (s.onAutoscalers f).bind (fun r => .ok r.2) =
      ((f s.autoscalers).map Prod.snd).map fun t => { s with autoscalers := t } := by
  unfold onAutoscalers
  cases f s.autoscalers <;> rfl

theorem Store.onDeployments_snd {α : Type} (s : Store)
    (f : Table (Row Deployment) → Except StoreError (α × Table (Row Deployment))) :
    (s.onDeployments f).bind (fun r => .ok r.2) =
      ((f s.deployments).map Prod.snd).map fun t => { s with deployments := t } := by
  unfold onDeployments
  cases f s.deployments <;> rfl

namespace Manifest

/-! ## The text of a manifest -/

def toJson (m : Manifest) : Json :=
  .ofFields
    [("autoscalers", some (.array (m.autoscalers.map Autoscaler.toJson))),
     ("deployments", some (.array (m.deployments.map Deployment.toJson)))]

def text (m : Manifest) : String := m.toJson.compact

theorem legible_toJson (m : Manifest) : Json.Legible (fun _ => True) Json.mostOpen m.toJson := by
  have hautoscalers : Json.Legible (fun _ => True) (Json.mostOpen - 1)
      (.array (m.autoscalers.map Autoscaler.toJson)) :=
    .array_map fun _ _ => Autoscaler.legible_toJson (fun _ _ _ _ => trivial) _
  have hdeployments : Json.Legible (fun _ => True) (Json.mostOpen - 1)
      (.array (m.deployments.map Deployment.toJson)) :=
    .array_map fun d _ => d.legible_toJson _
  change Json.Legible (fun _ => True) (Json.mostOpen - 1 + 1) m.toJson
  refine .ofFields ?_
  simp [hautoscalers, hdeployments]

theorem ofJson?_asRead (m : Manifest) : ofJson? m.toJson.asRead =
    some { m with autoscalers := m.autoscalers.map Autoscaler.reread } := by
  have hfields : m.toJson.fields? fieldNames =
      some [some (.array (m.autoscalers.map Autoscaler.toJson)),
        some (.array (m.deployments.map Deployment.toJson))] :=
    Json.fields?_ofFields rfl (by decide)
  have hdeployment : ∀ d : Deployment, Deployment.ofJson? d.toJson.asRead = some d :=
    resources_faithful.2.1.decoded
  have hknown : knowsMembers m.toJson.asRead = true := rfl
  unfold ofJson?
  rw [if_pos hknown]
  rw [toJson] at hfields ⊢
  rw [Json.fields?_asRead hfields]
  simp [Json.defaulted, Json.toList?_map_map Autoscaler.ofJson?_asRead,
    Json.toList?_map hdeployment, Function.comp_def]

/-- A manifest without faults is read from its own text, if the numbers in it are. -/
theorem read_text {m : Manifest} (h : ∀ a ∈ m.autoscalers, a.ReadsBack) (hfault : m.fault? = none) :
    read m.text = .ok m := by
  have hreread : m.autoscalers.map Autoscaler.reread = m.autoscalers :=
    (List.map_congr_left fun a ha => Autoscaler.reread_eq (h a ha)).trans (List.map_id _)
  rw [read, text, Json.parse?_compact m.legible_toJson, Option.bind_some, ofJson?_asRead, hreread]
  simp only [hfault]

/-! ## Entries as merges -/

/-- An autoscaler keeps the status that is stored. -/
def statusKept : Merge Autoscaler where
  merged found a := { a with status := (found.map (·.status)).getD a.status }
  key_merged _ _ := rfl
  merged_withVersion _ _ _ := rfl
  merged_reread _ _ := rfl

/-- A deployment that sets no replica count keeps the one that is stored. -/
def replicasKept : Merge Deployment where
  merged found d :=
    { d with
      spec := { d.spec with replicas := d.spec.replicas.or (found.bind (·.spec.replicas)) } }
  key_merged _ _ := rfl
  merged_withVersion _ _ _ := rfl
  merged_reread _ _ := rfl

def lastReplicas (ds : List Deployment) : Option Count := (ds.filterMap (·.spec.replicas)).getLast?

theorem lastReplicas_append_singleton (ds : List Deployment) (d : Deployment) :
    lastReplicas (ds ++ [d]) = d.spec.replicas.or (lastReplicas ds) := by
  rw [lastReplicas, List.filterMap_append, List.getLast?_append, lastReplicas]
  cases hd : d.spec.replicas <;> simp [hd]

theorem mergedAll_statusKept (found : Option Autoscaler) (a : Autoscaler) (as : List Autoscaler) :
    statusKept.mergedAll found a as =
      { as.getLast?.getD a with status := (found.map (·.status)).getD a.status } := by
  induction as using List.reverseRecOn with
  | nil => rfl
  | append_singleton as b ih =>
    rw [Merge.mergedAll_append_singleton, ih, List.getLast?_concat, Option.getD_some]
    rfl

theorem mergedAll_replicasKept (found : Option Deployment) (d : Deployment)
    (ds : List Deployment) :
    replicasKept.mergedAll found d ds =
      { ds.getLast?.getD d with
        spec := { (ds.getLast?.getD d).spec with
          replicas := (lastReplicas (d :: ds)).or (found.bind (·.spec.replicas)) } } := by
  induction ds using List.reverseRecOn with
  | nil =>
    have hone : lastReplicas [d] = d.spec.replicas := by
      cases hd : d.spec.replicas <;> simp [lastReplicas, hd]
    rw [hone]
    rfl
  | append_singleton ds e ih =>
    rw [Merge.mergedAll_append_singleton, ih, List.getLast?_concat, Option.getD_some,
      ← List.cons_append, lastReplicas_append_singleton, Option.or_assoc]
    rfl

theorem settles_statusKept : statusKept.Settles := by
  intro found a as
  rw [mergedAll_statusKept, mergedAll_statusKept]
  rfl

theorem settles_replicasKept : replicasKept.Settles := by
  intro found d ds
  rw [mergedAll_replicasKept, mergedAll_replicasKept]
  simp only [Option.bind_some]
  cases lastReplicas (d :: ds) <;> rfl

theorem applyAutoscaler_eq (s : Store) (a : Autoscaler) :
    applyAutoscaler s a =
      (s.autoscalers.merge statusKept a).map fun t => { s with autoscalers := t } := by
  unfold applyAutoscaler Table.merge
  change (s.autoscalers.read? (key a) >>= _) = _
  cases s.autoscalers.read? (key a) with
  | error e => rfl
  | ok found =>
    refine Eq.trans ?_ (s.onAutoscalers_snd (·.put (statusKept.merged found a)))
    cases found <;> rfl

theorem applyDeployment_eq (s : Store) (d : Deployment) :
    applyDeployment s d =
      (s.deployments.merge replicasKept d).map fun t => { s with deployments := t } := by
  obtain ⟨metadata, ⟨_ | n, repository, labels⟩⟩ := d
  · unfold applyDeployment Table.merge
    change (s.deployments.read? metadata.key >>= _) =
      ((s.deployments.read? metadata.key).bind _).map _
    cases s.deployments.read? metadata.key with
    | error e => rfl
    | ok found =>
      exact s.onDeployments_snd
        (·.put (replicasKept.merged found ⟨metadata, ⟨none, repository, labels⟩⟩))
  · refine (s.onDeployments_snd (·.put ⟨metadata, ⟨some n, repository, labels⟩⟩)).trans ?_
    rw [Table.merge_eq, Table.put_eq]
    change (((s.deployments.read? metadata.key).map _).map _).map _ =
      ((s.deployments.read? metadata.key).map _).map _
    cases s.deployments.read? metadata.key <;> rfl

/-! ## The store after a manifest -/

theorem applyEach_autoscalers (s : Store) (as : List Autoscaler) :
    applyEach applyAutoscaler s as = ((s.autoscalers.mergeEach statusKept as).1,
      { s with autoscalers := (s.autoscalers.mergeEach statusKept as).2 }) := by
  induction as generalizing s with
  | nil => rfl
  | cons a as ih =>
    rw [applyEach, applyAutoscaler_eq, Table.mergeEach]
    cases s.autoscalers.merge statusKept a with
    | error e => rfl
    | ok t => exact ih { s with autoscalers := t }

theorem applyEach_deployments (s : Store) (ds : List Deployment) :
    applyEach applyDeployment s ds = ((s.deployments.mergeEach replicasKept ds).1,
      { s with deployments := (s.deployments.mergeEach replicasKept ds).2 }) := by
  induction ds generalizing s with
  | nil => rfl
  | cons d ds ih =>
    rw [applyEach, applyDeployment_eq, Table.mergeEach]
    cases s.deployments.merge replicasKept d with
    | error e => rfl
    | ok t => exact ih { s with deployments := t }

structure Readable (m : Manifest) (s : Store) : Prop where
  deployments : ∀ d ∈ m.deployments, ∃ found, s.deployment? d.key = .ok found
  autoscalers : ∀ a ∈ m.autoscalers, ∃ found, s.autoscaler? a.key = .ok found

/-- The tables that the manifest does not touch are as they were, and so are the rows that it does
not name. -/
structure Spares (m : Manifest) (s s' : Store) : Prop where
  autoscalers : ∀ k, entriesAt k m.autoscalers = [] →
    s'.autoscalers.get? k = s.autoscalers.get? k
  deployments : ∀ k, entriesAt k m.deployments = [] →
    s'.deployments.get? k = s.deployments.get? k
  demand : s'.demand = s.demand
  events : s'.events = s.events

/-- Every row that the manifest names is read as its entries have it: with the status or the replica
count that is due, and the rest as `kept` has it of the last entry. -/
structure Upserts (kept : Autoscaler → Autoscaler) (m : Manifest) (s s' : Store) : Prop where
  autoscalers : ∀ {k found first last}, s.autoscaler? k = .ok found →
    (entriesAt k m.autoscalers).head? = some first →
    (entriesAt k m.autoscalers).getLast? = some last →
    s'.autoscaler? k = .ok (some (withVersion
      { kept last with status := (found.map (·.status)).getD first.status }
      (storedVersion found + UInt64.ofNat (entriesAt k m.autoscalers).length)))
  deployments : ∀ {k found last}, s.deployment? k = .ok found →
    (entriesAt k m.deployments).getLast? = some last →
    s'.deployment? k = .ok (some (withVersion
      { last with
        spec := { last.spec with
          replicas := (lastReplicas (entriesAt k m.deployments)).or
            (found.bind (·.spec.replicas)) } }
      (storedVersion found + UInt64.ofNat (entriesAt k m.deployments).length)))

/-- Nothing differs but the versions of the rows that the manifest names. They have grown by the
number of their entries. -/
structure Renews (m : Manifest) (s s' : Store) : Prop where
  autoscalers : ∀ k, s'.autoscalers.get? k =
    (s.autoscalers.get? k).map (Row.renewed (entriesAt k m.autoscalers).length)
  deployments : ∀ k, s'.deployments.get? k =
    (s.deployments.get? k).map (Row.renewed (entriesAt k m.deployments).length)
  demand : s'.demand = s.demand
  events : s'.events = s.events

variable {m : Manifest} {s s' : Store}

theorem apply_eq (m : Manifest) (s : Store) :
    m.apply s = if s.deployments.reached m.deployments = m.deployments then
        ((s.autoscalers.mergeEach statusKept m.autoscalers).1, { s with
          deployments := (s.deployments.mergeEach replicasKept m.deployments).2
          autoscalers := (s.autoscalers.mergeEach statusKept m.autoscalers).2 })
      else ((s.deployments.mergeEach replicasKept m.deployments).1, { s with
        deployments := (s.deployments.mergeEach replicasKept m.deployments).2 }) := by
  rw [apply, applyEach_deployments]
  split
  · next s' heq =>
    obtain ⟨hok, rfl⟩ := Prod.mk.inj heq
    rw [if_pos (Table.mergeEach_isOk_iff.1 hok), applyEach_autoscalers]
  · next r hne =>
    rw [if_neg]
    intro hreached
    exact hne _ (Prod.ext (Table.mergeEach_isOk_iff.2 hreached) rfl)

theorem readable_iff : m.Readable s ↔ s.deployments.reached m.deployments = m.deployments ∧
    s.autoscalers.reached m.autoscalers = m.autoscalers := by
  rw [Table.reached_eq_self_iff, Table.reached_eq_self_iff]
  exact ⟨fun h => ⟨h.deployments, h.autoscalers⟩, fun h => ⟨h.1, h.2⟩⟩

theorem apply_isOk_iff : (m.apply s).1 = .ok () ↔ m.Readable s := by
  rw [apply_eq, readable_iff]
  split
  · next hreached => simp only [Table.mergeEach_isOk_iff, hreached, true_and]
  · next hreached => simp only [Table.mergeEach_isOk_iff, hreached, false_and]

theorem apply_of_readable (h : m.Readable s) :
    m.apply s = (.ok (), { s with
      deployments := (s.deployments.mergeEach replicasKept m.deployments).2
      autoscalers := (s.autoscalers.mergeEach statusKept m.autoscalers).2 }) := by
  have hok := apply_isOk_iff.2 h
  rw [apply_eq, if_pos (readable_iff.1 h).1] at hok ⊢
  exact Prod.ext hok rfl

theorem readable_apply (h : m.Readable s) : m.Readable (m.apply s).2 := by
  rw [readable_iff, apply_of_readable h, Table.reached_mergeEach, Table.reached_mergeEach]
  exact readable_iff.1 h

theorem spares_apply (m : Manifest) (s : Store) : m.Spares s (m.apply s).2 := by
  have hautoscalers : ∀ k, entriesAt k m.autoscalers = [] →
      (s.autoscalers.mergeEach statusKept m.autoscalers).2.get? k = s.autoscalers.get? k :=
    fun k hk => Table.get?_mergeEach_of_unnamed (Table.entriesAt_reached_eq_nil _ hk)
  have hdeployments : ∀ k, entriesAt k m.deployments = [] →
      (s.deployments.mergeEach replicasKept m.deployments).2.get? k = s.deployments.get? k :=
    fun k hk => Table.get?_mergeEach_of_unnamed (Table.entriesAt_reached_eq_nil _ hk)
  rw [apply_eq]
  split
  · exact ⟨hautoscalers, hdeployments, rfl, rfl⟩
  · exact ⟨fun _ _ => rfl, hdeployments, rfl, rfl⟩

theorem upserts_apply (h : m.Readable s) : m.Upserts Encoded.reread s (m.apply s).2 := by
  obtain ⟨hdeployments, hautoscalers⟩ := readable_iff.1 h
  rw [apply_of_readable h]
  constructor
  · intro k found first last hread hfirst hlast
    obtain ⟨as, has⟩ := List.head?_eq_some_iff.1 hfirst
    rw [has, List.getLast?_cons, Option.some.injEq] at hlast
    have hrow := Table.get?_mergeEach_of_named (μ := statusKept) hread
      (by rw [hautoscalers, has])
    rw [mergedAll_statusKept, hlast] at hrow
    rw [Store.autoscaler?, Table.read?, hrow, has, List.length_cons]
    rfl
  · intro k found last hread hlast
    cases hentries : entriesAt k m.deployments with
    | nil =>
      rw [hentries] at hlast
      cases hlast
    | cons d ds =>
      rw [hentries, List.getLast?_cons, Option.some.injEq] at hlast
      have hrow := Table.get?_mergeEach_of_named (μ := replicasKept) hread
        (by rw [hdeployments, hentries])
      rw [mergedAll_replicasKept, hlast] at hrow
      rw [Store.deployment?, Table.read?, hrow, List.length_cons]
      rfl

/-- The doubles of the last entries are kept exactly if they are read back as they were. -/
theorem upserts_id_iff (h : m.Readable s) :
    m.Upserts id s (m.apply s).2 ↔
      ∀ k last, (entriesAt k m.autoscalers).getLast? = some last → last.reread = last := by
  have hreread := upserts_apply h
  constructor
  · intro hid k last hlast
    obtain ⟨as, has⟩ := List.getLast?_eq_some_iff.1 hlast
    obtain ⟨hmem, hkey⟩ := List.mem_filter.1 (List.mem_of_getLast? hlast)
    obtain ⟨found, hfound⟩ := h.autoscalers last hmem
    obtain rfl := of_decide_eq_true hkey
    obtain ⟨first, hfirst⟩ : ∃ first, (entriesAt (key last) m.autoscalers).head? = some first := by
      rw [← Option.isSome_iff_exists, List.isSome_head?]
      rw [has]
      simp
    have hsame := (hid.autoscalers hfound hfirst hlast).symm.trans
      (hreread.autoscalers hfound hfirst hlast)
    have hspec := congrArg Autoscaler.spec (Option.some.inj (Except.ok.inj hsame))
    exact congrArg (fun spec => { last with spec }) hspec.symm
  · intro hlast
    refine ⟨fun {k found first last} hfound hfirst hl => ?_, hreread.deployments⟩
    have hrow := hreread.autoscalers hfound hfirst hl
    rw [show Encoded.reread last = last from hlast k last hl] at hrow
    exact hrow

theorem renews_apply (h : m.Readable s) : m.Renews (m.apply s).2 (m.apply (m.apply s).2).2 := by
  obtain ⟨hdeployments, hautoscalers⟩ := readable_iff.1 h
  rw [apply_of_readable (readable_apply h), apply_of_readable h]
  refine ⟨fun k => ?_, fun k => ?_, rfl, rfl⟩
  · have hrow := Table.get?_mergeEach_again settles_statusKept s.autoscalers m.autoscalers k
    rwa [hautoscalers] at hrow
  · have hrow := Table.get?_mergeEach_again settles_replicasKept s.deployments m.deployments k
    rwa [hdeployments] at hrow

end Manifest

namespace Command

open Manifest

variable {text : String} {m : Manifest}

theorem apply_of_read (hm : Manifest.read text = .ok m) (s : Store) :
    apply text s =
      ((m.apply s).1.mapError .store |>.map fun _ => appliedText m, (m.apply s).2) := by
  rw [apply, hm]
  simp only
  split
  · next s' heq => rw [heq]; rfl
  · next e s' heq => rw [heq]; rfl

theorem apply_isOk_iff (hm : Manifest.read text = .ok m) (s : Store) :
    (apply text s).1 = .ok (appliedText m) ↔ m.Readable s := by
  rw [apply_of_read hm, ← Manifest.apply_isOk_iff]
  simp only [Except.map_eq_ok_iff, Except.mapError_eq_ok_iff, and_true]
  exact ⟨fun ⟨_, h⟩ => h, fun h => ⟨(), h⟩⟩

/-- Applying a manifest spares what it does not name. It succeeds exactly if every row that it names
can be read, and the same manifest then renews these rows each time it is applied again. Every named
row keeps its status or its replica count and takes over the rest of its last entry, exactly if the
doubles in that are read back as they were. -/
theorem apply_upserts (hm : Manifest.read text = .ok m) (s : Store) :
    m.Spares s (apply text s).2 ∧
    ((apply text s).1 = .ok (appliedText m) ↔ m.Readable s) ∧
    (m.Readable s →
      m.Upserts Encoded.reread s (apply text s).2 ∧
      (m.Upserts id s (apply text s).2 ↔
        ∀ k last, (entriesAt k m.autoscalers).getLast? = some last → last.reread = last) ∧
      (apply text (apply text s).2).1 = .ok (appliedText m) ∧
      m.Renews (apply text s).2 (apply text (apply text s).2).2) := by
  have hstore (s : Store) : (apply text s).2 = (m.apply s).2 := by rw [apply_of_read hm]
  refine ⟨?_, apply_isOk_iff hm s, fun h => ⟨?_, ?_, ?_, ?_⟩⟩
  · rw [hstore]
    exact spares_apply m s
  · rw [hstore]
    exact upserts_apply h
  · rw [hstore]
    exact upserts_id_iff h
  · rw [hstore, apply_isOk_iff hm]
    exact readable_apply h
  · rw [hstore, hstore]
    exact renews_apply h

/-- Two entries for an autoscaler, the first with a status, and two for its deployment, the second
without a replica count. -/
def repeatedEntries : Manifest where
  autoscalers :=
    [⟨.fresh "ci" "builds", ⟨"linux", none, none, none, [], []⟩, ⟨some 7, none, []⟩⟩,
     ⟨.fresh "ci" "builds", ⟨"linux", none, some 2, none, [], []⟩, .empty⟩]
  deployments :=
    [⟨.fresh "ci" "linux", ⟨some 4, none, []⟩⟩, ⟨.fresh "ci" "linux", ⟨none, none, ["x64"]⟩⟩]

theorem apply_upserts_repeatedEntries :
    let s := Store.empty.run [.createDeployment ⟨.fresh "ci" "linux", .empty⟩]
    let s' := (apply repeatedEntries.text s).2
    Manifest.read repeatedEntries.text = .ok repeatedEntries ∧ repeatedEntries.Readable s ∧
      repeatedEntries.Upserts Encoded.reread s s' ∧ repeatedEntries.Upserts id s s' ∧
      repeatedEntries.Renews s' (apply repeatedEntries.text s').2 := by
  intro s s'
  have hreads : ∀ a ∈ repeatedEntries.autoscalers, a.ReadsBack := by decide
  have hm := Manifest.read_text hreads (by decide)
  have hs : repeatedEntries.Readable s := by
    have hown := Store.ownRows_run [.createDeployment ⟨.fresh "ci" "linux", .empty⟩]
    exact ⟨fun d _ => hown.deployments.read? d.key, fun a _ => hown.autoscalers.read? a.key⟩
  obtain ⟨hupserts, hid, -, hrenews⟩ := (apply_upserts hm s).2.2 hs
  refine ⟨hm, hs, hupserts, hid.2 fun k last hlast => ?_, hrenews⟩
  have hmem := (List.mem_filter.1 (List.mem_of_getLast? hlast)).1
  exact Autoscaler.reread_eq (hreads last hmem)

/-- A busy share of 0.9009004917506227 that is written with one more digit. What is stored is read
back as the next greater double. -/
def neighbouringRatio : String :=
  "\x7b\"autoscalers\": [" ++
    "\x7b\"metadata\": \x7b\"namespace\": \"ci\", \"name\": \"builds\"\x7d, " ++
      "\"spec\": \x7b\"scaleTargetRef\": \x7b\"name\": \"runners\"\x7d, \"metrics\": " ++
      "[\x7b\"type\": \"PercentageRunnersBusy\", " ++
      "\"scaleUpThreshold\": 0.90090049175062270\x7d]\x7d\x7d]\x7d"

theorem not_upserts_neighbouringRatio :
    let a : Autoscaler :=
      ⟨.fresh "ci" "builds", ⟨"runners", none, none, none,
        [.busyShare ⟨some (.ofBits 4606289809783168418), none, none, none⟩], []⟩, .empty⟩
    let m : Manifest := ⟨[a], []⟩
    Manifest.read neighbouringRatio = .ok m ∧ m.Readable .empty ∧
      ¬ m.Upserts id .empty (apply neighbouringRatio .empty).2 := by
  intro a m
  have hm : Manifest.read neighbouringRatio = .ok m := by decide +kernel
  refine ⟨hm, ⟨fun _ _ => ⟨none, rfl⟩, fun _ _ => ⟨none, rfl⟩⟩, fun h => ?_⟩
  rw [apply_of_read hm] at h
  have habsent : Store.empty.autoscaler? "ci/builds" = .ok none := rfl
  exact absurd (h.autoscalers habsent rfl rfl) (by decide +kernel)

end Command

end RunnerFleet
