import RunnerFleet.Proofs.Json.Fields
import RunnerFleet.Proofs.Store.Change
import RunnerFleet.Resource.Demand
import RunnerFleet.Resource.Event

/-!
# Resources are read back from their texts

Each kind of resource is read back from either of its texts, and only the doubles in it may come
back changed. So reading what the store has written is reading its text, and where the doubles are
read back as they were a text belongs to one resource at most.
-/

namespace RunnerFleet

open Json

variable {P : Float → Prop}

theorem Metadata.ofJson?_toJson (m : Metadata) : ofJson? m.toJson = some m := by
  have hfields : m.toJson.fields? fieldNames =
      some [some (.string m.ns), some (.string m.name), some (.whole m.version),
        m.deletedAt.map .whole] := fields?_ofFields rfl (by decide)
  unfold ofJson?
  rw [hfields]
  simp [required, defaulted, toString?, toUInt64?, optional_whole]

theorem Metadata.legible_toJson (m : Metadata) (room : Nat) : Legible P (room + 1) m.toJson := by
  refine .ofFields ?_
  simp [Legible.string, Legible.whole]

namespace DeploymentSpec

theorem ofJson?_toJson (s : DeploymentSpec) : ofJson? s.toJson = some s := by
  have hfields : s.toJson.fields? fieldNames =
      some [s.replicas.map (.whole ·.toUInt64), s.repository.map .string,
        if s.labels = [] then none else some (.array (s.labels.map .string))] :=
    fields?_ofFields rfl (by decide)
  have hlabels : defaulted [] (toList? toString?)
      (if s.labels = [] then none else some (.array (s.labels.map .string))) = some s.labels := by
    split
    · next hnil => rw [hnil, defaulted]
    · exact toList?_map (g := .string) (fun _ => rfl) _
  unfold ofJson?
  rw [hfields]
  simp [optional_count, optional_string, hlabels]

theorem legible_toJson (s : DeploymentSpec) (room : Nat) : Legible P (room + 2) s.toJson := by
  have hlabels : Legible P (room + 1) (.array (s.labels.map .string)) :=
    .array_map fun _ _ => .string _
  refine .ofFields ?_
  simp [Legible.string, Legible.whole, hlabels]

end DeploymentSpec

namespace Deployment

theorem ofJson?_toJson (d : Deployment) : ofJson? d.toJson = some d := by
  have hfields : d.toJson.fields? fieldNames =
      some [some d.metadata.toJson, some d.spec.toJson] := fields?_ofFields rfl (by decide)
  unfold ofJson?
  rw [hfields]
  simp [required, defaulted, Metadata.ofJson?_toJson, DeploymentSpec.ofJson?_toJson]

theorem legible_toJson (d : Deployment) (room : Nat) : Legible P (room + 3) d.toJson := by
  refine .ofFields ?_
  simp [Metadata.legible_toJson, DeploymentSpec.legible_toJson]

end Deployment

namespace Demand

theorem ofJson?_toJson (d : Demand) : ofJson? d.toJson = some d := by
  have hfields : d.toJson.fields? fieldNames =
      some [some (.string d.deploymentKey), some (.whole d.queued.toUInt64),
        some (.whole d.inProgress.toUInt64), some (.whole d.busyRunners.toUInt64),
        some (.whole d.registeredRunners.toUInt64), some (.whole d.observedAt)] :=
    fields?_ofFields rfl (by decide)
  unfold ofJson?
  rw [hfields]
  simp [required, defaulted, toString?, toUInt64?, toUInt32?_whole]

theorem legible_toJson (d : Demand) (room : Nat) : Legible P (room + 1) d.toJson := by
  refine .ofFields ?_
  simp [Legible.string, Legible.whole]

end Demand

namespace Event

theorem ofName?_name (k : EventKind) : EventKind.ofName? k.name = some k := by
  cases k <;> decide

theorem ofJson?_toJson (e : Event) : ofJson? e.toJson = some e := by
  have hfields : e.toJson.fields? fieldNames =
      some [some (.string e.objectKey), some (.string e.kind.name), some (.string e.reason),
        some (.string e.message), some (.whole e.timestamp)] := fields?_ofFields rfl (by decide)
  unfold ofJson?
  rw [hfields]
  simp [required, word?, toString?, toUInt64?, ofName?_name]

theorem legible_toJson (e : Event) (room : Nat) : Legible P (room + 1) e.toJson := by
  refine .ofFields ?_
  simp [Legible.string, Legible.whole]

end Event

namespace Reservation

theorem ofJson?_toJson (r : Reservation) : ofJson? r.toJson = some r := by
  have hfields : r.toJson.fields? fieldNames =
      some [some (.whole r.replicas.toUInt64), some (.whole r.expiresAt)] :=
    fields?_ofFields rfl (by decide)
  unfold ofJson?
  rw [hfields]
  simp [required, toUInt64?, toUInt32?_whole]

theorem legible_toJson (r : Reservation) (room : Nat) : Legible P (room + 1) r.toJson := by
  refine .ofFields ?_
  simp [Legible.whole]

theorem asRead_toJson (r : Reservation) : r.toJson.asRead = r.toJson :=
  (r.legible_toJson 0).asRead_eq

end Reservation

theorem CacheKey.ofName?_name (k : CacheKey) : ofName? k.name = some k := by
  cases k
  decide

namespace CacheEntry

theorem ofJson?_toJson (e : CacheEntry) : ofJson? e.toJson = some e := by
  have hfields : e.toJson.fields? fieldNames =
      some [some (.string e.key.name), some (.whole e.value.toUInt64), some (.whole e.expiresAt)] :=
    fields?_ofFields rfl (by decide)
  unfold ofJson?
  rw [hfields]
  simp [required, word?, toUInt64?, toUInt32?_whole, CacheKey.ofName?_name]

theorem legible_toJson (e : CacheEntry) (room : Nat) : Legible P (room + 1) e.toJson := by
  refine .ofFields ?_
  simp [Legible.whole, Legible.string]

end CacheEntry

namespace AutoscalerStatus

theorem ofJson?_toJson (s : AutoscalerStatus) : ofJson? s.toJson = some s := by
  have hfields : s.toJson.fields? fieldNames =
      some [s.desired.map (.whole ·.toUInt64), s.lastScaleOut.map .whole,
        some (.array (s.cache.map CacheEntry.toJson))] := fields?_ofFields rfl (by decide)
  unfold ofJson?
  rw [hfields]
  simp [defaulted, optional_count, optional_whole, toList?_map CacheEntry.ofJson?_toJson]

theorem legible_toJson (s : AutoscalerStatus) (room : Nat) : Legible P (room + 3) s.toJson := by
  have hcache : Legible P (room + 2) (.array (s.cache.map CacheEntry.toJson)) :=
    .array_map fun e _ => e.legible_toJson room
  refine .ofFields ?_
  simp [Legible.whole, hcache]

end AutoscalerStatus

/-- Every number of the metric is read back from its own text. -/
def Metric.ReadsBack (m : Metric) : Prop := ∀ x ∈ m.numbers, Json.ReadsBack x

instance (m : Metric) : Decidable m.ReadsBack :=
  inferInstanceAs (Decidable (∀ x ∈ m.numbers, Json.ReadsBack x))

namespace BusyPolicy

theorem ofJson?_asRead (p : BusyPolicy) (tag : String × Option Json) (htag : tag.1 ∉ fieldNames) :
    ofJson? (Json.ofFields (tag :: p.toFields)).asRead = some p.reread := by
  have hfields : (Json.ofFields (tag :: p.toFields)).fields? fieldNames =
      some [p.upThreshold.map .real, p.downThreshold.map .real, p.upFactor.map .real,
        p.downFactor.map .real] :=
    fields?_ofFields_tagged rfl (List.nodup_cons.2 ⟨htag, by decide⟩)
  unfold ofJson?
  rw [fields?_asRead hfields]
  simp only [List.map_cons, List.map_nil, optional_real, Option.bind_eq_bind, Option.bind_some]
  rfl

theorem reread_eq {p : BusyPolicy} (h : ∀ x ∈ p.numbers, Json.ReadsBack x) : p.reread = p := by
  have hnumber : ∀ o ∈ [p.upThreshold, p.downThreshold, p.upFactor, p.downFactor],
      o.bind Json.reread = o := by
    intro o ho
    cases o with
    | none => rfl
    | some x => exact h x (List.mem_filterMap.2 ⟨some x, ho, rfl⟩)
  simp only [List.forall_mem_cons] at hnumber
  obtain ⟨hup, hdown, hupFactor, hdownFactor, -⟩ := hnumber
  rw [reread, hup, hdown, hupFactor, hdownFactor]

end BusyPolicy

namespace Metric

theorem ofName?_name (k : Kind) : Kind.ofName? k.name = some k := by
  cases k <;> decide

theorem legible_toJson {m : Metric} (h : ∀ x ∈ m.numbers, P x) (room : Nat) :
    Legible P (room + 1) m.toJson := by
  cases m with
  | workflowRuns =>
    refine .ofFields ?_
    simp [Legible.string]
  | busyShare p =>
    have hreal : ∀ o ∈ [p.upThreshold, p.downThreshold, p.upFactor, p.downFactor],
        ∀ x, o = some x → Legible P room (.real x) := by
      intro o ho x hx
      refine .real (h x ?_)
      exact List.mem_filterMap.2 ⟨o, ho, hx⟩
    refine .ofFields ?_
    simpa [BusyPolicy.toFields, Legible.string] using hreal

theorem ofJson?_asRead (m : Metric) : ofJson? m.toJson.asRead = some m.reread := by
  have hlegible := m.legible_toJson (fun _ _ => trivial) 0
  unfold ofJson?
  rw [if_pos hlegible.asRead.sound]
  cases m with
  | workflowRuns => rfl
  | busyShare p =>
    have hpolicy := p.ofJson?_asRead ("type", some (.string Kind.busyShare.name)) (by decide)
    have hnames : ((("type", some (Json.string Kind.busyShare.name)) :: p.toFields).map
        Prod.fst).Nodup := by
      change ("type" :: BusyPolicy.fieldNames).Nodup
      decide
    have htag := member?_of_mem hnames List.mem_cons_self
    unfold toJson Json.ofFields at *
    rw [asRead_object] at hpolicy ⊢
    unfold ofSound?
    dsimp only
    rw [member?_asRead, htag]
    change (BusyPolicy.ofJson? _).map busyShare = _
    rw [hpolicy]
    rfl

theorem reread_eq {m : Metric} (h : m.ReadsBack) : m.reread = m := by
  cases m with
  | workflowRuns => rfl
  | busyShare p => exact congrArg busyShare (BusyPolicy.reread_eq h)

end Metric

namespace AutoscalerSpec

theorem targetOfJson?_targetToJson (name : String) :
    targetOfJson? (targetToJson name) = some name := by
  have hfields : (targetToJson name).fields? ["name"] = some [some (.string name)] :=
    fields?_ofFields rfl (by decide)
  unfold targetOfJson?
  rw [hfields]
  rfl

theorem legible_toJson {s : AutoscalerSpec} (h : ∀ m ∈ s.metrics, ∀ x ∈ m.numbers, P x)
    (room : Nat) : Legible P (room + 3) s.toJson := by
  have htarget : Legible P (room + 2) (targetToJson s.targetName) :=
    .ofFields (by simp [Legible.string])
  have hmetrics : Legible P (room + 2) (.array (s.metrics.map Metric.toJson)) :=
    .array_map fun m hm => Metric.legible_toJson (h m hm) room
  have hreservations : Legible P (room + 2) (.array (s.reservations.map Reservation.toJson)) :=
    .array_map fun r _ => r.legible_toJson room
  refine .ofFields ?_
  simp [Legible.whole, htarget, hmetrics, hreservations]

theorem ofJson?_asRead (s : AutoscalerSpec) : ofJson? s.toJson.asRead =
    some { s with metrics := s.metrics.map Metric.reread } := by
  have hfields : s.toJson.fields? fieldNames =
      some [some (targetToJson s.targetName), s.minReplicas.map (.whole ·.toUInt64),
        s.maxReplicas.map (.whole ·.toUInt64), s.scaleDownDelay.map .whole,
        some (.array (s.metrics.map Metric.toJson)),
        some (.array (s.reservations.map Reservation.toJson))] := fields?_ofFields rfl (by decide)
  have htarget : (targetToJson s.targetName).asRead = targetToJson s.targetName := rfl
  unfold ofJson?
  rw [toJson] at hfields ⊢
  rw [fields?_asRead hfields]
  simp [Function.comp_def, required, defaulted, optional_count, optional_whole, htarget,
    targetOfJson?_targetToJson, toList?_map_map Metric.ofJson?_asRead, Reservation.asRead_toJson,
    toList?_map Reservation.ofJson?_toJson]

end AutoscalerSpec

namespace Autoscaler

def ReadsBack (a : Autoscaler) : Prop := ∀ m ∈ a.spec.metrics, m.ReadsBack

instance (a : Autoscaler) : Decidable a.ReadsBack :=
  inferInstanceAs (Decidable (∀ m ∈ a.spec.metrics, m.ReadsBack))

theorem legible_toJson {a : Autoscaler} (h : ∀ m ∈ a.spec.metrics, ∀ x ∈ m.numbers, P x)
    (room : Nat) : Legible P (room + 4) a.toJson := by
  have hspec := AutoscalerSpec.legible_toJson h room
  refine .ofFields ?_
  simp [Metadata.legible_toJson, AutoscalerStatus.legible_toJson, hspec]

theorem ofJson?_asRead (a : Autoscaler) : ofJson? a.toJson.asRead = some a.reread := by
  have hfields : a.toJson.fields? fieldNames =
      some [some a.metadata.toJson, some a.spec.toJson, some a.status.toJson] :=
    fields?_ofFields rfl (by decide)
  unfold ofJson?
  rw [toJson] at hfields ⊢
  rw [fields?_asRead hfields]
  simp [(a.metadata.legible_toJson 0).asRead_eq, (a.status.legible_toJson 0).asRead_eq, required,
    defaulted, Metadata.ofJson?_toJson, AutoscalerSpec.ofJson?_asRead,
    AutoscalerStatus.ofJson?_toJson, reread]

theorem reread_eq {a : Autoscaler} (h : a.ReadsBack) : a.reread = a := by
  have hmetrics : a.spec.metrics.map Metric.reread = a.spec.metrics :=
    (List.map_congr_left fun m hm => Metric.reread_eq (h m hm)).trans (List.map_id _)
  rw [reread, hmetrics]

end Autoscaler

/-! ## Texts of resources -/

/-- Every resource has a text that is read back, and `Encoded.reread` says as what. -/
structure Encoded.Faithful (α : Type) [Encoded α] : Prop where
  legible : ∀ a : α, Legible (fun _ => True) mostOpen (Encoded.toJson a)
  decoded : ∀ a : α, Encoded.ofJson? (Encoded.toJson a).asRead = some (Encoded.reread a)

section

variable {α : Type} [Encoded α]

theorem Encoded.Faithful.of_legible
    (hlegible : ∀ a : α, Legible ReadsBack mostOpen (Encoded.toJson a))
    (hdecode : ∀ a : α, Encoded.ofJson? (Encoded.toJson a) = some a)
    (hreread : ∀ a : α, Encoded.reread a = a) : Encoded.Faithful α where
  legible a := (hlegible a).asRead_eq ▸ (hlegible a).asRead
  decoded a := by rw [(hlegible a).asRead_eq, hdecode, hreread]

namespace Encoded.Faithful

variable (h : Encoded.Faithful α) (a : α)

include h

theorem ofText?_compact : ofText? (toJson a).compact = some (reread a) := by
  rw [ofText?, parse?_compact (h.legible a), Option.bind_some, h.decoded]

theorem ofText?_indented : ofText? (toJson a).indented = some (reread a) := by
  rw [ofText?, parse?_indented (h.legible a), Option.bind_some, h.decoded]

/-- To read the row of a resource is to read the text that was written. -/
theorem read_written : (Row.written a).read = (Row.foreign (toJson a).compact).read := by
  unfold Row.read
  dsimp only
  rw [h.ofText?_compact]

end Encoded.Faithful

theorem resources_faithful : Encoded.Faithful Autoscaler ∧ Encoded.Faithful Deployment ∧
    Encoded.Faithful Demand ∧ Encoded.Faithful Event :=
  ⟨⟨fun _ => Autoscaler.legible_toJson (fun _ _ _ _ => trivial) _, Autoscaler.ofJson?_asRead⟩,
    .of_legible (fun d => d.legible_toJson _) Deployment.ofJson?_toJson fun _ => rfl,
    .of_legible (fun d => d.legible_toJson _) Demand.ofJson?_toJson fun _ => rfl,
    .of_legible (fun e => e.legible_toJson _) Event.ofJson?_toJson fun _ => rfl⟩

/-- What `keeps` picks of a type is read back from either of its texts and from the store, and no
two of it share a text. -/
structure Lossless (α : Type) [Encoded α] (keeps : α → Prop) : Prop where
  compact : ∀ a, keeps a → Encoded.ofText? (Encoded.toJson a).compact = some a
  indented : ∀ a, keeps a → Encoded.ofText? (Encoded.toJson a).indented = some a
  distinct : ∀ a b, keeps a → keeps b →
    (Encoded.toJson a).compact = (Encoded.toJson b).compact ∨
      (Encoded.toJson a).indented = (Encoded.toJson b).indented → a = b
  stored : ∀ a, keeps a → ∀ (t : Table (Row α)) (key : String),
    (t.insert key (.written a)).read? key = .ok (some a) ∧
      (t.insert key (.foreign (Encoded.toJson a).compact)).read? key = .ok (some a)

theorem Encoded.Faithful.lossless (h : Encoded.Faithful α) {keeps : α → Prop}
    (hreread : ∀ a : α, keeps a → Encoded.reread a = a) : Lossless α keeps := by
  have hcompact : ∀ a, keeps a → Encoded.ofText? (Encoded.toJson a).compact = some a := by
    intro a ha
    rw [h.ofText?_compact, hreread a ha]
  have hindented : ∀ a, keeps a → Encoded.ofText? (Encoded.toJson a).indented = some a := by
    intro a ha
    rw [h.ofText?_indented, hreread a ha]
  refine ⟨hcompact, hindented, fun a b ha hb hsame => ?_, fun a ha t key => ⟨?_, ?_⟩⟩
  · obtain hsame | hsame := hsame
    · exact Option.some.inj ((hcompact a ha).symm.trans (hsame ▸ hcompact b hb))
    · exact Option.some.inj ((hindented a ha).symm.trans (hsame ▸ hindented b hb))
  · rw [Table.read?_insert_written, if_pos rfl, hreread a ha]
  · unfold Table.read?
    rw [Table.get?_insert, if_pos rfl]
    dsimp only
    rw [← h.read_written, Row.read, hreread a ha]
    rfl

end

/-- Every resource is read back as it was written, an autoscaler if the numbers of its metrics
are. -/
theorem resources_lossless :
    Lossless Autoscaler Autoscaler.ReadsBack ∧ Lossless Deployment (fun _ => True) ∧
      Lossless Demand (fun _ => True) ∧ Lossless Event (fun _ => True) := by
  obtain ⟨autoscalers, deployments, demand, events⟩ := resources_faithful
  exact ⟨autoscalers.lossless fun _ h => Autoscaler.reread_eq h, deployments.lossless fun _ _ => rfl,
    demand.lossless fun _ _ => rfl, events.lossless fun _ _ => rfl⟩

/-- Quotes, controls, characters beyond the first plane, the largest numbers, and a busy share of
0.8. -/
def unusualAutoscaler : Autoscaler where
  metadata := ⟨"a\"b\\c", "é\n\x01😀", 18446744073709551615, some 0⟩
  spec :=
    { targetName := ""
      minReplicas := some 4294967295
      maxReplicas := none
      scaleDownDelay := some 7
      metrics := [.workflowRuns, .busyShare ⟨some 0.8, none, some 2.5e-7, none⟩]
      reservations := [⟨3, 5000⟩] }
  status := ⟨none, some 100, [⟨.desiredReplicas, 2, 130⟩]⟩

theorem unusualAutoscaler_lossless :
    unusualAutoscaler.ReadsBack ∧
      Encoded.ofText? (Encoded.toJson unusualAutoscaler).compact = some unusualAutoscaler ∧
      Encoded.ofText? (Encoded.toJson unusualAutoscaler).indented = some unusualAutoscaler := by
  have hreads : unusualAutoscaler.ReadsBack := by decide +kernel
  exact ⟨hreads, resources_lossless.1.compact _ hreads, resources_lossless.1.indented _ hreads⟩

end RunnerFleet
