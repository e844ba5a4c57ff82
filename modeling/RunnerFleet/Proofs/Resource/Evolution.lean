import RunnerFleet.Operator.Manifest
import RunnerFleet.Proofs.Json.Variant

/-!
# Resources written by another version

Another version may write the members of its records in another order and with further members
among them. It is read all the same. Two kinds of records are stricter: a manifest admits no further
members, and a metric none whose value cannot be kept until the kind of the metric is known.
-/

namespace RunnerFleet

open Json

/-! ## Flat records -/

def Metadata.shape : Shape := .flat fieldNames

theorem Metadata.overlooked : shape.OverlookedBy ofJson? := .of_flat (by decide)

def Reservation.shape : Shape := .flat fieldNames

theorem Reservation.overlooked : shape.OverlookedBy ofJson? := .of_flat (by decide)

def CacheEntry.shape : Shape := .flat fieldNames

theorem CacheEntry.overlooked : shape.OverlookedBy ofJson? := .of_flat (by decide)

def AutoscalerSpec.targetShape : Shape := .flat ["name"]

theorem AutoscalerSpec.target_overlooked : targetShape.OverlookedBy targetOfJson? :=
  .of_flat (by decide)

def DeploymentSpec.shape : Shape := .flat fieldNames

theorem DeploymentSpec.overlooked : shape.OverlookedBy ofJson? := .of_flat (by decide)

def Demand.shape : Shape := .flat fieldNames

theorem Demand.overlooked : shape.OverlookedBy ofJson? := .of_flat (by decide)

def Event.shape : Shape := .flat fieldNames

theorem Event.overlooked : shape.OverlookedBy ofJson? := .of_flat (by decide)

/-! ## Metrics -/

namespace Metric

def fieldsOf (kind : String) : List String :=
  match Kind.ofName? kind with
  | some .busyShare => BusyPolicy.fieldNames
  | _ => []

def shape : Shape := .tagged "type" fieldsOf

/-- Of the members of a metric its tag, the fields of its kind and the soundness of all matter. -/
theorem ofJson?_congr {members members' : List (String × Json)}
    (hsound : soundMembers members = soundMembers members')
    (htag : member? "type" members = member? "type" members')
    (hfields : ∀ kind, member? "type" members = some (some (.string kind)) →
      ∀ k ∈ fieldsOf kind, member? k members = member? k members') :
    ofJson? (.object members) = ofJson? (.object members') := by
  have hofSound : ofSound? (.object members) = ofSound? (.object members') := by
    unfold ofSound?
    dsimp only
    rw [← htag]
    cases hmember : member? "type" members with
    | none => rfl
    | some field =>
      cases field with
      | none => rfl
      | some tag =>
        cases tag with
        | string kind =>
          have hkind := hfields kind hmember
          unfold fieldsOf at hkind
          simp only [Option.bind_eq_bind, Option.bind_some]
          cases hname : Kind.ofName? kind with
          | none => rfl
          | some which =>
            cases which with
            | workflowRuns => rfl
            | busyShare =>
              rw [hname] at hkind
              have hpolicy : BusyPolicy.ofJson? (.object members) =
                  BusyPolicy.ofJson? (.object members') := by
                unfold BusyPolicy.ofJson?
                rw [fields?_congr hkind]
              exact congrArg (Option.map busyShare) hpolicy
        | _ => rfl
  unfold ofJson?
  rw [hofSound, sound, sound, hsound]

theorem overlooked : shape.OverlookedBy ofJson? := by
  refine .of_variant fun j j' h => ?_
  cases h with
  | permutedTagged h =>
    refine ofJson?_congr ?_ (member?_perm h "type") fun _ _ k _ => member?_perm h k
    rw [soundMembers_eq_all, soundMembers_eq_all, h.all_eq]
  | extendedTagged htag hfield hsound =>
    refine (ofJson?_congr ?_ (member?_insert_of_ne htag) fun kind hkind k hk => ?_).symm
    · simp [soundMembers_eq_all, hsound]
    · rw [member?_insert_of_ne htag] at hkind
      refine member?_insert_of_ne ?_
      rintro rfl
      exact hfield kind (mem_of_member? hkind) hk

/-- A member that cannot be kept makes a metric unreadable, whatever its name. -/
theorem ofJson?_eq_none {members : List (String × Json)}
    (h : ∃ m ∈ members, m.2.sound = false) : ofJson? (.object members) = none := by
  have hsound : (Json.object members).sound = false := by
    rw [sound, soundMembers_eq_all, List.all_eq_false]
    obtain ⟨m, hm, hunsound⟩ := h
    exact ⟨m, hm, by simp [hunsound]⟩
  rw [ofJson?, hsound]
  rfl

end Metric

/-! ## Records of records -/

namespace AutoscalerSpec

def shape : Shape :=
  .record false
    [("scaleTargetRef", targetShape), ("minReplicas", .plain), ("maxReplicas", .plain),
     ("scaleDownDelaySecondsAfterScaleUp", .plain), ("metrics", .list Metric.shape),
     ("capacityReservations", .list Reservation.shape)]

theorem overlooked : shape.OverlookedBy ofJson? := by
  refine .of_fields (by decide) ?_
  rintro _ _ (_ | ⟨htarget, _ | ⟨hmin, _ | ⟨hmax, _ | ⟨hdelay, _ | ⟨hmetrics,
    _ | ⟨hreservations, _ | _⟩⟩⟩⟩⟩⟩)
  obtain rfl := hmin.eq_of_plain
  obtain rfl := hmax.eq_of_plain
  obtain rfl := hdelay.eq_of_plain
  dsimp only
  rw [htarget.required_eq target_overlooked, hmetrics.defaulted_eq Metric.overlooked.list,
    hreservations.defaulted_eq Reservation.overlooked.list]

end AutoscalerSpec

namespace AutoscalerStatus

def shape : Shape :=
  .record false
    [("desiredReplicas", .plain), ("lastSuccessfulScaleOutTime", .plain),
     ("cacheEntries", .list CacheEntry.shape)]

theorem overlooked : shape.OverlookedBy ofJson? := by
  refine .of_fields (by decide) ?_
  rintro _ _ (_ | ⟨hdesired, _ | ⟨hgrown, _ | ⟨hcache, _ | _⟩⟩⟩)
  obtain rfl := hdesired.eq_of_plain
  obtain rfl := hgrown.eq_of_plain
  dsimp only
  rw [hcache.defaulted_eq CacheEntry.overlooked.list]

end AutoscalerStatus

namespace Autoscaler

def shape : Shape :=
  .record false
    [("metadata", Metadata.shape), ("spec", AutoscalerSpec.shape),
     ("status", AutoscalerStatus.shape)]

theorem overlooked : shape.OverlookedBy ofJson? := by
  refine .of_fields (by decide) ?_
  rintro _ _ (_ | ⟨hmetadata, _ | ⟨hspec, _ | ⟨hstatus, _ | _⟩⟩⟩)
  dsimp only
  rw [hmetadata.required_eq Metadata.overlooked, hspec.required_eq AutoscalerSpec.overlooked,
    hstatus.defaulted_eq AutoscalerStatus.overlooked]

end Autoscaler

namespace Deployment

def shape : Shape :=
  .record false [("metadata", Metadata.shape), ("spec", DeploymentSpec.shape)]

theorem overlooked : shape.OverlookedBy ofJson? := by
  refine .of_fields (by decide) ?_
  rintro _ _ (_ | ⟨hmetadata, _ | ⟨hspec, _ | _⟩⟩)
  dsimp only
  rw [hmetadata.required_eq Metadata.overlooked, hspec.defaulted_eq DeploymentSpec.overlooked]

end Deployment

namespace Manifest

def shape : Shape :=
  .record true
    [("autoscalers", .list Autoscaler.shape), ("deployments", .list Deployment.shape)]

theorem knowsMembers_eq {fields : List (String × Shape)} {j j' : Json}
    (h : Variant (.record true fields) j j') : knowsMembers j = knowsMembers j' := by
  cases h with
  | permuted h => exact h.all_eq
  | member _ _ => simp [knowsMembers]
  | position _ _ => rfl

theorem overlooked : shape.OverlookedBy ofJson? := by
  refine .of_variant fun j j' h => ?_
  unfold ofJson?
  rw [knowsMembers_eq h]
  by_cases hknown : knowsMembers j' = true
  · rw [if_pos hknown, if_pos hknown]
    refine h.bind_fields?_eq (by decide) ?_
    rintro _ _ (_ | ⟨hautoscalers, _ | ⟨hdeployments, _ | _⟩⟩)
    dsimp only
    rw [hautoscalers.defaulted_eq Autoscaler.overlooked.list,
      hdeployments.defaulted_eq Deployment.overlooked.list]
  · rw [if_neg hknown, if_neg hknown]

/-- A member that is not a field makes a manifest unreadable, wherever it stands. -/
theorem ofJson?_eq_none {members : List (String × Json)}
    (h : ∃ m ∈ members, m.1 ∉ fieldNames) : ofJson? (.object members) = none := by
  have hunknown : knowsMembers (.object members) = false := by
    rw [knowsMembers, List.all_eq_false]
    obtain ⟨m, hm, hnew⟩ := h
    exact ⟨m, hm, by simpa using hnew⟩
  rw [ofJson?, hunknown]
  rfl

end Manifest

/-- No resource is read differently for the order of the members of its records, nor for further
members, at whatever depth. But a metric with a member that cannot be kept is not read, and neither
is a manifest with a member of its own that is not a field. -/
theorem variants_read_alike :
    Autoscaler.shape.OverlookedBy Autoscaler.ofJson? ∧
    Deployment.shape.OverlookedBy Deployment.ofJson? ∧
    Demand.shape.OverlookedBy Demand.ofJson? ∧
    Event.shape.OverlookedBy Event.ofJson? ∧
    AutoscalerStatus.shape.OverlookedBy AutoscalerStatus.ofJson? ∧
    Metric.shape.OverlookedBy Metric.ofJson? ∧
    Reservation.shape.OverlookedBy Reservation.ofJson? ∧
    Manifest.shape.OverlookedBy Manifest.ofJson? ∧
    (∀ members, (∃ m ∈ members, m.2.sound = false) → Metric.ofJson? (.object members) = none) ∧
    ∀ members, (∃ m ∈ members, m.1 ∉ Manifest.fieldNames) →
      Manifest.ofJson? (.object members) = none :=
  ⟨Autoscaler.overlooked, Deployment.overlooked, Demand.overlooked, Event.overlooked,
    AutoscalerStatus.overlooked, Metric.overlooked, Reservation.overlooked, Manifest.overlooked,
    fun _ => Metric.ofJson?_eq_none, fun _ => Manifest.ofJson?_eq_none⟩

def autoscalerTree (extra metric : List (String × Json)) : Json :=
  .object (extra ++
    [("metadata", .object [("namespace", .string "ci"), ("name", .string "builds")]),
     ("spec", .object
       [("scaleTargetRef", .object [("name", .string "runners")]),
        ("metrics", .array [.object metric])])])

/-- A newer version has an epoch in front, and in the metric a window between a field and the tag,
which comes last. -/
theorem variants_read_alike_newer :
    let older := autoscalerTree []
      [("type", .string "PercentageRunnersBusy"), ("scaleUpFactor", .real 1.5)]
    let newer := autoscalerTree [("epoch", .array [.whole 7])]
      [("scaleUpFactor", .real 1.5), ("window", .whole 300),
       ("type", .string "PercentageRunnersBusy")]
    Alike Autoscaler.shape older newer ∧
      Autoscaler.ofJson? older = some ⟨.fresh "ci" "builds",
        ⟨"runners", none, none, none, [.busyShare ⟨none, none, some 1.5, none⟩], []⟩, .empty⟩ ∧
      Autoscaler.ofJson? newer = Autoscaler.ofJson? older ∧
      Metric.ofJson? (.object [("window", .void), ("type", .string "PercentageRunnersBusy")]) =
        none ∧
      Manifest.ofJson? (.object [("epoch", .whole 7), ("autoscalers", .array [newer])]) = none := by
  intro older newer
  have halike : Alike Autoscaler.shape older newer := by
    have hin : ∀ {metric metric'}, Variant Metric.shape (.object metric) (.object metric') →
        Alike Autoscaler.shape (autoscalerTree [] metric) (autoscalerTree [] metric') := by
      intro metric metric' h
      refine .rel _ _ (@Variant.member _ _ [_] [] "spec" AutoscalerSpec.shape _ _
        (by simp) ?_)
      refine @Variant.member _ _ [_] [] "metrics" (.list Metric.shape) _ _ (by simp) ?_
      exact @Variant.item _ [] [] _ _ h
    have hturned := hin (.permutedTagged (.swap ("scaleUpFactor", .real 1.5)
      ("type", .string "PercentageRunnersBusy") []))
    have hwindow := hin (@Variant.extendedTagged _ Metric.fieldsOf [("scaleUpFactor", .real 1.5)]
      [("type", .string "PercentageRunnersBusy")] "window" (.whole 300) (by decide)
      (by simp [Metric.fieldsOf]; decide) rfl)
    have hepoch : Alike Autoscaler.shape (autoscalerTree [] _) newer :=
      .rel _ _ (@Variant.extended _ [] _ "epoch" _ (by decide))
    exact .trans _ _ _ hturned (.trans _ _ _ hwindow hepoch)
  obtain ⟨hautoscaler, -, -, -, -, -, -, -, hmetric, hmanifest⟩ := variants_read_alike
  refine ⟨halike, by decide +kernel, (hautoscaler halike).symm, hmetric _ ⟨_, .head _, rfl⟩,
    hmanifest _ ⟨_, .head _, by decide⟩⟩

/-- A number beyond the doubles under a name that is no field. The metric is not read any more,
while a reservation is read past it. -/
theorem variants_read_alike_fails_beyondDoubles :
    "x" ∉ "type" :: Metric.fieldsOf "PercentageRunnersBusy" ∧ "x" ∉ Reservation.fieldNames ∧
      Encoded.ofText? "\x7b\"type\":\"PercentageRunnersBusy\"\x7d" =
        some (Metric.busyShare ⟨none, none, none, none⟩) ∧
      Encoded.ofText? "\x7b\"type\":\"PercentageRunnersBusy\",\"x\":1e999\x7d" =
        (none : Option Metric) ∧
      Encoded.ofText? "\x7b\"replicas\":3,\"expirationTime\":5000,\"x\":1e999\x7d" =
        some (Reservation.mk 3 5000) := by
  refine ⟨by decide, by decide, ?_, ?_, ?_⟩ <;> decide +kernel

end RunnerFleet
