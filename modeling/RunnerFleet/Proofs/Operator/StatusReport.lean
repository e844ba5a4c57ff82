import RunnerFleet.Proofs.Operator.Refusal
import RunnerFleet.Proofs.Resource.RoundTrip
import RunnerFleet.Proofs.Store.Locality

/-!
# What a status prints is what is stored

A status prints one value with an autoscaler and its latest events as members. Its text is read back
like that of any resource, so whoever reads the printed text finds what the store returns. The
listing behind it cannot fail: every step of a scenario adds to the events only what the store has
written itself, unless someone overwrites that table while the store is closed.
-/

namespace RunnerFleet

/-! ## Own events -/

theorem EventAdded.ownRows {e : Event} {t t' : Table (Row Event)} (h : EventAdded e t t')
    (own : t.OwnRows) : t'.OwnRows := by
  obtain ⟨seq, -, rfl⟩ := h
  exact own.insert (e.tableKey seq) e

theorem Pass.ownEvents_reconcile (p : Pass) {w : World} (own : w.store.events.OwnRows) :
    (p.reconcile w).2.store.events.OwnRows := by
  rw [← (p.spares_others w).2] at own
  change (p.after w).events.OwnRows
  obtain hsame | ⟨e, hadded⟩ := p.events_after w
  · rwa [hsame]
  · exact hadded.ownRows own

namespace Scenario

/-- The step writes a text into the table of events past the store. -/
def Step.forgesEvents : Step → Bool
  | .overwrite .events _ _ => true
  | _ => false

variable {c : Scenario} {x : Step} {steps : List Step} {key : String} {a : Autoscaler}

theorem ownEvents_play (hx : x.forgesEvents = false) (own : c.world.store.events.OwnRows) :
    (c.play x).2.world.store.events.OwnRows := by
  cases x with
  | operate op =>
    unfold play
    dsimp only
    split
    · next answer s hop =>
      cases Store.performed_of_perform hop with
      | recorded => exact (Store.eventAdded_recordEvent _ _).ownRows own
      | wroteAutoscaler | wroteDeployment | deletedAutoscaler | deletedDeployment | tookDemand
      | looked => exact own
    · exact own
  | script key answer => cases answer <;> exact own
  | interfere sort key is => exact own
  | reconcile key now clock => exact Pass.ownEvents_reconcile _ own
  | sync now clock =>
    unfold play
    dsimp only
    split
    · exact own
    · next t hsync =>
      exact Controller.sync_preserves (P := fun w => w.store.events.OwnRows)
        (fun p w hw => p.ownEvents_reconcile hw) hsync own
  | apply text =>
    change (Command.apply text c.world.store).2.events.OwnRows
    rwa [(Command.spares_apply text c.world.store).2]
  | reserve key replicas length now =>
    change (Command.reserve key replicas length now c.world.store).2.events.OwnRows
    obtain ⟨e, heq⟩ | ⟨d, a, -, -, heq⟩ :=
      Command.reserve_cases key replicas length now c.world.store
    · rwa [heq]
    · rwa [heq]
  | demand key counts now =>
    change (Command.demand key counts now c.world.store).2.events.OwnRows
    obtain heq | ⟨d, heq⟩ := Command.demand_cases key counts now c.world.store
    · rwa [heq]
    · rwa [heq]
  | status key =>
    change (Command.status key c.world.store).2.events.OwnRows
    rwa [Command.status_snd]
  | reopen =>
    unfold play
    dsimp only
    split <;> exact own
  | overwrite table key text =>
    unfold play
    dsimp only
    split
    · exact own
    · cases table with
      | events => cases hx
      | autoscalers | deployments | demand => exact own

/-- Whatever happens, all events are the store's own as long as nobody forges any. -/
theorem ownEvents_run (hsteps : ∀ x ∈ steps, x.forgesEvents = false)
    (own : c.world.store.events.OwnRows) : (c.run steps).world.store.events.OwnRows := by
  induction steps using List.reverseRecOn with
  | nil => exact own
  | append_singleton steps x ih =>
    rw [run_append_singleton]
    exact ownEvents_play (hsteps x (by simp)) (ih fun y hy => hsteps y (by simp [hy]))

end Scenario

/-! ## The printed text -/

namespace Store

theorem latest_suffix (listed : List Event) : latest listed <:+ listed := List.drop_suffix _ _

theorem length_latest (listed : List Event) : (latest listed).length = min 10 listed.length := by
  rw [latest, List.length_drop, Command.shownEvents]
  omega

end Store

namespace Command

/-- The text is JSON, and the resource readers find these in its two members. -/
def Shows (text : String) (a : Autoscaler) (shown : List Event) : Prop :=
  ∃ members autoscaler events, Json.parse? text = some (.object members) ∧
    Json.member? "autoscaler" members = some (some autoscaler) ∧
    Autoscaler.ofJson? autoscaler = some a ∧
    Json.member? "events" members = some (some events) ∧
    Json.toList? Event.ofJson? events = some shown

variable {key : String} {s : Store} {a : Autoscaler}

theorem legible_statusJson (a : Autoscaler) (listed : List Event) :
    Json.Legible (fun _ => True) Json.mostOpen (statusJson a listed) := by
  have hautoscaler : Json.Legible (fun _ => True) 126 a.toJson :=
    Autoscaler.legible_toJson (fun _ _ _ _ => trivial) 122
  have hevents : Json.Legible (fun _ => True) 126
      (.array ((Store.latest listed).map Event.toJson)) :=
    .array_map fun e _ => e.legible_toJson 124
  refine .ofFields (List.forall_mem_cons.2 ⟨?_, List.forall_mem_cons.2 ⟨?_, nofun⟩⟩)
  · rintro _ ⟨⟩
    exact hautoscaler
  · rintro _ ⟨⟩
    exact hevents

theorem shows_statusJson (a : Autoscaler) (listed : List Event) :
    Shows ((statusJson a listed).indented ++ "\n") a.reread (Store.latest listed) := by
  obtain ⟨fields, hfields⟩ : ∃ fields : List (String × Option Json), fields =
      [("autoscaler", some a.toJson),
        ("events", some (.array ((Store.latest listed).map Event.toJson)))] := ⟨_, rfl⟩
  have hnames : (fields.map Prod.fst).Nodup := by
    rw [hfields]
    change ["autoscaler", "events"].Nodup
    decide
  have hparse := Json.parse?_indented_newline (legible_statusJson a listed)
  have hjson : (statusJson a listed).asRead = (Json.ofFields fields).asRead := by rw [hfields]; rfl
  have hevent : ∀ e : Event, Event.ofJson? e.toJson.asRead = some e :=
    resources_faithful.2.2.2.decoded
  rw [hjson, Json.ofFields, Json.asRead_object] at hparse
  refine ⟨_, a.toJson.asRead, .array ((Store.latest listed).map (·.toJson.asRead)), hparse, ?_,
    a.ofJson?_asRead, ?_, Json.toList?_map hevent (Store.latest listed)⟩
  · have hmem : ("autoscaler", some a.toJson) ∈ fields := by simp [hfields]
    rw [Json.member?_asRead, Json.member?_of_mem hnames hmem]
    rfl
  · have hmem : ("events", some (.array ((Store.latest listed).map Event.toJson))) ∈ fields := by
      simp [hfields]
    rw [Json.member?_asRead, Json.member?_of_mem hnames hmem]
    simp [Function.comp_def]

/-- The command succeeds on a reference to a stored autoscaler if its events can be listed. -/
theorem status_eq {listed : List Event} (hkey : isObjectReference key = true)
    (hstored : s.autoscaler? key = .ok (some a)) (hlisted : s.eventsOf key = .ok listed) :
    status key s = (.ok ((statusJson a listed).indented ++ "\n"), s) :=
  status_eq_ok_iff.2 ⟨hkey, a, listed, hstored, hlisted, rfl, rfl⟩

end Command

namespace Scenario

/-- In every run in which nobody forges events, the status of a stored autoscaler is printed without
a change to the store, and the printed text is read as that autoscaler and the latest ten events of
its listing, as long as the numbers in its metrics are read back from their own texts. -/
theorem status_shows_stored (backend : Backend) (settings : Settings) {steps : List Step}
    (hsteps : ∀ x ∈ steps, x.forgesEvents = false) {key : String} {a : Autoscaler}
    (hkey : isObjectReference key = true)
    (hstored : ((start backend settings).run steps).world.store.autoscaler? key = .ok (some a))
    (hreads : a.ReadsBack) :
    let s := ((start backend settings).run steps).world.store
    ∃ text listed, Command.status key s = (.ok text, s) ∧ s.eventsOf key = .ok listed ∧
      Command.Shows text a (Store.latest listed) ∧ Store.latest listed <:+ listed ∧
      (Store.latest listed).length = min 10 listed.length := by
  intro s
  have hown : s.events.OwnRows := ownEvents_run hsteps .empty
  obtain ⟨listed, hlisted⟩ := Store.eventsOf_isOk hown key
  have hshows := Command.shows_statusJson a listed
  rw [Autoscaler.reread_eq hreads] at hshows
  exact ⟨_, listed, Command.status_eq hkey hstored hlisted, hlisted,
    hshows, Store.latest_suffix listed, Store.length_latest listed⟩

def warnedElevenTimes : List Step :=
  .operate (.createAutoscaler unusualAutoscaler) ::
    (List.range 11).map fun n => .operate <| .recordEvent
      ⟨unusualAutoscaler.key, .warning, "\"\n", toString n, .ofNat (110 - n)⟩

theorem status_shows_stored_warnedElevenTimes :
    let s := ((start .disk .default).run warnedElevenTimes).world.store
    let a := Versioned.withVersion unusualAutoscaler 1
    s.autoscaler? a.key = .ok (some a) ∧ ∃ text listed, Command.status a.key s = (.ok text, s) ∧
      s.eventsOf a.key = .ok listed ∧ listed.length = 11 ∧
      Command.Shows text a (Store.latest listed) ∧
      (Store.latest listed).map Event.message =
        ["9", "8", "7", "6", "5", "4", "3", "2", "1", "0"] := by
  intro s a
  have hstored : s.autoscaler? a.key = .ok (some a) := by decide +kernel
  have hmessages : (s.eventsOf a.key).map (List.map Event.message) =
      .ok ((List.range 11).reverse.map toString) := by decide +kernel
  have hsteps : ∀ x ∈ warnedElevenTimes, x.forgesEvents = false := by decide
  obtain ⟨text, listed, hran, hlisted, hshows, -, -⟩ := status_shows_stored .disk .default hsteps
    (by decide +kernel) hstored (by decide +kernel)
  rw [hlisted] at hmessages
  have htold : listed.map Event.message = (List.range 11).reverse.map toString :=
    Except.ok.inj hmessages
  have hlength : listed.length = 11 := by simpa using congrArg List.length htold
  refine ⟨hstored, text, listed, hran, hlisted, hlength, hshows, ?_⟩
  rw [Store.latest, hlength, List.map_drop, htold]
  decide

end Scenario

end RunnerFleet
