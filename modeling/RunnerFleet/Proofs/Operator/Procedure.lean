import RunnerFleet.Operator.Command
import RunnerFleet.Proofs.Store.Performed

/-!
# Commands check before they write

The steps of a command act on one store one after another, and nothing takes a write back. What has
only looked can fail without a trace. So a command that looks, then writes once, and then cannot fail
any more leaves the store alone whenever it fails, and all commands but the one for manifests are of
that form.
-/

namespace RunnerFleet.Command

variable {α β : Type} {s s' : Store} {x : Procedure α} {f : α → Procedure β}

theorem run_bind (s : Store) (x : Procedure α) (f : α → Procedure β) :
    run s (x >>= f) =
      match run s x with
      | (.ok a, s') => run s' (f a)
      | (.error e, s') => (.error e, s') := by
  change ExceptT.bindCont f (run s x).1 (run s x).2 = _
  obtain ⟨r, s'⟩ := run s x
  cases r <;> rfl

theorem run_ofExcept (s : Store) (r : Except CommandError α) :
    run s (ofExcept r : Procedure α) = (r, s) := by
  cases r <;> rfl

theorem run_require (s : Store) (holds : Bool) (e : CommandError) :
    run s (require holds e) = (if holds then .ok () else .error e, s) := by
  cases holds <;> rfl

theorem run_get (s : Store) : run s (get : Procedure Store) = (.ok s, s) := rfl

theorem run_look (s : Store) (f : Store → Except StoreError α) :
    run s (look f) = ((f s).mapError .store, s) := by
  unfold look
  rw [run_bind, run_get]
  dsimp only
  cases f s <;> rfl

theorem run_write (s : Store) (refusal : StoreError → CommandError) (f : Store → Stored α) :
    run s (write refusal f) =
      match f s with
      | .ok (a, s') => (.ok a, s')
      | .error e => (.error (refusal e), s) := by
  unfold write
  rw [run_bind, run_get]
  dsimp only
  cases f s <;> rfl

theorem run_pure_eq_ok_iff {a b : α} :
    run s (pure a) = (.ok b, s') ↔ b = a ∧ s' = s := by
  change (Except.ok a, s) = (.ok b, s') ↔ _
  simp [eq_comm]

variable {b : β}

theorem run_ofExcept_bind_eq_ok_iff {r : Except CommandError α} :
    run s (ofExcept r >>= f) = (.ok b, s') ↔ ∃ a, r = .ok a ∧ run s (f a) = (.ok b, s') := by
  rw [run_bind, run_ofExcept]
  cases r <;> simp

theorem run_require_bind_eq_ok_iff {holds : Bool} {e : CommandError} {g : Unit → Procedure β} :
    run s (require holds e >>= g) = (.ok b, s') ↔ holds = true ∧ run s (g ()) = (.ok b, s') := by
  rw [run_bind, run_require]
  cases holds <;> simp

theorem run_look_bind_eq_ok_iff {g : Store → Except StoreError α} :
    run s (look g >>= f) = (.ok b, s') ↔ ∃ a, g s = .ok a ∧ run s (f a) = (.ok b, s') := by
  rw [run_bind, run_look]
  cases g s <;> simp [Except.mapError]

theorem run_write_bind_eq_ok_iff {refusal : StoreError → CommandError} {g : Store → Stored α} :
    run s (write refusal g >>= f) = (.ok b, s') ↔
      ∃ a s₁, g s = .ok (a, s₁) ∧ run s₁ (f a) = (.ok b, s') := by
  rw [run_bind, run_write]
  cases g s with
  | error e => simp
  | ok r => simp [Prod.ext_iff]

theorem run_modify_bind_eq_ok_iff {g : Store → Store} {f : Unit → Procedure β} :
    run s (modify g >>= f) = (.ok b, s') ↔ run (g s) (f ()) = (.ok b, s') := by
  rw [run_bind]
  rfl

/-! ## Failures -/

/-- The procedure leaves the store alone. -/
def Looks (x : Procedure α) : Prop := ∀ s, (run s x).2 = s

/-- Where the procedure fails, it has not written. -/
def ChecksFirst (x : Procedure α) : Prop := ∀ s e, (run s x).1 = .error e → (run s x).2 = s

theorem Looks.checksFirst (h : Looks x) : ChecksFirst x := fun s _ _ => h s

theorem looks_ofExcept (r : Except CommandError α) : Looks (ofExcept r : Procedure α) :=
  fun s => congrArg Prod.snd (run_ofExcept s r)

theorem looks_require (holds : Bool) (e : CommandError) : Looks (require holds e) :=
  fun s => congrArg Prod.snd (run_require s holds e)

theorem looks_look (f : Store → Except StoreError α) : Looks (look f) :=
  fun s => congrArg Prod.snd (run_look s f)

theorem looks_pure (a : α) : Looks (pure a : Procedure α) := fun _ => rfl

theorem checksFirst_write (refusal : StoreError → CommandError) (f : Store → Stored α) :
    ChecksFirst (write refusal f) := by
  intro s e
  rw [run_write]
  cases f s with
  | ok r => exact nofun
  | error e => exact fun _ => rfl

theorem checksFirst_modify (f : Store → Store) : ChecksFirst (modify f : Procedure PUnit) :=
  fun _ _ h => nomatch h

/-- Whatever comes first may fail, as long as it only looks. -/
theorem Looks.bind (hx : Looks x) (hf : ∀ a, ChecksFirst (f a)) : ChecksFirst (x >>= f) := by
  intro s e
  have hsame := hx s
  rw [run_bind]
  rcases hrun : run s x with ⟨r, s'⟩
  rw [hrun] at hsame
  obtain rfl := hsame
  cases r with
  | error e => exact fun _ => rfl
  | ok a => exact hf a s' e

/-- After a write nothing may fail. -/
theorem ChecksFirst.bind_pure (hx : ChecksFirst x) (g : α → β) :
    ChecksFirst (x >>= fun a => pure (g a)) := by
  intro s e
  have hsame := hx s
  rw [run_bind]
  rcases hrun : run s x with ⟨r, s'⟩
  rw [hrun] at hsame
  cases r with
  | error cause => exact fun _ => hsame cause rfl
  | ok a => exact nofun

/-- A result with a store, where an error leaves the store. -/
theorem failed_or_done {r : Except CommandError α × Store}
    (h : ∀ e, r.1 = .error e → r.2 = s) :
    (∃ e, r = (.error e, s)) ∨ ∃ a s', r = (.ok a, s') := by
  obtain ⟨_ | a, s'⟩ := r
  · next e => exact .inl ⟨e, congrArg _ (h e rfl)⟩
  · exact .inr ⟨a, s', rfl⟩

/-! ## The commands -/

variable {key length output : String} {replicas : Count} {counts : DemandCounts} {now : Seconds}
  {e : CommandError}

theorem snd_reserve_of_error (h : (reserve key replicas length now s).1 = .error e) :
    (reserve key replicas length now s).2 = s := by
  refine Looks.bind (looks_ofExcept _) (fun _ => ?_) s e h
  refine (looks_ofExcept _).bind fun d => ?_
  exact (checksFirst_write _ _).bind_pure _

theorem snd_demand_of_error (h : (demand key counts now s).1 = .error e) :
    (demand key counts now s).2 = s := by
  refine Looks.bind (looks_ofExcept _) (fun _ => ?_) s e h
  refine (looks_require _ _).bind fun _ => ?_
  refine (looks_look _).bind fun found => ?_
  refine (looks_require _ _).bind fun _ => ?_
  exact (checksFirst_modify _).bind_pure _

theorem snd_status_of_error (h : (status key s).1 = .error e) : (status key s).2 = s := by
  refine Looks.bind (looks_ofExcept _) (fun _ => ?_) s e h
  refine (looks_look _).bind fun found => ?_
  cases found with
  | none => exact (looks_ofExcept (.error _)).checksFirst
  | some a => exact (looks_look _).bind fun events => (looks_pure _).checksFirst

theorem checkReference_eq_ok_iff {u : Unit} :
    checkReference key = .ok u ↔ isObjectReference key = true := by
  unfold checkReference
  split <;> simp_all

theorem reservationLength_eq_ok_iff {d : Duration} :
    reservationLength length = .ok d ↔ Duration.parse? length = some d ∧ d.isZero = false := by
  unfold reservationLength
  cases hparse : Duration.parse? length with
  | none => simp
  | some parsed =>
    cases hzero : parsed.isZero with
    | true =>
      simp only [hzero, if_true, Option.some.injEq, reduceCtorEq, false_iff, not_and]
      rintro rfl
      simp [hzero]
    | false =>
      simp only [hzero, Bool.false_eq_true, if_false, Except.ok.injEq, Option.some.injEq]
      constructor
      · rintro rfl
        exact ⟨rfl, hzero⟩
      · exact And.left

theorem reserve_eq_ok_iff :
    reserve key replicas length now s = (.ok output, s') ↔
      isObjectReference key = true ∧ ∃ d, (Duration.parse? length = some d ∧ d.isZero = false) ∧
        let r : Reservation := ⟨replicas, Seconds.plus now d.seconds⟩
        ∃ b, s.addReservation key r now = .ok (b, s') ∧ output = reservedText key r := by
  unfold reserve
  simp only [run_ofExcept_bind_eq_ok_iff, run_write_bind_eq_ok_iff, run_pure_eq_ok_iff,
    checkReference_eq_ok_iff, reservationLength_eq_ok_iff, exists_const]
  constructor
  · rintro ⟨hkey, d, hlength, b, _, hadd, houtput, rfl⟩
    exact ⟨hkey, d, hlength, b, hadd, houtput⟩
  · rintro ⟨hkey, d, hlength, b, hadd, houtput⟩
    exact ⟨hkey, d, hlength, b, _, hadd, houtput, rfl⟩

theorem demand_eq_ok_iff :
    demand key counts now s = (.ok output, s') ↔
      isObjectReference key = true ∧ counts.busy ≤ counts.registered ∧
        (∃ d, s.deployment? key = .ok (some d)) ∧
        output = "" ∧ s' = s.putDemand (counts.seenAt key now) := by
  unfold demand
  simp only [run_ofExcept_bind_eq_ok_iff, run_require_bind_eq_ok_iff, run_look_bind_eq_ok_iff,
    run_modify_bind_eq_ok_iff, run_pure_eq_ok_iff, checkReference_eq_ok_iff, decide_eq_true_iff,
    exists_const, Option.isSome_iff_exists]
  constructor
  · rintro ⟨hkey, hbusy, _, hread, ⟨d, rfl⟩, hwritten⟩
    exact ⟨hkey, hbusy, ⟨d, hread⟩, hwritten⟩
  · rintro ⟨hkey, hbusy, ⟨d, hread⟩, hwritten⟩
    exact ⟨hkey, hbusy, _, hread, ⟨d, rfl⟩, hwritten⟩

theorem status_eq_ok_iff :
    status key s = (.ok output, s') ↔
      isObjectReference key = true ∧ ∃ a listed, s.autoscaler? key = .ok (some a) ∧
        s.eventsOf key = .ok listed ∧ output = (statusJson a listed).indented ++ "\n" ∧ s' = s := by
  unfold status
  simp only [run_ofExcept_bind_eq_ok_iff, run_look_bind_eq_ok_iff, checkReference_eq_ok_iff,
    exists_const]
  refine and_congr_right fun _ => ?_
  constructor
  · rintro ⟨found, hread, hshown⟩
    cases found with
    | none => cases hshown
    | some a =>
      obtain ⟨listed, hlisted, hprinted⟩ := run_look_bind_eq_ok_iff.1 hshown
      exact ⟨a, listed, hread, hlisted, run_pure_eq_ok_iff.1 hprinted⟩
  · rintro ⟨a, listed, hread, hlisted, hprinted⟩
    exact ⟨some a, hread, run_look_bind_eq_ok_iff.2 ⟨listed, hlisted, run_pure_eq_ok_iff.2 hprinted⟩⟩

/-- A reservation that is not refused is appended to those that are not over yet. -/
theorem reserve_cases (key : String) (replicas : Count) (length : String) (now : Seconds)
    (s : Store) :
    (∃ e, reserve key replicas length now s = (.error e, s)) ∨
    ∃ d a, Duration.parse? length = some d ∧ s.autoscaler? key = .ok (some a) ∧
      let r : Reservation := ⟨replicas, Seconds.plus now d.seconds⟩
      let b := Versioned.bumped { a with
        spec := { a.spec with reservations := a.spec.reservations.filter (·.isActive now) ++ [r] } }
      reserve key replicas length now s = (.ok (reservedText key r),
        { s with autoscalers := s.autoscalers.insert key (.written b) }) := by
  obtain hfailed | ⟨output, s', heq⟩ := failed_or_done
    (r := reserve key replicas length now s) fun _ => snd_reserve_of_error
  · exact .inl hfailed
  · obtain ⟨-, d, ⟨hparse, -⟩, b, hadd, rfl⟩ := reserve_eq_ok_iff.1 heq
    obtain ⟨t, ht, rfl⟩ := Store.onAutoscalers_eq_ok hadd
    obtain ⟨a, c, hread, hc, rfl, rfl⟩ := Table.update_eq_ok ht
    obtain rfl := Except.ok.inj hc
    exact .inr ⟨d, a, hparse, hread, heq⟩

theorem demand_cases (key : String) (counts : DemandCounts) (now : Seconds) (s : Store) :
    (demand key counts now s).2 = s ∨ ∃ d, (demand key counts now s).2 = s.putDemand d := by
  obtain ⟨e, heq⟩ | ⟨output, s', heq⟩ := failed_or_done
    (r := demand key counts now s) fun _ => snd_demand_of_error
  · exact .inl (congrArg Prod.snd heq)
  · obtain ⟨-, -, -, -, rfl⟩ := demand_eq_ok_iff.1 heq
    exact .inr ⟨_, congrArg Prod.snd heq⟩

/-- A status prints the autoscaler and the latest events of its listing. It changes nothing. -/
theorem status_cases (key : String) (s : Store) :
    (∃ e, status key s = (.error e, s)) ∨
    ∃ a listed, s.autoscaler? key = .ok (some a) ∧ s.eventsOf key = .ok listed ∧
      status key s = (.ok ((statusJson a listed).indented ++ "\n"), s) := by
  obtain hfailed | ⟨output, s', heq⟩ := failed_or_done
    (r := status key s) fun _ => snd_status_of_error
  · exact .inl hfailed
  · obtain ⟨-, a, listed, hread, hlisted, rfl, rfl⟩ := status_eq_ok_iff.1 heq
    exact .inr ⟨a, listed, hread, hlisted, heq⟩

end RunnerFleet.Command
