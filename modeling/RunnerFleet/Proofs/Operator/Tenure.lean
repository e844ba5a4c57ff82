import RunnerFleet.Proofs.Operator.Terms

/-!
# How long reservations and marks last

Operators and controllers act on a store one after another, each at its time. Nothing but applying a
manifest ends a reservation before it is over or takes back a mark for deletion. A manifest replaces
both by what its last entry has, so applying the one that created a resource takes them away.
-/

namespace RunnerFleet

open Store

structure Site where
  store : Store
  backoff : Table Backoff

inductive Deed where
  | apply (manifest : String)
  | reserve (key : String) (replicas : Count) (length : String)
  | demand (key : String) (counts : DemandCounts)
  | status (key : String)
  | mark (place : Place)
  | delete (place : Place)
  | pass (key : String) (engine : Engine) (evaluate : Evaluator)
  /-- One step of a pass that is under way, whatever it has read so far. -/
  | step (p : Pass) (stage : Stage)
  | sync (c : Controller) (evaluate : Evaluator)

namespace Site

def act (x : Site) (now : Seconds) : Deed → Site
  | .apply manifest => { x with store := (Command.apply manifest x.store).2 }
  | .reserve key replicas length =>
    { x with store := (Command.reserve key replicas length now x.store).2 }
  | .demand key counts => { x with store := (Command.demand key counts now x.store).2 }
  | .status key => { x with store := (Command.status key x.store).2 }
  | .mark place => { x with store := x.store.after (place.marking now) }
  | .delete place => { x with store := x.store.after place.deleting }
  | .pass key engine evaluate =>
    { x with store := (Pass.reconcile ⟨key, now, engine, evaluate⟩ (.ofStore x.store)).2.store }
  | .step p stage => { x with store := (p.step stage (.ofStore x.store)).2.store }
  | .sync c evaluate =>
    match c.sync evaluate now (.ofStore x.store) x.backoff with
    | .ok t => ⟨t.world.store, t.backoff⟩
    | .error _ => x

@[simp] theorem store_act_apply (x : Site) (now : Seconds) (manifest : String) :
    (x.act now (.apply manifest)).store = (Command.apply manifest x.store).2 := rfl

@[simp] theorem store_act_reserve (x : Site) (now : Seconds) (key length : String)
    (replicas : Count) : (x.act now (.reserve key replicas length)).store =
      (Command.reserve key replicas length now x.store).2 := rfl

@[simp] theorem store_act_mark (x : Site) (now : Seconds) (place : Place) :
    (x.act now (.mark place)).store = x.store.after (place.marking now) := rfl

def run (x : Site) (deeds : List (Seconds × Deed)) : Site :=
  deeds.foldl (fun x d => x.act d.1 d.2) x

theorem run_append_singleton (x : Site) (deeds : List (Seconds × Deed)) (now : Seconds)
    (deed : Deed) : x.run (deeds ++ [(now, deed)]) = (x.run deeds).act now deed :=
  List.foldl_append

end Site

/-- What a deed makes of the terms of a resource that it does not delete. -/
def Deed.revise (s : Store) (now : Seconds) (place : Place) (terms : Terms) : Deed → Terms
  | .apply manifest => ((Command.lastStored manifest s place).map Resource.terms).getD terms
  | .reserve key replicas length =>
    match (Command.reserve key replicas length now s).1, Duration.parse? length with
    | .ok _, some d =>
      if place = ⟨.autoscaler, key⟩ then
        terms.reserving now ⟨replicas, Seconds.plus now d.seconds⟩
      else terms
    | _, _ => terms
  | .mark target => if place = target then terms.marked now else terms
  | _ => terms

variable {x : Site} {now : Seconds} {deed : Deed} {place : Place} {terms : Terms}

/-- Every deed but the deletion of a resource leaves it with the revised terms. -/
theorem Site.termsAt_act (h : x.store.termsAt place = .ok (some terms))
    (hdeed : deed ≠ .delete place) :
    (x.act now deed).store.termsAt place =
      .ok (some (deed.revise x.store now place terms)) := by
  cases deed with
  | apply manifest =>
    rw [Deed.revise, act, Command.termsAt_apply]
    cases Command.lastStored manifest x.store place with
    | none => exact h
    | some r => rfl
  | reserve key replicas length =>
    rw [Deed.revise, act]
    obtain ⟨e, heq⟩ | ⟨d, a, hlength, hread, heq⟩ :=
      Command.reserve_cases key replicas length now x.store
    · rw [heq]
      exact h
    · rw [heq, hlength]
      dsimp only
      refine (termsAt_file x.store place key (.autoscaler _)).trans ?_
      rw [show (Resource.autoscaler _).kind = Kind.autoscaler from rfl]
      split
      · next hplace =>
        subst hplace
        cases (readAt_of_resourceAt (resourceAt_of_autoscaler hread)).symm.trans h
        rfl
      · exact h
  | demand key counts =>
    rw [act, Command.termsAt_demand]
    exact h
  | status key =>
    rw [act, Command.status_snd]
    exact h
  | mark target =>
    rw [Deed.revise, act]
    by_cases hplace : place = target
    · rw [if_pos hplace, ← hplace]
      exact termsAt_marking_self h now
    · rw [if_neg hplace, termsAt_marking_of_ne hplace]
      exact h
  | delete target =>
    rw [act, termsAt_deleting_of_ne fun hplace => hdeed (by rw [hplace])]
    exact h
  | pass key engine evaluate =>
    have hkeeps := (World.keeps_ofStore x.store).reconcile ⟨key, now, engine, evaluate⟩
    rw [act, hkeeps.terms]
    exact h
  | step p stage =>
    rw [act, ((World.keeps_ofStore x.store).step p stage).terms]
    exact h
  | sync c evaluate =>
    unfold act
    dsimp only
    split
    · next t hsync =>
      rw [Controller.termsAt_sync hsync]
      exact h
    · exact h

/-- Only a reservation and a mark revise terms, unless it is a manifest that does. -/
theorem Deed.revise_preserves {P : Terms → Prop} {s : Store} (h : P terms)
    (hmanifest : ∀ text, deed ≠ .apply text) (hreserving : ∀ r, P (terms.reserving now r))
    (hmarked : P (terms.marked now)) : P (deed.revise s now place terms) := by
  cases deed with
  | apply manifest => exact absurd rfl (hmanifest manifest)
  | reserve key replicas length =>
    unfold revise
    dsimp only
    split
    · split
      · exact hreserving _
      · exact h
    · exact h
  | mark target =>
    unfold revise
    dsimp only
    split
    · exact hmarked
    · exact h
  | _ => exact h

namespace Site

variable {P : Terms → Prop} {later : List (Seconds × Deed)}

theorem holds_act (h : x.store.Holds place P) (hdeed : deed ≠ .delete place)
    (hkeeps : ∀ terms, P terms → (∀ text, deed ≠ .apply text) →
      P (deed.revise x.store now place terms))
    (happly : ∀ text, deed = .apply text → ∀ r,
      Command.lastStored text x.store place = some r → P r.terms) :
    (x.act now deed).store.Holds place P := by
  obtain ⟨terms, hterms, hP⟩ := h
  refine ⟨_, termsAt_act hterms hdeed, ?_⟩
  by_cases hmanifest : ∃ text, deed = .apply text
  · obtain ⟨text, rfl⟩ := hmanifest
    rw [Deed.revise]
    cases hlast : Command.lastStored text x.store place with
    | none => exact hP
    | some r => exact happly text rfl r hlast
  · exact hkeeps terms hP fun text heq => hmanifest ⟨text, heq⟩

theorem holds_act_apply_iff {text : String} {r : Resource}
    (h : Command.lastStored text x.store place = some r) :
    (x.act now (.apply text)).store.Holds place P ↔ P r.terms := by
  rw [store_act_apply, Holds, Command.termsAt_apply_of_lastStored h]
  simp only [Except.ok.injEq, Option.some.injEq, exists_eq_left']

/-- What all deeds but the applying of manifests leave in force at their times, and all applied
manifests have in what they store last, is in force after them. -/
theorem holds_run (h : x.store.Holds place P) {live : Seconds → Prop}
    (hkeeps : ∀ s now terms deed, live now → (∀ text, deed ≠ Deed.apply text) → P terms →
      P (deed.revise s now place terms))
    (hlive : ∀ d ∈ later, live d.1) (hkept : ∀ d ∈ later, d.2 ≠ .delete place)
    (happlied : ∀ done t text, done ++ [(t, .apply text)] <+: later →
      ∀ r, Command.lastStored text (x.run done).store place = some r → P r.terms) :
    (x.run later).store.Holds place P := by
  induction later using List.reverseRecOn with
  | nil => exact h
  | append_singleton before d ih =>
    obtain ⟨t, deed⟩ := d
    have hlast : (t, deed) ∈ before ++ [(t, deed)] := by simp
    have hbefore : (x.run before).store.Holds place P := by
      refine ih (fun d hd => hlive d (List.mem_append_left _ hd))
        (fun d hd => hkept d (List.mem_append_left _ hd)) fun done t text hdone => ?_
      exact happlied done t text (hdone.trans (List.prefix_append before _))
    rw [run_append_singleton]
    refine holds_act hbefore (hkept _ hlast) ?_ ?_
    · exact fun terms hP hmanifest => hkeeps _ t terms deed (hlive _ hlast) hmanifest hP
    · rintro text rfl
      exact happlied before t text (List.prefix_refl _)

/-- As long as the time is `live`, it lasts exactly if every manifest that is applied meanwhile has
it in what it stores last. -/
theorem holds_iff (h : x.store.Holds place P) (live : Seconds → Prop)
    (hkeeps : ∀ s now terms deed, live now → (∀ text, deed ≠ Deed.apply text) → P terms →
      P (deed.revise s now place terms))
    (hlive : later.Pairwise fun d e => live e.1 → live d.1)
    (hkept : ∀ d ∈ later, d.2 ≠ .delete place) :
    (∀ done t deed, done ++ [(t, deed)] <+: later → live t →
      (x.run (done ++ [(t, deed)])).store.Holds place P) ↔
    ∀ done t text, done ++ [(t, .apply text)] <+: later → live t →
      ∀ r, Command.lastStored text (x.run done).store place = some r → P r.terms := by
  constructor
  · intro hlasts done t text hdone ht r hr
    have hafter := hlasts done t _ hdone ht
    rw [run_append_singleton] at hafter
    exact (holds_act_apply_iff hr).1 hafter
  · intro happlied done t deed hdone ht
    have hbefore : ∀ d ∈ done ++ [(t, deed)], live d.1 := by
      intro d hd
      obtain hd | rfl := List.mem_append.1 hd |>.imp_right List.mem_singleton.1
      · exact (List.pairwise_append.1 (hlive.sublist hdone.sublist)).2.2 d hd (t, deed)
          (List.mem_singleton_self _) ht
      · exact ht
    refine holds_run h hkeeps hbefore (fun d hd => hkept d (hdone.subset hd)) ?_
    intro earlier t' text hearlier
    exact happlied earlier t' text (hearlier.trans hdone)
      (hbefore _ (hearlier.subset (List.mem_append_right earlier (List.mem_singleton_self _))))

end Site

/-! ## Reservations -/

def Store.Reserves (s : Store) (key : String) (r : Reservation) : Prop :=
  s.Holds ⟨.autoscaler, key⟩ (r ∈ ·.reservations)

theorem Store.Terms.mem_reserving {r q : Reservation} (h : r ∈ terms.reservations)
    (hnow : now < r.expiresAt) : r ∈ (terms.reserving now q).reservations :=
  List.mem_append_left _ (List.mem_filter.2 ⟨h, decide_eq_true hnow⟩)

namespace Site

variable {later : List (Seconds × Deed)} {key length output : String} {replicas : Count}

/-- What a reserve command reports is a reservation that the autoscaler has from then on. -/
theorem reserves_act_reserve
    (h : (Command.reserve key replicas length now x.store).1 = .ok output) :
    ∃ d, Duration.parse? length = some d ∧
      let r : Reservation := ⟨replicas, Seconds.plus now d.seconds⟩
      output = Command.reservedText key r ∧
        (x.act now (.reserve key replicas length)).store.Reserves key r := by
  obtain ⟨e, heq⟩ | ⟨d, a, hlength, -, heq⟩ :=
    Command.reserve_cases key replicas length now x.store
  · rw [heq] at h
    cases h
  · rw [heq] at h
    refine ⟨d, hlength, (Except.ok.inj h).symm, ?_⟩
    rw [Store.Reserves, store_act_reserve, heq]
    exact ⟨_, (termsAt_file _ _ _ (.autoscaler _)).trans (if_pos rfl),
      List.mem_append_right _ (List.mem_singleton_self _)⟩

/-- A reservation is there when the command has reported it. It stays until it is over, whatever is
done in the meantime but the deletion of its autoscaler, exactly if every manifest that is applied
and names the autoscaler has the reservation in the entry that it stores last. -/
theorem reservation_lasts_iff {t₀ : Seconds}
    (hreserve : (Command.reserve key replicas length t₀ x.store).1 = .ok output)
    (later : List (Seconds × Deed)) (htimes : (later.map Prod.fst).Pairwise (· ≤ ·))
    (hkept : ∀ d ∈ later, d.2 ≠ .delete ⟨.autoscaler, key⟩) :
    ∃ d, Duration.parse? length = some d ∧
      let r : Reservation := ⟨replicas, Seconds.plus t₀ d.seconds⟩
      let y := x.act t₀ (.reserve key replicas length)
      output = Command.reservedText key r ∧ y.store.Reserves key r ∧
        ((∀ done t deed, done ++ [(t, deed)] <+: later → t < r.expiresAt →
          (y.run (done ++ [(t, deed)])).store.Reserves key r) ↔
        ∀ done t text, done ++ [(t, .apply text)] <+: later → t < r.expiresAt →
          ∀ stored, Command.lastStored text (y.run done).store ⟨.autoscaler, key⟩ = some stored →
            r ∈ stored.terms.reservations) := by
  obtain ⟨d, hlength, houtput, hreserves⟩ := reserves_act_reserve hreserve
  refine ⟨d, hlength, houtput, hreserves, holds_iff hreserves (· < _) ?_ ?_ hkept⟩
  · intro s now terms deed hnow hmanifest hmem
    exact Deed.revise_preserves (P := (_ ∈ ·.reservations)) hmem hmanifest
      (fun _ => Terms.mem_reserving hmem hnow) hmem
  · exact (List.pairwise_map.1 htimes).imp fun hle hlt => UInt64.lt_of_le_of_lt hle hlt

end Site

def Manifest.builds : Manifest where
  autoscalers := [⟨.fresh "ci" "builds", ⟨"runners", none, none, none, [], []⟩, .empty⟩]
  deployments := [⟨.fresh "ci" "runners", .empty⟩]

def Manifest.nightly : Manifest where
  autoscalers := [⟨.fresh "ci" "nightly", ⟨"spares", none, none, none, [], []⟩, .empty⟩]
  deployments := [⟨.fresh "ci" "spares", .empty⟩]

theorem Manifest.read_builds : read builds.text = .ok builds :=
  read_text (by decide) (by decide)

theorem Manifest.read_nightly : read nightly.text = .ok nightly :=
  read_text (by decide) (by decide)

namespace Site

def ofBuilds : Site := ⟨(Command.apply Manifest.builds.text .empty).2, .empty⟩

theorem store_ofBuilds : ofBuilds.store = (Manifest.builds.apply .empty).2 := by
  rw [ofBuilds, Command.apply_of_read Manifest.read_builds]

theorem reserve_ofBuilds : (Command.reserve "ci/builds" 3 "1h" 1000 ofBuilds.store).1 =
    .ok "reserved 3 replica(s) on ci/builds until 4600\n" := by
  rw [store_ofBuilds]
  decide +kernel

/-- More reservations, demand, a pass, a mark and a manifest for others leave a reservation in place
for the hour. -/
theorem reservation_lasts_ofBuilds :
    let later : List (Seconds × Deed) :=
      [(1000, .demand "ci/runners" ⟨2, 0, 0, 0⟩), (1100, .reserve "ci/builds" 1 "2h"),
       (1200, .apply Manifest.nightly.text),
       (1200, .pass "ci/builds" (.ofSettings .default) fun _ _ _ => .ok 1),
       (1300, .mark ⟨.autoscaler, "ci/builds"⟩), (4599, .reserve "ci/builds" 4 "5m")]
    ((ofBuilds.act 1000 (.reserve "ci/builds" 3 "1h")).run later).store.Reserves
      "ci/builds" ⟨3, 4600⟩ := by
  intro later
  obtain ⟨d, hlength, -, -, hlasts⟩ :=
    reservation_lasts_iff reserve_ofBuilds later (by simp [later]) (by simp [later])
  obtain rfl : Duration.ofSeconds 3600 = d := by
    rw [show Duration.parse? "1h" = some (.ofSeconds 3600) by decide] at hlength
    exact Option.some.inj hlength
  refine hlasts.2 ?_ (later.take 5) 4599 _ (List.prefix_refl later) (by decide)
  intro done t text hdone _ stored hstored
  obtain ⟨-, rfl⟩ : t = 1200 ∧ text = Manifest.nightly.text := by
    simpa [later] using hdone.subset (List.mem_append_right done (List.mem_singleton_self _))
  rw [Command.lastStored_eq_none Manifest.read_nightly (by decide)] at hstored
  cases hstored

/-- Applying the manifest that made the autoscaler once more ends a reservation at once. -/
theorem not_reserves_applied_again :
    let reserved := ofBuilds.act 1000 (.reserve "ci/builds" 3 "1h")
    (Command.reserve "ci/builds" 3 "1h" 1000 ofBuilds.store).1 =
        .ok "reserved 3 replica(s) on ci/builds until 4600\n" ∧
      reserved.store.Reserves "ci/builds" ⟨3, 4600⟩ ∧
      ¬ (reserved.act 1000 (.apply Manifest.builds.text)).store.Reserves "ci/builds" ⟨3, 4600⟩ := by
  intro reserved
  have hstore : reserved.store =
      (Command.reserve "ci/builds" 3 "1h" 1000 (Manifest.builds.apply .empty).2).2 := by
    rw [store_act_reserve, store_ofBuilds]
  clear_value reserved
  refine ⟨reserve_ofBuilds, ⟨⟨none, [⟨3, 4600⟩]⟩, ?_, List.mem_singleton_self _⟩, ?_⟩
  · rw [hstore]
    decide +kernel
  · have hlast : (Manifest.builds.lastStored reserved.store ⟨.autoscaler, "ci/builds"⟩).map
        Resource.terms = some ⟨none, []⟩ := by
      rw [hstore]
      decide +kernel
    obtain ⟨stored, hstored, hterms⟩ := Option.map_eq_some_iff.1 hlast
    rw [← Command.lastStored_of_read Manifest.read_builds] at hstored
    rw [Store.Reserves, holds_act_apply_iff hstored, hterms]
    exact List.not_mem_nil

end Site

/-! ## Marks for deletion -/

def Store.MarkedAt (s : Store) (place : Place) (t : Seconds) : Prop :=
  s.Holds place (·.deletedAt = some t)

namespace Pass

/-- The pass is one of an autoscaler, or one that would scale a deployment. -/
def Concerns (p : Pass) (s : Store) (place : Place) : Prop :=
  match place.kind with
  | .autoscaler => p.key = place.key
  | .deployment => ∃ a, s.autoscaler? p.key = .ok (some a) ∧ a.targetKey = place.key

variable {p : Pass} {s : Store} {a : Autoscaler} {target : Deployment}

theorem load_of_deleting (hread : s.autoscaler? p.key = .ok (some a))
    (hdeleting : a.metadata.isDeleting = true) :
    p.load s = .error (.ok (.skipped .autoscalerDeleting)) := by
  simp [load, readAutoscaler, hread, hdeleting, result]

theorem load_of_target_deleting (hread : s.autoscaler? p.key = .ok (some a))
    (hstays : a.metadata.isDeleting = false)
    (htarget : s.deployment? a.targetKey = .ok (some target))
    (hdeleting : target.metadata.isDeleting = true) :
    p.load s = .error (.ok (.skipped .targetDeleting)) := by
  simp [load, readAutoscaler, readTarget, hread, hstays, htarget, hdeleting, result]

end Pass

namespace Store.MarkedAt

variable {s : Store} {t : Seconds} {p : Pass} {w : World}

theorem exists_autoscaler {key : String} (h : s.MarkedAt ⟨.autoscaler, key⟩ t) :
    ∃ a, s.autoscaler? key = .ok (some a) ∧ a.metadata.isDeleting = true := by
  obtain ⟨terms, hterms, hdeleted⟩ := h
  rw [termsAt_eq_readAt, readAt_autoscaler] at hterms
  obtain ⟨found, hread, hfound⟩ := Except.map_eq_ok_iff.1 hterms
  obtain ⟨a, rfl, rfl⟩ := Option.map_eq_some_iff.1 hfound
  exact ⟨a, hread, Option.isSome_of_eq_some hdeleted⟩

theorem exists_deployment {key : String} (h : s.MarkedAt ⟨.deployment, key⟩ t) :
    ∃ d, s.deployment? key = .ok (some d) ∧ d.metadata.isDeleting = true := by
  obtain ⟨terms, hterms, hdeleted⟩ := h
  rw [termsAt_eq_readAt, readAt_deployment] at hterms
  obtain ⟨found, hread, hfound⟩ := Except.map_eq_ok_iff.1 hterms
  obtain ⟨d, rfl, rfl⟩ := Option.map_eq_some_iff.1 hfound
  exact ⟨d, hread, Option.isSome_of_eq_some hdeleted⟩

theorem load_skips (h : s.MarkedAt place t) (hp : p.Concerns s place) :
    ∃ why, p.load s = .error (.ok (.skipped why)) := by
  obtain ⟨kind, key⟩ := place
  cases kind with
  | autoscaler =>
    obtain rfl : p.key = key := hp
    obtain ⟨a, hread, hdeleting⟩ := h.exists_autoscaler
    exact ⟨_, Pass.load_of_deleting hread hdeleting⟩
  | deployment =>
    obtain ⟨a, hread, rfl⟩ := hp
    obtain ⟨target, htarget, hdeleting⟩ := h.exists_deployment
    cases hstays : a.metadata.isDeleting with
    | true => exact ⟨_, Pass.load_of_deleting hread hstays⟩
    | false => exact ⟨_, Pass.load_of_target_deleting hread hstays htarget hdeleting⟩

/-- A pass leaves alone what is marked. -/
theorem reconcile_skips (h : w.store.MarkedAt place t) (hp : p.Concerns w.store place) :
    ∃ why, p.reconcile w = (.ok (.skipped why), w) := by
  obtain ⟨why, hwhy⟩ := h.load_skips hp
  exact ⟨why, Pass.reconcile_of_not_loaded hwhy⟩

end Store.MarkedAt

namespace Site

/-- Marking a resource keeps its first mark. The mark stays, whatever is done but the deletion of
the resource, exactly if every manifest that is applied and names the resource has the mark in the
entry that it stores last. As long as it is there, passes do nothing with the resource. -/
theorem mark_lasts_iff (x : Site) (place : Place) :
    (∀ terms, x.store.termsAt place = .ok (some terms) → ∀ now,
      (x.act now (.mark place)).store.MarkedAt place (terms.deletedAt.getD now)) ∧
    ∀ t, x.store.MarkedAt place t →
      (∀ (w : World) (p : Pass), w.store = x.store → p.Concerns x.store place →
        ∃ why, p.reconcile w = (.ok (.skipped why), w)) ∧
      ∀ later : List (Seconds × Deed), (∀ d ∈ later, d.2 ≠ .delete place) →
        ((∀ done now deed, done ++ [(now, deed)] <+: later →
          (x.run (done ++ [(now, deed)])).store.MarkedAt place t) ↔
        ∀ done now text, done ++ [(now, .apply text)] <+: later →
          ∀ stored, Command.lastStored text (x.run done).store place = some stored →
            stored.terms.deletedAt = some t) := by
  refine ⟨fun terms hterms now => ⟨_, termsAt_marking_self hterms now, rfl⟩, fun t h => ⟨?_, ?_⟩⟩
  · intro w p hw hp
    rw [← hw] at h hp
    exact h.reconcile_skips hp
  · intro later hkept
    have hlasts := holds_iff h (fun _ => True) ?_ ?_ hkept
    · simp only [true_imp_iff] at hlasts
      exact hlasts
    · intro s now terms deed _ hmanifest hdeleted
      refine Deed.revise_preserves (P := (·.deletedAt = some t)) hdeleted hmanifest
        (fun _ => hdeleted) ?_
      rw [Terms.marked, hdeleted]
      rfl
    · exact List.pairwise_of_forall fun _ _ _ => trivial

/-- A later mark, a reservation, a pass, a manifest for others and the deletion of its target leave
the first mark of an autoscaler, and passes still skip it. -/
theorem mark_lasts_ofBuilds :
    let place : Place := ⟨.autoscaler, "ci/builds"⟩
    let later : List (Seconds × Deed) :=
      [(200, .mark place), (300, .reserve "ci/builds" 3 "1h"),
       (400, .pass "ci/builds" (.ofSettings .default) fun _ _ _ => .ok 1),
       (400, .apply Manifest.nightly.text), (500, .delete ⟨.deployment, "ci/runners"⟩)]
    let y := (ofBuilds.act 100 (.mark place)).run later
    let p : Pass := ⟨"ci/builds", 600, .ofSettings .default, fun _ _ _ => .ok 1⟩
    y.store.MarkedAt place 100 ∧
      ∃ why, p.reconcile (.ofStore y.store) = (.ok (.skipped why), .ofStore y.store) := by
  intro place later y p
  have hterms : ofBuilds.store.termsAt place = .ok (some ⟨none, []⟩) := by
    rw [store_ofBuilds]
    decide +kernel
  have hmarked := (mark_lasts_iff ofBuilds place).1 _ hterms 100
  have hlasts := ((mark_lasts_iff _ place).2 100 hmarked).2 later (by simp [later, place])
  have hy : y.store.MarkedAt place 100 := by
    refine hlasts.2 ?_ (later.take 4) 500 _ (List.prefix_refl later)
    intro done now text hdone stored hstored
    obtain ⟨-, rfl⟩ : now = 400 ∧ text = Manifest.nightly.text := by
      simpa [later] using hdone.subset (List.mem_append_right done (List.mem_singleton_self _))
    rw [Command.lastStored_eq_none Manifest.read_nightly (by decide)] at hstored
    cases hstored
  exact ⟨hy, ((mark_lasts_iff y place).2 100 hy).1 _ _ rfl rfl⟩

/-- Applying the manifest that made an autoscaler and a deployment once more takes back their
marks. -/
theorem not_markedAt_applied_again :
    let autoscaler : Place := ⟨.autoscaler, "ci/builds"⟩
    let deployment : Place := ⟨.deployment, "ci/runners"⟩
    let marked := (ofBuilds.act 100 (.mark autoscaler)).act 100 (.mark deployment)
    let applied := marked.act 200 (.apply Manifest.builds.text)
    (marked.store.MarkedAt autoscaler 100 ∧ marked.store.MarkedAt deployment 100) ∧
      ¬ applied.store.MarkedAt autoscaler 100 ∧ ¬ applied.store.MarkedAt deployment 100 := by
  intro autoscaler deployment marked applied
  have hstore : marked.store = ((Manifest.builds.apply .empty).2.after
      (autoscaler.marking 100)).after (deployment.marking 100) := by
    rw [store_act_mark, store_act_mark, store_ofBuilds]
  have hterms : ∀ place ∈ [autoscaler, deployment],
      marked.store.termsAt place = .ok (some ⟨some 100, []⟩) ∧
        (Manifest.builds.lastStored marked.store place).map Resource.terms = some ⟨none, []⟩ := by
    rw [hstore]
    decide +kernel
  have hmarked : ∀ place ∈ [autoscaler, deployment], marked.store.MarkedAt place 100 :=
    fun place hplace => ⟨_, (hterms place hplace).1, rfl⟩
  have hunmarked : ∀ place ∈ [autoscaler, deployment], ¬ applied.store.MarkedAt place 100 := by
    intro place hplace
    obtain ⟨stored, hstored, hnone⟩ := Option.map_eq_some_iff.1 (hterms place hplace).2
    rw [← Command.lastStored_of_read Manifest.read_builds] at hstored
    rw [Store.MarkedAt, holds_act_apply_iff hstored, hnone]
    exact nofun
  simp only [List.forall_mem_cons] at hmarked hunmarked
  exact ⟨⟨hmarked.1, hmarked.2.1⟩, hunmarked.1, hunmarked.2.1⟩

end Site

end RunnerFleet
