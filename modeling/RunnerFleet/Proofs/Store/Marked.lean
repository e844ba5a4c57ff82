import RunnerFleet.Proofs.Store.Locality

/-!
# Deployments marked for deletion

A mark for deletion outlasts every operation but those that put or delete the deployment: a new one
cannot be created over it, and all other writes keep the mark.
-/

namespace RunnerFleet.Store

def IsMarked (s : Store) (key : String) : Prop :=
  ∃ d, s.deployment? key = .ok (some d) ∧ d.metadata.isDeleting = true

namespace Operation

def Replaces (key : String) : Operation → Prop
  | putDeployment d => d.key = key
  | deleteDeployment k => k = key
  | _ => False

end Operation

variable {s s' : Store} {op : Operation} {answer : Answer} {key : String}

theorem run_append (s : Store) (ops ops' : List Operation) :
    s.run (ops ++ ops') = (s.run ops).run ops' :=
  List.foldl_append

theorem IsMarked.perform (h : s.IsMarked key) (hop : ¬ op.Replaces key)
    (hok : s.perform op = .ok (answer, s')) : s'.IsMarked key := by
  obtain ⟨d, hread, hmarked⟩ := h
  cases performed_of_perform hok with
  | wroteAutoscaler | deletedAutoscaler | tookDemand | recorded | looked =>
    exact ⟨d, hread, hmarked⟩
  | @deletedDeployment k =>
    refine ⟨d, ?_, hmarked⟩
    rw [deployment?, Table.read?_erase, if_neg fun hk => hop hk.symm]
    exact hread
  | @wroteDeployment _ k written writes =>
    by_cases hk : key = k
    · subst hk
      refine ⟨written, ?_, ?_⟩
      · rw [deployment?, Table.read?_insert_written, if_pos rfl]
        rfl
      · cases writes with
        | created free => cases free.symm.trans hread
        | put read => exact absurd rfl hop
        | replicasUpdated read =>
          cases read.symm.trans hread
          exact hmarked
        | marked read => rfl
    · refine ⟨d, ?_, hmarked⟩
      rw [deployment?, Table.read?_insert_written, if_neg hk]
      exact hread

theorem IsMarked.after (h : s.IsMarked key) (hop : ¬ op.Replaces key) :
    (s.after op).IsMarked key := by
  unfold Store.after
  cases hok : s.perform op with
  | error e => exact h
  | ok r => exact h.perform hop hok

theorem IsMarked.run {ops : List Operation} (h : s.IsMarked key)
    (hops : ∀ op ∈ ops, ¬ op.Replaces key) : (s.run ops).IsMarked key := by
  induction ops generalizing s with
  | nil => exact h
  | cons op ops ih =>
    rw [List.forall_mem_cons] at hops
    exact ih (h.after hops.1) hops.2

theorem isMarked_after_mark {now : Seconds} (h : (s.perform (.markDeployment key now)).isOk) :
    (s.after (.markDeployment key now)).IsMarked key := by
  unfold Store.after
  cases hok : s.perform (.markDeployment key now) with
  | error e =>
    rw [hok] at h
    cases h
  | ok r =>
    obtain ⟨answer, s'⟩ := r
    obtain ⟨d, -, hd⟩ := (keeps_of_perform hok).deployment key _ rfl
    exact ⟨_, hd, rfl⟩

end RunnerFleet.Store
