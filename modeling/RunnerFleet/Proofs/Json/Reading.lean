import RunnerFleet.Proofs.Json.Scan

/-!
# A written value is read back

Reading the tokens of a value delivers the value to whatever container is open around it, as long as
no container is nested too deep. So each of the two ways to write a value can be undone but for its
doubles, and both come to the same value.
-/

namespace RunnerFleet

theorem Option.mapM_map_eq_some {α β : Type} {f : β → Option α} {g : α → β}
    (h : ∀ x, f (g x) = some x) (xs : List α) : (xs.map g).mapM f = some xs := by
  induction xs with
  | nil => rfl
  | cons x xs ih => simp [h, ih]

namespace Json

namespace Reader

theorem run_append (r : Reader) (ts us : List Token) :
    r.run (ts ++ us) = (r.run ts).bind fun r => r.run us := by
  induction ts generalizing r with
  | nil => rfl
  | cons t ts ih =>
    simp only [List.cons_append, run]
    cases r.step t with
    | none => rfl
    | some r' => exact ih r'

variable {P : Float → Prop} {stack : List Frame} {room : Nat} {j : Json}

/-- A value begins with a token that closes no array. -/
theorem tokens_eq_cons (j : Json) : ∃ t ts, tokens j = t :: ts ∧
    ∀ stack, step ⟨.itemOrEnd, stack⟩ t = step ⟨.item, stack⟩ t := by
  cases j with
  | array items => exact ⟨_, _, rfl, fun _ => rfl⟩
  | object members => exact ⟨_, _, rfl, fun _ => rfl⟩
  | _ => exact ⟨_, _, rfl, fun _ => rfl⟩

theorem run_itemOrEnd (j : Json) (js : List Json) :
    run ⟨.itemOrEnd, stack⟩ (itemTokens (j :: js)) = run ⟨.item, stack⟩ (itemTokens (j :: js)) := by
  obtain ⟨t, ts, ht, hstep⟩ := tokens_eq_cons j
  have hfirst : ∃ rest, itemTokens (j :: js) = t :: rest := by
    cases js with
    | nil => exact ⟨ts, ht⟩
    | cons k js =>
      refine ⟨ts ++ [.comma] ++ itemTokens (k :: js), ?_⟩
      change tokens j ++ [.comma] ++ itemTokens (k :: js) = _
      rw [ht]
      rfl
  obtain ⟨rest, hrest⟩ := hfirst
  rw [hrest, run, run, hstep]

theorem run_keyOrEnd (m : String × Json) (ms : List (String × Json)) :
    run ⟨.keyOrEnd, stack⟩ (memberTokens (m :: ms)) =
      run ⟨.key, stack⟩ (memberTokens (m :: ms)) := by
  cases ms <;> rfl

/-- The items of an array that is open. -/
theorem run_itemTokens {items : List Json} {acc : List Json} (hne : items ≠ [])
    (h : ∀ j ∈ items, ∀ acc, run ⟨.item, .array acc :: stack⟩ (tokens j) =
      some ⟨.separator, .array (j :: acc) :: stack⟩) :
    run ⟨.item, .array acc :: stack⟩ (itemTokens items) =
      some ⟨.separator, .array (items.reverse ++ acc) :: stack⟩ := by
  induction items generalizing acc with
  | nil => exact absurd rfl hne
  | cons j js ih =>
    obtain ⟨hj, hjs⟩ := List.forall_mem_cons.1 h
    cases js with
    | nil => exact hj acc
    | cons k js =>
      have hcomma : run ⟨.separator, .array (j :: acc) :: stack⟩ [.comma] =
          some ⟨.item, .array (j :: acc) :: stack⟩ := rfl
      change run _ (tokens j ++ [.comma] ++ itemTokens (k :: js)) = _
      rw [run_append, run_append, hj, Option.bind_some, hcomma, Option.bind_some,
        ih (by simp) hjs]
      simp

/-- The members of an object that is open. -/
theorem run_memberTokens {members : List (String × Json)} {acc : List (Option String × Json)}
    (hne : members ≠ [])
    (h : ∀ m ∈ members, ∀ acc k, run ⟨.item, .object acc k :: stack⟩ (tokens m.2) =
      some ⟨.separator, .object ((k, m.2) :: acc) none :: stack⟩) :
    run ⟨.key, .object acc none :: stack⟩ (memberTokens members) =
      some ⟨.separator,
        .object ((members.map fun m => (some m.1, m.2)).reverse ++ acc) none :: stack⟩ := by
  induction members generalizing acc with
  | nil => exact absurd rfl hne
  | cons m ms ih =>
    obtain ⟨hm, hms⟩ := List.forall_mem_cons.1 h
    obtain ⟨k, j⟩ := m
    have hkey : run ⟨.key, .object acc none :: stack⟩ [.text (some k), .colon] =
        some ⟨.item, .object acc (some k) :: stack⟩ := rfl
    have hmember : run ⟨.key, .object acc none :: stack⟩
        ([.text (some k), .colon] ++ tokens j) =
          some ⟨.separator, .object ((some k, j) :: acc) none :: stack⟩ := by
      rw [run_append, hkey, Option.bind_some, hm]
    cases ms with
    | nil => exact hmember
    | cons m ms =>
      have hcomma : run ⟨.separator, .object ((some k, j) :: acc) none :: stack⟩ [.comma] =
          some ⟨.key, .object ((some k, j) :: acc) none :: stack⟩ := rfl
      change run _ ([.text (some k), .colon] ++ tokens j ++ [.comma] ++ memberTokens (m :: ms)) = _
      rw [run_append, run_append, hmember, Option.bind_some, hcomma, Option.bind_some,
        ih (by simp) hms]
      simp

theorem close_object (members : List (String × Json)) (k : Option String) :
    (Frame.object (members.map fun m => (some m.1, m.2)).reverse k).close = .object members := by
  have hnamed := Option.mapM_map_eq_some (g := fun m : String × Json => (some m.1, m.2))
    (f := fun m => m.1.map (·, m.2)) (fun _ => rfl) members
  unfold Frame.close
  dsimp only
  rw [List.reverse_reverse, hnamed]

/-- The tokens of a value deliver it. -/
theorem run_tokens (h : Legible P room j) (hroom : room + stack.length ≤ mostOpen) :
    run ⟨.item, stack⟩ (tokens j) = some (deliver j stack) := by
  induction h generalizing stack with
  | null | bool b | whole n | real h | string s => rfl
  | @array room items _ ih =>
    -- the items are read with one more container open, so the room for them is one less
    have hdepth : stack.length < mostOpen := by omega
    have hopen : run ⟨.item, stack⟩ [.openArray] = some ⟨.itemOrEnd, .array [] :: stack⟩ := rfl
    change run _ ([.openArray] ++ itemTokens items ++ [.closeArray]) = _
    rw [run_append, run_append, hopen, Option.bind_some]
    cases items with
    | nil => simp [itemTokens, run, step, pop, hdepth, Frame.close]
    | cons j js =>
      have hitems : run ⟨.item, .array [] :: stack⟩ (itemTokens (j :: js)) =
          some ⟨.separator, .array ((j :: js).reverse ++ []) :: stack⟩ :=
        run_itemTokens (List.cons_ne_nil j js)
          fun k hk acc => ih k hk (by rw [List.length_cons]; omega)
      rw [run_itemOrEnd, hitems, Option.bind_some]
      simp [run, step, pop, hdepth, Frame.close]
  | @object room members _ ih =>
    have hdepth : stack.length < mostOpen := by omega
    have hopen : run ⟨.item, stack⟩ [.openObject] =
        some ⟨.keyOrEnd, .object [] none :: stack⟩ := rfl
    change run _ ([.openObject] ++ memberTokens members ++ [.closeObject]) = _
    rw [run_append, run_append, hopen, Option.bind_some]
    cases members with
    | nil => simp [memberTokens, run, step, pop, hdepth, Frame.close]
    | cons m ms =>
      have hmembers : run ⟨.key, .object [] none :: stack⟩ (memberTokens (m :: ms)) =
          some ⟨.separator,
            .object (((m :: ms).map fun m => (some m.1, m.2)).reverse ++ []) none :: stack⟩ :=
        run_memberTokens (List.cons_ne_nil m ms)
          fun k hk acc key => ih k hk (by rw [List.length_cons]; omega)
      rw [run_keyOrEnd, hmembers, Option.bind_some, List.append_nil]
      have hclose := close_object (m :: ms) none
      simp only [run, step, pop, hdepth, if_true, hclose, Option.bind_some]

end Reader

variable {P : Float → Prop} {j : Json}

theorem ofTokens?_tokens (h : Legible P mostOpen j) : ofTokens? (tokens j) = some j := by
  unfold ofTokens? Reader.start
  rw [Reader.run_tokens h (Nat.le_refl _)]
  rfl

theorem parse?_compact (h : Legible P mostOpen j) : parse? j.compact = some j.asRead := by
  unfold parse? compact
  rw [String.toList_ofList, (Token.scans_compact h).ofChars?, Option.bind_some,
    ofTokens?_tokens h.asRead]

theorem parse?_indented (h : Legible P mostOpen j) : parse? j.indented = some j.asRead := by
  unfold parse? indented
  rw [String.toList_ofList, (Token.scans_indented h 0).ofChars?, Option.bind_some,
    ofTokens?_tokens h.asRead]

/-- A line break behind a text does not matter. -/
theorem parse?_indented_newline (h : Legible P mostOpen j) :
    parse? (j.indented ++ "\n") = some j.asRead := by
  have hclosed := ((Token.scans_indented h 0).close Token.closes_newline).scans
  have hbreak : "\n".toList = ['\n'] := rfl
  unfold parse? indented
  rw [String.toList_append, String.toList_ofList, hbreak, hclosed.ofChars?, List.append_nil,
    Option.bind_some, ofTokens?_tokens h.asRead]

end Json

end RunnerFleet
