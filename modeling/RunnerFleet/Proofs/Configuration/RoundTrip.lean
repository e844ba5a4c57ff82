import RunnerFleet.Config
import RunnerFleet.Proofs.Json.Reading
import RunnerFleet.Proofs.Toml.Section

/-!
# A configuration is read back from its file

Whatever the texts of a configuration are, the file that it is written to is cut into the lines of
its two sections, and these give every key its text again.
-/

namespace RunnerFleet

namespace Config

open Toml

variable {keys : List String} {texts : List (Option String)}

theorem cuts_entryChars {key : String} (h : IsBareKey key) (text : Option String) :
    Cuts (entryChars key text) ((text.map (entryTokens key)).getD []) := by
  cases text with
  | none => exact fun _ => rfl
  | some s => exact cuts_entry h s

theorem cuts_sectionChars {name : String} (hname : IsBareKey name)
    (hkeys : ∀ key ∈ keys, IsBareKey key) (texts : List (Option String)) :
    Cuts (sectionChars name keys texts) (sectionTokens name (keys.zip texts)) := by
  refine (cuts_header hname).append ?_
  induction keys generalizing texts with
  | nil => exact fun _ => rfl
  | cons key keys ih =>
    rw [List.forall_mem_cons] at hkeys
    cases texts with
    | nil => exact fun _ => rfl
    | cons text texts => exact (cuts_entryChars hkeys.1 text).append (ih hkeys.2 texts)

theorem noReturn_entryChars {key : String} (h : IsBareKey key) (text : Option String) :
    '\r' ∉ entryChars key text := by
  cases text with
  | none => exact List.not_mem_nil
  | some s =>
    simp only [entryChars, List.mem_append, not_or]
    exact ⟨⟨⟨h.noReturn, by decide⟩, noReturn_quoted s⟩, by decide⟩

theorem noReturn_sectionChars {name : String} (hname : IsBareKey name)
    (hkeys : ∀ key ∈ keys, IsBareKey key) (texts : List (Option String)) :
    '\r' ∉ sectionChars name keys texts := by
  simp only [sectionChars, List.mem_append, not_or]
  refine ⟨⟨⟨by decide, hname.noReturn⟩, by decide⟩, ?_⟩
  induction keys generalizing texts with
  | nil => exact List.not_mem_nil
  | cons key keys ih =>
    rw [List.forall_mem_cons] at hkeys
    cases texts with
    | nil => exact List.not_mem_nil
    | cons text texts =>
      rw [List.zipWith_cons_cons, List.flatten_cons, List.mem_append, not_or]
      exact ⟨noReturn_entryChars hkeys.1 text, ih hkeys.2 texts⟩

theorem sectionValues?_of_holds {origin : Origin} {inner : Members}
    (hlength : keys.length = texts.length) (h : Holds inner (keys.zip texts)) :
    sectionValues? keys (some (.table origin inner)) = some (texts.map (·.map Node.text)) := by
  have hkeys : keys = (keys.zip texts).map Prod.fst := (List.map_fst_zip hlength.le).symm
  have htexts : texts = (keys.zip texts).map Prod.snd := (List.map_snd_zip hlength.ge).symm
  have hvalues : keys.map (inner.lookup ·) = texts.map (·.map Node.text) := by
    conv_lhs => rw [hkeys]
    conv_rhs => rw [htexts]
    rw [List.map_map, List.map_map]
    exact List.map_congr_left h
  exact congrArg some hvalues

theorem mapM_text? (texts : List (Option String)) :
    (texts.map (·.map Node.text)).mapM text? = some texts :=
  Option.mapM_map_eq_some (fun text => by cases text <;> rfl) texts

theorem isBareKey_controllerKeys : ∀ key ∈ controllerKeys, IsBareKey key := by decide

theorem isBareKey_storeKeys : ∀ key ∈ storeKeys, IsBareKey key := by decide

theorem toList_render (c : Config) :
    c.render.toList = sectionChars "controller" controllerKeys c.controllerTexts ++ ['\n'] ++
      sectionChars "store" storeKeys [c.dataDir] := by
  rw [render, String.toList_ofList]

/-- The document that a written configuration is. -/
theorem parse?_render_eq (c : Config) :
    ∃ ms controller store, Toml.parse? c.render = some ms ∧
      ms.lookup "controller" = some (.table .header controller) ∧
      ms.lookup "store" = some (.table .header store) ∧
      Holds controller (controllerKeys.zip c.controllerTexts) ∧
      Holds store (storeKeys.zip [c.dataDir]) := by
  have hcontroller : IsBareKey "controller" := by decide
  have hstore : IsBareKey "store" := by decide
  have hkeys : ∀ e ∈ controllerKeys.zip c.controllerTexts, IsBareKey e.1 := fun e he =>
    isBareKey_controllerKeys _ (List.of_mem_zip he).1
  have hkeys' : ∀ e ∈ storeKeys.zip [c.dataDir], IsBareKey e.1 := fun e he =>
    isBareKey_storeKeys _ (List.of_mem_zip he).1
  have hcuts := ((cuts_sectionChars hcontroller isBareKey_controllerKeys c.controllerTexts).append
    cuts_newline).append (cuts_sectionChars hstore isBareKey_storeKeys [c.dataDir])
  rw [← toList_render] at hcuts
  have hreturn : '\r' ∉ c.render.toList := by
    rw [toList_render]
    simp only [List.mem_append, not_or]
    exact ⟨⟨noReturn_sectionChars hcontroller isBareKey_controllerKeys _, by decide⟩,
      noReturn_sectionChars hstore isBareKey_storeKeys _⟩
  have hmark : c.render.toList.head? ≠ some '\ufeff' := by
    rw [toList_render]
    exact nofun
  obtain ⟨first, controller, hfirst, hlookup, hothers, hc⟩ :=
    Reader.run_section [] [] hcontroller rfl hkeys (by exact (by decide : controllerKeys.Nodup))
  obtain ⟨ms, store, hsecond, hlookup', hkept, hs⟩ :=
    Reader.run_section first ["controller"] hstore (hothers "store" (by decide)) hkeys'
      (by exact (by decide : storeKeys.Nodup))
  refine ⟨ms, controller, store, ?_, ?_, hlookup', hc, hs⟩
  · have hblank : Reader.run ⟨first, ["controller"], .line⟩ [.lineEnd] =
        some ⟨first, ["controller"], .line⟩ := rfl
    rw [parse?_of_cuts hcuts hreturn hmark, Reader.run_append, Reader.run_append,
      Reader.run_append, Reader.start, hfirst, Option.bind_some, hblank, Option.bind_some,
      hsecond]
    rfl
  · rw [hkept "controller" (by decide), hlookup]

theorem parse?_render (c : Config) : parse? c.render = some c := by
  obtain ⟨ms, controller, store, hparse, hcontroller, hstore, hc, hs⟩ := parse?_render_eq c
  unfold parse? ofMembers?
  rw [hparse, Option.bind_some, hcontroller, hstore, sectionValues?_of_holds rfl hc,
    sectionValues?_of_holds rfl hs]
  simp only [Option.bind_eq_bind, Option.bind_some, mapM_text?]
  rfl

/-- Every configuration is read back from its file, and so are the settings and the place of the
store that it asks for. -/
theorem render_lossless (c : Config) :
    parse? c.render = some c ∧
      (∀ override, (parse? c.render).map (·.settings override) = some (c.settings override)) ∧
      (parse? c.render).map dataDirectory = some c.dataDirectory := by
  rw [parse?_render]
  exact ⟨rfl, fun _ => rfl, rfl⟩

end Config

end RunnerFleet
