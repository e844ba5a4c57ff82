import RunnerFleet.Proofs.Toml.Scan
import RunnerFleet.Toml.Parser

/-!
# A section of a document

A header begins a table, and every line below it that gives a text to a bare key adds a member to
this table. Other tables of the document stay as they are.
-/

namespace RunnerFleet.Toml

namespace Members

theorem lookup_cons (k : String) (m : String × Node) (ms : Members) :
    List.lookup k (m :: ms) = if k = m.1 then some m.2 else ms.lookup k := by
  rw [List.lookup_cons]
  by_cases hk : k = m.1
  · rw [if_pos hk, beq_iff_eq.2 hk]
  · rw [if_neg hk, beq_eq_false_iff_ne.2 hk]

theorem lookup_set (key k : String) (n : Node) (ms : Members) :
    (ms.set key n).lookup k = if k = key then some n else ms.lookup k := by
  induction ms with
  | nil => exact lookup_cons k (key, n) []
  | cons m ms ih =>
    obtain ⟨l, m⟩ := m
    unfold set
    by_cases hl : l = key
    · subst hl
      rw [if_pos rfl, lookup_cons, lookup_cons]
      by_cases hk : k = l <;> simp [hk]
    · rw [if_neg hl, lookup_cons, lookup_cons, ih]
      by_cases hk : k = key
      · subst hk
        simp [Ne.symm hl]
      · simp [hk]

variable {ms inner : Members} {name key : String}

theorem openTable?_of_absent (h : ms.lookup name = none) :
    ms.openTable? [] name = some (ms.set name (.table .header [])) := by
  simp only [openTable?, reach?, h]

theorem assignBelow?_of_header (h : ms.lookup name = some (.table .header inner))
    (hkey : inner.lookup key = none) (n : Node) :
    ms.assignBelow? [name] [] key n = some (ms.set name (.table .header (inner.set key n))) := by
  simp [assignBelow?, reach?, h, passes, assign?, add?, hkey]

end Members

theorem ne_of_isKeyChar {c d : Char} (hc : isKeyChar c = true) (hd : isKeyChar d = false) :
    c ≠ d := by
  rintro rfl
  rw [hc] at hd
  cases hd

def IsBareKey (key : String) : Prop := key.toList ≠ [] ∧ key.toList.all isKeyChar = true

instance (key : String) : Decidable (IsBareKey key) :=
  inferInstanceAs (Decidable (key.toList ≠ [] ∧ key.toList.all isKeyChar = true))

theorem IsBareKey.noReturn {key : String} (h : IsBareKey key) : '\r' ∉ key.toList := fun hmem =>
  absurd (List.all_eq_true.1 h.2 _ hmem) (by decide)

namespace Reader

theorem run_append (r : Reader) (ts us : List Token) :
    r.run (ts ++ us) = (r.run ts).bind fun r => r.run us := by
  induction ts generalizing r with
  | nil => rfl
  | cons t ts ih =>
    simp only [List.cons_append, run]
    cases r.step t with
    | none => rfl
    | some r' => exact ih r'

variable {ms : Members} {heading parts : List String} {purpose : Purpose} {key : String}

theorem run_cons_of_step {r r' : Reader} {t : Token} (h : r.step t = some r') (ts : List Token) :
    r.run (t :: ts) = r'.run ts := by
  rw [run, h, Option.bind_some]

theorem run_bare {cs : List Char} (h : cs.all isKeyChar = true) (seen : List Char) :
    run ⟨ms, heading, .key purpose parts (.bare seen)⟩ (cs.map Token.char) =
      some ⟨ms, heading, .key purpose parts (.bare (cs.reverse ++ seen))⟩ := by
  induction cs generalizing seen with
  | nil => rfl
  | cons c cs ih =>
    rw [List.all_cons, Bool.and_eq_true] at h
    have hstep : step ⟨ms, heading, .key purpose parts (.bare seen)⟩ (.char c) =
        some ⟨ms, heading, .key purpose parts (.bare (c :: seen))⟩ := by
      simp only [step, continuePart, if_pos h.1, goto]
    rw [List.map_cons, run_cons_of_step hstep, ih h.2, List.reverse_cons, List.append_assoc]
    rfl

theorem isBlank_of_isKeyChar {c : Char} (h : isKeyChar c = true) : isBlank (.char c) = false := by
  have hspace : c ≠ ' ' := ne_of_isKeyChar h (by decide)
  have htab : c ≠ '\t' := ne_of_isKeyChar h (by decide)
  simp [isBlank, hspace, htab]

theorem beginPart_of_isKeyChar {c : Char} (h : isKeyChar c = true) (r : Reader) :
    r.beginPart purpose parts (.char c) = some (r.goto (.key purpose parts (.bare [c]))) := by
  simp only [beginPart, isBlank_of_isKeyChar h, Bool.false_eq_true, if_false, if_pos h]

/-- Where a key may begin, its characters are read as one part. -/
theorem run_key (hkey : IsBareKey key) {r : Reader} {purpose : Purpose}
    (hbegins : ∀ c, isKeyChar c = true → r.step (.char c) = r.beginPart purpose [] (.char c)) :
    r.run (key.toList.map Token.char) =
      some (r.goto (.key purpose [] (.bare key.toList.reverse))) := by
  obtain ⟨hne, hall⟩ := hkey
  cases hcs : key.toList with
  | nil => exact absurd hcs hne
  | cons c cs =>
    rw [hcs, List.all_cons, Bool.and_eq_true] at hall
    have hstep := (hbegins c hall.1).trans (beginPart_of_isKeyChar hall.1 r)
    rw [List.map_cons, run_cons_of_step hstep, List.reverse_cons]
    exact run_bare hall.2 [c]

theorem step_line_of_isKeyChar {c : Char} (h : isKeyChar c = true) :
    step ⟨ms, heading, .line⟩ (.char c) =
      beginPart ⟨ms, heading, .line⟩ .entry [] (.char c) := by
  have hbracket : c ≠ '[' := ne_of_isKeyChar h (by decide)
  simp [step, beginLine, isBlank_of_isKeyChar h, hbracket]

theorem step_bracket_of_isKeyChar {c : Char} (h : isKeyChar c = true) :
    step ⟨ms, heading, .bracket⟩ (.char c) =
      beginPart ⟨ms, heading, .bracket⟩ .header [] (.char c) := by
  have hbracket : c ≠ '[' := ne_of_isKeyChar h (by decide)
  simp [step, hbracket]

end Reader

def headerTokens (name : String) : List Token :=
  .char '[' :: (name.toList.map Token.char ++ [.char ']', .lineEnd])

def entryTokens (key s : String) : List Token :=
  key.toList.map Token.char ++ [.char ' ', .char '=', .char ' ',
    .text (Form.choose s.toList).block s.toList, .lineEnd]

namespace Reader

variable {ms inner : Members} {heading : List String} {name key : String}

theorem run_header (hname : IsBareKey name) (habsent : ms.lookup name = none) :
    run ⟨ms, heading, .line⟩ (headerTokens name) =
      some ⟨ms.set name (.table .header []), [name], .line⟩ := by
  have hbracket : step ⟨ms, heading, .line⟩ (.char '[') = some ⟨ms, heading, .bracket⟩ := rfl
  have hkey := run_key hname (r := ⟨ms, heading, .bracket⟩) fun _ => step_bracket_of_isKeyChar
  rw [headerTokens, run_cons_of_step hbracket, run_append, hkey, Option.bind_some]
  have hclose : step ⟨ms, heading, .key .header [] (.bare name.toList.reverse)⟩ (.char ']') =
      some ⟨ms.set name (.table .header []), [name], .rest⟩ := by
    simp [step, continuePart, afterPart, isBlank, isKeyChar, keyEnd, longestKey, useKey,
      Members.openTable?_of_absent habsent]
  exact (run_cons_of_step hclose _).trans rfl

theorem run_entry (hkey : IsBareKey key) (hname : ms.lookup name = some (.table .header inner))
    (habsent : inner.lookup key = none) (s : String) :
    run ⟨ms, [name], .line⟩ (entryTokens key s) =
      some ⟨ms.set name (.table .header (inner.set key (.text s))), [name], .line⟩ := by
  have hread := run_key hkey (r := ⟨ms, [name], .line⟩) fun _ => step_line_of_isKeyChar
  have hends : step ⟨ms, [name], .key .entry [] (.bare key.toList.reverse)⟩ (.char ' ') =
      some ⟨ms, [name], .key .entry [key] .complete⟩ := by
    simp [step, continuePart, afterPart, isBlank, isKeyChar, goto]
  have hequals : step ⟨ms, [name], .key .entry [key] .complete⟩ (.char '=') =
      some ⟨ms, [name], .value [.entry [key]]⟩ := by
    simp [step, afterPart, isBlank, keyEnd, longestKey, useKey, goto]
  have hblank : step ⟨ms, [name], .value [.entry [key]]⟩ (.char ' ') =
      some ⟨ms, [name], .value [.entry [key]]⟩ := rfl
  have hvalue : ∀ block, step ⟨ms, [name], .value [.entry [key]]⟩ (.text block s.toList) =
      some ⟨ms.set name (.table .header (inner.set key (.text s))), [name], .rest⟩ := by
    intro block
    simp [step, beginValue, isBlank, deliver, Members.assignBelow?_of_header hname habsent]
  rw [entryTokens, run_append, hread, Option.bind_some]
  exact (run_cons_of_step hends _).trans <| (run_cons_of_step hequals _).trans <|
    (run_cons_of_step hblank _).trans <| (run_cons_of_step (hvalue _) _).trans rfl

end Reader

def sectionTokens (name : String) (entries : List (String × Option String)) : List Token :=
  headerTokens name ++ entries.flatMap fun e => (e.2.map (entryTokens e.1)).getD []

/-- The table has these texts under these keys. -/
def Holds (inner : Members) (entries : List (String × Option String)) : Prop :=
  ∀ e ∈ entries, inner.lookup e.1 = e.2.map Node.text

namespace Reader

variable {ms inner : Members} {name : String} {entries : List (String × Option String)}

theorem run_entries (hkeys : ∀ e ∈ entries, IsBareKey e.1)
    (hnodup : (entries.map Prod.fst).Nodup) (hname : ms.lookup name = some (.table .header inner))
    (habsent : ∀ e ∈ entries, inner.lookup e.1 = none) :
    ∃ ms' inner', run ⟨ms, [name], .line⟩
        (entries.flatMap fun e => (e.2.map (entryTokens e.1)).getD []) =
          some ⟨ms', [name], .line⟩ ∧
      ms'.lookup name = some (.table .header inner') ∧
      (∀ k, k ≠ name → ms'.lookup k = ms.lookup k) ∧ Holds inner' entries ∧
      ∀ k, k ∉ entries.map Prod.fst → inner'.lookup k = inner.lookup k := by
  induction entries generalizing ms inner with
  | nil => exact ⟨ms, inner, rfl, hname, fun _ _ => rfl, nofun, fun _ _ => rfl⟩
  | cons e entries ih =>
    obtain ⟨key, text⟩ := e
    rw [List.forall_mem_cons] at hkeys habsent
    rw [List.map_cons, List.nodup_cons] at hnodup
    cases text with
    | none =>
      obtain ⟨ms', inner', hrun, hname', hothers, hholds, hrest⟩ :=
        ih hkeys.2 hnodup.2 hname habsent.2
      refine ⟨ms', inner', hrun, hname', hothers, List.forall_mem_cons.2 ⟨?_, hholds⟩, ?_⟩
      · exact (hrest key hnodup.1).trans habsent.1
      · exact fun k hk => hrest k fun h => hk (List.mem_cons_of_mem _ h)
    | some s =>
      have hentry := run_entry hkeys.1 hname habsent.1 s
      have hset : (ms.set name (.table .header (inner.set key (.text s)))).lookup name =
          some (.table .header (inner.set key (.text s))) := by
        rw [Members.lookup_set, if_pos rfl]
      have habsent' : ∀ e ∈ entries, (inner.set key (.text s)).lookup e.1 = none := by
        intro e he
        have hne : e.1 ≠ key := fun h => hnodup.1 (List.mem_map.2 ⟨e, he, h⟩)
        rw [Members.lookup_set, if_neg hne, habsent.2 e he]
      obtain ⟨ms', inner', hrun, hname', hothers, hholds, hrest⟩ :=
        ih hkeys.2 hnodup.2 hset habsent'
      refine ⟨ms', inner', ?_, hname', fun k hk => ?_, List.forall_mem_cons.2 ⟨?_, hholds⟩,
        fun k hk => ?_⟩
      · rw [List.flatMap_cons, run_append]
        exact (congrArg (Option.bind · _) hentry).trans hrun
      · rw [hothers k hk, Members.lookup_set, if_neg hk]
      · rw [hrest key hnodup.1, Members.lookup_set, if_pos rfl]
        rfl
      · have hne : k ≠ key := fun h => hk (h ▸ List.mem_cons_self)
        rw [hrest k fun h => hk (List.mem_cons_of_mem _ h), Members.lookup_set, if_neg hne]

/-- A section that the document does not have yet is read as a table with its texts. -/
theorem run_section (ms : Members) (heading : List String) (hname : IsBareKey name)
    (habsent : ms.lookup name = none) (hkeys : ∀ e ∈ entries, IsBareKey e.1)
    (hnodup : (entries.map Prod.fst).Nodup) :
    ∃ ms' inner, run ⟨ms, heading, .line⟩ (sectionTokens name entries) =
          some ⟨ms', [name], .line⟩ ∧
      ms'.lookup name = some (.table .header inner) ∧
      (∀ k, k ≠ name → ms'.lookup k = ms.lookup k) ∧ Holds inner entries := by
  have hset : (ms.set name (.table .header [])).lookup name = some (.table .header []) := by
    rw [Members.lookup_set, if_pos rfl]
  obtain ⟨ms', inner, hrun, hname', hothers, hholds, -⟩ :=
    run_entries hkeys hnodup hset fun _ _ => rfl
  refine ⟨ms', inner, ?_, hname', fun k hk => ?_, hholds⟩
  · rw [sectionTokens, run_append, run_header hname habsent]
    exact hrun
  · rw [hothers k hk, Members.lookup_set, if_neg hk]

end Reader

/-! ## The characters of a section -/

theorem isPlain_of_isKeyChar {c : Char} (h : isKeyChar c = true) : isPlain c = true := by
  have hnewline : c ≠ '\n' := ne_of_isKeyChar h (by decide)
  have hsharp : c ≠ '#' := ne_of_isKeyChar h (by decide)
  have hdouble : c ≠ '"' := ne_of_isKeyChar h (by decide)
  have hsingle : c ≠ '\'' := ne_of_isKeyChar h (by decide)
  simp [isPlain, hnewline, hsharp, hdouble, hsingle]

theorem cuts_key {key : String} (h : IsBareKey key) :
    Cuts key.toList (key.toList.map Token.char) :=
  cuts_plain (List.all_eq_true.2 fun c hc => isPlain_of_isKeyChar (List.all_eq_true.1 h.2 c hc))

theorem cuts_header {name : String} (h : IsBareKey name) :
    Cuts (['['] ++ name.toList ++ [']', '\n']) (headerTokens name) :=
  ((cuts_plain (by decide : ['['].all isPlain = true)).append (cuts_key h)).append
    ((cuts_plain (by decide : [']'].all isPlain = true)).append cuts_newline)

theorem cuts_entry {key : String} (h : IsBareKey key) (s : String) :
    Cuts (key.toList ++ " = ".toList ++ quoted s ++ ['\n']) (entryTokens key s) := by
  have hequals : Cuts " = ".toList [.char ' ', .char '=', .char ' '] :=
    cuts_plain (by decide : " = ".toList.all isPlain = true)
  have hline := ((cuts_key h).append hequals).append (cuts_quoted s)
  rw [List.append_assoc (key.toList.map Token.char)] at hline
  rw [List.append_assoc (key.toList ++ " = ".toList)]
  exact hline

theorem lines?_of_noReturn {cs : List Char} (h : '\r' ∉ cs) : lines? cs = some cs := by
  fun_induction lines? cs with
  | case1 => rfl
  | case2 cs ih => exact absurd List.mem_cons_self h
  | case3 cs hcs => exact absurd List.mem_cons_self h
  | case4 c cs hfirst hsecond ih =>
    rw [ih fun hcs => h (List.mem_cons_of_mem _ hcs)]
    rfl

theorem withoutMark_eq_self {cs : List Char} (h : cs.head? ≠ some '\ufeff') :
    withoutMark cs = cs := by
  fun_cases withoutMark cs with
  | case1 cs => exact absurd rfl h
  | case2 cs => rfl

/-- A document without carriage returns and byte order mark is read by its tokens. -/
theorem parse?_of_cuts {s : String} {ts : List Token} (h : Cuts s.toList ts)
    (hreturn : '\r' ∉ s.toList) (hmark : s.toList.head? ≠ some '\ufeff') :
    parse? s = (Reader.start.run (ts ++ [.lineEnd])).bind Reader.result? := by
  have htokens : Token.ofChars? (s.toList ++ ['\n']) = some (ts ++ [.lineEnd]) := by
    rw [Token.ofChars?, Token.Scanner.start, (h.append cuts_newline) [], Option.bind_some]
    simp [Token.Scanner.finish]
  unfold parse?
  rw [withoutMark_eq_self hmark, lines?_of_noReturn hreturn]
  simp only [Option.bind_eq_bind, Option.bind_some, htokens]

end RunnerFleet.Toml
