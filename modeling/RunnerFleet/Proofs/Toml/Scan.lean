import Mathlib.Tactic
import RunnerFleet.Toml.Token

/-!
# The token of a quoted text

A text is quoted as a sequence of pieces, one for each character, and of quotes that stand for
themselves because too few of them follow one another to close the text. Whatever form has been
chosen, the scanner gives the text back once a line end follows.
-/

namespace RunnerFleet.Toml

namespace Token.Scanner

theorem run_append (s : Scanner) (cs ds : List Char) :
    s.run (cs ++ ds) = (s.run cs).bind fun s => s.run ds := by
  induction cs generalizing s with
  | nil => rfl
  | cons c cs ih =>
    simp only [List.cons_append, run]
    cases s.step c with
    | none => rfl
    | some s' => exact ih s'

theorem run_cons_of_step {s s' : Scanner} {c : Char} (h : s.step c = some s') (cs : List Char) :
    s.run (c :: cs) = s'.run cs := by
  rw [run, h, Option.bind_some]

end Token.Scanner

open Token Scanner

variable {f : Form} {c : Char} {cs body piece : List Char} {run : Nat}

/-- The character `c` of a text may be written as `piece`. -/
structure Piece (f : Form) (c : Char) (piece : List Char) : Prop where
  run : ∀ found seen run, run < 3 →
    Scanner.run ⟨.inside f seen run, found⟩ piece =
      some ⟨.inside f (c :: (List.replicate run f.quote ++ seen)) 0, found⟩
  head : ∃ first rest, piece = first :: rest ∧ first ≠ f.quote ∧ (first = '\n' → c = '\n')
  noReturn : '\r' ∉ piece

/-- The text `cs` may be written as `body` where `run` quotes stand just before. -/
inductive Body (f : Form) : Nat → List Char → List Char → Prop
  | nil {run : Nat} : Body f run [] []
  | quote {run : Nat} {cs body : List Char} (few : run + 1 < f.width)
      (rest : Body f (run + 1) cs body) : Body f run (f.quote :: cs) (f.quote :: body)
  | char {run : Nat} {c : Char} {cs piece body : List Char} (first : Piece f c piece)
      (rest : Body f 0 cs body) : Body f run (c :: cs) (piece ++ body)

/-! ## Pieces -/

theorem step_inside_of_ne (hc : c ≠ f.quote) (hrun : run < 3) (found : List Token)
    (seen : List Char) :
    step ⟨.inside f seen run, found⟩ c =
      within found f (List.replicate run f.quote ++ seen) c := by
  simp only [step, inside, if_neg hc, if_pos hrun]

theorem Piece.self (hadmits : f.admits c = true) (hc : c ≠ f.quote) : Piece f c [c] where
  run found seen run hrun := by
    have hplain : ¬ (f.escapes = true ∧ c = '\\') := by
      rintro ⟨hescapes, rfl⟩
      simp [Form.admits, hescapes] at hadmits
    have hstep : step ⟨.inside f seen run, found⟩ c =
        some ⟨.inside f (c :: (List.replicate run f.quote ++ seen)) 0, found⟩ := by
      rw [step_inside_of_ne hc hrun, within, if_neg hplain, if_pos hadmits]
    rw [run_cons_of_step hstep]
    rfl
  head := ⟨c, [], rfl, hc, id⟩
  noReturn h := by
    obtain rfl := List.mem_singleton.1 h
    simp [Form.admits, isControl] at hadmits

/-- The scanner after a backslash. -/
theorem run_backslash {block : Bool} (hrun : run < 3) (found : List Token) (seen cs : List Char) :
    Scanner.run ⟨.inside ⟨true, block⟩ seen run, found⟩ ('\\' :: cs) =
      Scanner.run ⟨.escape block (List.replicate run '"' ++ seen), found⟩ cs := by
  refine run_cons_of_step ?_ cs
  rw [step_inside_of_ne (f := ⟨true, block⟩) (by exact nofun) hrun, within,
    if_pos ⟨rfl, rfl⟩]
  rfl

theorem Piece.escape {block : Bool} {letter : Char} (h : escaped? letter = some c)
    (hletter : letter ≠ 'u' ∧ letter ≠ 'U' ∧ letter ≠ ' ' ∧ letter ≠ '\t' ∧ letter ≠ '\n')
    (hreturn : letter ≠ '\r') : Piece ⟨true, block⟩ c ['\\', letter] where
  run found seen run hrun := by
    obtain ⟨hu, hU, hspace, htab, hline⟩ := hletter
    rw [run_backslash hrun]
    simp [Scanner.run, step, h, hu, hU, hspace, htab, hline, Form.quote]
  head := ⟨'\\', _, rfl, by exact nofun, nofun⟩
  noReturn := by simp [hreturn.symm]

theorem toNat_lt_of_isControl (h : isControl c = true) : c.toNat < 0x80 := by
  simp only [isControl, Bool.or_eq_true, Bool.and_eq_true, decide_eq_true_iff] at h
  obtain ⟨hsmall, -⟩ | rfl := h
  · omega
  · decide

theorem Piece.number {block : Bool} (h : isControl c = true) :
    Piece ⟨true, block⟩ c ['\\', 'u', '0', '0', Hexadecimal.upperDigit (c.toNat / 16),
      Hexadecimal.upperDigit (c.toNat % 16)] where
  run found seen run hrun := by
    have hsmall := toNat_lt_of_isControl h
    have hhigh := Hexadecimal.digit?_upperDigit (n := c.toNat / 16) (by omega)
    have hlow := Hexadecimal.digit?_upperDigit (n := c.toNat % 16) (by omega)
    have hzero : Hexadecimal.digit? '0' = some 0 := by decide
    have hnumber : 16 * (c.toNat / 16) + c.toNat % 16 = c.toNat := by omega
    have hvalid : c.toNat.isValidChar := c.valid
    rw [run_backslash hrun]
    simp [Scanner.run, step, hzero, hhigh, hlow, hnumber, numbered?, hvalid, Form.quote]
  head := ⟨'\\', _, rfl, by exact nofun, nofun⟩
  noReturn := by
    have hsmall := toNat_lt_of_isControl h
    have digit : ∀ n < 16, Hexadecimal.upperDigit n ≠ '\r' := by decide
    have hhigh := (digit (c.toNat / 16) (by omega)).symm
    have hlow := (digit (c.toNat % 16) (by omega)).symm
    simp [hhigh, hlow]

theorem Piece.escaped (block : Bool) (c : Char) : Piece ⟨true, block⟩ c (escaped block c) := by
  unfold Toml.escaped
  split
  · exact .escape rfl (by decide) (by decide)
  · exact .escape rfl (by decide) (by decide)
  · cases block with
    | true => exact .self rfl (by decide)
    | false => exact .escape rfl (by decide) (by decide)
  · exact .escape rfl (by decide) (by decide)
  · exact .escape rfl (by decide) (by decide)
  · exact .escape rfl (by decide) (by decide)
  · exact .escape rfl (by decide) (by decide)
  · next hquote hbackslash =>
    have hquote : c ≠ '"' := hquote
    have hbackslash : c ≠ '\\' := hbackslash
    split
    · next hcontrol => exact .number hcontrol
    · next hcontrol => exact .self (by simp [Form.admits, hcontrol, hbackslash]) hquote

/-! ## Bodies -/

theorem body_escapedFrom (block : Bool) (run : Nat) (cs : List Char) :
    Body ⟨true, block⟩ run cs (escapedFrom block run cs) := by
  induction cs generalizing run with
  | nil => exact .nil
  | cons c cs ih =>
    unfold escapedFrom
    split
    · next hraw =>
      obtain ⟨rfl, rfl, hrun⟩ := hraw
      exact .quote (f := ⟨true, true⟩) (Nat.succ_lt_succ hrun) (ih _)
    · exact .char (.escaped block c) (ih 0)

theorem body_of_fits (hadmits : cs.all f.admits = true)
    (hruns : runsBelow f.quote f.width run cs = true) : Body f run cs cs := by
  induction cs generalizing run with
  | nil => exact .nil
  | cons c cs ih =>
    rw [List.all_cons, Bool.and_eq_true] at hadmits
    rw [runsBelow] at hruns
    by_cases hc : c = f.quote
    · rw [if_pos hc, Bool.and_eq_true, decide_eq_true_iff] at hruns
      rw [hc]
      exact .quote hruns.1 (ih hadmits.2 hruns.2)
    · rw [if_neg hc] at hruns
      exact .char (.self hadmits.1 hc) (ih hadmits.2 hruns)

theorem Form.quote_ne {f : Form} {c : Char} (h : c ≠ '"' ∧ c ≠ '\'') : f.quote ≠ c := by
  unfold quote
  split
  · exact h.1.symm
  · exact h.2.symm

theorem Form.delimiter_of_single {f : Form} (h : f.block = false) : f.delimiter = [f.quote] := by
  rw [delimiter, width, h]
  rfl

theorem Form.delimiter_of_block {f : Form} (h : f.block = true) :
    f.delimiter = [f.quote, f.quote, f.quote] := by
  rw [delimiter, width, h]
  rfl

theorem Form.block_of_lt_width (h : run + 1 < f.width) : f.block = true := by
  unfold Form.width at h
  split at h
  · assumption
  · omega

theorem Form.width_le (f : Form) : f.width ≤ 3 := by
  unfold width
  split <;> decide

namespace Body

/-- A body is read up to the quotes at its end, which may be the first ones of the closing ones. -/
theorem read (h : Body f run cs body) (hrun : run < f.width) (found : List Token)
    (seen : List Char) :
    ∃ seen' run', run' < f.width ∧
      List.replicate run' f.quote ++ seen' = cs.reverse ++ (List.replicate run f.quote ++ seen) ∧
      Scanner.run ⟨.inside f seen run, found⟩ body = some ⟨.inside f seen' run', found⟩ := by
  induction h generalizing seen with
  | @nil run => exact ⟨seen, run, hrun, rfl, rfl⟩
  | @quote run cs body few rest ih =>
    obtain ⟨seen', run', hrun', hheld, hread⟩ := ih few seen
    refine ⟨seen', run', hrun', ?_, ?_⟩
    · rw [hheld, List.reverse_cons, List.append_assoc, List.replicate_succ]
      rfl
    · -- the quote is only counted, since it may turn out to be one of the closing ones
      have hfew : run < 5 := by
        have := f.width_le
        omega
      have hstep : step ⟨.inside f seen run, found⟩ f.quote =
          some ⟨.inside f seen (run + 1), found⟩ := by
        simp [step, inside, Form.block_of_lt_width few, hfew]
      rw [run_cons_of_step hstep, hread]
  | @char run c cs piece body first rest ih =>
    obtain ⟨seen', run', hrun', hheld, hread⟩ :=
      ih (by unfold Form.width; split <;> decide) (c :: (List.replicate run f.quote ++ seen))
    refine ⟨seen', run', hrun', ?_, ?_⟩
    · rw [hheld, List.reverse_cons, List.append_assoc]
      rfl
    · rw [run_append, first.run found seen run (hrun.trans_le f.width_le), Option.bind_some, hread]

theorem noReturn (h : Body f run cs body) : '\r' ∉ body := by
  induction h with
  | nil => exact List.not_mem_nil
  | @quote run cs body few rest ih =>
    rw [List.mem_cons, not_or]
    exact ⟨(Form.quote_ne (by decide)).symm, ih⟩
  | char first rest ih =>
    rw [List.mem_append, not_or]
    exact ⟨first.noReturn, ih⟩

/-- A body begins with a line end only if the text has one. -/
theorem head_ne_newline (h : Body f run cs body) (hcs : '\n' ∉ cs) : body.head? ≠ some '\n' := by
  cases h with
  | nil => exact nofun
  | quote few rest =>
    rw [List.head?_cons, ne_eq, Option.some.injEq]
    exact Form.quote_ne (by decide)
  | char first rest =>
    obtain ⟨c', tail, rfl, -, hnewline⟩ := first.head
    rw [List.cons_append, List.head?_cons, ne_eq, Option.some.injEq]
    intro hc
    exact hcs (hnewline hc ▸ List.mem_cons_self)

end Body

/-! ## Delimiters -/

def behindText (f : Form) (cs : List Char) (found : List Token) : Scanner :=
  ⟨.outside, .lineEnd :: .text f.block cs :: found⟩

theorem run_closing (hrun : run < f.width) (found : List Token) (seen : List Char) :
    Scanner.run ⟨.inside f seen run, found⟩ (f.delimiter ++ ['\n']) =
      some (behindText f (List.replicate run f.quote ++ seen).reverse found) := by
  have hnewline : '\n' ≠ f.quote := (Form.quote_ne (by decide)).symm
  unfold Form.delimiter Form.width at *
  cases hblock : f.block with
  | false =>
    rw [hblock] at hrun
    obtain rfl : run = 0 := Nat.lt_one_iff.1 hrun
    simp [hblock, Scanner.run, step, inside, outside, behindText]
  | true =>
    rw [hblock] at hrun
    have hfew : run < 3 := hrun
    simp [hblock, Scanner.run, step, inside, outside, behindText, List.replicate_succ, hnewline,
      show run < 5 by omega, show run + 1 < 5 by omega, show run + 1 + 1 < 5 by omega]

theorem step_outside_quote (f : Form) (found : List Token) :
    step ⟨.outside, found⟩ f.quote = some ⟨.opening f.escapes false, found⟩ := by
  obtain ⟨escapes, block⟩ := f
  cases escapes <;> rfl

/-- A text between single quotes begins with its first character. -/
theorem run_open (hblock : f.block = false) (hc : c ≠ f.quote) (found : List Token)
    (cs : List Char) :
    Scanner.run ⟨.outside, found⟩ (f.delimiter ++ c :: cs) =
      Scanner.run ⟨.inside f [] 0, found⟩ (c :: cs) := by
  have hf : (⟨f.escapes, false⟩ : Form) = f := by rw [← hblock]
  have hopening : step ⟨.opening f.escapes false, found⟩ c = step ⟨.inside f [] 0, found⟩ c := by
    rw [step_inside_of_ne hc (by decide)]
    simp only [step, hf, if_neg hc, Bool.false_eq_true, if_false]
    rfl
  rw [Form.delimiter_of_single hblock, List.singleton_append,
    run_cons_of_step (step_outside_quote f found), Scanner.run, Scanner.run, hopening]

theorem step_opening_quote (f : Form) (two : Bool) (found : List Token) :
    step ⟨.opening f.escapes two, found⟩ f.quote =
      some ⟨if two then .fresh f.escapes else .opening f.escapes true, found⟩ := by
  have hquote : f.quote = (⟨f.escapes, false⟩ : Form).quote := rfl
  simp only [step, if_pos hquote]

/-- Two quotes and no third one are the empty text. -/
theorem run_empty (hblock : f.block = false) (found : List Token) :
    Scanner.run ⟨.outside, found⟩ (f.delimiter ++ (f.delimiter ++ ['\n'])) =
      some (behindText f [] found) := by
  have hnewline : '\n' ≠ (⟨f.escapes, false⟩ : Form).quote := (Form.quote_ne (by decide)).symm
  have hend : step ⟨.opening f.escapes true, found⟩ '\n' = some (behindText f [] found) := by
    simp only [step, if_neg hnewline, if_true, behindText, hblock]
    rfl
  rw [Form.delimiter_of_single hblock, List.singleton_append, List.singleton_append,
    run_cons_of_step (step_outside_quote f found), run_cons_of_step (step_opening_quote f false found)]
  exact run_cons_of_step hend []

theorem run_openBlock (hblock : f.block = true) (found : List Token) (cs : List Char) :
    Scanner.run ⟨.outside, found⟩ (f.delimiter ++ cs) =
      Scanner.run ⟨.fresh f.escapes, found⟩ cs := by
  rw [Form.delimiter_of_block hblock, List.cons_append, List.cons_append, List.singleton_append,
    run_cons_of_step (step_outside_quote f found),
    run_cons_of_step (step_opening_quote f false found)]
  exact run_cons_of_step (step_opening_quote f true found) cs

theorem run_fresh (hblock : f.block = true) (hc : c ≠ '\n') (found : List Token)
    (cs : List Char) :
    Scanner.run ⟨.fresh f.escapes, found⟩ (c :: cs) =
      Scanner.run ⟨.inside f [] 0, found⟩ (c :: cs) := by
  have hf : (⟨f.escapes, true⟩ : Form) = f := by rw [← hblock]
  have hstep : step ⟨.fresh f.escapes, found⟩ c = step ⟨.inside f [] 0, found⟩ c := by
    simp only [step, if_neg hc, hf]
  rw [Scanner.run, Scanner.run, hstep]

/-- In a block one line end after the opening quotes is dropped. -/
theorem run_fresh_newline (hblock : f.block = true) (found : List Token) (cs : List Char) :
    Scanner.run ⟨.fresh f.escapes, found⟩ ('\n' :: cs) =
      Scanner.run ⟨.inside f [] 0, found⟩ cs := by
  have hf : (⟨f.escapes, true⟩ : Form) = f := by rw [← hblock]
  refine run_cons_of_step ?_ cs
  simp only [step, if_true, hf]

/-! ## Whole texts -/

/-- The text `cs` with a body of its form is read up to the end of the line. -/
theorem Body.scan (h : Body f 0 cs body) (found : List Token) :
    Scanner.run ⟨.outside, found⟩ (f.delimiter ++
      ((if f.block && cs.contains '\n' then ['\n'] else []) ++ (body ++ (f.delimiter ++ ['\n'])))) =
      some (behindText f cs found) := by
  have hwidth : 0 < f.width := by
    unfold Form.width
    split <;> decide
  have hinside : Scanner.run ⟨.inside f [] 0, found⟩ (body ++ (f.delimiter ++ ['\n'])) =
      some (behindText f cs found) := by
    obtain ⟨seen, run, hrun, hheld, hread⟩ := h.read hwidth found []
    rw [run_append, hread, Option.bind_some, run_closing hrun, hheld]
    simp
  cases hblock : f.block with
  | true =>
    rw [run_openBlock hblock]
    cases hnewline : cs.contains '\n' with
    | true => exact (run_fresh_newline hblock found _).trans hinside
    | false =>
      have hplain : '\n' ∉ cs := by
        rw [← List.contains_iff_mem, hnewline]
        exact Bool.false_ne_true
      obtain ⟨c, rest, hcons, hc⟩ :
          ∃ c rest, body ++ (f.delimiter ++ ['\n']) = c :: rest ∧ c ≠ '\n' := by
        cases body with
        | nil =>
          rw [Form.delimiter_of_block hblock]
          exact ⟨f.quote, _, rfl, Form.quote_ne (by decide)⟩
        | cons c rest =>
          exact ⟨c, _, rfl, fun hc => h.head_ne_newline hplain (congrArg some hc)⟩
      rw [hcons] at hinside ⊢
      exact (run_fresh hblock hc found rest).trans hinside
  | false =>
    cases h with
    | nil => exact run_empty hblock found
    | quote few rest =>
      rw [Form.block_of_lt_width few] at hblock
      cases hblock
    | char first rest =>
      obtain ⟨c, tail, rfl, hc, -⟩ := first.head
      exact (run_open hblock hc found _).trans hinside

theorem Form.fits_choose {cs : List Char} (h : (choose cs).escapes = false) :
    (choose cs).fits cs = true := by
  unfold choose at h ⊢
  cases hfind : all.find? (·.fits cs) with
  | some f =>
    have hfits := List.find?_some hfind
    exact hfits
  | none =>
    rw [hfind, Option.getD_none] at h
    split at h <;> cases h

def bodyOf (cs : List Char) : List Char :=
  if (Form.choose cs).escapes then escapedFrom (Form.choose cs).block 0 cs else cs

theorem body_bodyOf (cs : List Char) : Body (Form.choose cs) 0 cs (bodyOf cs) := by
  unfold bodyOf
  split
  · next hescapes =>
    have hform : Form.choose cs = ⟨true, (Form.choose cs).block⟩ := by rw [← hescapes]
    rw [hform]
    exact body_escapedFrom _ 0 cs
  · next hescapes =>
    have hfits := Form.fits_choose (Bool.eq_false_iff.2 hescapes)
    rw [Form.fits, Bool.and_eq_true] at hfits
    exact body_of_fits hfits.1 hfits.2

def Cuts (cs : List Char) (ts : List Token) : Prop :=
  ∀ found, Scanner.run ⟨.outside, found⟩ cs = some ⟨.outside, ts.reverse ++ found⟩

theorem Cuts.append {ds : List Char} {ts us : List Token} (h : Cuts cs ts) (h' : Cuts ds us) :
    Cuts (cs ++ ds) (ts ++ us) := by
  intro found
  rw [run_append, h found, Option.bind_some, h', List.reverse_append, List.append_assoc]

theorem cuts_newline : Cuts ['\n'] [.lineEnd] := fun _ => rfl

def isPlain (c : Char) : Bool := c ≠ '\n' && c ≠ '#' && c ≠ '"' && c ≠ '\''

theorem cuts_plain (h : cs.all isPlain = true) : Cuts cs (cs.map Token.char) := by
  intro found
  induction cs generalizing found with
  | nil => rfl
  | cons c cs ih =>
    rw [List.all_cons, Bool.and_eq_true] at h
    obtain ⟨hc, hcs⟩ := h
    simp only [isPlain, Bool.and_eq_true, decide_eq_true_iff] at hc
    obtain ⟨⟨⟨hnewline, hsharp⟩, hdouble⟩, hsingle⟩ := hc
    have hstep : step ⟨.outside, found⟩ c = some ⟨.outside, .char c :: found⟩ := by
      simp only [step, outside, if_neg hnewline, if_neg hsharp, if_neg hdouble, if_neg hsingle]
    rw [run_cons_of_step hstep, ih hcs, List.map_cons, List.reverse_cons, List.append_assoc]
    rfl

theorem cuts_quoted (s : String) :
    Cuts (quoted s ++ ['\n']) [.text (Form.choose s.toList).block s.toList, .lineEnd] := by
  intro found
  have h := (body_bodyOf s.toList).scan found
  rw [quoted, Form.write]
  simp only [List.append_assoc]
  exact h

theorem noReturn_quoted (s : String) : '\r' ∉ quoted s := by
  have hdelimiter : '\r' ∉ (Form.choose s.toList).delimiter := fun h =>
    Form.quote_ne (by decide) (List.eq_of_mem_replicate h).symm
  have hbody := (body_bodyOf s.toList).noReturn
  rw [quoted, Form.write]
  simp only [List.mem_append, not_or]
  refine ⟨⟨⟨hdelimiter, ?_⟩, hbody⟩, hdelimiter⟩
  split
  · decide
  · exact List.not_mem_nil

end RunnerFleet.Toml
