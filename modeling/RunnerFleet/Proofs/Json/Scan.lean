import RunnerFleet.Json.Parser
import RunnerFleet.Json.Printer
import RunnerFleet.Proofs.Number.Reading

/-!
# The tokens of a written value

A written value is cut into the tokens of the value that is read, whether it stands on one line or
on indented ones; only doubles may come back changed. A number or a word ends only where a character
follows that cannot belong to it, so the scanner may stop behind a written value with its last token
still open; a comma, a bracket or a blank closes it.
-/

namespace RunnerFleet.Json

/-- The double is read back from its own text. -/
def ReadsBack (x : Float) : Prop := reread x = some x

instance (x : Float) : Decidable (ReadsBack x) := inferInstanceAs (Decidable (_ = some x))

mutual

/-- What is read where a value was written. -/
def asRead : Json → Json
  | .real x => (reread x).elim .null .real
  | .array items => .array (itemsAsRead items)
  | .object members => .object (membersAsRead members)
  | j => j

def itemsAsRead : List Json → List Json
  | [] => []
  | j :: js => asRead j :: itemsAsRead js

def membersAsRead : List (String × Json) → List (String × Json)
  | [] => []
  | (k, j) :: ms => (k, asRead j) :: membersAsRead ms

end

@[simp] theorem asRead_whole (n : UInt64) : (whole n).asRead = whole n := rfl

@[simp] theorem asRead_array (items : List Json) :
    (array items).asRead = array (items.map asRead) := by
  have hitems : itemsAsRead items = items.map asRead := by
    induction items with
    | nil => rfl
    | cons j js ih => rw [itemsAsRead, ih, List.map_cons]
  rw [asRead, hitems]

@[simp] theorem asRead_object (members : List (String × Json)) :
    (object members).asRead = object (members.map fun m => (m.1, m.2.asRead)) := by
  have hmembers : membersAsRead members = members.map fun m => (m.1, m.2.asRead) := by
    induction members with
    | nil => rfl
    | cons m ms ih => rw [membersAsRead, ih, List.map_cons]
  rw [asRead, hmembers]

/-- A value whose text can be read while `room` more containers may be open. Its doubles are those
that `P` picks. -/
inductive Legible (P : Float → Prop) : Nat → Json → Prop
  | null {room : Nat} : Legible P room .null
  | bool {room : Nat} (b : Bool) : Legible P room (.bool b)
  | whole {room : Nat} (n : UInt64) : Legible P room (.whole n)
  | real {room : Nat} {x : Float} (h : P x) : Legible P room (.real x)
  | string {room : Nat} (s : String) : Legible P room (.string s)
  | array {room : Nat} {items : List Json} (h : ∀ j ∈ items, Legible P room j) :
      Legible P (room + 1) (.array items)
  | object {room : Nat} {members : List (String × Json)} (h : ∀ m ∈ members, Legible P room m.2) :
      Legible P (room + 1) (.object members)

namespace Legible

variable {P : Float → Prop} {room : Nat} {j : Json}

theorem asRead (h : Legible P room j) : Legible (fun _ => True) room j.asRead := by
  induction h with
  | null => exact .null
  | bool b => exact .bool b
  | whole n => exact .whole n
  | @real _ x =>
    unfold Json.asRead
    cases reread x with
    | none => exact .null
    | some y => exact .real trivial
  | string s => exact .string s
  | array _ ih =>
    rw [asRead_array]
    exact .array (List.forall_mem_map.2 ih)
  | object _ ih =>
    rw [asRead_object]
    exact .object (List.forall_mem_map.2 ih)

theorem sound (h : Legible P room j) : j.sound = true := by
  induction h with
  | null | bool b | whole n | real h | string s => rfl
  | array _ ih =>
    rw [Json.sound, soundItems_eq_all]
    exact List.all_eq_true.2 ih
  | object _ ih =>
    rw [Json.sound, soundMembers_eq_all]
    exact List.all_eq_true.2 ih

theorem asRead_eq (h : Legible ReadsBack room j) : j.asRead = j := by
  induction h with
  | null | bool b | whole n | string s => rfl
  | @real _ x h =>
    have hread : reread x = some x := h
    rw [Json.asRead, hread]
    rfl
  | array _ ih => rw [asRead_array, List.map_congr_left ih, List.map_id']
  | object _ ih =>
    rw [asRead_object, List.map_congr_left fun m hm => by rw [ih m hm], List.map_id']

end Legible

mutual

def tokens : Json → List Token
  | .array items => [.openArray] ++ itemTokens items ++ [.closeArray]
  | .object members => [.openObject] ++ memberTokens members ++ [.closeObject]
  | .string s => [.text (some s)]
  | j => [.scalar j]

def itemTokens : List Json → List Token
  | [] => []
  | [j] => tokens j
  | j :: js => tokens j ++ [.comma] ++ itemTokens js

def memberTokens : List (String × Json) → List Token
  | [] => []
  | [(k, j)] => [.text (some k), .colon] ++ tokens j
  | (k, j) :: ms => [.text (some k), .colon] ++ tokens j ++ [.comma] ++ memberTokens ms

end

namespace Token

namespace Scanner

theorem run_append (s : Scanner) (cs ds : List Char) :
    s.run (cs ++ ds) = (s.run cs).bind fun s => s.run ds := by
  induction cs generalizing s with
  | nil => rfl
  | cons c cs ih =>
    simp only [List.cons_append, run]
    cases s.step c with
    | none => rfl
    | some s' => exact ih s'

inductive Behind : Scanner → List Token → Prop
  | ended {found : List Token} : Behind ⟨.between, found⟩ found
  | bare {seen : List Char} {found : List Token} {t : Token} (h : bare? seen.reverse = some t) :
      Behind ⟨.bare seen, found⟩ (t :: found)

theorem Behind.step {s : Scanner} {found : List Token} (h : Behind s found) {c : Char}
    (hc : isBare c = false) : s.step c = outside found c := by
  cases h with
  | ended => rfl
  | bare h => simp [Scanner.step, hc, h]

theorem Behind.finish {s : Scanner} {found : List Token} (h : Behind s found) :
    s.finish = some found.reverse := by
  cases h with
  | ended => rfl
  | bare h => simp [Scanner.finish, h]

end Scanner

open Scanner

/-- The text is cut into these tokens, and its end closes the last one. -/
def Cuts (cs : List Char) (ts : List Token) : Prop :=
  ∀ found, Scanner.run ⟨.between, found⟩ cs = some ⟨.between, ts.reverse ++ found⟩

/-- The text is cut into these tokens once something follows that closes the last one. -/
def Scans (cs : List Char) (ts : List Token) : Prop :=
  ∀ found, ∃ s, Scanner.run ⟨.between, found⟩ cs = some s ∧ Behind s (ts.reverse ++ found)

variable {cs ds : List Char} {ts us : List Token} {c : Char} {t : Token}

theorem Cuts.scans (h : Cuts cs ts) : Scans cs ts := fun found => ⟨_, h found, .ended⟩

theorem Cuts.nil : Cuts [] [] := fun _ => rfl

theorem Cuts.append (h : Cuts cs ts) (h' : Cuts ds us) : Cuts (cs ++ ds) (ts ++ us) := by
  intro found
  rw [run_append, h found]
  simp only [Option.bind_some]
  rw [h', List.reverse_append, List.append_assoc]

theorem Cuts.scans_append (h : Cuts cs ts) (h' : Scans ds us) : Scans (cs ++ ds) (ts ++ us) := by
  intro found
  obtain ⟨s, hs, behind⟩ := h' (ts.reverse ++ found)
  refine ⟨s, ?_, ?_⟩
  · rw [run_append, h found]
    exact hs
  · rw [List.reverse_append, List.append_assoc]
    exact behind

def Closes (c : Char) (ts : List Token) : Prop :=
  isBare c = false ∧ ∀ found, outside found c = some ⟨.between, ts.reverse ++ found⟩

theorem closes_newline : Closes '\n' [] := ⟨rfl, fun _ => rfl⟩

theorem closes_comma : Closes ',' [.comma] := ⟨rfl, fun _ => rfl⟩

theorem closes_closeArray : Closes ']' [.closeArray] := ⟨rfl, fun _ => rfl⟩

theorem closes_closeObject : Closes '\x7d' [.closeObject] := ⟨rfl, fun _ => rfl⟩

theorem Scans.close (h : Scans cs ts) (hc : Closes c us) : Cuts (cs ++ [c]) (ts ++ us) := by
  intro found
  obtain ⟨s, hs, behind⟩ := h found
  rw [run_append, hs]
  simp only [Option.bind_some, Scanner.run, behind.step hc.1, hc.2, List.reverse_append,
    List.append_assoc]

theorem Scans.ofChars? (h : Scans cs ts) : Token.ofChars? cs = some ts := by
  obtain ⟨s, hs, behind⟩ := h []
  unfold Token.ofChars? Scanner.start
  rw [hs, Option.bind_some, behind.finish, List.append_nil, List.reverse_reverse]

/-! ## Strings -/

theorem digit?_hexDigit {n : Nat} (h : n < 16) : Hexadecimal.digit? (hexDigit n) = some n := by
  have all : ∀ n < 16, Hexadecimal.digit? (hexDigit n) = some n := by decide
  exact all n h

/-- An escaped character is read as one piece that stands for it. -/
theorem run_escapedChar (c : Char) (seen : List Piece) (found : List Token) :
    ∃ p, Scanner.run ⟨.string seen, found⟩ (escapedChar c) = some ⟨.string (p :: seen), found⟩ ∧
      ∀ ps, join (p :: ps) = (c :: ·) <$> join ps := by
  unfold escapedChar
  split
  all_goals try exact ⟨.char _, rfl, fun _ => rfl⟩
  next hquote hbackslash _ _ _ _ _ =>
    have hquote : c ≠ '"' := hquote
    have hbackslash : c ≠ '\\' := hbackslash
    split
    · next hcontrol =>
      refine ⟨.unit c.toNat, ?_, fun ps => ?_⟩
      · have hhigh := digit?_hexDigit (n := c.toNat / 16) (by omega)
        have hlow := digit?_hexDigit (n := c.toNat % 16) (by omega)
        have hzero : Hexadecimal.digit? '0' = some 0 := by decide
        have hnumber : 16 * (c.toNat / 16) + c.toNat % 16 = c.toNat := by omega
        simp [Scanner.run, Scanner.step, hhigh, hlow, hzero, hnumber]
      · conv_lhs => unfold join
        rw [if_pos (by omega), Char.ofNat_toNat]
    · next hcontrol =>
      refine ⟨.char c, ?_, fun _ => rfl⟩
      simp [Scanner.run, Scanner.step, hquote, hbackslash, hcontrol]

theorem run_escapedChars (cs : List Char) (seen : List Piece) (found : List Token) :
    ∃ ps, Scanner.run ⟨.string seen, found⟩ (cs.flatMap escapedChar) =
      some ⟨.string (ps.reverse ++ seen), found⟩ ∧ join ps = some cs := by
  induction cs generalizing seen with
  | nil => exact ⟨[], rfl, rfl⟩
  | cons c cs ih =>
    obtain ⟨p, hp, hjoin⟩ := run_escapedChar c seen found
    obtain ⟨ps, hps, hrest⟩ := ih (p :: seen)
    refine ⟨p :: ps, ?_, ?_⟩
    · rw [List.flatMap_cons, run_append, hp, Option.bind_some, hps, List.reverse_cons,
        List.append_assoc]
      rfl
    · rw [hjoin, hrest]
      rfl

theorem cuts_stringChars (s : String) : Cuts (stringChars s) [.text (some s)] := by
  intro found
  obtain ⟨ps, hps, hjoin⟩ := run_escapedChars s.toList [] found
  have hopen : Scanner.run ⟨.between, found⟩ ['"'] = some ⟨.string [], found⟩ := rfl
  unfold stringChars
  rw [run_append, run_append, hopen, Option.bind_some, hps, Option.bind_some]
  simp [Scanner.run, Scanner.step, hjoin]

/-! ## Words and numbers -/

theorem isSpace_of_isBare (h : isBare c = true) : isSpace c = false := by
  by_contra hspace
  simp only [isSpace, Bool.not_eq_false, Bool.or_eq_true, decide_eq_true_eq] at hspace
  obtain ((rfl | rfl) | rfl) | rfl := hspace
  all_goals exact absurd h (by decide)

theorem scans_bare (hcs : cs ≠ []) (hbare : ∀ c ∈ cs, isBare c = true) (h : bare? cs = some t) :
    Scans cs [t] := by
  have hrun : ∀ (ds seen : List Char) (found : List Token), (∀ c ∈ ds, isBare c = true) →
      Scanner.run ⟨.bare seen, found⟩ ds = some ⟨.bare (ds.reverse ++ seen), found⟩ := by
    intro ds
    induction ds with
    | nil => exact fun _ _ _ => rfl
    | cons d ds ih =>
      intro seen found hds
      have hd := hds d List.mem_cons_self
      simp only [Scanner.run, Scanner.step, hd, if_true, Option.bind_some]
      rw [ih _ _ fun c hc => hds c (List.mem_cons_of_mem _ hc), List.reverse_cons,
        List.append_assoc]
      rfl
  intro found
  obtain ⟨d, ds, rfl⟩ := List.exists_cons_of_ne_nil hcs
  refine ⟨⟨.bare (ds.reverse ++ [d]), found⟩, ?_, .bare (by simpa using h)⟩
  obtain ⟨hd, hds⟩ := List.forall_mem_cons.1 hbare
  have hopen : outside found d = some ⟨.bare [d], found⟩ := by
    have hquote : d ≠ '"' := by
      rintro rfl
      exact absurd hd (by decide)
    simp [outside, isSpace_of_isBare hd, hquote, hd]
  change (outside found d).bind (fun s => s.run ds) = _
  rw [hopen, Option.bind_some, hrun ds [d] found hds]

theorem isBare_of_isNumeric (h : Number.IsNumeric c) : isBare c = true := by
  obtain h | rfl | rfl | rfl | rfl | rfl := h
  · simp [isBare, Char.isAlphanum, h]
  all_goals rfl

theorem bare?_of_isNumeric (h : ∀ c ∈ cs, Number.IsNumeric c) :
    bare? cs = (Number.Literal.ofChars? cs).map fun l => .scalar (ofLiteral l) := by
  have hword : ∀ w : String, (∃ c ∈ w.toList, ¬ Number.IsNumeric c) → cs ≠ w.toList := by
    rintro w ⟨c, hc, hnot⟩ rfl
    exact hnot (h c hc)
  unfold bare?
  rw [if_neg (hword "null" ⟨'n', by simp, by simp [Number.IsNumeric]⟩),
    if_neg (hword "true" ⟨'t', by simp, by simp [Number.IsNumeric]⟩),
    if_neg (hword "false" ⟨'f', by simp, by simp [Number.IsNumeric]⟩)]

theorem scans_whole (n : UInt64) : Scans (Decimal.digits n.toNat) [.scalar (.whole n)] := by
  have hnumeric : ∀ c ∈ Decimal.digits n.toNat, Number.IsNumeric c :=
    fun c hc => .inl (Decimal.isDigit_of_mem_digits hc)
  refine scans_bare (Decimal.digits_ne_nil _) (fun c hc => isBare_of_isNumeric (hnumeric c hc)) ?_
  rw [bare?_of_isNumeric hnumeric, Number.Literal.ofChars?_digits, Option.map_some, ofLiteral,
    Number.Literal.toUInt64?_digits]

theorem scans_null : Scans (scalarChars .null) [.scalar .null] :=
  scans_bare (by simp [scalarChars]) (by simp [scalarChars, isBare]) rfl

theorem scans_real (x : Float) :
    Scans (Number.write numberLayout x) (tokens (Json.real x).asRead) := by
  unfold asRead
  cases hread : reread x with
  | none =>
    have hnot : x.isFinite = false := Number.reread_eq_none_iff.1 hread
    rw [Number.write, hnot, if_neg Bool.false_ne_true]
    exact scans_null
  | some y =>
    have hfinite : x.isFinite = true := by
      by_contra hnot
      rw [Number.reread_eq_none_iff.2 (Bool.eq_false_of_not_eq_true hnot)] at hread
      cases hread
    obtain ⟨l, hl, hy⟩ := Option.bind_eq_some_iff.1 hread
    have hnumeric := Number.Literal.isNumeric_of_ofChars? hl
    have hmark := Number.mark_mem_write hfinite
    have hne : Number.write numberLayout x ≠ [] := by
      intro hnil
      rw [hnil] at hmark
      simp at hmark
    refine scans_bare hne (fun c hc => isBare_of_isNumeric (hnumeric c hc)) ?_
    rw [bare?_of_isNumeric hnumeric, hl, Option.map_some, ofLiteral,
      Number.Literal.toUInt64?_eq_none hl hmark, hy]
    rfl

theorem scans_bool (b : Bool) : Scans (scalarChars (.bool b)) [.scalar (.bool b)] := by
  cases b with
  | true => exact scans_bare (by simp [scalarChars]) (by simp [scalarChars, isBare]) rfl
  | false => exact scans_bare (by simp [scalarChars]) (by simp [scalarChars, isBare]) rfl

/-! ## Values -/

theorem cuts_key (k : String) : Cuts (stringChars k ++ [':']) [.text (some k), .colon] :=
  (cuts_stringChars k).append fun _ => rfl

theorem scans_compactItems {items : List Json}
    (h : ∀ j ∈ items, Scans (compactChars j) (tokens j.asRead)) :
    Scans (compactItems items) (itemTokens (items.map asRead)) := by
  induction items with
  | nil => exact Cuts.nil.scans
  | cons j js ih =>
    obtain ⟨hj, hjs⟩ := List.forall_mem_cons.1 h
    cases js with
    | nil => exact hj
    | cons k js => exact (hj.close closes_comma).scans_append (ih hjs)

theorem scans_compactMembers {members : List (String × Json)}
    (h : ∀ m ∈ members, Scans (compactChars m.2) (tokens m.2.asRead)) :
    Scans (compactMembers members) (memberTokens (members.map fun m => (m.1, m.2.asRead))) := by
  induction members with
  | nil => exact Cuts.nil.scans
  | cons m ms ih =>
    obtain ⟨hm, hms⟩ := List.forall_mem_cons.1 h
    obtain ⟨k, j⟩ := m
    have hmember := (cuts_key k).scans_append hm
    cases ms with
    | nil => exact hmember
    | cons m ms => exact (hmember.close closes_comma).scans_append (ih hms)

theorem scans_compact {P : Float → Prop} {room : Nat} {j : Json} (h : Legible P room j) :
    Scans (compactChars j) (tokens j.asRead) := by
  induction h with
  | null => exact scans_null
  | bool b => exact scans_bool b
  | whole n => exact scans_whole n
  | @real _ x _ => exact scans_real x
  | string s => exact (cuts_stringChars s).scans
  | array _ ih =>
    rw [asRead_array]
    have hopen : Cuts ['['] [.openArray] := fun _ => rfl
    exact ((hopen.scans_append (scans_compactItems ih)).close closes_closeArray).scans
  | object _ ih =>
    rw [asRead_object]
    have hopen : Cuts ['\x7b'] [.openObject] := fun _ => rfl
    exact ((hopen.scans_append (scans_compactMembers ih)).close closes_closeObject).scans

theorem cuts_spaces (n : Nat) : Cuts (List.replicate n ' ') [] := by
  induction n with
  | zero => exact Cuts.nil
  | succ n ih =>
    have hspace : Cuts [' '] [] := fun _ => rfl
    exact hspace.append ih

theorem cuts_lineBreak (depth : Nat) : Cuts (lineBreak depth) [] := by
  have hbreak : Cuts ['\n'] [] := fun _ => rfl
  exact hbreak.append (cuts_spaces (2 * depth))

theorem Scans.lineBreak (h : Scans cs ts) (depth : Nat) : Cuts (cs ++ lineBreak depth) ts := by
  have hclosed := (h.close closes_newline).append (cuts_spaces (2 * depth))
  simpa only [List.append_assoc, List.append_nil, Json.lineBreak, List.singleton_append]
    using hclosed

theorem scans_indentedItems {depth : Nat} {items : List Json}
    (h : ∀ j ∈ items, Scans (indentedChars depth j) (tokens j.asRead)) :
    Scans (indentedItems depth items) (itemTokens (items.map asRead)) := by
  induction items with
  | nil => exact Cuts.nil.scans
  | cons j js ih =>
    obtain ⟨hj, hjs⟩ := List.forall_mem_cons.1 h
    have hitem := (cuts_lineBreak depth).scans_append hj
    cases js with
    | nil => exact hitem
    | cons k js => exact (hitem.close closes_comma).scans_append (ih hjs)

theorem scans_indentedMembers {depth : Nat} {members : List (String × Json)}
    (h : ∀ m ∈ members, Scans (indentedChars depth m.2) (tokens m.2.asRead)) :
    Scans (indentedMembers depth members)
      (memberTokens (members.map fun m => (m.1, m.2.asRead))) := by
  induction members with
  | nil => exact Cuts.nil.scans
  | cons m ms ih =>
    obtain ⟨hm, hms⟩ := List.forall_mem_cons.1 h
    obtain ⟨k, j⟩ := m
    have hcolon : Cuts [':', ' '] [.colon] := fun _ => rfl
    have hkey := ((cuts_lineBreak depth).append (cuts_stringChars k)).append hcolon
    have hmember := hkey.scans_append hm
    cases ms with
    | nil => exact hmember
    | cons m ms => exact (hmember.close closes_comma).scans_append (ih hms)

theorem scans_indented {P : Float → Prop} {room : Nat} {j : Json} (h : Legible P room j) (depth : Nat) :
    Scans (indentedChars depth j) (tokens j.asRead) := by
  induction h generalizing depth with
  | null => exact scans_null
  | bool b => exact scans_bool b
  | whole n => exact scans_whole n
  | @real _ x _ => exact scans_real x
  | string s => exact (cuts_stringChars s).scans
  | @array _ items _ ih =>
    rw [asRead_array]
    cases items with
    | nil => exact Cuts.scans fun _ => rfl
    | cons j js =>
      have hopen : Cuts ['['] [.openArray] := fun _ => rfl
      have hitems := scans_indentedItems fun j hj => ih j hj (depth + 1)
      have hclose : Cuts [']'] [.closeArray] := fun _ => rfl
      exact (((hopen.scans_append hitems).lineBreak depth).append hclose).scans
  | @object _ members _ ih =>
    rw [asRead_object]
    cases members with
    | nil => exact Cuts.scans fun _ => rfl
    | cons m ms =>
      have hopen : Cuts ['\x7b'] [.openObject] := fun _ => rfl
      have hmembers := scans_indentedMembers fun m hm => ih m hm (depth + 1)
      have hclose : Cuts ['\x7d'] [.closeObject] := fun _ => rfl
      exact (((hopen.scans_append hmembers).lineBreak depth).append hclose).scans

end Token

end RunnerFleet.Json
