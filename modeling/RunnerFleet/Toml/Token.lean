import RunnerFleet.Toml.Quoting

/-!
# TOML tokens

Quoted texts, line ends and all other characters outside comments. A text is cut into tokens one
character at a time. Line ends are single characters here; a final one has been added.
-/

namespace RunnerFleet.Toml

inductive Token where
  | char (c : Char)
  | lineEnd
  | text (block : Bool) (cs : List Char)
  deriving DecidableEq, Repr

namespace Token

/-- The character that a backslash and `c` stand for. -/
def escaped? (c : Char) : Option Char :=
  match c with
  | 'b' => some '\x08'
  | 't' => some '\t'
  | 'n' => some '\n'
  | 'f' => some '\x0c'
  | 'r' => some '\r'
  | '"' => some '"'
  | '\\' => some '\\'
  | _ => none

/-- The character with a number, unless the number is half a surrogate pair or too large. -/
def numbered? (n : Nat) : Option Char := if n.isValidChar then some (Char.ofNat n) else none

/-- Where the cutting stands. What has been read of a text is kept latest first. -/
inductive Mode where
  | outside
  | comment
  | opening (escapes two : Bool)
  | fresh (escapes : Bool)
  /-- In a text, after `run` quotes that may belong to it or close it. -/
  | inside (f : Form) (seen : List Char) (run : Nat)
  | escape (block : Bool) (seen : List Char)
  /-- In the digits of a character number; `left` more follow the next one. -/
  | hex (block : Bool) (seen : List Char) (left n : Nat)
  /-- After a backslash that ends a line, before or after the line end. -/
  | fold (seen : List Char) (ended : Bool)

structure Scanner where
  mode : Mode
  found : List Token

namespace Scanner

def start : Scanner := ⟨.outside, []⟩

def outside (found : List Token) (c : Char) : Scanner :=
  if c = '\n' then ⟨.outside, .lineEnd :: found⟩
  else if c = '#' then ⟨.comment, found⟩
  else if c = '"' then ⟨.opening true false, found⟩
  else if c = '\'' then ⟨.opening false false, found⟩
  else ⟨.outside, .char c :: found⟩

def within (found : List Token) (f : Form) (seen : List Char) (c : Char) : Option Scanner :=
  if f.escapes ∧ c = '\\' then some ⟨.escape f.block seen, found⟩
  else if f.admits c then some ⟨.inside f (c :: seen) 0, found⟩
  else none

/-- A character of a text. Of at most five quotes in a row the last three close a block. -/
def inside (found : List Token) (f : Form) (seen : List Char) (run : Nat) (c : Char) :
    Option Scanner :=
  if c = f.quote then
    if f.block then if run < 5 then some ⟨.inside f seen (run + 1), found⟩ else none
    else some ⟨.outside, .text false seen.reverse :: found⟩
  else if run < 3 then within found f (List.replicate run f.quote ++ seen) c
  else some (outside
    (.text true (List.replicate (run - 3) f.quote ++ seen).reverse :: found) c)

def step (s : Scanner) (c : Char) : Option Scanner :=
  match s.mode with
  | .outside => some (outside s.found c)
  | .comment =>
    if c = '\n' then some (outside s.found c)
    else if isControl c then none
    else some s
  | .opening escapes two =>
    let f : Form := ⟨escapes, false⟩
    if c = f.quote then some ⟨if two then .fresh escapes else .opening escapes true, s.found⟩
    else if two then some (outside (.text false [] :: s.found) c)
    else within s.found f [] c
  | .fresh escapes =>
    if c = '\n' then some ⟨.inside ⟨escapes, true⟩ [] 0, s.found⟩
    else inside s.found ⟨escapes, true⟩ [] 0 c
  | .inside f seen run => inside s.found f seen run c
  | .escape block seen =>
    if c = 'u' then some ⟨.hex block seen 3 0, s.found⟩
    else if c = 'U' then some ⟨.hex block seen 7 0, s.found⟩
    else if block ∧ (c = ' ' ∨ c = '\t' ∨ c = '\n') then some ⟨.fold seen (c = '\n'), s.found⟩
    else (escaped? c).map fun c => ⟨.inside ⟨true, block⟩ (c :: seen) 0, s.found⟩
  | .hex block seen left n => do
    let d ← Hexadecimal.digit? c
    match left with
    | 0 => (numbered? (16 * n + d)).map fun c => ⟨.inside ⟨true, block⟩ (c :: seen) 0, s.found⟩
    | left + 1 => some ⟨.hex block seen left (16 * n + d), s.found⟩
  | .fold seen ended =>
    if c = ' ' ∨ c = '\t' then some s
    else if c = '\n' then some ⟨.fold seen true, s.found⟩
    else if ended then inside s.found ⟨true, true⟩ seen 0 c
    else none

def run (s : Scanner) : List Char → Option Scanner
  | [] => some s
  | c :: cs => (s.step c).bind fun s => s.run cs

def finish (s : Scanner) : Option (List Token) :=
  match s.mode with
  | .outside => some s.found.reverse
  | _ => none

end Scanner

def ofChars? (cs : List Char) : Option (List Token) := (Scanner.start.run cs).bind Scanner.finish

end Token

end RunnerFleet.Toml
