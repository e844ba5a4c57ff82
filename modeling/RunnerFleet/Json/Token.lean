import RunnerFleet.Json.Basic
import RunnerFleet.Number.Literal
import RunnerFleet.Text.Digits

/-!
# JSON tokens

A text is cut into tokens one character at a time. Blanks between tokens are the four that JSON
allows. A string that contains half a surrogate pair is still a token, but has no text.
-/

namespace RunnerFleet.Json

inductive Token where
  | openArray
  | closeArray
  | openObject
  | closeObject
  | comma
  | colon
  | text (s : Option String)
  | scalar (j : Json)
  deriving Repr

namespace Token

def isSpace (c : Char) : Bool := c = ' ' || c = '\t' || c = '\n' || c = '\r'

/-- One element of a string literal: a character, or a UTF-16 unit given by number. -/
inductive Piece where
  | char (c : Char)
  | unit (n : Nat)
  deriving DecidableEq, Repr

/-- The text of a string literal. Units of a surrogate pair belong together. -/
def join : List Piece → Option (List Char)
  | [] => some []
  | .char c :: ps => (c :: ·) <$> join ps
  | .unit n :: ps =>
    if n < 0xD800 ∨ 0xDFFF < n then (Char.ofNat n :: ·) <$> join ps
    else if 0xDC00 ≤ n then none
    else match ps with
      | .unit m :: ps =>
        if 0xDC00 ≤ m ∧ m ≤ 0xDFFF then
          (Char.ofNat (0x10000 + (n - 0xD800) * 0x400 + (m - 0xDC00)) :: ·) <$> join ps
        else none
      | _ => none

def escaped? (c : Char) : Option Char :=
  match c with
  | '"' => some '"'
  | '\\' => some '\\'
  | '/' => some '/'
  | 'b' => some '\x08'
  | 'f' => some '\x0c'
  | 'n' => some '\n'
  | 'r' => some '\r'
  | 't' => some '\t'
  | _ => none

def isBare (c : Char) : Bool := c.isAlphanum || c = '-' || c = '+' || c = '.'

/-- The value of a number literal. A number that is neither a 64-bit whole number nor a double has
none. -/
def ofLiteral (l : Number.Literal) : Json :=
  match l.toUInt64? with
  | some n => .whole n
  | none => match l.toFloat? with
    | some x => .real x
    | none => .void

/-- The token that a run of bare characters is: one of the three words, or a number. -/
def bare? (cs : List Char) : Option Token :=
  if cs = "null".toList then some (.scalar .null)
  else if cs = "true".toList then some (.scalar (.bool true))
  else if cs = "false".toList then some (.scalar (.bool false))
  else (Number.Literal.ofChars? cs).map fun l => .scalar (ofLiteral l)

def punctuation? (c : Char) : Option Token :=
  match c with
  | '[' => some .openArray
  | ']' => some .closeArray
  | '\x7b' => some .openObject
  | '\x7d' => some .closeObject
  | ',' => some .comma
  | ':' => some .colon
  | _ => none

/-- Where the cutting stands. What has been read of a token is kept latest first. -/
inductive Mode where
  | between
  | bare (seen : List Char)
  | string (seen : List Piece)
  | escape (seen : List Piece)
  | hex (seen : List Piece) (left : Nat) (n : Nat)

structure Scanner where
  mode : Mode
  found : List Token

namespace Scanner

def start : Scanner := ⟨.between, []⟩

def outside (found : List Token) (c : Char) : Option Scanner :=
  if isSpace c then some ⟨.between, found⟩
  else if c = '"' then some ⟨.string [], found⟩
  else if isBare c then some ⟨.bare [c], found⟩
  else (punctuation? c).map fun t => ⟨.between, t :: found⟩

def step (s : Scanner) (c : Char) : Option Scanner :=
  match s.mode with
  | .between => outside s.found c
  | .bare seen =>
    if isBare c then some ⟨.bare (c :: seen), s.found⟩
    else (bare? seen.reverse).bind fun t => outside (t :: s.found) c
  | .string seen =>
    if c = '"' then some ⟨.between, .text ((join seen.reverse).map String.ofList) :: s.found⟩
    else if c = '\\' then some ⟨.escape seen, s.found⟩
    else if c.toNat < 0x20 then none
    else some ⟨.string (.char c :: seen), s.found⟩
  | .escape seen =>
    if c = 'u' then some ⟨.hex seen 3 0, s.found⟩
    else (escaped? c).map fun c => ⟨.string (.char c :: seen), s.found⟩
  | .hex seen left n =>
    (Hexadecimal.digit? c).map fun d =>
      match left with
      | 0 => ⟨.string (.unit (16 * n + d) :: seen), s.found⟩
      | left + 1 => ⟨.hex seen left (16 * n + d), s.found⟩

def run (s : Scanner) : List Char → Option Scanner
  | [] => some s
  | c :: cs => (s.step c).bind fun s => s.run cs

def finish (s : Scanner) : Option (List Token) :=
  match s.mode with
  | .between => some s.found.reverse
  | .bare seen => (bare? seen.reverse).map fun t => (t :: s.found).reverse
  | _ => none

end Scanner

def ofChars? (cs : List Char) : Option (List Token) := (Scanner.start.run cs).bind Scanner.finish

end Token

end RunnerFleet.Json
