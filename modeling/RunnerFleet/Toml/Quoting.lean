import RunnerFleet.Text.Digits

/-!
# Quoted text in TOML

A text stands between double quotes, where a backslash escapes, or between single quotes, where
nothing does; either way between one quote on each side or three. A writer takes the first of the
four forms in which the text needs no escape, and failing that escapes it between double quotes.
-/

namespace RunnerFleet.Toml

/-- A way to quote a text. -/
structure Form where
  /-- Between double quotes, where a backslash escapes. -/
  escapes : Bool
  /-- Between three quotes, so that the text may have several lines. -/
  block : Bool
  deriving DecidableEq, Repr

/-- The control characters, which never stand in a text as they are. The tab does not count. -/
def isControl (c : Char) : Bool := (c.toNat < 0x20 && c ≠ '\t') || c = '\x7f'

/-- Whether every run of `q` is shorter than `limit`, when `run` of them stand just before. -/
def runsBelow (q : Char) (limit : Nat) : Nat → List Char → Bool
  | _, [] => true
  | run, c :: cs =>
    if c = q then run + 1 < limit && runsBelow q limit (run + 1) cs else runsBelow q limit 0 cs

namespace Form

def quote (f : Form) : Char := if f.escapes then '"' else '\''

def width (f : Form) : Nat := if f.block then 3 else 1

def delimiter (f : Form) : List Char := List.replicate f.width f.quote

def admits (f : Form) (c : Char) : Bool :=
  (!isControl c || (f.block && c = '\n')) && !(f.escapes && c = '\\')

/-- Whether a text needs no escape in this form. -/
def fits (f : Form) (cs : List Char) : Bool := cs.all f.admits && runsBelow f.quote f.width 0 cs

def basic : Form := ⟨true, false⟩

def literal : Form := ⟨false, false⟩

def basicBlock : Form := ⟨true, true⟩

def literalBlock : Form := ⟨false, true⟩

def all : List Form := [basic, literal, basicBlock, literalBlock]

def choose (cs : List Char) : Form :=
  (all.find? fun f => f.fits cs).getD (if cs.contains '\n' then basicBlock else basic)

end Form

/-- A character between double quotes. A tab is escaped although it need not be. -/
def escaped (block : Bool) (c : Char) : List Char :=
  match c with
  | '\x08' => ['\\', 'b']
  | '\t' => ['\\', 't']
  | '\n' => if block then ['\n'] else ['\\', 'n']
  | '\x0c' => ['\\', 'f']
  | '\r' => ['\\', 'r']
  | '"' => ['\\', '"']
  | '\\' => ['\\', '\\']
  | c =>
    if isControl c then
      ['\\', 'u', '0', '0', Hexadecimal.upperDigit (c.toNat / 16),
        Hexadecimal.upperDigit (c.toNat % 16)]
    else [c]

/-- The characters between double quotes; `run` quotes have just been written as they are. A quote
is escaped only where it would complete the closing ones. -/
def escapedFrom (block : Bool) : Nat → List Char → List Char
  | _, [] => []
  | run, c :: cs =>
    if c = '"' ∧ block ∧ run < 2 then c :: escapedFrom block (run + 1) cs
    else escaped block c ++ escapedFrom block 0 cs

/-- A text in a given form. A block with several lines begins with a line end that is not part of
the text. -/
def Form.write (f : Form) (cs : List Char) : List Char :=
  f.delimiter ++ (if f.block && cs.contains '\n' then ['\n'] else []) ++
    (if f.escapes then escapedFrom f.block 0 cs else cs) ++ f.delimiter

def quoted (s : String) : List Char := (Form.choose s.toList).write s.toList

end RunnerFleet.Toml
