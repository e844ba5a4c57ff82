import RunnerFleet.Toml.Scalar
import RunnerFleet.Toml.Token

/-!
# Reading TOML

The tokens are read with a stack of the arrays and inline tables that are still open, so that the
whole reader is one fold. A line holds a header, a key with its value, or nothing; only a value may
go on over several lines, inside the brackets of an array.
-/

namespace RunnerFleet.Toml

/-- What a complete value becomes a part of. Keys are kept last part first. -/
inductive Frame where
  | entry (key : List String)
  | array (items : List Node)
  | inline (members : Members) (key : List String)

inductive Purpose where
  | header
  | commonHeader
  | entry
  | member (members : Members) (below : List Frame)

inductive Part where
  | awaited
  | bare (seen : List Char)
  | complete

inductive Phase where
  | line
  | rest
  /-- A bracket has been read at the start of the line. -/
  | bracket
  /-- A common header, up to the first of its two closing brackets. -/
  | closing (key : List String)
  | key (purpose : Purpose) (parts : List String) (last : Part)
  | value (stack : List Frame)
  /-- A value without quotes, latest character first, and whether a single blank followed. -/
  | scalar (stack : List Frame) (seen : List Char) (gap : Bool)
  | brace (stack : List Frame)
  | after (stack : List Frame)

/-- The document so far, the header in force and what may come next. -/
structure Reader where
  document : Members
  heading : List String
  phase : Phase

def isBlank (t : Token) : Bool := t = .char ' ' || t = .char '\t'

def isKeyChar (c : Char) : Bool := c.isAlphanum || c = '_' || c = '-'

def isScalarChar (c : Char) : Bool := isKeyChar c || c = '+' || c = '.' || c = ':'

def deepest : Nat := 79

def longestKey : Nat := 79

def inArray : List Frame → Bool
  | .array _ :: _ => true
  | _ => false

namespace Reader

def start : Reader := ⟨[], [], .line⟩

def goto (r : Reader) (phase : Phase) : Reader := { r with phase }

def useKey (r : Reader) (parts : List String) : Purpose → Option Reader
  | .entry => some (r.goto (.value [.entry parts]))
  | .member ms below => some (r.goto (.value (.inline ms parts :: below)))
  | .commonHeader => some (r.goto (.closing parts))
  | .header =>
    match parts with
    | [] => none
    | key :: path =>
      (r.document.openTable? path.reverse key).map fun document =>
        ⟨document, parts.reverse, .rest⟩

def keyEnd : Purpose → Char
  | .header | .commonHeader => ']'
  | _ => '='

def afterPart (r : Reader) (purpose : Purpose) (parts : List String) (t : Token) :
    Option Reader :=
  if isBlank t then some (r.goto (.key purpose parts .complete))
  else if t = .char '.' then some (r.goto (.key purpose parts .awaited))
  else if t = .char (keyEnd purpose) ∧ parts.length ≤ longestKey then r.useKey parts purpose
  else none

def beginPart (r : Reader) (purpose : Purpose) (parts : List String) (t : Token) :
    Option Reader :=
  if isBlank t then some (r.goto (.key purpose parts .awaited))
  else match t with
    | .char c => if isKeyChar c then some (r.goto (.key purpose parts (.bare [c]))) else none
    | .text false s => some (r.goto (.key purpose (String.ofList s :: parts) .complete))
    | _ => none

def continuePart (r : Reader) (purpose : Purpose) (parts : List String) (seen : List Char)
    (t : Token) : Option Reader :=
  let ended := r.afterPart purpose (String.ofList seen.reverse :: parts) t
  match t with
  | .char c =>
    if isKeyChar c then some (r.goto (.key purpose parts (.bare (c :: seen)))) else ended
  | _ => ended

def deliver (r : Reader) (n : Node) : List Frame → Option Reader
  | [.entry (key :: path)] =>
    (r.document.assignBelow? r.heading path.reverse key n).map fun document =>
      { r with document, phase := .rest }
  | .array items :: below => some (r.goto (.after (.array (n :: items) :: below)))
  | .inline ms (key :: path) :: below =>
    (ms.assign? path.reverse key n).map fun ms => r.goto (.after (.inline ms [] :: below))
  | _ => none

def closeArray (r : Reader) : List Frame → Option Reader
  | .array items :: below => r.deliver (.array items.reverse) below
  | _ => none

def afterValue (r : Reader) (stack : List Frame) (t : Token) : Option Reader :=
  if isBlank t then some (r.goto (.after stack))
  else match stack, t with
    | .array _ :: _, .lineEnd => some (r.goto (.after stack))
    | .array _ :: _, .char ',' => some (r.goto (.value stack))
    | .array _ :: _, .char ']' => r.closeArray stack
    | .inline ms _ :: below, .char ',' => some (r.goto (.key (.member ms below) [] .awaited))
    | .inline ms _ :: below, .char '\x7d' => r.deliver (.table .inline ms) below
    | _, _ => none

def afterLine (r : Reader) (t : Token) : Option Reader :=
  if isBlank t then some (r.goto .rest)
  else if t = .lineEnd then some (r.goto .line)
  else none

/-- Takes the token `t` right after the value `n` has been completed. -/
def deliverBefore (r : Reader) (stack : List Frame) (n : Node) (t : Token) : Option Reader :=
  (r.deliver n stack).bind fun r =>
    match r.phase with
    | .after stack => r.afterValue stack t
    | .rest => r.afterLine t
    | _ => none

def beginValue (r : Reader) (stack : List Frame) (t : Token) : Option Reader :=
  if isBlank t then some (r.goto (.value stack))
  else match t with
    | .lineEnd => if inArray stack then some (r.goto (.value stack)) else none
    | .text _ s => r.deliver (.text (String.ofList s)) stack
    | .char '[' =>
      if stack.length ≤ deepest then some (r.goto (.value (.array [] :: stack))) else none
    | .char '\x7b' => if stack.length ≤ deepest then some (r.goto (.brace stack)) else none
    | .char ']' => r.closeArray stack
    | .char c => if isScalarChar c then some (r.goto (.scalar stack [c] false)) else none

/-- A token after characters of a value without quotes. One blank may stand between a date and a
time. -/
def continueScalar (r : Reader) (stack : List Frame) (seen : List Char) (gap : Bool)
    (t : Token) : Option Reader :=
  let ended := (Node.ofScalar? seen.reverse).bind fun n => r.deliverBefore stack n t
  match t with
  | .char c =>
    if isScalarChar c then
      some (r.goto (.scalar stack (if gap then c :: ' ' :: seen else c :: seen) false))
    else if c = ' ' ∧ !gap then some (r.goto (.scalar stack seen true))
    else ended
  | _ => ended

def beginLine (r : Reader) (t : Token) : Option Reader :=
  if isBlank t || t = .lineEnd then some r
  else if t = .char '[' then some (r.goto .bracket)
  else r.beginPart .entry [] t

def step (r : Reader) (t : Token) : Option Reader :=
  match r.phase with
  | .line => r.beginLine t
  | .rest => r.afterLine t
  | .bracket =>
    if t = .char '[' then some (r.goto (.key .commonHeader [] .awaited))
    else r.beginPart .header [] t
  | .closing parts =>
    match parts, t with
    | key :: path, .char ']' =>
      (r.document.openAnother? path.reverse key).map fun document =>
        ⟨document, parts.reverse, .rest⟩
    | _, _ => none
  | .key purpose parts .awaited => r.beginPart purpose parts t
  | .key purpose parts (.bare seen) => r.continuePart purpose parts seen t
  | .key purpose parts .complete => r.afterPart purpose parts t
  | .value stack => r.beginValue stack t
  | .scalar stack seen gap => r.continueScalar stack seen gap t
  | .brace stack =>
    if isBlank t then some r
    else if t = .char '\x7d' then r.deliver (.table .inline []) stack
    else r.beginPart (.member [] stack) [] t
  | .after stack => r.afterValue stack t

def run (r : Reader) : List Token → Option Reader
  | [] => some r
  | t :: ts => (r.step t).bind fun r => r.run ts

def result? (r : Reader) : Option Members :=
  match r.phase with
  | .line => some r.document
  | _ => none

end Reader

/-- The characters of a document with single characters as line ends. A carriage return stands only
before a line feed. -/
def lines? : List Char → Option (List Char)
  | [] => some []
  | '\r' :: '\n' :: cs => ('\n' :: ·) <$> lines? cs
  | '\r' :: _ => none
  | c :: cs => (c :: ·) <$> lines? cs

def withoutMark : List Char → List Char
  | '\ufeff' :: cs => cs
  | cs => cs

def parse? (s : String) : Option Members := do
  let cs ← lines? (withoutMark s.toList)
  let ts ← Token.ofChars? (cs ++ ['\n'])
  (← Reader.start.run ts).result?

end RunnerFleet.Toml
