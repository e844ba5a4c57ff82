import RunnerFleet.Json.Token

/-!
# Reading JSON

The tokens are read with a stack of the containers that are still open, so that the whole reader
is one fold. A container that would be the 128th open one is read but has no value.
-/

namespace RunnerFleet.Json

/-- A container that is still open, with what has been read of it latest first. In an object the
key of the member whose value comes next waits beside the members. -/
inductive Frame where
  | array (items : List Json)
  | object (members : List (Option String × Json)) (key : Option String)

inductive Phase where
  | item
  | itemOrEnd
  | key
  | keyOrEnd
  | colon (key : Option String)
  | separator
  | done (j : Json)

structure Reader where
  phase : Phase
  stack : List Frame

def mostOpen : Nat := 127

/-- The value of a container that closes. An object with a key that has no text has no value. -/
def Frame.close : Frame → Json
  | .array items => .array items.reverse
  | .object members _ =>
    match members.reverse.mapM fun (k, j) => k.map (·, j) with
    | some members => .object members
    | none => .void

namespace Reader

def start : Reader := ⟨.item, []⟩

/-- Puts a complete value where one was awaited. -/
def deliver (j : Json) : List Frame → Reader
  | [] => ⟨.done j, []⟩
  | .array items :: stack => ⟨.separator, .array (j :: items) :: stack⟩
  | .object members k :: stack => ⟨.separator, .object ((k, j) :: members) none :: stack⟩

def pop : List Frame → Option Reader
  | [] => none
  | f :: stack => some (deliver (if stack.length < mostOpen then f.close else .void) stack)

def begin (stack : List Frame) : Token → Option Reader
  | .scalar j => some (deliver j stack)
  | .text (some s) => some (deliver (.string s) stack)
  | .text none => some (deliver .void stack)
  | .openArray => some ⟨.itemOrEnd, .array [] :: stack⟩
  | .openObject => some ⟨.keyOrEnd, .object [] none :: stack⟩
  | _ => none

/-- The innermost container is told the key whose value comes next. -/
def setKey (k : Option String) : List Frame → List Frame
  | .object members _ :: stack => .object members k :: stack
  | stack => stack

def step (r : Reader) (t : Token) : Option Reader :=
  match r.phase, t with
  | .itemOrEnd, .closeArray => pop r.stack
  | .itemOrEnd, t => begin r.stack t
  | .item, t => begin r.stack t
  | .keyOrEnd, .closeObject => pop r.stack
  | .keyOrEnd, .text k => some ⟨.colon k, r.stack⟩
  | .key, .text k => some ⟨.colon k, r.stack⟩
  | .colon k, .colon => some ⟨.item, setKey k r.stack⟩
  | .separator, .comma =>
    match r.stack with
    | .array _ :: _ => some ⟨.item, r.stack⟩
    | .object _ _ :: _ => some ⟨.key, r.stack⟩
    | [] => none
  | .separator, .closeArray =>
    match r.stack with
    | .array _ :: _ => pop r.stack
    | _ => none
  | .separator, .closeObject =>
    match r.stack with
    | .object _ _ :: _ => pop r.stack
    | _ => none
  | _, _ => none

def run (r : Reader) : List Token → Option Reader
  | [] => some r
  | t :: ts => (r.step t).bind fun r => r.run ts

def result? (r : Reader) : Option Json :=
  match r.phase with
  | .done j => some j
  | _ => none

end Reader

def ofTokens? (ts : List Token) : Option Json := (Reader.start.run ts).bind Reader.result?

def parse? (s : String) : Option Json := (Token.ofChars? s.toList).bind ofTokens?

end RunnerFleet.Json
