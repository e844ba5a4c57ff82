import RunnerFleet.Operator.Command

/-!
# Arguments of the command line

Options, then a command with its own options and at most one operand. The two options that concern
every command may also stand after it, and count more there. An option takes its value from the
same argument or from the next one; each is given at most once on each side of the command.
Arguments are read from left to right, and the first one that is wrong or asks for a notice decides.
An option whose value is an argument of its own waits: it is looked at when the next option is met,
or when no more arguments are left. So the last option before a command is looked at after it.
-/

namespace RunnerFleet.CommandLine

inductive OptionName where
  | config
  | dataDir
  | syncInterval
  | file
  | replicas
  | duration
  | queued
  | inProgress
  | busy
  | registered
  deriving DecidableEq, Repr

inductive CommandName where
  | run
  | apply
  | reserve
  | demand
  | status
  deriving DecidableEq, Repr

namespace OptionName

def name : OptionName → String
  | config => "config"
  | dataDir => "data-dir"
  | syncInterval => "sync-interval"
  | file => "file"
  | replicas => "replicas"
  | duration => "duration"
  | queued => "queued"
  | inProgress => "in-progress"
  | busy => "busy"
  | registered => "registered"

def letter? : OptionName → Option Char
  | file => some 'f'
  | _ => none

end OptionName

/-- A count as an argument: digits with an optional sign. Only zero may be negative. -/
def readCount? (s : String) : Option Count :=
  match s.toList with
  | '-' :: '+' :: _ => none
  | '-' :: ds => (Decimal.readUInt32? ds).filter (· = 0)
  | cs => Decimal.readUInt32? cs

def OptionName.accepts (o : OptionName) (value : String) : Bool :=
  match o with
  | config | dataDir | file => value ≠ ""
  | syncInterval | duration => true
  | replicas | queued | inProgress | busy | registered => (readCount? value).isSome

namespace CommandName

def all : List CommandName := [run, apply, reserve, demand, status]

def name : CommandName → String
  | run => "run"
  | apply => "apply"
  | reserve => "reserve"
  | demand => "demand"
  | status => "status"

def ofString? (s : String) : Option CommandName := all.find? fun c => c.name = s

def options : CommandName → List OptionName
  | run => [.syncInterval]
  | apply => [.file]
  | reserve => [.replicas, .duration]
  | demand => [.queued, .inProgress, .busy, .registered]
  | status => []

def hasOperand : CommandName → Bool
  | run | apply => false
  | reserve | demand | status => true

end CommandName

def commonOptions : List OptionName := [.config, .dataDir]

def optionsOf : Option CommandName → List OptionName
  | none => commonOptions
  | some c => c.options ++ commonOptions

inductive Word where
  | divider
  | long (name : String) (value : Option String)
  | short (letter : Char) (value : Option String)
  | operand (s : String)
  deriving DecidableEq, Repr

def splitAtEquals (cs : List Char) : String × Option String :=
  let value := match cs.dropWhile (· ≠ '=') with
    | _ :: vs => some (String.ofList vs)
    | [] => none
  (String.ofList (cs.takeWhile (· ≠ '=')), value)

def Word.ofString (s : String) : Word :=
  match s.toList with
  | ['-', '-'] => divider
  | '-' :: '-' :: cs =>
    let (name, value) := splitAtEquals cs
    long name value
  | ['-', c] => short c none
  | '-' :: c :: '=' :: cs => short c (some (String.ofList cs))
  | '-' :: c :: cs => short c (some (String.ofList cs))
  | _ => operand s

def Word.value? : Word → Option String
  | long _ value | short _ value => value
  | _ => none

def named? (c : Option CommandName) : Word → Option OptionName
  | .long name _ => (optionsOf c).find? fun o => o.name = name
  | .short letter _ => (optionsOf c).find? fun o => o.letter? = some letter
  | _ => none

def Word.isOperand : Word → Bool
  | operand _ => true
  | _ => false

/-- What has been given on one side of the command. -/
structure Given where
  values : List (OptionName × String)
  waiting : Option (OptionName × String)
  operand : Option String
  deriving DecidableEq, Repr

namespace Given

def nothing : Given := ⟨[], none, none⟩

def value? (g : Given) (o : OptionName) : Option String := g.values.lookup o

def set? (g : Given) (o : OptionName) (value : String) : Option Given :=
  if (g.value? o).isNone && o.accepts value then
    some { g with values := (o, value) :: g.values }
  else none

def settle? (g : Given) : Option Given :=
  match g.waiting with
  | some (o, value) => Given.set? { g with waiting := none } o value
  | none => some g

/-- Takes operands; a command has one at most, and before the command there is none. -/
def take? (g : Given) (c : Option CommandName) : List String → Option Given
  | [] => some g
  | s :: ss =>
    if (c.any CommandName.hasOperand) && g.operand.isNone then
      take? { g with operand := some s } c ss
    else none

end Given

inductive Side where
  | misused
  | version
  | help
  | complete (g : Given)
  | command (g : Given) (word : String) (rest : List String)

/-- The reading that goes on with what has been given, if that is all right. -/
def Side.after (g : Option Given) (next : Given → Side) : Side :=
  match g with
  | some g => next g
  | none => .misused

def readSide (c : Option CommandName) (g : Given) : List String → Side
  | [] => .complete g
  | a :: as =>
    match Word.ofString a with
    | .divider => ((g.take? c as).map Side.complete).getD .misused
    | .operand s =>
      match c, g.take? c [s] with
      | none, _ => .command g s as
      | some _, some g => readSide c g as
      | some _, none => .misused
    | .long "version" none | .short 'V' _ => .after g.settle? fun _ => .version
    | .long "help" none | .short 'h' _ => .after g.settle? fun _ => .help
    | w =>
      .after g.settle? fun g =>
        match named? c w, w.value?, as with
        | none, _, _ | some _, none, [] => .misused
        | some o, some v, as => .after (g.set? o v) fun g => readSide c g as
        | some o, none, v :: as =>
          if (Word.ofString v).isOperand then readSide c { g with waiting := some (o, v) } as
          else .misused

inductive Action where
  | run (syncInterval : Option String)
  | apply (file : String)
  | reserve (key : String) (replicas : Count) (length : String)
  | demand (key : String) (counts : DemandCounts)
  | status (key : String)
  deriving DecidableEq, Repr

def actionOf? (g : Given) : CommandName → Option Action
  | .run => some (.run (g.value? .syncInterval))
  | .apply => (g.value? .file).map .apply
  | .reserve => do
    return .reserve (← g.operand) (← (← g.value? .replicas) |> readCount?) (← g.value? .duration)
  | .demand => do
    let count (o : OptionName) : Count := ((g.value? o).bind readCount?).getD 0
    return .demand (← g.operand) {
      queued := count .queued
      inProgress := count .inProgress
      busy := count .busy
      registered := count .registered }
  | .status => do return .status (← g.operand)

structure Invocation where
  config : Option String
  dataDir : Option String
  action : Action
  deriving DecidableEq, Repr

inductive Reading where
  | misused
  | version (command : Option CommandName)
  | help
  | invoked (i : Invocation)
  deriving DecidableEq, Repr

def readCommand (before : Given) (c : CommandName) (args : List String) : Reading :=
  match readSide (some c) .nothing args with
  | .misused | .command .. => .misused
  | .version => .version (some c)
  | .help => .help
  | .complete after =>
    match after.settle?, before.settle? with
    | some after, some before =>
      let common (o : OptionName) : Option String := (after.value? o).or (before.value? o)
      match actionOf? after c with
      | some action => .invoked ⟨common .config, common .dataDir, action⟩
      | none => .misused
    | _, _ => .misused

def readHelp : List String → Reading
  | [] => .help
  | [s] => if s = "help" ∨ (CommandName.ofString? s).isSome then .help else .misused
  | _ => .misused

def read (args : List String) : Reading :=
  match readSide none .nothing args with
  | .misused | .complete _ => .misused
  | .version => .version none
  | .help => .help
  | .command _ "help" rest => readHelp rest
  | .command before word rest =>
    match CommandName.ofString? word with
    | some c => readCommand before c rest
    | none => .misused

end RunnerFleet.CommandLine
