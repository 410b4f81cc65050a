/-
COMMAND LINES: what the arguments ask for.

- `CommandLine` is the request: where to run, which configuration, and the command; no command is the same as `render`
  without options.
- `CommandLine.parse` reads the arguments at two levels, before and after the command word. Options of the whole program
  may stand at either level, and the inner one counts; options of a command only after it.
- An option with a value takes it from the same argument (`--config=F`, `-CD`, `-C=D`) or from the next one, unless that
  looks like an option. A value in the next argument is looked at only when the next option comes or the level ends:
  until then the option is `Reading.pending`, and an argument that cannot be read at all goes first.
- `Refusal` is why there is no request; asking for help or for the version is among the reasons.

Main statement: `scan_nil`.
-/
import BranchRender.Path

namespace BranchRender

structure RenderOptions where
  template : Option Text := none
  output : Option Text := none
  stdout : Bool := false
  deriving DecidableEq, Repr

/-- what to do -/
inductive Command
  | render (options : RenderOptions)
  | resolve (json : Bool)
  deriving DecidableEq, Repr

structure CommandLine where
  dir : Option Path := none
  config : Option Path := none
  command : Option Command := none
  deriving DecidableEq, Repr

inductive Refusal
  | help
  /-- the version was asked for, of the program or of a command -/
  | version (of : Text)
  | unknownArgument
  | invalidSubcommand
  /-- a value is missing, or empty where a path is needed -/
  | invalidValue
  /-- a value is given to an option that takes none -/
  | tooManyValues
  /-- an option is given twice -/
  | argumentConflict
  deriving DecidableEq, Repr

namespace Refusal

/-- what the process ends with: an answered question is a success -/
def exitCode : Refusal → Nat
  | .help | .version _ => 0
  | _ => 2

def versionText (of : Text) : Text := of ++ " 0.1.0\n".toList

def helpText : Text :=
  "Usage: nsprep [-C <DIR>] [--config <FILE>] [render [--template <PATH>] [--output <PATH>] [--stdout]]\n".toList
    ++ "       nsprep [-C <DIR>] [--config <FILE>] resolve [--json]\n".toList

def text : Refusal → Text
  | .help => helpText
  | .version of => versionText of
  | _ => []

end Refusal

namespace CommandLine

/-! ## Options -/

/-- options with a value -/
inductive Valued
  | dir
  | config
  | template
  | output
  deriving DecidableEq, Repr

/-- options without a value -/
inductive Flag
  | stdout
  | json
  | help
  | version
  deriving DecidableEq, Repr

inductive Opt
  | valued (v : Valued)
  | flag (f : Flag)
  deriving DecidableEq, Repr

/-- where options stand: before the command word, or after it -/
inductive Level
  | program
  | render
  | resolve
  deriving DecidableEq, Repr

def Level.long? (l : Level) (name : Text) : Option Opt :=
  if name = "config".toList then some (.valued .config)
  else if name = "help".toList then some (.flag .help)
  else if name = "version".toList then some (.flag .version)
  else match l with
    | .program => none
    | .render =>
      if name = "template".toList then some (.valued .template)
      else if name = "output".toList then some (.valued .output)
      else if name = "stdout".toList then some (.flag .stdout)
      else none
    | .resolve => if name = "json".toList then some (.flag .json) else none

/-- the option of a short name, the same at every level -/
def short? (c : Char) : Option Opt :=
  if c = 'C' then some (.valued .dir)
  else if c = 'h' then some (.flag .help)
  else if c = 'V' then some (.flag .version)
  else none

def Level.name : Level → Text
  | .program => "nsprep".toList
  | .render => "nsprep-render".toList
  | .resolve => "nsprep-resolve".toList

/-- whether the value is a path, which is never empty -/
def Valued.isPath : Valued → Bool
  | .dir | .config => true
  | .template | .output => false

/-! ## Reading one level -/

/-- an option whose value is still to come, or has come and is still to be looked at -/
structure Pending where
  option : Valued
  value : Option Text
  deriving DecidableEq, Repr

/-- what a level has given so far -/
structure Reading where
  value : Valued → Option Text := fun _ => none
  isSet : Flag → Bool := fun _ => false
  pending : Option Pending := none

namespace Reading

/-- `v` is given as `t`, for the first time -/
def give (r : Reading) (v : Valued) (t : Text) : Except Refusal Reading :=
  if (r.value v).isSome then .error .argumentConflict
  else if v.isPath && t.isEmpty then .error .invalidValue
  else .ok { r with value := fun w => if w = v then some t else r.value w }

/-- the pending option is looked at -/
def settle (r : Reading) : Except Refusal Reading :=
  match r.pending with
  | none => .ok r
  | some ⟨_, none⟩ => .error .invalidValue
  | some ⟨v, some t⟩ => { r with pending := none }.give v t

/-- an option with its value in the same argument -/
def attach (r : Reading) (v : Valued) (t : Text) : Except Refusal Reading := do (← r.settle).give v t

/-- an option whose value is the next argument -/
def await (r : Reading) (v : Valued) : Except Refusal Reading := do
  return { ← r.settle with pending := some ⟨v, none⟩ }

/-- a flag; help and version end the reading at once -/
def raise (r : Reading) (l : Level) (f : Flag) : Except Refusal Reading := do
  let r ← r.settle
  match f with
  | .help => .error .help
  | .version => .error (.version l.name)
  | _ =>
    if r.isSet f then .error .argumentConflict
    else .ok { r with isSet := fun g => if g = f then true else r.isSet g }

/-- a long option, with the value after its `=` if there is one -/
def long (r : Reading) (l : Level) (name : Text) (value : Option Text) : Except Refusal Reading :=
  match l.long? name, value with
  | none, _ => .error .unknownArgument
  | some (.valued v), some t => r.attach v t
  | some (.valued v), none => r.await v
  | some (.flag _), some _ => .error .tooManyValues
  | some (.flag f), none => r.raise l f

/-- short options behind one dash; what follows one with a value is the value -/
def shorts (r : Reading) (l : Level) : Text → Except Refusal Reading
  | [] => .ok r
  | c :: t =>
    match short? c, t with
    | none, _ => .error .unknownArgument
    | some (.flag f), t => r.raise l f >>= fun r => r.shorts l t
    | some (.valued v), [] => r.await v
    | some (.valued v), '=' :: t => r.attach v t
    | some (.valued v), t => r.attach v t

/-- whether the next argument is the value of an option, unless it looks like one -/
def awaits (r : Reading) : Bool :=
  match r.pending with
  | some ⟨_, none⟩ => true
  | _ => false

end Reading

/-! ## Arguments -/

/-- what an argument looks like -/
inductive Shape
  /-- `--`, behind which there are no options -/
  | escape
  | long (name : Text) (value : Option Text)
  | short (letters : Text)
  | word

/-- name and value of a long option -/
def splitLong (t : Text) : Shape :=
  match t.dropWhile (· != '=') with
  | [] => .long t none
  | _ :: value => .long (t.takeWhile (· != '=')) (some value)

def shape : Text → Shape
  | ['-', '-'] => .escape
  | '-' :: '-' :: t => splitLong t
  | ['-'] => .word
  | '-' :: t => .short t
  | _ => .word

/-- words that are commands before any command -/
inductive CommandWord
  | render
  | resolve
  | help
  deriving DecidableEq, Repr

def commandWord? (a : Text) : Option CommandWord :=
  if a = "render".toList then some .render
  else if a = "resolve".toList then some .resolve
  else if a = "help".toList then some .help
  else none

def Level.word? (l : Level) (a : Text) : Option CommandWord :=
  match l with
  | .program => commandWord? a
  | _ => none

/-- an argument no option takes: none of the commands does either -/
def Level.refuse (l : Level) : Refusal :=
  match l with
  | .program => .invalidSubcommand
  | _ => .unknownArgument

/-- an argument behind `--`: a command word is refused as an argument there -/
def Level.refuseEscaped (l : Level) (a : Text) : Refusal :=
  if (l.word? a).isSome then .unknownArgument else l.refuse

/-- reads a level to its end, or to a command word and what follows it -/
def scan (l : Level) (r : Reading) : List Text → Except Refusal (Reading × Option (CommandWord × List Text))
  | [] => .ok (r, none)
  | a :: rest =>
    match (if r.awaits then none else l.word? a) with
    | some w => .ok (r, some (w, rest))
    | none =>
      match shape a with
      | .escape =>
        match rest with
        | [] => .ok (r, none)
        | b :: _ => .error (l.refuseEscaped b)
      | .long name value => r.long l name value >>= fun r => scan l r rest
      | .short letters => r.shorts l letters >>= fun r => scan l r rest
      | .word =>
        match r.pending with
        | some ⟨v, none⟩ => scan l { r with pending := some ⟨v, some a⟩ } rest
        | _ => .error l.refuse

/-! ## The request -/

def ofReading (r : Reading) (command : Option Command) : CommandLine :=
  { dir := r.value .dir, config := r.value .config, command }

/-- the command a level after its word asks for -/
def Level.command (l : Level) (r : Reading) : Option Command :=
  match l with
  | .program => none
  | .render =>
    some (.render { template := r.value .template, output := r.value .output, stdout := r.isSet .stdout })
  | .resolve => some (.resolve (r.isSet .json))

/-- the rest of the arguments after a command word, `outer` read before it -/
def parseCommand (outer : Reading) (l : Level) (args : List Text) : Except Refusal CommandLine := do
  let (inner, _) ← scan l {} args
  let inner ← inner.settle
  let outer ← outer.settle
  return {
    dir := (inner.value .dir).or (outer.value .dir)
    config := (inner.value .config).or (outer.value .config)
    command := l.command inner }

/-- help on a command; the commands themselves have none -/
def helpOn : List Text → Refusal
  | [] => .help
  | [topic] => if (commandWord? topic).isSome then .help else .invalidSubcommand
  | _ => .invalidSubcommand

def parse (args : List Text) : Except Refusal CommandLine := do
  let (outer, stop) ← scan .program {} args
  match stop with
  | none => return ofReading (← outer.settle) none
  | some (.render, rest) => parseCommand outer .render rest
  | some (.resolve, rest) => parseCommand outer .resolve rest
  | some (.help, rest) => .error (helpOn rest)

theorem scan_nil (l : Level) (r : Reading) : scan l r [] = .ok (r, none) := rfl

end CommandLine
end BranchRender
