namespace CrossRef.Command

inductive Format
  | html
  | tree
  deriving DecidableEq, Repr

inductive Query
  | render (artifact path : String) (format : Format)
  | references (binding : String)
  | status (artifact : String)
  deriving DecidableEq, Repr

inductive Action
  | ingest (dump : String) (force : Bool)
  | ask (query : Query)
  deriving DecidableEq, Repr

def Action.name : Action → String
  | .ingest .. => "ingest"
  | .ask (.render ..) => "render"
  | .ask (.references ..) => "refs"
  | .ask (.status ..) => "status"

structure Invocation where
  verbose : Bool
  quiet : Bool
  json : Bool
  config : Option String
  database : Option String
  action : Action
  deriving DecidableEq, Repr

/-- Where an argument stands: before the command, or behind the one that is named. Options of the
program may stand in both places, those of a command only behind it. -/
inductive Level
  | program
  | ingest
  | render
  | refs
  | status
  deriving DecidableEq, Repr

def Level.ofName? : String → Option Level
  | "ingest" => some .ingest
  | "render" => some .render
  | "refs" => some .refs
  | "status" => some .status
  | _ => none

inductive Topic
  | level (level : Level)
  | help
  deriving DecidableEq, Repr

def Topic.ofName? (name : String) : Option Topic :=
  if name = "help" then some .help else (Level.ofName? name).map .level

def Level.arity : Level → Nat
  | .program => 0
  | .render => 2
  | .ingest | .refs | .status => 1

/-- Options and operands of one level; operands are newest first. -/
structure Options where
  verbose : Bool := false
  quiet : Bool := false
  json : Bool := false
  config : Option String := none
  database : Option String := none
  force : Bool := false
  format : Option Format := none
  operands : List String := []
  deriving DecidableEq, Repr

/-- An option is on, has a value, or asks for a text instead of an action. -/
inductive OptionKind
  | flag
  | valued
  | version
  | help
  deriving DecidableEq, Repr

def optionKind? (level : Level) : String → Option OptionKind
  | "verbose" => some .flag
  | "quiet" => some .flag
  | "json" => some .flag
  | "config" => some .valued
  | "db" => some .valued
  | "help" => some .help
  | "version" => if level = .program then some .version else none
  | "force" => if level = .ingest then some .flag else none
  | "format" => if level = .render then some .valued else none
  | _ => none

def longName? : Char → Option String
  | 'v' => some "verbose"
  | 'q' => some "quiet"
  | 'h' => some "help"
  | 'V' => some "version"
  | _ => none

namespace Options

def setFlag (name : String) (o : Options) : Option Options :=
  match name with
  | "verbose" => if o.verbose then none else some { o with verbose := true }
  | "quiet" => if o.quiet then none else some { o with quiet := true }
  | "json" => if o.json then none else some { o with json := true }
  | "force" => if o.force then none else some { o with force := true }
  | _ => none

def format? : String → Option Format
  | "html" => some .html
  | "tree" => some .tree
  | _ => none

/-- Sets an option with a value, which may be given once at a level; a file has a name. -/
def setValue (name value : String) (o : Options) : Option Options :=
  match name with
  | "config" =>
    if o.config.isSome ∨ value = "" then none else some { o with config := some value }
  | "db" =>
    if o.database.isSome ∨ value = "" then none else some { o with database := some value }
  | "format" =>
    if o.format.isSome then none else (format? value).map fun f => { o with format := some f }
  | _ => none

/-- Takes one operand more, as far as the level has room for it; a dump has a name. -/
def addOperand (level : Level) (arg : String) (o : Options) : Option Options :=
  if level.arity ≤ o.operands.length ∨ (level = .ingest ∧ arg = "") then none
  else some { o with operands := arg :: o.operands }

def arguments (o : Options) : List String := o.operands.reverse

end Options

/-- What became of the arguments of a level: they are wrong, they ask for a text, they are all read,
or they end in the name of a command. Before a command there may be no options that make sense. -/
inductive Reading
  | wrong
  | version
  | help (topic : Topic) (long : Bool)
  | complete (o : Options)
  | command (level : Level) (o : Option Options) (rest : List String)

inductive Argument
  | separator
  | long (name : String) (value : Option String)
  | short (names : List Char)
  | operand

/-- A single minus is an operand. -/
def Argument.ofString (arg : String) : Argument :=
  match arg.toList with
  | ['-', '-'] => .separator
  | '-' :: '-' :: rest =>
    let name := String.ofList (rest.takeWhile (· ≠ '='))
    match rest.dropWhile (· ≠ '=') with
    | [] => .long name none
    | _ :: value => .long name (some (String.ofList value))
  | '-' :: c :: rest => .short (c :: rest)
  | _ => .operand

/-- Short names in one argument are read like long ones, one after the other. -/
def readShort (level : Level) : List Char → Options → Reading
  | [], o => .complete o
  | c :: rest, o =>
    match longName? c with
    | none => .wrong
    | some name =>
      match optionKind? level name with
      | some .flag =>
        match o.setFlag name with
        | some o => readShort level rest o
        | none => .wrong
      | some .version => .version
      | some .help => .help (.level level) false
      | _ => .wrong

/-- The command `help` and the name behind it, if there is one. -/
def readHelp : List String → Reading
  | [] => .help (.level .program) true
  | [name] =>
    match Topic.ofName? name with
    | some topic => .help topic true
    | none => .wrong
  | _ => .wrong

/-- Reads on where a command may stand, behind options that may make no sense. -/
def readCommand (o : Option Options) (name : String) (rest : List String) : Reading :=
  match Level.ofName? name with
  | some level => .command level o rest
  | none => if name = "help" then readHelp rest else .wrong

/-- Reads the arguments of a level from left to right; the first thing wrong decides. A value in an
argument of its own is looked at only when an option or nothing follows, so that a command behind it
is read first. -/
def readLevel (level : Level) : List String → Options → Reading
  | [], o => .complete o
  | arg :: rest, o =>
    match Argument.ofString arg with
    | .separator =>
      match rest.foldlM (fun o arg => o.addOperand level arg) o with
      | some o => .complete o
      | none => .wrong
    | .long name value =>
      match optionKind? level name, value with
      | some .flag, none =>
        match o.setFlag name with
        | some o => readLevel level rest o
        | none => .wrong
      | some .version, none => .version
      | some .help, none => .help (.level level) true
      | some .valued, some value =>
        match o.setValue name value with
        | some o => readLevel level rest o
        | none => .wrong
      | some .valued, none =>
        match rest with
        | [] => .wrong
        | value :: rest =>
          if value.toList.head? = some '-' ∧ value ≠ "-" then .wrong
          else match o.setValue name value, rest with
            | some o, rest => readLevel level rest o
            | none, next :: rest => if level = .program then readCommand none next rest else .wrong
            | none, [] => .wrong
      | _, _ => .wrong
    | .short names =>
      match readShort level names o with
      | .complete o => readLevel level rest o
      | reading => reading
    | .operand =>
      if level = .program then readCommand (some o) arg rest
      else match o.addOperand level arg with
        | some o => readLevel level rest o
        | none => .wrong

/-- The action that the options behind a command describe, if its operands are all there. -/
def action? (level : Level) (o : Options) : Option Action :=
  match level, o.arguments with
  | .ingest, [dump] => some (.ingest dump o.force)
  | .render, [artifact, path] => some (.ask (.render artifact path (o.format.getD .html)))
  | .refs, [binding] => some (.ask (.references binding))
  | .status, [artifact] => some (.ask (.status artifact))
  | _, _ => none

inductive Request
  | usage
  | version
  | help (topic : Topic) (long : Bool)
  | invoke (i : Invocation)
  deriving DecidableEq, Repr

/-- Of an option with a value given on both sides of the command, the one behind it counts. -/
def Request.ofArguments (args : List String) : Request :=
  match readLevel .program args {} with
  | .version => .version
  | .help topic long => .help topic long
  | .command level outer rest =>
    match readLevel level rest {} with
    | .complete inner =>
      match outer, action? level inner with
      | some outer, some action => .invoke {
          verbose := outer.verbose || inner.verbose
          quiet := outer.quiet || inner.quiet
          json := outer.json || inner.json
          config := inner.config.orElse fun _ => outer.config
          database := inner.database.orElse fun _ => outer.database
          action := action }
      | _, _ => .usage
    | .help topic long => .help topic long
    | _ => .usage
  | _ => .usage

end CrossRef.Command
