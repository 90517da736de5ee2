import EventSchema.Settings

/-!
# Arguments

What a command line asks for. A command line that asks for nothing that can be run is answered by
help, by the version or by the reason why it is refused.
-/

set_option autoImplicit false

namespace EventSchema

/-- What is to be run. -/
inductive Invocation where
  | generate (request : Settings.Request)
  | init (force : Bool)
  | validate (schemas : Option String)
  | watch (request : Settings.Request)
  | completion (shell : String)
deriving DecidableEq, Repr

/-- Why nothing is run. -/
inductive Usage where
  | help
  | version
  | helpForMissingCommand
  | missingCommand
  | unknownCommand
  | unknownArgument
  | missingValue
  | unexpectedValue
  | missingArgument
  | repeatedArgument
deriving DecidableEq, Repr

/-- Only what was asked for counts as success. -/
def Usage.exitCode : Usage → Nat
  | help | version => 0
  | _ => 2

structure CommandLine where
  invocation : Invocation
  /-- How often more logging was asked for. -/
  verbosity : Nat
deriving DecidableEq, Repr

namespace CommandLine

inductive Command where
  | generate
  | init
  | validate
  | watch
  | completion
deriving DecidableEq, Repr

def Command.ofName? : String → Option Command
  | "generate" => some .generate
  | "init" => some .init
  | "validate" => some .validate
  | "watch" => some .watch
  | "completion" => some .completion
  | _ => none

/-- What an option is: one with a value, or a flag. -/
inductive Switch where
  | schemas
  | output
  | className
  | mode
  | language
  | force
  | verbose
  | help
  | version
deriving DecidableEq, Repr

namespace Switch

def takesValue : Switch → Bool
  | schemas | output | className | mode | language => true
  | force | verbose | help | version => false

def ofLong? : String → Option Switch
  | "schemas" => some schemas
  | "output" => some output
  | "class-name" => some className
  | "mode" => some mode
  | "lang" => some language
  | "force" => some force
  | "verbose" => some verbose
  | "help" => some help
  | "version" => some version
  | _ => none

def ofShort? : Char → Option Switch
  | 's' => some schemas
  | 'o' => some output
  | 'c' => some className
  | 'm' => some mode
  | 'l' => some language
  | 'v' => some verbose
  | 'h' => some help
  | 'V' => some version
  | _ => none

/-- Whether a command knows the option; in front of the command, none is given. -/
def isKnown (switch : Switch) (command : Option Command) : Bool :=
  match switch, command with
  | verbose, _ | help, _ | version, none => true
  | schemas, some .validate | force, some .init => true
  | schemas, some .generate | output, some .generate | className, some .generate => true
  | mode, some .generate | language, some .generate => true
  | schemas, some .watch | output, some .watch | className, some .watch => true
  | mode, some .watch | language, some .watch => true
  | _, _ => false

end Switch

/-- What has been read of a command's arguments. -/
structure Reading where
  command : Option Command := none
  values : List (Switch × String) := []
  flags : List Switch := []
  positional : Option String := none
  /-- How often the verbosity was raised since the command. -/
  verbosity : Nat := 0
  /-- An option that still has to be settled, with its value if that has been read. -/
  pending : Option (Switch × Option String) := none
deriving DecidableEq, Repr

namespace Reading

def putValue (r : Reading) (switch : Switch) (value : String) : Except Usage Reading :=
  if (r.values.lookup switch).isSome then .error .repeatedArgument
  else .ok { r with values := (switch, value) :: r.values }

/-- Settles the pending option. -/
def settle (r : Reading) : Except Usage Reading :=
  match r.pending with
  | none => .ok r
  | some (_, none) => .error .missingValue
  | some (switch, some value) => { r with pending := none }.putValue switch value

def known? (r : Reading) (switch : Option Switch) : Except Usage Switch :=
  match switch with
  | some switch => if switch.isKnown r.command then .ok switch else .error .unknownArgument
  | none => .error .unknownArgument

def raiseFlag (r : Reading) (switch : Switch) : Except Usage Reading := do
  let r ← r.settle
  match switch with
  | .help => .error .help
  | .version => .error .version
  | .verbose => .ok { r with verbosity := r.verbosity + 1 }
  | switch =>
    if r.flags.contains switch then .error .repeatedArgument
    else .ok { r with flags := switch :: r.flags }

/-- An option with the value that is attached to it, or without one. -/
def takeOption (r : Reading) (switch : Switch) (attached : Option String) :
    Except Usage Reading := do
  match attached with
  | some value => (← r.settle).putValue switch value
  | none => return { ← r.settle with pending := some (switch, none) }

/-- Reads a cluster of short options. One that takes a value takes the rest of the cluster. -/
def readShort (r : Reading) : List Char → Except Usage Reading
  | [] => .ok r
  | c :: rest => do
    let switch ← r.known? (Switch.ofShort? c)
    if switch.takesValue then
      match rest with
      | [] => r.takeOption switch none
      | '=' :: value => r.takeOption switch (some (String.ofList value))
      | value => r.takeOption switch (some (String.ofList value))
    else readShort (← r.raiseFlag switch) rest

def readLong (r : Reading) (text : List Char) : Except Usage Reading := do
  let (name, attached) := match Text.splitOnce '=' text with
    | some (name, value) => (name, some (String.ofList value))
    | none => (text, none)
  let switch ← r.known? (Switch.ofLong? (String.ofList name))
  if switch.takesValue then r.takeOption switch attached
  else if attached.isSome then .error .unexpectedValue
  else r.raiseFlag switch

/-- Only the completion command takes an argument that is no option, and only one. -/
def readPositional (r : Reading) (text : String) : Except Usage Reading :=
  match r.command, r.positional with
  | some .completion, none => do return { ← r.settle with positional := some text }
  | _, _ => .error .unknownArgument

/-- Whether an option waits for its value. -/
def waits (r : Reading) : Bool :=
  match r.pending with
  | some (_, none) => true
  | _ => false

/-- Reads an argument of a command. -/
def readArgument (r : Reading) (text : String) : Except Usage Reading :=
  match text.toList with
  | '-' :: '-' :: long => r.readLong long
  | '-' :: c :: short => r.readShort (c :: short)
  | _ =>
    match r.pending with
    | some (switch, none) => .ok { r with pending := some (switch, some text) }
    | _ => r.readPositional text

/-- Reads the arguments of a command. Behind two dashes there are no options. -/
def readAll (r : Reading) : List String → Except Usage Reading
  | [] => r.settle
  | "--" :: rest => do
    let r ← rest.foldlM readPositional r
    r.settle
  | text :: rest => do
    let r ← r.readArgument text
    r.readAll rest

def value? (r : Reading) (switch : Switch) : Option String := r.values.lookup switch

def request (r : Reading) : Settings.Request where
  schemas := r.value? .schemas
  output := r.value? .output
  className := r.value? .className
  mode := r.value? .mode
  language := r.value? .language

def invocation (r : Reading) : Except Usage Invocation :=
  match r.command with
  | none => .error .missingCommand
  | some .generate => .ok (.generate r.request)
  | some .init => .ok (.init (r.flags.contains .force))
  | some .validate => .ok (.validate (r.value? .schemas))
  | some .watch => .ok (.watch r.request)
  | some .completion =>
    match r.positional with
    | some shell => .ok (.completion shell)
    | none => .error .missingArgument

end Reading

/-- The verbosity is kept in a byte. -/
def verbosityLimit : Nat := 255

/-- Reads a command and its arguments. Verbosity asked for behind the command comes before that
asked for in front of it. -/
def readCommand (before : Reading) (command : Command) (arguments : List String) :
    Except Usage CommandLine := do
  let reading ← ({ command := some command } : Reading).readAll arguments
  let invocation ← reading.invocation
  let verbosity := if reading.verbosity = 0 then before.verbosity else reading.verbosity
  return ⟨invocation, min verbosity verbosityLimit⟩

/-- Help on a command: no command has commands of its own. -/
def helpOn : List String → Usage
  | [] => .help
  | [name] => if name = "help" || (Command.ofName? name).isSome then .help else .unknownCommand
  | _ => .unknownCommand

/-- Reads the arguments in front of the command, and the command. -/
def readFrom (r : Reading) : List String → Except Usage CommandLine
  | [] => .error (if r.verbosity = 0 then .helpForMissingCommand else .missingCommand)
  | "--" :: [] => .error (if r.verbosity = 0 then .helpForMissingCommand else .missingCommand)
  | "--" :: name :: _ =>
    .error (if name = "help" || (Command.ofName? name).isSome then .unknownArgument
      else .unknownCommand)
  | text :: rest =>
    match Command.ofName? text with
    | some command => readCommand r command rest
    | none =>
      if text = "help" then .error (helpOn rest)
      else match text.toList with
        | '-' :: '-' :: long => do readFrom (← r.readLong long) rest
        | '-' :: c :: short => do readFrom (← r.readShort (c :: short)) rest
        | _ => .error .unknownCommand

def parse (arguments : List String) : Except Usage CommandLine := readFrom {} arguments

end CommandLine

end EventSchema
