import SocksChain.Settings.Json

/-!
The command line: a file of settings, a place to listen and a verbosity that overrule it, each at
most once. An option's value follows it, or is written onto it. Words are read from left to right
and the first mistake counts, but a value is looked at only when the next option begins.
-/

namespace SocksChain

/-- Why the program does not start. Asking for help is no mistake, but ends the reading too. -/
inductive UsageError where
  | help
  | version
  | unknownWord
  | noValue
  | needlessValue
  | unknownVerbosity
  | repeated
deriving DecidableEq

structure CommandLine where
  config : Option String := none
  listen : Option String := none
  verbosity : Option Verbosity := none
deriving DecidableEq

namespace UsageError

def exitCode : UsageError → UInt32
  | help | version => 0
  | _ => 2

def message : UsageError → String
  | help =>
    "usage: [-c|--config PATH] [-l|--listen HOST:PORT] [--log-level LEVEL] [-h|--help] [-V|--version]"
  | version => "0.1.0"
  | unknownWord => "unexpected argument"
  | noValue => "a value is required"
  | needlessValue => "unexpected value"
  | unknownVerbosity => "invalid log level"
  | repeated => "an option is given twice"

end UsageError

namespace CommandLine

/-- An option that takes a value. -/
inductive Slot where
  | config
  | listen
  | verbosity
deriving DecidableEq

/-- What a word that starts with a hyphen asks for. -/
inductive Request where
  | slot (s : Slot) (attached : Option String)
  | stop (e : UsageError)
deriving DecidableEq

/-- What has been read so far. -/
structure Progress where
  line : CommandLine := {}
  /-- An option whose value has not been looked at yet. -/
  waiting : Option (Slot × Option String) := none
  /-- Whether options may still follow. -/
  options : Bool := true
deriving DecidableEq

def Slot.isFilled (l : CommandLine) : Slot → Bool
  | config => l.config.isSome
  | listen => l.listen.isSome
  | verbosity => l.verbosity.isSome

/-- The name of a file may not be empty; a place to listen is looked at later. -/
def fill (l : CommandLine) (s : Slot) (value : String) : Except UsageError CommandLine :=
  if s.isFilled l then .error .repeated
  else
    match s with
    | .config => if value.isEmpty then .error .noValue else .ok { l with config := some value }
    | .listen => .ok { l with listen := some value }
    | .verbosity =>
      match Verbosity.ofText value with
      | .ok v => .ok { l with verbosity := some v }
      | .error _ => .error .unknownVerbosity

/-- The text before the first `=` and the text after it. -/
def splitValue : List Char → List Char × Option String
  | [] => ([], none)
  | '=' :: rest => ([], some (String.ofList rest))
  | c :: rest => (c :: (splitValue rest).1, (splitValue rest).2)

def longSlot? (name : String) : Option Slot :=
  if name = "config" then some .config
  else if name = "listen" then some .listen
  else if name = "log-level" then some .verbosity
  else none

def longRequest (word : List Char) : Request :=
  let (name, value) := splitValue word
  let name := String.ofList name
  match longSlot? name with
  | some s => .slot s value
  | none =>
    if name = "help" then .stop (if value.isSome then .needlessValue else .help)
    else if name = "version" then .stop (if value.isSome then .needlessValue else .version)
    else .stop .unknownWord

def attached? : List Char → Option String
  | [] => none
  | '=' :: rest => some (String.ofList rest)
  | rest => some (String.ofList rest)

def shortRequest (c : Char) (rest : List Char) : Request :=
  match c with
  | 'c' => .slot .config (attached? rest)
  | 'l' => .slot .listen (attached? rest)
  | 'h' => .stop .help
  | 'V' => .stop .version
  | _ => .stop .unknownWord

/-- What a word asks for, unless it is a value. -/
def request? (word : String) : Option Request :=
  match word.toList with
  | '-' :: '-' :: rest => some (longRequest rest)
  | '-' :: c :: rest => some (shortRequest c rest)
  | _ => none

namespace Progress

/-- Looks at the value that waits. -/
def resolve (p : Progress) : Except UsageError CommandLine :=
  match p.waiting with
  | none => .ok p.line
  | some (_, none) => .error .noValue
  | some (s, some value) => p.line.fill s value

/-- A word that nobody knows is reported before the value that waits is looked at. -/
def next (p : Progress) (word : String) : Except UsageError Progress :=
  if !p.options then .error .unknownWord
  else if word = "--" then .ok { p with options := false }
  else
    match request? word with
    | some (.stop .unknownWord) => .error .unknownWord
    | some (.stop .needlessValue) => .error .needlessValue
    | some (.stop e) => p.resolve.bind fun _ => .error e
    | some (.slot s (some value)) => do
      let line ← (← p.resolve).fill s value
      return { line }
    | some (.slot s none) => p.resolve.map fun line => { line, waiting := some (s, none) }
    | none =>
      match p.waiting with
      | some (s, none) => .ok { p with waiting := some (s, some word) }
      | _ => .error .unknownWord

end Progress

def parse (words : List String) : Except UsageError CommandLine := do
  (← words.foldlM Progress.next {}).resolve

/-- The settings that a command line asks for, where `file` is what its file of settings holds. -/
def settings (l : CommandLine) (file : Option Bytes) : Except Failure Settings := do
  let s ← if l.config.isSome then Settings.ofFile file else .ok {}
  let s ← l.listen.elim (.ok s) s.listenAt
  return { s with verbosity := l.verbosity.getD s.verbosity }

end CommandLine

end SocksChain
