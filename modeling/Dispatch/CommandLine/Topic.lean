/-!
The commands of the program and their options, with the words that a help text says on them. An
option is accepted by a command exactly where the command's help text lists it.
-/

namespace Dispatch

/-- What a help text is about: the program as a whole, or one of its commands. -/
inductive Topic where
  | program
  | parse
  | ground
  | simulate
  | help
deriving DecidableEq

inductive CommandOption where
  | verbose
  | help
  | version
  | tree
  | entity
  | id
  | maxSteps
  | stepsPerBatch
  | keepGoing
deriving DecidableEq

namespace CommandOption

def long : CommandOption → String
  | .verbose => "verbose"
  | .help => "help"
  | .version => "version"
  | .tree => "ast"
  | .entity => "entity"
  | .id => "id"
  | .maxSteps => "max-steps"
  | .stepsPerBatch => "steps-per-iteration"
  | .keepGoing => "no-stop-when-idle"

def short? : CommandOption → Option Char
  | .verbose => some 'v'
  | .help => some 'h'
  | .version => some 'V'
  | .entity => some 'e'
  | .id => some 'i'
  | _ => none

/-- The name of the value that belongs to the option. -/
def valueName? : CommandOption → Option String
  | .entity => some "ENTITY"
  | .id => some "ID"
  | .maxSteps => some "MAX_STEPS"
  | .stepsPerBatch => some "STEPS_PER_ITERATION"
  | _ => none

/-- Whether a value belongs to the option. -/
def hasValue (option : CommandOption) : Bool := option.valueName?.isSome

/-- The number that counts where the option is not given. -/
def default? : CommandOption → Option Nat
  | .maxSteps => some 100
  | .stepsPerBatch => some 0
  | _ => none

def about : CommandOption → String
  | .verbose => "Show debug logging"
  | .help => "Print help"
  | .version => "Print version"
  | .tree => "Dump the full syntax tree"
  | .entity => "Only ground for this entity type"
  | .id => "Only ground for this instance id"
  | .maxSteps => "Maximum steps to run (0 = unlimited)"
  | .stepsPerBatch => "Load the next iteration batch every N steps (0 = when idle)"
  | .keepGoing => "Keep stepping after every actor goes idle"

end CommandOption

namespace Topic

/-- The name of the program or of the command. -/
def name : Topic → String
  | .program => "carri"
  | .parse => "parse"
  | .ground => "ground"
  | .simulate => "simulate"
  | .help => "help"

/-- The commands, in the order of the help text. -/
def commands : List Topic := [.parse, .ground, .simulate, .help]

def command? (name : String) : Option Topic := commands.find? (·.name = name)

/-- What the program or the command does. -/
def about : Topic → String
  | .program => "CARRI logistics domain loader and simulator"
  | .parse => "Parse a domain (and optionally a problem) and show its declarations"
  | .ground => "List the grounded actions of every actor in the initial state"
  | .simulate => "Run the simulator with the first-legal-action policy"
  | .help => "Print this message or the help of the given subcommand(s)"

/-- The options that are accepted, in the order of the help text. -/
def options : Topic → List CommandOption
  | .program => [.verbose, .help, .version]
  | .parse => [.tree, .verbose, .help]
  | .ground => [.entity, .verbose, .id, .help]
  | .simulate => [.maxSteps, .verbose, .stepsPerBatch, .keepGoing, .help]
  | .help => []

end Topic

end Dispatch
