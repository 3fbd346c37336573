import Dispatch.Bounds
import Dispatch.CommandLine.Topic

/-!
The arguments of the program: a command, its files and its options. Options stand anywhere after
the command, with their value attached or as the next argument, each at most once.
-/

namespace Dispatch

/-- What the program is asked to do. -/
inductive Command where
  /-- Load a domain, and a problem where one is given, and show what they declare. -/
  | parse (domain : String) (problem? : Option String)
  /-- Show the legal actions of the actors, of one entity type or with one id where given. -/
  | ground (domain problem : String) (entity? : Option String) (id? : Option Int)
  /-- Run a simulation. -/
  | simulate (domain problem : String) (maxSteps stepsPerBatch : Nat) (stopWhenIdle : Bool)
deriving DecidableEq

/-- Why the arguments name no command to carry out. -/
inductive NoCommand where
  /-- They ask for the help text of a topic. -/
  | help (topic : Topic)
  /-- They ask for the version of the program. -/
  | version
  | wrong
deriving DecidableEq

/-- The number that an optional sign and decimal digits denote. -/
def signedNumber? (text : String) : Option Int :=
  let (negative, digits) :=
    match text.toList with
    | '-' :: digits => (true, digits)
    | '+' :: digits => (false, digits)
    | digits => (false, digits)
  if digits = [] || !digits.all Char.isDigit then none
  else
    let value : Nat := digits.foldl (fun value digit => 10 * value + (digit.toNat - 48)) 0
    let number : Int := if negative then -value else value
    if inBounds number then some number else none

/-- The count that decimal digits denote, which may follow a plus sign. -/
def count? (text : String) : Option Nat :=
  let digits :=
    match text.toList with
    | '+' :: digits => digits
    | digits => digits
  if digits = [] || !digits.all Char.isDigit then none
  else
    let value := digits.foldl (fun value digit => 10 * value + (digit.toNat - 48)) 0
    if value < 18446744073709551616 then some value else none

/-- Whether the text is a value of the option. -/
def CommandOption.accepts (option : CommandOption) (value : String) : Bool :=
  match option with
  | .id => (signedNumber? value).isSome
  | .maxSteps | .stepsPerBatch => (count? value).isSome
  | _ => true

/-- The arguments of a command as far as they were read. -/
structure Arguments where
  files : List String
  options : List (CommandOption × String)

namespace Arguments

def value? (arguments : Arguments) (option : CommandOption) : Option String :=
  (arguments.options.find? (·.1 = option)).map (·.2)

/-- The count that an option gives, or that counts without it. -/
def count (arguments : Arguments) (option : CommandOption) : Nat :=
  (((arguments.value? option).bind count?).or option.default?).getD 0

/-- The arguments with one more file, of which there are at most two. -/
def addFile (arguments : Arguments) (file : String) : Except NoCommand Arguments :=
  if file = "" || 2 ≤ arguments.files.length then .error .wrong
  else .ok { arguments with files := arguments.files ++ [file] }

/-- The arguments with one more option, which is given at most once. An option that asks for
information ends the reading.
-/
def addOption (topic : Topic) (arguments : Arguments) (option : CommandOption) (value : String)
    : Except NoCommand Arguments :=
  match option with
  | .help => .error (.help topic)
  | .version => .error .version
  | _ =>
      if (arguments.value? option).isSome || !option.accepts value then .error .wrong
      else .ok { arguments with options := arguments.options ++ [(option, value)] }

def addFiles (arguments : Arguments) : List String → Except NoCommand Arguments
  | [] => .ok arguments
  | file :: rest => do
      let arguments ← arguments.addFile file
      arguments.addFiles rest

/-- Whether an argument is an option and not a file or a value. -/
def isOption (argument : String) : Bool := argument.startsWith "-" && argument ≠ "-"

/-- The arguments with the options that letters after one dash name, and the option whose value is
the next argument, if any.
-/
def addLetters (topic : Topic) (arguments : Arguments)
    : List Char → Except NoCommand (Arguments × Option CommandOption)
  | [] => .ok (arguments, none)
  | letter :: rest =>
      match topic.options.find? (·.short? = some letter) with
      | none => .error .wrong
      | some option =>
          if option.hasValue then
            match rest with
            | [] => .ok (arguments, some option)
            | '=' :: value => do
                return (← arguments.addOption topic option (String.ofList value), none)
            | value => do
                return (← arguments.addOption topic option (String.ofList value), none)
          else do
            let arguments ← arguments.addOption topic option ""
            addLetters topic arguments rest

/-- The arguments with the option that a word after two dashes names, and the option whose value is
the next argument, if any.
-/
def addWord (topic : Topic) (arguments : Arguments) (word : List Char)
    : Except NoCommand (Arguments × Option CommandOption) :=
  let name := String.ofList (word.takeWhile (· ≠ '='))
  match topic.options.find? (·.long = name), word.dropWhile (· ≠ '=') with
  | none, _ => .error .wrong
  | some option, [] =>
      if option.hasValue then .ok (arguments, some option)
      else do return (← arguments.addOption topic option "", none)
  | some option, _ :: value =>
      if option.hasValue then do
        return (← arguments.addOption topic option (String.ofList value), none)
      else .error .wrong

/-- Reads arguments; `waiting` is the option whose value comes next. -/
def read (topic : Topic) (arguments : Arguments)
    : Option CommandOption → List String → Except NoCommand Arguments
  | none, [] => .ok arguments
  | some _, [] => .error .wrong
  | some option, argument :: rest => do
      if isOption argument then throw .wrong
      let arguments ← arguments.addOption topic option argument
      read topic arguments none rest
  | none, argument :: rest =>
      match argument.toList with
      | ['-', '-'] => arguments.addFiles rest
      | '-' :: '-' :: word => do
          let (arguments, waiting) ← addWord topic arguments word
          read topic arguments waiting rest
      | '-' :: letter :: letters => do
          let (arguments, waiting) ← addLetters topic arguments (letter :: letters)
          read topic arguments waiting rest
      | _ => do
          let arguments ← arguments.addFile argument
          read topic arguments none rest

end Arguments

namespace Command

/-- The command of a topic with the given arguments; absent where there are too few files. -/
def ofTopic? (arguments : Arguments) : Topic → Option Command
  | .parse =>
      match arguments.files with
      | [domain] => some (.parse domain none)
      | [domain, problem] => some (.parse domain (some problem))
      | _ => none
  | .ground =>
      match arguments.files with
      | [domain, problem] =>
          some (.ground domain problem (arguments.value? .entity)
            ((arguments.value? .id).bind signedNumber?))
      | _ => none
  | .simulate =>
      match arguments.files with
      | [domain, problem] =>
          some (.simulate domain problem (arguments.count .maxSteps)
            (arguments.count .stepsPerBatch) (arguments.value? .keepGoing).isNone)
      | _ => none
  | .program | .help => none

/-- What the arguments after `help` ask for: the help text of the command that they name, or of the
program where there are none. No command has commands of its own.
-/
def helpOn : List String → NoCommand
  | [] => .help .program
  | [name] =>
      match Topic.command? name with
      | some topic => .help topic
      | none => .wrong
  | _ => .wrong

/-- The command with the given name and the arguments after it. -/
def ofArguments (name : String) (rest : List String) : Except NoCommand Command :=
  match Topic.command? name with
  | none => .error .wrong
  | some .help => .error (helpOn rest)
  | some topic => do
      let arguments ← Arguments.read topic ⟨[], []⟩ none rest
      match ofTopic? arguments topic with
      | some command => return command
      | none => throw .wrong

/-- Reads the arguments before the command, given those options among them. -/
def readFrom (before : Arguments) : List String → Except NoCommand Command
  | [] => .error .wrong
  | argument :: rest =>
      match argument.toList with
      | ['-', '-'] => .error .wrong
      | '-' :: '-' :: word => do
          let (before, _) ← Arguments.addWord .program before word
          readFrom before rest
      | '-' :: letter :: letters => do
          let (before, _) ←
            Arguments.addLetters .program before (letter :: letters)
          readFrom before rest
      | _ => ofArguments argument rest

/-- The command that the arguments of the program name. -/
def read (arguments : List String) : Except NoCommand Command :=
  readFrom ⟨[], []⟩ arguments

end Command

end Dispatch
