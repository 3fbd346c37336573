import Dispatch.CommandLine.Arguments
import Dispatch.Text.Joined

/-!
Help texts: what the program or a command does, how it is called, and tables of its commands,
arguments and options. Also what is printed where the arguments name no command.
-/

namespace Dispatch

/-- A row of a help text: a title, and what it stands for. -/
structure HelpRow where
  title : String
  text : String

namespace HelpRow

def width (rows : List HelpRow) : Nat := rows.foldr (fun row width => max row.title.length width) 0

/-- Whether every text goes below its title: wide titles leave a text too little room beside them in
a hundred columns.
-/
def isStacked (rows : List HelpRow) : Bool :=
  let taken := width rows + 12
  40 < taken && rows.any fun row => 100 < taken + row.text.length

def lines (rows : List HelpRow) : List String :=
  if isStacked rows then rows.flatMap fun row => ["  " ++ row.title, "          " ++ row.text]
  else rows.map fun row =>
    "  " ++ row.title.pushn ' ' (width rows - row.title.length) ++ "  " ++ row.text

/-- A table under its heading, after an empty line; a table without rows is left out. -/
def table (heading : String) (rows : List HelpRow) : List String :=
  if rows.isEmpty then [] else "" :: (heading ++ ":") :: lines rows

end HelpRow

/-- The row of an option: its letter, its name and the name of its value; its default follows the
text.
-/
def CommandOption.row (option : CommandOption) : HelpRow where
  title :=
    (match option.short? with
      | some letter => "-" ++ String.singleton letter ++ ", "
      | none => "    ")
      ++ "--" ++ option.long
      ++ (match option.valueName? with
        | some value => " <" ++ value ++ ">"
        | none => "")
  text :=
    match option.default? with
    | some value => option.about ++ " [default: " ++ toString value ++ "]"
    | none => option.about

namespace Topic

/-- The rows of the arguments. An argument in angle brackets has to be given. -/
def arguments : Topic → List HelpRow
  | .program => []
  | .parse =>
      [⟨"<DOMAIN>", "Domain file"⟩, ⟨"[PROBLEM]", "Problem file, checked against the domain"⟩]
  | .ground | .simulate => [⟨"<DOMAIN>", "Domain file"⟩, ⟨"<PROBLEM>", "Problem file"⟩]
  | .help => [⟨"[COMMAND]...", "Print help for the subcommand(s)"⟩]

def call (topic : Topic) : List String :=
  program.name
    :: (if topic = .program then [] else [topic.name])
    ++ (if topic.options.isEmpty then [] else ["[OPTIONS]"])
    ++ (if topic = .program then ["<COMMAND>"] else topic.arguments.map (·.title))

def helpLines (topic : Topic) : List String :=
  let commands := if topic = .program then commands else []
  [topic.about, "", "Usage: " ++ joined " " topic.call]
    ++ HelpRow.table "Commands" (commands.map fun command => ⟨command.name, command.about⟩)
    ++ HelpRow.table "Arguments" topic.arguments
    ++ HelpRow.table "Options" (topic.options.map (·.row))

end Topic

namespace NoCommand

/-- What is printed in place of a report. -/
def lines : NoCommand → List String
  | .help topic => topic.helpLines
  | .version => [Topic.program.name ++ " 0.1.0"]
  | .wrong => []

def status : NoCommand → Nat
  | .help _ | .version => 0
  | .wrong => 2

end NoCommand

end Dispatch
