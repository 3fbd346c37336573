import Dispatch.CommandLine.Arguments
import Dispatch.Domain.Parser
import Dispatch.Problem.Parser
import Dispatch.Schema.Build
import Dispatch.Simulation
import Dispatch.Update.Printer

/-!
What the program prints for a command, and how it ends. Lines that stand before an error are printed
all the same; an error of loading a document also has a place in its file.
-/

namespace Dispatch

inductive OutputLine where
  | text (text : String)
  /-- The time that the simulation took. -/
  | elapsed
deriving DecidableEq

/-- A place in a file that an error points at. -/
structure FilePlace where
  file : String
  line : Nat
  column : Nat
deriving DecidableEq

structure CommandError where
  message : String
  place? : Option FilePlace

/-- The lines that a command prints, and its error. -/
structure Report where
  lines : List OutputLine
  error? : Option CommandError

namespace Report

def status (report : Report) : Nat := if report.error?.isSome then 1 else 0

def success (lines : List String) : Report := ⟨lines.map .text, none⟩

/-- The report of a command that ended before it printed anything. -/
def failure (error : CommandError) : Report := ⟨[], some error⟩

def after (lines : List String) (report : Report) : Report :=
  { report with lines := lines.map .text ++ report.lines }

end Report

/-- The byte offset of a line and column of a text. A column beyond the line is its end without
blanks, and a line beyond the text is the end of the text.
-/
def byteOffset (source : List Char) (line column : Nat) : Nat :=
  let lines := Text.linesWithEnds source
  match line with
  | 0 => byteLength source
  | before + 1 =>
      match lines[before]? with
      | none => byteLength source
      | some text =>
          byteLength (lines.take before).flatten +
            if column - 1 < text.length then byteLength (text.take (column - 1))
            else byteLength (Text.trimEnd text)

/-- The position at a byte offset of a file that goes on from `here`. A carriage return without a
newline after it ends a line too.
-/
def Position.atOffset (here : Position) (offset : Nat) : List Char → Position
  | [] => here
  | c :: rest =>
      if offset ≤ here.offset then here
      else
        let next := here.advance c
        if c = '\r' && rest.head? ≠ some '\n' then
          Position.atOffset { next with line := here.line + 1, column := 1 } offset rest
        else Position.atOffset next offset rest

namespace CommandError

/-- The error of a document that cannot be loaded. -/
def ofLoad (file : String) (source : List Char) (error : LoadError) : CommandError :=
  let span := error.error.span
  let place := Position.atOffset ⟨0, 1, 1⟩ (byteOffset source span.line span.column) source
  ⟨error.part ++ ": " ++ error.error.message, some ⟨file, place.line, place.column⟩⟩

/-- The error of a problem that does not fit its domain. -/
def ofSchema (error : SchemaError) : CommandError :=
  ⟨"problem does not fit domain: " ++ error.message, none⟩

end CommandError

abbrev Files := String → Option String

namespace Files

def load {α : Type} (files : Files) (file : String)
    (read : List Char → Except LoadError α) : Except CommandError α :=
  match files file with
  | none => .error ⟨"failed to read " ++ file, none⟩
  | some source => (read source.toList).mapError (.ofLoad file source.toList)

/-- Loads a domain and a problem, and lays out the problem. -/
def loadBoth (files : Files) (domain problem : String)
    : Except CommandError (Domain × Schema) := do
  let domain ← files.load domain Domain.ofText
  let problem ← files.load problem Problem.ofText
  let schema ← (Schema.ofProblem domain problem).mapError .ofSchema
  return (domain, schema)

end Files

namespace Report

def entityLine (entity : EntityDecl) : String :=
  match entity.role with
  | some role => "  " ++ entity.name ++ " (" ++ role ++ ")"
  | none => "  " ++ entity.name

/-- A variable with its kind and its owner. -/
def variableLine (vocabulary : Vocabulary) (decl : VariableDecl) : String :=
  let owner :=
    match decl.owner with
    | some owner => " - " ++ vocabulary.entityName owner
    | none => ""
  "  " ++ (if decl.constant then "const" else "var") ++ " " ++ decl.name ++ " "
    ++ decl.kind.title ++ owner

/-- The items of an entity type with their fields. -/
def itemsLine (vocabulary : Vocabulary) (items : ItemsDecl) : String :=
  "items " ++ vocabulary.entityName items.entity ++ ": "
    ++ joined ", " (items.fields.map fun field => field.name ++ " " ++ field.kind.title)

def actionLines (vocabulary : Vocabulary) (action : ActionDecl) : List String :=
  let parameters := action.parameters.map fun parameter =>
    parameter.name ++ " - " ++ vocabulary.entityName parameter.entity
  ["action " ++ action.name ++ ": " ++ joined ", " parameters]
    ++ action.preconditions.map (fun condition => "  pre  " ++ condition.text)
    ++ action.conflicts.map (fun condition => "  conf " ++ condition.text)
    ++ (Update.linesOf vocabulary 0 action.effects).map ("  eff  " ++ ·)
    ++ (action.cost.lines vocabulary).map ("  cost " ++ ·)

def stepLines (vocabulary : Vocabulary) (label : String) (step : StepDecl) : List String :=
  (label ++ " step " ++ step.name)
    :: (Update.linesOf vocabulary 0 step.effects).map ("  eff  " ++ ·)

def domainLines (domain : Domain) : List String :=
  let vocabulary := domain.vocabulary
  ["entities"] ++ vocabulary.entities.map entityLine
    ++ ["variables"] ++ domain.declarations.map (variableLine vocabulary)
    ++ domain.items.map (itemsLine vocabulary)
    ++ domain.actions.flatMap (actionLines vocabulary)
    ++ domain.environment.flatMap (stepLines vocabulary "env")
    ++ domain.arrival.flatMap (stepLines vocabulary "iter")

def problemLines (file : String) (schema : Schema) : List String :=
  ["problem " ++ file]
    ++ schema.entities.zipIdx.map (fun (entity, index) =>
      "  " ++ entity.name ++ " x" ++ toString (schema.initial.idCount schema index))
    ++ ["  " ++ toString schema.batches.length ++ " iteration batches"]

/-- The report of the command that shows what documents declare. -/
def parse (files : Files) (domainFile : String) (problemFile? : Option String) : Report :=
  match files.load domainFile Domain.ofText with
  | .error error => failure error
  | .ok domain =>
      after (domainLines domain) <|
        match problemFile? with
        | none => success ["parse: ok"]
        | some file =>
            match files.load file Problem.ofText with
            | .error error => failure error
            | .ok problem =>
                match Schema.ofProblem domain problem with
                | .error error => failure (.ofSchema error)
                | .ok schema => success (problemLines file schema ++ ["parse: ok"])

/-- The legal actions of an actor with their costs. -/
def actorLines (simulation : Simulation) (state : State) (actor : Actor)
    (legal : List GroundAction) : List String :=
  let schema := simulation.schema
  let name := (schema.entities[actor.entity]?.map (·.name)).getD "?"
  (name ++ " " ++ toString actor.id ++ ": " ++ toString legal.length ++ " actions")
    :: legal.map fun action =>
      match action.cost schema simulation.roundLimit state with
      | .ok cost => "  " ++ action.text ++ " cost " ++ toString cost
      | .error failure => "  " ++ action.text ++ " cost error: " ++ action.failureMessage failure

/-- The configuration of a run without options. -/
def defaultConfig : RunConfig := ⟨100, 0, true⟩

/-- The report of the command that shows legal actions. -/
def ground (files : Files) (domainFile problemFile : String) (entity? : Option String)
    (id? : Option Int) : Report :=
  let result : Except CommandError (List String) := do
    let (domain, schema) ← files.loadBoth domainFile problemFile
    let entity? ← match entity? with
      | none => pure none
      | some name =>
          match schema.entity? name with
          | some entity => pure (some entity)
          | none => throw ⟨"unknown entity type '" ++ name ++ "'", none⟩
    let simulation := Simulation.ofDomain domain schema defaultConfig
    let state := schema.initial
    let actors := (simulation.actors state).filter fun actor =>
      entity?.all (· = actor.entity) && id?.all (· = actor.id)
    let legal := actors.map fun actor => (actor, simulation.legalActions state actor)
    let total := (legal.flatMap (·.2)).length
    return legal.flatMap (fun (actor, actions) => actorLines simulation state actor actions)
      ++ ["", "Grounded: " ++ toString total ++ " actions"]
  match result with
  | .ok lines => success lines
  | .error error => failure error

/-- The values of all variables and the numbers of items. -/
def stateLines (schema : Schema) (state : State) : List String :=
  let values := schema.mutables.zipIdx.map fun (layout, slot) =>
    "  " ++ layout.decl.name ++ " = ["
      ++ joined ", " (((state.mutables[slot]?).getD #[]).toList.map Value.text) ++ "]"
  let collections := schema.collections.zipIdx.map fun (layout, index) =>
    "  " ++ layout.name ++ " items: "
      ++ toString ((state.collections[index]?.map (·.ids.length)).getD 0)
  ["Final state:"] ++ values ++ collections

def summaryLines (summary : Summary) : List String :=
  ["", "Result: " ++ toString summary.steps ++ " steps",
    "  Actions applied: " ++ toString summary.actions,
    "  Actions rejected: " ++ toString summary.rejected,
    "  Iterations loaded: " ++ toString summary.batches,
    "  Total cost: " ++ toString summary.cost]

/-- The report of the command that runs a simulation. -/
def simulate (files : Files) (domainFile problemFile : String) (config : RunConfig) : Report :=
  match files.loadBoth domainFile problemFile with
  | .error error => failure error
  | .ok (domain, schema) =>
      let simulation := Simulation.ofDomain domain schema config
      match simulation.run .firstLegal () simulation.start with
      | (_, .error error) => failure ⟨"simulation error: " ++ error.message, none⟩
      | (progress, .ok summary) =>
          ⟨(summaryLines summary).map .text ++ [.elapsed]
            ++ ("" :: stateLines schema progress.state).map .text, none⟩

def ofCommand (files : Files) : Command → Report
  | .parse domain problem? => parse files domain problem?
  | .ground domain problem entity? id? => ground files domain problem entity? id?
  | .simulate domain problem maxSteps stepsPerBatch stopWhenIdle =>
      simulate files domain problem ⟨maxSteps, stepsPerBatch, stopWhenIdle⟩

end Report

end Dispatch
