import Dispatch.CommandLine.Help
import Dispatch.CommandLine.Report

/-!
The program: reads the files that a command names, prints its report and ends with its status.
-/

namespace Dispatch

def Command.files : Command → List String
  | .parse domain problem? => domain :: problem?.toList
  | .ground domain problem _ _ | .simulate domain problem _ _ _ => [domain, problem]

/-- The text of a file, if it can be read. -/
def readText? (file : String) : IO (Option String) := do
  try
    return some (← IO.FS.readFile file)
  catch _ => return none

/-- A time in milliseconds as seconds with two places. -/
def secondsText (milliseconds : Nat) : String :=
  let hundredths := milliseconds / 10
  let fraction := toString (hundredths % 100)
  toString (hundredths / 100) ++ "." ++ (if fraction.length = 1 then "0" else "") ++ fraction

/-- Prints a report whose computation began at a time. -/
def Report.print (report : Report) (began : Nat) : IO Unit := do
  for line in report.lines do
    match line with
    | .text text => IO.println text
    | .elapsed => IO.println ("  Time: " ++ secondsText ((← IO.monoMsNow) - began) ++ "s")
  match report.error? with
  | none => pure ()
  | some error =>
      match error.place? with
      | none => IO.eprintln error.message
      | some place =>
          IO.eprintln (place.file ++ ":" ++ toString place.line ++ ":" ++ toString place.column
            ++ ": " ++ error.message)

end Dispatch

open Dispatch in
/-- Carries out the command that the arguments name. -/
def main (arguments : List String) : IO UInt32 := do
  match Command.read arguments with
  | .error reason =>
      for line in reason.lines do
        IO.println line
      if reason = .wrong then IO.eprintln "wrong arguments"
      return reason.status.toUInt32
  | .ok command =>
      let texts ← command.files.mapM fun file => do return (file, ← readText? file)
      let began ← IO.monoMsNow
      let report := Report.ofCommand (fun file => (texts.lookup file).join) command
      report.print began
      return report.status.toUInt32
