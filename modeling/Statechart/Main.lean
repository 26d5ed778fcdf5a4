/-
# The `statechart` tool

Reads the files that a command line names, and writes the report. Output is never
taken for a terminal, so that colours have to be asked for.
-/

import Statechart.Cli.Report

namespace Statechart

/-- The number of a system error. Systems give it as it is or negated. -/
def errorNumber (code : UInt32) : UInt32 := min code (-code)

/-- Why the operating system did not give a file. -/
def readError (failure : IO.Error) : Cli.ReadError :=
  match failure with
  | .noFileOrDirectory .. => .notFound
  | .inappropriateType _ code _ =>
      if errorNumber code = 20 then .notDirectory else .isDirectory
  | .invalidArgument _ code _ =>
      if errorNumber code = 36 then .nameTooLong else .other (toString failure)
  | other => .other (toString other)

/-- The contents of a file. -/
def readFile (path : String) : IO (Except Cli.ReadError Bytes) := do
  try
    let contents ← IO.FS.readBinFile path
    return .ok contents.toList
  catch failure =>
    return .error (readError failure)

end Statechart

/-- Run the tool on its command line. -/
def main (words : List String) : IO UInt32 := do
  let paths := (Statechart.Cli.Invocation.ofWords? words).elim [] Statechart.Cli.Invocation.paths
  let contents ← paths.mapM fun path => do return (path, ← Statechart.readFile path)
  let files : Statechart.Cli.Files := fun path =>
    (contents.lookup path).getD (.error .notFound)
  let report := Statechart.Cli.Report.ofWords words files false
  (← IO.getStdout).putStr report.output
  (← IO.getStderr).putStr report.errors
  return report.exitCode.toUInt32
