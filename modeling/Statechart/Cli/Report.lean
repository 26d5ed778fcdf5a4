/-
# What the tool answers

`Report.ofWords` answers a command line, given the contents of the files it names.
A report is what is written to the two output streams, and the exit code: 0 if all
went well, 1 if a file cannot be used, 2 if the command line is none. A fault inside
of the toolchain ends with 101.
-/

import Statechart.Cli.Arguments
import Statechart.Cli.Folder
import Statechart.Metadata
import Statechart.Reload.Outcome
import Statechart.Rom.Dump

namespace Statechart.Cli

open Rom (Definition)
open Statechart.Text (Palette)

/-- Why a command fails. -/
inductive Failure
  | unreadableDefinition (path : String) (reason : ReadError)
  | invalidDefinition (path : String) (reason : Rom.LoadError)
  | unreadableMetadata (path : String) (reason : ReadError)
  | invalidMetadata (path : String)
  | metadataMismatch (names states : Nat)
  /-- The toolchain broke a promise to itself. -/
  | broken (fault : Fault)
  deriving DecidableEq, Repr

namespace Failure

/-- The failure as it is shown to the user. -/
def message : Failure → String
  | unreadableDefinition path reason => s!"cannot load `{path}`: io error: {reason.message}"
  | invalidDefinition path reason => s!"cannot load `{path}`: {reason.message}"
  | unreadableMetadata path reason => s!"cannot read `{path}`: {reason.message}"
  | invalidMetadata path => s!"invalid metadata `{path}`: not the names of a machine"
  | metadataMismatch names states =>
      s!"metadata names {names} states, definition has {states}"
  | broken fault => fault.message.getD "internal fault"

/-- The exit code that tells of the failure. -/
def exitCode : Failure → UInt8
  | broken _ => 101
  | _ => 1

end Failure

/-- The definition in a file. -/
def readDefinition (files : Files) (path : String) : Except Failure Definition := do
  let bytes ← (files path).mapError (Failure.unreadableDefinition path)
  let loaded ← (Definition.load bytes).mapError Failure.broken
  loaded.mapError (Failure.invalidDefinition path)

/-- The metadata in a file. -/
def readMetadata (files : Files) (path : String) : Except Failure Metadata := do
  let bytes ← (files path).mapError (Failure.unreadableMetadata path)
  let some text := String.fromUTF8? ⟨bytes.toArray⟩
    | throw (.unreadableMetadata path .notText)
  let some metadata := Metadata.ofText? text | throw (.invalidMetadata path)
  return metadata

/-- Names for another machine would be wrong on every line, so there must be as many
as the definition has states. -/
def checkMetadata (definition : Definition) (metadata : Metadata) : Except Failure Unit :=
  if metadata.states.size = definition.stateCount then .ok ()
  else .error (.metadataMismatch metadata.states.size definition.stateCount)

/-- The text of a definition and its metadata. -/
def dumpText (files : Files) (blob : String) (metadata : Option String)
    (palette : Palette) : Except Failure String := do
  let definition ← readDefinition files blob
  let metadata ← metadata.mapM (readMetadata files)
  if let some names := metadata then checkMetadata definition names
  return Rom.dump definition metadata palette

/-- A hash before and after, the latter in the colour of warnings if it changes. -/
def hashLine (palette : Palette) (label : String) (before after : UInt32) : String :=
  let color := if before = after then palette.dim else palette.yellow
  label ++ " = " ++ Text.Numeral.word32 before ++ " -> " ++
    palette.paint color (Text.Numeral.word32 after)

/-- What an outcome means for running instances. -/
def verdict (palette : Palette) : Reload.Outcome → String
  | .newMachine => palette.paint palette.green "new machine"
  | .noChange => palette.paint palette.green "no change"
  | .softReload =>
      palette.paint palette.yellow "soft reload: running instances keep their state"
  | .hardReset old new =>
      palette.paint palette.red ("hard reset: instances of " ++ Text.Numeral.word32 old ++
        " restart as " ++ Text.Numeral.word32 new)

/-- The text of a comparison. -/
def diffText (files : Files) (old new : String) (palette : Palette) :
    Except Failure String := do
  let before ← readDefinition files old
  let after ← readDefinition files new
  return Text.lines [
    hashLine palette "structure" before.structureHash after.structureHash,
    hashLine palette "parameter" before.parameterHash after.parameterHash,
    verdict palette (.classify (some before) after)]

namespace Invocation

/-- The text that an invocation asks for, written to a terminal or not. -/
def text (invocation : Invocation) (files : Files) (terminal : Bool) :
    Except Failure String :=
  match invocation with
  | dump blob metadata color =>
      dumpText files blob metadata (.ofBool (color.colored terminal))
  | diff old new color => diffText files old new (.ofBool (color.colored terminal))

end Invocation

/-- What the tool answers. -/
structure Report where
  exitCode : UInt8
  output : String
  errors : String
  deriving DecidableEq, Repr

namespace Report

/-- The answer to what is no command line. -/
def usage : Report where
  exitCode := 2
  output := ""
  errors := Text.lines [
    "usage: statechart dump BLOB [--meta JSON] [--color auto|always|never]",
    "       statechart diff OLD NEW [--color auto|always|never]"]

/-- The answer to a command line. -/
def ofWords (words : List String) (files : Files) (terminal : Bool) : Report :=
  match Invocation.ofWords? words with
  | none => usage
  | some invocation =>
      match invocation.text files terminal with
      | .ok text => { exitCode := 0, output := text, errors := "" }
      | .error failure =>
          { exitCode := failure.exitCode
            output := ""
            errors := Text.lines ["error: " ++ failure.message] }

end Report

end Statechart.Cli
