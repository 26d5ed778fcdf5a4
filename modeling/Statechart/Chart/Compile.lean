/-
# Compiling a graph

Compilation lays a graph out, looks for findings, and stops if one of them is an
error. Otherwise the graph is flattened, written as a blob, and the blob is loaded, so
that what is handed out is what any other reader of the blob would see. Names travel
beside the definition as metadata; warnings are handed out with it.
-/

import Statechart.Chart.Digest
import Statechart.Chart.Findings
import Statechart.Chart.Flat
import Statechart.Rom.Definition

namespace Statechart.Chart

open Statechart.Rom

/-- Why a graph was not compiled. -/
inductive CompileError
  | validationFailed (diagnostics : Diagnostics)
  | idCollision (collision : IdCollision)
  /-- The blob that was written is not a definition. -/
  | load (error : LoadError)

namespace CompileError

/-- The error as it is shown to the user. -/
def message : CompileError → String
  | validationFailed diagnostics =>
      s!"validation failed with {diagnostics.errors.length} errors"
  | idCollision collision => collision.message
  | load error => "emitted definition failed to load: " ++ error.message

end CompileError

/-- A compiled machine. -/
structure Compiled where
  definition : Definition
  metadata : Metadata
  warnings : Diagnostics

namespace Graph

/-- The names of a graph that was flattened. -/
def metadata (graph : Graph) (flat : Flat) : Metadata where
  name := graph.name
  states := graph.order.map graph.nameOf
  events :=
    .ofList ((graph.eventNames.names.zip graph.events).toList.map
      fun (name, decl) => (decl.id, name))
  actions := flat.actionNames
  guards := flat.guardNames

/-- Compile a graph that has been laid out. -/
def compileLaidOut (graph : Graph) : Except Fault (Except CompileError Compiled) := do
  let diagnostics := graph.findings
  if diagnostics.hasErrors then
    return .error (.validationFailed diagnostics)
  match ← graph.flatten with
  | .error collision => return .error (.idCollision collision)
  | .ok flat =>
    let blob ← flat.sections.emit
    match ← Definition.load blob with
    | .error error => return .error (.load error)
    | .ok definition =>
      return .ok {
        definition := definition
        metadata := graph.metadata flat
        warnings := diagnostics.warnings }

/-- Compile a graph. -/
def compile (graph : Graph) : Except Fault (Except CompileError Compiled) :=
  graph.layOut.compileLaidOut

end Graph

end Statechart.Chart
