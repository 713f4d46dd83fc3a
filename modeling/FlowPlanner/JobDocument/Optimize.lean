/-
FlowPlanner.JobDocument.Optimize — from the text of a job document to ranked plans.

The entries of a document become operators: a source is filled in, and hints become
text. The settings of the document are laid over those of the caller, and the job is
planned with the standard prices.
-/
import FlowPlanner.JobDocument
import FlowPlanner.Optimizer

namespace FlowPlanner

open Yaml

namespace OperatorEntry

/-- The kind with its source filled in; only a source may declare one. -/
def resolvedKind (e : OperatorEntry) : Except Failure Kind :=
  match e.kind, e.source with
  | .source _, spec => .ok (.source (spec.getD {}))
  | _, some _ => .error (.document (.straySource e.name))
  | kind, none => .ok kind

/-- A hint as text; only scalars have a text. -/
def hintText (name : String) (hint : String × Value) : Except Failure (String × String) :=
  match hint.2.scalarText? with
  | some text => .ok (hint.1, text)
  | none => .error (.document (.hintNotScalar hint.1 name hint.2.text))

/-- The operator that an entry stands for; hints are checked by ascending key. -/
def operator (e : OperatorEntry) : Except Failure Operator := do
  let kind ← e.resolvedKind
  let hints ← e.hints.entries.mapM (hintText e.name)
  return {
    id := e.id, name := e.name, kind, inputs := e.inputs, keys := e.keys
    parallelism := e.parallelism, hints := Table.ofList hints
    contract := e.contract, sizes := e.sizes }

end OperatorEntry

/-- A job and the settings that come with it. -/
structure JobDocument where
  job : Job
  overrides : ConfigOverrides

namespace JobDocument

/-- Read a document. -/
def parse (text : String) : Except Failure JobDocument :=
  match (document? text).bind (·.decode? decodeDocument) with
  | none => .error (.document .unreadable)
  | some (overrides, entries) => do
    let operators ← entries.mapM OperatorEntry.operator
    return { job := ⟨operators⟩, overrides }

/-- The settings for a document's job. -/
def config (d : JobDocument) (base : Config) : Config := d.overrides.over base

/-- Read a document and find the ranked plans of its job, with the document's settings on top of the
caller's and the standard prices. -/
def optimize (text : String) (base : Config) (clock : Nat → Nat := fun _ => 0) :
    Except Failure (Outcome Float) := do
  let document ← JobDocument.parse text
  let optimizer ← Optimizer.standard (document.config base)
  optimizer.run document.job clock

end JobDocument

end FlowPlanner
