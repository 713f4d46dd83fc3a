/-
FlowPlanner.Description.Document — descriptions as JSON, and their fingerprints.

The fingerprint of a description is taken of its JSON without blanks.
-/
import FlowPlanner.Description
import FlowPlanner.Fingerprint

namespace FlowPlanner

/-- The name of a driver in JSON; only the sorted co-group is spelled differently than elsewhere. -/
def Driver.fieldName : Driver → String
  | .sortedCoGroup => "sorted_co_group"
  | driver => driver.name

/-- An input as JSON. -/
def InputDescription.json (i : InputDescription) : Json :=
  .object [("from", .whole i.source), ("ship", .text i.ship.text), ("local", .text i.work.text)]

/-- Estimates as JSON. -/
def Estimates.json (e : Estimates Float) : Json :=
  .object [("num_records", .ofOption e.records), ("key_cardinality", .ofOption e.keys),
    ("output_size", .ofOption e.size), ("avg_record_width", .ofOption e.width)]

/-- A cost as JSON. -/
def Cost.json (c : Cost Float) : Json :=
  .object [("network", .ofOption c.network), ("disk", .ofOption c.disk), ("cpu", .ofOption c.cpu)]

/-- A node as JSON. -/
def NodeDescription.json (n : NodeDescription Float) : Json :=
  .object [("name", .text n.name), ("kind", .text n.kind.name),
    ("strategy", .text n.driver.fieldName), ("parallelism", .whole n.parallelism),
    ("inputs", .array (n.inputs.map (·.json))), ("global", .text n.placement.text),
    ("local", .text n.arrangement.text), ("estimates", n.estimates.json),
    ("cumulative_cost", n.cumulative.json)]

namespace Description

/-- A description as JSON. -/
def json (d : Description Float) : Json :=
  .object [("sinks", .array (d.sinks.map .whole)), ("total_cost", .ofOption d.total),
    ("nodes", .array (d.nodes.map (·.json)))]

/-- The JSON text for readers. -/
def document (d : Description Float) : String := d.json.render .pretty

/-- The fingerprint of a description. -/
def fingerprint (d : Description Float) : Fingerprint := .ofText (d.json.render .compact)

end Description

end FlowPlanner
