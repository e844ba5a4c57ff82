import RunnerFleet.Json.Parser
import RunnerFleet.Json.Printer
import RunnerFleet.Json.Record
import RunnerFleet.Store.Basic

/-!
# The text of a store

Between two runs a store is kept as JSON: one object for each table, with the texts of the rows
under their keys. A text is kept as it is, so the next run reads what a read would have returned
before.
-/

namespace RunnerFleet

variable {α : Type}

def Row.text [Encoded α] : Row α → String
  | written a => (Encoded.toJson a).compact
  | foreign text => text

def Table.toJson [Encoded α] (t : Table (Row α)) : Json :=
  .object (t.rows.map fun (k, r) => (k, .string r.text))

def Table.ofJson? : Json → Option (Table (Row α))
  | .object members =>
    members.foldlM (fun t (k, j) => j.toString?.map fun text => t.insert k (.foreign text)) .empty
  | _ => none

namespace Store

def fieldNames : List String := ["autoscalers", "deployments", "demand", "events"]

def toJson (s : Store) : Json :=
  .ofFields
    [("autoscalers", some s.autoscalers.toJson), ("deployments", some s.deployments.toJson),
     ("demand", some s.demand.toJson), ("events", some s.events.toJson)]

def ofJson? (j : Json) : Option Store := do
  let [autoscalers, deployments, demand, events] ← j.fields? fieldNames | none
  return {
    autoscalers := ← Json.required Table.ofJson? autoscalers
    deployments := ← Json.required Table.ofJson? deployments
    demand := ← Json.required Table.ofJson? demand
    events := ← Json.required Table.ofJson? events }

def archive (s : Store) : String := s.toJson.compact

def ofArchive? (text : String) : Option Store := (Json.parse? text).bind ofJson?

end Store

end RunnerFleet
