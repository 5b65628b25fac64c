/-
  Writing a configuration: one JSON object without white space, all fields in order.
-/
import PathSieve.Config.Reader

namespace PathSieve.Config

/-- A configuration as compact JSON; a missing number of workers is `null`. -/
def render (c : Config) : String :=
  let workers := match c.parallelism with
    | none => "null"
    | some n => toString n.toNat
  "\x7b\"" ++ Field.initialPages.key ++ "\":" ++ toString c.initialPages.toNat
    ++ ",\"" ++ Field.maxPages.key ++ "\":" ++ toString c.maxPages.toNat
    ++ ",\"" ++ Field.parallelism.key ++ "\":" ++ workers ++ "\x7d"

/-- A configuration as descriptions of pools show it. -/
def describe (c : Config) : String :=
  let workers := match c.parallelism with
    | none => "None"
    | some n => s!"Some({n.toNat})"
  "EngineConfig \x7b initial_memory_pages: " ++ toString c.initialPages.toNat
    ++ ", max_memory_pages: " ++ toString c.maxPages.toNat
    ++ ", parallelism: " ++ workers ++ " \x7d"

end PathSieve.Config
