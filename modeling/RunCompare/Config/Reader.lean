/-
Reading configurations from TOML.

A record is written as a table, in which unknown keys are passed over, or as an
array with its fields in order.
-/
import RunCompare.Config
import RunCompare.Toml.Document

namespace RunCompare

namespace Toml

/-- A text. -/
def text? : Toml → Option String
  | .text s => some s
  | _ => none

/-- A truth value. -/
def bool? : Toml → Option Bool
  | .bool b => some b
  | _ => none

/-- The elements of an array, or the tables of an array of tables. -/
def elements? : Toml → Option (List Toml)
  | .array elements => some elements
  | .tables elements => some (elements.map (.table .header))
  | _ => none

/-- The fields of a record whose keys have one or several spellings, in the order of the keys. A
field that is left out is `none`; a key given in two spellings is refused. -/
def fields? (keys : List (List String)) : Toml → Option (List (Option Toml))
  | .table _ entries =>
    keys.mapM fun spellings =>
      match spellings.filterMap (entries.lookup ·) with
      | [] => some none
      | [v] => some (some v)
      | _ => none
  | v => v.elements?.map fun elements => (List.range keys.length).map (elements[·]?)

end Toml

namespace Config

open Toml

/-- Reads a pair of configurations. -/
def pairOfToml (v : Toml) : Option ConfigPair := do
  match ← v.fields? [["baseline", "first"], ["variant", "second"]] with
  | [some first, some second] => return { first := ← first.text?, second := ← second.text? }
  | _ => none

/-- Reads the settings of the analysis, without its pairs. -/
def settingsOfToml (v : Toml) : Option Config := do
  match ← v.fields? [["name"], ["input"], ["skip_header"]] with
  | [some name, input, skipHeader] =>
    return {
      name := ← name.text?
      input := ← input.mapM text?
      skipHeader := ← (skipHeader.map bool?).getD (some true)
      pairs := [] }
  | _ => none

/-- Reads a configuration from the entries of a document. -/
def ofEntries (entries : Entries) : Option Config := do
  let settings ← settingsOfToml (← entries.lookup "analysis")
  let pairs ←
    match entries.lookup "comparisons" with
    | none => some []
    | some v => (← v.elements?).mapM pairOfToml
  return { settings with pairs }

/-- Reads and checks a configuration. -/
def ofText (text : String) : Except ConfigError Config := do
  match (Toml.ofText? text).bind ofEntries with
  | none => throw .malformed
  | some config =>
    config.validate
    return config

end Config

end RunCompare
