import SqlChain.Json.Reader
import SqlChain.Plan.Decode
import SqlChain.Query.Render

/-!
# Plan files

A plan file is the JSON of a query, which may also name the dialect and give settings.
-/

namespace SqlChain

structure Plan where
  dialect : Option Backend
  config : Config
  query : Query
deriving Repr

namespace Plan

/-- In a file numbers are numbers, and names that take no value may have an empty object. -/
def fileSpelling : Spelling := { numerals := false, emptyObjects := true }

/-- The most arrays and objects around any part of a file. -/
def depthLimit : Nat := 127

def backend? : Json → Option Backend
  | .string s => Backend.ofName? s
  | .object [(s, .null)] => Backend.ofName? s
  | _ => none

def decode? (j : Json) : Option Plan := do
  let fields ← j.fields?
  let dialect ← Fields.optional fields "dialect" backend?
  let config ← Fields.defaulted fields "config" .default Config.decode?
  let query ← fileSpelling.query? j
  return { dialect, config, query }

/-- Whether a name in a configuration is that of a setting. -/
def isSetting (key : String) : Bool := (Setting.ofName? key).isSome

/-- The plan in a file. What the configuration holds besides settings needs no value. -/
def ofText? (s : String) : Option Plan := do
  let tree ← JsonTree.read? s
  decode? (← (tree.mapField "config" (·.keepFields isSetting)).value? depthLimit)

/-- What the command line adds to a plan. -/
structure Options where
  dialect : Option Backend
  mode : Mode
  strictness : Strictness
deriving DecidableEq, Repr

def lines (r : Rendered) : List String :=
  let groups :=
    if r.groups.isEmpty then [] else ["-- groups: " ++ String.intercalate ", " r.groups]
  [r.sql, "-- columns: " ++ String.intercalate ", " r.columns] ++ groups ++
    r.warnings.map fun w => "-- warning: " ++ w.message

/-- The lines for a plan. The dialect of the command line comes before that of the plan. -/
def render (p : Plan) (options : Options) : Except Error (List String) := do
  let backend := (options.dialect <|> p.dialect).getD .ansi
  let config := options.strictness.apply p.config
  return lines (← p.query.render options.mode backend.dialect config)

end Plan

namespace Config

/-- A line for every setting: its name, its value and what it is for. -/
def lines (c : Config) : List String :=
  c.list.map fun (setting, value) =>
    setting.name ++ "\t" ++ value.text ++ "\t" ++ setting.description

end Config

end SqlChain
