import PointsTo.Context.Strategy
import PointsTo.Json.Form

/-!
# Configurations

How deep contexts are, of what kind, and whether counters are kept. Presets are configurations with
a name. A configuration with contexts too deep, or with heap contexts deeper than method contexts, is
not valid.
-/

namespace PointsTo

/-- The greatest depth of contexts. -/
def maxContextDepth : Nat := 8

/-- The settings of an analysis. -/
structure Config where
  strategy : Strategy
  /-- The depth of heap contexts; one less than that of method contexts if not given. -/
  heapDepth : Option Nat
  /-- Whether a result has the counters. -/
  collectStats : Bool
deriving DecidableEq, Repr

/-- Why a configuration cannot be used. -/
inductive ConfigError where
  /-- The depth of contexts is out of range. -/
  | contextDepth (k : Nat)
  /-- Heap contexts are deeper than contexts of depth `k`. -/
  | heapDepth (hk k : Nat)
  | missingVersion
  | unsupportedVersion (found : Nat)
  | unknownPreset (name : String)
  | unknownStrategy (name : String)
  /-- The text is not a document of the right form. -/
  | malformed
  /-- The text cannot be had. -/
  | unreadable
deriving DecidableEq, Repr

namespace ConfigError

/-- A number out of its range, with advice. -/
def rangeMessage (field : String) (value min max : Nat) (hint : String) : String :=
  "Invalid range for field '" ++ field ++ "': " ++ toString value ++ " not in " ++ toString min ++
    "..=" ++ toString max ++ ". " ++ hint

/-- The whole message. -/
def message : ConfigError → String
  | contextDepth k =>
    rangeMessage "context.k" k 1 maxContextDepth "Use 'ci' for a context-insensitive run"
  | heapDepth hk k =>
    rangeMessage "heap_context_depth" hk 0 k "Heap contexts cannot be deeper than method contexts"
  | missingVersion =>
    "Missing 'version' field in configuration file. " ++
      "Add 'version: 1' to the top of your YAML file."
  | unsupportedVersion found =>
    "Unsupported configuration version " ++ toString found ++ ". Supported versions: 1"
  | unknownPreset name =>
    "Unknown preset '" ++ name ++ "'. Valid presets: fast, balanced, thorough, custom"
  | unknownStrategy name =>
    "Unknown context strategy '" ++ name ++ "'. Expected ci, <k>-call, <k>-obj or <k>-type"
  | malformed => "YAML parsing error"
  | unreadable => "IO error"

end ConfigError

/-- The strategy that a text names. -/
def Strategy.parse (s : String) : Except ConfigError Strategy :=
  match Strategy.parse? s with
  | some strategy => .ok strategy
  | none => .error (.unknownStrategy s)

/-! ## Presets -/

/-- A configuration with a name. -/
inductive Preset where
  | fast
  | balanced
  | thorough
  | custom
deriving DecidableEq, Repr

namespace Preset

/-- The name of a preset. -/
def text : Preset → String
  | fast => "fast"
  | balanced => "balanced"
  | thorough => "thorough"
  | custom => "custom"

/-- The presets. -/
def all : List Preset := [fast, balanced, thorough, custom]

/-- The preset that a text names. The case of letters does not matter. -/
def parse (s : String) : Except ConfigError Preset :=
  match all.find? (·.text = String.ofList (Text.lower s.toList)) with
  | some preset => .ok preset
  | none => .error (.unknownPreset s)

/-- The settings of a preset. -/
def config : Preset → Config
  | fast => ⟨.insensitive, none, false⟩
  | balanced => ⟨.object 1, none, true⟩
  | thorough => ⟨.object 2, some 1, true⟩
  | custom => ⟨.insensitive, none, true⟩

end Preset

namespace Config

/-- The settings that are used when none are given. -/
def default : Config := Preset.balanced.config

/-- The name of this part of the configuration. -/
def name : String := "pta"

/-- Contexts have between one and eight elements if they have any, and heap contexts are not deeper
than method contexts. -/
def check (c : Config) : Except ConfigError Unit :=
  let k := c.strategy.depth
  if c.strategy ≠ .insensitive ∧ ¬(1 ≤ k ∧ k ≤ maxContextDepth) then .error (.contextDepth k)
  else
    match c.heapDepth with
    | some hk => if k < hk then .error (.heapDepth hk k) else .ok ()
    | none => .ok ()

end Config

/-! ## JSON forms -/

instance : JsonForm Strategy where
  toJson s := .string s.text
  ofJson? j := do Strategy.parse? (← ofJson? j)

instance : JsonForm Preset where
  toJson p := .string p.text
  ofJson? j := do
    let name ← j.tag?
    Preset.all.find? (·.text = name)

namespace Config

/-- The fields of a configuration, in order. -/
def fieldNames : List String := ["context", "heap_context_depth", "collect_stats"]

/-- The values of the fields of a configuration. An object may have no other members; a list may
leave out the last fields. -/
def fields? : Json → Option (List (Option Json))
  | .object members =>
    if members.all fun (name, _) => fieldNames.contains name then
      (Json.object members).fields? fieldNames
    else none
  | .array items =>
    if items.length ≤ fieldNames.length then
      some (items.map some ++ List.replicate (fieldNames.length - items.length) none)
    else none
  | _ => none

/-- A depth that need not be given, of 64 bits. -/
def depth? : Option Json → Option (Option Nat)
  | none => some none
  | some .null => some none
  | some j => (word? j).map some

/-- Only the strategy has to be given. A depth that is not given is left out. -/
instance : JsonForm Config where
  toJson c := .object ([("context", toJson c.strategy)] ++
    (c.heapDepth.map fun hk => ("heap_context_depth", .nat hk)).toList ++
    [("collect_stats", toJson c.collectStats)])
  ofJson? j := do
    let [strategy, heapDepth, collectStats] ← fields? j | none
    return ⟨← required strategy, ← depth? heapDepth,
      ← match collectStats with
        | none => some true
        | some j => ofJson? j⟩

end Config

end PointsTo
