import PointsTo.Config.Basic
import PointsTo.Yaml.Node

/-!
# Configuration files

A configuration file is a YAML mapping with a version, the name of a preset and settings that stand
in for the preset altogether. Any scalar is text where text is wanted; numbers, truth values and null
have to be plain. Keys that are not known, or known and repeated, are refused.
-/

namespace PointsTo

namespace Yaml

/-- The tags of values that can be told from plain text. -/
def coreTag (name : String) : String :=
  "tag:yaml.org,2002:" ++ name

/-- Whether a plain scalar stands for null. -/
def isNullWord (text : String) : Bool :=
  text = "null" || text = "Null" || text = "NULL" || text = "~"

/-- The truth value of a plain scalar. -/
def bool? (text : String) : Option Bool :=
  if text = "true" || text = "True" || text = "TRUE" then some true
  else if text = "false" || text = "False" || text = "FALSE" then some false
  else none

/-- The number of a plain scalar with its base. A number in base ten may not start with a zero that
is followed by more digits. -/
def magnitude? : List Char → Option Nat
  | '0' :: 'x' :: digits => Text.numeral64? 16 digits
  | '0' :: 'o' :: digits => Text.numeral64? 8 digits
  | '0' :: 'b' :: digits => Text.numeral64? 2 digits
  | '0' :: _ :: _ => none
  | digits => Text.numeral64? 10 digits

/-- The natural number of a plain scalar; a plus sign may stand in front. -/
def natural? (text : String) : Option Nat :=
  match text.toList with
  | '+' :: l => magnitude? l
  | l => magnitude? l

/-- Whether a scalar is written in a way that lets it be a value of a tag: plain, or literal with the
tag. -/
def holdsValue (tag : Option String) (style : ScalarStyle) (expected : String) : Bool :=
  match style with
  | .plain => true
  | .literal => tag = some (coreTag expected)
  | _ => false

namespace Document

variable (d : Document)

/-- The text of a scalar. -/
def text? (n : Node) : Option String := do
  match ← d.follow? n with
  | .scalar _ _ text => return text
  | _ => none

/-- The natural number of a scalar, below a limit. -/
def natBelow? (limit : Nat) (n : Node) : Option Nat := do
  match ← d.follow? n with
  | .scalar tag style text =>
    if holdsValue tag style "int" then (natural? text).filter (· < limit) else none
  | _ => none

/-- The truth value of a scalar. -/
def truth? (n : Node) : Option Bool := do
  match ← d.follow? n with
  | .scalar tag style text => if holdsValue tag style "bool" then bool? text else none
  | _ => none

/-- Reads a node unless it is null. A scalar with the tag of null has to be null. -/
def nullable? {α : Type} (read : Node → Option α) (n : Node) : Option (Option α) := do
  match ← d.follow? n with
  | .scalar none .plain text =>
    if text.isEmpty || isNullWord text then return none else return some (← read n)
  | .scalar (some tag) .plain text =>
    if tag = coreTag "null" then
      if isNullWord text then return none else failure
    else return some (← read n)
  | _ => return some (← read n)

/-- The keys of a mapping as texts, with the values. A plain scalar that is left out is a mapping
without entries. -/
def entries? (n : Node) : Option (List (String × Node)) := do
  match ← d.follow? n with
  | .mapping entries => entries.mapM fun (k, v) => return (← d.text? k, v)
  | .scalar _ .plain text => if text.isEmpty then return [] else none
  | _ => none

/-- The values of the fields of a record. The mapping may have no other keys, and none twice. -/
def fields? (names : List String) (n : Node) : Option (List (Option Node)) := do
  let entries ← d.entries? n
  let keys := entries.map (·.1)
  if !(keys.all names.contains) || !decide keys.Nodup then none
  return names.map fun name => entries.lookup name

/-- The strategy that a scalar names. -/
def strategy? (n : Node) : Option Strategy := do
  Strategy.parse? (← d.text? n)

/-- The settings of a mapping. -/
def config? (n : Node) : Option Config := do
  let [strategy, heapDepth, collectStats] ← d.fields? Config.fieldNames n | none
  let heapDepth ← heapDepth.mapM (d.nullable? (d.natBelow? wordLimit))
  let collectStats ← collectStats.mapM d.truth?
  return ⟨← d.strategy? (← strategy), heapDepth.join, collectStats.getD true⟩

end Document

end Yaml

/-! ## Files -/

/-- A configuration file as it is written. -/
structure ConfigFile where
  version : Option Nat
  preset : Option String
  settings : Option Config
deriving DecidableEq, Repr

namespace ConfigFile

/-- The file without entries. -/
def empty : ConfigFile := ⟨none, none, none⟩

/-- The file that a document holds. -/
def ofDocument? (d : Yaml.Document) : Option ConfigFile :=
  match d.root with
  | none => some empty
  | some root => do
    let [version, preset, settings] ← d.fields? ["version", "preset", "pta"] root | none
    return ⟨(← version.mapM (d.nullable? (d.natBelow? idLimit))).join,
      (← preset.mapM (d.nullable? d.text?)).join,
      (← settings.mapM (d.nullable? d.config?)).join⟩

/-- Reads a file. -/
def parse (text : String) : Except ConfigError ConfigFile :=
  match (Yaml.Document.parse? text).bind ofDocument? with
  | some file => .ok file
  | none => .error .malformed

/-- The only version. -/
def currentVersion : Nat := 1

/-- The configuration that a file stands for. -/
def config (file : ConfigFile) : Except ConfigError Config := do
  let version ← match file.version with
    | some version => .ok version
    | none => .error .missingVersion
  if version ≠ currentVersion then throw (.unsupportedVersion version)
  let preset ← match file.preset with
    | some name => Preset.parse name
    | none => .ok .balanced
  let config := file.settings.getD preset.config
  config.check
  return config

end ConfigFile

namespace Config

/-- The configuration of the text of a file. -/
def ofYaml (text : String) : Except ConfigError Config := do
  (← ConfigFile.parse text).config

/-- The configuration of the bytes of a file, if there is one. -/
def ofYamlFile (content : Option ByteArray) : Except ConfigError Config :=
  match content.bind String.fromUTF8? with
  | some text => ofYaml text
  | none => .error .unreadable

/-- The text of a file with all the settings. -/
def toYaml (c : Config) : String :=
  let heapDepth := match c.heapDepth with
    | some hk => "  heap_context_depth: " ++ toString hk ++ "\n"
    | none => ""
  "version: 1\npreset: custom\npta:\n  context: " ++ c.strategy.text ++ "\n" ++ heapDepth ++
    "  collect_stats: " ++ (if c.collectStats then "true" else "false") ++ "\n"

end Config

end PointsTo
