import EscapeFlow.Text.OneLine

/-!
# What can be wrong with a configuration
-/

namespace EscapeFlow

inductive ConfigFault where
  /-- A field holds a value outside its bounds; all parts as they are shown. -/
  | range (field value min max hint : String)
  | missingVersion
  | unsupportedVersion (found : Nat) (supported : List Nat)
  | unknownPreset (name : String)
  /-- The file cannot be read as text. -/
  | unreadable (reason : String)
  /-- The text is not a configuration document. -/
  | malformed
deriving DecidableEq, Inhabited

namespace ConfigFault

def message : ConfigFault → String
  | .range field value min max hint =>
    s!"Invalid range for field '{field}': {value} not in {min}..={max}. {hint}"
  | .missingVersion =>
    "Missing 'version' field in configuration file. Add 'version: 1' to the top of your YAML file."
  | .unsupportedVersion found supported =>
    s!"Unsupported configuration version {found}. Supported versions: "
      ++ Text.separated ", " (supported.map toString)
  | .unknownPreset name =>
    s!"Unknown preset '{name}'. Valid presets: fast, balanced, thorough, custom"
  | .unreadable reason => s!"IO error: {reason}"
  | .malformed => "YAML parsing error"

end ConfigFault

end EscapeFlow
