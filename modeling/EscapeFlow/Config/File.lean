import EscapeFlow.Config.Codec
import EscapeFlow.Yaml.Value

/-!
# Configuration files

A file names its version, a preset, and changes to the preset.
-/

namespace EscapeFlow

namespace ConfigFile

/-- The versions that can be read. -/
def supported : List Nat := [1]

/-- The name of the preset is the text of its scalar, however it is spelled. -/
def fieldDoc? (name : String) (v : Yaml.Value) : Option Doc :=
  match name with
  | "preset" => v.text?.map .str
  | "overrides" => v.recordDoc?
  | _ => v.scalarDoc?

def ofYaml? (v : Yaml.Value) : Option ConfigFile := do
  let es ← v.entries?
  let fields ← es.mapM fun e => (fieldDoc? e.1 e.2).map fun d => (e.1, d)
  ofDoc? (.record fields)

/-- The version is looked at first, then the preset, then the bounds of the fields. -/
def config (f : ConfigFile) : Except ConfigFault Config :=
  match f.version with
  | none => .error .missingVersion
  | some v =>
    if !supported.contains v then .error (.unsupportedVersion v supported)
    else do
      let p ← Preset.ofName f.preset
      let c := (f.overrides.getD {}).apply (.ofPreset p)
      c.validate
      return c

end ConfigFile

namespace Config

def ofYaml (s : String) : Except ConfigFault Config :=
  match (Yaml.Value.ofText? s).bind ConfigFile.ofYaml? with
  | none => .error .malformed
  | some f => f.config

/-- The configuration in a file, given what the file holds if there is one. -/
def ofFile (content : Option ByteArray) : Except ConfigFault Config :=
  match content with
  | none => .error (.unreadable "No such file or directory (os error 2)")
  | some bytes =>
    match String.fromUTF8? bytes with
    | none => .error (.unreadable "stream did not contain valid UTF-8")
    | some s => ofYaml s

/-- The file that gives this configuration, whatever the presets are. -/
def toYaml (c : Config) : String :=
  let settings := [
    ("diagnostic_level", toString c.diagnosticLevel),
    ("precise_recursive_calls", toString c.preciseRecursiveCalls),
    ("enable_parallel", toString c.enableParallel),
    ("num_threads", toString c.numThreads),
    ("parallel_threshold", toString c.parallelThreshold),
    ("max_walk_rounds", toString c.maxWalkRounds)]
  "version: 1\npreset: " ++ Preset.custom.name ++ "\noverrides:\n" ++
    String.join (settings.map fun s => "  " ++ s.1 ++ ": " ++ s.2 ++ "\n")

end Config

end EscapeFlow
