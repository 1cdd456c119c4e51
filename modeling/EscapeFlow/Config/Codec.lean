import EscapeFlow.Config.Basic
import EscapeFlow.Doc.Basic

/-!
# Configurations as documents
-/

namespace EscapeFlow

open Doc

namespace Preset

def ofDoc? (d : Doc) : Option Preset := do
  let word ← d.word?
  all.find? (·.name = word)

def toDoc (p : Preset) : Doc := .str p.name

end Preset

namespace Config

/-- Fields that are missing have the value of the standard preset. -/
def ofDoc? (d : Doc) : Option Config := do
  let other := ofPreset .standard
  return {
    diagnosticLevel := ← d.withDefault "diagnostic_level" (nat? 8) other.diagnosticLevel
    preciseRecursiveCalls :=
      ← d.withDefault "precise_recursive_calls" bool? other.preciseRecursiveCalls
    enableParallel := ← d.withDefault "enable_parallel" bool? other.enableParallel
    numThreads := ← d.withDefault "num_threads" (nat? 64) other.numThreads
    parallelThreshold := ← d.withDefault "parallel_threshold" (nat? 64) other.parallelThreshold
    maxWalkRounds := ← d.withDefault "max_walk_rounds" (nat? 64) other.maxWalkRounds }

def fields (c : Config) : List (String × Doc) := [
  ("diagnostic_level", .nat c.diagnosticLevel),
  ("precise_recursive_calls", .bool c.preciseRecursiveCalls),
  ("enable_parallel", .bool c.enableParallel),
  ("num_threads", .nat c.numThreads),
  ("parallel_threshold", .nat c.parallelThreshold),
  ("max_walk_rounds", .nat c.maxWalkRounds)]

def toDoc (c : Config) : Doc := .record c.fields

end Config

namespace Patch

def fieldNames : List String := ["diagnostic_level", "precise_recursive_calls", "enable_parallel",
  "num_threads", "parallel_threshold", "max_walk_rounds"]

/-- Fields that no configuration has are refused. -/
def ofDoc? (d : Doc) : Option Patch := do
  if !d.onlyFields fieldNames then none
  return {
    diagnosticLevel := ← d.optional "diagnostic_level" (nat? 8)
    preciseRecursiveCalls := ← d.optional "precise_recursive_calls" bool?
    enableParallel := ← d.optional "enable_parallel" bool?
    numThreads := ← d.optional "num_threads" (nat? 64)
    parallelThreshold := ← d.optional "parallel_threshold" (nat? 64)
    maxWalkRounds := ← d.optional "max_walk_rounds" (nat? 64) }

def toDoc (p : Patch) : Doc := .record [
  ("diagnostic_level", Doc.ofOption .nat p.diagnosticLevel),
  ("precise_recursive_calls", Doc.ofOption .bool p.preciseRecursiveCalls),
  ("enable_parallel", Doc.ofOption .bool p.enableParallel),
  ("num_threads", Doc.ofOption .nat p.numThreads),
  ("parallel_threshold", Doc.ofOption .nat p.parallelThreshold),
  ("max_walk_rounds", Doc.ofOption .nat p.maxWalkRounds)]

end Patch

/-- A configuration as it stands in a file: a preset by name, and changes to it. -/
structure ConfigFile where
  version : Option Nat
  preset : String
  overrides : Option Patch
deriving DecidableEq, Inhabited

namespace ConfigFile

def fieldNames : List String := ["version", "preset", "overrides"]

def ofDoc? (d : Doc) : Option ConfigFile := do
  if !d.onlyFields fieldNames then none
  return {
    version := ← d.optional "version" (nat? 32)
    preset := ← d.required "preset" str?
    overrides := ← d.optional "overrides" Patch.ofDoc? }

def toDoc (f : ConfigFile) : Doc := .record ([
  ("version", Doc.ofOption .nat f.version),
  ("preset", .str f.preset)] ++
  (match f.overrides with
    | none => []
    | some p => [("overrides", p.toDoc)]))

end ConfigFile

end EscapeFlow
