import EscapeFlow.Config.Fault

/-!
# Configuration

How an analysis is run.  A configuration starts from a preset; a patch changes some of its
fields.
-/

namespace EscapeFlow

structure Config where
  /-- 0 for none, 1 for decisions and leaks, 2 for flow paths as well. -/
  diagnosticLevel : Nat
  /-- Whether a call inside a batch leads to the parameters of the callee. -/
  preciseRecursiveCalls : Bool
  /-- Whether the batches of a wave may be analysed at the same time. -/
  enableParallel : Bool
  /-- The number of workers; zero leaves it to the machine. -/
  numThreads : Nat
  /-- The least number of batches in a wave that is worth sharing out. -/
  parallelThreshold : Nat
  /-- The number of root walks allowed in a batch; zero for no bound. -/
  maxWalkRounds : Nat
deriving DecidableEq, Inhabited

inductive Preset where
  | fast
  | balanced
  | thorough
  | custom
deriving DecidableEq, Inhabited

namespace Preset

def all : List Preset := [.fast, .balanced, .thorough, .custom]

def name : Preset → String
  | .fast => "fast"
  | .balanced => "balanced"
  | .thorough => "thorough"
  | .custom => "custom"

def standard : Preset := .balanced

/-- Capital letters may be used in the name of a preset.  No preset has a letter that some
character outside of ASCII is a capital of. -/
def ofName (s : String) : Except ConfigFault Preset :=
  match all.find? fun p => p.name = s.toLower with
  | some p => .ok p
  | none => .error (.unknownPreset s)

end Preset

namespace Config

def ofPreset : Preset → Config
  | .fast => ⟨0, false, true, 0, 4, 1000000⟩
  | .balanced => ⟨0, false, true, 0, 8, 0⟩
  | .thorough => ⟨2, true, false, 0, 8, 0⟩
  | .custom => ⟨0, false, false, 0, 1, 0⟩

/-- The greatest value of a count. -/
def maxCount : Nat := Nat.pow 2 64 - 1

def validate (c : Config) : Except ConfigFault Unit :=
  if 2 < c.diagnosticLevel then
    .error (.range "diagnostic_level" (toString c.diagnosticLevel) "0" "2"
      "Diagnostic level is 0 (off), 1 (decisions) or 2 (flow paths)")
  else if 1024 < c.numThreads then
    .error (.range "num_threads" (toString c.numThreads) "0" "1024"
      "Use 0 to size the pool from the number of cores")
  else if c.parallelThreshold = 0 then
    .error (.range "parallel_threshold" (toString c.parallelThreshold) "1" (toString maxCount)
      "A wave needs at least one batch")
  else .ok ()

/-- What messages call a configuration. -/
def title : String := "EscapeConfig"

/-- The number of workers, if the configuration fixes it. -/
def threads? (c : Config) : Option Nat := if c.numThreads = 0 then none else some c.numThreads

end Config

/-- New values for some of the fields of a configuration. -/
structure Patch where
  diagnosticLevel : Option Nat := none
  preciseRecursiveCalls : Option Bool := none
  enableParallel : Option Bool := none
  numThreads : Option Nat := none
  parallelThreshold : Option Nat := none
  maxWalkRounds : Option Nat := none
deriving DecidableEq, Inhabited

namespace Patch

def apply (p : Patch) (c : Config) : Config where
  diagnosticLevel := p.diagnosticLevel.getD c.diagnosticLevel
  preciseRecursiveCalls := p.preciseRecursiveCalls.getD c.preciseRecursiveCalls
  enableParallel := p.enableParallel.getD c.enableParallel
  numThreads := p.numThreads.getD c.numThreads
  parallelThreshold := p.parallelThreshold.getD c.parallelThreshold
  maxWalkRounds := p.maxWalkRounds.getD c.maxWalkRounds

end Patch

end EscapeFlow
