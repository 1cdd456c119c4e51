import EscapeFlow.Config.Fault
import EscapeFlow.Program.Text

/-!
# Errors

Why building a program, reading a summary or running the analysis stops.  All wording is in
`Error.message` and the functions it calls.  `isInput` tells the faults of the program under
analysis from those of the analysis itself and of its configuration.
-/

namespace EscapeFlow

/-- A body or a table that no analysis can make sense of. -/
inductive Malformed where
  | assignCount (values targets : Nat)
  | returnCount (func : String) (values declared : Nat)
  | spawnOfNonCall (e : Expr)
  | notAssignable (e : Expr)
  | notAddressable (e : Expr)
  | noEnclosing (func : String)
  | notClosure (f : FuncId)
  | other (text : String)

namespace Malformed

def message : Malformed → String
  | .assignCount values targets => s!"assignment of {values} values to {targets} targets"
  | .returnCount func values declared => s!"{func} returns {values} values, declares {declared}"
  | .spawnOfNonCall e => "go/defer of non-call " ++ e.text
  | .notAssignable e => "not assignable: " ++ e.text
  | .notAddressable e => "cannot take the address of " ++ e.text
  | .noEnclosing func => s!"closure {func} has no valid enclosing function"
  | .notClosure f => f.text ++ " is not a closure"
  | .other text => text

end Malformed

/-- Why a text is no leak summary. -/
inductive SummaryFault where
  | missingHead (text : String)
  | badLength (text : String)
  | badByte (i : Nat) (text : String)
  | other (text : String)

namespace SummaryFault

def message : SummaryFault → String
  | .missingHead text => "missing prefix: " ++ Text.quote text
  | .badLength text => "bad length: " ++ Text.quote text
  | .badByte i text => s!"bad byte at {i}: " ++ Text.quote text
  | .other text => text

end SummaryFault

/-- A state that the analysis itself should never reach. -/
inductive Unexpected where
  | holeBelowAddress (derefs : Int)
  | teeOfAddress
  | other (text : String)

namespace Unexpected

def message : Unexpected → String
  | .holeBelowAddress derefs => s!"hole derefs underflow ({derefs})"
  | .teeOfAddress => "tee hole with negative derefs"
  | .other text => text

end Unexpected

inductive Error where
  | duplicateLocation (name : String)
  | unknownVariable (v : VarId)
  | unknownFunction (f : FuncId)
  | invalidSite (s : SiteId)
  | malformed (why : Malformed)
  | malformedSummary (why : SummaryFault)
  | summaryFinalized (f : FuncId)
  | internal (why : Unexpected)
  | config (fault : ConfigFault)

namespace Error

def message : Error → String
  | .duplicateLocation name => s!"Duplicate location for {name}"
  | .unknownVariable v => "Unknown variable " ++ v.text
  | .unknownFunction f => "Unknown function " ++ f.text
  | .invalidSite s => "Invalid allocation site " ++ s.text
  | .malformed why => "Malformed IR: " ++ why.message
  | .malformedSummary why => "Malformed leak summary: " ++ why.message
  | .summaryFinalized f => "Summary for " ++ f.text ++ " already finalized"
  | .internal why => "Internal error: " ++ why.message
  | .config fault => "Configuration error: " ++ fault.message

/-- Whether the program under analysis is to blame. -/
def isInput : Error → Bool
  | .internal _ | .config _ => false
  | _ => true

end Error

end EscapeFlow
