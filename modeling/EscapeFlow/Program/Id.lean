/-!
# Handles of the program tables

A program keeps its functions, variables, allocation sites and labels apart, so each
table has a handle type of its own.  A handle is the position of the entry it names, a natural
number: handles do not run out, as those of 32 bits would after 4294967296 entries.
-/

namespace EscapeFlow

structure FuncId where
  index : Nat
deriving DecidableEq, Inhabited

structure VarId where
  index : Nat
deriving DecidableEq, Inhabited

structure SiteId where
  index : Nat
deriving DecidableEq, Inhabited

structure LabelId where
  index : Nat
deriving DecidableEq, Inhabited

/-- Whatever owns storage and receives a decision: a declared variable or an allocation
expression. -/
inductive Site where
  | var (v : VarId)
  | alloc (s : SiteId)
deriving DecidableEq, Inhabited

namespace Site

/-- Variables come before allocations, each by position. -/
def le : Site → Site → Bool
  | .var v, .var w => v.index ≤ w.index
  | .var _, .alloc _ => true
  | .alloc _, .var _ => false
  | .alloc s, .alloc t => s.index ≤ t.index

def text : Site → String
  | .var v => s!"var#{v.index}"
  | .alloc s => s!"alloc#{s.index}"

end Site

def FuncId.text (f : FuncId) : String := s!"FuncId({f.index})"

def VarId.text (v : VarId) : String := s!"VarId({v.index})"

def SiteId.text (s : SiteId) : String := s!"SiteId({s.index})"

def LabelId.text (l : LabelId) : String := s!"LabelId({l.index})"

end EscapeFlow
