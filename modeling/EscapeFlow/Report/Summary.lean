import EscapeFlow.Flow.Leaks

/-!
# Function summaries

What callers need to know of a function: the leaks of each parameter.  A store takes one
summary for each function and never replaces it.
-/

namespace EscapeFlow

structure Summary where
  func : FuncId
  params : List Leaks
deriving DecidableEq, Inhabited

/-- Summaries in the order in which they came in, no function twice. -/
structure SummaryStore where
  entries : List Summary := []
deriving DecidableEq, Inhabited

namespace SummaryStore

def get? (s : SummaryStore) (f : FuncId) : Option Summary := s.entries.find? (·.func = f)

def insert (s : SummaryStore) (x : Summary) : Except Error SummaryStore :=
  if (s.get? x.func).isSome then .error (.summaryFinalized x.func)
  else .ok ⟨s.entries ++ [x]⟩

/-- Inserts summaries one after the other. -/
def insertAll (s : SummaryStore) (xs : List Summary) : Except Error SummaryStore :=
  xs.foldlM insert s

def size (s : SummaryStore) : Nat := s.entries.length

/-- The summaries by function. -/
def sorted (s : SummaryStore) : List Summary :=
  s.entries.mergeSort fun a b => a.func.index ≤ b.func.index

end SummaryStore

end EscapeFlow
