import EscapeFlow.Flow.Location

/-!
# Holes

Where the value of an expression goes: into a location after a number of dereferences (one
below zero when its address goes there), or nowhere.
-/

namespace EscapeFlow

structure Hole where
  /-- A hole without destination discards what flows into it. -/
  dst : Option LocId
  derefs : Int := 0
  /-- The last change of `derefs` took an address. -/
  addrTaken : Bool := false
  notes : List Note := []
deriving DecidableEq, Inhabited

namespace Hole

def discard : Hole := ⟨none, 0, false, []⟩

def ofLoc (dst : LocId) : Hole := ⟨some dst, 0, false, []⟩

def isDiscard (k : Hole) : Bool := k.dst.isNone

/-- Changes the number of dereferences; less than minus one has no meaning. -/
def shift (k : Hole) (delta : Int) : Except Error Hole :=
  if k.derefs + delta < -1 then .error (.internal (.holeBelowAddress (k.derefs + delta)))
  else .ok { k with derefs := k.derefs + delta, addrTaken := delta < 0 }

def deref (k : Hole) : Except Error Hole := k.shift 1

def addr (k : Hole) : Except Error Hole := k.shift (-1)

def note (k : Hole) (why : String) (site : Option Site) : Hole :=
  { k with notes := k.notes ++ [⟨why, site⟩] }

end Hole

end EscapeFlow
