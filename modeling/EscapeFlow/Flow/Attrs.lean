/-!
# Attributes of locations

Four attributes, kept as the low bits of a word.  Bits above them carry no meaning but are
kept by every operation.
-/

namespace EscapeFlow

inductive Attr where
  /-- The storage has to be on the heap. -/
  | escapes
  /-- The storage lives on after the statement that made it. -/
  | persists
  /-- Memory reached from here may be written through an alias. -/
  | mutates
  /-- A closure reached from here may be called indirectly. -/
  | calls
deriving DecidableEq, Inhabited

namespace Attr

def all : List Attr := [.escapes, .persists, .mutates, .calls]

def bit : Attr → Nat
  | .escapes => 0
  | .persists => 1
  | .mutates => 2
  | .calls => 3

def name : Attr → String
  | .escapes => "escapes"
  | .persists => "persists"
  | .mutates => "mutates"
  | .calls => "calls"

end Attr

structure Attrs where
  bits : BitVec 8
deriving DecidableEq, Inhabited

namespace Attrs

def empty : Attrs := ⟨0⟩

def ofAttr (a : Attr) : Attrs := ⟨1#8 <<< a.bit⟩

def all : Attrs := ⟨15⟩

/-- What a location hands on to whatever it reads: writes and calls through it. -/
def effects : Attrs := ⟨12⟩

def has (s : Attrs) (a : Attr) : Bool := s.bits.getLsbD a.bit

def union (s t : Attrs) : Attrs := ⟨s.bits ||| t.bits⟩

def inter (s t : Attrs) : Attrs := ⟨s.bits &&& t.bits⟩

def diff (s t : Attrs) : Attrs := ⟨s.bits &&& ~~~t.bits⟩

def isEmpty (s : Attrs) : Bool := s.bits = 0

/-- Whether every bit of `t` is in `s`. -/
def contains (s t : Attrs) : Bool := s.inter t = t

def escapes (s : Attrs) : Bool := s.has .escapes

def persists (s : Attrs) : Bool := s.has .persists

def mutates (s : Attrs) : Bool := s.has .mutates

def calls (s : Attrs) : Bool := s.has .calls

/-- Whether `t` has one of the four attributes that `s` lacks. -/
def gains (s t : Attrs) : Bool := Attr.all.any fun a => t.has a && !s.has a

/-- How many of the four attributes are missing. -/
def missing (s : Attrs) : Nat := Attr.all.countP fun a => !s.has a

def text (s : Attrs) : String :=
  match (Attr.all.filter s.has).map Attr.name with
  | [] => "none"
  | names => "|".intercalate names

@[simp]
theorem has_union (s t : Attrs) (a : Attr) : (s.union t).has a = (s.has a || t.has a) := by
  simp [has, union]

@[simp]
theorem has_inter (s t : Attrs) (a : Attr) : (s.inter t).has a = (s.has a && t.has a) := by
  simp [has, inter]

@[simp]
theorem has_empty (a : Attr) : empty.has a = false := by
  cases a <;> rfl

@[simp]
theorem has_all (a : Attr) : all.has a = true := by
  cases a <;> rfl

theorem has_effects (a : Attr) :
    effects.has a = (decide (a = .mutates) || decide (a = .calls)) := by
  cases a <;> rfl

theorem has_ofAttr (a b : Attr) : (ofAttr a).has b = decide (a = b) := by
  cases a <;> cases b <;> rfl

theorem missing_union_lt {s t : Attrs} (h : s.gains t = true) :
    (s.union t).missing < s.missing := by
  simp only [missing, gains, Attr.all, List.any_cons, List.any_nil, List.countP_cons,
    List.countP_nil, has_union] at h ⊢
  revert h
  cases s.has .escapes <;> cases s.has .persists <;> cases s.has .mutates <;>
    cases s.has .calls <;> cases t.has .escapes <;> cases t.has .persists <;>
    cases t.has .mutates <;> cases t.has .calls <;> simp

end Attrs

end EscapeFlow
