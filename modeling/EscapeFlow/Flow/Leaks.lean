import EscapeFlow.Error
import EscapeFlow.Total

/-!
# Leaks of a parameter

For each sink that a parameter can reach, the least number of dereferences after which its
value gets there.  Results beyond the fifth have no slot of their own.

A summary has a written form: `esc:` and then one byte for each slot in two hexadecimal
digits, empty slots at the end left out.  A byte is one more than the depth, and zero stands
for an empty slot.  `decode` reads this form back (`Leaks.encode`, `Leaks.decode`); it takes
digits of either case, and a plus sign for the first digit of a byte.
-/

namespace EscapeFlow

/-- Where a parameter can leak to. -/
inductive Sink where
  | heap
  | mutator
  | callee
  | result (i : Nat)
deriving DecidableEq, Inhabited

namespace Sink

/-- The number of results that are told apart. -/
def trackedResults : Nat := 5

def slot? : Sink → Option (Fin 8)
  | .heap => some 0
  | .mutator => some 1
  | .callee => some 2
  | .result i =>
    if h : i < trackedResults then some ⟨3 + i, by unfold trackedResults at h; omega⟩ else none

def ofSlot (i : Fin 8) : Sink :=
  match i.val with
  | 0 => .heap
  | 1 => .mutator
  | 2 => .callee
  | j => .result (j - 3)

def text : Sink → String
  | .heap => "heap"
  | .mutator => "mutator"
  | .callee => "callee"
  | .result i => s!"result{i}"

end Sink

/-- A leak: the sink and the depth at which it is reached. -/
structure LeakTag where
  sink : Sink
  derefs : Nat
deriving DecidableEq, Inhabited

/-- The depth of a leak is at most 254; deeper ones are recorded as 254. -/
abbrev Depth := Fin 255

def Depth.ofInt (d : Int) : Depth := ⟨min d.toNat 254, by omega⟩

structure Leaks where
  slots : Vector (Option Depth) 8
deriving DecidableEq

namespace Leaks

def empty : Leaks := ⟨Vector.replicate 8 none⟩

instance : Inhabited Leaks := ⟨empty⟩

def get? (l : Leaks) (s : Sink) : Option Nat := do
  let i ← s.slot?
  let d ← l.slots[i]
  return d.val

/-- The lesser of the depth on record and a new one. -/
def lesser (old : Option Depth) (d : Depth) : Depth :=
  match old with
  | none => d
  | some e => if d < e then d else e

/-- Records that the sink is reached after `d` dereferences; a depth below zero counts as zero. -/
def add (l : Leaks) (s : Sink) (d : Int) : Leaks :=
  match s.slot? with
  | none => l
  | some i => ⟨l.slots.set i (some (lesser l.slots[i] (Depth.ofInt d)))⟩

/-- The leaks of a parameter that goes straight to the heap. -/
def toHeap : Leaks := empty.add .heap 0

def isEmpty (l : Leaks) : Bool := l.slots.toList.all (·.isNone)

/-- A slot that a heap leak of depth `heap` makes superfluous is cleared. -/
def keepBelow (heap : Depth) (slot : Option Depth) : Option Depth :=
  slot.filter fun d => d < heap

/-- Drops each leak that the heap leak covers: what reaches the heap no deeper needs no other
record. -/
def optimize (l : Leaks) : Leaks :=
  match l.slots[0] with
  | none => l
  | some heap => ⟨(l.slots.map (keepBelow heap)).set 0 (some heap)⟩

/-- The leaks in the order of the slots. -/
def tags (l : Leaks) : List LeakTag :=
  (List.finRange 8).filterMap fun i => l.slots[i].map fun d => ⟨Sink.ofSlot i, d.val⟩

def text (l : Leaks) : String :=
  match l.tags with
  | [] => "none"
  | tags => Text.separated " " (tags.map fun t => t.sink.text ++ "=" ++ toString t.derefs)

/-! ## Written form -/

/-- Every summary begins with these. -/
def headChars : List Char := ['e', 's', 'c', ':']

def slotByte : Option Depth → Nat
  | none => 0
  | some d => d.val + 1

def slotOfByte (b : Nat) : Option Depth :=
  if h : 0 < b ∧ b < 256 then some ⟨b - 1, by omega⟩ else none

def byteDigits (b : Nat) : List Char := [Nat.digitChar (b / 16), Nat.digitChar (b % 16)]

/-- The bytes of the slots, up to the last that is not empty. -/
def bytes (l : Leaks) : List Nat :=
  ((l.slots.toList.map slotByte).reverse.dropWhile (· == 0)).reverse

def encode (l : Leaks) : String := String.ofList (headChars ++ l.bytes.flatMap byteDigits)

def digitValue? (c : Char) : Option Nat :=
  if '0' ≤ c ∧ c ≤ '9' then some (c.toNat - '0'.toNat)
  else if 'a' ≤ c ∧ c ≤ 'f' then some (c.toNat - 'a'.toNat + 10)
  else if 'A' ≤ c ∧ c ≤ 'F' then some (c.toNat - 'A'.toNat + 10)
  else none

def byte? (hi lo : Char) : Option Nat :=
  if hi = '+' then digitValue? lo
  else do return 16 * (← digitValue? hi) + (← digitValue? lo)

/-- Reads bytes of two characters each; fails with the position of the first bad one. -/
def readBytes (i : Nat) : List Char → Except Nat (List Nat)
  | [] => .ok []
  | [_] => .error i
  | hi :: lo :: rest =>
    match byte? hi lo with
    | none => .error i
    | some b => (readBytes (i + 1) rest).map (b :: ·)

def ofBytes (bs : List Nat) : Leaks := ⟨Vector.ofFn fun i => slotOfByte (bs.getD i.val 0)⟩

/-- The number of bytes that the characters take in UTF-8. -/
def encodedSize (cs : List Char) : Nat := total Char.utf8Size cs

def decode (s : String) : Except Error Leaks :=
  match s.toList with
  | 'e' :: 's' :: 'c' :: ':' :: digits =>
    if encodedSize digits % 2 ≠ 0 ∨ 8 < encodedSize digits / 2 then
      .error (.malformedSummary (.badLength s))
    else
      match readBytes 0 digits with
      | .error i => .error (.malformedSummary (.badByte i s))
      | .ok bs => .ok (ofBytes bs)
  | _ => .error (.malformedSummary (.missingHead s))

end Leaks

end EscapeFlow
