import EscapeFlow.Config.Fault
import EscapeFlow.Error
import EscapeFlow.Flow.Walk
import EscapeFlow.Report.Decision

/-!
# Log

What happens during an analysis, as events with a level and a message.  A `Traced` computation
gives its events together with its result, also when it fails.
-/

namespace EscapeFlow

/-- Levels from the most to the least severe. -/
inductive Level where
  | error
  | warn
  | info
  | debug
  | trace
deriving DecidableEq, Inhabited

namespace Level

def all : List Level := [.error, .warn, .info, .debug, .trace]

def name : Level → String
  | .error => "error"
  | .warn => "warn"
  | .info => "info"
  | .debug => "debug"
  | .trace => "trace"

def ofName? (s : String) : Option Level := all.find? (·.name = s)

def rank : Level → Nat
  | .error => 0
  | .warn => 1
  | .info => 2
  | .debug => 3
  | .trace => 4

end Level

inductive Event where
  | configRejected (fault : ConfigFault)
  | planned (functions references batches waves : Nat)
  | started (functions batches waves : Nat)
  | built (batch locations edges : Nat)
  | relaxed (r : Relaxation)
  | limitReached (limit pending : Nat)
  | diagnosed (func message : String)
  | explained (step : FlowStep)
  | batchDone (batch : Nat) (roots : List String) (recursive : Bool) (stats : Stats)
  | waveDone (wave batches : Nat)
  | finished (stats : Stats)

namespace Event

def level : Event → Level
  | .configRejected _ | .limitReached _ _ => .warn
  | .started _ _ _ | .finished _ => .info
  | .planned _ _ _ _ | .diagnosed _ _ | .explained _ | .batchDone _ _ _ _ | .waveDone _ _ => .debug
  | .built _ _ _ | .relaxed _ => .trace

def message : Event → String
  | .configRejected fault => "EscapeConfig rejected: " ++ fault.message
  | .planned functions references batches waves =>
    s!"call graph: {functions} functions, {references} references, {batches} batches, {waves} waves"
  | .started functions batches waves =>
    s!"escape analysis: {functions} functions, {batches} batches, {waves} waves"
  | .built batch locations edges => s!"built batch {batch}: {locations} locations, {edges} edges"
  | .relaxed r => s!"relax L{r.src} -> L{r.dst} derefs={r.derefs}"
  | .limitReached limit pending =>
    s!"walk limit {limit} reached with {pending} roots pending; " ++
      "treating every location as escaping"
  | .diagnosed func message => s!"{func}: {message}"
  | .explained step => "  " ++ step.text
  | .batchDone batch roots recursive s =>
    s!"batch {batch} [" ++ Text.separated ", " roots ++ "]" ++
      (if recursive then " (recursive)" else "") ++
      s!": {s.locations} locations, {s.edges} edges, {s.walks} walks"
  | .waveDone wave batches => s!"wave {wave}: {batches} batches done"
  | .finished s =>
    s!"escape analysis done in {s.durationMs}ms: {s.heapSites} heap, " ++
      s!"{s.stackSites} stack, {s.walks} walks"

/-- Whether an event is shown to someone who asked for a level. -/
def shownAt (asked : Level) (e : Event) : Bool := e.level.rank ≤ asked.rank

end Event

/-- A result, or the error that prevented it, and what happened before. -/
structure Traced (α : Type) where
  events : List Event
  result : Except Error α

namespace Traced

variable {α β : Type}

def pure (a : α) : Traced α := ⟨[], .ok a⟩

def bind (x : Traced α) (f : α → Traced β) : Traced β :=
  match x.result with
  | .ok a => ⟨x.events ++ (f a).events, (f a).result⟩
  | .error e => ⟨x.events, .error e⟩

instance : Monad Traced where
  pure := pure
  bind := bind

def log (events : List Event) : Traced Unit := ⟨events, .ok ()⟩

def ofExcept (x : Except Error α) : Traced α := ⟨[], x⟩

@[simp]
theorem result_bind (x : Traced α) (f : α → Traced β) :
    (x >>= f).result = x.result >>= fun a => (f a).result := by
  show (bind x f).result = _
  unfold bind
  cases h : x.result <;> rfl

@[simp]
theorem result_log (events : List Event) : (log events).result = .ok () := rfl

@[simp]
theorem result_ofExcept (x : Except Error α) : (ofExcept x).result = x := rfl

end Traced

end EscapeFlow
