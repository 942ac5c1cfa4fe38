import JsonPatch.Patch.Basic

namespace JsonPatch

/-- Levels of reports, the weightiest first. -/
inductive Level where
  | error
  | warn
  | info
  | debug
  | trace
  deriving DecidableEq

namespace Level

/-- The rank of a level; weightier levels have lower ranks. -/
def rank : Level → Nat
  | error => 0
  | warn => 1
  | info => 2
  | debug => 3
  | trace => 4

def name : Level → String
  | error => "ERROR"
  | warn => "WARN"
  | info => "INFO"
  | debug => "DEBUG"
  | trace => "TRACE"

end Level

/-- A report: a patch was read, an operation is about to be applied, a pointer is followed one token
down, a removal found nothing to remove, or a whole run took one of its steps. -/
inductive Event where
  | patchRead (operations : Nat)
  | applying (index : Nat) (operation : Operation)
  | descending (pointer : String) (depth : Nat) (token : String)
  | memberMissing (pointer : String)
  | rootKept
  | patchLoaded (operations : Nat)
  | patchApplied (operations : Nat)

/-- A detail of a report: a count, a text, or a phrase that is never quoted. -/
inductive Detail where
  | count (value : Nat)
  | text (value : String)
  | phrase (value : String)

namespace Event

def level : Event → Level
  | patchRead _ | applying .. | rootKept | patchLoaded _ => .debug
  | descending .. | memberMissing _ => .trace
  | patchApplied _ => .info

def target : Event → String
  | patchRead _ => "jpatch_core::document"
  | applying .. | descending .. | memberMissing _ | rootKept => "jpatch_core::patch"
  | patchLoaded _ | patchApplied _ => "jpatch"

def message : Event → String
  | patchRead _ => "parsed patch document"
  | applying .. => "applying patch operation"
  | descending .. => "descending"
  | memberMissing _ => "remove of a missing member"
  | rootKept => "remove of the document root leaves the document unchanged"
  | patchLoaded _ => "patch loaded"
  | patchApplied _ => "patch applied"

def details : Event → List (String × Detail)
  | patchRead n | patchLoaded n | patchApplied n => [("operations", .count n)]
  | applying index operation => [("index", .count index), ("operation", .phrase operation.shown)]
  | descending pointer depth token =>
    [("pointer", .text pointer), ("depth", .count depth), ("token", .text token)]
  | memberMissing pointer => [("pointer", .text pointer)]
  | rootKept => []

end Event

/-- The events of a computation, in order, and how it ended. -/
structure Traced (ε α : Type) where
  events : List Event
  outcome : Except ε α

namespace Traced

variable {ε δ α β : Type}

def succeed (value : α) : Traced ε α := ⟨[], .ok value⟩

def fail (error : ε) : Traced ε α := ⟨[], .error error⟩

def report (event : Event) : Traced ε Unit := ⟨[event], .ok ()⟩

def ofExcept (outcome : Except ε α) : Traced ε α := ⟨[], outcome⟩

/-- Goes on with the value of the first computation; after a fault nothing more happens. -/
def andThen (first : Traced ε α) (next : α → Traced ε β) : Traced ε β :=
  match first.outcome with
  | .ok value => ⟨first.events ++ (next value).events, (next value).outcome⟩
  | .error error => ⟨first.events, .error error⟩

instance : Monad (Traced ε) where
  pure := succeed
  bind := andThen

def mapError (f : ε → δ) (computation : Traced ε α) : Traced δ α :=
  ⟨computation.events, computation.outcome.mapError f⟩

/-- Ends with the outcome itself as the value, so that a fault does not end what follows. -/
def attempt (computation : Traced ε α) : Traced δ (Except ε α) :=
  ⟨computation.events, .ok computation.outcome⟩

end Traced

end JsonPatch
