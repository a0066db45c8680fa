set_option autoImplicit false

/-! # The update queue

Writes to state mark an instance as pending. The first work that comes to a queue at rest asks the
host for a frame; what comes later joins it. Taking the frame empties the queue, so work that comes
while the frame is carried out waits for the next one. -/

namespace LiveMarkup

/-- One component instance. -/
structure InstanceRef where
  component : String
  key : String
  deriving DecidableEq, Repr

def InstanceRef.text (i : InstanceRef) : String := i.component ++ ":" ++ i.key

/-- Pending instances and deferred callbacks, both in the order in which they came. No two pending
instances have the same key. -/
structure Queue (α : Type) where
  pending : List InstanceRef
  deferred : List α
  armed : Bool
  /-- How often the host has been asked for a frame. -/
  requests : Nat

/-- The work of one frame. -/
structure FrameWork (α : Type) where
  updates : List InstanceRef
  deferred : List α

namespace Queue

variable {α : Type}

def empty : Queue α := ⟨[], [], false, 0⟩

def isPending (q : Queue α) (key : String) : Bool := q.pending.any fun i => i.key = key

/-- Asks for a frame unless one has been asked for. -/
def arm (q : Queue α) : Queue α :=
  { q with armed := true, requests := if q.armed then q.requests else q.requests + 1 }

/-- Marks an instance as pending; false when it was. -/
def schedule (q : Queue α) (i : InstanceRef) : Bool × Queue α :=
  if q.isPending i.key then (false, q)
  else (true, arm { q with pending := q.pending ++ [i] })

/-- Runs a callback on the next frame. -/
def defer (q : Queue α) (callback : α) : Queue α :=
  arm { q with deferred := q.deferred ++ [callback] }

def takeFrame (q : Queue α) : FrameWork α × Queue α :=
  (⟨q.pending, q.deferred⟩, { q with pending := [], deferred := [], armed := false })

end Queue

def FrameWork.isEmpty {α : Type} (w : FrameWork α) : Bool := w.updates.isEmpty && w.deferred.isEmpty

end LiveMarkup
