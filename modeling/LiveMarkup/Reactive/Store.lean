import LiveMarkup.Reactive.Effect
import LiveMarkup.Render.Call
set_option autoImplicit false

/-! # Observable state

A store holds the state of every instance that has one, the update queue, and the journal of what
callbacks noted. Every write runs the watcher of its key with the old and the new value; a watcher
may put another value in the place of the new one, and when it fails the old one comes back. A
watcher may write in turn, so writes take a budget: how deep they may be nested. -/

namespace LiveMarkup

/-- The state of one instance. -/
structure SignalState where
  owner : InstanceRef
  data : Table Value
  watchers : Table Watcher
  /-- Whether a refresh of this state reaches the queue. -/
  queued : Bool

structure Store where
  signals : Array SignalState
  queue : Queue Effect
  /-- Entries left by callbacks, in order. -/
  journal : Array (List Value)
  /-- How many identities have been given out. -/
  made : Nat

namespace Store

def empty : Store := ⟨#[], .empty, #[], 0⟩

/-- A new identity. -/
def fresh (s : Store) : Ident × Store := (.made s.made, { s with made := s.made + 1 })

def note (s : Store) (entry : List Value) : Store := { s with journal := s.journal.push entry }

/-- Empties the journal. -/
def takeJournal (s : Store) : Array (List Value) × Store := (s.journal, { s with journal := #[] })

def schedule (s : Store) (i : InstanceRef) : Bool × Store :=
  let (added, queue) := s.queue.schedule i
  (added, { s with queue })

def defer (s : Store) (callback : Effect) : Store := { s with queue := s.queue.defer callback }

/-- Takes the work of a frame out of the queue. -/
def takeFrame (s : Store) : FrameWork Effect × Store :=
  let (work, queue) := s.queue.takeFrame
  (work, { s with queue })

/-! ## Signals -/

def newSignal (s : Store) (owner : InstanceRef) (data : Table Value) (queued : Bool) :
    SignalId × Store :=
  (s.signals.size, { s with signals := s.signals.push ⟨owner, data, [], queued⟩ })

/-- The fields of a state. -/
def snapshot (s : Store) (i : SignalId) : Table Value :=
  match s.signals[i]? with
  | some state => state.data
  | none => []

theorem snapshot_congr {s s' : Store} (h : s'.signals = s.signals) (i : SignalId) :
    s'.snapshot i = s.snapshot i := by
  unfold snapshot
  rw [h]

def read (s : Store) (i : SignalId) (key : String) : Value :=
  (Table.get? key (s.snapshot i)).getD .null

/-- Stores a value without running a watcher. -/
def put (s : Store) (i : SignalId) (key : String) (v : Value) : Store :=
  { s with signals := s.signals.modify i fun state =>
      { state with data := Table.insert key v state.data } }

/-- Installs the watcher of a key in the place of any other. -/
def watch (s : Store) (i : SignalId) (key : String) (w : Watcher) : Store :=
  { s with signals := s.signals.modify i fun state =>
      { state with watchers := Table.insert key w state.watchers } }

def watcher? (s : Store) (i : SignalId) (key : String) : Option Watcher :=
  s.signals[i]?.bind fun state => Table.get? key state.watchers

/-- Marks the owner of a state as pending, if the state reaches the queue. -/
def refresh (s : Store) (i : SignalId) : Store :=
  match s.signals[i]? with
  | some state => if state.queued then (s.schedule state.owner).2 else s
  | none => s

end Store

/-- How a key of a state is written. -/
abbrev Writer := SignalId → String → Value → Run Store Unit

namespace Store

/-- Writes a key and asks for a refresh once that succeeded. -/
def setWith (write : Writer) (i : SignalId) (key : String) (v : Value) : Run Store Unit := do
  write i key v
  Run.update fun s => ((), s.refresh i)

/-- Writes entries up to the first failure; how many were written. -/
def writeAll (write : Writer) (i : SignalId) :
    List (String × Value) → Run Store (Nat × Option EvalError)
  | [] => pure (0, none)
  | (key, v) :: rest => do
    match ← (write i key v).failure? with
    | some e => return (0, some e)
    | none =>
      let (written, outcome) ← writeAll write i rest
      return (written + 1, outcome)

/-- Writes a batch. What was written before a failure stays written, and is refreshed. -/
def updateWith (write : Writer) (i : SignalId) (entries : List (String × Value)) (refresh : Bool) :
    Run Store Unit := do
  let (written, outcome) ← writeAll write i entries
  if refresh && (outcome.isNone || 0 < written) then
    Run.update fun s => ((), s.refresh i)
  match outcome with
  | none => pure ()
  | some e => .failed e

/-! ## Carrying out effects -/

def perform (write : Writer) : Effect → Run Store (Option Value)
  | .done answer => pure answer
  | .fail e => .failed e
  | .read i key next => do
    perform write (next ((← get).read i key))
  | .set i key v next => do
    perform write (next (← (setWith write i key v).failure?))
  | .update i entries refresh next => do
    perform write (next (← (updateWith write i entries refresh).failure?))
  | .schedule i next => do
    perform write (next (← Run.update fun s => s.schedule i))
  | .defer later next => do
    Run.update fun s => ((), s.defer later)
    perform write next
  | .note entry next => do
    Run.update fun s => ((), s.note entry)
    perform write next

/-- Writes a key: the new value goes in, then the watcher of the key runs. When it fails, the value
from before comes back, null if there was none. -/
def write : (budget : Nat) → Writer
  | 0, _, _, _ => .exhausted
  | budget + 1, i, key, v => do
    let old := (← get).read i key
    let watcher? := (← get).watcher? i key
    Run.update fun s => ((), s.put i key v)
    match watcher? with
    | none => pure ()
    | some watcher =>
      match ← (perform (write budget) (watcher old v)).attempt with
      | .ok (some replacement) => Run.update fun s => ((), s.put i key replacement)
      | .ok none => pure ()
      | .error e => do
        Run.update fun s => ((), s.put i key old)
        .failed e

/-- Writes one key and asks for a refresh. -/
def set (budget : Nat) : Writer := setWith (write budget)

/-- Writes several keys, with or without asking for a refresh. -/
def update (budget : Nat) (i : SignalId) (entries : List (String × Value)) (refresh : Bool) :
    Run Store Unit :=
  updateWith (write budget) i entries refresh

/-- Carries out an effect. -/
def carryOut (budget : Nat) (e : Effect) : Run Store (Option Value) := perform (write budget) e

/-- Carries out effects in order; one that fails does not keep the others from running. -/
def carryOutAll (budget : Nat) : List Effect → Run Store Unit
  | [] => pure ()
  | e :: rest => do
    let _ ← (carryOut budget e).failure?
    carryOutAll budget rest

end Store

end LiveMarkup
