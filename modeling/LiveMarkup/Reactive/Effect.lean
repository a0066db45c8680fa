import LiveMarkup.Reactive.Queue
import LiveMarkup.Render.Error
import LiveMarkup.Value
set_option autoImplicit false

/-! # Effects

What a callback of a component does, as a tree: each node is one call of the host, and what follows
may depend on what the call returned. Watchers, event handlers and lifecycle hooks are functions
into effects, so whatever they compute, all they do is in this list. -/

namespace LiveMarkup

/-- A handle to the state of one instance. -/
abbrev SignalId := Nat

inductive Effect where
  /-- Ends, perhaps with a value for the caller. -/
  | done (answer : Option Value)
  | fail (error : EvalError)
  /-- Reads a key of a state, null when it is not set. -/
  | read (signal : SignalId) (key : String) (next : Value → Effect)
  /-- Writes a key and asks for a refresh; what follows learns of a failure. -/
  | set (signal : SignalId) (key : String) (value : Value) (next : Option EvalError → Effect)
  /-- Writes several keys, with or without a refresh. -/
  | update (signal : SignalId) (entries : List (String × Value)) (refresh : Bool)
      (next : Option EvalError → Effect)
  /-- Marks an instance as pending; what follows learns whether it was not. -/
  | schedule (instance_ : InstanceRef) (next : Bool → Effect)
  | defer (later : Effect) (next : Effect)
  /-- Leaves an entry in the journal. -/
  | note (entry : List Value) (next : Effect)

namespace Effect

/-- Ends without a value. -/
def finish : Effect := done none

/-- Ends with a failure if there is one. -/
def ofOutcome : Option EvalError → Effect
  | none => finish
  | some e => fail e

/-- Carries out one effect and then another; what the first ends with does not count. -/
def andThen : Effect → Effect → Effect
  | done _, e => e
  | fail _, e => e
  | read s key next, e => read s key fun v => andThen (next v) e
  | set s key v next, e => set s key v fun r => andThen (next r) e
  | update s entries refresh next, e => update s entries refresh fun r => andThen (next r) e
  | schedule i next, e => schedule i fun b => andThen (next b) e
  | defer later next, e => defer later (andThen next e)
  | note entry next, e => note entry (andThen next e)

/-- Carries out a list of effects in order. -/
def sequence (effects : List Effect) : Effect := effects.foldr andThen finish

end Effect

/-- What is done when a key is written: from the old and the new value, an effect that may end with
a value to store instead. -/
abbrev Watcher := Value → Value → Effect

end LiveMarkup
