import LiveMarkup.Reactive.Effect
import LiveMarkup.Reactive.Props
set_option autoImplicit false

/-! # Component setup

The setup of a component declares its state, methods, event handlers, watchers, error fallback and
lifecycle hooks. It is a tree of declarations, each of which may depend on what the ones before it
returned. The server goes through it to learn what a template renders with, the client to bring an
instance to life. -/

namespace LiveMarkup

/-- The stages of an instance's life at which hooks run. -/
inductive Stage where
  | beforeMount
  | mounted
  | beforeUnmount
  | unmounted
  | beforeUpdate
  | updated
  deriving DecidableEq, Repr

namespace Stage

def all : List Stage := [beforeMount, mounted, beforeUnmount, unmounted, beforeUpdate, updated]

def name : Stage → String
  | beforeMount => "BeforeMount"
  | mounted => "Mounted"
  | beforeUnmount => "BeforeUnmount"
  | unmounted => "Unmounted"
  | beforeUpdate => "BeforeUpdate"
  | updated => "Updated"

end Stage

/-- A dispatched event: its name without `on`, and the live value of the target, for form
controls. -/
structure Event where
  name : String
  value : Option String

/-- What is done when an event reaches its binding, from the event and the binding's arguments. -/
abbrev Handler := Event → List Value → Effect

inductive Setup where
  | done
  /-- The props that were passed. -/
  | props (next : Value → Setup)
  /-- The props after checking their types. -/
  | propTypes (types : List (String × PropType)) (next : Value → Setup)
  /-- Creates the state of the instance. -/
  | proxy (initial : List (String × Value)) (next : SignalId → InstanceRef → Setup)
  | methods (methods : List (String × NativeOp)) (next : Setup)
  | events (handlers : List (String × Handler)) (next : Setup)
  /-- Watches a key of the state. -/
  | watch (key : String) (watcher : Watcher) (next : Setup)
  /-- Markup in the place of a failed render. -/
  | onError (fallback : EvalError → String) (next : Setup)
  /-- Something that is done once, on the client only. -/
  | load (action : Effect) (next : Setup)
  /-- The state of another instance, if it has one. -/
  | useSignal (key : String) (next : Option SignalId → Setup)
  | on (stage : Stage) (hook : Effect) (next : Setup)
  /-- Anything else that the setup does. -/
  | act (effect : Effect) (next : Setup)

end LiveMarkup
