import LiveMarkup.Client.Binding
import LiveMarkup.Client.Render
set_option autoImplicit false

/-! # Events

The nearest attribute at or above the target that binds an event names its handler, and the nearest
root at or above that names the instance it belongs to. -/

namespace LiveMarkup.Client

/-- The text of the binding that an event at a node reaches, and the key of its instance. -/
def locate? (d : Document) (target : NodeId) (name : String) : Option (String × String) := do
  let bound ← d.closest? target name
  let binding ← d.attribute? bound name
  let root ← d.closest? bound rootAttribute
  let key ← d.attribute? root rootAttribute
  return (binding, key)

/-- Takes over the live value that comes with an event, if its target is a form control. -/
def takeValue (target : NodeId) (event : Event) (d : Document) : Document :=
  match event.value, d.value? target with
  | some value, some _ => d.setValue target value
  | _, _ => d

/-- The values of the arguments of a binding. -/
def arguments (budget : Nat) (b : Binding) (data : Value) : Attempt (List Value) := do
  match ← Attempt.ofExcept (fun e => .eventBinding b.text e.message) b.expression? with
  | none => return []
  | some e => do
    let result ← Act.onStore (e.eval (.plain (Store.host budget) data) .empty)
    let v ← Attempt.ofExcept (.callback ("arguments of " ++ b.handler)) result
    return Binding.argumentsOf v

/-- Runs the handler that a binding names. -/
def handle (budget : Nat) (i : Instance) (binding : String) (event : Event) : Attempt Unit := do
  let b ← Attempt.ofExcept (.eventBinding binding) (Binding.parse binding)
  match Table.get? b.handler i.handlers with
  | none => .failed (.eventBinding binding ("no event handler named " ++ b.handler))
  | some handler => do
    let data ← instanceData i
    let args ← arguments budget b data
    let context := i.ref.text ++ " " ++ Binding.attributeName event.name
    let result ← Act.onStore (Store.carryOut budget (handler event args))
    let _ ← Attempt.ofExcept (.callback context) result

/-- Delivers an event at a node; false when nothing is bound to it. -/
def dispatch (budget : Nat) (target : NodeId) (event : Event) : Attempt Bool := do
  modify fun c => { c with document := takeValue target event c.document }
  match locate? (← get).document target (Binding.attributeName event.name) with
  | none => return false
  | some (binding, key) =>
    match (← get).instance? key with
    | none => return false
    | some i => do
      handle budget i binding event
      return true

end LiveMarkup.Client
