import LiveMarkup.Document.Basic
import LiveMarkup.Engine.Server
set_option autoImplicit false

/-! # Component instances

An instance keeps what its setup declared, the props it was last rendered with, and how far its life
has come. Mount hooks run when an instance is first shown and again when it is shown after it was
hidden, unmount hooks when one that was shown is hidden: they alternate. -/

namespace LiveMarkup

/-- A registered component with its compiled template. -/
structure Component where
  name : String
  template : Template
  setup : Option Setup

/-! ## Mounting -/

/-- Which mount stages run at the next change. -/
structure Armed where
  beforeMount : Bool
  mounted : Bool
  beforeUnmount : Bool
  unmounted : Bool
  deriving DecidableEq, Repr

/-- At the start every stage is armed. -/
def Armed.all : Armed := ⟨true, true, true, true⟩

/-- The stage that runs at once, and the one that waits for the next frame. -/
structure Firing where
  now : Option Stage
  later : Option Stage
  deriving DecidableEq, Repr

/-- What becomes of an instance that is shown or hidden. Hiding one that is not mounted does
nothing. -/
def Armed.transition (a : Armed) (shown : Bool) : Firing × Armed :=
  if shown then
    (⟨if a.beforeMount then some .beforeMount else none, if a.mounted then some .mounted else none⟩,
      ⟨false, false, true, true⟩)
  else if a.mounted then (⟨none, none⟩, a)
  else
    (⟨if a.beforeUnmount then some .beforeUnmount else none,
      if a.unmounted then some .unmounted else none⟩,
      ⟨true, true, false, false⟩)

/-! ## Instances -/

structure Instance where
  component : Component
  key : String
  props : Value
  /-- Its state, once it has one. -/
  signal : Option SignalId
  methods : List NativeFn
  handlers : Table Handler
  /-- What is shown in the place of a failed render. -/
  fallback : Option (EvalError → String)
  hooks : List (Stage × Effect)
  armed : Armed
  /-- Where its root was last seen. -/
  root : Option NodeId

namespace Instance

/-- An instance before its setup. -/
def create (component : Component) (key : String) (props : Value) : Instance where
  component := component
  key := key
  props := props
  signal := none
  methods := []
  handlers := []
  fallback := none
  hooks := []
  armed := .all
  root := none

def ref (i : Instance) : InstanceRef := ⟨i.component.name, i.key⟩

/-- The hooks of a stage, in the order of their declaration. -/
def hooksFor (i : Instance) (stage : Stage) : List Effect :=
  (i.hooks.filter fun h => h.1 = stage).map Prod.snd

/-- What the templates and bindings of an instance can name. -/
def data (i : Instance) (s : Store) : Table Value :=
  dataRecord i.props.fields ((i.signal.map s.snapshot).getD []) i.methods

end Instance

end LiveMarkup
