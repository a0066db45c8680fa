import LiveMarkup.Client.Error
import LiveMarkup.Client.Instance
import LiveMarkup.Client.Registry
set_option autoImplicit false

/-! # Clients

A client owns the live document of a page, the registered components and blocks, every component
instance, and the store with the state of the instances. Instances are kept by their key alone. -/

namespace LiveMarkup

structure Client where
  document : Document
  delimiters : Delimiters
  components : Table Component
  blocks : Blocks
  registry : Registry
  instances : Table Instance
  /-- The props that every instance was last rendered with. -/
  host : HostProps
  store : Store

/-- Something a client does that cannot fail; no result means that the budget is exceeded. -/
abbrev Act := StateT Client Option

/-- Something a client does that can fail. What was done before a failure stays done. -/
abbrev Attempt := ExceptT ClientError Act

namespace Act

/-- A computation on the store, with its failure as a result. -/
def onStore {α : Type} (x : Run Store α) : Act (Except EvalError α) := fun c =>
  (x.start c.store).map fun (result, store) => (result, { c with store })

end Act

namespace Attempt

def failed {α : Type} (e : ClientError) : Attempt α := throw e

/-- A result that is there or is the reason of a failure. -/
def ofExcept {ε α : Type} (f : ε → ClientError) : Except ε α → Attempt α
  | .ok a => pure a
  | .error e => failed (f e)

end Attempt

namespace Client

def create (document : Document) (delimiters : Delimiters) : Client where
  document := document
  delimiters := delimiters
  components := []
  blocks := []
  registry := []
  instances := []
  host := .empty
  store := .empty

def component? (c : Client) (name : String) : Option Component := Table.get? name c.components

def instance? (c : Client) (key : String) : Option Instance := Table.get? key c.instances

/-- Changes an instance that is there. -/
def modifyInstance (c : Client) (key : String) (f : Instance → Instance) : Client :=
  match c.instance? key with
  | some i => { c with instances := Table.insert key (f i) c.instances }
  | none => c

/-- The state of the instance under a key. -/
def signal? (c : Client) (key : String) : Option SignalId := (c.instance? key).bind Instance.signal

/-! ## Registering -/

/-- Registers a component, whose template is compiled right away. Instances that are there keep the
one they were made from. -/
def registerComponent (c : Client) (d : ComponentDef) : Except ClientError Client := do
  let template ← (Template.component d.name d.source c.delimiters).mapError .template
  return { c with components := Table.insert d.name ⟨d.name, template, d.setup⟩ c.components }

/-- Registers the blocks of a block file. -/
def registerBlocks (c : Client) (file source : String) :
    Except ClientError (List String) × Client :=
  let (names, blocks) := c.blocks.load file source c.delimiters
  (names.mapError .template, { c with blocks })

/-! ## Roots -/

/-- The element that shows an instance: where it was last seen if it still stands there, and else
the first of the document that is marked with its key. -/
def findRoot (c : Client) (i : Instance) : Option NodeId :=
  let seen := i.root.filter fun root =>
    c.document.contains root && c.document.attribute? root rootAttribute = some i.key
  seen.or (c.document.find? Document.root rootAttribute i.key)

/-- The element that shows the instance under a key, which is remembered. -/
def mountedRoot (c : Client) (key : String) : Option NodeId × Client :=
  match c.instance? key with
  | none => (none, c)
  | some i =>
    let root := c.findRoot i
    (root, c.modifyInstance key fun i => { i with root })

/-! ## Hooks -/

/-- Runs the hooks of a stage. -/
def fire (budget : Nat) (key : String) (stage : Stage) : Act Unit := do
  let hooks := (((← get).instance? key).map fun i => i.hooksFor stage).getD []
  let _ ← Act.onStore (Store.carryOutAll budget hooks)

/-- Leaves the hooks of a stage for the next frame, if there are any. -/
def fireLater (key : String) (stage : Stage) : Act Unit := do
  let hooks := (((← get).instance? key).map fun i => i.hooksFor stage).getD []
  if !hooks.isEmpty then
    modify fun c => { c with store := c.store.defer (.sequence hooks) }

/-- Shows or hides an instance. -/
def transition (budget : Nat) (key : String) (shown : Bool) : Act Unit := do
  match (← get).instance? key with
  | none => pure ()
  | some i =>
    let (firing, armed) := i.armed.transition shown
    modify fun c => c.modifyInstance key fun i => { i with armed }
    if let some stage := firing.now then fire budget key stage
    if let some stage := firing.later then fireLater key stage

end Client

end LiveMarkup
