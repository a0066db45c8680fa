import LiveMarkup.Client.Render
import LiveMarkup.Document.Parse
import LiveMarkup.Document.Reconcile
import LiveMarkup.Json.Parse
set_option autoImplicit false

/-! # Hydration and frames

A page comes with the props of every instance that was rendered. Hydration brings these instances to
life; those whose root is in the document count as shown. From then on a frame renders every pending
instance again and patches its root in place. -/

namespace LiveMarkup.Client

/-! ## Hydration -/

/-- Brings one recorded instance to life. -/
def hydrateInstance (budget : Nat) (component : Component) (name key : String) (props : Value) :
    Act Unit := do
  modify fun c => { c with host := c.host.record name key props }
  ensureInstance budget component key props
  if let some root ← modifyGet fun c => c.mountedRoot key then
    modify fun c => { c with document := c.document.syncProperties root }
    transition budget key true

/-- Brings the recorded instances of one component to life. -/
def hydrateInstances (budget : Nat) (component : Component) (name : String) :
    Table Value → Act Unit
  | [] => pure ()
  | (key, props) :: rest => do
    hydrateInstance budget component name key props
    hydrateInstances budget component name rest

/-- Goes through the recorded components up to the first that is not registered. -/
def hydrateComponents (budget : Nat) : Table (Table Value) → Attempt Unit
  | [] => pure ()
  | (name, instances) :: rest => do
    match (← get).component? name with
    | none => .failed (.unknownComponent name)
    | some component => do
      hydrateInstances budget component name instances
      hydrateComponents budget rest

/-- Brings the instances of a page to life from its recorded props. -/
def hydrate (budget : Nat) (pageProps : Value) : Attempt Unit := do
  hydrateComponents budget (HostProps.ofValue pageProps).entries
  modify fun c => { c with registry := c.registry.seed c.host }

/-- Hydrates from the JSON text that a page carries. -/
def hydrateText (budget : Nat) (text : String) : Attempt Unit := do
  match Json.parse? Json.depthLimit text with
  | none => .failed .pageProps
  | some doc => do
    let (pageProps, made) := Value.ofJson .made (← get).store.made doc
    modify fun c => { c with store := { c.store with made } }
    hydrate budget pageProps

/-! ## Updates -/

/-- Puts fresh markup in the place of a root. Markup without an element changes no more than the
boolean properties. -/
def place (key : String) (root : NodeId) (html : String) (c : Client) : Client :=
  let fresh := Document.parse html
  let (placed, document) :=
    match fresh.firstElementChild? Document.root with
    | some new => c.document.reconcile root fresh new
    | none => (root, c.document)
  { c with document := document.syncProperties placed }.modifyInstance key fun i =>
    { i with root := some placed }

/-- Renders an instance again and patches its root. One that is unknown or not in the document is
passed over. -/
def updateComponent (budget : Nat) (key : String) : Attempt Unit := do
  match (← get).instance? key, ← modifyGet fun c => c.mountedRoot key with
  | some i, some root => do
    modify fun c => { c with registry := c.registry.resetCursors }
    let html ← renderInstance budget (renderChild budget maxDepth) i
    fire budget key .beforeUpdate
    modify (place key root html)
    fire budget key .updated
  | _, _ => pure ()

/-- Renders pending instances in order; the first failure, if one fails. -/
def updateAll (budget : Nat) : List InstanceRef → Act (Option ClientError)
  | [] => pure none
  | i :: rest => do
    let first ← (updateComponent budget i.key).run
    let others ← updateAll budget rest
    match first with
    | .error e => return some e
    | .ok () => return others

/-- Carries out one frame: every pending instance, then every callback. Work that comes meanwhile
waits for the next frame. A failed instance does not keep the others from being updated. -/
def runFrame (budget : Nat) : Attempt Unit := do
  let work ← modifyGet fun c =>
    let (work, store) := c.store.takeFrame
    (work, { c with store })
  let failure ← updateAll budget work.updates
  let _ ← Act.onStore (Store.carryOutAll budget work.deferred)
  match failure with
  | some e => .failed e
  | none => pure ()

end LiveMarkup.Client
