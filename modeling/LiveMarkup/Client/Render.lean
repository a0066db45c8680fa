import LiveMarkup.Client.Setup
set_option autoImplicit false

/-! # Rendering instances

An instance is rendered from its data record. The component occurrences in its template resolve to
instances in turn, which are brought to life where they are new, and shown or hidden. A failed
render goes through the fallback of the instance if it has one. -/

namespace LiveMarkup.Client

/-- How deep components may render components. -/
def maxDepth : Nat := 128

/-- Services of the store to the renders of a client. -/
def services (budget : Nat) : Host Client where
  fresh := fun c => let (i, store) := c.store.fresh; (i, { c with store })
  call := fun f args => (f.call budget args).within Client.store fun store c => { c with store }

/-- The data record of an instance as a new object. -/
def instanceData (i : Instance) : Act Value := do
  let data := i.data (← get).store
  let (ident, store) := (← get).store.fresh
  modify fun c => { c with store }
  return .object ident data

/-- Blocks of a client, as its templates call them. -/
def renderBlock (budget : Nat) (name : String) (args : Value) : Run Client String := do
  let blocks := (← get).blocks
  Blocks.render blocks (services budget) budget name args

/-- How an instance is rendered from its data record. -/
def instanceCall (budget : Nat) (child : String → Value → Bool → Run Client Value) (key : String)
    (data : Value) : RenderCall Client where
  host := services budget
  data := data
  instanceKey := some key
  hostProps := some <| Run.update fun c =>
    let (v, made) := c.host.toValue .made c.store.made
    (v, { c with store := { c.store with made } })
  isServer := false
  visible := true
  block := renderBlock budget
  child := child

/-- Carries out a template in the client's world. -/
def execute (t : Template) (call : RenderCall Client) : Act Rendered := fun c =>
  t.program.execute call c

/-- Renders an instance to markup; `child` renders the occurrences in it. -/
def renderInstance (budget : Nat) (child : String → Value → Bool → Run Client Value)
    (i : Instance) : Attempt String := do
  let data ← instanceData i
  match ← execute i.component.template (instanceCall budget child i.key data) with
  | .ok html => return html
  | .error f =>
    match i.fallback with
    | some fallback => return fallback f.error
    | none => .failed (.render i.component.name i.key f.error.message f.line)

/-- The key that an occurrence of a component resolves to. -/
def resolveKey (name : String) (props : Value) : Act String :=
  modifyGet fun c =>
    let (resolution, registry) :=
      match explicitKey? props with
      | some key => c.registry.resolveExplicit name key
      | none => c.registry.resolve name
    (resolution.key, { c with registry })

/-- Resolves an occurrence to its instance, hands on the props, and shows or hides it. -/
def bindOccurrence (budget : Nat) (component : Component) (name : String) (props : Value)
    (visible : Bool) : Act String := do
  let key ← resolveKey name props
  ensureInstance budget component key props
  modify fun c =>
    let c := c.modifyInstance key fun i => { i with props }
    { c with host := c.host.record name key props }
  transition budget key visible
  return key

/-- Renders a component occurrence. `remaining` is how many more components may be rendered inside
one another. -/
def renderChild (budget : Nat) : (remaining : Nat) → String → Value → Bool → Run Client Value
  | remaining, reference, props, visible => do
    let name := componentName reference
    match (← get).component? name with
    | none => .failed (.componentNotFound reference)
    | some component => do
      let key ← bindOccurrence budget component name props visible
      if !visible then return .markup ""
      match remaining with
      | 0 =>
        .failed (.custom ("component nesting deeper than " ++ toString maxDepth ++ " levels at " ++
          name))
      | remaining + 1 =>
        match (← get).instance? key with
        | none => return .markup ""
        | some i =>
          match ← (renderInstance budget (renderChild budget remaining) i).run with
          | .ok html => return .markup html
          | .error e => .failed (.custom e.message)

end LiveMarkup.Client
