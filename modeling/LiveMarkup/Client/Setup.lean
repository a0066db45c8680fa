import LiveMarkup.Client.Basic
set_option autoImplicit false

/-! # Bringing instances to life

The first time that an instance is met, its setup runs: every declaration takes effect on the
instance at once. Watchers that come before there is state wait for it. -/

namespace LiveMarkup.Client

/-- Goes through a setup; `waiting` are the watchers for which there is no state yet. -/
def runSetup (budget : Nat) (key : String) : Setup → List (String × Watcher) → Act Unit
  | .done, _ => pure ()
  | .props next, waiting => do
    let props := (((← get).instance? key).map Instance.props).getD .null
    runSetup budget key (next props) waiting
  | .propTypes types next, waiting => do
    let props := (((← get).instance? key).map Instance.props).getD .null
    let (ident, store) := (← get).store.fresh
    let checked := Value.object ident (checkProps types props.fields).2
    modify fun c => { c with store }.modifyInstance key fun i => { i with props := checked }
    runSetup budget key (next checked) waiting
  | .proxy initial next, waiting => do
    let owner := (((← get).instance? key).map Instance.ref).getD ⟨"", key⟩
    let (id, store) := (← get).store.newSignal owner (Table.ofList initial) true
    let store := waiting.foldl (fun s (watched, w) => s.watch id watched w) store
    modify fun c => { c with store }.modifyInstance key fun i => { i with signal := some id }
    runSetup budget key (next id owner) []
  | .methods methods next, waiting => do
    let (named, store) := (← get).store.nameMethods methods
    modify fun c =>
      { c with store }.modifyInstance key fun i => { i with methods := i.methods ++ named }
    runSetup budget key next waiting
  | .events handlers next, waiting => do
    modify fun c => c.modifyInstance key fun i =>
      { i with handlers := Table.extend i.handlers handlers }
    runSetup budget key next waiting
  | .watch watched watcher next, waiting => do
    match (← get).signal? key with
    | some id => do
      modify fun c => { c with store := c.store.watch id watched watcher }
      runSetup budget key next waiting
    | none => runSetup budget key next (waiting ++ [(watched, watcher)])
  | .onError fallback next, waiting => do
    modify fun c => c.modifyInstance key fun i => { i with fallback := some fallback }
    runSetup budget key next waiting
  | .load action next, waiting => do
    let _ ← Act.onStore (Store.carryOut budget action)
    runSetup budget key next waiting
  | .useSignal other next, waiting => do
    runSetup budget key (next ((← get).signal? other)) waiting
  | .on stage hook next, waiting => do
    modify fun c => c.modifyInstance key fun i => { i with hooks := i.hooks ++ [(stage, hook)] }
    runSetup budget key next waiting
  | .act effect next, waiting => do
    let _ ← Act.onStore (Store.carryOut budget effect)
    runSetup budget key next waiting

/-- Makes sure that there is an instance under a key: a new one gets the props and runs its
setup. -/
def ensureInstance (budget : Nat) (component : Component) (key : String) (props : Value) :
    Act Unit := do
  if ((← get).instance? key).isNone then
    modify fun c =>
      { c with instances := Table.insert key (.create component key props) c.instances }
    if let some setup := component.setup then runSetup budget key setup []

end LiveMarkup.Client
