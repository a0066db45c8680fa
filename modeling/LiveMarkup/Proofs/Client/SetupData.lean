import LiveMarkup.Document.Parse
import LiveMarkup.Proofs.Client.KeyAgreement
import LiveMarkup.Proofs.Client.Rendering
import LiveMarkup.Proofs.Engine.Recording
import LiveMarkup.Proofs.Setup.Declared
import Mathlib
set_option autoImplicit false

/-! # The data of an occurrence

The record that a template is rendered with has the props of the occurrence, over them the state of
its instance, and over that its methods. Both sides collect these from the same setup: the server
while it goes through the setup (`Collected.run_collect`), the client in the instance that it makes
(`Client.run_runSetup`). As long as a setup only declares things, each side ends with what
`Setup.declared` says, whatever its store holds (`Declared.Meets`).

They differ in what follows the setup. The server renders with the props as the setup has left them,
the client puts back those that were passed (`Client.run_bindOccurrence`): the empty texts that a
declared type fills in are there for the one and missing for the other. -/

namespace LiveMarkup

open Value (bareFields)

/-! ## Stores -/

namespace Store

theorem signals_nameMethods (s : Store) (ops : List (String × NativeOp)) :
    (s.nameMethods ops).2.signals = s.signals := by
  induction ops generalizing s with
  | nil => rfl
  | cons first rest ih => exact ih s.fresh.2

theorem names_nameMethods (s : Store) (ops : List (String × NativeOp)) :
    (s.nameMethods ops).1.map NativeFn.name = ops.map Prod.fst := by
  induction ops generalizing s with
  | nil => rfl
  | cons first rest ih => exact congrArg _ (ih s.fresh.2)

theorem snapshot_newSignal (s : Store) (owner : InstanceRef) (data : Table Value) (queued : Bool) :
    (s.newSignal owner data queued).2.snapshot (s.newSignal owner data queued).1 = data := by
  simp [newSignal, snapshot]

end Store

namespace Declared

variable {d : Declared} {props : Table Value} {signal : Option SignalId} {methods : List NativeFn}
  {s s' : Store}

/-- Only the state of an instance counts of a store. -/
theorem Meets.congr (h : d.Meets props signal methods s) (hsignals : s'.signals = s.signals) :
    d.Meets props signal methods s' := by
  refine ⟨h.props, ?_, h.methods⟩
  have hsnapshot : s'.snapshot = s.snapshot := funext (Store.snapshot_congr hsignals)
  rw [hsnapshot]
  exact h.state

theorem Meets.checkProps (h : d.Meets props signal methods s) (types : List (String × PropType)) :
    Meets { d with
        props := (LiveMarkup.checkProps types d.props).2, typed := d.typed ++ types.map Prod.fst }
      (LiveMarkup.checkProps types props).2 signal methods s := by
  refine ⟨?_, h.state, h.methods⟩
  rw [bareFields_checkProps, h.props, ← bareFields_checkProps]

theorem Meets.newSignal (h : d.Meets props signal methods s) (owner : InstanceRef) (queued : Bool)
    {initial initial' : List (String × Value)}
    (hinitial : bareFields initial = bareFields initial') :
    Meets { d with state := Table.ofList initial' } props
      (some (s.newSignal owner (Table.ofList initial) queued).1) methods
      (s.newSignal owner (Table.ofList initial) queued).2 := by
  refine ⟨h.props, ?_, h.methods⟩
  rw [Option.map_some, Option.getD_some, Store.snapshot_newSignal]
  unfold Table.ofList
  rw [Value.bareFields_extend, hinitial, ← Value.bareFields_extend]

theorem Meets.nameMethods (h : d.Meets props signal methods s) {ops ops' : List (String × NativeOp)}
    (hops : ops.map Prod.fst = ops'.map Prod.fst) :
    Meets { d with methods := d.methods ++ ops'.map Prod.fst } props signal
      (methods ++ (s.nameMethods ops).1) (s.nameMethods ops).2 := by
  refine Meets.congr (s := s) ⟨h.props, h.state, ?_⟩ (s.signals_nameMethods ops)
  rw [List.map_append, Store.names_nameMethods, h.methods, hops]

end Declared

/-! ## On the server -/

namespace Collected

/-- A setup that only declares things is gone through, whatever the budget, and leaves what it
declares. -/
theorem run_collect {s s' : Setup} (h : s.Alike s') (budget : Nat) (owner : InstanceRef)
    {c : Collected} {d : Declared} {store : Store}
    (hmeets : d.Meets c.props c.proxy c.methods store) :
    ∃ c' store', ExceptT.run (collect budget owner s c) store = some (.ok c', store') ∧
      (s'.declared owner d).Meets c'.props c'.proxy c'.methods store' := by
  induction h generalizing c d store with
  | done => exact ⟨c, store, rfl, hmeets⟩
  | props _ ih =>
      have hbare : (Value.object store.fresh.1 c.props).bare =
          (Value.object (.given 0) d.props).bare := by
        rw [Value.bare, Value.bare, hmeets.props]
      obtain ⟨c', store', hrun, hmeets'⟩ := @ih _ _ hbare c d store.fresh.2 (hmeets.congr rfl)
      exact ⟨c', store', hrun, hmeets'⟩
  | @propTypes types next next' _ ih =>
      have hchecked := hmeets.checkProps types
      have hbare : (Value.object store.fresh.1 (checkProps types c.props).2).bare =
          (Value.object (.given 0) (checkProps types d.props).2).bare := by
        rw [Value.bare, Value.bare, hchecked.props]
      obtain ⟨c', store', hrun, hmeets'⟩ := @ih _ _ hbare
        { c with props := (checkProps types c.props).2 } _ store.fresh.2 (hchecked.congr rfl)
      exact ⟨c', store', hrun, hmeets'⟩
  | @proxy initial initial' next next' hinitial _ ih =>
      have hnew := hmeets.newSignal owner false hinitial
      obtain ⟨c', store', hrun, hmeets'⟩ := @ih _ 0 owner
        { c with proxy := some (store.newSignal owner (Table.ofList initial) false).1 } _ _ hnew
      exact ⟨c', store', hrun, hmeets'⟩
  | @methods ops ops' next next' hops _ ih =>
      obtain ⟨c', store', hrun, hmeets'⟩ := @ih
        { c with methods := c.methods ++ (store.nameMethods ops).1 } _ _ (hmeets.nameMethods hops)
      exact ⟨c', store', hrun, hmeets'⟩
  | @note entry _ _ _ _ ih =>
      obtain ⟨c', store', hrun, hmeets'⟩ := @ih c d (store.note entry) (hmeets.congr rfl)
      exact ⟨c', store', hrun, hmeets'⟩

end Collected

/-- The record that the server renders an occurrence with: the declared state and methods over the
props, with what declared types have filled in. -/
theorem Website.run_childData {w : Website} {name : String} {setup : Option Setup}
    (hserver : (w.component? name).bind ComponentDef.setup = setup)
    (hsetup : ∀ s, setup = some s → s.Declaratory) (budget : Nat) (key : String) (props : Value)
    (store : Store) :
    let d := (setup.getD .done).declared ⟨name, key⟩ (.start props.fields)
    ∃ ident data store', ExceptT.run (w.childData budget name key props) store =
        some (.ok (.object ident data), store') ∧
      bareFields data = bareFields (d.record d.props) := by
  intro d
  -- what follows the setup puts the record together
  have hrecord : ∀ (c : Collected) (store' : Store), d.Meets c.props c.proxy c.methods store' →
      bareFields (dataRecord c.props ((c.proxy.map store'.snapshot).getD []) c.methods) =
        bareFields (d.record d.props) :=
    fun c store' hmeets => hmeets.bareFields_dataRecord hmeets.props
  cases setup with
  | none =>
      refine ⟨store.fresh.1, _, store.fresh.2, ?_,
        hrecord ⟨props.fields, none, []⟩ store (Declared.meets_start store)⟩
      unfold childData
      rw [hserver]
      rfl
  | some s =>
      have hstart := @Declared.meets_start props.fields store
      obtain ⟨c, store', hrun, hmeets⟩ := @Collected.run_collect _ _ (hsetup s rfl) budget
        ⟨name, key⟩ ⟨props.fields, none, []⟩ _ store hstart
      refine ⟨store'.fresh.1, _, store'.fresh.2, ?_, hrecord c store' hmeets⟩
      unfold childData
      rw [hserver]
      dsimp only
      rw [run_bind, hrun]
      dsimp only
      cases c.proxy <;> rfl

/-! ## On the client -/

namespace Client

/-- The client resolves an occurrence by its registry. -/
theorem resolveKey_eq (name : String) (props : Value) (c : Client) : resolveKey name props c =
    some ((c.registry.resolveOccurrence ⟨name, props⟩).1.key,
      { c with registry := (c.registry.resolveOccurrence ⟨name, props⟩).2 }) := rfl

/-- An instance whose setup has declared some things, and nothing that runs later. -/
structure InSetup (component : Component) (key : String) (d : Declared) (c : Client)
    (i : Instance) : Prop where
  found : c.instance? key = some i
  component_eq : i.component = component
  key_eq : i.key = key
  fallback : i.fallback = none
  hooks : i.hooks = []
  object : ∃ ident fields, i.props = .object ident fields
  meets : d.Meets i.props.fields i.signal i.methods c.store

section

variable {component : Component} {key : String} {d : Declared} {c : Client} {i : Instance}

theorem InSetup.fields (h : InSetup component key d c i) :
    ∃ ident, i.props = .object ident i.props.fields := by
  obtain ⟨ident, fields, hprops⟩ := h.object
  exact ⟨ident, by rw [hprops]; rfl⟩

/-- A declaration changes the props, the state or the methods of the instance. -/
theorem InSetup.declare (h : InSetup component key d c i) {d' : Declared} {store : Store}
    {f : Instance → Instance}
    (hkept : f i =
      { i with props := (f i).props, signal := (f i).signal, methods := (f i).methods })
    (hobject : ∃ ident fields, (f i).props = .object ident fields)
    (hmeets : d'.Meets (f i).props.fields (f i).signal (f i).methods store) :
    InSetup component key d' ({ c with store }.modifyInstance key f) (f i) := by
  have hfound : ({ c with store }.modifyInstance key f).instance? key = some (f i) := by
    rw [instance?_modifyInstance, if_pos rfl]
    exact congrArg (Option.map f) h.found
  have hstore := (sameButInstances_modifyInstance { c with store } key f).store
  refine ⟨hfound, ?_, ?_, ?_, ?_, hobject, hmeets.congr (congrArg Store.signals hstore)⟩
  · rw [hkept]
    exact h.component_eq
  · rw [hkept]
    exact h.key_eq
  · rw [hkept]
    exact h.fallback
  · rw [hkept]
    exact h.hooks

/-- A setup that only declares things is gone through, whatever the budget, and leaves what it
declares. -/
theorem run_runSetup {s s' : Setup} (h : s.Alike s') (budget : Nat)
    (hin : InSetup component key d c i) :
    ∃ c' i', runSetup budget key s [] c = some ((), c') ∧
      InSetup component key (s'.declared ⟨component.name, key⟩ d) c' i' := by
  induction h generalizing c i d with
  | done => exact ⟨c, i, rfl, hin⟩
  | props _ ih =>
      have hbare : i.props.bare = (Value.object (.given 0) d.props).bare := by
        obtain ⟨ident, fields, hprops⟩ := hin.object
        have hfields := hin.meets.props
        rw [hprops] at hfields ⊢
        exact congrArg (Value.object (.given 0)) hfields
      obtain ⟨c', i', hrun, hin'⟩ := ih _ _ hbare hin
      refine ⟨c', i', ?_, hin'⟩
      rw [runSetup, act_bind, act_get]
      dsimp only [Option.bind_some]
      rw [hin.found]
      exact hrun
  | @propTypes types next next' _ ih =>
      have hchecked := hin.meets.checkProps types
      have hbare : (Value.object c.store.fresh.1 (checkProps types i.props.fields).2).bare =
          (Value.object (.given 0) (checkProps types d.props).2).bare := by
        rw [Value.bare, Value.bare, hchecked.props]
      let filled : Instance → Instance := fun old =>
        { old with props := .object c.store.fresh.1 (checkProps types i.props.fields).2 }
      have hin' : InSetup component key _
          ({ c with store := c.store.fresh.2 }.modifyInstance key filled) (filled i) :=
        hin.declare rfl ⟨_, _, rfl⟩ (hchecked.congr rfl)
      obtain ⟨c', i', hrun, hin''⟩ := ih _ _ hbare hin'
      refine ⟨c', i', ?_, hin''⟩
      rw [runSetup, act_bind, act_get]
      dsimp only [Option.bind_some]
      rw [hin.found]
      exact hrun
  | @proxy initial initial' next next' hinitial _ ih =>
      have hin' := hin.declare (f := fun i => { i with
        signal := some (c.store.newSignal i.ref (Table.ofList initial) true).1 }) rfl hin.object
        (hin.meets.newSignal i.ref true hinitial)
      have howner : i.ref = ⟨component.name, key⟩ := by
        rw [Instance.ref, hin.component_eq, hin.key_eq]
      obtain ⟨c', i', hrun, hin''⟩ :=
        ih (c.store.newSignal i.ref (Table.ofList initial) true).1 0 i.ref hin'
      refine ⟨c', i', ?_, ?_⟩
      · rw [runSetup, act_bind, act_get]
        dsimp only [Option.bind_some]
        rw [hin.found]
        exact hrun
      · rw [howner] at hin''
        exact hin''
  | @methods ops ops' next next' hops _ ih =>
      have hin' := hin.declare (f := fun i => { i with
        methods := i.methods ++ (c.store.nameMethods ops).1 }) rfl hin.object
        (hin.meets.nameMethods hops)
      obtain ⟨c', i', hrun, hin''⟩ := ih hin'
      refine ⟨c', i', ?_, hin''⟩
      rw [runSetup, act_bind, act_get]
      exact hrun
  | @note entry _ _ _ _ ih =>
      have hin' : InSetup component key d { c with store := c.store.note entry } i :=
        { hin with meets := hin.meets.congr rfl }
      obtain ⟨c', i', hrun, hin''⟩ := ih hin'
      exact ⟨c', i', hrun, hin''⟩

/-- An instance without a setup declares nothing. -/
theorem inSetup_create (component : Component) (key : String) (ident : Ident) (fields : Table Value)
    (c : Client) : InSetup component key (.start fields)
      { c with instances :=
          Table.insert key (.create component key (.object ident fields)) c.instances }
      (.create component key (.object ident fields)) :=
  ⟨Table.get?_insert_self .., rfl, rfl, rfl, rfl, ⟨_, _, rfl⟩, Declared.meets_start c.store⟩

/-- An instance that is new gets what its setup declares. -/
theorem run_ensureInstance (hsetup : ∀ s, component.setup = some s → s.Declaratory)
    (hnew : c.instance? key = none) (budget : Nat) (ident : Ident) (fields : Table Value) :
    ∃ c' i, ensureInstance budget component key (.object ident fields) c = some ((), c') ∧
      InSetup component key
        ((component.setup.getD .done).declared ⟨component.name, key⟩ (.start fields)) c' i := by
  have hcreated := inSetup_create component key ident fields c
  unfold ensureInstance
  rw [act_bind, act_get]
  dsimp only [Option.bind_some]
  rw [hnew]
  cases hs : component.setup with
  | none => exact ⟨_, _, rfl, hcreated⟩
  | some s =>
      obtain ⟨c', i, hrun, hin⟩ := run_runSetup (hsetup s hs) budget hcreated
      exact ⟨c', i, hrun, hin⟩

/-- The client hands the props that were passed to the instance once more when its setup is done, so
what declared types have filled in is lost. -/
theorem run_bindOccurrence {name : String} {ident : Ident} {fields : Table Value}
    (hsetup : ∀ s, component.setup = some s → s.Declaratory)
    (hkey : (c.registry.resolveOccurrence ⟨name, .object ident fields⟩).1.key = key)
    (hnew : c.instance? key = none) (budget : Nat) (visible : Bool) :
    let d := (component.setup.getD .done).declared ⟨component.name, key⟩ (.start fields)
    ∃ c' i, bindOccurrence budget component name (.object ident fields) visible c =
        some (key, c') ∧ c'.instance? key = some i ∧ i.component = component ∧ i.key = key ∧
      i.fallback = none ∧ bareFields (i.data c'.store) = bareFields (d.record fields) := by
  intro d
  have hresolve := resolveKey_eq name (.object ident fields) c
  rw [hkey] at hresolve
  generalize (c.registry.resolveOccurrence ⟨name, .object ident fields⟩).2 = registry at hresolve
  obtain ⟨c₂, i, hensure, hin⟩ :=
    run_ensureInstance (c := { c with registry }) hsetup hnew budget ident fields
  -- the props that were passed come back
  let c₃ : Client :=
    { c₂.modifyInstance key fun i => { i with props := .object ident fields } with
      host := c₂.host.record name key (.object ident fields) }
  have hsame₃ := sameButInstances_modifyInstance c₂ key fun i =>
    { i with props := .object ident fields }
  have hfound₃ : c₃.instance? key = some { i with props := .object ident fields } := by
    show (c₂.modifyInstance key _).instance? key = _
    rw [instance?_modifyInstance, if_pos rfl, hin.found]
    rfl
  have hless : c₃.Hookless key := hookless_of_instance? hfound₃ hin.hooks
  obtain ⟨armed, htransition⟩ := transition_of_hookless hless budget visible
  have hsame₄ := sameButInstances_modifyInstance c₃ key fun i => { i with armed }
  refine ⟨c₃.modifyInstance key fun i => { i with armed },
    { i with props := .object ident fields, armed }, ?_, ?_, hin.component_eq, hin.key_eq,
    hin.fallback, ?_⟩
  · unfold bindOccurrence
    rw [act_bind, hresolve]
    dsimp only [Option.bind_some]
    rw [act_bind, hensure]
    dsimp only [Option.bind_some]
    rw [act_bind, act_modify]
    dsimp only [Option.bind_some]
    rw [hsame₃.host, act_bind, htransition]
    rfl
  · rw [instance?_modifyInstance, if_pos rfl, hfound₃]
    rfl
  · have hstore : (c₃.modifyInstance key fun i => { i with armed }).store = c₂.store :=
      hsame₄.store.trans hsame₃.store
    rw [hstore]
    exact hin.meets.bareFields_dataRecord rfl

/-- What the render of a template comes to as the occurrence of an instance. -/
def shownAs (component : Component) (key : String) (outcome : Rendered) : Except EvalError Value :=
  (outcome.map Value.markup).mapError fun f =>
    .custom (ClientError.render component.name key f.error.message f.line).message

/-- An occurrence whose instance is new is rendered with the declared state and methods over the
props that were passed. -/
theorem run_renderChild_of_new {reference : String} {ident : Ident} {fields : Table Value}
    (hget : c.component? (componentName reference) = some component)
    (hsetup : ∀ s, component.setup = some s → s.Declaratory)
    (hkey : (c.registry.resolveOccurrence
      ⟨componentName reference, .object ident fields⟩).1.key = key)
    (hnew : c.instance? key = none) (budget : Nat) :
    let d := (component.setup.getD .done).declared ⟨component.name, key⟩ (.start fields)
    ∃ c' ident' data, bareFields data = bareFields (d.record fields) ∧ ∀ remaining,
      ExceptT.run (renderChild budget (remaining + 1) reference (.object ident fields) true) c =
        (component.template.program.execute
          (instanceCall budget (renderChild budget remaining) key (.object ident' data)) c').map
            fun (outcome, c'') => (shownAs component key outcome, c'') := by
  intro d
  obtain ⟨c', i, hbind, hfound, rfl, rfl, hfallback, hdata⟩ :=
    run_bindOccurrence hsetup hkey hnew budget true
  refine ⟨{ c' with store := c'.store.fresh.2 }, c'.store.fresh.1, i.data c'.store, hdata,
    fun remaining => ?_⟩
  rw [renderChild_succ, run_renderOccurrence hget hbind, if_pos rfl, hfound]
  dsimp only
  rw [run_renderInstance_of_fallback hfallback, Option.map_map]
  congr 1
  funext ⟨outcome, c''⟩
  cases outcome <;> rfl

end

end Client

/-- The client renders an occurrence that is new to it from the same data as the server exactly if
every prop for which the setup declares a type was passed, or is hidden by state or by a method: the
server keeps the empty texts that stand for missing props, the client loses them. -/
theorem sameFields_of_new_iff {w : Website} {c : Client} {component : Component}
    {reference key : String} {ident : Ident} {fields : Table Value}
    (hget : c.component? (componentName reference) = some component)
    (hname : component.name = componentName reference)
    (hserver : (w.component? (componentName reference)).bind ComponentDef.setup = component.setup)
    (hsetup : ∀ s, component.setup = some s → s.Declaratory)
    (hkey : (c.registry.resolveOccurrence
      ⟨componentName reference, .object ident fields⟩).1.key = key)
    (hnew : c.instance? key = none) (budget : Nat) (store : Store) :
    let d := (component.setup.getD .done).declared ⟨component.name, key⟩ (.start fields)
    ∃ c' store' clientIdent clientData serverIdent serverData,
      (∀ remaining, ExceptT.run
          (Client.renderChild budget (remaining + 1) reference (.object ident fields) true) c =
        (component.template.program.execute (Client.instanceCall budget
          (Client.renderChild budget remaining) key (.object clientIdent clientData)) c').map
            fun (outcome, c'') => (Client.shownAs component key outcome, c'')) ∧
      ExceptT.run (w.childData budget (componentName reference) key (.object ident fields)) store =
        some (.ok (.object serverIdent serverData), store') ∧
      (SameFields clientData serverData ↔ ∀ name ∈ d.typed,
        name ∈ Table.keys fields ∨ name ∈ Table.keys d.state ∨ name ∈ d.methods) := by
  intro d
  obtain ⟨c', clientIdent, clientData, hclient, hrender⟩ :=
    Client.run_renderChild_of_new hget hsetup hkey hnew budget
  obtain ⟨serverIdent, serverData, store', hrun, hserverData⟩ :=
    Website.run_childData hserver hsetup budget key (.object ident fields) store
  refine ⟨c', store', clientIdent, clientData, serverIdent, serverData, hrender, hrun, ?_⟩
  rw [← hname] at hserverData
  exact (sameFields_congr hclient hserverData).trans
    (sameFields_record_iff ⟨component.name, key⟩ (component.setup.getD .done) fields)

/-! ## A component that declares a prop -/

namespace TitledLeaf

def setup : Setup := Script.setup none [.propTypes [("title", .string)]]

def leaf : ComponentDef := ⟨"leaf", "<i>\x7b\x7b title \x7d\x7d</i>", some setup⟩

def template : Template where
  name := "leaf"
  source := "<i element=\"\x7b\x7b$ctxKey\x7d\x7d\">\x7b\x7b title \x7d\x7d</i>"
  program := ⟨[.text "<i element=\"", .interpolate (.node .instanceKey ⟨14, 21⟩) true 1,
    .text "\">", .interpolate (.node (.ident "title") ⟨28, 33⟩) true 1, .text "</i>"]⟩

theorem component_leaf : Template.component "leaf" leaf.source .braces = .ok template :=
  Template.component_of_segments
    [⟨.text, "<i element=\"".toList, ⟨0, 12⟩, 1⟩,
      ⟨.directive .escaped, "$ctxKey".toList, ⟨14, 21⟩, 1⟩, ⟨.text, "\">".toList, ⟨23, 25⟩, 1⟩,
      ⟨.directive .escaped, "title".toList, ⟨28, 33⟩, 1⟩, ⟨.text, "</i>".toList, ⟨36, 40⟩, 1⟩]
    (by decide +kernel) (by decide +kernel) (by cbv)

def site : Website := ⟨.standard, [], [], [("leaf", leaf)]⟩

def component : Component := ⟨"leaf", template, some setup⟩

def client : Client :=
  { Client.create (Document.parse "") .braces with components := [("leaf", component)] }

end TitledLeaf

/-- Where no title is passed, `title` is an empty text on the server and missing on the client. -/
theorem not_sameFields_of_missing_prop :
    Template.component "leaf" TitledLeaf.leaf.source .braces = .ok TitledLeaf.template ∧
    ∃ c' store' clientIdent clientData serverIdent serverData,
      (∀ remaining, ExceptT.run
          (Client.renderChild 1 (remaining + 1) "leaf" (.object (.given 0) []) true)
            TitledLeaf.client =
        (TitledLeaf.template.program.execute (Client.instanceCall 1
          (Client.renderChild 1 remaining) "leaf" (.object clientIdent clientData)) c').map
            fun (outcome, c'') => (Client.shownAs TitledLeaf.component "leaf" outcome, c'')) ∧
      ExceptT.run (TitledLeaf.site.childData 1 "leaf" "leaf" (.object (.given 0) [])) .empty =
        some (.ok (.object serverIdent serverData), store') ∧
      ¬SameFields clientData serverData := by
  have hname : componentName "leaf" = "leaf" := by decide +kernel
  have hdeclaratory : TitledLeaf.setup.Declaratory :=
    Script.declaratory_setup (by simp [Script.Step.Declares]) none
  obtain ⟨c', store', clientIdent, clientData, serverIdent, serverData, hrender, hrun, hsame⟩ :=
    @sameFields_of_new_iff TitledLeaf.site TitledLeaf.client TitledLeaf.component "leaf" "leaf"
      (.given 0) [] (by rw [hname]; rfl) hname.symm (by rw [hname]; rfl)
      (by rintro s hs; cases hs; exact hdeclaratory) (by rw [hname]; decide +kernel) rfl 1 .empty
  rw [hname] at hrun
  refine ⟨TitledLeaf.component_leaf, c', store', clientIdent, clientData, serverIdent, serverData,
    hrender, hrun, fun h => ?_⟩
  -- the one declared prop is neither passed nor hidden
  have hcovered := hsame.mp h "title" (by decide +kernel)
  revert hcovered
  decide +kernel

end LiveMarkup
