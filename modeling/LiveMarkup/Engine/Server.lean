import LiveMarkup.Engine.Blocks
import LiveMarkup.Engine.Cache
import LiveMarkup.Engine.Page
import LiveMarkup.Reactive.Native
import LiveMarkup.Reactive.Setup
set_option autoImplicit false

/-! # The engine

An engine holds the configuration, the template sources, the compiled templates, the blocks and the
components of a site, and renders its pages. Every component occurrence of a page gets an instance
key and records its props, from which the client rebuilds the same instances. -/

namespace LiveMarkup

/-- A registered component. -/
structure ComponentDef where
  name : String
  source : String
  setup : Option Setup

/-- What a page render goes by and does not change. -/
structure Website where
  config : Config
  /-- Template sources by name. -/
  sources : Table String
  blocks : Blocks
  components : Table ComponentDef

structure Engine where
  site : Website
  cache : TemplateCache

/-- What a page render changes. -/
structure PageState where
  cache : TemplateCache
  host : HostProps
  store : Store

namespace Engine

/-- How deep components may render components. -/
def maxDepth : Nat := 128

def create (config : Config) (sources : Table String) : Except EngineError Engine := do
  config.validate
  return ⟨⟨config, sources, [], []⟩, []⟩

/-- Adds or replaces a template source. -/
def addSource (e : Engine) (name source : String) : Engine :=
  { e with site := { e.site with sources := Table.insert name source e.site.sources } }

def registerBlocks (e : Engine) (file source : String) :
    Except EngineError (List String) × Engine :=
  let (names, blocks) := e.site.blocks.load file source e.site.config.delimiters
  (names, { e with site := { e.site with blocks } })

/-- Registers a component, whose template is compiled right away. -/
def registerComponent (e : Engine) (c : ComponentDef) : Except EngineError Engine := do
  let t ← Template.component c.name c.source e.site.config.delimiters
  return {
    site := { e.site with components := Table.insert c.name c e.site.components }
    cache := Table.insert (componentCacheKey c.name) t e.cache }

end Engine

namespace Website

/-! ## Compiling -/

def source (w : Website) (name : String) : Except EngineError String :=
  match Table.get? name w.sources with
  | some s => .ok s
  | none => .error (.templateNotFound name)

def component? (w : Website) (name : String) : Option ComponentDef := Table.get? name w.components

/-- The template that a component reference stands for. Registered components come first; any other
is loaded by the reference as it is written. -/
def componentTemplate (w : Website) (cache : TemplateCache) (reference : String) :
    Except EngineError (Template × TemplateCache) :=
  let name := componentName reference
  let key := componentCacheKey name
  match w.component? name with
  | some c =>
    match Table.get? key cache with
    | some t => .ok (t, cache)
    | none =>
      cache.getOrBuild key w.config.mode (Template.component name c.source w.config.delimiters)
  | none =>
    cache.getOrBuild key w.config.mode do
      Template.component name (← w.source reference) w.config.delimiters

/-- A component that cannot be loaded is missing where it is referred to. -/
def missingAt (reference file : String) (line : Nat) : EngineError → EngineError
  | .templateNotFound _ => .componentNotFound reference file line
  | e => e

/-- Checks that the components of a template resolve, and those of their templates in turn. Every
component is checked once. The first argument bounds how deep the check goes; it never goes deeper
than there are names that resolve. -/
def checkComponents (w : Website) : Nat → Template → TemplateCache × List String →
    Except EngineError Unit × TemplateCache × List String
  | 0, _, state => (.ok (), state)
  | depth + 1, t, state =>
    checkAll (checkComponents w depth) t.name t.program.componentReferences state
where
  checkAll (descend : Template → TemplateCache × List String →
      Except EngineError Unit × TemplateCache × List String) (file : String) :
      List (String × Nat) → TemplateCache × List String →
      Except EngineError Unit × TemplateCache × List String
    | [], state => (.ok (), state)
    | (reference, line) :: rest, (cache, seen) =>
      let name := componentName reference
      if seen.contains name then checkAll descend file rest (cache, seen)
      else
        match w.componentTemplate cache reference with
        | .error e => (.error (missingAt reference file line e), cache, name :: seen)
        | .ok (child, cache) =>
          match descend child (cache, name :: seen) with
          | (.error e, state) => (.error e, state)
          | (.ok (), state) => checkAll descend file rest state

/-- How many component names can resolve at most. -/
def nameBound (w : Website) (cache : TemplateCache) : Nat :=
  w.components.length + w.sources.length + cache.length + 1

/-- Compiles a page and checks the components that it uses. What was compiled stays in the cache,
also when the check fails. -/
def compile (w : Website) (cache : TemplateCache) (name : String) :
    Except EngineError Template × TemplateCache :=
  let key := cacheKey name w.config.views
  let built := cache.getOrBuild key w.config.mode do
    Template.build name (← w.source name) w.config.delimiters
  match built with
  | .error e => (.error e, cache)
  | .ok (page, cache) =>
    match w.checkComponents (w.nameBound cache) page (cache, []) with
    | (.error e, cache, _) => (.error e, cache)
    | (.ok (), cache, _) => (.ok page, cache)

end Website

/-! ## Collecting a component's data -/

/-- What a component's setup has declared so far on the server. -/
structure Collected where
  props : Table Value
  proxy : Option SignalId
  methods : List NativeFn

namespace Collected

def newIdent : Run Store Ident := .update Store.fresh

/-- Goes through a setup. State belongs to no queue, and what only the client needs is dropped. -/
def collect (budget : Nat) (owner : InstanceRef) : Setup → Collected → Run Store Collected
  | .done, c => pure c
  | .props next, c => do
    let props := Value.object (← newIdent) c.props
    collect budget owner (next props) c
  | .propTypes types next, c => do
    let checked := (checkProps types c.props).2
    let props := Value.object (← newIdent) checked
    collect budget owner (next props) { c with props := checked }
  | .proxy initial next, c => do
    let id ← Run.update fun s => s.newSignal owner (Table.ofList initial) false
    collect budget owner (next id owner) { c with proxy := some id }
  | .methods methods next, c => do
    let named ← Run.update fun s => s.nameMethods methods
    collect budget owner next { c with methods := c.methods ++ named }
  | .events _ next, c => collect budget owner next c
  | .watch _ _ next, c => collect budget owner next c
  | .onError _ next, c => collect budget owner next c
  | .load _ next, c => collect budget owner next c
  | .useSignal _ next, c => collect budget owner (next none) c
  | .on _ _ next, c => collect budget owner next c
  | .act effect next, c => do
    let _ ← (Store.carryOut budget effect).failure?
    collect budget owner next c

end Collected

/-- The data record of an instance: its props, then its state, then its methods by name, each over
what comes before. -/
def dataRecord (props state : Table Value) (methods : List NativeFn) : Table Value :=
  Table.extend (Table.extend props state) (methods.map fun f => (f.name, .function f))

namespace Website

/-! ## Rendering -/

/-- Services of a store to a page render. -/
def pageHost (budget : Nat) : Host PageState where
  fresh := fun s => let (i, store) := s.store.fresh; (i, { s with store })
  call := fun f args => (f.call budget args).within PageState.store fun store s => { s with store }

/-- The data record that a component occurrence is rendered with. -/
def childData (w : Website) (budget : Nat) (name key : String) (props : Value) :
    Run Store Value := do
  let start : Collected := ⟨props.fields, none, []⟩
  let c ← match (w.component? name).bind ComponentDef.setup with
    | some setup => Collected.collect budget ⟨name, key⟩ setup start
    | none => pure start
  let state ← match c.proxy with
    | some id => pure ((← get).snapshot id)
    | none => pure []
  return .object (← Collected.newIdent) (dataRecord c.props state c.methods)

/-- Renders one component occurrence. `remaining` is how many more components may be rendered inside
one another. -/
def renderChild (w : Website) (budget : Nat) :
    (remaining : Nat) → String → Value → Bool → Run PageState Value
  | remaining, reference, props, visible => do
    let name := componentName reference
    let key ← Run.update fun s =>
      let (key, host) := s.host.register name props
      (key, { s with host })
    if !visible then return .markup ""
    let t ← match w.componentTemplate (← get).cache reference with
      | .ok (t, cache) => do
        Run.update fun s => ((), { s with cache })
        pure t
      | .error e => .failed (.custom e.message)
    let data ← (w.childData budget name key props).within PageState.store
      fun store s => { s with store }
    match remaining with
    | 0 =>
      .failed (.custom ("component nesting deeper than " ++ toString Engine.maxDepth ++
        " levels at " ++ name))
    | remaining + 1 =>
      let call : RenderCall PageState := {
        host := pageHost budget
        data
        instanceKey := some key
        hostProps := none
        isServer := true
        visible
        block := Blocks.render w.blocks (pageHost budget) budget
        child := renderChild w budget remaining }
      match ← t.render call with
      | .ok html => return .markup html
      | .error f => .failed (.custom (t.renderError f w.config.isDev).message)

/-- The call that a page is rendered with. -/
def pageCall (w : Website) (budget : Nat) (data : Value) : RenderCall PageState where
  host := pageHost budget
  data := data
  instanceKey := none
  hostProps := some <| Run.update fun s =>
    let (v, made) := s.host.toValue .made s.store.made
    (v, { s with store := { s.store with made } })
  isServer := true
  visible := true
  block := Blocks.render w.blocks (pageHost budget) budget
  child := renderChild w budget Engine.maxDepth

end Website

/-- A rendered page: its markup with the scripts, and the recorded props. -/
structure PageOutput where
  html : String
  props : Value

/-- What a render of a page comes to: its result, the engine after it, and the journal of setups. -/
structure PageRun (α : Type) where
  result : Except EngineError α
  engine : Engine
  journal : Array (List Value)

namespace Engine

def compile (e : Engine) (name : String) : Except EngineError Template × Engine :=
  let (result, cache) := e.site.compile e.cache name
  (result, { e with cache })

/-- Renders a page and returns what it recorded; `none` if blocks or writes do not end within the
budget. -/
def renderWithHost (e : Engine) (budget : Nat) (name : String) (data : Value) :
    Option (PageRun (String × HostProps)) :=
  match e.compile name with
  | (.error err, e) => some ⟨.error err, e, #[]⟩
  | (.ok page, e) =>
    (page.program.execute (e.site.pageCall budget data) ⟨e.cache, .empty, .empty⟩).map
      fun (rendered, s) =>
        let e : Engine := { e with cache := s.cache }
        match rendered with
        | .ok html => ⟨.ok (html, s.host), e, s.store.journal⟩
        | .error f => ⟨.error (page.renderError f e.site.config.isDev), e, s.store.journal⟩

/-- Renders a page to markup, without the scripts. -/
def render (e : Engine) (budget : Nat) (name : String) (data : Value) : Option (PageRun String) :=
  (e.renderWithHost budget name data).map fun run =>
    ⟨run.result.map Prod.fst, run.engine, run.journal⟩

/-- Renders a page for the browser. -/
def renderPage (e : Engine) (budget : Nat) (name : String) (data : Value) :
    Option (PageRun PageOutput) :=
  (e.renderWithHost budget name data).map fun run =>
    let page := run.result.map fun (html, host) =>
      let props := (host.toValue .made 0).1
      let port := if e.site.config.isDev then some e.site.config.wsPort else none
      ⟨Page.finish html props port, props⟩
    ⟨page, run.engine, run.journal⟩

end Engine

end LiveMarkup
