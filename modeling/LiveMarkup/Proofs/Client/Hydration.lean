import LiveMarkup.Proofs.Client.Update
import Mathlib
set_option autoImplicit false

/-! # Hydrated pages

An engine and a client that were given the same blocks and components (`Deployed`) agree on what a
component is. A page that the engine rendered hydrates without a change of its tree, and from then on
an update is quiet exactly when the root of its instance shows what the instance is rendered to, which
is what the engine renders for it on its own (`quiet_updates_of_page`). The page itself numbers the
occurrences of a component all through, so an instance that renders others may show something else
(`NestedPage`). -/

namespace LiveMarkup

/-! ## Deployment -/

/-- An engine and a client that were given the same blocks and the same components, none of which has
a setup. The engine may have rendered pages from plain data meanwhile. -/
inductive Deployed (config : Config) (document : Document) : Engine → Client → Prop
  | create {sources : Table String} {e : Engine} : Engine.create config sources = .ok e →
      Deployed config document e (.create document config.delimiters)
  | addSource {e : Engine} {c : Client} (name source : String) : Deployed config document e c →
      Deployed config document (e.addSource name source) c
  | registerBlocks {e : Engine} {c : Client} (file source : String) :
      Deployed config document e c →
      Deployed config document (e.registerBlocks file source).2 (c.registerBlocks file source).2
  | registerComponent {e e' : Engine} {c c' : Client} {d : ComponentDef} :
      Deployed config document e c → d.setup = none → e.registerComponent d = .ok e' →
      c.registerComponent d = .ok c' → Deployed config document e' c'
  | renderPage {e : Engine} {c : Client} {budget : Nat} {name : String} {data : Value}
      {run : PageRun PageOutput} : Deployed config document e c → data.Plain →
      e.renderPage budget name data = some run → Deployed config document run.engine c

/-- A client with nothing to show yet. -/
structure Client.Fresh (c : Client) : Prop where
  registry_eq : c.registry = []
  instances_eq : c.instances = []
  host_eq : c.host = .empty

/-- The client is fresh, and its components are those of the engine, whose cache has their
templates. -/
structure InStep (config : Config) (document : Document) (e : Engine) (c : Client) : Prop where
  config_eq : e.site.config = config
  fresh : c.Fresh
  document_eq : c.document = document
  delimiters_eq : c.delimiters = config.delimiters
  blocks_eq : c.blocks = e.site.blocks
  setupFree : e.site.SetupFree
  registered : ∀ name, Table.get? name c.components =
    (e.site.template? e.cache name).map fun t => ⟨name, t, none⟩
  cached : ∀ name, (e.site.component? name).isSome → (e.site.template? e.cache name).isSome

section

variable {config : Config} {document : Document} {e e' : Engine} {c c' : Client}

namespace InStep

theorem create {sources : Table String} (h : Engine.create config sources = .ok e) :
    InStep config document e (.create document config.delimiters) := by
  unfold Engine.create at h
  cases hvalid : config.validate with
  | error err =>
      rw [hvalid] at h
      cases h
  | ok _ =>
      rw [hvalid] at h
      obtain rfl := Except.ok.inj h
      refine ⟨rfl, ⟨rfl, rfl, rfl⟩, rfl, rfl, rfl, ?_, fun _ => rfl, ?_⟩
      · intro name d hd
        cases hd
      · intro name hname
        cases hname

theorem registerComponent (h : InStep config document e c) {d : ComponentDef}
    (hsetup : d.setup = none) (he : e.registerComponent d = .ok e')
    (hc : c.registerComponent d = .ok c') : InStep config document e' c' := by
  unfold Engine.registerComponent at he
  unfold Client.registerComponent at hc
  rw [h.config_eq] at he
  rw [h.delimiters_eq] at hc
  cases ht : Template.component d.name d.source config.delimiters with
  | error err =>
      rw [ht] at he
      cases he
  | ok t =>
      rw [ht] at he hc
      obtain rfl := Except.ok.inj he
      obtain rfl := Except.ok.inj hc
      -- both sides change at this one name
      have hcache : ∀ name, name ≠ d.name →
          Table.get? (componentCacheKey name) (Table.insert (componentCacheKey d.name) t e.cache) =
            Table.get? (componentCacheKey name) e.cache := by
        intro name hne
        exact Table.get?_insert_of_ne (fun heq => hne (componentCacheKey_injective heq)) ..
      have hself : Website.template?
          { e.site with components := Table.insert d.name d e.site.components }
          (Table.insert (componentCacheKey d.name) t e.cache) d.name = some t := by
        simp [Website.template?, Website.component?]
      have hother : ∀ name, name ≠ d.name → Website.template?
          { e.site with components := Table.insert d.name d e.site.components }
          (Table.insert (componentCacheKey d.name) t e.cache) name =
            e.site.template? e.cache name := by
        intro name hne
        simp only [Website.template?, Website.component?,
          Table.get?_insert_of_ne hne, hcache name hne]
      refine ⟨h.config_eq, ⟨h.fresh.registry_eq, h.fresh.instances_eq, h.fresh.host_eq⟩,
        h.document_eq, rfl, h.blocks_eq, ?_, ?_, ?_⟩
      · intro name d' hd'
        by_cases heq : name = d.name
        · subst heq
          obtain rfl := Option.some.inj ((Table.get?_insert_self ..).symm.trans hd')
          exact hsetup
        · exact h.setupFree name d' ((Table.get?_insert_of_ne heq ..).symm.trans hd')
      · intro name
        by_cases heq : name = d.name
        · subst heq
          rw [hself, Table.get?_insert_self, hsetup]
          rfl
        · rw [hother name heq, Table.get?_insert_of_ne heq]
          exact h.registered name
      · intro name hname
        by_cases heq : name = d.name
        · subst heq
          rw [hself]
          rfl
        · rw [hother name heq]
          rw [Website.component?, Table.get?_insert_of_ne heq] at hname
          exact h.cached name hname

theorem template?_grow (h : InStep config document e c) (hsite : e'.site = e.site)
    (hcache : e.cache.Within e'.cache) (name : String) :
    e'.site.template? e'.cache name = e.site.template? e.cache name := by
  rw [hsite]
  unfold Website.template?
  cases hd : e.site.component? name with
  | none => rfl
  | some d =>
      have hcached := h.cached name (by rw [hd]; rfl)
      obtain ⟨t, ht⟩ := Option.isSome_iff_exists.mp hcached
      obtain ⟨-, -, hget⟩ := Option.bind_eq_some_iff.mp ht
      rw [Option.bind_some, Option.bind_some, hget, hcache _ t hget]

/-- A render of a page only adds to the cache. -/
theorem grow (h : InStep config document e c) (hsite : e'.site = e.site)
    (hcache : e.cache.Within e'.cache) : InStep config document e' c := by
  have htemplate := h.template?_grow hsite hcache
  refine ⟨hsite ▸ h.config_eq, h.fresh, h.document_eq, h.delimiters_eq, hsite ▸ h.blocks_eq,
    hsite ▸ h.setupFree, ?_, ?_⟩
  · intro name
    rw [htemplate]
    exact h.registered name
  · intro name hname
    rw [htemplate]
    exact h.cached name (hsite ▸ hname)

end InStep

theorem Deployed.inStep (hmode : config.mode = .production) (h : Deployed config document e c) :
    InStep config document e c := by
  induction h with
  | create h => exact .create h
  | addSource name source _ ih =>
      exact ⟨ih.config_eq, ih.fresh, ih.document_eq, ih.delimiters_eq, ih.blocks_eq, ih.setupFree,
        ih.registered, ih.cached⟩
  | @registerBlocks e c file source _ ih =>
      have hblocks : (c.registerBlocks file source).2.blocks =
          (e.registerBlocks file source).2.site.blocks := by
        show (c.blocks.load file source c.delimiters).2 =
          (e.site.blocks.load file source e.site.config.delimiters).2
        rw [ih.blocks_eq, ih.delimiters_eq, ih.config_eq]
      exact ⟨ih.config_eq, ⟨ih.fresh.registry_eq, ih.fresh.instances_eq, ih.fresh.host_eq⟩,
        ih.document_eq, ih.delimiters_eq, hblocks, ih.setupFree, ih.registered, ih.cached⟩
  | registerComponent _ hsetup he hc ih => exact ih.registerComponent hsetup he hc
  | renderPage _ hdata hrun ih =>
      obtain ⟨hsite, hcache, -⟩ :=
        Engine.recorded_renderPage (ih.config_eq ▸ hmode) ih.setupFree hdata hrun
      exact ih.grow hsite hcache

end

/-! ## Hydration -/

namespace Client

/-- Hydrates from the props of a page, which come as JSON. -/
def hydrateJson (budget : Nat) (j : Json) : Attempt Unit := do
  let (pageProps, made) := Value.ofJson .made (← get).store.made j
  modify fun c => { c with store := { c.store with made } }
  hydrate budget pageProps

/-- A client in the middle of its hydration: the tree is as it was, and `host` has been recorded. -/
structure Hydrating (c : Client) (host : HostProps) (c' : Client) : Prop where
  synced : Document.Synced c.document c'.document
  components : c'.components = c.components
  blocks : c'.blocks = c.blocks
  registry : c'.registry = c.registry
  host : c'.host = host
  calm : c'.AllCalm

theorem Fresh.hydrating {c : Client} (h : c.Fresh) : Hydrating c .empty c := by
  refine ⟨.refl _, rfl, rfl, rfl, h.host_eq, fun key i hi => ?_⟩
  have hnone : c.instance? key = none := by
    rw [instance?, h.instances_eq]
    rfl
  simp [hnone] at hi

theorem Hydrating.of_sameButInstances {c₀ c c' : Client} {host : HostProps} (h : Hydrating c₀ host c)
    (hsame : SameButInstances c c') (hcalm : c'.AllCalm) : Hydrating c₀ host c' := by
  refine ⟨?_, hsame.components.trans h.components, hsame.blocks.trans h.blocks,
    hsame.registry.trans h.registry, hsame.host.trans h.host, hcalm⟩
  rw [hsame.document]
  exact h.synced

/-- What becomes of an instance whose root was looked for. -/
def mount (budget : Nat) (key : String) : Option NodeId → Act Unit
  | some root => do
    modify fun c => { c with document := c.document.syncProperties root }
    transition budget key true
  | none => pure ()

/-- A recorded instance is made sure of, and shown where it stands. -/
theorem run_hydrateInstance_eq (budget : Nat) (component : Component) (name key : String)
    (props : Value) (c : Client) : hydrateInstance budget component name key props c =
      (ensureInstance budget component key props
        { c with host := c.host.record name key props }).bind fun r =>
          mount budget key (r.2.mountedRoot key).1 (r.2.mountedRoot key).2 := by
  unfold hydrateInstance
  rw [act_bind, act_modify]
  dsimp only [Option.bind_some]
  rw [act_bind]
  congr 1
  funext ⟨_, c₁⟩
  dsimp only
  rw [act_bind]
  show (some (c₁.mountedRoot key)).bind _ = _
  obtain ⟨found, c'⟩ := c₁.mountedRoot key
  cases found with
  | none => rfl
  | some root => rw [mount, Option.bind_some]

theorem run_mount {c₀ c : Client} {host : HostProps} (h : Hydrating c₀ host c) (budget : Nat)
    (key : String) (root : Option NodeId) :
    ∃ c', mount budget key root c = some ((), c') ∧ Hydrating c₀ host c' := by
  cases root with
  | none => exact ⟨c, rfl, h⟩
  | some root =>
      have hsynced := h.synced.trans (Document.synced_syncProperties c.document root)
      rw [mount, act_bind, act_modify]
      dsimp only [Option.bind_some]
      generalize c.document.syncProperties root = d at hsynced
      have h₁ : Hydrating c₀ host { c with document := d } :=
        ⟨hsynced, h.components, h.blocks, h.registry, h.host, h.calm.congr rfl rfl⟩
      obtain ⟨armed, htransition⟩ := h₁.calm.transition budget key true
      refine ⟨_, htransition, h₁.of_sameButInstances (sameButInstances_modifyInstance ..) ?_⟩
      exact h₁.calm.retouch key fun _ => rfl

theorem run_hydrateInstance {c₀ c : Client} {host : HostProps} (h : Hydrating c₀ host c)
    {name key : String} {component : Component}
    (hget : Table.get? name c₀.components = some component) (hsetup : component.setup = none)
    (hkey : KeyOf name key) (budget : Nat) (props : Value) :
    ∃ c', hydrateInstance budget component name key props c = some ((), c') ∧
      Hydrating c₀ (host.record name key props) c' := by
  let c₁ : Client := { c with host := c.host.record name key props }
  have h₁ : Hydrating c₀ (host.record name key props) c₁ :=
    ⟨h.synced, h.components, h.blocks, h.registry,
      congrArg (fun host => host.record name key props) h.host, h.calm.congr rfl rfl⟩
  obtain ⟨c₂, hensure, hsame₂, hi, hcalm₂⟩ :=
    h₁.calm.ensureInstance (h.components ▸ hget) hsetup hkey budget props
  -- whether there was an instance under the key does not matter from here on
  generalize (c₁.instance? key).getD (.create component key props) = i at hi
  have hmounted := mountedRoot_of_instance? hi
  generalize c₂.findRoot i = found at hmounted
  have h₃ := (h₁.of_sameButInstances hsame₂ hcalm₂).of_sameButInstances
    (sameButInstances_modifyInstance c₂ key fun j => { j with root := found })
    (hcalm₂.retouch key fun _ => rfl)
  generalize (c₂.modifyInstance key fun j => { j with root := found }) = c₃ at hmounted h₃
  rw [run_hydrateInstance_eq, hensure, Option.bind_some, hmounted]
  exact run_mount h₃ budget key found

theorem run_hydrateInstances {c₀ c : Client} {host : HostProps} (h : Hydrating c₀ host c)
    {name : String} {component : Component}
    (hget : Table.get? name c₀.components = some component) (hsetup : component.setup = none)
    (budget : Nat) {t : Table Value} (hkeys : ∀ e ∈ t, KeyOf name e.1) :
    ∃ c', hydrateInstances budget component name t c = some ((), c') ∧
      Hydrating c₀ (t.foldl (fun host e => host.record name e.1 e.2) host) c' := by
  induction t generalizing c host with
  | nil => exact ⟨c, rfl, h⟩
  | cons first rest ih =>
      have hfirst := hkeys first List.mem_cons_self
      obtain ⟨c₁, hrun₁, h₁⟩ := run_hydrateInstance h hget hsetup hfirst budget first.2
      obtain ⟨c', hrun', h'⟩ := ih h₁ fun e he => hkeys e (List.mem_cons_of_mem _ he)
      refine ⟨c', ?_, h'⟩
      rw [hydrateInstances, act_bind, hrun₁]
      exact hrun'

theorem attempt_get_bind {α : Type} (f : Client → Attempt α) (c : Client) :
    ExceptT.run (get >>= f) c = ExceptT.run (f c) c := rfl

theorem run_hydrateComponents {c₀ c : Client} {host : HostProps} (h : Hydrating c₀ host c)
    (hfree : SetupFree c₀.components) (budget : Nat) {tables : Table (Table Value)}
    (hregistered : ∀ name ∈ Table.keys tables, (c₀.component? name).isSome)
    (hkeys : ∀ t ∈ tables, ∀ e ∈ t.2, KeyOf t.1 e.1) :
    ∃ c', ExceptT.run (hydrateComponents budget tables) c = some (.ok (), c') ∧
      Hydrating c₀ (host.recordAll tables) c' := by
  -- one component after the other; what is registered stays what it was at the start
  induction tables generalizing c host with
  | nil => exact ⟨c, rfl, h⟩
  | cons first rest ih =>
      obtain ⟨component, hget⟩ := Option.isSome_iff_exists.mp
        (hregistered first.1 List.mem_cons_self)
      have hcomponent : c.component? first.1 = some component := by
        rw [component?, h.components]
        exact hget
      obtain ⟨c₁, hrun₁, h₁⟩ := run_hydrateInstances h hget (hfree _ _ hget) budget
        (hkeys first List.mem_cons_self)
      obtain ⟨c', hrun', h'⟩ := ih h₁
        (fun name hname => hregistered name (List.mem_cons_of_mem _ hname))
        fun t ht => hkeys t (List.mem_cons_of_mem _ ht)
      refine ⟨c', ?_, h'⟩
      have hstart : ExceptT.run (hydrateComponents budget (first :: rest)) c =
          ExceptT.run (liftM (hydrateInstances budget component first.1 first.2) >>= fun _ =>
            hydrateComponents budget rest) c := by
        rw [hydrateComponents, attempt_get_bind, hcomponent]
      rw [hstart, run_bind, run_lift, hrun₁]
      exact hrun'

/-- A fresh client is steady once it was hydrated from what an engine recorded; its tree is as it
was. -/
theorem follows_hydrateJson {c : Client} (hfresh : c.Fresh) (hfree : SetupFree c.components)
    (hdocument : c.document.WellFormed)
    (hunmarked : c.document.attribute? Document.root rootAttribute = none) {host : HostProps}
    (hhost : host.Recorded) (n : Nat)
    (hregistered : ∀ name ∈ Table.keys (host.toValue .made n).1.fields, (c.component? name).isSome)
    (budget : Nat) :
    ∃ c', ExceptT.run (hydrateJson budget (host.toValue .made n).1.toJson) c = some (.ok (), c') ∧
      Follows c c' ∧ c'.document.treeLog = c.document.treeLog := by
  obtain ⟨v, hv⟩ : ∃ v, v = Value.ofJson .made c.store.made (host.toValue .made n).1.toJson :=
    ⟨_, rfl⟩
  have hreread : Value.Reread (host.toValue .made n).1 v.1 := ⟨_, by rw [hv]⟩
  have horderly := hhost.orderly_reread hreread
  -- reading the JSON has given new identities, and changed nothing else
  have hstart : ({ c with store := { c.store with made := v.2 } } : Client).Fresh :=
    ⟨hfresh.registry_eq, hfresh.instances_eq, hfresh.host_eq⟩
  have hnames : ∀ name ∈ (HostProps.ofValue v.1).names, (c.component? name).isSome :=
    fun name hname => hregistered name (hhost.mem_names_reread hreread hname)
  have hkeys : ∀ t ∈ (HostProps.ofValue v.1).entries, ∀ e ∈ t.2, KeyOf t.1 e.1 := by
    intro t ht e he
    rw [← horderly.instances_of_mem ht] at he
    exact (horderly.numbered t.1).keyOf he
  obtain ⟨c₁, hrun, h₁⟩ := run_hydrateComponents hstart.hydrating hfree budget hnames hkeys
  refine ⟨{ c₁ with registry := c₁.registry.seed c₁.host }, ?_, ⟨⟨?_, ?_, ?_, ?_, ?_⟩, ?_, ?_⟩, ?_⟩
  · unfold hydrateJson
    rw [attempt_get_bind]
    dsimp only
    rw [← hv, run_modify_bind]
    unfold hydrate
    rw [run_bind, hrun]
    rfl
  · exact h₁.components ▸ hfree
  · exact h₁.calm.congr rfl rfl
  · -- every key was recorded a second time on the way, in the same order
    intro name
    show Registry.Canonical name (Registry.list (c₁.registry.seed c₁.host) name)
    rw [h₁.registry, h₁.host]
    show Registry.Canonical name (Registry.list (Registry.seed c.registry _) name)
    rw [hfresh.registry_eq]
    exact Registry.canonical_seed horderly.recordAll name
  · exact h₁.synced.sameTree.wellFormed hdocument
  · exact (h₁.synced.sameTree.attribute? ..).trans hunmarked
  · exact h₁.components
  · exact h₁.blocks
  · exact h₁.synced.treeLog

end Client

/-! ## Self-contained templates -/

/-- The templates of components read nothing that only a page provides, and refer to registered
components. -/
def Engine.SelfContained (e : Engine) : Prop :=
  ∀ name t, e.site.template? e.cache name = some t →
    ∀ n ∈ Node.walkAll t.program.nodes, n.Portable False e.site.Registered

/-! ## A page that shows a component inside another -/

namespace NestedPage

def config : Config := { Config.standard with mode := .production, version := some "1" }

/-- The source of `a` is one element; `b` shows an `a` in its own. -/
def a : ComponentDef := ⟨"a", "<i/>", none⟩

def b : ComponentDef := ⟨"b", "<b>\x7b\x7b@a(\x7b\x7d)\x7d\x7d</b>", none⟩

def source : String := "\x7b\x7b@a(\x7b\x7d)\x7d\x7d\x7b\x7b@b(\x7b\x7d)\x7d\x7d"

def aTemplate : Template where
  name := "a"
  source := "<i element=\"\x7b\x7b$ctxKey\x7d\x7d\"/>"
  program := ⟨[.text "<i element=\"", .interpolate (.node .instanceKey ⟨14, 21⟩) true 1,
    .text "\"/>"]⟩

def bTemplate : Template where
  name := "b"
  source := "<b element=\"\x7b\x7b$ctxKey\x7d\x7d\">\x7b\x7b@a(\x7b\x7d)\x7d\x7d</b>"
  program := ⟨[.text "<b element=\"", .interpolate (.node .instanceKey ⟨14, 21⟩) true 1,
    .text "\">", .component "a" (.node (.object []) ⟨30, 32⟩) 1, .text "</b>"]⟩

def template : Template where
  name := "page"
  source := source
  program := ⟨[.component "a" (.node (.object []) ⟨5, 7⟩) 1,
    .component "b" (.node (.object []) ⟨15, 17⟩) 1]⟩

def engine : Engine where
  site := ⟨config, [("page", source)], [], [("a", a), ("b", b)]⟩
  cache := [("@a", aTemplate), ("@b", bTemplate)]

def client (document : Document) : Client :=
  { Client.create document .braces with
    components := [("a", ⟨"a", aTemplate, none⟩), ("b", ⟨"b", bTemplate, none⟩)] }

theorem component_a : Template.component "a" a.source .braces = .ok aTemplate :=
  Template.component_of_segments
    [⟨.text, "<i element=\"".toList, ⟨0, 12⟩, 1⟩,
      ⟨.directive .escaped, "$ctxKey".toList, ⟨14, 21⟩, 1⟩, ⟨.text, "\"/>".toList, ⟨23, 26⟩, 1⟩]
    (by decide +kernel) (by decide +kernel) (by cbv)

theorem component_b : Template.component "b" b.source .braces = .ok bTemplate :=
  Template.component_of_segments
    [⟨.text, "<b element=\"".toList, ⟨0, 12⟩, 1⟩,
      ⟨.directive .escaped, "$ctxKey".toList, ⟨14, 21⟩, 1⟩, ⟨.text, "\">".toList, ⟨23, 25⟩, 1⟩,
      ⟨.directive .component, "a(\x7b\x7d)".toList, ⟨28, 33⟩, 1⟩,
      ⟨.text, "</b>".toList, ⟨35, 39⟩, 1⟩]
    (by decide +kernel) (by decide +kernel) (by cbv)

theorem compile_page :
    engine.site.compile engine.cache "page" =
      (.ok template, engine.cache ++ [("page", template)]) := by cbv

/-- The server numbers the second `a` after the first, though it stands in `b`. -/
theorem execute_page : ((template.program.execute (engine.site.pageCall 1 (.object (.made 0) []))
      ⟨engine.cache ++ [("page", template)], .empty, .empty⟩).bind fun (rendered, s) =>
        rendered.toOption.map fun html => (html, Table.keys s.host.entries)) =
    some ("<i element=\"a\"/><b element=\"b\"><i element=\"a_1\"/></b>", ["a", "b"]) := by
  decide +kernel

theorem deployed (document : Document) : Deployed config document engine (client document) := by
  have hcreate : Engine.create config [("page", source)] =
      .ok ⟨⟨config, [("page", source)], [], []⟩, []⟩ := by cbv
  have h₀ : Deployed config document ⟨⟨config, [("page", source)], [], []⟩, []⟩
      (.create document .braces) := .create hcreate
  have h₁ : Deployed config document
      ⟨⟨config, [("page", source)], [], [("a", a)]⟩, [("@a", aTemplate)]⟩
      { Client.create document .braces with components := [("a", ⟨"a", aTemplate, none⟩)] } := by
    refine .registerComponent h₀ (d := a) rfl ?_ ?_
    · show (Template.component "a" a.source .braces >>= _) = _
      rw [component_a]
      rfl
    · show ((Template.component "a" a.source .braces).mapError _ >>= _) = _
      rw [component_a]
      rfl
  refine .registerComponent h₁ (d := b) rfl ?_ ?_
  · show (Template.component "b" b.source .braces >>= _) = _
    rw [component_b]
    rfl
  · show ((Template.component "b" b.source .braces).mapError _ >>= _) = _
    rw [component_b]
    rfl

theorem keysApart (document : Document) : Client.KeysApart (client document).components := by
  intro name name' key hname hname' hkey hkey'
  have hmem : name ∈ ["a", "b"] := Table.get?_isSome_iff.mp hname
  have hmem' : name' ∈ ["a", "b"] := Table.get?_isSome_iff.mp hname'
  obtain ⟨rest, hrest⟩ := hkey.starts
  obtain ⟨rest', hrest'⟩ := hkey'.starts
  have heq := hrest.trans hrest'.symm
  simp only [List.mem_cons, List.not_mem_nil, or_false] at hmem hmem'
  rcases hmem with rfl | rfl <;> rcases hmem' with rfl | rfl
  · rfl
  · simp at heq
  · simp at heq
  · rfl

theorem selfContained : engine.SelfContained := by
  intro name t ht n hn
  obtain ⟨d, -, hget⟩ := Option.bind_eq_some_iff.mp ht
  have hmem := Table.mem_of_get? hget
  have hregistered : engine.site.Registered "a" := by
    show (engine.site.component? (componentName "a")).isSome = true
    decide +kernel
  have ht : t = aTemplate ∨ t = bTemplate := by
    rcases List.mem_cons.mp hmem with heq | hmem
    · exact .inl (Prod.mk.inj heq).2
    · exact .inr (Prod.mk.inj (List.mem_singleton.mp hmem)).2
  rcases ht with rfl | rfl
  · simp only [aTemplate, Node.walkAll, Node.walk, List.append_nil, List.singleton_append,
      List.mem_cons, List.not_mem_nil, or_false] at hn
    rcases hn with rfl | rfl | rfl <;> simp [Node.Portable, Expr.readsHost, ExprKind.readsHost]
  · simp only [bTemplate, Node.walkAll, Node.walk, List.append_nil, List.singleton_append,
      List.mem_cons, List.not_mem_nil, or_false] at hn
    rcases hn with rfl | rfl | rfl | rfl | rfl <;>
      simp [Node.Portable, Expr.readsHost, ExprKind.readsHost, Expr.readsHostEntries, hregistered]

end NestedPage

/-! ## Pages -/

theorem quiet_updates_of_page {config : Config} {e : Engine} {c : Client} {budget : Nat}
    {name : String} {data : Value} {run : PageRun PageOutput} {page : PageOutput}
    (hmode : config.mode = .production)
    (hdeployed : Deployed config (Document.parse page.html) e c) (hdata : data.Plain)
    (hrun : e.renderPage budget name data = some run) (hpage : run.result = .ok page)
    (hregistered : ∀ name ∈ Table.keys page.props.fields, (c.component? name).isSome)
    (budget' : Nat) :
    ∃ c₁, ExceptT.run (Client.hydrateJson budget' page.props.toJson) c = some (.ok (), c₁) ∧
      c₁.document.treeLog = c.document.treeLog ∧
      ∀ c₂, Client.UpdatedFrom budget' c₁ c₂ → ∀ key,
        ((∃ c₃, ExceptT.run (Client.updateComponent budget' key) c₂ = some (.ok (), c₃) ∧
          c₃.document.treeLog = c₂.document.treeLog) ↔ Client.UpToDate budget' c₂ key) ∧
        (run.engine.SelfContained → Client.KeysApart c.components →
          (Client.UpToDate budget' c₂ key ↔ run.engine.ShowsAlone budget' c₂ key)) := by
  have hstep := (Deployed.renderPage hdeployed hdata hrun).inStep hmode
  have hbefore := hdeployed.inStep hmode
  obtain ⟨-, -, hrecorded⟩ :=
    Engine.recorded_renderPage (hbefore.config_eq ▸ hmode) hbefore.setupFree hdata hrun
  obtain ⟨host, hhost, hprops⟩ := hrecorded page hpage
  have hfree : Client.SetupFree c.components := by
    intro name component hget
    obtain ⟨t, -, rfl⟩ := Option.map_eq_some_iff.mp ((hstep.registered name).symm.trans hget)
    rfl
  have hdocument : c.document.WellFormed := hstep.document_eq ▸ Document.wellFormed_parse page.html
  -- the root of the document carries no key, so no instance is mounted there
  have hunmarked : c.document.attribute? Document.root rootAttribute = none := by
    rw [hstep.document_eq, Document.attribute?, Document.element?_root_parse]
    rfl
  rw [hprops] at hregistered ⊢
  obtain ⟨c₁, hhydrated, hfollows₁, hlog⟩ := Client.follows_hydrateJson hstep.fresh hfree hdocument
    hunmarked hhost 0 hregistered budget'
  refine ⟨c₁, hhydrated, hlog, fun c₂ hupdated key => ⟨?_, fun hportable hapart => ?_⟩⟩
  · have hfollows := hfollows₁.steady.follows_updatedFrom hupdated
    exact Client.quiet_updateComponent hfollows.steady budget' key
  · have hfollows := hfollows₁.trans (hfollows₁.steady.follows_updatedFrom hupdated)
    refine Client.upToDate_iff_showsAlone hfollows.steady ?_ budget' key
    rw [hfollows.components, hfollows.blocks]
    exact ⟨hstep.blocks_eq, hstep.setupFree, hstep.registered, hstep.cached, hportable, hapart⟩

theorem quiet_updates_of_nested_page :
    ∃ run page, NestedPage.engine.renderPage 1 "page" (.object (.made 0) []) = some run ∧
      run.result = .ok page ∧
      ∃ c₁, ExceptT.run (Client.hydrateJson 1 page.props.toJson)
          (NestedPage.client (Document.parse page.html)) = some (.ok (), c₁) ∧
        ∀ c₂, Client.UpdatedFrom 1 c₁ c₂ → ∀ key,
          (∃ c₃, ExceptT.run (Client.updateComponent 1 key) c₂ = some (.ok (), c₃) ∧
            c₃.document.treeLog = c₂.document.treeLog) ↔ run.engine.ShowsAlone 1 c₂ key := by
  have hrendered : ∃ html s, NestedPage.template.program.execute
      (NestedPage.engine.site.pageCall 1 (.object (.made 0) []))
      ⟨NestedPage.engine.cache ++ [("page", NestedPage.template)], .empty, .empty⟩ =
        some (.ok html, s) ∧ Table.keys s.host.entries = ["a", "b"] := by
    have hexecute := NestedPage.execute_page
    obtain ⟨⟨rendered, s⟩, hs, hout⟩ := Option.bind_eq_some_iff.mp hexecute
    cases rendered with
    | error f => cases hout
    | ok html => exact ⟨html, s, hs, (Prod.mk.inj (Option.some.inj hout)).2⟩
  obtain ⟨html, s, hexecute, hnames⟩ := hrendered
  let page : PageOutput :=
    ⟨Page.finish html (s.host.toValue .made 0).1 none, (s.host.toValue .made 0).1⟩
  have hrun : NestedPage.engine.renderPage 1 "page" (.object (.made 0) []) =
      some ⟨.ok page, { NestedPage.engine with cache := s.cache }, s.store.journal⟩ := by
    unfold Engine.renderPage Engine.renderWithHost Engine.compile
    rw [NestedPage.compile_page]
    dsimp only
    rw [hexecute]
    rfl
  have hplain : (Value.object (.made 0) []).Plain := .object List.nodup_nil (by simp)
  have hregistered : ∀ name ∈ Table.keys page.props.fields,
      ((NestedPage.client (Document.parse page.html)).component? name).isSome := by
    intro name hname
    obtain ⟨i, members, hvalue, hmembers⟩ := s.host.aligned_toValue 0
    have hkeys : Table.keys page.props.fields = ["a", "b"] := by
      show Table.keys (s.host.toValue .made 0).1.fields = _
      rw [hvalue]
      exact hmembers.keys.trans hnames
    rw [hkeys] at hname
    exact Table.get?_isSome_iff.mpr hname
  have hdeployed := NestedPage.deployed (Document.parse page.html)
  obtain ⟨c₁, hhydrated, -, hupdates⟩ :=
    quiet_updates_of_page rfl hdeployed hplain hrun rfl hregistered 1
  refine ⟨_, page, hrun, rfl, c₁, hhydrated, fun c₂ hupdated key => ?_⟩
  have hcontained : Engine.SelfContained { NestedPage.engine with cache := s.cache } := by
    have hstep := hdeployed.inStep rfl
    obtain ⟨hsite, hcache, -⟩ := Engine.recorded_renderPage rfl hstep.setupFree hplain hrun
    intro name t ht
    rw [hstep.template?_grow hsite hcache] at ht
    exact NestedPage.selfContained name t ht
  obtain ⟨hquiet, halone⟩ := hupdates c₂ hupdated key
  exact hquiet.trans (halone hcontained (NestedPage.keysApart _))

end LiveMarkup
