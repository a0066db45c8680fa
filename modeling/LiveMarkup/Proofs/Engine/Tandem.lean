import LiveMarkup.Proofs.Engine.Requests
import LiveMarkup.Proofs.Render.Tandem
set_option autoImplicit false

/-! # Page renders in tandem

Two engines of one site that differ in their caches render a page to the same result if their
lookups come to the same (`LookupsTandem`) and what a render calls back into runs in tandem
(`ServesTandem`). The renders may also differ in what is done about a component that is not found,
as long as every component is found. -/

namespace LiveMarkup

namespace Website

/-! ## Lookups -/

/-- From related caches on, what is asked for is found or not found alike, and what it refers to is
asked for in turn. Nothing is missing unless lookups may fail. -/
def LookupsTandem (w : Website) (fails : Prop) (asked : Request → Prop)
    (C : TemplateCache → TemplateCache → Prop) : Prop :=
  ∀ q cache cache', asked q → C cache cache' →
    (fails ∧ ∃ e, w.find cache q = .error e ∧ w.find cache' q = .error e) ∨
      ∃ t c c', w.find cache q = .ok (t, c) ∧ w.find cache' q = .ok (t, c') ∧ C c c' ∧
        ∀ r ∈ t.program.componentReferences, asked (.component r.1)

section

variable {w : Website} {fails : Prop} {asked : Request → Prop}
  {C : TemplateCache → TemplateCache → Prop} {cache cache' : TemplateCache}

namespace LookupsTandem

/-- The checks of one file come to the same, and pass unless lookups may fail. -/
theorem checked (h : w.LookupsTandem fails asked C) {file : String}
    {references : List (String × Nat)} {state : TemplateCache × List String}
    {outcome outcome' : Except EngineError Unit × TemplateCache × List String}
    (hc : w.Checked file references state outcome)
    (hreferences : ∀ r ∈ references, asked (.component r.1)) (hC : C state.1 cache')
    (hc' : w.Checked file references (cache', state.2) outcome') :
    outcome.1 = outcome'.1 ∧ C outcome.2.1 outcome'.2.1 ∧ outcome.2.2 = outcome'.2.2 ∧
      (outcome.1 = .ok () ∨ fails) := by
  -- the second check takes the steps of the first one, since its lookups come to the same
  induction hc generalizing cache' outcome' with
  | done =>
      cases hc'
      exact ⟨rfl, hC, rfl, .inl rfl⟩
  | passed hseen _ ih =>
      have hrest := fun r hr => hreferences r (List.mem_cons_of_mem _ hr)
      cases hc' with
      | passed _ hrest' => exact ih hrest hC hrest'
      | missing hnew => exact absurd hseen hnew
      | failed hnew => exact absurd hseen hnew
      | found hnew => exact absurd hseen hnew
  | missing hnew hfind =>
      obtain ⟨hfails, e, he, he'⟩ | ⟨t, c, c', ht, -⟩ :=
        h _ _ _ (hreferences _ List.mem_cons_self) hC
      · cases hc' with
        | passed hseen => exact absurd hseen hnew
        | missing _ hfind' =>
            obtain rfl := Except.error.inj (hfind.symm.trans he)
            obtain rfl := Except.error.inj (hfind'.symm.trans he')
            exact ⟨rfl, hC, rfl, .inr hfails⟩
        | failed _ hfind' => nomatch he'.symm.trans hfind'
        | found _ hfind' => nomatch he'.symm.trans hfind'
      · nomatch ht.symm.trans hfind
  | failed hnew hfind _ ih =>
      obtain ⟨-, e, he, -⟩ | ⟨t, c, c', ht, ht', hcc, hasked⟩ :=
        h _ _ _ (hreferences _ List.mem_cons_self) hC
      · nomatch he.symm.trans hfind
      · obtain ⟨rfl, rfl⟩ := Prod.mk.inj (Except.ok.inj (ht.symm.trans hfind))
        cases hc' with
        | passed hseen => exact absurd hseen hnew
        | missing _ hfind' => nomatch ht'.symm.trans hfind'
        | failed _ hfind' hchild' =>
            obtain ⟨rfl, rfl⟩ := Prod.mk.inj (Except.ok.inj (ht'.symm.trans hfind'))
            exact ih hasked hcc hchild'
        | found _ hfind' hchild' =>
            obtain ⟨rfl, rfl⟩ := Prod.mk.inj (Except.ok.inj (ht'.symm.trans hfind'))
            nomatch (ih hasked hcc hchild').1
  | found hnew hfind _ _ ihchild ihrest =>
      obtain ⟨-, e, he, -⟩ | ⟨t, c, c', ht, ht', hcc, hasked⟩ :=
        h _ _ _ (hreferences _ List.mem_cons_self) hC
      · nomatch he.symm.trans hfind
      · obtain ⟨rfl, rfl⟩ := Prod.mk.inj (Except.ok.inj (ht.symm.trans hfind))
        cases hc' with
        | passed hseen => exact absurd hseen hnew
        | missing _ hfind' => nomatch ht'.symm.trans hfind'
        | failed _ hfind' hchild' =>
            obtain ⟨rfl, rfl⟩ := Prod.mk.inj (Except.ok.inj (ht'.symm.trans hfind'))
            nomatch (ihchild hasked hcc hchild').1
        | @found _ _ _ _ _ _ _ _ state' _ _ hfind' hchild' hrest' =>
            obtain ⟨rfl, rfl⟩ := Prod.mk.inj (Except.ok.inj (ht'.symm.trans hfind'))
            obtain ⟨c₂, seen₂⟩ := state'
            obtain ⟨-, hcaches, rfl, -⟩ := ihchild hasked hcc hchild'
            exact ihrest (fun r hr => hreferences r (List.mem_cons_of_mem _ hr)) hcaches hrest'

/-- A page compiles to the same from related caches on. -/
theorem compile (h : w.LookupsTandem fails asked C) {name : String} (hname : asked (.page name))
    (hC : C cache cache') :
    (fails ∧ ∃ e c c', w.compile cache name = (.error e, c) ∧
      w.compile cache' name = (.error e, c') ∧ C c c') ∨
    ∃ t c c', w.compile cache name = (.ok t, c) ∧ w.compile cache' name = (.ok t, c') ∧ C c c' ∧
      w.resolve cache (.page name) = .ok t ∧
        ∀ r ∈ t.program.componentReferences, asked (.component r.1) := by
  unfold Website.compile
  dsimp only
  rw [getOrBuild_page, getOrBuild_page]
  obtain ⟨hfails, e, he, he'⟩ | ⟨t, c, c', ht, ht', hcc, hasked⟩ := h _ _ _ hname hC
  · rw [he, he']
    exact .inl ⟨hfails, e, cache, cache', rfl, rfl, hC⟩
  · rw [ht, ht']
    dsimp only
    have hsame := h.checked (w.checked_nameBound c t) hasked hcc (w.checked_nameBound c' t)
    generalize w.checkComponents (w.nameBound c) t (c, []) = outcome at hsame ⊢
    generalize w.checkComponents (w.nameBound c') t (c', []) = outcome' at hsame ⊢
    obtain ⟨result, c₁, seen⟩ := outcome
    obtain ⟨result', c₁', seen'⟩ := outcome'
    obtain ⟨rfl, hcaches, -, hpassed⟩ := hsame
    cases result with
    | error e => exact .inl ⟨hpassed.resolve_left nofun, e, c₁, c₁', rfl, rfl, hcaches⟩
    | ok _ =>
        exact .inr ⟨t, c₁, c₁', rfl, rfl, hcaches, resolve_eq_ok_iff.mpr ⟨c, ht⟩, hasked⟩

end LookupsTandem

end

/-! ## What a render calls back into -/

/-- Two page renders have recorded the same, have one store, and have related caches. -/
structure PageTandem (C : TemplateCache → TemplateCache → Prop) (I : Store → Prop)
    (s s' : PageState) : Prop where
  host : s.host = s'.host
  store : s.store = s'.store
  holds : I s.store
  cache : C s.cache s'.cache

/-- What renders with two budgets call back into runs in tandem, where their stores have a
property. -/
structure ServesTandem (w : Website) (endless : Prop) (C : TemplateCache → TemplateCache → Prop)
    (I : Store → Prop) (budget budget' : Nat) : Prop where
  empty : I .empty
  numbered : ∀ s made, I s → I { s with made }
  call : ∀ (f : NativeFn) args,
    Tandem endless (fun s s' => s = s' ∧ I s) (f.call budget args) (f.call budget' args)
  childData : ∀ name key props, Tandem endless (fun s s' => s = s' ∧ I s)
    (w.childData budget name key props) (w.childData budget' name key props)
  blocks : ∀ name args, Tandem endless (PageTandem C I)
    (Blocks.render w.blocks (pageHost budget) budget name args)
    (Blocks.render w.blocks (pageHost budget') budget' name args)

section

variable {σ τ : Type} {endless : Prop} {R : σ → τ → Prop} {host : Host σ} {host' : Host τ}

/-- A block renders in tandem if the blocks do that it calls. -/
theorem tandem_renderWith (h : ServicesTandem endless R host host') {blocks : Blocks}
    {inner : String → Value → Run σ String} {inner' : String → Value → Run τ String} {name : String}
    (hinner : ∀ t, Table.get? name blocks = some t → ∀ called ∈ t.program.blockNames,
      ∀ args, Tandem endless R (inner called args) (inner' called args)) (args : Value) :
    Tandem endless R (Blocks.renderWith blocks host inner name args)
      (Blocks.renderWith blocks host' inner' name args) := by
  unfold Blocks.renderWith
  cases hget : Table.get? name blocks with
  | none => exact Tandem.pure _
  | some t =>
      have hcalls : CallsTandem endless R (· ∈ t.program.blockNames) (fun _ => True)
          { RenderCall.plain host args with block := inner }
          { RenderCall.plain host' args with block := inner' } :=
        { services := h
          data := rfl
          instanceKey := rfl
          isServer := rfl
          visible := rfl
          hostProps := .inl ⟨rfl, rfl⟩
          blocks := fun called args hcalled => hinner t hget called hcalled args
          child := fun reference _ _ _ => tandem_failed _ }
      refine (hcalls.render (fun _ hn => hn) fun _ _ => trivial).bind fun rendered => ?_
      cases rendered with
      | ok html => exact Tandem.pure _
      | error f => exact tandem_failed _

/-- Within one budget blocks render in tandem, if they may be endless. -/
theorem tandem_blocks (h : ServicesTandem True R host host') (blocks : Blocks) (budget : Nat)
    (name : String) (args : Value) :
    Tandem True R (Blocks.render blocks host budget name args)
      (Blocks.render blocks host' budget name args) := by
  induction budget generalizing name args with
  | zero => exact fun _ _ _ => .inl ⟨trivial, rfl, rfl⟩
  | succ budget ih =>
      exact tandem_renderWith h (fun _ _ called _ args => ih called args) args

end

section

variable {w : Website} {endless : Prop} {C : TemplateCache → TemplateCache → Prop}
  {I : Store → Prop} {budget budget' : Nat}

/-- What runs in tandem over the store does so over the state of a page render. -/
theorem tandem_ofStore {α : Type} {x y : Run Store α}
    (h : Tandem endless (fun s s' => s = s' ∧ I s) x y) :
    Tandem endless (PageTandem C I)
      (x.within PageState.store fun store s => { s with store })
      (y.within PageState.store fun store s => { s with store }) :=
  Tandem.within h (fun _ _ hpage => ⟨hpage.store, hpage.holds⟩)
    fun _ _ _ _ hpage hstore => { hpage with store := hstore.1, holds := hstore.2 }

theorem servicesTandem_pageHost (hnumbered : ∀ s made, I s → I { s with made })
    (hcall : ∀ (f : NativeFn) args,
      Tandem endless (fun s s' => s = s' ∧ I s) (f.call budget args) (f.call budget' args)) :
    ServicesTandem endless (PageTandem C I) (pageHost budget) (pageHost budget') where
  fresh := by
    intro s s' h
    refine ⟨congrArg (fun store => (Store.fresh store).1) h.store, h.host,
      congrArg (fun store => (Store.fresh store).2) h.store, hnumbered _ _ h.holds, h.cache⟩
  call := fun f args => tandem_ofStore (hcall f args)

/-- Every site serves two renders with one budget in tandem, if they may be endless. -/
theorem servesTandem_refl (w : Website) (C : TemplateCache → TemplateCache → Prop) (budget : Nat) :
    w.ServesTandem True C (fun _ => True) budget budget := by
  have hrefl : ∀ {α : Type} (x : Run Store α),
      Tandem True (fun s s' => s = s' ∧ True) x x := by
    intro α x
    simpa using Tandem.refl x
  exact {
    empty := trivial
    numbered := fun _ _ _ => trivial
    call := fun f args => hrefl _
    childData := fun name key props => hrefl _
    blocks := tandem_blocks (servicesTandem_pageHost (fun _ _ _ => trivial) fun f args => hrefl _)
      w.blocks budget }

end

/-! ## Occurrences -/

section

variable (w : Website) (missing : EngineError → Run PageState Template) (budget : Nat)

/-- Renders an occurrence, where it is given what is done about a template that is not found. -/
def renderOccurrenceOr (inner : Option (String → Value → Bool → Run PageState Value))
    (reference : String) (props : Value) (visible : Bool) : Run PageState Value := do
  let name := componentName reference
  let key ← Run.update fun s =>
    let (key, host) := s.host.register name props
    (key, { s with host })
  if !visible then return .markup ""
  let t ← match w.componentTemplate (← get).cache reference with
    | .ok (t, cache) => do
      Run.update fun s => ((), { s with cache })
      pure t
    | .error e => missing e
  w.renderTemplate budget inner name key props visible t

def renderChildOr : Nat → String → Value → Bool → Run PageState Value
  | 0 => w.renderOccurrenceOr missing budget none
  | remaining + 1 => w.renderOccurrenceOr missing budget (some (renderChildOr remaining))

def pageCallOr (data : Value) : RenderCall PageState :=
  { w.pageCall budget data with child := w.renderChildOr missing budget Engine.maxDepth }

end

/-- What the engine does about a template that is not found: the occurrence fails. -/
def fail (e : EngineError) : Run PageState Template := .failed (.custom e.message)

theorem renderChildOr_fail (w : Website) (budget remaining : Nat) :
    w.renderChildOr fail budget remaining = w.renderChild budget remaining := by
  induction remaining with
  | zero =>
      funext reference props visible
      exact (w.renderChild_zero budget reference props visible).symm
  | succ remaining ih =>
      funext reference props visible
      rw [renderChild_succ, renderChildOr, ih]
      rfl

theorem pageCallOr_fail (w : Website) (budget : Nat) (data : Value) :
    w.pageCallOr fail budget data = w.pageCall budget data := by
  unfold pageCallOr
  rw [renderChildOr_fail]
  rfl

section

variable {w : Website} {endless fails : Prop} {asked : Request → Prop}
  {C : TemplateCache → TemplateCache → Prop} {I : Store → Prop} {budget budget' : Nat}
  {missing missing' : EngineError → Run PageState Template}

theorem tandem_renderTemplate (hserve : w.ServesTandem endless C I budget budget')
    {inner inner' : Option (String → Value → Bool → Run PageState Value)}
    (hinner : (inner = none ∧ inner' = none) ∨ ∃ child child', inner = some child ∧
      inner' = some child' ∧ ∀ reference props visible, asked (.component reference) →
        Tandem endless (PageTandem C I) (child reference props visible)
          (child' reference props visible))
    (name key : String) (props : Value) (visible : Bool) {t : Template}
    (hreferences : ∀ r ∈ t.program.componentReferences, asked (.component r.1)) :
    Tandem endless (PageTandem C I) (w.renderTemplate budget inner name key props visible t)
      (w.renderTemplate budget' inner' name key props visible t) := by
  unfold renderTemplate
  refine (tandem_ofStore (hserve.childData name key props)).bind fun data => ?_
  obtain ⟨rfl, rfl⟩ | ⟨child, child', rfl, rfl, hchild⟩ := hinner
  · exact tandem_failed _
  · have hcalls : CallsTandem endless (PageTandem C I) (fun _ => True)
        (fun reference => asked (.component reference))
        (w.occurrenceCall budget child key visible data)
        (w.occurrenceCall budget' child' key visible data) :=
      { services := servicesTandem_pageHost hserve.numbered hserve.call
        data := rfl
        instanceKey := rfl
        isServer := rfl
        visible := rfl
        hostProps := .inl ⟨rfl, rfl⟩
        blocks := fun name args _ => hserve.blocks name args
        child := hchild }
    refine (hcalls.render (fun _ _ => trivial) hreferences).bind fun rendered => ?_
    cases rendered with
    | ok html => exact Tandem.pure _
    | error f => exact tandem_failed _

theorem tandem_renderOccurrenceOr (hlook : w.LookupsTandem fails asked C)
    (hserve : w.ServesTandem endless C I budget budget')
    (hmissing : fails → missing = fail ∧ missing' = fail)
    {inner inner' : Option (String → Value → Bool → Run PageState Value)}
    (hinner : (inner = none ∧ inner' = none) ∨ ∃ child child', inner = some child ∧
      inner' = some child' ∧ ∀ reference props visible, asked (.component reference) →
        Tandem endless (PageTandem C I) (child reference props visible)
          (child' reference props visible))
    {reference : String} (hreference : asked (.component reference)) (props : Value)
    (visible : Bool) :
    Tandem endless (PageTandem C I)
      (w.renderOccurrenceOr missing budget inner reference props visible)
      (w.renderOccurrenceOr missing' budget' inner' reference props visible) := by
  unfold renderOccurrenceOr
  refine Tandem.bind (Tandem.update fun s s' h => ?_) fun key => ?_
  · rw [h.host]
    exact ⟨rfl, { h with host := rfl }⟩
  cases visible with
  | false => exact Tandem.pure _
  | true =>
      intro s s' h
      rw [if_neg (by simp), if_neg (by simp)]
      rw [run_get_bind, run_get_bind, componentTemplate_eq_find, componentTemplate_eq_find]
      obtain ⟨hfails, e, he, he'⟩ | ⟨t, c, c', ht, ht', hcc, hasked⟩ :=
        hlook _ _ _ hreference h.cache
      · rw [he, he']
        obtain ⟨rfl, rfl⟩ := hmissing hfails
        exact .some h
      · rw [ht, ht']
        exact tandem_renderTemplate hserve hinner _ key props true hasked _ _
          { h with cache := hcc }

theorem tandem_renderChildOr (hlook : w.LookupsTandem fails asked C)
    (hserve : w.ServesTandem endless C I budget budget')
    (hmissing : fails → missing = fail ∧ missing' = fail) (remaining : Nat) {reference : String}
    (hreference : asked (.component reference)) (props : Value) (visible : Bool) :
    Tandem endless (PageTandem C I) (w.renderChildOr missing budget remaining reference props visible)
      (w.renderChildOr missing' budget' remaining reference props visible) := by
  induction remaining generalizing reference props visible with
  | zero =>
      exact tandem_renderOccurrenceOr hlook hserve hmissing (.inl ⟨rfl, rfl⟩) hreference props visible
  | succ remaining ih =>
      exact tandem_renderOccurrenceOr hlook hserve hmissing
        (.inr ⟨_, _, rfl, rfl, fun _ props visible hasked => ih hasked props visible⟩) hreference
        props visible

theorem callsTandem_pageCallOr (hlook : w.LookupsTandem fails asked C)
    (hserve : w.ServesTandem endless C I budget budget')
    (hmissing : fails → missing = fail ∧ missing' = fail) (data : Value) :
    CallsTandem endless (PageTandem C I) (fun _ => True)
      (fun reference => asked (.component reference)) (w.pageCallOr missing budget data)
      (w.pageCallOr missing' budget' data) where
  services := servicesTandem_pageHost hserve.numbered hserve.call
  data := rfl
  instanceKey := rfl
  isServer := rfl
  visible := rfl
  hostProps := by
    refine .inr ⟨_, _, rfl, rfl, Tandem.update fun s s' h => ?_⟩
    rw [h.host, h.store]
    exact ⟨rfl, rfl, rfl, hserve.numbered _ _ (h.store ▸ h.holds), h.cache⟩
  blocks := fun name args _ => hserve.blocks name args
  child := fun _ props visible hasked =>
    tandem_renderChildOr hlook hserve hmissing Engine.maxDepth hasked props visible

end

end Website

/-! ## Pages -/

namespace Engine

open Website

/-- Renders a page, where it is given what is done about a component that is not found. -/
def renderWithHostOr (e : Engine) (missing : EngineError → Run PageState Template) (budget : Nat)
    (name : String) (data : Value) : Option (PageRun (String × HostProps)) :=
  match e.compile name with
  | (.error err, e) => some ⟨.error err, e, #[]⟩
  | (.ok page, e) =>
    (page.program.execute (e.site.pageCallOr missing budget data) ⟨e.cache, .empty, .empty⟩).map
      fun (rendered, s) =>
        let e : Engine := { e with cache := s.cache }
        match rendered with
        | .ok html => ⟨.ok (html, s.host), e, s.store.journal⟩
        | .error f => ⟨.error (page.renderError f e.site.config.isDev), e, s.store.journal⟩

theorem renderWithHostOr_fail (e : Engine) (budget : Nat) (name : String) (data : Value) :
    e.renderWithHostOr fail budget name data = e.renderWithHost budget name data := by
  unfold renderWithHostOr renderWithHost
  generalize e.compile name = compiled
  obtain ⟨result, e⟩ := compiled
  cases result with
  | error err => rfl
  | ok page =>
      dsimp only
      rewrite [pageCallOr_fail]
      rfl

/-- Two runs of page renders came to the same and left engines of one site with related caches. -/
structure RunsTandem {α : Type} (w : Website) (C : TemplateCache → TemplateCache → Prop)
    (run run' : PageRun α) : Prop where
  result : run.result = run'.result
  journal : run.journal = run'.journal
  site : run.engine.site = w
  site' : run'.engine.site = w
  cache : C run.engine.cache run'.engine.cache

/-- Runs that leave one cache are the same. -/
theorem RunsTandem.eq {α : Type} {w : Website} {P : TemplateCache → Prop} {run run' : PageRun α}
    (h : RunsTandem w (fun c c' => c = c' ∧ P c) run run') : run = run' := by
  obtain ⟨result, ⟨site, cache⟩, journal⟩ := run
  obtain ⟨result', ⟨site', cache'⟩, journal'⟩ := run'
  obtain ⟨hresult, hjournal, hsite, hsite', hcache, -⟩ := h
  dsimp only at hresult hjournal hsite hsite' hcache
  rw [hresult, hjournal, hsite, hsite', hcache]

variable {w : Website} {endless fails : Prop} {asked : Request → Prop}
  {C : TemplateCache → TemplateCache → Prop} {I : Store → Prop} {budget budget' : Nat}
  {missing missing' : EngineError → Run PageState Template}

/-- Two engines of one site whose lookups come to the same render a page alike. -/
theorem tandem_renderWithHostOr (hlook : w.LookupsTandem fails asked C)
    (hserve : w.ServesTandem endless C I budget budget')
    (hmissing : fails → missing = fail ∧ missing' = fail) {cache cache' : TemplateCache}
    {name : String} (hname : asked (.page name)) (hC : C cache cache') (data : Value) :
    (endless ∧ (Engine.mk w cache).renderWithHostOr missing budget name data = none ∧
      (Engine.mk w cache').renderWithHostOr missing' budget' name data = none) ∨
    ∃ run run', (Engine.mk w cache).renderWithHostOr missing budget name data = some run ∧
      (Engine.mk w cache').renderWithHostOr missing' budget' name data = some run' ∧
      RunsTandem w C run run' := by
  unfold renderWithHostOr Engine.compile
  dsimp only
  obtain ⟨-, e, c, c', he, he', hcc⟩ | ⟨page, c, c', ht, ht', hcc, -, hasked⟩ :=
    hlook.compile hname hC
  · rw [he, he']
    exact .inr ⟨_, _, rfl, rfl, rfl, rfl, rfl, rfl, hcc⟩
  · rw [ht, ht']
    dsimp only
    have hstart : PageTandem C I ⟨c, .empty, .empty⟩ ⟨c', .empty, .empty⟩ :=
      ⟨rfl, rfl, hserve.empty, hcc⟩
    have hexecute := (callsTandem_pageCallOr hlook hserve hmissing data).execute
      (p := page.program) (fun _ _ => trivial) hasked hstart
    obtain ⟨hendless, hs, hs'⟩ | ⟨rendered, s, s', hs, hs', h⟩ := hexecute
    · rw [hs, hs']
      exact .inl ⟨hendless, rfl, rfl⟩
    · rw [hs, hs']
      refine .inr ⟨_, _, rfl, rfl, ?_⟩
      dsimp only
      rw [h.host, h.store]
      cases rendered with
      | ok html => exact ⟨rfl, rfl, rfl, rfl, h.cache⟩
      | error f => exact ⟨rfl, rfl, rfl, rfl, h.cache⟩

end Engine

end LiveMarkup
