import LiveMarkup.Engine.Server
import LiveMarkup.Proofs.Render.Programs
import LiveMarkup.Proofs.Value.Plain
set_option autoImplicit false

/-! # What a page render records

A render of a page from plain data with components that have no setup leaves a record of numbered
instances with plain props (`recorded_renderWithHost`), and in production the cache of templates only
grows. -/

namespace LiveMarkup

/-! ## Caches -/

theorem componentCacheKey_injective : Function.Injective componentCacheKey :=
  fun _ _ h => (String.append_right_inj "@").mp h

namespace TemplateCache

/-- What a cache has, another has too. -/
def Within (cache cache' : TemplateCache) : Prop :=
  ∀ key t, Table.get? key cache = some t → Table.get? key cache' = some t

variable {cache cache₁ cache₂ : TemplateCache}

theorem Within.refl (cache : TemplateCache) : Within cache cache := fun _ _ h => h

theorem Within.trans (h₁ : Within cache cache₁) (h₂ : Within cache₁ cache₂) :
    Within cache cache₂ :=
  fun key t ht => h₂ key t (h₁ key t ht)

theorem within_getOrBuild {key : String} {build : Except EngineError Template} {t : Template}
    (h : cache.getOrBuild key .production build = .ok (t, cache₁)) : Within cache cache₁ := by
  unfold getOrBuild at h
  split at h
  · next hget =>
      obtain ⟨-, rfl⟩ := Prod.mk.inj (Except.ok.inj h)
      exact Within.refl cache
  · next hmiss =>
      cases build with
      | error e => simp [Except.map] at h
      | ok built =>
          obtain ⟨-, rfl⟩ := Prod.mk.inj (Except.ok.inj h)
          intro other t' ht'
          rw [Table.get?_insert_of_ne, ht']
          rintro rfl
          exact hmiss t' rfl ht'

end TemplateCache

namespace Website

variable {w : Website} {cache cache₁ : TemplateCache}

theorem within_componentTemplate (hmode : w.config.mode = .production) {reference : String}
    {t : Template} (h : w.componentTemplate cache reference = .ok (t, cache₁)) :
    cache.Within cache₁ := by
  unfold componentTemplate at h
  rw [hmode] at h
  dsimp only at h
  split at h
  · split at h
    · obtain ⟨-, rfl⟩ := Prod.mk.inj (Except.ok.inj h)
      exact .refl cache
    · exact TemplateCache.within_getOrBuild h
  · exact TemplateCache.within_getOrBuild h

theorem within_checkAll (hmode : w.config.mode = .production) {file : String}
    {descend : Template → TemplateCache × List String →
      Except EngineError Unit × TemplateCache × List String}
    (hdescend : ∀ t (state : TemplateCache × List String), state.1.Within (descend t state).2.1)
    (references : List (String × Nat)) (state : TemplateCache × List String) :
    state.1.Within (checkComponents.checkAll w descend file references state).2.1 := by
  induction references generalizing state with
  | nil => exact .refl _
  | cons first rest ih =>
      obtain ⟨reference, line⟩ := first
      obtain ⟨cache, seen⟩ := state
      rw [checkComponents.checkAll]
      -- a component that was checked before is passed over
      split
      · exact ih (cache, seen)
      · split
        · exact .refl cache
        · next child cache₁ htemplate =>
            have hfirst : cache.Within cache₁ := within_componentTemplate hmode htemplate
            have hinner := hdescend child (cache₁, componentName reference :: seen)
            split
            · next e state hfailed =>
                rw [hfailed] at hinner
                exact hfirst.trans hinner
            · next state hdone =>
                rw [hdone] at hinner
                exact (hfirst.trans hinner).trans (ih state)

theorem within_checkComponents (hmode : w.config.mode = .production) (depth : Nat) (t : Template)
    (state : TemplateCache × List String) :
    state.1.Within (w.checkComponents depth t state).2.1 := by
  induction depth generalizing t state with
  | zero => exact .refl _
  | succ depth ih => exact within_checkAll hmode ih _ state

/-- Compiling a page only adds to the cache, also where it fails. -/
theorem within_compile (hmode : w.config.mode = .production) (cache : TemplateCache)
    (name : String) : cache.Within (w.compile cache name).2 := by
  unfold compile
  rw [hmode]
  dsimp only
  split
  · exact .refl cache
  · next page cache₁ hbuilt =>
      have hfirst : cache.Within cache₁ := TemplateCache.within_getOrBuild hbuilt
      have hinner := within_checkComponents hmode (w.nameBound cache₁) page (cache₁, [])
      split
      · next e cache₂ seen hfailed =>
          rw [hfailed] at hinner
          exact hfirst.trans hinner
      · next cache₂ seen hdone =>
          rw [hdone] at hinner
          exact hfirst.trans hinner

/-! ## Occurrences -/

/-- The call that a component occurrence is rendered with. -/
def occurrenceCall (w : Website) (budget : Nat)
    (child : String → Value → Bool → Run PageState Value) (key : String) (visible : Bool)
    (data : Value) : RenderCall PageState where
  host := pageHost budget
  data := data
  instanceKey := some key
  hostProps := none
  isServer := true
  visible := visible
  block := Blocks.render w.blocks (pageHost budget) budget
  child := child

/-- Renders the template of an occurrence; there may be no way to render occurrences inside it. -/
def renderTemplate (w : Website) (budget : Nat)
    (inner : Option (String → Value → Bool → Run PageState Value)) (name key : String)
    (props : Value) (visible : Bool) (t : Template) : Run PageState Value := do
  let data ← (w.childData budget name key props).within PageState.store
    fun store s => { s with store }
  match inner with
  | none =>
    .failed (.custom ("component nesting deeper than " ++ toString Engine.maxDepth ++
      " levels at " ++ name))
  | some child =>
    match ← t.render (w.occurrenceCall budget child key visible data) with
    | .ok html => return .markup html
    | .error f => .failed (.custom (t.renderError f w.config.isDev).message)

/-- Renders an occurrence, which is registered and takes its template from the cache. -/
def renderOccurrence (w : Website) (budget : Nat)
    (inner : Option (String → Value → Bool → Run PageState Value)) (reference : String)
    (props : Value) (visible : Bool) : Run PageState Value := do
  let name := componentName reference
  let key ← Run.update fun s =>
    let (key, host) := s.host.register name props
    (key, { s with host })
  if !visible then return .markup ""
  let t ← match w.componentTemplate (← get).cache reference with
    | .ok (t, cache) => do
      Run.update fun s => ((), { s with cache })
      pure t
    | .error e => .failed (.custom e.message)
  w.renderTemplate budget inner name key props visible t

theorem renderChild_zero (w : Website) (budget : Nat) (reference : String) (props : Value)
    (visible : Bool) : w.renderChild budget 0 reference props visible =
      w.renderOccurrence budget none reference props visible := rfl

theorem renderChild_succ (w : Website) (budget remaining : Nat) (reference : String) (props : Value)
    (visible : Bool) : w.renderChild budget (remaining + 1) reference props visible =
      w.renderOccurrence budget (some (w.renderChild budget remaining)) reference props visible :=
  rfl

/-- No component has a setup. -/
def SetupFree (w : Website) : Prop := ∀ name d, w.component? name = some d → d.setup = none

/-- Without a setup an occurrence is rendered with its props, as a new object. -/
theorem childData_of_setupFree (hfree : w.SetupFree) (budget : Nat) (name key : String)
    (props : Value) (s : Store) : ExceptT.run (w.childData budget name key props) s =
      some (.ok (.object s.fresh.1 (dataRecord props.fields [] [])), s.fresh.2) := by
  have hnone : (w.component? name).bind ComponentDef.setup = none := by
    cases hd : w.component? name with
    | none => rfl
    | some d => exact hfree name d hd
  unfold childData
  rw [hnone]
  rfl

end Website

/-! ## The state of a page render -/

/-- What holds while a page is rendered: the record is one of plain props, and the cache has what it
had. -/
structure PageState.Sound (cache : TemplateCache) (s : PageState) : Prop where
  recorded : s.host.Recorded
  within : cache.Within s.cache

namespace Website

variable {w : Website} {cache : TemplateCache} {budget : Nat}

theorem servicesAgree_pageHost :
    ServicesAgree Value.Plain (.keeping (PageState.Sound cache)) (pageHost budget)
      (pageHost budget) where
  fresh := by
    rintro s _ ⟨rfl, hs⟩
    exact ⟨rfl, rfl, hs.recorded, hs.within⟩
  call := by rintro f args ⟨⟩

theorem agree_renderTemplate (hfree : w.SetupFree)
    {inner : Option (String → Value → Bool → Run PageState Value)}
    (hinner : ∀ child, inner = some child → ∀ reference props visible, props.Plain →
      Agree (fun _ => True) (.keeping (PageState.Sound cache)) (child reference props visible)
        (child reference props visible))
    (name key : String) {props : Value} (hprops : props.Plain) (visible : Bool) (t : Template) :
    Agree (fun _ => True) (.keeping (PageState.Sound cache))
      (w.renderTemplate budget inner name key props visible t)
      (w.renderTemplate budget inner name key props visible t) := by
  unfold renderTemplate
  refine Agree.bind (P := Value.Plain) ?_ fun data hdata => ?_
  · rintro s _ ⟨rfl, hs⟩
    rw [run_within, childData_of_setupFree hfree]
    exact ⟨rfl, hprops.ofFields _, rfl, hs.recorded, hs.within⟩
  cases inner with
  | none => exact agree_failed _ _
  | some child =>
      have hcall : CallsAgree Value.Plain (.keeping (PageState.Sound cache)) (fun _ => True)
          (w.occurrenceCall budget child key visible data)
          (w.occurrenceCall budget child key visible data) :=
        { services := servicesAgree_pageHost
          data := rfl
          dataWithin := hdata
          instanceKey := rfl
          visible := rfl
          block := fun name args hargs =>
            servicesAgree_pageHost.blocks Value.hereditary_plain w.blocks budget name hargs
          child := fun reference props visible _ hprops =>
            hinner child rfl reference props visible hprops }
      refine hcall.render_bind Value.hereditary_plain t ?_ (fun html => Agree.pure trivial) ?_
      · exact fun n _ => n.portable_of ⟨rfl, trivial⟩ fun _ => trivial
      · exact fun e e' => ⟨_, _, rfl, rfl⟩

theorem agree_renderOccurrence (hmode : w.config.mode = .production) (hfree : w.SetupFree)
    {inner : Option (String → Value → Bool → Run PageState Value)}
    (hinner : ∀ child, inner = some child → ∀ reference props visible, props.Plain →
      Agree (fun _ => True) (.keeping (PageState.Sound cache)) (child reference props visible)
        (child reference props visible))
    (reference : String) {props : Value} (hprops : props.Plain) (visible : Bool) :
    Agree (fun _ => True) (.keeping (PageState.Sound cache))
      (w.renderOccurrence budget inner reference props visible)
      (w.renderOccurrence budget inner reference props visible) := by
  unfold renderOccurrence
  -- an occurrence is recorded first, whether it is shown or not
  refine Agree.bind (P := fun _ => True) (Agree.update ?_) fun key _ => ?_
  · rintro s _ ⟨rfl, hs⟩
    exact ⟨rfl, trivial, rfl, hs.recorded.register _ hprops, hs.within⟩
  cases visible with
  | false => exact Agree.pure trivial
  | true =>
      have hrender : ∀ t, Agree (fun _ => True) (.keeping (PageState.Sound cache))
          (w.renderTemplate budget inner (componentName reference) key props true t)
          (w.renderTemplate budget inner (componentName reference) key props true t) :=
        fun t => agree_renderTemplate hfree hinner _ key hprops true t
      refine Agree.get_bind fun s s' hs => ?_
      obtain ⟨rfl, hsound⟩ := hs
      dsimp only
      cases htemplate : w.componentTemplate s.cache reference with
      | error e =>
          refine Agree.bind (P := fun _ => True) (agree_failed _ _) (fun t _ => hrender t) s s ?_
          exact ⟨rfl, hsound⟩
      | ok found =>
          obtain ⟨t, cache₁⟩ := found
          have hwithin := hsound.within.trans (within_componentTemplate hmode htemplate)
          refine hrender t _ _ ⟨rfl, hsound.recorded, hwithin⟩

theorem agree_renderChild (hmode : w.config.mode = .production) (hfree : w.SetupFree)
    (remaining : Nat) (reference : String) {props : Value} (hprops : props.Plain)
    (visible : Bool) :
    Agree (fun _ => True) (.keeping (PageState.Sound cache))
      (w.renderChild budget remaining reference props visible)
      (w.renderChild budget remaining reference props visible) := by
  induction remaining generalizing reference props visible with
  | zero =>
      rw [renderChild_zero]
      exact agree_renderOccurrence hmode hfree (by simp) reference hprops visible
  | succ remaining ih =>
      rw [renderChild_succ]
      refine agree_renderOccurrence hmode hfree ?_ reference hprops visible
      rintro _ ⟨⟩ reference props visible hprops
      exact ih reference hprops visible

/-- A page may read what has been recorded so far. -/
theorem callsAgree_pageCall (hmode : w.config.mode = .production) (hfree : w.SetupFree)
    (budget : Nat) {data : Value} (hdata : data.Plain) :
    CallsAgree Value.Plain (.keeping (PageState.Sound cache)) (fun _ => True)
      (w.pageCall budget data) (w.pageCall budget data) where
  services := servicesAgree_pageHost
  data := rfl
  dataWithin := hdata
  instanceKey := rfl
  visible := rfl
  block := fun name _ hargs =>
    servicesAgree_pageHost.blocks Value.hereditary_plain w.blocks budget name hargs
  child := fun reference _ visible _ hprops =>
    agree_renderChild hmode hfree Engine.maxDepth reference hprops visible

theorem hostAgrees_pageCall {data : Value} :
    HostAgrees Value.Plain (.keeping (PageState.Sound cache)) (w.pageCall budget data)
      (w.pageCall budget data) := by
  refine ⟨rfl, Agree.update ?_⟩
  rintro s _ ⟨rfl, hs⟩
  exact ⟨rfl, hs.recorded.plain_toValue _, rfl, hs.recorded, hs.within⟩

end Website

namespace Engine

variable {e : Engine} {budget : Nat} {name : String} {data : Value}

/-- Rendering a page changes no more of an engine than to add to its cache; a page that was rendered
has a record of plain props. -/
theorem recorded_renderWithHost (hmode : e.site.config.mode = .production)
    (hfree : e.site.SetupFree) (hdata : data.Plain) {run : PageRun (String × HostProps)}
    (hrun : e.renderWithHost budget name data = some run) :
    run.engine.site = e.site ∧ e.cache.Within run.engine.cache ∧
      ∀ html host, run.result = .ok (html, host) → host.Recorded := by
  have hcompiled := Website.within_compile hmode e.cache name
  unfold renderWithHost Engine.compile at hrun
  generalize e.site.compile e.cache name = compiled at hcompiled hrun
  obtain ⟨result, cache⟩ := compiled
  cases result with
  | error err =>
      obtain rfl := Option.some.inj hrun
      exact ⟨rfl, hcompiled, by simp⟩
  | ok page =>
      have hstart : (Bridge.keeping (PageState.Sound e.cache)).on ⟨cache, .empty, .empty⟩
          ⟨cache, .empty, .empty⟩ := ⟨rfl, HostProps.recorded_empty, hcompiled⟩
      have hcall : CallsAgree Value.Plain (.keeping (PageState.Sound e.cache)) (fun _ => True)
          (e.site.pageCall budget data) (e.site.pageCall budget data) :=
        Website.callsAgree_pageCall hmode hfree budget hdata
      have hexecute := hcall.execute Value.hereditary_plain page.program
        (fun n _ => n.portable_of Website.hostAgrees_pageCall fun _ => trivial) hstart
      obtain ⟨s, hs, rfl⟩ := Option.map_eq_some_iff.mp hrun
      obtain ⟨hnone, -⟩ | ⟨f, s', -, -, hfailed, -, -, hsound⟩ | ⟨html, s', -, hok, -, -, -, hsound⟩ :=
        hexecute.cases
      · exact absurd (hs.symm.trans hnone) (by simp)
      · obtain rfl := Option.some.inj (hs.symm.trans hfailed)
        exact ⟨rfl, hsound.within, by simp⟩
      · obtain rfl := Option.some.inj (hs.symm.trans hok)
        refine ⟨rfl, hsound.within, fun html' host heq => ?_⟩
        obtain ⟨-, rfl⟩ := Prod.mk.inj (Except.ok.inj heq)
        exact hsound.recorded

theorem recorded_renderPage (hmode : e.site.config.mode = .production) (hfree : e.site.SetupFree)
    (hdata : data.Plain) {run : PageRun PageOutput}
    (hrun : e.renderPage budget name data = some run) :
    run.engine.site = e.site ∧ e.cache.Within run.engine.cache ∧
      ∀ page, run.result = .ok page →
        ∃ host : HostProps, host.Recorded ∧ page.props = (host.toValue .made 0).1 := by
  obtain ⟨rendered, hrendered, rfl⟩ := Option.map_eq_some_iff.mp hrun
  obtain ⟨hsite, hcache, hrecorded⟩ := recorded_renderWithHost hmode hfree hdata hrendered
  refine ⟨hsite, hcache, fun page hpage => ?_⟩
  cases hresult : rendered.result with
  | error err =>
      dsimp only at hpage
      rw [hresult] at hpage
      simp [Except.map] at hpage
  | ok out =>
      dsimp only at hpage
      rw [hresult] at hpage
      obtain rfl := Except.ok.inj hpage
      exact ⟨out.2, hrecorded out.1 out.2 hresult, rfl⟩

end Engine

end LiveMarkup
