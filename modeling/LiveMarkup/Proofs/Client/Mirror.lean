import LiveMarkup.Proofs.Client.Rendering
import LiveMarkup.Proofs.Engine.Recording
set_option autoImplicit false

/-! # The client renders what the server renders

A client with the components and blocks of an engine renders an instance as the engine would render
the same component on a page of its own: both number the occurrences inside it from the start
(`agree_renderChild`). -/

namespace LiveMarkup

/-! ## What server and client share -/

namespace Website

/-- Whether a reference is to a registered component. -/
def Registered (w : Website) (reference : String) : Prop :=
  (w.component? (componentName reference)).isSome

/-- The template of a registered component in a cache. -/
def template? (w : Website) (cache : TemplateCache) (name : String) : Option Template :=
  (w.component? name).bind fun _ => Table.get? (componentCacheKey name) cache

theorem componentTemplate_of_template? {w : Website} {cache : TemplateCache} {reference : String}
    {t : Template} (h : w.template? cache (componentName reference) = some t) :
    w.componentTemplate cache reference = .ok (t, cache) := by
  unfold template? at h
  obtain ⟨d, hd, hget⟩ := Option.bind_eq_some_iff.mp h
  unfold componentTemplate
  dsimp only
  rw [hd]
  dsimp only
  rw [hget]

/-- An occurrence of a registered component is registered, and its template is in the cache. -/
theorem run_renderOccurrence {w : Website} {reference : String} {s : PageState} {t : Template}
    (ht : w.template? s.cache (componentName reference) = some t) (budget : Nat)
    (inner : Option (String → Value → Bool → Run PageState Value)) (props : Value) (visible : Bool) :
    ExceptT.run (w.renderOccurrence budget inner reference props visible) s =
      if visible then
        ExceptT.run (w.renderTemplate budget inner (componentName reference)
          (s.host.register (componentName reference) props).1 props true t)
          { s with host := (s.host.register (componentName reference) props).2 }
      else some (.ok (.markup ""),
        { s with host := (s.host.register (componentName reference) props).2 }) := by
  have hlookup := componentTemplate_of_template? ht
  unfold renderOccurrence
  rw [run_bind, run_update]
  cases visible with
  | false => rfl
  | true =>
      simp only [Bool.not_true, Bool.false_eq_true, if_false, if_true]
      rw [run_get_bind]
      dsimp only
      rw [hlookup]
      rfl

end Website

/-- A client has the components and blocks of an engine. Components have no setup, their templates
read nothing that only the page provides and refer to registered components, and no key can be of
two of them. -/
structure Shared (w : Website) (cache : TemplateCache) (components : Table Component)
    (blocks : Blocks) : Prop where
  blocks_eq : blocks = w.blocks
  setupFree : w.SetupFree
  registered : ∀ name, Table.get? name components =
    (w.template? cache name).map fun t => ⟨name, t, none⟩
  cached : ∀ name, (w.component? name).isSome → (w.template? cache name).isSome
  portable : ∀ name t, w.template? cache name = some t →
    ∀ n ∈ Node.walkAll t.program.nodes, n.Portable False w.Registered
  apart : Client.KeysApart components

namespace Client

/-! ## Mirrored worlds -/

/-- A client in the middle of a render is where the server is: it has counted as many occurrences
and its store is the same. -/
structure Mirrors (cache : TemplateCache) (document : Document) (components : Table Component)
    (blocks : Blocks) (s : PageState) (c : Client) : Prop where
  store : s.store = c.store
  cache : s.cache = cache
  numbered : ∀ name, Numbered name (s.host.instances name)
  paced : c.registry.Paced fun name => (positions (s.host.instances name)).length
  document : c.document = document
  components : c.components = components
  blocks : c.blocks = blocks
  calm : c.AllCalm

def mirror (cache : TemplateCache) (document : Document) (components : Table Component)
    (blocks : Blocks) : Bridge PageState Client where
  on := Mirrors cache document components blocks
  failed := fun _ _ => True
  weaken := fun _ _ _ => trivial

section

variable {w : Website} {cache : TemplateCache} {document : Document} {components : Table Component}
  {blocks : Blocks} {budget : Nat} {s : PageState} {c : Client}

theorem servicesAgree_mirror :
    ServicesAgree (fun _ => True) (mirror cache document components blocks)
      (Website.pageHost budget) (services budget) where
  fresh := by
    intro s c hm
    refine ⟨congrArg (fun store => store.fresh.1) hm.store, ?_⟩
    exact { hm with
      store := congrArg (fun store => store.fresh.2) hm.store
      calm := hm.calm.congr rfl rfl }
  call := by
    intro f args _ _
    unfold Website.pageHost services
    dsimp only
    refine Agree.within ?_ ?_
    · exact fun s c hm => hm.store
    · intro s c store hm
      exact { hm with
        store := rfl
        calm := hm.calm.congr rfl rfl }

/-- Where the occurrences inside agree, so does the render of an instance. -/
theorem callsAgree_mirror (hs : Shared w cache components blocks)
    {child : String → Value → Bool → Run PageState Value}
    {child' : String → Value → Bool → Run Client Value}
    (hchild : ∀ reference props visible, w.Registered reference →
      Agree (fun _ => True) (mirror cache document components blocks)
        (child reference props visible) (child' reference props visible))
    (key : String) (data : Value) :
    CallsAgree (fun _ => True) (mirror cache document components blocks) w.Registered
      (w.occurrenceCall budget child key true data) (instanceCall budget child' key data) where
  services := servicesAgree_mirror
  data := rfl
  dataWithin := trivial
  instanceKey := rfl
  visible := rfl
  block := by
    intro name args _ s c hm
    have hm : Mirrors cache document components blocks s c := hm
    have hblocks : AgreeAt (fun _ => True) (mirror cache document components blocks)
        (ExceptT.run (Blocks.render w.blocks (Website.pageHost budget) budget name args) s)
        (ExceptT.run (Blocks.render w.blocks (services budget) budget name args) c) :=
      servicesAgree_mirror.blocks hereditary_true w.blocks budget name trivial s c hm
    show AgreeAt _ _
      (ExceptT.run (Blocks.render w.blocks (Website.pageHost budget) budget name args) s)
      (ExceptT.run (Blocks.render c.blocks (services budget) budget name args) c)
    -- the client reads its blocks anew for every call
    have hsame : c.blocks = w.blocks := hm.blocks.trans hs.blocks_eq
    rw [hsame]
    exact hblocks
  child := fun reference props visible hknown _ => hchild reference props visible hknown

theorem agree_renderInstance (hs : Shared w cache components blocks)
    {child : String → Value → Bool → Run PageState Value}
    {child' : String → Value → Bool → Run Client Value}
    (hchild : ∀ reference props visible, w.Registered reference →
      Agree (fun _ => True) (mirror cache document components blocks)
        (child reference props visible) (child' reference props visible))
    {name key : String} {i : Instance} {t : Template} (ht : w.template? cache name = some t)
    (hi : Calm components key i) (hcomponent : i.component.template = t)
    (hm : Mirrors cache document components blocks s c) (budget : Nat) :
    AgreeAt (fun _ => True) (mirror cache document components blocks)
      (t.program.execute (w.occurrenceCall budget child key true
        (.object s.store.fresh.1 (dataRecord i.props.fields [] [])))
        { s with store := s.store.fresh.2 })
      (ExceptT.run (renderInstance budget child' i) c) := by
  rw [run_renderInstance hi, hcomponent, hm.store]
  -- both sides take the same fresh object for the data of the occurrence
  have hworlds : (mirror cache document components blocks).on
      { s with store := c.store.fresh.2 } { c with store := c.store.fresh.2 } :=
    { hm with
      store := rfl
      calm := hm.calm.congr rfl rfl }
  have hcalls : CallsAgree (fun _ => True) (mirror cache document components blocks) w.Registered
      (w.occurrenceCall budget child key true
        (.object c.store.fresh.1 (dataRecord i.props.fields [] [])))
      (instanceCall budget child' key
        (.object c.store.fresh.1 (dataRecord i.props.fields [] []))) :=
    callsAgree_mirror hs hchild key _
  have hexecute := hcalls.execute hereditary_true t.program
    (fun n hn => (hs.portable name t ht n hn).mono False.elim) hworlds
  obtain ⟨hx, hy⟩ | ⟨f, s', f', c', hx, hy, -⟩ | ⟨html, s', c', hx, hy, -, hm'⟩ := hexecute.cases
  · rw [hx, hy]
    trivial
  · rw [hx, hy]
    trivial
  · rw [hx, hy]
    exact ⟨rfl, trivial, hm'⟩

/-- A registered occurrence is rendered alike, if those inside it are. -/
theorem agree_renderOccurrence (hs : Shared w cache components blocks)
    {inner : Option (String → Value → Bool → Run PageState Value)}
    {inner' : Option (String → Value → Bool → Run Client Value)}
    (hinner : (inner = none ∧ inner' = none) ∨ ∃ child child', inner = some child ∧
      inner' = some child' ∧ ∀ reference props visible, w.Registered reference →
        Agree (fun _ => True) (mirror cache document components blocks)
          (child reference props visible) (child' reference props visible))
    (reference : String) (props : Value) (visible : Bool) (hknown : w.Registered reference) :
    Agree (fun _ => True) (mirror cache document components blocks)
      (w.renderOccurrence budget inner reference props visible)
      (renderOccurrence budget inner' reference props visible) := by
  intro s c hm
  have hm : Mirrors cache document components blocks s c := hm
  obtain ⟨t, ht⟩ := Option.isSome_iff_exists.mp (hs.cached _ hknown)
  have hget : c.component? (componentName reference) = some ⟨componentName reference, t, none⟩ := by
    rw [component?, hm.components, hs.registered, ht]
    rfl
  obtain ⟨c', hbind, hbound, hpaced⟩ :=
    hm.calm.bindOccurrence hget rfl hm.paced budget props visible
  have hkey : (s.host.register (componentName reference) props).1 =
      nextKeyOf (componentName reference)
        (positions (s.host.instances (componentName reference))).length props :=
    HostProps.keyFor_of_numbered (hm.numbered _) props
  rw [Website.run_renderOccurrence (hm.cache.symm ▸ ht), run_renderOccurrence hget hbind, hkey]
  -- both have counted one more occurrence of the component, unless it carries a key
  have hm' : Mirrors cache document components blocks
      { s with host := (s.host.register (componentName reference) props).2 } c' := by
    have hinstances : ∀ name, (s.host.register (componentName reference) props).2.instances name =
        if name = componentName reference then Table.insert (nextKeyOf (componentName reference)
          (positions (s.host.instances (componentName reference))).length props) props
          (s.host.instances (componentName reference)) else s.host.instances name := by
      intro name
      rw [← hkey]
      exact s.host.instances_record ..
    refine ⟨hm.store.trans hbound.store.symm, hm.cache, fun name => ?_, hpaced.congr fun name => ?_,
      hbound.document.trans hm.document, hbound.components.trans hm.components,
      hbound.blocks.trans hm.blocks, hbound.calm⟩
    · show Numbered name ((s.host.register (componentName reference) props).2.instances name)
      rw [hinstances]
      split
      · next heq => exact heq ▸ (hm.numbered _).insert props
      · exact hm.numbered name
    · show (positions ((s.host.register (componentName reference) props).2.instances name)).length = _
      rw [hinstances, countOne]
      by_cases heq : name = componentName reference
      · subst heq
        rw [if_pos rfl, (hm.numbered _).positions_insert]
        cases explicitKey? props <;> simp
      · simp [heq]
  cases visible with
  | false => exact ⟨rfl, trivial, hm'⟩
  | true =>
      obtain ⟨i, hi, hprops, hcomponent⟩ := hbound.bound
      simp only [if_true]
      rw [hi, Website.renderTemplate, run_bind, run_within,
        Website.childData_of_setupFree hs.setupFree]
      obtain ⟨rfl, rfl⟩ | ⟨child, child', rfl, rfl, hchild⟩ := hinner
      · exact trivial
      · -- a failure inside is an error of another kind on each side
        have hcalm : Calm components _ i := hm'.components ▸ hm'.calm _ i hi
        have hinstance := agree_renderInstance hs hchild ht hcalm
          (by rw [hcomponent (hm.components ▸ hs.apart)]) hm' budget
        rw [hprops] at hinstance
        dsimp only [Option.map_some]
        rw [CallsAgree.run_render_bind]
        obtain ⟨hx, hy⟩ | ⟨f, s', f', c'', hx, hy, -⟩ | ⟨html, s', c'', hx, hy, -, hm''⟩ :=
          hinstance.cases
        · rw [hx, hy]
          trivial
        · rw [hx, hy]
          trivial
        · rw [hx, hy]
          exact ⟨rfl, trivial, hm''⟩

/-- Occurrences of registered components are rendered alike. -/
theorem agree_renderChild (hs : Shared w cache components blocks) (remaining : Nat)
    (reference : String) (props : Value) (visible : Bool) (hknown : w.Registered reference) :
    Agree (fun _ => True) (mirror cache document components blocks)
      (w.renderChild budget remaining reference props visible)
      (renderChild budget remaining reference props visible) := by
  induction remaining generalizing reference props visible with
  | zero =>
      rw [renderChild_zero, Website.renderChild_zero]
      exact agree_renderOccurrence hs (.inl ⟨rfl, rfl⟩) reference props visible hknown
  | succ remaining ih =>
      rw [renderChild_succ, Website.renderChild_succ]
      exact agree_renderOccurrence hs (.inr ⟨_, _, rfl, rfl, ih⟩) reference props visible hknown

end

end Client

end LiveMarkup
