import LiveMarkup.Proofs.Client.Calm
import LiveMarkup.Proofs.Render.Programs
set_option autoImplicit false

/-! # Renders of a client

What the occurrences in a template keep, rendering an instance keeps (`keeping_renderInstance`), and
renders of occurrences keep what binding them to instances keeps (`keeping_renderChild`). Where no
component has a setup, a render touches neither the document nor what is registered, whether it
succeeds or not (`kept_renderChild`). -/

namespace LiveMarkup.Client

/-! ## Rendering one occurrence -/

/-- Renders an occurrence; there may be no way to render occurrences inside it. -/
def renderOccurrence (budget : Nat) (inner : Option (String → Value → Bool → Run Client Value))
    (reference : String) (props : Value) (visible : Bool) : Run Client Value := do
  let name := componentName reference
  match (← get).component? name with
  | none => .failed (.componentNotFound reference)
  | some component => do
    let key ← bindOccurrence budget component name props visible
    if !visible then return .markup ""
    match inner with
    | none =>
      .failed (.custom ("component nesting deeper than " ++ toString maxDepth ++ " levels at " ++
        name))
    | some child =>
      match (← get).instance? key with
      | none => return .markup ""
      | some i =>
        match ← (renderInstance budget child i).run with
        | .ok html => return .markup html
        | .error e => .failed (.custom e.message)

theorem renderChild_zero (budget : Nat) (reference : String) (props : Value) (visible : Bool) :
    renderChild budget 0 reference props visible =
      renderOccurrence budget none reference props visible := by
  rw [renderChild]
  rfl

theorem renderChild_succ (budget remaining : Nat) (reference : String) (props : Value)
    (visible : Bool) : renderChild budget (remaining + 1) reference props visible =
      renderOccurrence budget (some (renderChild budget remaining)) reference props visible := by
  rw [renderChild]
  rfl

/-- What comes of an instance whose template was rendered: a failure goes through the fallback if
there is one. -/
def outcome (i : Instance) : Rendered → Except ClientError String
  | .ok html => .ok html
  | .error f =>
    match i.fallback with
    | some fallback => .ok (fallback f.error)
    | none => .error (.render i.component.name i.key f.error.message f.line)

/-- An instance is rendered from its data as a new object. -/
theorem run_renderInstance_eq (i : Instance) (budget : Nat)
    (child : String → Value → Bool → Run Client Value) (c : Client) :
    ExceptT.run (renderInstance budget child i) c =
      (i.component.template.program.execute
        (instanceCall budget child i.key (.object c.store.fresh.1 (i.data c.store)))
        { c with store := c.store.fresh.2 }).map fun (rendered, c') => (outcome i rendered, c') := by
  have hdata : instanceData i c =
      some (.object c.store.fresh.1 (i.data c.store), { c with store := c.store.fresh.2 }) := rfl
  unfold renderInstance
  rw [run_bind, run_lift, hdata]
  dsimp only [Option.map_some]
  rw [run_bind, run_lift]
  unfold execute
  rcases i.component.template.program.execute (instanceCall budget child i.key _) _ with
    _ | ⟨f | html, c'⟩
  · rfl
  · unfold outcome
    cases i.fallback <;> rfl
  · rfl

/-- A failure of an instance without a fallback is a failure. -/
theorem run_renderInstance_of_fallback {i : Instance} (hi : i.fallback = none) (budget : Nat)
    (child : String → Value → Bool → Run Client Value) (c : Client) :
    ExceptT.run (renderInstance budget child i) c =
      (i.component.template.program.execute
        (instanceCall budget child i.key (.object c.store.fresh.1 (i.data c.store)))
        { c with store := c.store.fresh.2 }).map fun (rendered, c') =>
          (rendered.mapError fun f =>
            .render i.component.name i.key f.error.message f.line, c') := by
  rw [run_renderInstance_eq]
  rcases i.component.template.program.execute (instanceCall budget child i.key _) _ with
    _ | ⟨f | html, c'⟩
  · rfl
  · simp [outcome, hi, Except.mapError]
  · rfl

/-- A calm instance is rendered from its props. -/
theorem run_renderInstance {components : Table Component} {key : String} {i : Instance}
    (hi : Calm components key i) (budget : Nat) (child : String → Value → Bool → Run Client Value)
    (c : Client) : ExceptT.run (renderInstance budget child i) c =
      (i.component.template.program.execute
        (instanceCall budget child key (.object c.store.fresh.1 (dataRecord i.props.fields [] [])))
        { c with store := c.store.fresh.2 }).map fun (rendered, c') =>
          (rendered.mapError fun f =>
            .render i.component.name key f.error.message f.line, c') := by
  rw [run_renderInstance_of_fallback hi.fallback, hi.key_eq, hi.data]

/-- There is nothing to bind an occurrence of an unknown component to. -/
theorem run_renderOccurrence_of_unknown {reference : String} {c : Client}
    (hget : c.component? (componentName reference) = none) (budget : Nat)
    (inner : Option (String → Value → Bool → Run Client Value)) (props : Value) (visible : Bool) :
    ExceptT.run (renderOccurrence budget inner reference props visible) c =
      some (.error (.componentNotFound reference), c) := by
  unfold renderOccurrence
  dsimp only
  rw [run_get_bind, hget]
  rfl

/-- The budget may be exceeded while an occurrence is bound. -/
theorem run_renderOccurrence_of_exhausted {reference : String} {component : Component}
    {props : Value} {visible : Bool} {budget : Nat} {c : Client}
    (hget : c.component? (componentName reference) = some component)
    (hbind : bindOccurrence budget component (componentName reference) props visible c = none)
    (inner : Option (String → Value → Bool → Run Client Value)) :
    ExceptT.run (renderOccurrence budget inner reference props visible) c = none := by
  unfold renderOccurrence
  dsimp only
  rw [run_get_bind, hget]
  dsimp only
  rw [run_bind, run_lift, hbind]
  rfl

/-- An occurrence that was bound is shown by its instance. -/
theorem run_renderOccurrence {reference key : String} {component : Component} {props : Value}
    {visible : Bool} {budget : Nat} {c c' : Client}
    (hget : c.component? (componentName reference) = some component)
    (hbind : bindOccurrence budget component (componentName reference) props visible c =
      some (key, c'))
    (inner : Option (String → Value → Bool → Run Client Value)) :
    ExceptT.run (renderOccurrence budget inner reference props visible) c =
      if visible then
        match inner, c'.instance? key with
        | some child, some i =>
          (ExceptT.run (renderInstance budget child i) c').map fun (outcome, c'') =>
            ((outcome.map Value.markup).mapError fun e => .custom e.message, c'')
        | some _, none => some (.ok (.markup ""), c')
        | none, _ => some (.error (.custom ("component nesting deeper than " ++ toString maxDepth ++
            " levels at " ++ componentName reference)), c')
      else some (.ok (.markup ""), c') := by
  unfold renderOccurrence
  dsimp only
  rw [run_get_bind, hget]
  dsimp only
  rw [run_bind, run_lift, hbind]
  cases visible with
  | false => rfl
  | true =>
      simp only [Bool.not_true, Bool.false_eq_true, if_false, if_true, Option.map_some]
      cases inner with
      | none => rfl
      | some child =>
          dsimp only
          rw [run_get_bind]
          cases c'.instance? key with
          | none => rfl
          | some i =>
              dsimp only
              rw [run_bind, run_lift]
              cases ExceptT.run (renderInstance budget child i) c' with
              | none => rfl
              | some outcome =>
                  obtain ⟨e | html, c''⟩ := outcome <;> rfl

/-! ## What a render keeps -/

section

variable {I : Client → Prop} {budget : Nat} {child : String → Value → Bool → Run Client Value}

/-- What the store provides keeps an invariant that does not depend on the store. -/
theorem servicesAgree_keeping (hI : ∀ c store, I c → I { c with store }) :
    ServicesAgree (fun _ => True) (.keeping I) (services budget) (services budget) where
  fresh := by
    rintro c _ ⟨rfl, hc⟩
    exact ⟨rfl, rfl, hI c _ hc⟩
  call := by
    intro f args _ _
    unfold services
    dsimp only
    refine Agree.within ?_ ?_
    · rintro c _ ⟨rfl, -⟩
      rfl
    · rintro c _ store ⟨rfl, hc⟩
      exact ⟨rfl, hI c store hc⟩

theorem callsAgree_keeping (hI : ∀ c store, I c → I { c with store })
    (hchild : ∀ reference props visible,
      Agree (fun _ => True) (.keeping I) (child reference props visible)
        (child reference props visible)) (key : String) (data : Value) :
    CallsAgree (fun _ => True) (.keeping I) (fun _ => True) (instanceCall budget child key data)
      (instanceCall budget child key data) where
  services := servicesAgree_keeping hI
  data := rfl
  dataWithin := trivial
  instanceKey := rfl
  visible := rfl
  block := by
    rintro name args _ c _ ⟨rfl, hc⟩
    exact (servicesAgree_keeping hI).blocks hereditary_true c.blocks budget name trivial c c
      ⟨rfl, hc⟩
  child := fun reference props visible _ _ => hchild reference props visible

theorem hostAgrees_keeping (hI : ∀ c store, I c → I { c with store }) (key : String)
    (data : Value) :
    HostAgrees (fun _ => True) (.keeping I) (instanceCall budget child key data)
      (instanceCall budget child key data) := by
  refine ⟨rfl, Agree.update ?_⟩
  rintro c _ ⟨rfl, hc⟩
  exact ⟨rfl, trivial, rfl, hI c _ hc⟩

/-- Rendering an instance keeps an invariant that does not depend on the store, if rendering the
occurrences in it does. -/
theorem keeping_renderInstance (budget : Nat) (hI : ∀ c store, I c → I { c with store })
    (hchild : ∀ reference props visible,
      Agree (fun _ => True) (.keeping I) (child reference props visible)
        (child reference props visible)) (i : Instance) {c : Client} (hc : I c) :
    AgreeAt (fun _ => True) (.keeping I) (ExceptT.run (renderInstance budget child i) c)
      (ExceptT.run (renderInstance budget child i) c) := by
  rw [run_renderInstance_eq]
  let call := instanceCall budget child i.key (.object c.store.fresh.1 (i.data c.store))
  have hcalls : CallsAgree (fun _ => True) (.keeping I) (fun _ => True) call call :=
    callsAgree_keeping hI hchild i.key _
  have hexecute := hcalls.execute hereditary_true i.component.template.program
    (fun n _ => n.portable_of (hostAgrees_keeping hI i.key _) fun _ => trivial)
    (⟨rfl, hI c _ hc⟩ : (Bridge.keeping I).on _ { c with store := c.store.fresh.2 })
  revert hexecute
  rcases i.component.template.program.execute call { c with store := c.store.fresh.2 } with
    _ | ⟨f | html, c'⟩
  · exact fun _ => trivial
  · rintro ⟨-, hc'⟩
    unfold outcome
    dsimp only [Option.map_some]
    cases i.fallback with
    | none => exact ⟨rfl, hc'⟩
    | some fallback => exact ⟨rfl, trivial, rfl, hc'⟩
  · rintro ⟨-, -, -, hc'⟩
    exact ⟨rfl, trivial, rfl, hc'⟩

/-- Rendering an occurrence keeps an invariant that does not depend on the store, if binding it to
an instance and rendering the occurrences in it do. -/
theorem keeping_renderOccurrence (hI : ∀ c store, I c → I { c with store })
    {inner : Option (String → Value → Bool → Run Client Value)}
    (hinner : ∀ child, inner = some child → ∀ reference props visible,
      Agree (fun _ => True) (.keeping I) (child reference props visible)
        (child reference props visible))
    {reference : String} {props : Value} {visible : Bool}
    (hbind : ∀ c component key c', I c → c.component? (componentName reference) = some component →
      bindOccurrence budget component (componentName reference) props visible c = some (key, c') →
      I c') :
    Agree (fun _ => True) (.keeping I) (renderOccurrence budget inner reference props visible)
      (renderOccurrence budget inner reference props visible) := by
  rintro c _ ⟨rfl, hc⟩
  cases hget : c.component? (componentName reference) with
  | none =>
      rw [run_renderOccurrence_of_unknown hget]
      exact ⟨rfl, hc⟩
  | some component =>
      cases hbound :
        bindOccurrence budget component (componentName reference) props visible c with
      | none =>
          rw [run_renderOccurrence_of_exhausted hget hbound]
          trivial
      | some bound =>
          obtain ⟨key, c'⟩ := bound
          have hc' : I c' := hbind c component key c' hc hget hbound
          rw [run_renderOccurrence hget hbound]
          cases visible with
          | false => exact ⟨rfl, trivial, rfl, hc'⟩
          | true =>
              simp only [if_true]
              cases inner with
              | none => exact ⟨rfl, hc'⟩
              | some child =>
                  cases c'.instance? key with
                  | none => exact ⟨rfl, trivial, rfl, hc'⟩
                  | some i =>
                      -- the outcome of the instance is passed on, only its type changes
                      have hinstance :=
                        keeping_renderInstance budget hI (hinner child rfl) i hc'
                      dsimp only
                      revert hinstance
                      rcases ExceptT.run (renderInstance budget child i) c' with
                        _ | ⟨e | html, c''⟩
                      · exact fun _ => trivial
                      · exact fun h => h
                      · exact fun h => ⟨rfl, trivial, h.2.2⟩

/-- Occurrences at every depth keep what binding them to instances keeps. -/
theorem keeping_renderChild (hI : ∀ c store, I c → I { c with store })
    (hbind : ∀ reference props visible c component key c', I c →
      c.component? (componentName reference) = some component →
      bindOccurrence budget component (componentName reference) props visible c = some (key, c') →
      I c')
    (remaining : Nat) (reference : String) (props : Value) (visible : Bool) :
    Agree (fun _ => True) (.keeping I) (renderChild budget remaining reference props visible)
      (renderChild budget remaining reference props visible) := by
  -- on how many components may still be rendered inside one another
  induction remaining generalizing reference props visible with
  | zero =>
      rw [renderChild_zero]
      exact keeping_renderOccurrence hI (by simp) (hbind reference props visible)
  | succ remaining ih =>
      rw [renderChild_succ]
      refine keeping_renderOccurrence hI ?_ (hbind reference props visible)
      rintro _ ⟨⟩ reference props visible
      exact ih reference props visible

end

/-- No component has a setup. -/
def SetupFree (components : Table Component) : Prop :=
  ∀ name component, Table.get? name components = some component → component.setup = none

/-- A client in the middle of a render: its document and what is registered are as they were, and its
cursors have come as far as some number of occurrences. -/
structure Kept (document : Document) (components : Table Component) (blocks : Blocks) (c : Client) :
    Prop where
  document : c.document = document
  components : c.components = components
  blocks : c.blocks = blocks
  calm : c.AllCalm
  paced : ∃ count, c.registry.Paced count

section

variable {document : Document} {components : Table Component} {blocks : Blocks} {budget : Nat}
  {c : Client}

theorem Kept.withStore (h : Kept document components blocks c) (store : Store) :
    Kept document components blocks { c with store } :=
  { h with calm := h.calm.congr rfl rfl }

theorem Kept.bindOccurrence (h : Kept document components blocks c) (hfree : SetupFree components)
    {name key : String} {component : Component} {props : Value} {visible : Bool} {c' : Client}
    (hget : c.component? name = some component)
    (hbind : bindOccurrence budget component name props visible c = some (key, c')) :
    Kept document components blocks c' := by
  obtain ⟨count, hpaced⟩ := h.paced
  have hsetup : component.setup = none := by
    rw [component?, h.components] at hget
    exact hfree _ component hget
  obtain ⟨c₁, hbind₁, hbound, hpaced'⟩ :=
    h.calm.bindOccurrence hget hsetup hpaced budget props visible
  obtain ⟨-, rfl⟩ := Prod.mk.inj (Option.some.inj (hbind₁.symm.trans hbind))
  exact ⟨hbound.document.trans h.document, hbound.components.trans h.components,
    hbound.blocks.trans h.blocks, hbound.calm, _, hpaced'⟩

/-- A render of occurrences keeps the document and what is registered. -/
theorem kept_renderChild (hfree : SetupFree components) (budget remaining : Nat)
    (reference : String) (props : Value) (visible : Bool) :
    Agree (fun _ => True) (.keeping (Kept document components blocks))
      (renderChild budget remaining reference props visible)
      (renderChild budget remaining reference props visible) :=
  keeping_renderChild (fun _ store hc => hc.withStore store)
    (fun _ _ _ _ _ _ _ hc hget hbind => hc.bindOccurrence hfree hget hbind) remaining reference
    props visible

end

end LiveMarkup.Client
