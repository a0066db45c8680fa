import LiveMarkup.Client.Render
import LiveMarkup.Proofs.InstanceKeys
set_option autoImplicit false

/-! # Clients without setups

Where no component has a setup, an instance is no more than its component, its key and its props: it
has no state, no hooks and no fallback (`Calm`). Showing and hiding such instances runs nothing, and
an occurrence is bound to its instance without any other effect (`bindOccurrence_of_calm`). -/

namespace LiveMarkup.Client

variable {α β : Type} {c : Client} {key : String} {i : Instance} {budget : Nat}

/-! ## Running acts -/

theorem act_bind (x : Act α) (f : α → Act β) (c : Client) :
    (x >>= f) c = (x c).bind fun (a, c') => f a c' := rfl

@[simp] theorem act_get (c : Client) : (get : Act Client) c = some (c, c) := rfl

@[simp] theorem act_modify (f : Client → Client) (c : Client) :
    (modify f : Act PUnit) c = some ((), f c) := rfl

/-! ## Instances -/

theorem instance?_modifyInstance (c : Client) (key : String) (f : Instance → Instance)
    (other : String) : (c.modifyInstance key f).instance? other =
      if other = key then (c.instance? key).map f else c.instance? other := by
  unfold modifyInstance
  cases hget : c.instance? key with
  | none =>
      dsimp only
      split
      · next heq => rw [heq, hget]; rfl
      · rfl
  | some i =>
      unfold instance?
      dsimp only
      split
      · next heq => rw [heq, Table.get?_insert_self]; rfl
      · next hne => rw [Table.get?_insert_of_ne hne]

/-- Only the instances of a client have changed. -/
structure SameButInstances (c c' : Client) : Prop where
  document : c'.document = c.document
  components : c'.components = c.components
  blocks : c'.blocks = c.blocks
  registry : c'.registry = c.registry
  host : c'.host = c.host
  store : c'.store = c.store

theorem SameButInstances.trans {c₁ c₂ : Client} (h₁ : SameButInstances c c₁)
    (h₂ : SameButInstances c₁ c₂) : SameButInstances c c₂ where
  document := h₂.document.trans h₁.document
  components := h₂.components.trans h₁.components
  blocks := h₂.blocks.trans h₁.blocks
  registry := h₂.registry.trans h₁.registry
  host := h₂.host.trans h₁.host
  store := h₂.store.trans h₁.store

theorem sameButInstances_modifyInstance (c : Client) (key : String) (f : Instance → Instance) :
    SameButInstances c (c.modifyInstance key f) := by
  unfold modifyInstance
  split <;> exact ⟨rfl, rfl, rfl, rfl, rfl, rfl⟩

/-! ## Instances without hooks -/

/-- There is nothing to run at any stage of an instance. -/
def Hookless (c : Client) (key : String) : Prop :=
  ∀ stage, ((c.instance? key).map fun i => i.hooksFor stage).getD [] = []

theorem hookless_of_instance? (hi : c.instance? key = some i) (hhooks : i.hooks = []) :
    c.Hookless key := by
  intro stage
  simp [hi, Instance.hooksFor, hhooks]

theorem fire_of_hookless (h : c.Hookless key) (budget : Nat) (stage : Stage) :
    fire budget key stage c = some ((), c) := by
  unfold fire
  rw [act_bind, act_get]
  dsimp only [Option.bind_some]
  rw [h]
  rfl

theorem fireLater_of_hookless (h : c.Hookless key) (stage : Stage) :
    fireLater key stage c = some ((), c) := by
  unfold fireLater
  rw [act_bind, act_get]
  dsimp only [Option.bind_some]
  rw [h]
  rfl

/-- Showing and hiding an instance without hooks changes only what is armed. -/
theorem transition_of_hookless (h : c.Hookless key) (budget : Nat) (shown : Bool) :
    ∃ armed, transition budget key shown c =
      some ((), c.modifyInstance key fun i => { i with armed }) := by
  unfold transition
  rw [act_bind, act_get]
  dsimp only [Option.bind_some]
  cases hi : c.instance? key with
  | none =>
      refine ⟨.all, ?_⟩
      rw [Client.modifyInstance, hi]
      rfl
  | some i =>
      refine ⟨(i.armed.transition shown).2, ?_⟩
      dsimp only
      generalize i.armed.transition shown = change
      obtain ⟨⟨now, later⟩, armed⟩ := change
      have hless : (c.modifyInstance key fun i => { i with armed }).Hookless key := by
        intro stage
        rw [instance?_modifyInstance, if_pos rfl, Option.map_map]
        exact h stage
      rw [act_bind, act_modify]
      dsimp only [Option.bind_some]
      cases later with
      | none =>
          cases now with
          | none => rfl
          | some stage =>
              dsimp only
              rw [act_bind, fire_of_hookless hless]
              rfl
      | some last =>
          have hlast := fireLater_of_hookless hless last
          cases now with
          | none => exact hlast
          | some stage =>
              dsimp only
              rw [act_bind, fire_of_hookless hless]
              exact hlast

/-! ## Calm instances -/

/-- An instance whose component has no setup, under one of the keys of the component. -/
structure Calm (components : Table Component) (key : String) (i : Instance) : Prop where
  registered : ∃ name, Table.get? name components = some i.component ∧ KeyOf name key
  key_eq : i.key = key
  signal : i.signal = none
  methods : i.methods = []
  fallback : i.fallback = none
  hooks : i.hooks = []

/-- Every instance is calm. -/
def AllCalm (c : Client) : Prop := ∀ key i, c.instance? key = some i → Calm c.components key i

theorem calm_create {components : Table Component} {name : String} {component : Component}
    (hget : Table.get? name components = some component) (hkey : KeyOf name key) (props : Value) :
    Calm components key (.create component key props) :=
  ⟨⟨name, hget, hkey⟩, rfl, rfl, rfl, rfl, rfl⟩

/-- A calm instance is rendered with its props. -/
theorem Calm.data {components : Table Component} (h : Calm components key i) (s : Store) :
    i.data s = dataRecord i.props.fields [] [] := by
  unfold Instance.data
  rw [h.signal, h.methods]
  rfl

namespace AllCalm

theorem modifyInstance (h : c.AllCalm) (key : String) {f : Instance → Instance}
    (hf : ∀ i, Calm c.components key i → Calm c.components key (f i)) :
    (c.modifyInstance key f).AllCalm := by
  intro other i hi
  rw [(sameButInstances_modifyInstance c key f).components]
  rw [instance?_modifyInstance] at hi
  split at hi
  · next heq =>
      obtain ⟨i', hi', rfl⟩ := Option.map_eq_some_iff.mp hi
      exact heq ▸ hf i' (h key i' hi')
  · exact h other i hi

/-- Props, armed stages and roots may change. -/
theorem retouch (h : c.AllCalm) (key : String) {f : Instance → Instance}
    (hf : ∀ i, f i = { i with props := (f i).props, armed := (f i).armed, root := (f i).root }) :
    (c.modifyInstance key f).AllCalm := by
  refine h.modifyInstance key fun i hi => ?_
  rw [hf i]
  exact ⟨hi.registered, hi.key_eq, hi.signal, hi.methods, hi.fallback, hi.hooks⟩

theorem congr {c' : Client} (h : c.AllCalm) (hinstances : c'.instances = c.instances)
    (hcomponents : c'.components = c.components) : c'.AllCalm := by
  intro key i hi
  rw [hcomponents]
  exact h key i (by rwa [instance?, hinstances] at hi)

theorem hooksFor (h : c.AllCalm) (key : String) (stage : Stage) :
    ((c.instance? key).map fun i => i.hooksFor stage).getD [] = [] := by
  cases hi : c.instance? key with
  | none => rfl
  | some i => simp [Instance.hooksFor, (h key i hi).hooks]

/-! ## Showing and hiding -/

theorem fire (h : c.AllCalm) (budget : Nat) (key : String) (stage : Stage) :
    Client.fire budget key stage c = some ((), c) :=
  fire_of_hookless (h.hooksFor key) budget stage

theorem transition (h : c.AllCalm) (budget : Nat) (key : String) (shown : Bool) :
    ∃ armed, Client.transition budget key shown c =
      some ((), c.modifyInstance key fun i => { i with armed }) :=
  transition_of_hookless (h.hooksFor key) budget shown

/-- A new instance gets its props, and there is no setup to run. -/
theorem ensureInstance (h : c.AllCalm) {name : String} {component : Component}
    (hget : Table.get? name c.components = some component) (hsetup : component.setup = none)
    (hkey : KeyOf name key) (budget : Nat) (props : Value) :
    ∃ c', Client.ensureInstance budget component key props c = some ((), c') ∧
      SameButInstances c c' ∧
      c'.instance? key = some ((c.instance? key).getD (.create component key props)) ∧
      c'.AllCalm := by
  unfold Client.ensureInstance
  rw [hsetup, act_bind, act_get]
  dsimp only [Option.bind_some]
  cases hi : c.instance? key with
  | some i => exact ⟨c, rfl, ⟨rfl, rfl, rfl, rfl, rfl, rfl⟩, hi, h⟩
  | none =>
      refine ⟨{ c with instances := Table.insert key (.create component key props) c.instances }, rfl,
        ⟨rfl, rfl, rfl, rfl, rfl, rfl⟩, Table.get?_insert_self .., fun other i hother => ?_⟩
      unfold instance? at hother
      by_cases heq : other = key
      · subst heq
        rw [Table.get?_insert_self] at hother
        exact Option.some.inj hother ▸ calm_create hget hkey props
      · rw [Table.get?_insert_of_ne heq] at hother
        exact h other i hother

end AllCalm

/-! ## Occurrences -/

/-- No key can be of two registered components. -/
def KeysApart (components : Table Component) : Prop :=
  ∀ name name' key, (Table.get? name components).isSome → (Table.get? name' components).isSome →
    KeyOf name key → KeyOf name' key → name = name'

/-- How many occurrences of each component have no key, after one more. -/
def countOne (count : String → Nat) (name : String) (props : Value) (other : String) : Nat :=
  if other = name ∧ (explicitKey? props).isNone then count other + 1 else count other

theorem resolveKey_of_paced {count : String → Nat} (h : c.registry.Paced count) (name : String)
    (props : Value) : ∃ registry, resolveKey name props c =
      some (nextKeyOf name (count name) props, { c with registry }) ∧
        registry.Paced (countOne count name props) := by
  unfold resolveKey nextKeyOf countOne
  cases explicitKey? props with
  | none =>
      obtain ⟨hkey, hpaced⟩ := h.resolve name
      refine ⟨(c.registry.resolve name).2, ?_, hpaced.congr fun other => ?_⟩
      · show some ((c.registry.resolve name).1.key, _) = _
        rw [hkey]
        rfl
      · by_cases heq : other = name <;> simp [heq]
  | some key =>
      obtain ⟨hkey, hpaced⟩ := h.resolveExplicit name key
      refine ⟨(c.registry.resolveExplicit name key).2, ?_, hpaced.congr fun other => by simp⟩
      show some ((c.registry.resolveExplicit name key).1.key, _) = _
      rw [hkey]
      rfl

/-- An occurrence is bound to an instance with its props, and nothing else that is shown has changed.
The instance is one of its component, unless the key is of another component, too. -/
structure Bound (c : Client) (component : Component) (key : String) (props : Value) (c' : Client) :
    Prop where
  document : c'.document = c.document
  components : c'.components = c.components
  blocks : c'.blocks = c.blocks
  store : c'.store = c.store
  bound : ∃ i, c'.instance? key = some i ∧ i.props = props ∧
    (KeysApart c.components → i.component = component)
  calm : c'.AllCalm

theorem AllCalm.bindOccurrence (h : c.AllCalm) {name : String} {component : Component}
    (hget : c.component? name = some component) (hsetup : component.setup = none)
    {count : String → Nat} (hpaced : c.registry.Paced count) (budget : Nat) (props : Value)
    (visible : Bool) :
    ∃ c', Client.bindOccurrence budget component name props visible c =
        some (nextKeyOf name (count name) props, c') ∧
      Bound c component (nextKeyOf name (count name) props) props c' ∧
      c'.registry.Paced (countOne count name props) := by
  have hkeyOf := keyOf_nextKeyOf name (count name) props
  obtain ⟨registry, hresolve, hpaced'⟩ := resolveKey_of_paced hpaced name props
  generalize nextKeyOf name (count name) props = key at hresolve hkeyOf ⊢
  have hcalm₁ : ({ c with registry } : Client).AllCalm := h.congr rfl rfl
  obtain ⟨c₂, hensure, hsame₂, hi₂, hcalm₂⟩ :=
    hcalm₁.ensureInstance hget hsetup hkeyOf budget props
  generalize hi : (({ c with registry } : Client).instance? key).getD
    (.create component key props) = i at hi₂
  have hcomponent : KeysApart c.components → i.component = component := by
    intro hapart
    -- the instance may have been there before, but then under a key of the same component
    obtain ⟨name', hget', hkeyOf'⟩ := (hcalm₂ key i hi₂).registered
    rw [hsame₂.components] at hget'
    have hget : Table.get? name c.components = some component := hget
    have hget' : Table.get? name' c.components = some i.component := hget'
    obtain rfl := hapart name name' key (by simp [hget]) (by simp [hget']) hkeyOf hkeyOf'
    exact Option.some.inj (hget'.symm.trans hget)
  -- the props are handed on and recorded; then the instance is shown or hidden
  let c₃ : Client :=
    { c₂.modifyInstance key fun i => { i with props } with
      host := (c₂.modifyInstance key fun i => { i with props }).host.record name key props }
  have hsame₃ := hsame₂.trans (sameButInstances_modifyInstance c₂ key fun i => { i with props })
  have hcalm₃ : c₃.AllCalm := AllCalm.congr (hcalm₂.retouch key fun _ => rfl) rfl rfl
  obtain ⟨armed, htransition⟩ := hcalm₃.transition budget key visible
  have hsame₄ := sameButInstances_modifyInstance c₃ key fun i => { i with armed }
  refine ⟨c₃.modifyInstance key fun i => { i with armed }, ?_, ⟨?_, ?_, ?_, ?_, ?_, ?_⟩, ?_⟩
  · unfold Client.bindOccurrence
    rw [act_bind, hresolve]
    dsimp only [Option.bind_some]
    rw [act_bind, hensure]
    dsimp only [Option.bind_some]
    rw [act_bind, act_modify]
    dsimp only [Option.bind_some]
    rw [act_bind, htransition]
    rfl
  · exact hsame₄.document.trans hsame₃.document
  · exact hsame₄.components.trans hsame₃.components
  · exact hsame₄.blocks.trans hsame₃.blocks
  · exact hsame₄.store.trans hsame₃.store
  · refine ⟨{ i with props, armed }, ?_, rfl, hcomponent⟩
    rw [instance?_modifyInstance, if_pos rfl]
    show ((c₂.modifyInstance key fun i => { i with props }).instance? key).map _ = _
    rw [instance?_modifyInstance, if_pos rfl, hi₂]
    rfl
  · exact hcalm₃.retouch key fun _ => rfl
  · rw [hsame₄.registry]
    show (c₂.modifyInstance key fun i => { i with props }).registry.Paced _
    rw [hsame₃.registry]
    exact hpaced'

end LiveMarkup.Client
