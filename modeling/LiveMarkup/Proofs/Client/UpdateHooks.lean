import LiveMarkup.Proofs.Client.Rendering
import LiveMarkup.Proofs.Engine.Tandem
import LiveMarkup.Proofs.Reactive.AddedWork
set_option autoImplicit false

/-! # Renders do not run update hooks

Two clients that differ in nothing but the hooks of the update stages come to the same end in
everything that a render does, and differ in nothing else afterwards (`twins_renderInstance`):
setups add the same hooks to both, and showing and hiding runs hooks of the mount stages only. On
the way a property of clients is kept that every single step keeps (`KeptByRenders`), such as that
no work is taken out of the queue. -/

namespace LiveMarkup

namespace Table

variable {α β : Type}

def mapValues (f : α → β) (t : Table α) : Table β := t.map fun e => (e.1, f e.2)

theorem get?_mapValues (f : α → β) (key : String) (t : Table α) :
    get? key (mapValues f t) = (get? key t).map f := by
  induction t with
  | nil => rfl
  | cons e rest ih =>
      by_cases h : e.1 = key
      · simp [mapValues, get?, h]
      · simpa [mapValues, get?, h] using ih

theorem insert_mapValues (f : α → β) (key : String) (v : α) (t : Table α) :
    mapValues f (insert key v t) = insert key (f v) (mapValues f t) := by
  induction t with
  | nil => rfl
  | cons e rest ih =>
      by_cases h : e.1 = key
      · simp [mapValues, insert, h]
      · simpa [mapValues, insert, h] using ih

end Table

/-- The stages whose hooks run around an update. -/
def Stage.ofUpdate : Stage → Bool
  | beforeUpdate => true
  | updated => true
  | _ => false

def Instance.withoutUpdateHooks (i : Instance) : Instance :=
  { i with hooks := i.hooks.filter fun h => !h.1.ofUpdate }

/-- The client in which no instance has hooks for updates. -/
def Client.withoutUpdateHooks (c : Client) : Client :=
  { c with instances := Table.mapValues Instance.withoutUpdateHooks c.instances }

namespace Instance

variable {i j : Instance}

theorem exists_hooks_of_withoutUpdateHooks (h : i.withoutUpdateHooks = j.withoutUpdateHooks) :
    ∃ hooks, j = { i with hooks } := by
  obtain ⟨component, key, props, signal, methods, handlers, fallback, hooks, armed, root⟩ := i
  obtain ⟨component', key', props', signal', methods', handlers', fallback', hooks', armed',
    root'⟩ := j
  obtain ⟨rfl, rfl, rfl, rfl, rfl, rfl, rfl, -, rfl, rfl⟩ := Instance.mk.inj h
  exact ⟨hooks', rfl⟩

/-- One hook more leaves the others the same. -/
theorem withoutUpdateHooks_on (h : i.withoutUpdateHooks = j.withoutUpdateHooks) (stage : Stage)
    (hook : Effect) : { i with hooks := i.hooks ++ [(stage, hook)] }.withoutUpdateHooks =
      { j with hooks := j.hooks ++ [(stage, hook)] }.withoutUpdateHooks := by
  obtain ⟨hooks, rfl⟩ := exists_hooks_of_withoutUpdateHooks h
  have hsame := congrArg Instance.hooks h
  unfold withoutUpdateHooks at hsame ⊢
  dsimp only at hsame ⊢
  rw [List.filter_append, List.filter_append, hsame]

theorem hooksFor_withoutUpdateHooks {stage : Stage} (hstage : stage.ofUpdate = false)
    (i : Instance) : i.withoutUpdateHooks.hooksFor stage = i.hooksFor stage := by
  unfold hooksFor withoutUpdateHooks
  dsimp only
  rw [List.filter_filter]
  congr 2
  funext h
  by_cases heq : h.1 = stage
  · simp [heq, hstage]
  · simp [heq]

theorem hooksFor_eq_of_withoutUpdateHooks (h : i.withoutUpdateHooks = j.withoutUpdateHooks)
    {stage : Stage} (hstage : stage.ofUpdate = false) : i.hooksFor stage = j.hooksFor stage := by
  rw [← hooksFor_withoutUpdateHooks hstage i, h, hooksFor_withoutUpdateHooks hstage]

end Instance

namespace Client

variable {α β : Type} {P : Client → Prop} {c d : Client} {key : String} {budget : Nat}

/-- A property of clients that every step of a render keeps. An instance that is not there yet is
set up in any way; one that is there keeps its hooks, and is armed anew only when it is shown or
hidden. -/
structure KeptByRenders (budget : Nat) (P : Client → Prop) : Prop where
  store : ∀ {c : Client} {s : Store}, P c → c.store.AddsWork s → P { c with store := s }
  registry : ∀ {c : Client}, P c → ∀ registry, P { c with registry }
  host : ∀ {c : Client}, P c → ∀ host, P { c with host }
  create : ∀ {c : Client} {key : String}, P c → c.instance? key = none →
    (∀ i, P { c with instances := Table.insert key i c.instances }) ∧
      ∀ d f, P d → P (d.modifyInstance key f)
  modify : ∀ {c : Client}, P c → ∀ key {f : Instance → Instance},
    (∀ i hooks armed, f { i with hooks, armed } = { f i with hooks, armed }) →
      P (c.modifyInstance key f)
  transition : ∀ {c c' : Client} {key : String} {shown : Bool}, P c →
    transition budget key shown c = some ((), c') → P c'

theorem keptByRenders_true (budget : Nat) : KeptByRenders budget fun _ => True :=
  ⟨fun _ _ => trivial, fun _ _ => trivial, fun _ _ => trivial,
    fun _ _ => ⟨fun _ => trivial, fun _ _ _ => trivial⟩, fun _ _ _ _ => trivial,
    fun _ _ => trivial⟩

/-- Two clients that differ in nothing but hooks of updates, the first with some property. -/
structure Twins (P : Client → Prop) (c d : Client) : Prop where
  same : c.withoutUpdateHooks = d.withoutUpdateHooks
  kept : P c

namespace Twins

/-- Everything but the instances is the same. -/
theorem exists_instances (h : Twins P c d) : ∃ instances, d = { c with instances } := by
  obtain ⟨document, delimiters, components, blocks, registry, instances, host, store⟩ := c
  obtain ⟨document', delimiters', components', blocks', registry', instances', host', store'⟩ := d
  obtain ⟨rfl, rfl, rfl, rfl, rfl, -, rfl, rfl⟩ := Client.mk.inj h.same
  exact ⟨instances', rfl⟩

theorem store (h : Twins P c d) : c.store = d.store := by
  obtain ⟨_, rfl⟩ := h.exists_instances
  rfl

theorem instances (h : Twins P c d) : Table.mapValues Instance.withoutUpdateHooks c.instances =
    Table.mapValues Instance.withoutUpdateHooks d.instances :=
  congrArg Client.instances h.same

theorem instance? (h : Twins P c d) (key : String) :
    (c.instance? key).map Instance.withoutUpdateHooks =
      (d.instance? key).map Instance.withoutUpdateHooks := by
  rw [Client.instance?, Client.instance?, ← Table.get?_mapValues, ← Table.get?_mapValues,
    h.instances]

/-- An instance is in both clients or in none. -/
theorem cases (h : Twins P c d) (key : String) :
    (c.instance? key = none ∧ d.instance? key = none) ∨
      ∃ i j, c.instance? key = some i ∧ d.instance? key = some j ∧
        i.withoutUpdateHooks = j.withoutUpdateHooks := by
  have hsame := h.instance? key
  cases hc : c.instance? key with
  | none =>
      rw [hc] at hsame
      exact .inl ⟨rfl, Option.map_eq_none_iff.mp hsame.symm⟩
  | some i =>
      rw [hc] at hsame
      obtain ⟨j, hj, heq⟩ := Option.map_eq_some_iff.mp hsame.symm
      exact .inr ⟨i, j, rfl, hj, heq.symm⟩

/-- What is asked of an instance is the same in both, if it does not depend on its hooks. -/
theorem asked (h : Twins P c d) (key : String) {f : Instance → α}
    (hf : ∀ i hooks, f { i with hooks } = f i) :
    (c.instance? key).map f = (d.instance? key).map f := by
  obtain ⟨hc, hd⟩ | ⟨i, j, hc, hd, hij⟩ := h.cases key
  · rw [hc, hd]
  · obtain ⟨hooks, rfl⟩ := Instance.exists_hooks_of_withoutUpdateHooks hij
    rw [hc, hd]
    exact congrArg some (hf i hooks).symm

theorem signal? (h : Twins P c d) (key : String) : c.signal? key = d.signal? key := by
  unfold Client.signal?
  obtain ⟨hc, hd⟩ | ⟨i, j, hc, hd, hij⟩ := h.cases key
  · rw [hc, hd]
  · obtain ⟨hooks, rfl⟩ := Instance.exists_hooks_of_withoutUpdateHooks hij
    rw [hc, hd]
    rfl

theorem withStore (hP : KeptByRenders budget P) (h : Twins P c d) {s : Store}
    (hs : c.store.AddsWork s) : Twins P { c with store := s } { d with store := s } where
  same := congrArg (fun c : Client => { c with store := s }) h.same
  kept := hP.store h.kept hs

theorem withRegistry (hP : KeptByRenders budget P) (h : Twins P c d) (registry : Registry) :
    Twins P { c with registry } { d with registry } where
  same := congrArg (fun c : Client => { c with registry }) h.same
  kept := hP.registry h.kept registry

theorem withInstances (h : Twins P c d) {t u : Table Instance}
    (hkept : P { c with instances := t })
    (heq : Table.mapValues Instance.withoutUpdateHooks t =
      Table.mapValues Instance.withoutUpdateHooks u) :
    Twins P { c with instances := t } { d with instances := u } := by
  obtain ⟨_, rfl⟩ := h.exists_instances
  refine ⟨?_, hkept⟩
  unfold Client.withoutUpdateHooks
  dsimp only
  rw [heq]

theorem modifyInstance (h : Twins P c d) (key : String) {f : Instance → Instance}
    (hkept : P (c.modifyInstance key f))
    (hf : ∀ i j : Instance, i.withoutUpdateHooks = j.withoutUpdateHooks →
      (f i).withoutUpdateHooks = (f j).withoutUpdateHooks) :
    Twins P (c.modifyInstance key f) (d.modifyInstance key f) := by
  unfold Client.modifyInstance at hkept ⊢
  obtain ⟨hc, hd⟩ | ⟨i, j, hc, hd, hij⟩ := h.cases key
  · rw [hc, hd]
    exact h
  · rw [hc] at hkept ⊢
    rw [hd]
    refine h.withInstances hkept ?_
    rw [Table.insert_mapValues, Table.insert_mapValues, hf i j hij, h.instances]

end Twins

/-! ## Acts -/

/-- An act that clients which are twins come through alike. -/
def Alongside (P : Client → Prop) (x : Act α) : Prop :=
  ∀ c d, Twins P c d → TandemAt True (Twins P) (x c) (x d)

theorem alongside_pure (a : α) : Alongside P (pure a : Act α) := fun _ _ h => .some h

theorem Alongside.bind {x : Act α} {f : α → Act β} (hx : Alongside P x)
    (hf : ∀ a, Alongside P (f a)) : Alongside P (x >>= f) := by
  intro c d h
  rw [act_bind, act_bind]
  exact (hx c d h).bind fun a c' d' h' => hf a c' d' h'

theorem alongside_modify {f : Client → Client}
    (hf : ∀ c d, Twins P c d → Twins P (f c) (f d)) : Alongside P (modify f : Act PUnit) :=
  fun c d h => .some (hf c d h)

theorem alongside_onStore (hP : KeptByRenders budget P) {x : Run Store α}
    (hx : Leads Store.AddsWork x) : Alongside P (Act.onStore x) := by
  intro c d h
  show TandemAt True _ ((ExceptT.run x c.store).map _) ((ExceptT.run x d.store).map _)
  rw [← h.store]
  cases hrun : ExceptT.run x c.store with
  | none => exact .inl ⟨trivial, rfl, rfl⟩
  | some result => exact .some (h.withStore hP (hx _ _ _ hrun))

/-! ## Setups -/

theorem alongside_runSetup (hP : KeptByRenders budget P)
    (hkey : ∀ c f, P c → P (c.modifyInstance key f)) (setup : Setup)
    (waiting : List (String × Watcher)) : Alongside P (runSetup budget key setup waiting) := by
  -- what a declaration reads of the instance is the same in both, and both enter it alike
  induction setup generalizing waiting with
  | done => exact alongside_pure ()
  | props next ih =>
      intro c d h
      have hprops := h.asked key (f := Instance.props) fun _ _ => rfl
      show TandemAt True _
        (runSetup budget key (next (((c.instance? key).map Instance.props).getD .null)) waiting c)
        (runSetup budget key (next (((d.instance? key).map Instance.props).getD .null)) waiting d)
      rw [hprops]
      exact ih _ _ c d h
  | propTypes types next ih =>
      intro c d h
      have hprops := h.asked key (f := Instance.props) fun _ _ => rfl
      let checked (c : Client) : Value :=
        .object c.store.fresh.1
          (checkProps types (((c.instance? key).map Instance.props).getD .null).fields).2
      have hchecked : checked d = checked c := by
        dsimp only [checked]
        rw [hprops, h.store]
      show TandemAt True _
        (runSetup budget key (next (checked c)) waiting
          ({ c with store := c.store.fresh.2 }.modifyInstance key fun i =>
            { i with props := checked c }))
        (runSetup budget key (next (checked d)) waiting
          ({ d with store := d.store.fresh.2 }.modifyInstance key fun i =>
            { i with props := checked d }))
      rw [hchecked, ← h.store]
      have hstored := h.withStore hP (s := c.store.fresh.2) (Store.addsWork_of_queue rfl)
      exact ih _ _ _ _ (hstored.modifyInstance key (hkey _ _ hstored.kept) fun i j hij =>
        congrArg (fun i : Instance => { i with props := checked c }) hij)
  | proxy initial next ih =>
      intro c d h
      have howner := h.asked key (f := Instance.ref) fun _ _ => rfl
      let owner (c : Client) : InstanceRef := ((c.instance? key).map Instance.ref).getD ⟨"", key⟩
      let made (c : Client) : SignalId × Store :=
        c.store.newSignal (owner c) (Table.ofList initial) true
      let watched (c : Client) : Store :=
        waiting.foldl (fun s entry => s.watch (made c).1 entry.1 entry.2) (made c).2
      have howned : owner d = owner c := by
        dsimp only [owner]
        rw [howner]
      have hmade : made d = made c := by
        dsimp only [made]
        rw [howned, h.store]
      have hwatched : watched d = watched c := by
        dsimp only [watched]
        rw [hmade]
      show TandemAt True _
        (runSetup budget key (next (made c).1 (owner c)) []
          ({ c with store := watched c }.modifyInstance key fun i =>
            { i with signal := some (made c).1 }))
        (runSetup budget key (next (made d).1 (owner d)) []
          ({ d with store := watched d }.modifyInstance key fun i =>
            { i with signal := some (made d).1 }))
      rw [howned, hwatched, hmade]
      have hstored := h.withStore hP (s := watched c) <|
        Store.addsWork_of_queue (Store.queue_foldl_watch _ _ _)
      exact ih _ _ _ _ _ (hstored.modifyInstance key (hkey _ _ hstored.kept) fun i j hij =>
        congrArg (fun i : Instance => { i with signal := some (made c).1 }) hij)
  | methods methods next ih =>
      intro c d h
      show TandemAt True _
        (runSetup budget key next waiting
          ({ c with store := (c.store.nameMethods methods).2 }.modifyInstance key fun i =>
            { i with methods := i.methods ++ (c.store.nameMethods methods).1 }))
        (runSetup budget key next waiting
          ({ d with store := (d.store.nameMethods methods).2 }.modifyInstance key fun i =>
            { i with methods := i.methods ++ (d.store.nameMethods methods).1 }))
      rw [← h.store]
      have hstored := h.withStore hP (s := (c.store.nameMethods methods).2) <|
        Store.addsWork_of_queue (Store.queue_nameMethods _ _)
      exact ih _ _ _ (hstored.modifyInstance key (hkey _ _ hstored.kept) fun i j hij =>
        congrArg (fun i : Instance =>
          { i with methods := i.methods ++ (c.store.nameMethods methods).1 }) hij)
  | events handlers next ih =>
      refine (alongside_modify fun c d h => ?_).bind fun _ => ih _
      exact h.modifyInstance key (hkey _ _ h.kept) fun i j hij =>
        congrArg (fun i : Instance => { i with handlers := Table.extend i.handlers handlers }) hij
  | watch watched watcher next ih =>
      intro c d h
      unfold runSetup
      rw [act_bind, act_get, act_bind, act_get]
      dsimp only [Option.bind_some]
      rw [← h.signal? key]
      cases c.signal? key with
      | none => exact ih _ c d h
      | some id =>
          show TandemAt True _
            (runSetup budget key next waiting { c with store := c.store.watch id watched watcher })
            (runSetup budget key next waiting { d with store := d.store.watch id watched watcher })
          rw [← h.store]
          exact ih _ _ _ (h.withStore hP (Store.addsWork_of_queue rfl))
  | onError fallback next ih =>
      refine (alongside_modify fun c d h => ?_).bind fun _ => ih _
      exact h.modifyInstance key (hkey _ _ h.kept) fun i j hij =>
        congrArg (fun i : Instance => { i with fallback := some fallback }) hij
  | load action next ih =>
      exact (alongside_onStore hP (Store.leads_carryOut budget action)).bind fun _ => ih _
  | useSignal other next ih =>
      intro c d h
      show TandemAt True _ (runSetup budget key (next (c.signal? other)) waiting c)
        (runSetup budget key (next (d.signal? other)) waiting d)
      rw [h.signal? other]
      exact ih _ _ c d h
  | on stage hook next ih =>
      refine (alongside_modify fun c d h => ?_).bind fun _ => ih _
      exact h.modifyInstance key (hkey _ _ h.kept) fun i j hij =>
        Instance.withoutUpdateHooks_on hij stage hook
  | act effect next ih =>
      exact (alongside_onStore hP (Store.leads_carryOut budget effect)).bind fun _ => ih _

theorem alongside_ensureInstance (hP : KeptByRenders budget P) (component : Component)
    (key : String) (props : Value) : Alongside P (ensureInstance budget component key props) := by
  intro c d h
  unfold ensureInstance
  rw [act_bind, act_get, act_bind, act_get]
  dsimp only [Option.bind_some]
  obtain ⟨hc, hd⟩ | ⟨i, j, hc, hd, -⟩ := h.cases key
  · rw [hc, hd]
    obtain ⟨hinsert, hsetup⟩ := hP.create h.kept hc
    -- the new instance is the same in both
    have hnew : Twins P
        { c with instances := Table.insert key (.create component key props) c.instances }
        { d with instances := Table.insert key (.create component key props) d.instances } := by
      refine h.withInstances (hinsert _) ?_
      rw [Table.insert_mapValues, Table.insert_mapValues, h.instances]
    cases component.setup with
    | none => exact .some hnew
    | some setup => exact alongside_runSetup hP hsetup setup [] _ _ hnew
  · rw [hc, hd]
    exact .some h

/-! ## Showing and hiding -/

theorem Twins.hooks (h : Twins P c d) (key : String) {stage : Stage}
    (hstage : stage.ofUpdate = false) :
    ((c.instance? key).map fun i => i.hooksFor stage).getD [] =
      ((d.instance? key).map fun i => i.hooksFor stage).getD [] := by
  obtain ⟨hc, hd⟩ | ⟨i, j, hc, hd, hij⟩ := h.cases key
  · rw [hc, hd]
  · rw [hc, hd]
    exact Instance.hooksFor_eq_of_withoutUpdateHooks hij hstage

theorem alongside_fire (hP : KeptByRenders budget P) (key : String) {stage : Stage}
    (hstage : stage.ofUpdate = false) : Alongside P (fire budget key stage) := by
  intro c d h
  unfold fire
  rw [act_bind, act_get, act_bind, act_get]
  dsimp only [Option.bind_some]
  rw [h.hooks key hstage]
  exact (alongside_onStore hP (Store.leads_carryOutAll budget _)).bind
    (fun _ => alongside_pure ()) c d h

theorem alongside_fireLater (hP : KeptByRenders budget P) (key : String) {stage : Stage}
    (hstage : stage.ofUpdate = false) : Alongside P (fireLater key stage) := by
  intro c d h
  unfold fireLater
  rw [act_bind, act_get, act_bind, act_get]
  dsimp only [Option.bind_some]
  rw [h.hooks key hstage]
  split
  · show TandemAt True _ (some ((), { c with store := c.store.defer _ }))
      (some ((), { d with store := d.store.defer _ }))
    rw [← h.store]
    exact .some (h.withStore hP (Queue.adds_defer _ _))
  · exact .some h

/-- Showing and hiding runs hooks of the mount stages only. -/
theorem ofUpdate_transition (a : Armed) (shown : Bool) :
    (∀ stage ∈ (a.transition shown).1.now, stage.ofUpdate = false) ∧
      ∀ stage ∈ (a.transition shown).1.later, stage.ofUpdate = false := by
  obtain ⟨beforeMount, mounted, beforeUnmount, unmounted⟩ := a
  cases shown <;> cases beforeMount <;> cases mounted <;> cases beforeUnmount <;>
    cases unmounted <;> decide

theorem alongside_left (hP : KeptByRenders budget P) (key : String) {later : Option Stage}
    (hlater : ∀ stage ∈ later, stage.ofUpdate = false) :
    Alongside P (match later with
      | some stage => fireLater key stage
      | _ => pure ()) := by
  cases later with
  | none => exact alongside_pure ()
  | some stage => exact alongside_fireLater hP key (hlater stage rfl)

theorem alongside_transition (hP : KeptByRenders budget P) (key : String) (shown : Bool) :
    Alongside P (transition budget key shown) := by
  -- the property is kept by the act as a whole, so nothing is asked of the clients on the way
  suffices halike : Alongside (fun _ => True) (transition budget key shown) by
    intro c d h
    obtain ⟨-, hc, hd⟩ | ⟨⟨⟩, c', d', hc, hd, h'⟩ := halike c d ⟨h.same, trivial⟩
    · exact .inl ⟨trivial, hc, hd⟩
    · exact .inr ⟨(), c', d', hc, hd, h'.same, hP.transition h.kept hc⟩
  intro c d h
  unfold transition
  rw [act_bind, act_get, act_bind, act_get]
  dsimp only [Option.bind_some]
  obtain ⟨hc, hd⟩ | ⟨i, j, hc, hd, hij⟩ := h.cases key
  · rw [hc, hd]
    exact .some h
  · obtain ⟨hooks, rfl⟩ := Instance.exists_hooks_of_withoutUpdateHooks hij
    rw [hc, hd]
    dsimp only
    obtain ⟨hnow, hlater⟩ := ofUpdate_transition i.armed shown
    generalize i.armed.transition shown = change at hnow hlater
    obtain ⟨⟨now, later⟩, armed⟩ := change
    refine Alongside.bind (alongside_modify fun c d h => ?_) (fun _ => ?_) c d h
    · exact h.modifyInstance key trivial fun i j hij =>
        congrArg (fun i : Instance => { i with armed }) hij
    have hlast := alongside_left (keptByRenders_true budget) key hlater
    cases now with
    | none => exact hlast
    | some now =>
        exact (alongside_fire (keptByRenders_true budget) key (hnow now rfl)).bind fun _ => hlast

/-! ## Renders -/

theorem alongside_resolveKey (hP : KeptByRenders budget P) (name : String) (props : Value) :
    Alongside P (resolveKey name props) := by
  intro c d h
  obtain ⟨instances, rfl⟩ := h.exists_instances
  exact .some (h.withRegistry hP _)

theorem alongside_bindOccurrence (hP : KeptByRenders budget P) (component : Component)
    (name : String) (props : Value) (visible : Bool) :
    Alongside P (bindOccurrence budget component name props visible) := by
  refine (alongside_resolveKey hP name props).bind fun key => ?_
  refine (alongside_ensureInstance hP component key props).bind fun _ => ?_
  refine (alongside_modify fun c d h => ?_).bind fun _ => ?_
  · have hprops := h.modifyInstance key (f := fun i => { i with props })
      (hP.modify h.kept key fun _ _ _ => rfl) fun i j hij =>
        congrArg (fun i : Instance => { i with props }) hij
    obtain ⟨instances, heq⟩ := hprops.exists_instances
    dsimp only
    rw [heq] at hprops ⊢
    let host := (c.modifyInstance key fun i => { i with props }).host.record name key props
    exact ⟨congrArg (fun c : Client => { c with host }) hprops.same, hP.host hprops.kept host⟩
  · exact (alongside_transition hP key visible).bind fun _ => alongside_pure key

theorem tandem_within (hP : KeptByRenders budget P) {x : Run Store α}
    (hx : Leads Store.AddsWork x) :
    Tandem True (Twins P) (x.within Client.store fun store c => { c with store })
      (x.within Client.store fun store c => { c with store }) := by
  intro c d h
  rw [run_within, run_within, ← h.store]
  cases hrun : ExceptT.run x c.store with
  | none => exact .inl ⟨trivial, rfl, rfl⟩
  | some result => exact .some (h.withStore hP (hx _ _ _ hrun))

theorem servicesTandem_twins (hP : KeptByRenders budget P) :
    ServicesTandem True (Twins P) (services budget) (services budget) where
  fresh := by
    intro c d h
    unfold services
    dsimp only
    rw [← h.store]
    exact ⟨rfl, h.withStore hP (Store.addsWork_of_queue rfl)⟩
  call := fun f args => tandem_within hP (NativeFn.leads_call budget f args)

/-- What is called back into while an instance is rendered, if the occurrences in it are rendered
alike. -/
theorem callsTandem_instanceCall (hP : KeptByRenders budget P)
    {child : String → Value → Bool → Run Client Value}
    (hchild : ∀ reference props visible,
      Tandem True (Twins P) (child reference props visible) (child reference props visible))
    (key : String) (data : Value) :
    CallsTandem True (Twins P) (fun _ => True) (fun _ => True)
      (instanceCall budget child key data) (instanceCall budget child key data) := by
  have hprops : Tandem True (Twins P)
      (Run.update fun c => ((c.host.toValue .made c.store.made).1,
        { c with store := { c.store with made := (c.host.toValue .made c.store.made).2 } }))
      (Run.update fun c => ((c.host.toValue .made c.store.made).1,
        { c with store := { c.store with made := (c.host.toValue .made c.store.made).2 } })) := by
    refine Tandem.update fun c d h => ?_
    obtain ⟨instances, rfl⟩ := h.exists_instances
    exact ⟨rfl, h.withStore hP (Store.addsWork_of_queue rfl)⟩
  exact {
    services := servicesTandem_twins hP
    data := rfl
    instanceKey := rfl
    isServer := rfl
    visible := rfl
    hostProps := .inr ⟨_, _, rfl, rfl, hprops⟩
    blocks := by
      intro name args _ c d h
      have hblocks : d.blocks = c.blocks := by
        obtain ⟨instances, rfl⟩ := h.exists_instances
        rfl
      show TandemAt True _ (ExceptT.run (Blocks.render c.blocks _ budget name args) c)
        (ExceptT.run (Blocks.render d.blocks _ budget name args) d)
      rw [hblocks]
      exact Website.tandem_blocks (servicesTandem_twins hP) c.blocks budget name args c d h
    child := fun reference props visible _ => hchild reference props visible }

/-- Twins of an instance are rendered alike in clients that are twins. -/
theorem twins_renderInstance (hP : KeptByRenders budget P)
    {child : String → Value → Bool → Run Client Value}
    (hchild : ∀ reference props visible,
      Tandem True (Twins P) (child reference props visible) (child reference props visible))
    {i j : Instance} (hij : i.withoutUpdateHooks = j.withoutUpdateHooks) (h : Twins P c d) :
    TandemAt True (Twins P) (ExceptT.run (renderInstance budget child i) c)
      (ExceptT.run (renderInstance budget child j) d) := by
  obtain ⟨hooks, rfl⟩ := Instance.exists_hooks_of_withoutUpdateHooks hij
  rw [run_renderInstance_eq, run_renderInstance_eq, ← h.store]
  have hstored := h.withStore hP (s := c.store.fresh.2) (Store.addsWork_of_queue rfl)
  have hcalls := callsTandem_instanceCall hP hchild i.key
    (.object c.store.fresh.1 (i.data c.store))
  exact (hcalls.execute (fun _ _ => trivial) (fun _ _ => trivial) hstored).map
    fun rendered c' d' h' => ⟨rfl, h'⟩

theorem tandem_renderOccurrence (hP : KeptByRenders budget P)
    {inner : Option (String → Value → Bool → Run Client Value)}
    (hinner : ∀ child, inner = some child → ∀ reference props visible,
      Tandem True (Twins P) (child reference props visible) (child reference props visible))
    (reference : String) (props : Value) (visible : Bool) :
    Tandem True (Twins P) (renderOccurrence budget inner reference props visible)
      (renderOccurrence budget inner reference props visible) := by
  intro c d h
  have hcomponent : d.component? (componentName reference) =
      c.component? (componentName reference) := by
    obtain ⟨instances, rfl⟩ := h.exists_instances
    rfl
  cases hget : c.component? (componentName reference) with
  | none =>
      rw [run_renderOccurrence_of_unknown hget,
        run_renderOccurrence_of_unknown (hcomponent.trans hget)]
      exact .some h
  | some component =>
      have hget' := hcomponent.trans hget
      obtain ⟨-, hbind, hbind'⟩ | ⟨key, c', d', hbind, hbind', h'⟩ :=
        alongside_bindOccurrence hP component (componentName reference) props visible c d h
      · rw [run_renderOccurrence_of_exhausted hget hbind,
          run_renderOccurrence_of_exhausted hget' hbind']
        exact .inl ⟨trivial, rfl, rfl⟩
      rw [run_renderOccurrence hget hbind, run_renderOccurrence hget' hbind']
      cases visible with
      | false => exact .some h'
      | true =>
          simp only [if_true]
          cases inner with
          | none => exact .some h'
          | some child =>
              obtain ⟨hc, hd⟩ | ⟨i, j, hc, hd, hij⟩ := h'.cases key
              · rw [hc, hd]
                exact .some h'
              · rw [hc, hd]
                exact (twins_renderInstance hP (hinner child rfl) hij h').map
                  fun outcome c'' d'' h'' => ⟨rfl, h''⟩

/-- Occurrences are rendered alike at every depth. -/
theorem tandem_renderChild (hP : KeptByRenders budget P) (remaining : Nat) (reference : String)
    (props : Value) (visible : Bool) :
    Tandem True (Twins P) (renderChild budget remaining reference props visible)
      (renderChild budget remaining reference props visible) := by
  -- on how many components may still be rendered inside one another
  induction remaining generalizing reference props visible with
  | zero =>
      rw [renderChild_zero]
      exact tandem_renderOccurrence hP (by simp) reference props visible
  | succ remaining ih =>
      rw [renderChild_succ]
      refine tandem_renderOccurrence hP ?_ reference props visible
      rintro _ ⟨⟩ reference props visible
      exact ih reference props visible

/-- A render keeps what its steps keep. -/
theorem KeptByRenders.renderInstance (hP : KeptByRenders budget P) {i : Instance}
    {outcome : Except ClientError String} (h : P c)
    (hrun : ExceptT.run (Client.renderInstance budget (Client.renderChild budget maxDepth) i) c =
      some (outcome, d)) : P d := by
  have htwins := twins_renderInstance hP (tandem_renderChild hP maxDepth)
    (rfl : i.withoutUpdateHooks = _) (Twins.mk (c := c) rfl h)
  rw [hrun] at htwins
  obtain ⟨-, hnone, -⟩ | ⟨_, _, _, hsome, -, hend⟩ := htwins
  · cases hnone
  · obtain ⟨rfl, rfl⟩ := Prod.mk.inj (Option.some.inj hsome)
    exact hend.kept

end Client

end LiveMarkup
