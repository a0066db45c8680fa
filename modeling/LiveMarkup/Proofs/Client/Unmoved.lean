import LiveMarkup.Proofs.Client.Rendering
set_option autoImplicit false

/-! # What leaves instances in their places

Setups, hooks and renders change instances and their state, but not the document, and they leave
every instance where it is shown (`Unmoved`). Unlike in the case without setups nothing is known of
what else they do. The walk over setups is made once, for every relation that their steps stay within
(`ClosedUnderSetups`), and so is the one over renders (`Lasting`). -/

namespace LiveMarkup.Client

variable {α β : Type} {c c' c₁ c₂ : Client} {key : String}

/-- The document is the same, and every instance is still there with its key, and shown by the same
element. -/
structure Unmoved (c c' : Client) : Prop where
  document : c'.document = c.document
  instances : ∀ key i, c.instance? key = some i →
    ∃ i', c'.instance? key = some i' ∧ i'.key = i.key ∧ c'.findRoot i' = c.findRoot i

namespace Unmoved

theorem refl (c : Client) : Unmoved c c := ⟨rfl, fun _ i hi => ⟨i, hi, rfl, rfl⟩⟩

theorem trans (h₁ : Unmoved c c₁) (h₂ : Unmoved c₁ c₂) : Unmoved c c₂ := by
  refine ⟨h₂.document.trans h₁.document, fun key i hi => ?_⟩
  obtain ⟨i₁, hi₁, hkey₁, hroot₁⟩ := h₁.instances key i hi
  obtain ⟨i₂, hi₂, hkey₂, hroot₂⟩ := h₂.instances key i₁ hi₁
  exact ⟨i₂, hi₂, hkey₂.trans hkey₁, hroot₂.trans hroot₁⟩

end Unmoved

/-- Where an instance is shown depends on its key, on where it was seen, and on the document. -/
theorem findRoot_congr {i i' : Instance} (hdocument : c'.document = c.document)
    (hkey : i'.key = i.key) (hroot : i'.root = i.root) : c'.findRoot i' = c.findRoot i := by
  unfold findRoot
  rw [hdocument, hkey, hroot]

theorem unmoved_of_same (hdocument : c'.document = c.document)
    (hinstances : c'.instances = c.instances) : Unmoved c c' := by
  refine ⟨hdocument, fun key i hi => ⟨i, ?_, rfl, findRoot_congr hdocument rfl rfl⟩⟩
  rwa [instance?, hinstances]

theorem unmoved_modifyInstance (c : Client) (key : String) {f : Instance → Instance}
    (hf : ∀ i, (f i).key = i.key ∧ (f i).root = i.root) :
    Unmoved c (c.modifyInstance key f) := by
  have hsame := sameButInstances_modifyInstance c key f
  refine ⟨hsame.document, fun other i hi => ?_⟩
  rw [instance?_modifyInstance]
  split
  · next heq =>
      subst heq
      obtain ⟨hkey, hroot⟩ := hf i
      exact ⟨f i, by rw [hi]; rfl, hkey, findRoot_congr hsame.document hkey hroot⟩
  · exact ⟨i, hi, rfl, findRoot_congr hsame.document rfl rfl⟩

/-- A new instance leaves the others where they are. -/
theorem unmoved_insert (hnew : c.instance? key = none) (i : Instance) :
    Unmoved c { c with instances := Table.insert key i c.instances } := by
  refine ⟨rfl, fun other j hj => ⟨j, ?_, rfl, findRoot_congr rfl rfl rfl⟩⟩
  have hne : other ≠ key := by
    rintro rfl
    exact nomatch hnew.symm.trans hj
  exact (Table.get?_insert_of_ne hne ..).trans hj

/-! ## Acts -/

/-- An act whose runs stay within a relation. -/
def Within (R : Client → Client → Prop) (x : Act α) : Prop :=
  ∀ c a c', x c = some (a, c') → R c c'

theorem within_modify {R : Client → Client → Prop} {f : Client → Client} (hf : ∀ c, R c (f c)) :
    Within R (modify f : Act PUnit) := by
  rintro c _ _ ⟨⟩
  exact hf c

/-- A relation that changes of the store, new instances, and changes of an instance that is neither
moved nor shown nor hidden do not lead out of. -/
structure ClosedUnderSetups (R : Client → Client → Prop) : Prop where
  refl : ∀ c, R c c
  trans : ∀ {c₁ c₂ c₃}, R c₁ c₂ → R c₂ c₃ → R c₁ c₃
  store : ∀ c store, R c { c with store }
  modifyInstance : ∀ c key {f : Instance → Instance},
    (∀ i, (f i).key = i.key ∧ (f i).armed = i.armed ∧ (f i).root = i.root) →
      R c (c.modifyInstance key f)
  create : ∀ {c key}, c.instance? key = none → ∀ component props,
    R c { c with instances := Table.insert key (.create component key props) c.instances }

namespace ClosedUnderSetups

variable {R : Client → Client → Prop} (hR : ClosedUnderSetups R)

include hR

theorem pure (a : α) : Within R (Pure.pure a : Act α) := by
  rintro c _ _ ⟨⟩
  exact hR.refl c

theorem bind {x : Act α} {f : α → Act β} (hx : Within R x) (hf : ∀ a, Within R (f a)) :
    Within R (x >>= f) := by
  intro c b c' hrun
  rw [act_bind] at hrun
  obtain ⟨⟨a, c₁⟩, hfirst, hsecond⟩ := Option.bind_eq_some_iff.mp hrun
  exact hR.trans (hx c a c₁ hfirst) (hf a c₁ b c' hsecond)

theorem get : Within R (MonadState.get : Act Client) := by
  rintro c _ _ ⟨⟩
  exact hR.refl c

theorem onStore (x : Run Store α) : Within R (Act.onStore x) := by
  intro c a c' hrun
  obtain ⟨⟨result, store⟩, -, hout⟩ := Option.map_eq_some_iff.mp hrun
  cases hout
  exact hR.store c store

/-- The store may be another at the same time. -/
theorem modifyInstance_store (c : Client) (store : Store) (key : String) {f : Instance → Instance}
    (hf : ∀ i, (f i).key = i.key ∧ (f i).armed = i.armed ∧ (f i).root = i.root) :
    R c ({ c with store }.modifyInstance key f) :=
  hR.trans (hR.store c store) (hR.modifyInstance _ key hf)

/-! ## Setups -/

theorem runSetup (budget : Nat) (key : String) (setup : Setup)
    (waiting : List (String × Watcher)) : Within R (runSetup budget key setup waiting) := by
  -- a declaration is entered into the store or the instance, which stays where it is
  induction setup generalizing waiting with
  | done => exact hR.pure ()
  | props next ih => exact hR.bind hR.get fun c => ih _ _
  | propTypes types next ih =>
      refine hR.bind hR.get fun c => hR.bind hR.get fun c' => ?_
      refine hR.bind (within_modify fun c => ?_) fun _ => ih _ _
      exact hR.modifyInstance_store c _ key fun _ => ⟨rfl, rfl, rfl⟩
  | proxy initial next ih =>
      refine hR.bind hR.get fun c => hR.bind hR.get fun c' => ?_
      refine hR.bind (within_modify fun c => ?_) fun _ => ih _ _ _
      exact hR.modifyInstance_store c _ key fun _ => ⟨rfl, rfl, rfl⟩
  | methods methods next ih =>
      refine hR.bind hR.get fun c => ?_
      refine hR.bind (within_modify fun c => ?_) fun _ => ih _
      exact hR.modifyInstance_store c _ key fun _ => ⟨rfl, rfl, rfl⟩
  | events handlers next ih =>
      refine hR.bind (within_modify fun c => ?_) fun _ => ih _
      exact hR.modifyInstance c key fun _ => ⟨rfl, rfl, rfl⟩
  | watch watched watcher next ih =>
      refine hR.bind hR.get fun c => ?_
      cases c.signal? key with
      | none => exact ih _
      | some id => exact hR.bind (within_modify fun c => hR.store c _) fun _ => ih _
  | onError fallback next ih =>
      refine hR.bind (within_modify fun c => ?_) fun _ => ih _
      exact hR.modifyInstance c key fun _ => ⟨rfl, rfl, rfl⟩
  | load action next ih => exact hR.bind (hR.onStore _) fun _ => ih _
  | useSignal other next ih => exact hR.bind hR.get fun c => ih _ _
  | on stage hook next ih =>
      refine hR.bind (within_modify fun c => ?_) fun _ => ih _
      exact hR.modifyInstance c key fun _ => ⟨rfl, rfl, rfl⟩
  | act effect next ih => exact hR.bind (hR.onStore _) fun _ => ih _

theorem ensureInstance (budget : Nat) (component : Component) (key : String) (props : Value) :
    Within R (ensureInstance budget component key props) := by
  intro c a c' hrun
  unfold Client.ensureInstance at hrun
  rw [act_bind, act_get] at hrun
  dsimp only [Option.bind_some] at hrun
  cases hi : c.instance? key with
  | some i =>
      rw [hi] at hrun
      cases hrun
      exact hR.refl c
  | none =>
      rw [hi] at hrun
      refine hR.trans (hR.create hi component props) ?_
      cases hsetup : component.setup with
      | none =>
          rw [hsetup] at hrun
          cases hrun
          exact hR.refl _
      | some setup =>
          rw [hsetup] at hrun
          exact hR.runSetup budget key setup [] _ _ _ hrun

/-! ## Hooks -/

theorem fire (budget : Nat) (key : String) (stage : Stage) : Within R (fire budget key stage) :=
  hR.bind hR.get fun _ => hR.bind (hR.onStore _) fun _ => hR.pure ()

theorem fireLater (key : String) (stage : Stage) : Within R (fireLater key stage) := by
  refine hR.bind hR.get fun c => ?_
  dsimp only
  split
  · exact within_modify fun c => hR.store c _
  · exact hR.pure ()

end ClosedUnderSetups

/-- A relation that changes of the state of a client, of an instance where it stands, and new
instances do not lead out of. -/
structure Lasting (R : Client → Client → Prop) : Prop where
  refl : ∀ c, R c c
  trans : ∀ {c₁ c₂ c₃}, R c₁ c₂ → R c₂ c₃ → R c₁ c₃
  same : ∀ {c c'}, c'.document = c.document → c'.instances = c.instances → R c c'
  modifyInstance : ∀ c key {f : Instance → Instance},
    (∀ i, (f i).key = i.key ∧ (f i).root = i.root) → R c (c.modifyInstance key f)
  create : ∀ {c key}, c.instance? key = none → ∀ component props,
    R c { c with instances := Table.insert key (.create component key props) c.instances }

namespace Lasting

variable {R : Client → Client → Prop} (hR : Lasting R)

include hR

theorem closedUnderSetups : ClosedUnderSetups R where
  refl := hR.refl
  trans := hR.trans
  store _ _ := hR.same rfl rfl
  modifyInstance c key _ hf := hR.modifyInstance c key fun i => ⟨(hf i).1, (hf i).2.2⟩
  create := hR.create

theorem pure (a : α) : Within R (Pure.pure a : Act α) := hR.closedUnderSetups.pure a

theorem bind {x : Act α} {f : α → Act β} (hx : Within R x) (hf : ∀ a, Within R (f a)) :
    Within R (x >>= f) := hR.closedUnderSetups.bind hx hf

theorem get : Within R (MonadState.get : Act Client) := hR.closedUnderSetups.get

theorem onStore (x : Run Store α) : Within R (Act.onStore x) := hR.closedUnderSetups.onStore x

theorem ensureInstance (budget : Nat) (component : Component) (key : String) (props : Value) :
    Within R (ensureInstance budget component key props) :=
  hR.closedUnderSetups.ensureInstance budget component key props

theorem fire (budget : Nat) (key : String) (stage : Stage) : Within R (fire budget key stage) :=
  hR.closedUnderSetups.fire budget key stage

theorem fireLater (key : String) (stage : Stage) : Within R (fireLater key stage) :=
  hR.closedUnderSetups.fireLater key stage

theorem transition (budget : Nat) (key : String) (shown : Bool) :
    Within R (transition budget key shown) := by
  refine hR.bind hR.get fun c => ?_
  cases c.instance? key with
  | none => exact hR.pure ()
  | some i =>
      dsimp only
      generalize i.armed.transition shown = change
      obtain ⟨⟨now, later⟩, armed⟩ := change
      refine hR.bind (within_modify fun c => ?_) fun _ => ?_
      · exact hR.modifyInstance c key fun _ => ⟨rfl, rfl⟩
      cases now with
      | none =>
          cases later with
          | none => exact hR.pure ()
          | some later => exact hR.fireLater key later
      | some now =>
          refine hR.bind (hR.fire budget key now) fun _ => ?_
          cases later with
          | none => exact hR.pure ()
          | some later => exact hR.fireLater key later

/-! ## Renders -/

theorem resolveKey (name : String) (props : Value) : Within R (resolveKey name props) := by
  rintro c _ _ ⟨⟩
  exact hR.same rfl rfl

theorem bindOccurrence (budget : Nat) (component : Component) (name : String) (props : Value)
    (visible : Bool) : Within R (bindOccurrence budget component name props visible) := by
  refine hR.bind (hR.resolveKey name props) fun key => ?_
  refine hR.bind (hR.ensureInstance budget component key props) fun _ => ?_
  refine hR.bind (within_modify fun c => ?_) fun _ => ?_
  · have hprops : R c (c.modifyInstance key fun i => { i with props }) :=
      hR.modifyInstance c key fun _ => ⟨rfl, rfl⟩
    exact hR.trans hprops (hR.same rfl rfl)
  · exact hR.bind (hR.transition budget key visible) fun _ => hR.pure key

/-- Renders at every depth stay within the relation. -/
theorem renderChild (c : Client) (budget remaining : Nat) (reference : String) (props : Value)
    (visible : Bool) :
    Agree (fun _ => True) (.keeping (R c)) (renderChild budget remaining reference props visible)
      (renderChild budget remaining reference props visible) :=
  keeping_renderChild (fun _ _ h => hR.trans h (hR.same rfl rfl))
    (fun _ props visible _ component _ _ h _ hbind =>
      hR.trans h (hR.bindOccurrence budget component _ props visible _ _ _ hbind))
    remaining reference props visible

theorem renderInstance (budget : Nat) (i : Instance) :
    Within R
      (ExceptT.run (Client.renderInstance budget (Client.renderChild budget maxDepth) i)) := by
  intro c rendered c' hrun
  have hkept := keeping_renderInstance budget (fun _ _ h => hR.trans h (hR.same rfl rfl))
    (hR.renderChild c budget maxDepth) i (hR.refl c)
  rw [hrun] at hkept
  cases rendered with
  | error e => exact hkept.2
  | ok html => exact hkept.2.2.2

end Lasting

/-! ## Instances stay in their places -/

theorem lasting_unmoved : Lasting Unmoved where
  refl := .refl
  trans := .trans
  same := unmoved_of_same
  modifyInstance := unmoved_modifyInstance
  create := fun hnew _ _ => unmoved_insert hnew _

theorem unmoving_fire (budget : Nat) (key : String) (stage : Stage) :
    Within Unmoved (fire budget key stage) := lasting_unmoved.fire budget key stage

theorem unmoved_renderInstance (budget : Nat) (i : Instance)
    {rendered : Except ClientError String}
    (hrun : ExceptT.run (renderInstance budget (renderChild budget maxDepth) i) c =
      some (rendered, c')) : Unmoved c c' :=
  lasting_unmoved.renderInstance budget i c rendered c' hrun

end LiveMarkup.Client
