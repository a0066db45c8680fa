import LiveMarkup.Client.Dispatch
import LiveMarkup.Client.Update
import LiveMarkup.Proofs.Client.Unmoved
set_option autoImplicit false

/-! # Every instance under its own key

Instances are kept in a table by their keys, and every instance knows its key. The two are the same
in every client that comes about by what a host can do with one (`Reached.keyed`), since an instance
is only ever made under its own key, and none is given another. -/

namespace LiveMarkup.Client

variable {α β : Type} {c c' : Client}

/-- Every instance is kept under its own key. -/
def Keyed (c : Client) : Prop := ∀ key i, c.instance? key = some i → i.key = key

/-- Where the instances of one client are kept under their keys, those of the other are. -/
def KeepsKeys (c c' : Client) : Prop := c.Keyed → c'.Keyed

theorem keepsKeys_of_same (hinstances : c'.instances = c.instances) : KeepsKeys c c' := by
  intro h key i hi
  refine h key i ?_
  rwa [instance?, ← hinstances]

theorem keepsKeys_modifyInstance (c : Client) (key : String) {f : Instance → Instance}
    (hf : ∀ i, (f i).key = i.key) : KeepsKeys c (c.modifyInstance key f) := by
  intro h other i hi
  rw [instance?_modifyInstance] at hi
  split at hi
  · next heq =>
      obtain ⟨j, hj, rfl⟩ := Option.map_eq_some_iff.mp hi
      rw [hf, h key j hj, heq]
  · exact h other i hi

theorem lasting_keepsKeys : Lasting KeepsKeys where
  refl _ := id
  trans h₁ h₂ := h₂ ∘ h₁
  same _ hinstances := keepsKeys_of_same hinstances
  modifyInstance c key _ hf := keepsKeys_modifyInstance c key fun i => (hf i).1
  create := by
    intro c key _ component props h other i hi
    by_cases heq : other = key
    · subst heq
      rw [instance?, Table.get?_insert_self] at hi
      rw [← Option.some.inj hi]
      rfl
    · rw [instance?, Table.get?_insert_of_ne heq] at hi
      exact h other i hi

/-! ## Attempts -/

section

variable {R : Client → Client → Prop} (hR : Lasting R)

include hR

theorem Lasting.run_pure (a : α) : Within R (ExceptT.run (Pure.pure a : Attempt α)) := by
  rintro c _ _ ⟨⟩
  exact hR.refl c

theorem Lasting.run_failed (e : ClientError) :
    Within R (ExceptT.run (Attempt.failed e : Attempt α)) := by
  rintro c _ _ ⟨⟩
  exact hR.refl c

theorem Lasting.run_ofExcept {ε : Type} (f : ε → ClientError) (x : Except ε α) :
    Within R (ExceptT.run (Attempt.ofExcept f x)) := by
  cases x with
  | error e => exact hR.run_failed (f e)
  | ok a => exact hR.run_pure a

theorem Lasting.run_get : Within R (ExceptT.run (MonadState.get : Attempt Client)) := by
  rintro c _ _ ⟨⟩
  exact hR.refl c

theorem Lasting.run_bind {x : Attempt α} {f : α → Attempt β} (hx : Within R (ExceptT.run x))
    (hf : ∀ a, Within R (ExceptT.run (f a))) : Within R (ExceptT.run (x >>= f)) := by
  intro c b c' hrun
  rw [LiveMarkup.run_bind] at hrun
  cases hfirst : ExceptT.run x c with
  | none => rw [hfirst] at hrun; cases hrun
  | some result =>
      obtain ⟨outcome, c₁⟩ := result
      have hstart := hx c outcome c₁ hfirst
      rw [hfirst] at hrun
      cases outcome with
      | error e =>
          obtain ⟨-, rfl⟩ := Prod.mk.inj (Option.some.inj hrun)
          exact hstart
      | ok a => exact hR.trans hstart (hf a _ b c' hrun)

end

theorem within_run_modify {R : Client → Client → Prop} {f : Client → Client}
    (hf : ∀ c, R c (f c)) : Within R (ExceptT.run (modify f : Attempt PUnit)) := by
  rintro c _ _ ⟨⟩
  exact hf c

/-- An act among attempts. -/
theorem within_run_lift {R : Client → Client → Prop} {x : Act α} (hx : Within R x) :
    Within R (ExceptT.run (liftM x : Attempt α)) := by
  intro c outcome c' hrun
  rw [run_lift] at hrun
  obtain ⟨⟨a, c₁⟩, hx', heq⟩ := Option.map_eq_some_iff.mp hrun
  cases heq
  exact hx c a _ hx'

/-! ## What a host can do with a client -/

theorem keepsKeys_mountedRoot (c : Client) (key : String) : KeepsKeys c (c.mountedRoot key).2 := by
  unfold mountedRoot
  split
  · exact id
  · exact keepsKeys_modifyInstance c key fun _ => rfl

theorem within_mountedRoot (key : String) :
    Within KeepsKeys (modifyGet fun c => c.mountedRoot key : Act (Option NodeId)) := by
  intro c root c' hrun
  have hlooked : c.mountedRoot key = (root, c') := Option.some.inj hrun
  have hkeeps := keepsKeys_mountedRoot c key
  rwa [hlooked] at hkeeps

theorem within_hydrateInstance (budget : Nat) (component : Component) (name key : String)
    (props : Value) : Within KeepsKeys (hydrateInstance budget component name key props) := by
  have hR := lasting_keepsKeys
  refine hR.bind (within_modify fun c => keepsKeys_of_same rfl) fun _ => ?_
  refine hR.bind (hR.ensureInstance budget component key props) fun _ => ?_
  refine hR.bind (within_mountedRoot key) fun root => ?_
  cases root with
  | none => exact hR.pure ()
  | some root =>
      refine hR.bind (within_modify fun c => keepsKeys_of_same rfl) fun _ => ?_
      exact hR.transition budget key true

theorem within_hydrateInstances (budget : Nat) (component : Component) (name : String)
    (instances : Table Value) :
    Within KeepsKeys (hydrateInstances budget component name instances) := by
  induction instances with
  | nil => exact lasting_keepsKeys.pure ()
  | cons e rest ih =>
      have hfirst := within_hydrateInstance budget component name e.1 e.2
      exact lasting_keepsKeys.bind hfirst fun _ => ih

theorem within_hydrateComponents (budget : Nat) (recorded : Table (Table Value)) :
    Within KeepsKeys (ExceptT.run (hydrateComponents budget recorded)) := by
  have hR := lasting_keepsKeys
  induction recorded with
  | nil => exact hR.run_pure ()
  | cons e rest ih =>
      refine hR.run_bind hR.run_get fun c => ?_
      cases c.component? e.1 with
      | none => exact hR.run_failed _
      | some component =>
          refine hR.run_bind (within_run_lift ?_) fun _ => ih
          exact within_hydrateInstances budget component e.1 e.2

theorem within_hydrate (budget : Nat) (pageProps : Value) :
    Within KeepsKeys (ExceptT.run (hydrate budget pageProps)) := by
  refine lasting_keepsKeys.run_bind (within_hydrateComponents budget _) fun _ => ?_
  exact within_run_modify fun c => keepsKeys_of_same rfl

theorem within_hydrateText (budget : Nat) (text : String) :
    Within KeepsKeys (ExceptT.run (hydrateText budget text)) := by
  have hR := lasting_keepsKeys
  unfold hydrateText
  cases Json.parse? Json.depthLimit text with
  | none => exact hR.run_failed _
  | some doc =>
      refine hR.run_bind hR.run_get fun c => ?_
      refine hR.run_bind (within_run_modify fun c => keepsKeys_of_same rfl) fun _ => ?_
      exact within_hydrate budget _

theorem keepsKeys_place (key : String) (root : NodeId) (html : String) (c : Client) :
    KeepsKeys c (place key root html c) := by
  unfold place
  dsimp only
  refine lasting_keepsKeys.trans ?_ (keepsKeys_modifyInstance _ key fun _ => rfl)
  exact keepsKeys_of_same rfl

theorem within_updateComponent (budget : Nat) (key : String) :
    Within KeepsKeys (ExceptT.run (updateComponent budget key)) := by
  have hR := lasting_keepsKeys
  refine hR.run_bind hR.run_get fun c => ?_
  refine hR.run_bind (within_run_lift (within_mountedRoot key)) fun root => ?_
  cases c.instance? key with
  | none => exact hR.run_pure ()
  | some i =>
      cases root with
      | none => exact hR.run_pure ()
      | some root =>
          refine hR.run_bind (within_run_modify fun c => keepsKeys_of_same rfl) fun _ => ?_
          refine hR.run_bind (hR.renderInstance budget i) fun html => ?_
          refine hR.run_bind (within_run_lift (hR.fire budget key .beforeUpdate)) fun _ => ?_
          refine hR.run_bind (within_run_modify (keepsKeys_place key root html)) fun _ => ?_
          exact within_run_lift (hR.fire budget key .updated)

theorem within_updateAll (budget : Nat) (updates : List InstanceRef) :
    Within KeepsKeys (updateAll budget updates) := by
  have hR := lasting_keepsKeys
  induction updates with
  | nil => exact hR.pure none
  | cons i rest ih =>
      refine hR.bind (within_updateComponent budget i.key) fun first => hR.bind ih fun others => ?_
      cases first with
      | error e => exact hR.pure _
      | ok _ => exact hR.pure _

theorem within_runFrame (budget : Nat) : Within KeepsKeys (ExceptT.run (runFrame budget)) := by
  have hR := lasting_keepsKeys
  refine hR.run_bind ?_ fun work => ?_
  · rintro c _ _ ⟨⟩
    exact keepsKeys_of_same rfl
  refine hR.run_bind (within_run_lift (within_updateAll budget work.updates)) fun failure => ?_
  refine hR.run_bind (within_run_lift (hR.onStore _)) fun _ => ?_
  cases failure with
  | none => exact hR.run_pure ()
  | some e => exact hR.run_failed e

theorem within_handle (budget : Nat) (i : Instance) (binding : String) (event : Event) :
    Within KeepsKeys (ExceptT.run (handle budget i binding event)) := by
  have hR := lasting_keepsKeys
  refine hR.run_bind (hR.run_ofExcept _ _) fun b => ?_
  cases Table.get? b.handler i.handlers with
  | none => exact hR.run_failed _
  | some handler =>
      refine hR.run_bind (within_run_lift ?_) fun data => ?_
      · exact hR.bind hR.get fun _ => hR.bind hR.get fun _ =>
          hR.bind (within_modify fun c => keepsKeys_of_same rfl) fun _ => hR.pure _
      refine hR.run_bind ?_ fun args => ?_
      · refine hR.run_bind (hR.run_ofExcept _ _) fun expression => ?_
        cases expression with
        | none => exact hR.run_pure []
        | some e =>
            refine hR.run_bind (within_run_lift (hR.onStore _)) fun result => ?_
            exact hR.run_bind (hR.run_ofExcept _ _) fun _ => hR.run_pure _
      refine hR.run_bind (within_run_lift (hR.onStore _)) fun result => ?_
      exact hR.run_bind (hR.run_ofExcept _ _) fun _ => hR.run_pure ()

theorem within_dispatch (budget : Nat) (target : NodeId) (event : Event) :
    Within KeepsKeys (ExceptT.run (dispatch budget target event)) := by
  have hR := lasting_keepsKeys
  refine hR.run_bind (within_run_modify fun c => keepsKeys_of_same rfl) fun _ => ?_
  refine hR.run_bind hR.run_get fun c => ?_
  cases locate? c.document target (Binding.attributeName event.name) with
  | none => exact hR.run_pure false
  | some located =>
      obtain ⟨binding, key⟩ := located
      refine hR.run_bind hR.run_get fun c => ?_
      cases c.instance? key with
      | none => exact hR.run_pure false
      | some i => exact hR.run_bind (within_handle budget i binding event) fun _ => hR.run_pure true

/-- What a host can do with a client, whether it succeeds or not. Between these it may edit the
document and write to the store in any way. -/
inductive Step : Client → Client → Prop
  | registerComponent {c c' : Client} (d : ComponentDef) :
      c.registerComponent d = .ok c' → Step c c'
  | registerBlocks (c : Client) (file source : String) : Step c (c.registerBlocks file source).2
  | edit (c : Client) (document : Document) : Step c { c with document }
  | write (c : Client) (store : Store) : Step c { c with store }
  | look (c : Client) (key : String) : Step c (c.mountedRoot key).2
  | hydrate {c c' : Client} {outcome : Except ClientError Unit} (budget : Nat) (pageProps : Value) :
      ExceptT.run (hydrate budget pageProps) c = some (outcome, c') → Step c c'
  | hydrateText {c c' : Client} {outcome : Except ClientError Unit} (budget : Nat) (text : String) :
      ExceptT.run (hydrateText budget text) c = some (outcome, c') → Step c c'
  | update {c c' : Client} {outcome : Except ClientError Unit} (budget : Nat) (key : String) :
      ExceptT.run (updateComponent budget key) c = some (outcome, c') → Step c c'
  | frame {c c' : Client} {outcome : Except ClientError Unit} (budget : Nat) :
      ExceptT.run (runFrame budget) c = some (outcome, c') → Step c c'
  | dispatch {c c' : Client} {outcome : Except ClientError Bool} (budget : Nat) (target : NodeId)
      (event : Event) :
      ExceptT.run (dispatch budget target event) c = some (outcome, c') → Step c c'

/-- Clients that come about by what a host can do. -/
inductive Reached : Client → Prop
  | create (document : Document) (delimiters : Delimiters) : Reached (create document delimiters)
  | step {c c' : Client} : Reached c → Step c c' → Reached c'

theorem Step.keepsKeys (h : Step c c') : KeepsKeys c c' := by
  cases h with
  | registerComponent d hd =>
      unfold Client.registerComponent at hd
      cases htemplate : (Template.component d.name d.source c.delimiters).mapError
        ClientError.template with
      | error e => rw [htemplate] at hd; cases hd
      | ok template =>
          rw [htemplate] at hd
          obtain rfl := Except.ok.inj hd
          exact keepsKeys_of_same rfl
  | registerBlocks file source => exact keepsKeys_of_same rfl
  | edit document => exact keepsKeys_of_same rfl
  | write store => exact keepsKeys_of_same rfl
  | look key => exact keepsKeys_mountedRoot c key
  | hydrate budget pageProps hrun => exact within_hydrate budget pageProps _ _ _ hrun
  | hydrateText budget text hrun => exact within_hydrateText budget text _ _ _ hrun
  | update budget key hrun => exact within_updateComponent budget key _ _ _ hrun
  | frame budget hrun => exact within_runFrame budget _ _ _ hrun
  | dispatch budget target event hrun => exact within_dispatch budget target event _ _ _ hrun

theorem Reached.keyed (h : Reached c) : c.Keyed := by
  induction h with
  | create document delimiters => exact fun _ _ hi => nomatch hi
  | step _ hstep ih => exact hstep.keepsKeys ih

end LiveMarkup.Client
