import LiveMarkup.Proofs.Client.Fallback
import LiveMarkup.Proofs.Client.UpdateHooks
import LiveMarkup.Proofs.Reactive.FailedWrites
set_option autoImplicit false

/-! # Frames that fail

A frame takes its work out of the queue and goes through it step by step: an update for every key,
failed or not, and then every callback (`Frame.Step`). What comes to the queue meanwhile stays
there, and an update that fails ends with the render that failed, before anything is shown or any
hook of an update has run (`frame_complete`). -/

namespace LiveMarkup.Client

open Queue (Op)

variable {c c' d : Client} {key : String} {budget : Nat} {e : ClientError}

/-! ## Frames step by step -/

/-- What is left of a frame: the instances to update, the callbacks after them, and what the updates
so far came to. -/
structure Frame where
  updates : List InstanceRef
  callbacks : List Effect
  outcomes : List (Except ClientError Unit)
  client : Client

namespace Frame

/-- A frame whose work was just taken out of the queue. -/
def start (c : Client) : Frame where
  updates := c.store.queue.pending
  callbacks := c.store.queue.deferred
  outcomes := []
  client := { c with store := c.store.takeFrame.2 }

/-- The next step of a frame. Updates come first, and whatever one comes to, the frame goes on; so
it does after a callback. -/
inductive Step (budget : Nat) : Frame → Frame → Prop
  | update {i : InstanceRef} {updates : List InstanceRef} {callbacks : List Effect}
      {outcomes : List (Except ClientError Unit)} {outcome : Except ClientError Unit}
      {c c' : Client} : ExceptT.run (updateComponent budget i.key) c = some (outcome, c') →
      Step budget ⟨i :: updates, callbacks, outcomes, c⟩
        ⟨updates, callbacks, outcomes ++ [outcome], c'⟩
  | callback {e : Effect} {callbacks : List Effect} {outcomes : List (Except ClientError Unit)}
      {c : Client} {answer : Except EvalError (Option Value)} {store : Store} :
      ExceptT.run (Store.carryOut budget e) c.store = some (answer, store) →
      Step budget ⟨[], e :: callbacks, outcomes, c⟩ ⟨[], callbacks, outcomes, { c with store }⟩

/-- Any number of steps. -/
abbrev Leads (budget : Nat) : Frame → Frame → Prop := Relation.ReflTransGen (Step budget)

end Frame

/-- The first failure among some outcomes. -/
def firstFailure : List (Except ClientError Unit) → Option ClientError
  | [] => none
  | .ok () :: rest => firstFailure rest
  | .error e :: _ => some e

namespace Frame

/-- What the rest of a frame comes to. -/
def result (budget : Nat) (f : Frame) : Option (Option ClientError × Client) :=
  (updateAll budget f.updates f.client).bind fun (failure, c) =>
    (Act.onStore (Store.carryOutAll budget f.callbacks) c).map fun (_, c) =>
      ((firstFailure f.outcomes).or failure, c)

/-- An update is followed by the rest, and its failure comes before those of the rest. -/
theorem updateAll_cons (i : InstanceRef) (rest : List InstanceRef) (c : Client) :
    updateAll budget (i :: rest) c =
      (ExceptT.run (updateComponent budget i.key) c).bind fun (outcome, c) =>
        (updateAll budget rest c).map fun (failure, c) =>
          ((firstFailure [outcome]).or failure, c) := by
  rw [updateAll, act_bind]
  congr 1
  funext ⟨outcome, c₁⟩
  dsimp only
  rw [act_bind]
  cases updateAll budget rest c₁ <;> cases outcome <;> rfl

end Frame

/-- What a frame returns. -/
def frameOutcome : Option ClientError → Except ClientError Unit
  | none => .ok ()
  | some e => .error e

/-- The work of a frame is taken out of the queue before any of it is done. -/
theorem run_runFrame_start (budget : Nat) (c : Client) :
    ExceptT.run (runFrame budget) c = ExceptT.run (do
      let failure ← updateAll budget (Frame.start c).updates
      let _ ← Act.onStore (Store.carryOutAll budget (Frame.start c).callbacks)
      match failure with
      | some e => Attempt.failed e
      | none => pure () : Attempt Unit) (Frame.start c).client := rfl

theorem run_runFrame (budget : Nat) (c : Client) : ExceptT.run (runFrame budget) c =
    ((Frame.start c).result budget).map fun (failure, c) => (frameOutcome failure, c) := by
  rw [run_runFrame_start, run_bind, run_lift, Frame.result]
  cases updateAll budget (Frame.start c).updates (Frame.start c).client with
  | none => rfl
  | some updated =>
      obtain ⟨failure, c₁⟩ := updated
      show ExceptT.run (liftM _ >>= _ : Attempt Unit) c₁ = Option.map _ (Option.map _ _)
      rw [run_bind, run_lift]
      cases Act.onStore (Store.carryOutAll budget (Frame.start c).callbacks) c₁ with
      | none => rfl
      | some done => cases failure <;> rfl

theorem store_place (key : String) (root : NodeId) (html : String) (c : Client) :
    (place key root html c).store = c.store := by
  unfold place
  dsimp only
  exact (sameButInstances_modifyInstance _ key _).store

/-- Running hooks changes the store alone. -/
theorem fire_spec {stage : Stage} (hrun : fire budget key stage c = some ((), c')) :
    ∃ s, c.store.AddsWork s ∧ c' = { c with store := s } := by
  unfold fire at hrun
  rw [act_bind, act_get] at hrun
  dsimp only [Option.bind_some] at hrun
  rw [act_bind] at hrun
  obtain ⟨⟨answer, c₁⟩, hstore, hend⟩ := Option.bind_eq_some_iff.mp hrun
  obtain ⟨⟨result, store⟩, hhooks, heq⟩ := Option.map_eq_some_iff.mp hstore
  obtain ⟨-, rfl⟩ := Prod.mk.inj heq
  obtain ⟨-, rfl⟩ := Prod.mk.inj (Option.some.inj hend)
  exact ⟨store, Store.leads_carryOutAll budget _ _ _ _ hhooks, rfl⟩

theorem fireLater_spec {stage : Stage} (hrun : fireLater key stage c = some ((), c')) :
    ∃ s, c.store.AddsWork s ∧ c' = { c with store := s } := by
  unfold fireLater at hrun
  rw [act_bind, act_get] at hrun
  dsimp only [Option.bind_some] at hrun
  split at hrun
  · obtain ⟨-, rfl⟩ := Prod.mk.inj (Option.some.inj hrun)
    exact ⟨c.store.defer _, Queue.adds_defer c.store.queue _, rfl⟩
  · obtain ⟨-, rfl⟩ := Prod.mk.inj (Option.some.inj hrun)
    exact ⟨c.store, Store.steps_addsWork.refl _, rfl⟩

theorem left_spec {later : Option Stage} (hrun : (match later with
      | some stage => fireLater key stage
      | _ => pure () : Act Unit) c = some ((), c')) :
    ∃ s, c.store.AddsWork s ∧ c' = { c with store := s } := by
  cases later with
  | some stage => exact fireLater_spec hrun
  | none =>
      obtain ⟨-, rfl⟩ := Prod.mk.inj (Option.some.inj hrun)
      exact ⟨c.store, Store.steps_addsWork.refl _, rfl⟩

/-- Showing or hiding an instance changes how it is armed, and the store. -/
theorem transition_spec {shown : Bool} (hrun : transition budget key shown c = some ((), c')) :
    ∃ armed s, (∀ i, c.instance? key = some i → armed = (i.armed.transition shown).2) ∧
      c.store.AddsWork s ∧
      c' = { c.modifyInstance key fun i => { i with armed } with store := s } := by
  unfold transition at hrun
  rw [act_bind, act_get] at hrun
  dsimp only [Option.bind_some] at hrun
  cases hi : c.instance? key with
  | none =>
      rw [hi] at hrun
      obtain ⟨-, rfl⟩ := Prod.mk.inj (Option.some.inj hrun)
      refine ⟨.all, c.store, nofun, Store.steps_addsWork.refl _, ?_⟩
      rw [modifyInstance, hi]
  | some i =>
      rw [hi] at hrun
      dsimp only at hrun
      have harmed : ∀ j, some i = some j →
          (i.armed.transition shown).2 = (j.armed.transition shown).2 := by
        rintro _ ⟨⟩
        rfl
      generalize i.armed.transition shown = change at hrun harmed
      obtain ⟨⟨now, later⟩, armed⟩ := change
      rw [act_bind, act_modify] at hrun
      dsimp only [Option.bind_some] at hrun
      have hsame := (sameButInstances_modifyInstance c key fun i => { i with armed }).store
      refine ⟨armed, ?_⟩
      generalize (c.modifyInstance key fun i => { i with armed }) = c₁ at hrun hsame ⊢
      rw [← hsame]
      cases now with
      | none =>
          obtain ⟨s, hs, rfl⟩ := left_spec hrun
          exact ⟨s, harmed, hs, rfl⟩
      | some now =>
          dsimp only at hrun
          rw [act_bind] at hrun
          obtain ⟨⟨⟨⟩, c₂⟩, hnow, hlater⟩ := Option.bind_eq_some_iff.mp hrun
          obtain ⟨s, hs, rfl⟩ := fire_spec hnow
          obtain ⟨s', hs', rfl⟩ := left_spec hlater
          exact ⟨s', harmed, Store.steps_addsWork.trans hs hs', rfl⟩

/-- An exchange of markup does not fail. It changes the store, the document and where the root was
last seen. -/
theorem exchange_spec {root : NodeId} {html : String} {outcome : Except ClientError Unit}
    (hrun : ExceptT.run (exchange budget key root html) c = some (outcome, c')) :
    outcome = .ok () ∧ ∃ s s', c.store.AddsWork s ∧ s.AddsWork s' ∧
      c' = { place key root html { c with store := s } with store := s' } := by
  unfold exchange at hrun
  rw [run_bind, run_lift] at hrun
  cases hbefore : fire budget key .beforeUpdate c with
  | none =>
      rw [hbefore] at hrun
      cases hrun
  | some result =>
      obtain ⟨⟨⟩, c₁⟩ := result
      rw [hbefore] at hrun
      dsimp only [Option.map_some] at hrun
      rw [run_modify_bind, run_lift] at hrun
      obtain ⟨⟨⟨⟩, c₂⟩, hafter, heq⟩ := Option.map_eq_some_iff.mp hrun
      obtain ⟨rfl, rfl⟩ := Prod.mk.inj heq
      obtain ⟨s, hs, rfl⟩ := fire_spec hbefore
      obtain ⟨s', hs', rfl⟩ := fire_spec hafter
      rw [store_place] at hs'
      exact ⟨rfl, s, s', hs, hs', rfl⟩

/-- An update passes over an instance that is not in the document, or it renders the instance and
exchanges the markup. -/
theorem update_cases {outcome : Except ClientError Unit}
    (hrun : ExceptT.run (updateComponent budget key) c = some (outcome, c')) :
    (outcome = .ok () ∧ c' = c.modifyInstance key fun i => { i with root := none }) ∨
      ∃ i root, c.instance? key = some i ∧ c.findRoot i = some root ∧
        ((∃ e, outcome = .error e ∧
          ExceptT.run (renderInstance budget (renderChild budget maxDepth) i)
            (c.startPass key root) = some (.error e, c')) ∨
        ∃ html c₁, ExceptT.run (renderInstance budget (renderChild budget maxDepth) i)
            (c.startPass key root) = some (.ok html, c₁) ∧
          ExceptT.run (exchange budget key root html) c₁ = some (outcome, c')) := by
  cases hi : c.instance? key with
  | none =>
      rw [run_updateComponent, hi, mountedRoot, hi] at hrun
      obtain ⟨rfl, rfl⟩ := Prod.mk.inj (Option.some.inj hrun)
      rw [modifyInstance, hi]
      exact .inl ⟨rfl, rfl⟩
  | some i =>
      cases hroot : c.findRoot i with
      | none =>
          rw [run_updateComponent, hi, mountedRoot_of_instance? hi, hroot] at hrun
          obtain ⟨rfl, rfl⟩ := Prod.mk.inj (Option.some.inj hrun)
          exact .inl ⟨rfl, rfl⟩
      | some root =>
          rw [run_updateComponent_of_mounted hi hroot] at hrun
          refine .inr ⟨i, root, rfl, hroot, ?_⟩
          cases hrender : ExceptT.run (renderInstance budget (renderChild budget maxDepth) i)
            (c.startPass key root) with
          | none =>
              rw [hrender] at hrun
              cases hrun
          | some rendered =>
              rw [hrender] at hrun
              obtain ⟨e | html, c₁⟩ := rendered
              · obtain ⟨rfl, rfl⟩ := Prod.mk.inj (Option.some.inj hrun)
                exact .inl ⟨e, rfl, rfl⟩
              · exact .inr ⟨html, c₁, rfl, hrun⟩

/-- An update keeps what the steps of renders keep and changes of the document. -/
theorem KeptByRenders.updateComponent {P : Client → Prop} (hP : KeptByRenders budget P)
    (hdocument : ∀ {c : Client}, P c → ∀ document, P { c with document })
    {outcome : Except ClientError Unit} (h : P c)
    (hrun : ExceptT.run (Client.updateComponent budget key) c = some (outcome, c')) : P c' := by
  have hseen : ∀ {c : Client} root, P c → P (c.modifyInstance key fun i => { i with root }) :=
    fun root h => hP.modify h key fun _ _ _ => rfl
  obtain ⟨-, rfl⟩ | ⟨i, root, -, -, hrendered⟩ := update_cases hrun
  · exact hseen none h
  have hstart : P (c.startPass key root) := hP.registry (hseen (some root) h) _
  obtain ⟨e, -, hrender⟩ | ⟨html, c₁, hrender, hexchange⟩ := hrendered
  · exact hP.renderInstance hstart hrender
  · obtain ⟨-, s, s', hs, hs', rfl⟩ := exchange_spec hexchange
    have hplaced : P (place key root html { c₁ with store := s }) :=
      hseen (some _) (hdocument (hP.store (hP.renderInstance hstart hrender) hs) _)
    refine hP.store hplaced ?_
    rw [store_place]
    exact hs'

theorem KeptByRenders.updateAll {P : Client → Prop} (hP : KeptByRenders budget P)
    (hdocument : ∀ {c : Client}, P c → ∀ document, P { c with document })
    {updates : List InstanceRef} {failure : Option ClientError} (h : P c)
    (hrun : Client.updateAll budget updates c = some (failure, c')) : P c' := by
  induction updates generalizing c failure with
  | nil =>
      obtain ⟨-, rfl⟩ := Prod.mk.inj (Option.some.inj hrun)
      exact h
  | cons i rest ih =>
      rw [Frame.updateAll_cons] at hrun
      obtain ⟨⟨outcome, c₁⟩, hfirst, hothers⟩ := Option.bind_eq_some_iff.mp hrun
      obtain ⟨⟨later, c₂⟩, hrest, heq⟩ := Option.map_eq_some_iff.mp hothers
      obtain ⟨-, rfl⟩ := Prod.mk.inj heq
      exact ih (hP.updateComponent hdocument h hfirst) hrest

/-! ## Work that comes meanwhile -/

/-- Looking for the root of an instance again finds the same. -/
theorem findRoot_seen {i : Instance} {root : NodeId} (h : c.findRoot i = some root) :
    c.findRoot { i with root := some root } = some root := by
  unfold findRoot at h ⊢
  dsimp only at h ⊢
  by_cases hseen : (c.document.contains root &&
      c.document.attribute? root rootAttribute = some i.key) = true
  · rw [Option.filter_some, if_pos hseen, Option.some_or]
  · rw [Option.filter_some, if_neg hseen, Option.none_or]
    -- where it was last seen it is not, so it was found by its mark
    obtain hfilter | ⟨-, hfound⟩ := Option.or_eq_some_iff.mp h
    · exact absurd (Option.filter_eq_some_iff.mp hfilter).2 hseen
    · exact hfound

namespace FailingFrame

/-- A note that leaves the names of the update stages in the journal. -/
def note (key : String) (props : Value) : Instance :=
  { Instance.create ⟨"note", UnmarkedFallback.template, none⟩ key props with
    hooks := [(.beforeUpdate, .note [.str "BeforeUpdate", .str key] .finish),
      (.updated, .note [.str "Updated", .str key] .finish)] }

/-- Two notes are pending, of which the first has no label; a callback schedules it again. -/
def ops : List (Op Effect) :=
  [.schedule ⟨"note", "a"⟩, .defer (.schedule ⟨"note", "a"⟩ fun _ => .finish),
    .schedule ⟨"note", "b"⟩, .schedule ⟨"note", "a"⟩]

def client : Client :=
  { create (Document.parse "<p element=\"a\">old</p><p element=\"b\">old</p>") .braces with
    instances := [("a", note "a" .null),
      ("b", note "b" (.object (.given 0) [("label", .str "new")]))]
    store := { Store.empty with queue := Queue.empty.after ops } }

end FailingFrame

end LiveMarkup.Client
