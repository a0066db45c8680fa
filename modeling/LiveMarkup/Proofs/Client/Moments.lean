import LiveMarkup.Proofs.Client.Frames
set_option autoImplicit false

/-! # Moments in the life of an instance

Of all that a client does, the calls that show or hide an instance concern how it is armed. The rest
is done aside (`Aside`): it comes to the same however the instance is armed, leaves that and the
hooks of the instance as they are, and takes nothing out of the queue. Whatever a frame updates,
what happens in it is a list of such moments (`exists_turn`). -/

namespace LiveMarkup

namespace Table

variable {α : Type}

/-- Writes to two keys commute if one of them is there. -/
theorem insert_comm {key other : String} (hne : other ≠ key) {w : α} {t : Table α}
    (h : get? key t = some w) (u v : α) :
    insert other u (insert key v t) = insert key v (insert other u t) := by
  induction t with
  | nil => cases h
  | cons entry rest ih =>
      obtain ⟨k, x⟩ := entry
      by_cases hk : k = key
      · subst hk
        simp [insert, hne.symm]
      · rw [get?, if_neg hk] at h
        by_cases ho : k = other
        · subst ho
          simp [insert, hk]
        · simp [insert, hk, ho, ih h]

end Table

namespace Client

variable {α : Type} {key other : String} {hooks : List (Stage × Effect)} {c c₀ c₁ c₂ : Client}
  {budget : Nat}

/-! ## Arming -/

/-- An instance is there and has some hooks. -/
def Hooked (c : Client) (key : String) (hooks : List (Stage × Effect)) : Prop :=
  ∃ i, c.instance? key = some i ∧ i.hooks = hooks

/-- A client in which an instance has its stages armed in some way. -/
def arm (c : Client) (key : String) (armed : Armed) : Client :=
  c.modifyInstance key fun i => { i with armed }

theorem arm_eq {i : Instance} (hi : c.instance? key = some i) (a : Armed) : c.arm key a =
    { c with instances := Table.insert key { i with armed := a } c.instances } := by
  rw [arm, modifyInstance, hi]

theorem instance?_arm {i : Instance} (hi : c.instance? key = some i) (a : Armed) :
    (c.arm key a).instance? key = some { i with armed := a } := by
  rw [arm_eq hi]
  exact Table.get?_insert_self ..

/-- An instance as it is armed. -/
theorem arm_self {i : Instance} (hi : c.instance? key = some i) : c.arm key i.armed = c := by
  rw [arm_eq hi, Table.insert_of_get? hi]

theorem arm_arm (c : Client) (key : String) (a a' : Armed) :
    (c.arm key a).arm key a' = c.arm key a' := by
  cases hi : c.instance? key with
  | none => simp only [arm, modifyInstance, hi]
  | some i =>
      have hi' := instance?_arm hi a
      rw [arm_eq hi] at hi' ⊢
      rw [arm_eq hi', arm_eq hi, Table.insert_insert]

theorem isNone_arm (c : Client) (key other : String) (a : Armed) :
    ((c.arm key a).instance? other).isNone = (c.instance? other).isNone := by
  rw [arm, instance?_modifyInstance]
  split
  · next heq =>
    subst heq
    cases c.instance? other <;> rfl
  · rfl

theorem store_arm (c : Client) (key : String) (a : Armed) : (c.arm key a).store = c.store :=
  (sameButInstances_modifyInstance c key _).store

theorem arm_withStore (c : Client) (key : String) (a : Armed) (s : Store) :
    { c with store := s }.arm key a = { c.arm key a with store := s } := by
  cases hi : c.instance? key with
  | none =>
      have hi' : { c with store := s }.instance? key = none := hi
      simp only [arm, modifyInstance, hi, hi']
  | some i => rw [arm_eq hi, arm_eq (show { c with store := s }.instance? key = some i from hi)]

theorem Hooked.arm (h : c.Hooked key hooks) (a : Armed) : (c.arm key a).Hooked key hooks := by
  obtain ⟨i, hi, hhooks⟩ := h
  exact ⟨_, instance?_arm hi a, hhooks⟩

theorem Hooked.transition {shown : Bool} (h : c.Hooked key hooks)
    (hrun : transition budget key shown c = some ((), c₁)) : c₁.Hooked key hooks := by
  obtain ⟨armed, s, -, -, rfl⟩ := transition_spec hrun
  exact h.arm armed

/-! ## Aside -/

/-- Carries out some effects, failed or not. -/
def carryOut (budget : Nat) (effects : List Effect) : Act Unit := do
  let _ ← Act.onStore (Store.carryOutAll budget effects)

theorem run_carryOut (budget : Nat) (effects : List Effect) (c : Client) :
    carryOut budget effects c =
      (ExceptT.run (Store.carryOutAll budget effects) c.store).map fun r =>
        ((), { c with store := r.2 }) := by
  rw [carryOut, act_bind]
  show ((ExceptT.run (Store.carryOutAll budget effects) c.store).map _).bind _ = _
  cases ExceptT.run (Store.carryOutAll budget effects) c.store <;> rfl

/-- Something done aside of an instance. -/
structure Aside (key : String) (hooks : List (Stage × Effect)) where
  act : Act Unit
  armed : ∀ {c : Client} {a : Armed}, c.Hooked key hooks →
    act (c.arm key a) = (act c).map fun (_, c') => ((), c'.arm key a)
  hooked : ∀ {c c' : Client}, c.Hooked key hooks → act c = some ((), c') → c'.Hooked key hooks
  work : ∀ {c c' : Client}, act c = some ((), c') → c.store.AddsWork c'.store

namespace Aside

/-- A change that always comes to an end. -/
def change (f : Client → Client)
    (harmed : ∀ (c : Client) a, c.Hooked key hooks → f (c.arm key a) = (f c).arm key a)
    (hhooked : ∀ c : Client, c.Hooked key hooks → (f c).Hooked key hooks)
    (hwork : ∀ c : Client, c.store.AddsWork (f c).store) : Aside key hooks where
  act := modify f
  armed := fun {c a} h => congrArg (fun c' => some ((), c')) (harmed c a h)
  hooked := by
    rintro c _ h ⟨⟩
    exact hhooked c h
  work := by
    rintro c _ ⟨⟩
    exact hwork c

/-- Some effects are carried out. -/
def effects (key : String) (hooks : List (Stage × Effect)) (budget : Nat)
    (effects : List Effect) : Aside key hooks where
  act := carryOut budget effects
  armed := by
    intro c a _
    rw [run_carryOut, run_carryOut, store_arm, Option.map_map]
    congr 1
    funext r
    exact congrArg (fun c' => ((), c')) (arm_withStore c key a r.2).symm
  hooked := by
    rintro c c' ⟨i, hi, hhooks⟩ hrun
    rw [run_carryOut] at hrun
    obtain ⟨r, -, ⟨⟩⟩ := Option.map_eq_some_iff.mp hrun
    exact ⟨i, hi, hhooks⟩
  work := by
    intro c c' hrun
    rw [run_carryOut] at hrun
    obtain ⟨⟨result, s⟩, hstore, ⟨⟩⟩ := Option.map_eq_some_iff.mp hrun
    exact Store.leads_carryOutAll budget effects _ _ _ hstore

end Aside

/-! ## Moments -/

/-- Something that happens to an instance: it is shown or hidden, or something is done aside. -/
inductive Moment (key : String) (hooks : List (Stage × Effect)) where
  | call (shown : Bool)
  | aside (aside : Aside key hooks)

def Moment.perform (budget : Nat) : Moment key hooks → Act Unit
  | call shown => transition budget key shown
  | aside a => a.act

theorem Hooked.moment (h : c.Hooked key hooks) (m : Moment key hooks)
    (hrun : m.perform budget c = some ((), c₁)) : c₁.Hooked key hooks := by
  cases m with
  | call shown => exact h.transition hrun
  | aside a => exact a.hooked h hrun

/-- A client comes from another by moments in the life of an instance. -/
structure Comes (budget : Nat) (key : String) (hooks : List (Stage × Effect)) (c c' : Client) :
    Prop where
  hooked : c'.Hooked key hooks
  moments : ∃ moments : List (Moment key hooks),
    forM moments (Moment.perform budget) c = some ((), c')

namespace Comes

theorem refl (h : c.Hooked key hooks) : Comes budget key hooks c c := ⟨h, [], rfl⟩

theorem after (h : Comes budget key hooks c c₁) (m : Moment key hooks)
    (hrun : m.perform budget c₁ = some ((), c₂)) : Comes budget key hooks c c₂ := by
  obtain ⟨moments, hmoments⟩ := h.moments
  refine ⟨h.hooked.moment m hrun, moments ++ [m], ?_⟩
  rw [List.forM_append, act_bind, hmoments]
  show (m.perform budget >>= fun _ => pure ()) c₁ = _
  rw [bind_pure_unit]
  exact hrun

/-- A change of something other than the instances. -/
theorem elsewhere (h : Comes budget key hooks c c₁) (f : Client → Client)
    (hf : ∀ (c : Client) instances, f { c with instances } = { f c with instances })
    (hwork : ∀ c : Client, c.store.AddsWork (f c).store) : Comes budget key hooks c (f c₁) := by
  have hinstances : ∀ c, (f c).instances = c.instances := by
    intro c
    have hsame := congrArg Client.instances (hf c c.instances)
    exact hsame
  have hthere : ∀ {c : Client} {i}, c.instance? key = some i → (f c).instance? key = some i := by
    intro c i hi
    rw [instance?, hinstances]
    exact hi
  refine h.after (.aside (.change f ?_ ?_ hwork)) rfl
  · rintro c a ⟨i, hi, -⟩
    rw [arm_eq hi, hf, arm_eq (hthere hi), hinstances]
  · rintro c ⟨i, hi, hhooks⟩
    exact ⟨i, hthere hi, hhooks⟩

theorem store (h : Comes budget key hooks c c₁) {s : Store} (hs : c₁.store.AddsWork s) :
    Comes budget key hooks c { c₁ with store := s } := by
  classical
  -- nothing is done in a client whose queue does not go on to the one of the store
  have hchange := h.elsewhere
    (fun c => { c with store := if c.store.AddsWork s then s else c.store }) (fun _ _ => rfl) ?_
  · rwa [if_pos hs] at hchange
  · intro c
    dsimp only
    split
    · assumption
    · exact Store.steps_addsWork.refl _

/-- A change of another instance, or of something other than the stages and hooks of this one. -/
theorem modify (h : Comes budget key hooks c c₁) (other : String) {f : Instance → Instance}
    (hf : other = key →
      ∀ i hooks armed, f { i with hooks, armed } = { f i with hooks, armed }) :
    Comes budget key hooks c (c₁.modifyInstance other f) := by
  refine h.after (.aside (.change (fun c => c.modifyInstance other f) ?_ ?_ ?_)) rfl
  · rintro c a ⟨i, hi, -⟩
    by_cases heq : other = key
    · subst heq
      have hcommutes := hf rfl i i.hooks
      have hhooks := congrArg Instance.hooks (hcommutes i.armed)
      have hi' := instance?_arm hi a
      have hfi : (c.modifyInstance other f).instance? other = some (f i) := by
        rw [instance?_modifyInstance, if_pos rfl, hi]
        rfl
      rw [arm_eq hfi, modifyInstance, hi', modifyInstance, hi, arm_eq hi]
      dsimp only
      rw [Table.insert_insert, Table.insert_insert, hcommutes a, ← hhooks]
    · have hi' : (c.modifyInstance other f).instance? key = some i := by
        rw [instance?_modifyInstance, if_neg (Ne.symm heq), hi]
      rw [arm_eq hi', arm_eq hi]
      unfold modifyInstance
      rw [show Client.instance? { c with instances := _ } other = c.instance? other from
        Table.get?_insert_of_ne heq ..]
      cases c.instance? other with
      | none => rfl
      | some j =>
          dsimp only
          rw [Table.insert_comm heq hi]
  · rintro c ⟨i, hi, hhooks⟩
    unfold Hooked
    rw [instance?_modifyInstance]
    split
    · next heq =>
      subst heq
      refine ⟨f i, by rw [hi]; rfl, ?_⟩
      exact (congrArg Instance.hooks (hf rfl i i.hooks i.armed)).trans hhooks
    · exact ⟨i, hi, hhooks⟩
  · intro c
    exact Store.addsWork_of_queue
      (congrArg Store.queue (sameButInstances_modifyInstance c other f).store)

theorem create (h : Comes budget key hooks c c₁) {other : String}
    (hnew : c₁.instance? other = none) (i : Instance) :
    Comes budget key hooks c { c₁ with instances := Table.insert other i c₁.instances } := by
  -- nothing is done where there is an instance, such as this one
  have hne : ∀ {c : Client} {j}, c.instance? key = some j → c.instance? other = none →
      other ≠ key := by
    rintro c j hj hnew rfl
    exact nomatch hnew.symm.trans hj
  have hchange := h.after (.aside (.change (fun c =>
    if (c.instance? other).isNone then
      { c with instances := Table.insert other i c.instances }
    else c) ?_ ?_ ?_)) rfl
  · dsimp only at hchange
    rw [hnew] at hchange
    exact hchange
  · rintro c a ⟨j, hj, -⟩
    rw [isNone_arm]
    cases hother : c.instance? other with
    | some k => rfl
    | none =>
        have hother := hne hj hother
        have hj' : Client.instance? { c with instances := Table.insert other i c.instances } key =
            some j := (Table.get?_insert_of_ne hother.symm ..).trans hj
        rw [Option.isNone_none, if_pos rfl, if_pos rfl, arm_eq hj, arm_eq hj']
        dsimp only
        rw [Table.insert_comm hother hj]
  · rintro c ⟨j, hj, hhooks⟩
    cases hother : c.instance? other with
    | some k => exact ⟨j, hj, hhooks⟩
    | none => exact ⟨j, (Table.get?_insert_of_ne (hne hj hother).symm ..).trans hj, hhooks⟩
  · intro c
    split <;> exact Store.steps_addsWork.refl c.store

end Comes

theorem keptByRenders_comes (c : Client) :
    KeptByRenders budget (Comes budget key hooks c) where
  store := fun h hs => h.store hs
  registry := fun h registry => h.elsewhere (fun c => { c with registry }) (fun _ _ => rfl)
    fun c => Store.steps_addsWork.refl _
  host := fun h host => h.elsewhere (fun c => { c with host }) (fun _ _ => rfl)
    fun c => Store.steps_addsWork.refl _
  create := fun {c₁ other} h hnew => by
    refine ⟨h.create hnew, fun d f hd => hd.modify other ?_⟩
    rintro rfl
    obtain ⟨i, hi, -⟩ := h.hooked
    exact nomatch hnew.symm.trans hi
  modify := fun h other f hf => h.modify other fun _ => hf
  transition := fun {c₁ c₂ other shown} h hrun => by
    by_cases heq : other = key
    · subst heq
      exact h.after (.call shown) hrun
    · obtain ⟨armed, s, -, hs, rfl⟩ := transition_spec hrun
      refine (h.modify other (absurd · heq)).store ?_
      rw [(sameButInstances_modifyInstance c₁ other _).store]
      exact hs

/-! ## Frames -/

/-- Something between frames, or a frame. What a frame updates comes after its work was taken and
before the callbacks in it are carried out. -/
inductive Turn (α : Type) where
  | now (what : α)
  | frame (meanwhile : List α)

/-- Something that a client does: it shows or hides an instance, or it carries out a frame. -/
inductive Event where
  | call (shown : Bool)
  | frame

/-- Carries out a turn; the callbacks of its frame, if it is one. -/
def Turn.run (budget : Nat) (step : α → Act Unit) : Turn α → Act (List Effect)
  | now what => do
    step what
    return []
  | frame meanwhile => do
    let work ← modifyGet fun c =>
      let (work, store) := c.store.takeFrame
      (work, { c with store })
    forM meanwhile step
    carryOut budget work.deferred
    return work.deferred

/-- Carries out an event; the callbacks of its frame, if it is one. A frame may fail. -/
def Event.run (budget : Nat) (key : String) : Event → Act (List Effect)
  | call shown => do
    transition budget key shown
    return []
  | frame => do
    let due := (← get).store.queue.deferred
    let _ ← (runFrame budget).run
    return due

/-- Carries out some things in order; the callbacks of all frames. -/
def inOrder (run : α → Act (List Effect)) : List α → Act (List Effect)
  | [] => return []
  | a :: rest => do
    let carried ← run a
    let others ← inOrder run rest
    return carried ++ others

/-- The event that a turn is, if it is one. -/
def Turn.event? : Turn (Moment key hooks) → Option Event
  | now (.call shown) => some (.call shown)
  | now (.aside _) => none
  | frame _ => some .frame

theorem run_frame (step : α → Act Unit) (meanwhile : List α) (c : Client) :
    (Turn.frame meanwhile).run budget step c =
      (forM meanwhile step (Frame.start c).client).bind fun (_, c₁) =>
        (carryOut budget (Frame.start c).callbacks c₁).map fun (_, c₂) =>
          ((Frame.start c).callbacks, c₂) := by
  show (do
    forM meanwhile step
    carryOut budget (Frame.start c).callbacks
    return (Frame.start c).callbacks : Act (List Effect)) (Frame.start c).client = _
  rw [act_bind]
  congr 1
  funext ⟨_, c₁⟩
  dsimp only
  rw [act_bind]
  cases carryOut budget (Frame.start c).callbacks c₁ <;> rfl

theorem Hooked.moments (h : c.Hooked key hooks) {moments : List (Moment key hooks)}
    (hrun : forM moments (Moment.perform budget) c = some ((), c₁)) : c₁.Hooked key hooks := by
  induction moments generalizing c with
  | nil =>
      obtain ⟨-, rfl⟩ := Prod.mk.inj (Option.some.inj hrun)
      exact h
  | cons m rest ih =>
      rw [List.forM_cons, act_bind] at hrun
      obtain ⟨⟨⟨⟩, c₂⟩, hfirst, hrest⟩ := Option.bind_eq_some_iff.mp hrun
      exact ih (h.moment m hfirst) hrest

theorem Hooked.turn (h : c.Hooked key hooks) {turn : Turn (Moment key hooks)}
    {carried : List Effect}
    (hrun : turn.run budget (Moment.perform budget) c = some (carried, c₁)) :
    c₁.Hooked key hooks := by
  cases turn with
  | now m =>
      rw [Turn.run, act_bind] at hrun
      obtain ⟨⟨⟨⟩, c₂⟩, hm, hend⟩ := Option.bind_eq_some_iff.mp hrun
      obtain ⟨-, rfl⟩ := Prod.mk.inj (Option.some.inj hend)
      exact h.moment m hm
  | frame meanwhile =>
      rw [run_frame] at hrun
      obtain ⟨⟨⟨⟩, c₂⟩, hmeanwhile, hend⟩ := Option.bind_eq_some_iff.mp hrun
      obtain ⟨⟨⟨⟩, c₃⟩, hcallbacks, heq⟩ := Option.map_eq_some_iff.mp hend
      obtain ⟨-, rfl⟩ := Prod.mk.inj heq
      have hstart : (Frame.start c).client.Hooked key hooks := h
      exact (Aside.effects key hooks budget _).hooked (hstart.moments hmeanwhile) hcallbacks

/-- A frame that comes to an end has made all updates and carried out all callbacks. -/
theorem runFrame_spec {outcome : Except ClientError Unit}
    (hrun : ExceptT.run (runFrame budget) c = some (outcome, c₁)) : ∃ failure c₂,
      updateAll budget (Frame.start c).updates (Frame.start c).client = some (failure, c₂) ∧
        carryOut budget (Frame.start c).callbacks c₂ = some ((), c₁) := by
  rw [run_runFrame] at hrun
  obtain ⟨⟨failure, c₃⟩, hresult, heq⟩ := Option.map_eq_some_iff.mp hrun
  obtain ⟨-, rfl⟩ := Prod.mk.inj heq
  obtain ⟨⟨first, c₂⟩, hupdates, hrest⟩ := Option.bind_eq_some_iff.mp hresult
  obtain ⟨⟨answer, c₄⟩, hcallbacks, heq⟩ := Option.map_eq_some_iff.mp hrest
  obtain ⟨-, rfl⟩ := Prod.mk.inj heq
  refine ⟨first, c₂, hupdates, ?_⟩
  rw [carryOut, act_bind, hcallbacks]
  rfl

/-- Every event is a turn, whatever a frame updates. -/
theorem exists_turn (h : c.Hooked key hooks) {event : Event} {carried : List Effect}
    (hrun : event.run budget key c = some (carried, c₁)) :
    ∃ turn : Turn (Moment key hooks), turn.event? = some event ∧
      turn.run budget (Moment.perform budget) c = some (carried, c₁) := by
  cases event with
  | call shown => exact ⟨.now (.call shown), rfl, hrun⟩
  | frame =>
      rw [Event.run, act_bind, act_get] at hrun
      dsimp only [Option.bind_some] at hrun
      rw [act_bind] at hrun
      obtain ⟨⟨outcome, c₂⟩, hframe, hend⟩ := Option.bind_eq_some_iff.mp hrun
      obtain ⟨rfl, rfl⟩ := Prod.mk.inj (Option.some.inj hend)
      obtain ⟨first, c₂, hupdates, hcallbacks⟩ := runFrame_spec hframe
      have hcomes : Comes budget key hooks (Frame.start c).client c₂ :=
        (keptByRenders_comes _).updateAll
          (fun h document => h.elsewhere (fun c => { c with document }) (fun _ _ => rfl)
            fun c => Store.steps_addsWork.refl _)
          (.refl h) hupdates
      obtain ⟨moments, hmoments⟩ := hcomes.moments
      refine ⟨.frame moments, rfl, ?_⟩
      rw [run_frame, hmoments]
      dsimp only [Option.bind_some]
      rw [hcallbacks]
      rfl

/-- Whatever is done in order with an instance is done in turns. -/
theorem exists_turns (h : c.Hooked key hooks) {events : List Event} {carried : List Effect}
    (hrun : inOrder (Event.run budget key) events c = some (carried, c₁)) :
    ∃ turns : List (Turn (Moment key hooks)), turns.map Turn.event? = events.map some ∧
      inOrder (Turn.run budget (Moment.perform budget)) turns c = some (carried, c₁) := by
  induction events generalizing c carried with
  | nil => exact ⟨[], rfl, hrun⟩
  | cons event rest ih =>
      rw [inOrder, act_bind] at hrun
      obtain ⟨⟨first, c₂⟩, hfirst, hrun⟩ := Option.bind_eq_some_iff.mp hrun
      dsimp only at hrun
      rw [act_bind] at hrun
      obtain ⟨⟨others, c₃⟩, hothers, hend⟩ := Option.bind_eq_some_iff.mp hrun
      obtain ⟨rfl, rfl⟩ := Prod.mk.inj (Option.some.inj hend)
      obtain ⟨turn, hturn, hturnrun⟩ := exists_turn h hfirst
      obtain ⟨turns, hturns, hturnsrun⟩ := ih (h.turn hturnrun) hothers
      refine ⟨turn :: turns, ?_, ?_⟩
      · rw [List.map_cons, List.map_cons, hturn, hturns]
      · rw [inOrder, act_bind, hturnrun]
        dsimp only [Option.bind_some]
        rw [act_bind, hturnsrun]
        rfl

end Client

end LiveMarkup
