import LiveMarkup.Proofs.Client.Moments
import Mathlib
set_option autoImplicit false

/-! # The life of an instance

An instance is shown and hidden by renders, which happen between frames and, when the instance is a
part of another one, inside them. What its mount hooks do is planned from the visibility alone
(`Turn.plan`): a call that changes it runs the hooks of one stage at once and leaves those of
another for the next frame, any other call does nothing. The arming of the stages, which is all that
the client keeps of the past, comes to the same (`hooks_alternate`). -/

namespace LiveMarkup

/-! ## Stages of a change -/

namespace Stage

/-- The stage whose hooks run at once when an instance is shown or hidden. -/
def before (shown : Bool) : Stage := if shown then beforeMount else beforeUnmount

/-- The stage whose hooks run on the frame after that. -/
def after (shown : Bool) : Stage := if shown then mounted else unmounted

/-- The hooks of a stage among some hooks, in their order. -/
def among (stage : Stage) (hooks : List (Stage × Effect)) : List Effect :=
  (hooks.filter fun h => h.1 = stage).map Prod.snd

end Stage

/-- What is armed while an instance is visible or not. Before it is shown for the first time the
unmount stages are armed as well. -/
structure Armed.Stands (a : Armed) (visible : Bool) : Prop where
  beforeMount : a.beforeMount = !visible
  mounted : a.mounted = !visible
  unmount : visible = true → a.beforeUnmount = true ∧ a.unmounted = true

theorem Armed.stands_all : Armed.all.Stands false := ⟨rfl, rfl, nofun⟩

/-- A call that repeats the visibility runs nothing and changes nothing. -/
theorem Armed.Stands.transition_self {a : Armed} {visible : Bool} (h : a.Stands visible) :
    a.transition visible = (⟨none, none⟩, a) := by
  obtain ⟨beforeMount, mounted, beforeUnmount, unmounted⟩ := a
  obtain ⟨hbefore, hmounted, hunmount⟩ := h
  dsimp only at hbefore hmounted hunmount
  subst hbefore hmounted
  cases visible with
  | false => rfl
  | true =>
      obtain ⟨rfl, rfl⟩ := hunmount rfl
      rfl

/-- A call that changes the visibility runs the two stages of the change. -/
theorem Armed.Stands.transition_not {a : Armed} {visible : Bool} (h : a.Stands visible) :
    (a.transition !visible).1 = ⟨some (.before !visible), some (.after !visible)⟩ ∧
      (a.transition !visible).2.Stands !visible := by
  obtain ⟨beforeMount, mounted, beforeUnmount, unmounted⟩ := a
  obtain ⟨hbefore, hmounted, hunmount⟩ := h
  dsimp only at hbefore hmounted hunmount
  subst hbefore hmounted
  cases visible with
  | false => exact ⟨rfl, rfl, rfl, fun _ => ⟨rfl, rfl⟩⟩
  | true =>
      obtain ⟨rfl, rfl⟩ := hunmount rfl
      exact ⟨rfl, rfl, rfl, nofun⟩

namespace Client

variable {α β : Type} {key : String} {hooks : List (Stage × Effect)} {a a' a'' : Armed}
  {budget : Nat} {c c' : Client}

/-! ## The plan -/

/-- Something that is done with the hooks of an instance, or aside. -/
inductive Deed (key : String) (hooks : List (Stage × Effect)) where
  | fire (stage : Stage)
  | leave (stage : Stage)
  | aside (aside : Aside key hooks)

namespace Deed

def perform (budget : Nat) : Deed key hooks → Act Unit
  | fire stage => carryOut budget (stage.among hooks)
  | leave stage => modify fun c => { c with store := c.store.defer (.sequence (stage.among hooks)) }
  | aside a => a.act

def fired? : Deed key hooks → Option Stage
  | fire stage => some stage
  | _ => none

def left? : Deed key hooks → Option Stage
  | leave stage => some stage
  | _ => none

/-- The callbacks that some deeds leave for the next frame. -/
def callbacks (deeds : List (Deed key hooks)) : List Effect :=
  (deeds.filterMap left?).map fun stage => .sequence (stage.among hooks)

end Deed

namespace Moment

def call? : Moment key hooks → Option Bool
  | call shown => some shown
  | aside _ => none

/-- What is due at a moment when the instance is visible or not. -/
def deeds (visible : Bool) : Moment key hooks → List (Deed key hooks)
  | call shown => if shown = visible then [] else [.fire (.before shown), .leave (.after shown)]
  | aside a => [.aside a]

/-- Whether the instance is visible after a moment. -/
def next (visible : Bool) : Moment key hooks → Bool
  | call shown => shown
  | aside _ => visible

/-- What is due at some moments, from the visibility alone. -/
def plan : (visible : Bool) → List (Moment key hooks) → List (Deed key hooks)
  | _, [] => []
  | visible, m :: rest => m.deeds visible ++ plan (m.next visible) rest

end Moment

namespace Turn

def parts : Turn α → List α
  | now what => [what]
  | frame meanwhile => meanwhile

/-- What is due in some turns, from the visibility alone. -/
def plan : (visible : Bool) → List (Turn (Moment key hooks)) → List (Turn (Deed key hooks))
  | _, [] => []
  | visible, .now m :: rest =>
    (m.deeds visible).map .now ++ plan (m.next visible) rest
  | visible, .frame meanwhile :: rest =>
    .frame (Moment.plan visible meanwhile) :: plan (meanwhile.foldl Moment.next visible) rest

end Turn

/-- How often the visibility changes in some calls. -/
def changes : (visible : Bool) → List Bool → Nat
  | _, [] => 0
  | visible, shown :: rest => (if shown = visible then 0 else 1) + changes shown rest

/-- A visibility that changes some times. -/
def alternating : (visible : Bool) → Nat → List Bool
  | _, 0 => []
  | visible, n + 1 => (!visible) :: alternating (!visible) n

theorem alternating_changes (visible shown : Bool) (rest : List Bool) :
    alternating visible (changes visible (shown :: rest)) =
      (if shown = visible then [] else [shown]) ++ alternating shown (changes shown rest) := by
  rw [changes]
  split
  · next h => rw [h, Nat.zero_add, List.nil_append]
  · next h =>
    obtain rfl : shown = !visible := by revert h; cases shown <;> cases visible <;> simp
    rw [Nat.add_comm, alternating, List.singleton_append]

/-- The stages of a plan alternate, starting with a change of the visibility. -/
theorem Moment.stages_plan (visible : Bool) (moments : List (Moment key hooks)) :
    (plan visible moments).filterMap Deed.fired? =
        (alternating visible (changes visible (moments.filterMap call?))).map Stage.before ∧
      (plan visible moments).filterMap Deed.left? =
        (alternating visible (changes visible (moments.filterMap call?))).map Stage.after := by
  induction moments generalizing visible with
  | nil => exact ⟨rfl, rfl⟩
  | cons m rest ih =>
      cases m with
      | aside a => exact ih visible
      | call shown =>
          obtain ⟨hfired, hleft⟩ := ih shown
          have hcalls : (call shown :: rest).filterMap call? = shown :: rest.filterMap call? := rfl
          rw [hcalls, alternating_changes, List.map_append, List.map_append, ← hfired, ← hleft,
            plan, List.filterMap_append, List.filterMap_append, deeds]
          split <;> exact ⟨rfl, rfl⟩

theorem Moment.plan_append (visible : Bool) (moments more : List (Moment key hooks)) :
    plan visible (moments ++ more) =
      plan visible moments ++ plan (moments.foldl next visible) more := by
  induction moments generalizing visible with
  | nil => rfl
  | cons m rest ih => rw [List.cons_append, plan, ih, plan, List.append_assoc, List.foldl_cons]

theorem Turn.plan_cons (visible : Bool) (turn : Turn (Moment key hooks))
    (rest : List (Turn (Moment key hooks))) : plan visible (turn :: rest) =
      plan visible [turn] ++ plan (turn.parts.foldl Moment.next visible) rest := by
  cases turn <;> simp [plan, parts]

/-- What is due in turns is what is due at the moments in them. -/
theorem Turn.parts_plan (visible : Bool) (turns : List (Turn (Moment key hooks))) :
    (plan visible turns).flatMap parts = Moment.plan visible (turns.flatMap parts) := by
  induction turns generalizing visible with
  | nil => rfl
  | cons turn rest ih =>
      cases turn with
      | now m =>
          have hnow (deeds : List (Deed key hooks)) :
              (deeds.map Turn.now).flatMap parts = deeds := by
            rw [List.flatMap_map]
            exact List.flatMap_singleton' deeds
          rw [plan, List.flatMap_append, hnow, ih]
          rfl
      | frame meanwhile =>
          rw [plan, List.flatMap_cons, ih, List.flatMap_cons, Moment.plan_append]
          rfl

/-! ## Carrying out the plan -/

/-- One act does with the stages of an instance armed what another act does, and leaves them armed
in perhaps another way. -/
def Tracks (key : String) (hooks : List (Stage × Effect)) (a a' : Armed) (x y : Act β) : Prop :=
  ∀ c : Client, c.Hooked key hooks →
    x (c.arm key a) = (y c).map (fun (b, c') => (b, c'.arm key a')) ∧
      ∀ b c', y c = some (b, c') → c'.Hooked key hooks

theorem tracks_pure (b : β) : Tracks key hooks a a (pure b : Act β) (pure b) := by
  refine fun c h => ⟨rfl, ?_⟩
  rintro _ _ ⟨⟩
  exact h

theorem Tracks.bind {x y : Act α} {f g : α → Act β} (h : Tracks key hooks a a' x y)
    (hf : ∀ b, Tracks key hooks a' a'' (f b) (g b)) :
    Tracks key hooks a a'' (x >>= f) (y >>= g) := by
  intro c hc
  obtain ⟨hx, hhooked⟩ := h c hc
  rw [act_bind, act_bind, hx]
  cases hy : y c with
  | none => exact ⟨rfl, nofun⟩
  | some outcome => exact hf outcome.1 outcome.2 (hhooked _ _ hy)

theorem tracks_aside (aside : Aside key hooks) : Tracks key hooks a a aside.act aside.act :=
  fun _ h => ⟨aside.armed h, fun _ _ hrun => aside.hooked h hrun⟩

theorem tracks_carryOut (budget : Nat) (effects : List Effect) :
    Tracks key hooks a a (carryOut budget effects) (carryOut budget effects) :=
  tracks_aside (.effects key hooks budget effects)

/-- Changes of the store alone do not depend on what is armed. -/
theorem tracks_store (f : Store → β × Store) : Tracks key hooks a a
    (modifyGet fun c => ((f c.store).1, { c with store := (f c.store).2 }))
    (modifyGet fun c => ((f c.store).1, { c with store := (f c.store).2 })) := by
  intro c h
  refine ⟨?_, ?_⟩
  · show some (_, _) = some (_, arm { c with store := (f c.store).2 } key a)
    rw [arm_withStore c key a (f c.store).2, store_arm]
  · rintro _ _ ⟨⟩
    exact h

theorem tracks_fire (stage : Stage) :
    Tracks key hooks a a (fire budget key stage)
      (Deed.perform budget (.fire stage : Deed key hooks)) := by
  intro c h
  obtain ⟨i, hi, rfl⟩ := id h
  obtain ⟨hcarry, hhooked⟩ := tracks_carryOut budget (stage.among i.hooks) (a := a) c h
  refine ⟨Eq.trans ?_ hcarry, hhooked⟩
  unfold fire
  rw [act_bind, act_get]
  dsimp only [Option.bind_some]
  rw [instance?_arm hi]
  rfl

theorem tracks_fireLater {stage : Stage} (hsome : stage.among hooks ≠ []) :
    Tracks key hooks a a (fireLater key stage)
      (Deed.perform budget (.leave stage : Deed key hooks)) := by
  intro c h
  obtain ⟨i, hi, rfl⟩ := id h
  let defer (s : Store) : Unit × Store := ((), s.defer (.sequence (stage.among i.hooks)))
  obtain ⟨hleave, hhooked⟩ := tracks_store defer (a := a) c h
  refine ⟨Eq.trans ?_ hleave, hhooked⟩
  unfold fireLater
  rw [act_bind, act_get]
  dsimp only [Option.bind_some]
  rw [instance?_arm hi]
  have hsome : (stage.among i.hooks).isEmpty = false := by simpa using hsome
  show (if !(stage.among i.hooks).isEmpty then _ else _ : Act Unit) _ = _
  rw [hsome]
  rfl

/-- Showing and hiding first arms the stages anew and then runs the hooks. -/
theorem transition_arm (h : c.Hooked key hooks) (shown : Bool) :
    transition budget key shown (c.arm key a) =
      (do
        if let some stage := (a.transition shown).1.now then fire budget key stage
        if let some stage := (a.transition shown).1.later then fireLater key stage : Act Unit)
        (c.arm key (a.transition shown).2) := by
  obtain ⟨i, hi, -⟩ := h
  unfold transition
  rw [act_bind, act_get]
  dsimp only [Option.bind_some]
  rw [instance?_arm hi]
  dsimp only
  rw [act_bind, act_modify]
  dsimp only [Option.bind_some]
  exact arm_arm c key a (a.transition shown).2 ▸ rfl

/-- Showing and hiding does what is due. -/
theorem tracks_transition (hsome : ∀ shown, (Stage.after shown).among hooks ≠ []) {visible : Bool}
    (ha : a.Stands visible) (shown : Bool) : ∃ a', a'.Stands shown ∧
      Tracks key hooks a a' (transition budget key shown)
        (forM ((Moment.call shown : Moment key hooks).deeds visible) (Deed.perform budget)) := by
  by_cases hsame : shown = visible
  · subst hsame
    refine ⟨a, ha, fun c h => ?_⟩
    rw [transition_arm h, ha.transition_self, Moment.deeds, if_pos rfl]
    exact tracks_pure () c h
  · obtain rfl : shown = !visible := by revert hsame; cases shown <;> cases visible <;> simp
    obtain ⟨hfiring, ha'⟩ := ha.transition_not
    refine ⟨_, ha', fun c h => ?_⟩
    rw [transition_arm h, hfiring, Moment.deeds, if_neg hsame, List.forM_cons, List.forM_cons,
      List.forM_nil, bind_pure_unit]
    exact (tracks_fire _).bind (fun _ => tracks_fireLater (hsome _)) c h

theorem tracks_moment (budget : Nat) (hsome : ∀ shown, (Stage.after shown).among hooks ≠ [])
    {visible : Bool} (ha : a.Stands visible) (m : Moment key hooks) :
    ∃ a', a'.Stands (m.next visible) ∧
      Tracks key hooks a a' (m.perform budget) (forM (m.deeds visible) (Deed.perform budget)) := by
  cases m with
  | call shown => exact tracks_transition hsome ha shown
  | aside aside =>
      refine ⟨a, ha, ?_⟩
      rw [Moment.deeds, List.forM_cons, List.forM_nil, bind_pure_unit]
      exact tracks_aside aside

/-- At every moment is done what is due. -/
theorem tracks_moments (budget : Nat) (hsome : ∀ shown, (Stage.after shown).among hooks ≠ [])
    {visible : Bool} (ha : a.Stands visible) (moments : List (Moment key hooks)) :
    ∃ a', a'.Stands (moments.foldl Moment.next visible) ∧
      Tracks key hooks a a' (forM moments (Moment.perform budget))
        (forM (Moment.plan visible moments) (Deed.perform budget)) := by
  induction moments generalizing visible a with
  | nil => exact ⟨a, ha, tracks_pure ()⟩
  | cons m rest ih =>
      obtain ⟨a₁, ha₁, hfirst⟩ := tracks_moment budget hsome ha m
      obtain ⟨a₂, ha₂, hrest⟩ := ih ha₁
      refine ⟨a₂, ha₂, ?_⟩
      rw [List.forM_cons, Moment.plan, List.forM_append]
      exact hfirst.bind fun _ => hrest

theorem inOrder_append (run : α → Act (List Effect)) (parts more : List α) :
    inOrder run (parts ++ more) = do
      let carried ← inOrder run parts
      let others ← inOrder run more
      return carried ++ others := by
  induction parts with
  | nil => simp [inOrder]
  | cons part rest ih =>
      rw [List.cons_append, inOrder, ih, inOrder]
      simp only [bind_assoc, pure_bind, List.append_assoc]

/-- Turns between frames carry out no callbacks. -/
theorem inOrder_now (step : α → Act Unit) (parts : List α) :
    inOrder (Turn.run budget step) (parts.map .now) = do
      forM parts step
      return [] := by
  induction parts with
  | nil => simp [inOrder]
  | cons part rest ih => simp [inOrder, Turn.run, ih]

theorem inOrder_singleton (run : α → Act (List Effect)) (part : α) :
    inOrder run [part] = run part := by
  simp [inOrder]

theorem tracks_turn (budget : Nat) (hsome : ∀ shown, (Stage.after shown).among hooks ≠ [])
    {visible : Bool} (ha : a.Stands visible) (turn : Turn (Moment key hooks)) :
    ∃ a', a'.Stands (turn.parts.foldl Moment.next visible) ∧
      Tracks key hooks a a' (turn.run budget (Moment.perform budget))
        (inOrder (Turn.run budget (Deed.perform budget)) (Turn.plan visible [turn])) := by
  cases turn with
  | now m =>
      obtain ⟨a', ha', hm⟩ := tracks_moment budget hsome ha m
      refine ⟨a', ha', ?_⟩
      rw [Turn.plan, Turn.plan, List.append_nil, inOrder_now]
      exact hm.bind fun _ => tracks_pure []
  | frame meanwhile =>
      obtain ⟨a', ha', hmeanwhile⟩ := tracks_moments budget hsome ha meanwhile
      refine ⟨a', ha', ?_⟩
      rw [Turn.plan, Turn.plan, inOrder_singleton]
      refine (tracks_store Store.takeFrame).bind fun work => hmeanwhile.bind fun _ => ?_
      exact (tracks_carryOut budget work.deferred).bind fun _ => tracks_pure work.deferred

/-- In every turn is done what is due. -/
theorem tracks_turns (budget : Nat) (hsome : ∀ shown, (Stage.after shown).among hooks ≠ [])
    {visible : Bool} (ha : a.Stands visible) (turns : List (Turn (Moment key hooks))) :
    ∃ a', a'.Stands ((turns.flatMap Turn.parts).foldl Moment.next visible) ∧
      Tracks key hooks a a' (inOrder (Turn.run budget (Moment.perform budget)) turns)
        (inOrder (Turn.run budget (Deed.perform budget)) (Turn.plan visible turns)) := by
  induction turns generalizing visible a with
  | nil => exact ⟨a, ha, tracks_pure []⟩
  | cons turn rest ih =>
      obtain ⟨a₁, ha₁, hturn⟩ := tracks_turn budget hsome ha turn
      obtain ⟨a₂, ha₂, hrest⟩ := ih ha₁
      refine ⟨a₂, ?_, ?_⟩
      · rw [List.flatMap_cons, List.foldl_append]
        exact ha₂
      · rw [Turn.plan_cons, inOrder_append, inOrder]
        exact hturn.bind fun carried => hrest.bind fun others => tracks_pure _

/-! ## The order of the callbacks -/

/-- An act that carries out callbacks from the front of the queue and leaves others behind what is
in it, among them the given ones in their order. -/
def Passes (left : List Effect) (x : Act (List Effect)) : Prop :=
  ∀ c carried c', x c = some (carried, c') → ∃ came,
    carried ++ c'.store.queue.deferred = c.store.queue.deferred ++ came ∧ left.Sublist came

theorem Passes.bind {left left' : List Effect} {x y : Act (List Effect)} (hx : Passes left x)
    (hy : Passes left' y) : Passes (left ++ left') (do
      let carried ← x
      let others ← y
      return carried ++ others) := by
  intro c carried c' h
  rw [act_bind] at h
  obtain ⟨⟨first, c₁⟩, hfirst, h⟩ := Option.bind_eq_some_iff.mp h
  dsimp only at h
  rw [act_bind] at h
  obtain ⟨⟨others, c₂⟩, hothers, h⟩ := Option.bind_eq_some_iff.mp h
  obtain ⟨rfl, rfl⟩ := Prod.mk.inj (Option.some.inj h)
  obtain ⟨came, hcame, hleft⟩ := hx c first c₁ hfirst
  obtain ⟨came', hcame', hleft'⟩ := hy c₁ others c₂ hothers
  refine ⟨came ++ came', ?_, hleft.append hleft'⟩
  calc first ++ others ++ c₂.store.queue.deferred
      = first ++ (others ++ c₂.store.queue.deferred) := List.append_assoc ..
    _ = first ++ (c₁.store.queue.deferred ++ came') := by rw [hcame']
    _ = c.store.queue.deferred ++ (came ++ came') := by
          rw [← List.append_assoc, hcame, List.append_assoc]

/-- What is done aside leaves no callback of the instance. -/
theorem passes_aside (aside : Aside key hooks) : Passes [] (do aside.act; return []) := by
  intro c carried c' h
  rw [act_bind] at h
  obtain ⟨⟨⟨⟩, c₁⟩, hrun, h⟩ := Option.bind_eq_some_iff.mp h
  obtain ⟨rfl, rfl⟩ := Prod.mk.inj (Option.some.inj h)
  obtain ⟨came, hcame⟩ := (aside.work hrun).deferred
  exact ⟨came, hcame, List.nil_sublist came⟩

theorem passes_deed (budget : Nat) (d : Deed key hooks) :
    Passes (Deed.callbacks [d]) (do d.perform budget; return []) := by
  cases d with
  | fire stage => exact passes_aside (.effects key hooks budget (stage.among hooks))
  | aside aside => exact passes_aside aside
  | leave stage =>
      rintro c _ _ ⟨⟩
      exact ⟨[.sequence (stage.among hooks)], rfl, .refl _⟩

theorem passes_deeds (budget : Nat) (deeds : List (Deed key hooks)) :
    Passes (Deed.callbacks deeds) (do forM deeds (Deed.perform budget); return []) := by
  induction deeds with
  | nil =>
      rintro c _ _ ⟨⟩
      exact ⟨[], (List.append_nil _).symm, .refl _⟩
  | cons d rest ih =>
      have hboth := (passes_deed budget d).bind ih
      have hcallbacks : Deed.callbacks (d :: rest) = Deed.callbacks [d] ++ Deed.callbacks rest := by
        cases d <;> rfl
      rw [hcallbacks, List.forM_cons]
      simpa only [bind_assoc, pure_bind, List.nil_append] using hboth

theorem passes_turn (turn : Turn (Deed key hooks)) :
    Passes (Deed.callbacks turn.parts) (turn.run budget (Deed.perform budget)) := by
  cases turn with
  | now d => exact passes_deed budget d
  | frame meanwhile =>
      -- the queue is empty once its work is taken, so all that is in it at the end came meanwhile
      intro c carried c' h
      rw [run_frame] at h
      obtain ⟨⟨⟨⟩, c₁⟩, hmeanwhile, h⟩ := Option.bind_eq_some_iff.mp h
      obtain ⟨⟨⟨⟩, c₂⟩, hcallbacks, heq⟩ := Option.map_eq_some_iff.mp h
      obtain ⟨rfl, rfl⟩ := Prod.mk.inj heq
      have hdeeds : (do forM meanwhile (Deed.perform budget); return []) (Frame.start c).client =
          some (([] : List Effect), c₁) := by
        rw [act_bind, hmeanwhile]
        rfl
      obtain ⟨came, hcame, hleft⟩ := passes_deeds budget meanwhile _ [] c₁ hdeeds
      obtain ⟨came', hcame'⟩ := ((Aside.effects key hooks budget _).work hcallbacks).deferred
      refine ⟨came ++ came', ?_, hleft.trans (List.sublist_append_left ..)⟩
      rw [hcame', show c₁.store.queue.deferred = came from hcame]
      rfl

theorem passes_turns (turns : List (Turn (Deed key hooks))) :
    Passes (Deed.callbacks (turns.flatMap Turn.parts))
      (inOrder (Turn.run budget (Deed.perform budget)) turns) := by
  induction turns with
  | nil => exact passes_deeds 0 ([] : List (Deed key hooks))
  | cons turn rest ih =>
      have hcallbacks : Deed.callbacks ((turn :: rest).flatMap Turn.parts) =
          Deed.callbacks turn.parts ++ Deed.callbacks (rest.flatMap Turn.parts) := by
        rw [List.flatMap_cons, Deed.callbacks, List.filterMap_append, List.map_append]
        rfl
      rw [hcallbacks, inOrder]
      exact (passes_turn turn).bind ih

/-- Lifecycle hooks alternate. An instance that is not visible yet, with hooks to run after a
change, is shown and hidden in any order, between frames and inside them. Then the hooks of one
stage run at once at each change of the visibility, before-mount hooks at the first, and those of
another are left for the next frame; other calls do nothing (`Moment.deeds`). Nothing of the
instance has changed by that but what is armed. The callbacks that were left are carried out in
their order by the frames that follow. Calls and frames of the client, whatever is pending in them
and whether they fail or not, are turns of this kind. -/
theorem hooks_alternate (budget : Nat) {key : String} {i : Instance} {c : Client}
    (hi : c.instance? key = some i) (harmed : i.armed = .all)
    (hhooks : ∀ shown, i.hooksFor (.after shown) ≠ []) :
    (∀ turns : List (Turn (Moment key i.hooks)),
      let moments := turns.flatMap Turn.parts
      let shows := alternating false (changes false (moments.filterMap Moment.call?))
      let deeds := Turn.plan false turns
      deeds.flatMap Turn.parts = Moment.plan false moments ∧
      (deeds.flatMap Turn.parts).filterMap Deed.fired? = shows.map Stage.before ∧
      (deeds.flatMap Turn.parts).filterMap Deed.left? = shows.map Stage.after ∧
      (∃ armed : Armed, armed.Stands (moments.foldl Moment.next false) ∧
        inOrder (Turn.run budget (Moment.perform budget)) turns c =
          (inOrder (Turn.run budget (Deed.perform budget)) deeds c).map fun (carried, c') =>
            (carried, c'.arm key armed)) ∧
      ∀ carried c', inOrder (Turn.run budget (Moment.perform budget)) turns c =
          some (carried, c') →
        ∃ came, carried ++ c'.store.queue.deferred = c.store.queue.deferred ++ came ∧
          (shows.map fun shown => Effect.sequence (i.hooksFor (.after shown))).Sublist came) ∧
    ∀ (events : List Event) carried c',
      inOrder (Event.run budget key) events c = some (carried, c') →
      ∃ turns : List (Turn (Moment key i.hooks)), turns.map Turn.event? = events.map some ∧
        inOrder (Turn.run budget (Moment.perform budget)) turns c = some (carried, c') := by
  refine ⟨?_, fun events carried c' hrun => exists_turns ⟨i, hi, rfl⟩ hrun⟩
  intro turns moments shows deeds
  have hparts : deeds.flatMap Turn.parts = Moment.plan false moments := Turn.parts_plan false turns
  obtain ⟨hfired, hleft⟩ := Moment.stages_plan false moments
  obtain ⟨armed, hstands, htracks⟩ := tracks_turns budget hhooks Armed.stands_all turns
  have hrun := (htracks c ⟨i, hi, rfl⟩).1
  rw [← harmed, arm_self hi] at hrun
  refine ⟨hparts, hparts ▸ hfired, hparts ▸ hleft, ⟨armed, hstands, hrun⟩, fun carried c' h => ?_⟩
  rw [hrun] at h
  obtain ⟨⟨carried', c₁⟩, hdeeds, heq⟩ := Option.map_eq_some_iff.mp h
  obtain ⟨rfl, rfl⟩ := Prod.mk.inj heq
  obtain ⟨came, hcame, hcallbacks⟩ := passes_turns deeds c carried' c₁ hdeeds
  refine ⟨came, ?_, ?_⟩
  · rw [store_arm]
    exact hcame
  · rw [Deed.callbacks, hparts, hleft, List.map_map] at hcallbacks
    exact hcallbacks

namespace Lifecycle

/-- A hook that leaves the name of its stage in the journal. -/
def noting (stage : Stage) : Stage × Effect := (stage, .note [.str stage.name] .finish)

/-- A tip with a hook for every stage, as its setup made it. -/
def tip : Instance :=
  { Instance.create ⟨"tip", ⟨"tip", "<i>tip</i>", ⟨[.text "<i>tip</i>"]⟩⟩, none⟩ "tip" .null with
    hooks := Stage.all.map noting }

def client : Client :=
  { create (.parse "") .braces with instances := [("tip", tip)] }

/-- The tip is hidden before it is shown, shown twice, hidden while a frame updates the page, and
shown again after the next frame. -/
def turns : List (Turn (Moment "tip" tip.hooks)) :=
  [.now (.call false), .now (.call true), .now (.call true),
    .frame [.call false, .aside (.effects _ _ 1 [.note [.str "other"] .finish])], .frame [],
    .now (.call true)]

/-- The hooks of the tip run in turn, and those of the last change wait for a frame. -/
theorem hooks_alternate_tip :
    (∃ carried c', inOrder (Turn.run 1 (Moment.perform 1)) turns client = some (carried, c') ∧
      c'.store.journal = #[[.str "BeforeMount"], [.str "BeforeUnmount"], [.str "other"],
        [.str "Mounted"], [.str "Unmounted"], [.str "BeforeMount"]] ∧
      carried.length = 2 ∧ c'.store.queue.deferred.length = 1 ∧
      alternating false (changes false ((turns.flatMap Turn.parts).filterMap Moment.call?)) =
        [true, false, true] ∧
      ∃ came, carried ++ c'.store.queue.deferred = client.store.queue.deferred ++ came ∧
        ([true, false, true].map fun shown =>
          Effect.sequence (tip.hooksFor (.after shown))).Sublist came) ∧
    ∃ carried c', inOrder (Event.run 1 "tip") [.call true, .frame, .call false, .frame] client =
        some (carried, c') ∧
      c'.store.journal = #[[.str "BeforeMount"], [.str "Mounted"], [.str "BeforeUnmount"],
        [.str "Unmounted"]] ∧
      ∃ turns : List (Turn (Moment "tip" tip.hooks)),
        turns.map Turn.event? = [.call true, .frame, .call false, .frame].map some ∧
        inOrder (Turn.run 1 (Moment.perform 1)) turns client = some (carried, c') := by
  have hhooks : ∀ shown, tip.hooksFor (.after shown) ≠ [] := by decide
  have htip : client.instance? "tip" = some tip := rfl
  obtain ⟨halternate, hevents⟩ := hooks_alternate 1 htip rfl hhooks
  refine ⟨?_, _, _, by cbv, rfl, hevents _ _ _ (by cbv)⟩
  obtain ⟨-, -, -, -, hcallbacks⟩ := halternate turns
  exact ⟨_, _, by cbv, rfl, rfl, rfl, by decide, hcallbacks _ _ (by cbv)⟩

end Lifecycle

end Client

end LiveMarkup
