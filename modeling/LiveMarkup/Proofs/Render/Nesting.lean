import LiveMarkup.Proofs.Render.Tandem
set_option autoImplicit false

/-! # The depth counter of a render

A render counts how deep components render components. The counter is raised before an instance is
rendered and put back afterwards, whatever came of the render; where it has reached the limit an
occurrence is refused. Elsewhere a render is told how many levels remain to it, so that nothing has
to be put back. Here the counter is a part of the world (`Counted`) that is read and written where
the render gets to it, and every call that renders an occurrence is noted with what the counter
showed (`ChildCall`).

With the counter an occurrence comes to what it comes to with the levels that remain, and the
counter is exact (`tandem_occurrence`, `tandem_children`): at every call it shows how many of the
calls around it are rendering an instance. -/

namespace LiveMarkup

/-! ## Calls -/

/-- A call that rendered a component occurrence, as it looks from outside. The counter is read when
the call is made and when it has returned. -/
structure ChildCall where
  name : String
  /-- Whether there was a component to render. -/
  found : Bool
  visible : Bool
  before : Nat
  /-- The calls that were made while it was rendering an instance, if it did. -/
  rendered : Option (List ChildCall)
  after : Nat
  result : Except EvalError Value

/-- The failure of an occurrence that is nested too deep. -/
def tooDeep (limit : Nat) (name : String) : EvalError :=
  .custom ("component nesting deeper than " ++ toString limit ++ " levels at " ++ name)

namespace ChildCall

/-- A call is among some calls or inside them, and `n` of the calls around it were rendering an
instance when it was made. -/
inductive Within : Nat → ChildCall → List ChildCall → Prop
  | here {call : ChildCall} {calls : List ChildCall} : call ∈ calls → Within 0 call calls
  | inside {n : Nat} {call parent : ChildCall} {calls inner : List ChildCall} : parent ∈ calls →
      parent.rendered = some inner → Within n call inner → Within (n + 1) call calls

/-- The call was itself nested too deep: this is how it failed, and it did not get it from an
instance that it rendered. -/
def Refused (limit : Nat) (call : ChildCall) : Prop :=
  call.result = .error (tooDeep limit call.name) ∧ call.rendered = none

/-- At a call on some level the counter showed this level, and it did so again when the call had
returned. If there was a component, the call was refused exactly if it was visible and the level had
reached the limit. -/
structure Exact (limit level : Nat) (call : ChildCall) : Prop where
  before : call.before = level
  after : call.after = call.before
  refused : call.found = true → (call.Refused limit ↔ call.visible = true ∧ limit ≤ level)

theorem within_append_iff {n : Nat} {call : ChildCall} {calls calls' : List ChildCall} :
    Within n call (calls ++ calls') ↔ Within n call calls ∨ Within n call calls' := by
  constructor
  · rintro (hmem | ⟨hmem, hinner, hwithin⟩)
    · exact (List.mem_append.mp hmem).imp .here .here
    · exact (List.mem_append.mp hmem).imp (.inside · hinner hwithin) (.inside · hinner hwithin)
  · rintro (h | h) <;> obtain hmem | ⟨hmem, hinner, hwithin⟩ := h
    · exact .here (List.mem_append_left _ hmem)
    · exact .inside (List.mem_append_left _ hmem) hinner hwithin
    · exact .here (List.mem_append_right _ hmem)
    · exact .inside (List.mem_append_right _ hmem) hinner hwithin

/-- The counter was exact at calls on some level and at all calls inside them. -/
def AllExact (limit level : Nat) (calls : List ChildCall) : Prop :=
  ∀ n call, Within n call calls → call.Exact limit (level + n)

theorem allExact_nil (limit level : Nat) : AllExact limit level [] := by
  rintro n call (hmem | ⟨hmem, -, -⟩)
  · exact absurd hmem List.not_mem_nil
  · exact absurd hmem List.not_mem_nil

theorem AllExact.append {limit level : Nat} {calls calls' : List ChildCall}
    (h : AllExact limit level calls) (h' : AllExact limit level calls') :
    AllExact limit level (calls ++ calls') :=
  fun n call hwithin => (within_append_iff.mp hwithin).elim (h n call) (h' n call)

/-- The calls inside a call are one level deeper. -/
theorem allExact_singleton {limit level : Nat} {call : ChildCall} (h : call.Exact limit level)
    (hinner : ∀ inner, call.rendered = some inner → AllExact limit (level + 1) inner) :
    AllExact limit level [call] := by
  rintro n other (hmem | ⟨hmem, hrendered, hwithin⟩)
  · obtain rfl := List.mem_singleton.mp hmem
    exact h
  · obtain rfl := List.mem_singleton.mp hmem
    have hother := hinner _ hrendered _ _ hwithin
    rwa [Nat.add_assoc, Nat.add_comm 1] at hother

end ChildCall

/-! ## Renders with the counter -/

/-- How the occurrences in a template are rendered. -/
abbrev Children (σ : Type) := String → Value → Bool → Run σ Value

/-- A world with the counter of a render. What is noted of the calls is read by nobody. -/
structure Counted (σ : Type) where
  world : σ
  depth : Nat
  /-- The calls made so far by the template that is being rendered. -/
  calls : List ChildCall
  /-- The calls made by the instance that the present call has rendered, once it has. -/
  rendered : Option (List ChildCall)

namespace Counted

section

variable {σ α ι : Type}

/-- Every render from outside starts with a counter of its own. -/
def start (world : σ) : Counted σ := ⟨world, 0, [], none⟩

/-- Something that has nothing to do with the counter. -/
def lift (x : StateT σ Option α) : StateT (Counted σ) Option α := fun s =>
  (x s.world).map fun (a, world) => (a, { s with world })

def liftRun (x : Run σ α) : Run (Counted σ) α := ExceptT.mk (lift (ExceptT.run x))

/-- Notes a call, however it ends. -/
def noted (name : String) (found : σ → Bool) (visible : Bool) (x : Run (Counted σ) Value) :
    Run (Counted σ) Value :=
  ExceptT.mk fun s => (x.start { s with rendered := none }).map fun (result, s') =>
    (result, { s' with
      calls := s'.calls ++
        [⟨name, found s.world, visible, s.depth, s'.rendered, s'.depth, result⟩]
      rendered := s.rendered })

/-- Notes that the present call renders an instance, which makes the calls meanwhile. -/
def rendering (x : Run (Counted σ) α) : Run (Counted σ) α :=
  ExceptT.mk fun s => (x.start { s with calls := [] }).map fun (result, s') =>
    (result, { s' with calls := s.calls, rendered := some s'.calls })

def setDepth (depth : Nat) : Run (Counted σ) Unit := Run.update fun s => ((), { s with depth })

/-- Renders an instance one level deeper, unless the counter has reached the limit. The counter is
put back before the result of the render is looked at. -/
def descend (limit : Nat) (name : String) (x : Run (Counted σ) α) : Run (Counted σ) α := do
  let depth := (← get).depth
  if limit ≤ depth then .failed (tooDeep limit name)
  else do
    setDepth (depth + 1)
    let result ← (rendering x).attempt
    setDepth depth
    Run.ofExcept result

/-- Renders an occurrence with the counter. `prepare` comes to what is to be rendered, if anything
is. -/
def occurrence (limit : Nat) (name : String) (found : σ → Bool) (visible : Bool)
    (prepare : Run σ (Option ι)) (render : ι → Run (Counted σ) Value) : Run (Counted σ) Value :=
  noted name found visible do
    match ← liftRun prepare with
    | none => return .markup ""
    | some i => descend limit name (render i)

end

end Counted

/-- The services of a render in a world with a counter, where occurrences are rendered by
`child`. -/
def RenderCall.counted {σ : Type} (c : RenderCall σ) (child : Children (Counted σ)) :
    RenderCall (Counted σ) where
  host := {
    fresh := fun s => let (i, world) := c.host.fresh s.world; (i, { s with world })
    call := fun f args => Counted.liftRun (c.host.call f args) }
  data := c.data
  instanceKey := c.instanceKey
  hostProps := c.hostProps.map Counted.liftRun
  isServer := c.isServer
  visible := c.visible
  block := fun name args => Counted.liftRun (c.block name args)
  child := child

/-! ## Renders without the counter -/

namespace Run

variable {σ ι : Type}

/-- Renders what an occurrence shows, unless no level remains. -/
def shown (limit : Nat) (name : String) (inner : Option (ι → Run σ Value)) (i : ι) : Run σ Value :=
  match inner with
  | none => .failed (tooDeep limit name)
  | some render => render i

/-- Renders an occurrence without the counter. -/
def occurrence (limit : Nat) (name : String) (prepare : Run σ (Option ι))
    (inner : Option (ι → Run σ Value)) : Run σ Value := do
  match ← prepare with
  | none => return .markup ""
  | some i => shown limit name inner i

end Run

/-! ## Computations that do not fail -/

section

variable {σ τ α β : Type} {P : α → Prop} {Q : β → Prop}

/-- If there is an outcome, it is a result with a property. -/
def SucceedsAt (P : α → Prop) (x : Option (Except EvalError α × σ)) : Prop :=
  ∀ outcome s, x = some (outcome, s) → ∃ a, outcome = .ok a ∧ P a

theorem SucceedsAt.some {a : α} {s : σ} (h : P a) :
    SucceedsAt P (some ((.ok a : Except EvalError α), s)) := by
  rintro _ _ ⟨⟩
  exact ⟨a, rfl, h⟩

def Succeeds (P : α → Prop) (x : Run σ α) : Prop := ∀ s, SucceedsAt P (ExceptT.run x s)

namespace Succeeds

theorem pure {a : α} (h : P a) : Succeeds P (Pure.pure a : Run σ α) := fun _ => .some h

theorem update (f : σ → α × σ) : Succeeds (fun _ => True) (Run.update f) := fun _ => .some trivial

theorem bind {x : Run σ α} {f : α → Run σ β} (hx : Succeeds P x)
    (hf : ∀ a, P a → Succeeds Q (f a)) : Succeeds Q (x >>= f) := by
  intro s outcome s' h
  rw [run_bind] at h
  cases hrun : ExceptT.run x s with
  | none =>
      rw [hrun] at h
      cases h
  | some step =>
      obtain ⟨result, s₁⟩ := step
      obtain ⟨a, rfl, ha⟩ := hx s result s₁ hrun
      rw [hrun] at h
      exact hf a ha s₁ outcome s' h

theorem within {x : Run τ α} (h : Succeeds P x) {part : σ → τ} {put : τ → σ → σ} :
    Succeeds P (Run.within part put x) := by
  intro s outcome s' hrun
  obtain ⟨⟨result, t⟩, hx, heq⟩ := Option.map_eq_some_iff.mp hrun
  obtain rfl : result = outcome := congrArg Prod.fst heq
  exact h _ _ _ hx

/-- A failure that is handed on as a result is no failure. -/
theorem failure? (x : Run σ α) : Succeeds (fun _ => True) x.failure? := by
  have hattempt : Succeeds (fun _ => True) x.attempt := by
    intro s outcome s' h
    obtain ⟨⟨result, s₁⟩, -, heq⟩ := Option.map_eq_some_iff.mp h
    exact ⟨result, congrArg Prod.fst heq.symm, trivial⟩
  refine hattempt.bind fun result _ => ?_
  cases result with
  | ok _ => exact .pure trivial
  | error e => exact .pure trivial

end Succeeds

end

/-! ## Steps -/

/-- Computations in tandem whose failures are handed on as results. -/
theorem Tandem.handedOn {σ τ ε δ α : Type} {endless : Prop} {R : σ → τ → Prop}
    {x : ExceptT ε (StateT σ Option) α} {y : ExceptT ε (StateT τ Option) α}
    (h : Tandem endless R x y) :
    Tandem endless R (liftM (ExceptT.run x) : ExceptT δ (StateT σ Option) (Except ε α))
      (liftM (ExceptT.run y) : ExceptT δ (StateT τ Option) (Except ε α)) := by
  intro s t hst
  rw [run_lift, run_lift]
  exact (h s t hst).map fun _ _ _ hworlds => ⟨rfl, hworlds⟩

namespace Counted

section

variable {σ α : Type} {limit level : Nat}

/-- A world with the counter beside the world without it, while a template on some level is
rendered. -/
structure AtLevel (limit level : Nat) (s : Counted σ) (t : σ) : Prop where
  world : s.world = t
  depth : s.depth = level
  calls : ChildCall.AllExact limit level s.calls

theorem atLevel_start (limit : Nat) (world : σ) : AtLevel limit 0 (start world) world :=
  ⟨rfl, rfl, ChildCall.allExact_nil limit 0⟩

theorem run_liftRun (x : Run σ α) (s : Counted σ) : ExceptT.run (liftRun x) s =
    (ExceptT.run x s.world).map fun (result, world) => (result, { s with world }) := rfl

theorem tandemAt_lift (x : StateT σ Option α) {s : Counted σ} {t : σ}
    (h : AtLevel limit level s t) : TandemAt True (AtLevel limit level) (lift x s) (x t) := by
  unfold lift
  rw [h.world]
  cases x t with
  | none => exact .inl ⟨trivial, rfl, rfl⟩
  | some outcome => exact .some { h with world := rfl }

theorem tandem_liftRun (x : Run σ α) : Tandem True (AtLevel limit level) (liftRun x) x :=
  fun _ _ h => tandemAt_lift _ h

/-- A render with the counter and one without it call back into the same, if their occurrences
do. -/
theorem callsTandem_counted {c : RenderCall σ} {child : Children (Counted σ)} {child' : Children σ}
    (hchild : ∀ reference props visible, Tandem True (AtLevel limit level)
      (child reference props visible) (child' reference props visible)) :
    CallsTandem True (AtLevel limit level) (fun _ => True) (fun _ => True) (c.counted child)
      { c with child := child' } where
  services := {
    fresh := fun s t h => by
      unfold RenderCall.counted
      dsimp only
      rw [h.world]
      exact ⟨rfl, { h with world := rfl }⟩
    call := fun f args => tandem_liftRun _ }
  data := rfl
  instanceKey := rfl
  isServer := rfl
  visible := rfl
  hostProps := by
    unfold RenderCall.counted
    dsimp only
    cases c.hostProps with
    | none => exact .inl ⟨rfl, rfl⟩
    | some props => exact .inr ⟨_, _, rfl, rfl, tandem_liftRun props⟩
  blocks := fun _ _ _ => tandem_liftRun _
  child := fun reference props visible _ => hchild reference props visible

theorem run_descend_of_le {s : Counted σ} (h : limit ≤ s.depth) (name : String)
    (x : Run (Counted σ) α) :
    ExceptT.run (descend limit name x) s = some (.error (tooDeep limit name), s) := by
  unfold descend
  rw [run_get_bind, if_pos h]
  rfl

/-- Below the limit an instance is rendered with the counter one higher. Afterwards the counter is
as it was, whether the render failed or not. -/
theorem run_descend_of_lt {s : Counted σ} (h : s.depth < limit) (name : String)
    (x : Run (Counted σ) α) :
    ExceptT.run (descend limit name x) s =
      (ExceptT.run x { s with depth := s.depth + 1, calls := [] }).map fun (result, s') =>
        (result, { s' with
          depth := s.depth, calls := s.calls, rendered := some s'.calls }) := by
  unfold descend
  rw [run_get_bind, if_neg (Nat.not_le.mpr h)]
  show (((ExceptT.run x { s with depth := s.depth + 1, calls := [] }).map _).map _).bind _ = _
  rcases ExceptT.run x { s with depth := s.depth + 1, calls := [] } with _ | ⟨e | a, s'⟩ <;> rfl

end

/-! ## Occurrences in tandem -/

/-- Without the counter a level remains exactly where the counter is below the limit, and what
is done there has a property. -/
structure Remains {α : Type} (limit level : Nat) (P : α → Prop) (inner : Option α) : Prop where
  atLimit : limit ≤ level → inner = none
  below : level < limit → ∃ a, inner = some a ∧ P a

theorem Remains.map {α β : Type} {limit level : Nat} {P : α → Prop} {Q : β → Prop}
    {inner : Option α} {f : α → β} (h : Remains limit level P inner) (hf : ∀ a, P a → Q (f a)) :
    Remains limit level Q (inner.map f) where
  atLimit := fun hle => by
    rw [h.atLimit hle]
    rfl
  below := fun hlt => by
    obtain ⟨a, rfl, ha⟩ := h.below hlt
    exact ⟨f a, rfl, hf a ha⟩

section

variable {σ ι : Type} {limit level : Nat} {name : String} {found : σ → Bool} {visible : Bool}

/-- What a call has come to when it is noted. -/
structure Answer (limit level : Nat) (name : String) (found visible : Bool)
    (result : Except EvalError Value) (s : Counted σ) (t : σ) : Prop where
  atLevel : AtLevel limit level s t
  inner : ∀ inner, s.rendered = some inner → ChildCall.AllExact limit (level + 1) inner
  refused : found = true →
    ((result = .error (tooDeep limit name) ∧ s.rendered = none) ↔ visible = true ∧ limit ≤ level)

/-- With the counter and without it there is one answer, or none. -/
def Answered (limit level : Nat) (name : String) (found visible : Bool)
    (x : Option (Except EvalError Value × Counted σ)) (y : Option (Except EvalError Value × σ)) :
    Prop :=
  (x = none ∧ y = none) ∨ ∃ result s t, x = some (result, s) ∧ y = some (result, t) ∧
    Answer limit level name found visible result s t

/-- A call can be noted once it is answered. -/
theorem tandem_noted {x : Run (Counted σ) Value} {y : Run σ Value}
    (h : ∀ s t, AtLevel limit level s t → s.rendered = none →
      Answered limit level name (found t) visible (ExceptT.run x s) (ExceptT.run y t)) :
    Tandem True (AtLevel limit level) (noted name found visible x) y := by
  intro s t hst
  have hstart : AtLevel limit level { s with rendered := none } t := { hst with }
  show TandemAt True _ ((ExceptT.run x { s with rendered := none }).map _) _
  obtain ⟨hx, hy⟩ | ⟨result, s', t', hx, hy, hanswer⟩ := h _ t hstart rfl
  · rw [hx, hy]
    exact .inl ⟨trivial, rfl, rfl⟩
  · rw [hx, hy]
    -- the call joins those that its template has made so far
    refine .some ⟨hanswer.atLevel.world, hanswer.atLevel.depth, hanswer.atLevel.calls.append ?_⟩
    refine ChildCall.allExact_singleton ⟨hst.depth, ?_, ?_⟩ hanswer.inner
    · exact hanswer.atLevel.depth.trans hst.depth.symm
    · dsimp only
      rw [hst.world]
      exact hanswer.refused

/-- An occurrence that is shown is refused at the limit, and below it the calls that its instance
makes are one level deeper. -/
theorem answered_shown {render : ι → Run (Counted σ) Value} {inner : Option (ι → Run σ Value)}
    (hremains : Remains limit level
      (fun plain => ∀ i, Tandem True (AtLevel limit (level + 1)) (render i) (plain i)) inner)
    {s : Counted σ} {t : σ} {known : Bool} (hst : AtLevel limit level s t)
    (hrendered : s.rendered = none) (hvisible : known = true → visible = true) (i : ι) :
    Answered limit level name known visible (ExceptT.run (descend limit name (render i)) s)
      (ExceptT.run (Run.shown limit name inner i) t) := by
  by_cases hbelow : level < limit
  · obtain ⟨plain, rfl, htandem⟩ := hremains.below hbelow
    have hdeeper : AtLevel limit (level + 1) { s with depth := s.depth + 1, calls := [] } t :=
      ⟨hst.world, congrArg (· + 1) hst.depth, ChildCall.allExact_nil _ _⟩
    rw [run_descend_of_lt (hst.depth ▸ hbelow)]
    obtain ⟨-, hx, hy⟩ | ⟨result, s', t', hx, hy, hst'⟩ := htandem i _ t hdeeper
    · rw [hx]
      exact .inl ⟨rfl, hy⟩
    · rw [hx]
      refine .inr ⟨_, _, _, rfl, hy, ⟨hst'.world, hst.depth, hst.calls⟩, ?_, fun _ => ?_⟩
      · rintro _ ⟨⟩
        exact hst'.calls
      · -- whatever its instance came to, the call has rendered one, so it was not itself refused
        simp [Nat.not_le.mpr hbelow]
  · have hle : limit ≤ level := Nat.not_lt.mp hbelow
    obtain rfl := hremains.atLimit hle
    rw [run_descend_of_le (hst.depth ▸ hle)]
    refine .inr ⟨_, _, _, rfl, rfl, hst, by simp [hrendered], fun h => ?_⟩
    simp [hrendered, hvisible h, hle]

/-- With the counter an occurrence comes to what it comes to without it, and the counter is exact.
The preparation of an occurrence that has a component does not fail, and comes to something to
render exactly if the occurrence is visible. -/
theorem tandem_occurrence {prepare : Run σ (Option ι)} {render : ι → Run (Counted σ) Value}
    {inner : Option (ι → Run σ Value)}
    (hprepare : ∀ t, found t = true →
      SucceedsAt (fun shown => shown.isSome = visible) (ExceptT.run prepare t))
    (hremains : Remains limit level
      (fun plain => ∀ i, Tandem True (AtLevel limit (level + 1)) (render i) (plain i)) inner) :
    Tandem True (AtLevel limit level) (occurrence limit name found visible prepare render)
      (Run.occurrence limit name prepare inner) := by
  refine tandem_noted fun s t hst hrendered => ?_
  unfold Run.occurrence
  rw [run_bind, run_bind, run_liftRun, hst.world]
  cases hrun : ExceptT.run prepare t with
  | none => exact .inl ⟨rfl, rfl⟩
  | some outcome =>
      obtain ⟨outcome, t'⟩ := outcome
      -- so far no call was made, and the counter was not touched
      have hst' : AtLevel limit level { s with world := t' } t' := { hst with world := rfl }
      have hfound := fun h => hprepare t h outcome t' hrun
      cases outcome with
      | error e =>
          refine .inr ⟨_, _, _, rfl, rfl, hst', by simp [hrendered], fun h => ?_⟩
          obtain ⟨_, ⟨⟩, -⟩ := hfound h
      | ok shown =>
          have hvisible : found t = true → visible = shown.isSome := fun h => by
            obtain ⟨_, ⟨⟩, hsome⟩ := hfound h
            exact hsome.symm
          cases shown with
          | none =>
              refine .inr ⟨_, _, _, rfl, rfl, hst', by simp [hrendered], fun h => ?_⟩
              simp [hvisible h]
          | some i => exact answered_shown hremains hst' hrendered hvisible i

/-- Occurrences on every level come to what they come to with as many levels remaining as are
missing to the limit, if one occurrence does where those inside it do. A bound on the calls inside
one another that is above the limit is never reached. -/
theorem tandem_children (single : Option (Children σ) → Children σ)
    {counted : Nat → Children (Counted σ)} {plain : Nat → Children σ}
    (hzero : plain 0 = single none)
    (hsucc : ∀ remaining, plain (remaining + 1) = single (some (plain remaining)))
    (hstep : ∀ level levels inner,
      Remains limit level (fun child => ∀ reference props visible,
        Tandem True (AtLevel limit (level + 1)) (counted levels reference props visible)
          (child reference props visible)) inner →
      ∀ reference props visible, Tandem True (AtLevel limit level)
        (counted (levels + 1) reference props visible) (single inner reference props visible))
    {remaining levels : Nat} (hlevels : remaining < levels) (hlimit : level + remaining = limit)
    (reference : String) (props : Value) (visible : Bool) :
    Tandem True (AtLevel limit level) (counted levels reference props visible)
      (plain remaining reference props visible) := by
  -- each level takes one from what remains and one from the bound, which stays ahead
  induction remaining generalizing level levels reference props visible with
  | zero =>
      obtain ⟨levels, rfl⟩ := Nat.exists_eq_add_one_of_ne_zero (Nat.ne_of_gt hlevels)
      rw [hzero]
      refine hstep level levels none ⟨fun _ => rfl, fun hlt => ?_⟩ reference props visible
      omega
  | succ remaining ih =>
      obtain ⟨levels, rfl⟩ := Nat.exists_eq_add_one_of_ne_zero (Nat.ne_zero_of_lt hlevels)
      rw [hsucc]
      refine hstep level levels (some (plain remaining)) ⟨fun hle => ?_, fun _ => ?_⟩ reference
        props visible
      · omega
      · exact ⟨_, rfl, ih (Nat.lt_of_succ_lt_succ hlevels) (by omega)⟩

end

/-! ## Whole renders -/

/-- A render with a counter of its own comes to what it comes to without one, and leaves the counter
at zero. At every call that was made the counter was exact. -/
structure CountsExactly {σ ρ : Type} (limit : Nat) (x : Option (ρ × Counted σ))
    (y : Option (ρ × σ)) : Prop where
  same : x.map (fun (result, s) => (result, s.world)) = y
  restored : ∀ result s, x = some (result, s) → s.depth = 0
  exact : ∀ result s, x = some (result, s) →
    ∀ n call, ChildCall.Within n call s.calls → call.Exact limit n

theorem countsExactly_of_tandemAt {σ ρ : Type} {limit : Nat} {x : Option (ρ × Counted σ)}
    {y : Option (ρ × σ)} (h : TandemAt True (AtLevel limit 0) x y) : CountsExactly limit x y := by
  obtain ⟨-, rfl, rfl⟩ | ⟨r, s, t, rfl, rfl, hst⟩ := h
  · exact ⟨rfl, nofun, nofun⟩
  · refine ⟨congrArg (fun world => some (r, world)) hst.world, ?_, ?_⟩
    · rintro _ _ ⟨⟩
      exact hst.depth
    · rintro _ _ ⟨⟩ n call hwithin
      have hexact := hst.calls n call hwithin
      rwa [Nat.zero_add] at hexact

end Counted

end LiveMarkup
