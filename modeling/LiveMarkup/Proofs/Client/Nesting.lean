import LiveMarkup.Proofs.Client.Fallback
import LiveMarkup.Proofs.Engine.Nesting
set_option autoImplicit false

/-! # The depth counter of a client render

Whenever an instance is rendered from outside, the render has a counter of its own. An occurrence is
bound to its instance before the counter is read, and an instance that fails is replaced by its
fallback after the counter was put back in the calls inside it. Main statement: on the client and on
the server the counter is exact (`depth_counts_rendering_calls`). -/

namespace LiveMarkup

namespace Client

/-! ## With the counter -/

/-- The key of the instance that an occurrence is bound to, if it is visible. -/
def prepare (budget : Nat) (reference : String) (props : Value) (visible : Bool) :
    Run Client (Option String) := do
  let name := componentName reference
  match (← get).component? name with
  | none => .failed (.componentNotFound reference)
  | some component => do
    let key ← bindOccurrence budget component name props visible
    return if visible then some key else none

/-- Carries out a template in the client's world with the counter. -/
def countedExecute (t : Template) (call : RenderCall (Counted Client)) :
    StateT (Counted Client) Option Rendered := fun s => t.program.execute call s

/-- Renders an instance to markup with the counter; `child` renders the occurrences in it. -/
def countedInstance (budget : Nat) (child : Children (Counted Client)) (i : Instance) :
    ExceptT ClientError (StateT (Counted Client) Option) String := do
  let data ← (Counted.lift (instanceData i) : StateT (Counted Client) Option Value)
  -- `counted` puts `child` in the place of the occurrences that no level remains to
  let call := (instanceCall budget (renderChild budget 0) i.key data).counted child
  match ← countedExecute i.component.template call with
  | .ok html => return html
  | .error f =>
    match i.fallback with
    | some fallback => return fallback f.error
    | none => throw (.render i.component.name i.key f.error.message f.line)

/-- What an occurrence comes to once its instance was rendered. -/
def handOn {σ : Type} : Except ClientError String → Run σ Value
  | .ok html => return .markup html
  | .error e => .failed (.custom e.message)

/-- Renders a component occurrence with the counter. `levels` bounds how many calls are inside one
another. -/
def countedChild (budget : Nat) : (levels : Nat) → Children (Counted Client)
  | 0, _, _, _ => .exhausted
  | levels + 1, reference, props, visible =>
    Counted.occurrence maxDepth (componentName reference)
      (fun c => (c.component? (componentName reference)).isSome) visible
      (prepare budget reference props visible) fun key => do
        match (← get).world.instance? key with
        | none => return .markup ""
        | some i => handOn (← (countedInstance budget (countedChild budget levels) i).run)

/-! ## In tandem -/

/-- An occurrence is prepared first, and shown by its instance if it is visible. -/
theorem renderOccurrence_eq (budget : Nat) (inner : Option (Children Client)) (reference : String)
    (props : Value) (visible : Bool) :
    renderOccurrence budget inner reference props visible =
      Run.occurrence maxDepth (componentName reference) (prepare budget reference props visible)
        (inner.map fun child key => do
          match (← get).instance? key with
          | none => return .markup ""
          | some i => handOn (← (renderInstance budget child i).run)) := by
  unfold renderOccurrence Run.occurrence prepare
  dsimp only
  rw [bind_assoc]
  refine bind_congr fun c => ?_
  cases c.component? (componentName reference) with
  | none => rfl
  | some component =>
      simp only [bind_assoc]
      refine bind_congr fun key => ?_
      cases visible with
      | false => rfl
      | true =>
          cases inner with
          | none => rfl
          | some child =>
              show _ = ((pure (some key) : Run Client (Option String)) >>= _)
              rw [pure_bind]
              refine bind_congr fun c' => ?_
              cases c'.instance? key with
              | none => rfl
              | some i =>
                  refine bind_congr fun result => ?_
                  cases result <;> rfl

/-- An occurrence of a registered component is prepared without a failure. -/
theorem succeedsAt_prepare {reference : String} {c : Client}
    (hfound : (c.component? (componentName reference)).isSome = true) (budget : Nat)
    (props : Value) (visible : Bool) :
    SucceedsAt (fun shown => shown.isSome = visible)
      (ExceptT.run (prepare budget reference props visible) c) := by
  obtain ⟨component, hget⟩ := Option.isSome_iff_exists.mp hfound
  unfold prepare
  dsimp only
  rw [run_get_bind, hget]
  dsimp only
  rw [run_bind, run_lift]
  cases bindOccurrence budget component (componentName reference) props visible c with
  | none => exact fun _ _ h => nomatch h
  | some bound => cases visible <;> exact .some rfl

section

variable {limit level budget : Nat}

/-- An instance comes with the counter to what it comes to without it, be it its markup, its
fallback or a failure. -/
theorem tandem_countedInstance {child : Children (Counted Client)} {child' : Children Client}
    (hchild : ∀ reference props visible, Tandem True (Counted.AtLevel limit level)
      (child reference props visible) (child' reference props visible)) (i : Instance) :
    Tandem True (Counted.AtLevel limit level) (countedInstance budget child i)
      (renderInstance budget child' i) := by
  unfold countedInstance renderInstance
  refine Tandem.bind ?_ fun data => Tandem.bind ?_ fun rendered => ?_
  · intro s c h
    rw [run_lift, run_lift]
    exact (Counted.tandemAt_lift _ h).map fun _ _ _ h' => ⟨rfl, h'⟩
  · intro s c h
    have hcalls := Counted.callsTandem_counted
      (c := instanceCall budget (renderChild budget 0) i.key data) hchild
    rw [run_lift, run_lift]
    exact (hcalls.execute (fun _ _ => trivial) (fun _ _ => trivial) h).map
      fun _ _ _ h' => ⟨rfl, h'⟩
  · cases rendered with
    | ok html => exact Tandem.pure html
    | error f =>
        dsimp only
        cases i.fallback with
        | some fallback => exact Tandem.pure _
        | none => exact fun _ _ h => .some h

theorem tandem_handOn (result : Except ClientError String) :
    Tandem True (Counted.AtLevel (σ := Client) limit level) (handOn result) (handOn result) := by
  cases result with
  | ok html => exact Tandem.pure _
  | error e => exact tandem_failed _

end

/-- An occurrence on some level comes with the counter to what it comes to with as many levels
remaining as are missing to the limit. -/
theorem tandem_countedChild (budget : Nat) {level remaining levels : Nat}
    (hlevels : remaining < levels) (hlimit : level + remaining = maxDepth)
    (reference : String) (props : Value) (visible : Bool) :
    Tandem True (Counted.AtLevel maxDepth level)
      (countedChild budget levels reference props visible)
      (renderChild budget remaining reference props visible) := by
  refine Counted.tandem_children (renderOccurrence budget) ?_ (fun _ => ?_) ?_ hlevels
    hlimit reference props visible
  · funext reference props visible
    exact renderChild_zero budget reference props visible
  · funext reference props visible
    exact renderChild_succ budget _ reference props visible
  intro level levels inner hremains reference props visible
  rw [renderOccurrence_eq, countedChild]
  refine Counted.tandem_occurrence
    (fun c hfound => succeedsAt_prepare hfound budget props visible)
    (hremains.map fun child hchild => ?_)
  intro key
  refine Tandem.get_bind fun s c h => ?_
  rw [h.world]
  cases c.instance? key with
  | none => exact .some h
  | some i => exact (tandem_countedInstance hchild i).handedOn.bind tandem_handOn s c h

/-- The counter of a client render is exact. -/
theorem countsExactly_renderInstance (budget : Nat) {levels : Nat} (hlevels : maxDepth < levels)
    (i : Instance) (c : Client) :
    Counted.CountsExactly maxDepth
      (ExceptT.run (countedInstance budget (countedChild budget levels) i) (.start c))
      (ExceptT.run (renderInstance budget (renderChild budget maxDepth) i) c) := by
  refine Counted.countsExactly_of_tandemAt ?_
  exact tandem_countedInstance (fun reference props visible =>
    tandem_countedChild budget hlevels (Nat.zero_add _) reference props visible) i _ _
      (Counted.atLevel_start _ c)

end Client

/-! ## On both sides -/

/-- The counter is exact in every render of an instance by a client, also if instances in it fail
and are replaced by their fallback, and in every render of a page. Each comes to what the render
comes to that is told how many levels remain. At every call the counter shows how many of the calls
around it are rendering an instance, and it shows this again when the call has returned, be it with
a result or with a failure; a call that has a component to render is refused exactly if it is
visible and that number has reached 128. -/
theorem depth_counts_rendering_calls {budget levels : Nat} (hlevels : 128 < levels) :
    (∀ (i : Instance) (c : Client), Counted.CountsExactly 128
      (ExceptT.run (Client.countedInstance budget (Client.countedChild budget levels) i) (.start c))
      (ExceptT.run (Client.renderInstance budget (Client.renderChild budget Client.maxDepth) i)
        c)) ∧
    ∀ (w : Website) (p : Program) (data : Value) (s : PageState), Counted.CountsExactly 128
      (p.execute ((w.pageCall budget data).counted (w.countedChild budget levels)) (.start s))
      (p.execute (w.pageCall budget data) s) :=
  ⟨Client.countsExactly_renderInstance budget hlevels,
    fun w p data s => w.countsExactly_execute budget hlevels p data s⟩

/-! ## A component that shows itself -/

namespace Client.Coil

/-- It shows itself and a note, both under a key of their own, and then fails. -/
def coil : ComponentDef where
  name := "coil"
  source := "<i>\x7b\x7b@ coil(\x7b $key: \"a\" \x7d)\x7d\x7d" ++
    "\x7b\x7b@ note(\x7b $key: \"a\" \x7d)\x7d\x7d\x7b\x7b missing \x7d\x7d</i>"
  setup := some (.onError (fun _ => "") .done)

def template : Template where
  name := "coil"
  source := "<i element=\"\x7b\x7b$ctxKey\x7d\x7d\">" ++
    "\x7b\x7b@ coil(\x7b $key: \"a\" \x7d)\x7d\x7d" ++
    "\x7b\x7b@ note(\x7b $key: \"a\" \x7d)\x7d\x7d\x7b\x7b missing \x7d\x7d</i>"
  program := ⟨[.text "<i element=\"", .interpolate (.node .instanceKey ⟨14, 21⟩) true 1,
    .text "\">",
    .component "coil" (.node (.object [("$key", .node (.str "a") ⟨42, 45⟩)]) ⟨34, 47⟩) 1,
    .component "note" (.node (.object [("$key", .node (.str "a") ⟨67, 70⟩)]) ⟨59, 72⟩) 1,
    .interpolate (.node (.ident "missing") ⟨78, 85⟩) true 1, .text "</i>"]⟩

theorem component_coil : Template.component "coil" coil.source .braces = .ok template :=
  Template.component_of_segments
    [⟨.text, "<i element=\"".toList, ⟨0, 12⟩, 1⟩,
      ⟨.directive .escaped, "$ctxKey".toList, ⟨14, 21⟩, 1⟩, ⟨.text, "\">".toList, ⟨23, 25⟩, 1⟩,
      ⟨.directive .component, "coil(\x7b $key: \"a\" \x7d)".toList, ⟨29, 48⟩, 1⟩,
      ⟨.directive .component, "note(\x7b $key: \"a\" \x7d)".toList, ⟨54, 73⟩, 1⟩,
      ⟨.directive .escaped, "missing".toList, ⟨78, 85⟩, 1⟩, ⟨.text, "</i>".toList, ⟨88, 92⟩, 1⟩]
    (by decide +kernel) (by decide +kernel) (by cbv)

def component : Component := ⟨"coil", template, coil.setup⟩

/-- The coil after its setup. -/
def coiled : Instance :=
  { Instance.create component "coil" .null with fallback := some fun _ => "" }

def client : Client :=
  { Client.create .empty .braces with
    components := [("coil", component), ("note", UnmarkedFallback.component)]
    instances := [("coil", coiled)] }

def site : Website := ⟨.standard, [], [], [("note", UnmarkedFallback.note)]⟩

/-- A page that shows the note. -/
def page : Program := ⟨[.component "note" (.node (.object []) ⟨9, 11⟩) 1]⟩

/-- The note was compiled before. -/
def pageState : PageState := ⟨[("@note", UnmarkedFallback.template)], .empty, .empty⟩

/-- The first call with a number of calls around it that are all the first ones. -/
def first? : Nat → List ChildCall → Option ChildCall
  | 0, calls => calls.head?
  | n + 1, calls => do first? n (← (← calls.head?).rendered)

theorem within_of_first? {n : Nat} {call : ChildCall} {calls : List ChildCall}
    (h : first? n calls = some call) : ChildCall.Within n call calls := by
  induction n generalizing calls with
  | zero => exact .here (List.mem_of_mem_head? h)
  | succ n ih =>
      obtain ⟨parent, hparent, hrest⟩ := Option.bind_eq_some_iff.mp h
      obtain ⟨inner, hinner, hfirst⟩ := Option.bind_eq_some_iff.mp hrest
      exact .inside (List.mem_of_mem_head? hparent) hinner (ih hfirst)

/-- What can be told of calls from their names and the counter. -/
def readings (calls : List ChildCall) : List (String × Nat × Nat) :=
  calls.map fun call => (call.name, call.before, call.after)

end Client.Coil

open Client.Coil in
/-- The coil is refused inside 128 others. All of these fail, and the note beside the outermost one
is on the same level as that. -/
theorem depth_counts_rendering_calls_coil :
    (128 < 129 ∧ Template.component "coil" coil.source .braces = .ok template) ∧
    (∃ result s call, ExceptT.run
        (Client.countedInstance 1 (Client.countedChild 1 129) coiled) (.start client) =
          some (result, s) ∧
      readings s.calls = [("coil", 0, 0), ("note", 0, 0)] ∧ s.depth = 0 ∧
      ChildCall.Within 128 call s.calls ∧ call.before = 128 ∧ call.after = 128 ∧
      call.Refused 128) ∧
    ∃ result s, page.execute ((site.pageCall 1 .null).counted (site.countedChild 1 129))
        (.start pageState) = some (result, s) ∧
      readings s.calls = [("note", 0, 0)] ∧ s.depth = 0 := by
  have hcoil : (ExceptT.run
      (Client.countedInstance 1 (Client.countedChild 1 129) coiled) (.start client)).map
        (fun (_, s) => (readings s.calls, (first? 128 s.calls).map fun call =>
          (call.found, call.visible))) =
      some ([("coil", 0, 0), ("note", 0, 0)], some (true, true)) := by decide +kernel
  have hpage : (page.execute ((site.pageCall 1 .null).counted (site.countedChild 1 129))
      (.start pageState)).map (fun (_, s) => readings s.calls) =
      some [("note", 0, 0)] := by decide +kernel
  obtain ⟨hclient, hsite⟩ := @depth_counts_rendering_calls 1 129 (by decide)
  obtain ⟨⟨result, s⟩, hrun, hseen⟩ := Option.map_eq_some_iff.mp hcoil
  obtain ⟨hreadings, hfirst⟩ := Prod.mk.inj hseen
  obtain ⟨call, hcall, hflags⟩ := Option.map_eq_some_iff.mp hfirst
  obtain ⟨hfound, hvisible⟩ := Prod.mk.inj hflags
  obtain ⟨⟨result', s'⟩, hrun', hreadings'⟩ := Option.map_eq_some_iff.mp hpage
  -- the counter was exact at the innermost call
  have hwithin := within_of_first? hcall
  have hexact := (hclient coiled client).exact result s hrun 128 call hwithin
  refine ⟨⟨by decide, component_coil⟩, ⟨result, s, call, hrun, hreadings, ?_, hwithin,
    hexact.before, hexact.after.trans hexact.before, ?_⟩, result', s', hrun', hreadings', ?_⟩
  · exact (hclient coiled client).restored result s hrun
  · exact (hexact.refused hfound).mpr ⟨hvisible, Nat.le_refl 128⟩
  · exact (hsite site page .null pageState).restored result' s' hrun'

end LiveMarkup
