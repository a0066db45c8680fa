import LiveMarkup.Proofs.Engine.Recording
import LiveMarkup.Proofs.Reactive.Unwatched
import LiveMarkup.Proofs.Render.Nesting
set_option autoImplicit false

/-! # The depth counter of a page render

A page render has a counter of its own. An occurrence is registered, its template is looked up and
its data is collected before the counter is read; none of this fails once there is a template. -/

namespace LiveMarkup

/-! ## Collecting data -/

namespace Collected

/-- Whatever a setup does, it is gone through to its end. -/
theorem succeeds_collect (budget : Nat) (owner : InstanceRef) (setup : Setup) (c : Collected) :
    Succeeds (fun _ => True) (collect budget owner setup c) := by
  induction setup generalizing c with
  | done => exact .pure trivial
  | props next ih => exact (Succeeds.update _).bind fun i _ => ih _ c
  | propTypes types next ih => exact (Succeeds.update _).bind fun i _ => ih _ _
  | proxy initial next ih => exact (Succeeds.update _).bind fun id _ => ih _ _ _
  | methods methods next ih => exact (Succeeds.update _).bind fun named _ => ih _
  | act effect next ih => exact (Succeeds.failure? _).bind fun _ _ => ih c
  | useSignal key next ih => exact ih none c
  | events _ _ ih => exact ih c
  | watch _ _ _ ih => exact ih c
  | onError _ _ ih => exact ih c
  | load _ _ ih => exact ih c
  | on _ _ _ ih => exact ih c

theorem succeeds_record (c : Collected) : Succeeds (fun _ => True) c.record := by
  have hrecord : ∀ state, Succeeds (fun _ => True)
      (do return Value.object (← newIdent) (dataRecord c.props state c.methods)) :=
    fun state => (Succeeds.update _).bind fun i _ => .pure trivial
  unfold record
  dsimp only
  split
  · exact fun s => hrecord _ s
  · exact hrecord []

end Collected

namespace Website

theorem succeeds_childData (w : Website) (budget : Nat) (name key : String) (props : Value) :
    Succeeds (fun _ => True) (w.childData budget name key props) := by
  unfold childData
  dsimp only
  cases (w.component? name).bind ComponentDef.setup with
  | none => exact Collected.succeeds_record ⟨props.fields, none, []⟩
  | some setup =>
      exact (Collected.succeeds_collect budget _ setup _).bind fun c _ => c.succeeds_record

/-! ## With the counter -/

/-- What is to be rendered for an occurrence, if it is visible: a template, with the key and the
data that it is rendered with. -/
def prepare (w : Website) (budget : Nat) (reference : String) (props : Value) (visible : Bool) :
    Run PageState (Option (Template × String × Value)) := do
  let name := componentName reference
  let key ← Run.update fun s =>
    let (key, host) := s.host.register name props
    (key, { s with host })
  if !visible then return none
  let t ← match w.componentTemplate (← get).cache reference with
    | .ok (t, cache) => do
      Run.update fun s => ((), { s with cache })
      pure t
    | .error e => .failed (.custom e.message)
  let data ← (w.childData budget name key props).within PageState.store
    fun store s => { s with store }
  return some (t, key, data)

/-- What an occurrence comes to once its template was rendered. -/
def handOn {σ : Type} (w : Website) (t : Template) : Rendered → Run σ Value
  | .ok html => return .markup html
  | .error f => .failed (.custom (t.renderError f w.config.isDev).message)

/-- Renders an occurrence of a page with the counter. `levels` bounds how many calls are inside one
another. -/
def countedChild (w : Website) (budget : Nat) : (levels : Nat) → Children (Counted PageState)
  | 0, _, _, _ => .exhausted
  | levels + 1, reference, props, visible =>
    Counted.occurrence Engine.maxDepth (componentName reference)
      (fun s => (w.componentTemplate s.cache reference).isOk) visible
      (w.prepare budget reference props visible) fun (t, key, data) => do
        -- `counted` puts its own occurrences in the place of those that no level remains to
        let call := w.occurrenceCall budget (w.renderChild budget 0) key visible data
        w.handOn t (← t.render (call.counted (countedChild w budget levels)))

/-! ## In tandem -/

/-- An occurrence is prepared first, and rendered if it is visible. -/
theorem renderOccurrence_eq (w : Website) (budget : Nat) (inner : Option (Children PageState))
    (reference : String) (props : Value) (visible : Bool) :
    w.renderOccurrence budget inner reference props visible =
      Run.occurrence Engine.maxDepth (componentName reference)
        (w.prepare budget reference props visible)
        (inner.map fun child (t, key, data) => do
          w.handOn t (← t.render (w.occurrenceCall budget child key visible data))) := by
  unfold renderOccurrence Run.occurrence prepare renderTemplate
  dsimp only
  rw [bind_assoc]
  refine bind_congr fun key => ?_
  cases visible with
  | false => rfl
  | true =>
      rw [if_neg (by simp), if_neg (by simp)]
      simp only [bind_assoc]
      refine bind_congr fun s => ?_
      cases w.componentTemplate s.cache reference with
      | error e => rfl
      | ok found =>
          simp only [bind_assoc]
          refine bind_congr fun _ => ?_
          simp only [pure_bind]
          refine bind_congr fun data => ?_
          cases inner with
          | none => rfl
          | some child =>
              refine bind_congr fun rendered => ?_
              cases rendered <;> rfl

/-- An occurrence that has a template is prepared without a failure. -/
theorem succeedsAt_prepare {w : Website} {reference : String} {s : PageState}
    (hfound : (w.componentTemplate s.cache reference).isOk = true) (budget : Nat) (props : Value)
    (visible : Bool) :
    SucceedsAt (fun shown => shown.isSome = visible)
      (ExceptT.run (w.prepare budget reference props visible) s) := by
  unfold prepare
  dsimp only
  rw [run_bind, run_update]
  dsimp only
  cases visible with
  | false => exact .some rfl
  | true =>
      rw [if_neg (by simp), run_get_bind]
      cases hget : w.componentTemplate s.cache reference with
      | error e => simp [hget, Except.isOk, Except.toBool] at hfound
      | ok found =>
          dsimp only
          refine Succeeds.bind (P := fun _ => True) ?_ (fun t _ => ?_) _
          · exact (Succeeds.update _).bind fun _ _ => .pure trivial
          · refine (w.succeeds_childData budget _ _ props).within.bind fun data _ => ?_
            exact .pure rfl

/-- An occurrence on some level of a page comes with the counter to what it comes to with as many
levels remaining as are missing to the limit. -/
theorem tandem_countedChild (w : Website) (budget : Nat) {level remaining levels : Nat}
    (hlevels : remaining < levels) (hlimit : level + remaining = Engine.maxDepth)
    (reference : String) (props : Value) (visible : Bool) :
    Tandem True (Counted.AtLevel Engine.maxDepth level)
      (w.countedChild budget levels reference props visible)
      (w.renderChild budget remaining reference props visible) := by
  refine Counted.tandem_children (w.renderOccurrence budget) ?_ (fun _ => ?_) ?_ hlevels
    hlimit reference props visible
  · funext reference props visible
    exact w.renderChild_zero budget reference props visible
  · funext reference props visible
    exact w.renderChild_succ budget _ reference props visible
  intro level levels inner hremains reference props visible
  rw [renderOccurrence_eq, countedChild]
  refine Counted.tandem_occurrence
    (fun s hfound => succeedsAt_prepare hfound budget props visible)
    (hremains.map fun child hchild => ?_)
  rintro ⟨t, key, data⟩
  have hcalls := Counted.callsTandem_counted
    (c := w.occurrenceCall budget (w.renderChild budget 0) key visible data) hchild
  refine (hcalls.render (fun _ _ => trivial) fun _ _ => trivial).bind fun rendered => ?_
  cases rendered with
  | ok html => exact Tandem.pure _
  | error f => exact tandem_failed _

/-- The counter of a page render is exact. -/
theorem countsExactly_execute (w : Website) (budget : Nat) {levels : Nat}
    (hlevels : Engine.maxDepth < levels) (p : Program) (data : Value) (s : PageState) :
    Counted.CountsExactly Engine.maxDepth
      (p.execute ((w.pageCall budget data).counted (w.countedChild budget levels)) (.start s))
      (p.execute (w.pageCall budget data) s) := by
  have hcalls := Counted.callsTandem_counted (c := w.pageCall budget data)
    fun reference props visible =>
      w.tandem_countedChild budget hlevels (Nat.zero_add _) reference props visible
  refine Counted.countsExactly_of_tandemAt ?_
  exact hcalls.execute (fun _ _ => trivial) (fun _ _ => trivial) (Counted.atLevel_start _ s)

end Website

end LiveMarkup
