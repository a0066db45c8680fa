import LiveMarkup.Proofs.Render.Meaning
set_option autoImplicit false

/-! # What a failed render is blamed on

The fault of a meaning names a directive by its number. The directive of that number is one that
fails: what it computes, its expression, condition, subject, arguments, statements or call, ends with
the error of the fault in some scopes and world (`Program.failsWith_of_fault`). -/

namespace LiveMarkup

section

variable {σ α : Type}

/-- What fails of two steps is the first of them, or the second behind the first. -/
theorem error_of_run_bind {ε α β : Type} {x : ExceptT ε (StateT σ Option) α}
    {f : α → ExceptT ε (StateT σ Option) β} {s s' : σ} {e : ε}
    (h : ExceptT.run (x >>= f) s = some (.error e, s')) :
    ExceptT.run x s = some (.error e, s') ∨
      ∃ a s₁, ExceptT.run x s = some (.ok a, s₁) ∧
        ExceptT.run (f a) s₁ = some (.error e, s') := by
  rw [run_bind] at h
  split at h
  · cases h
  · next a s₁ hx => exact .inr ⟨a, s₁, hx, h⟩
  · next e₁ s₁ hx =>
      cases h
      exact .inl hx

/-- A computation ends with an error in some world. -/
def Run.FailsWith (x : Run σ α) (e : EvalError) : Prop :=
  ∃ world world', ExceptT.run x world = some (.error e, world')

/-- What a directive computes ends with an error, in some scopes and world. -/
def Item.FailsWith (c : RenderCall σ) (e : EvalError) : Item → Prop
  | .interpolate expr _ _ => ∃ env, (expr.eval c env).FailsWith e
  | .choice condition _ => ∃ env, (condition.eval c env).FailsWith e
  | .elseIf condition _ => ∃ env, (condition.eval c env).FailsWith e
  | .loop _ subject _ => (∃ env, (subject.eval c env).FailsWith e) ∨
      ∃ v : Value, v.loopPairs? = none ∧ e = .loopRequiresIterable v.typeName
  | .block name args _ => (∃ env, (args.arguments c "block" env).FailsWith e) ∨
      ∃ v, (c.block name v).FailsWith e
  | .component reference args _ => (∃ env, (args.arguments c "component" env).FailsWith e) ∨
      ∃ v, (c.child reference v (c.visible && asksToShow v)).FailsWith e
  | .code stmts _ => ∃ env, (Stmt.meaningAll c env stmts).FailsWith e
  | .text _ | .otherwise | .close => False

/-- The instance key can be shown in any scopes. -/
theorem Item.not_failsWith_instanceKey {c : RenderCall σ} {e : EvalError} {key : Expr}
    (h : key.kind = .instanceKey) (escape : Bool) (line : Nat) :
    ¬ (Item.interpolate key escape line).FailsWith c e := by
  obtain ⟨kind, span⟩ := key
  obtain rfl : kind = .instanceKey := h
  rintro ⟨env, world, world', hrun⟩
  cases hrun

/-! ## Faults of fragments -/

/-- The errors that may be blamed on a number. -/
abbrev Blame := Nat → EvalError → Prop

/-- Every fault of a fragment is blamed as it may be. -/
def Fragment.Blames (may : Blame) (a : Fragment σ) : Prop :=
  ∀ env world fault world', ExceptT.run (a env) world = some (.error fault, world') →
    may fault.site fault.error

/-- What fails of items that are numbered from a site on may be blamed on their numbers. -/
def Item.BlamedFrom (c : RenderCall σ) (may : Blame) (site : Nat) (items : List Item) : Prop :=
  ∀ n i e, items[n]? = some i → i.FailsWith c e → may (site + n) e

variable {may : Blame} {site : Nat} {c : RenderCall σ}

theorem Item.blamedFrom_append {a b : List Item} (h : BlamedFrom c may site (a ++ b)) :
    BlamedFrom c may site a ∧ BlamedFrom c may (site + a.length) b := by
  refine ⟨fun n i e hi => h n i e ?_, fun n i e hi hfails => ?_⟩
  · rw [List.getElem?_append_left (List.getElem?_eq_some_iff.mp hi).1, hi]
  · have hshift := h (a.length + n) i e (by rw [List.getElem?_append_right (Nat.le_add_right _ _),
      Nat.add_sub_cancel_left, hi]) hfails
    rwa [← Nat.add_assoc] at hshift

theorem Item.blamedFrom_cons {i : Item} {rest : List Item} (h : BlamedFrom c may site (i :: rest)) :
    (∀ e, i.FailsWith c e → may site e) ∧ BlamedFrom c may (site + 1) rest :=
  ⟨fun e => h 0 i e rfl, (blamedFrom_append (a := [i]) h).2⟩

namespace Fragment

variable {a b : Fragment σ}

theorem blames_text (s : String) : (text s : Fragment σ).Blames may :=
  fun _ _ _ _ hrun => nomatch hrun

theorem blames_leaving (env : Environment) : (leaving env : Fragment σ).Blames may :=
  fun _ _ _ _ hrun => nomatch hrun

theorem Blames.andThen (ha : a.Blames may) (hb : b.Blames may) : (a.andThen b).Blames may := by
  intro env world fault world' hrun
  obtain hfirst | ⟨shown, world₁, -, hrest⟩ := error_of_run_bind hrun
  · exact ha _ _ _ _ hfirst
  · obtain hsecond | ⟨shown', world₂, -, hjoined⟩ := error_of_run_bind hrest
    · exact hb _ _ _ _ hsecond
    · cases hjoined

theorem Blames.inScope (ha : a.Blames may) : a.inScope.Blames may := by
  intro env world fault world' hrun
  obtain hinner | ⟨shown, world₁, -, hleft⟩ := error_of_run_bind hrun
  · exact ha _ _ _ _ hinner
  · cases hleft

theorem Blames.binding (ha : a.Blames may) (name : String) (v : Value) :
    (a.binding name v).Blames may :=
  fun env => ha (env.define name v)

/-- What a directive computes is blamed on it, what comes after it on what it goes on with. -/
theorem blames_after {α : Type} {x : Environment → Run σ α} {next : α → Fragment σ}
    (hx : ∀ env e, (x env).FailsWith e → may site e) (hnext : ∀ v, (next v).Blames may) :
    (after site x next).Blames may := by
  intro env world fault world' hrun
  rw [run_after] at hrun
  cases hfirst : ExceptT.run (x env) world with
  | none =>
      rw [hfirst] at hrun
      cases hrun
  | some r =>
      obtain ⟨result, world₁⟩ := r
      rw [hfirst] at hrun
      cases result with
      | error e =>
          cases hrun
          exact hx env _ ⟨_, _, hfirst⟩
      | ok v => exact hnext v _ _ _ _ hrun

theorem Blames.forPairs (ha : a.Blames may) (names : LoopBinding) (pairs : List (Value × Value)) :
    (a.forPairs names pairs).Blames may := by
  induction pairs with
  | nil => exact blames_text ""
  | cons pair rest ih =>
      obtain ⟨key, value⟩ := pair
      have hbound := ha.binding names.value value
      refine Blames.andThen (Blames.inScope ?_) ih
      cases names.key with
      | none => exact hbound
      | some name => exact hbound.binding name key

end Fragment

/-! ## Faults of programs -/

namespace Node

open Item Fragment

mutual

theorem blames_meaning : ∀ (n : Node) (site : Nat), BlamedFrom c may site n.flatten →
    (n.meaning c site).Blames may
  | .text s, _, _ => blames_text s
  | .interpolate e escape line, site, h =>
      blames_after (fun env e he => (blamedFrom_cons h).1 e ⟨env, he⟩) fun v => blames_text _
  | .choose arms none, site, h => by
      have harms := (blamedFrom_append (blamedFrom_append h).1).1
      exact blames_meaningArms arms site true harms (blames_text "")
  | .choose arms (some body), site, h => by
      obtain ⟨harms, hrest⟩ := blamedFrom_append (blamedFrom_append h).1
      have hbody := (blamedFrom_cons hrest).2
      exact blames_meaningArms arms site true harms (blames_meaningAll body _ hbody).inScope
  | .loop names subject body line, site, h => by
      obtain ⟨hloop, hrest⟩ := blamedFrom_cons h
      have hbody := blames_meaningAll body (site + 1) (blamedFrom_append hrest).1
      refine blames_after (fun env e he => hloop e (.inl ⟨env, he⟩)) fun v => ?_
      cases hpairs : v.loopPairs? with
      | none =>
          refine blames_after (fun env e he => ?_) blames_text
          obtain ⟨_, _, hrun⟩ := he
          cases hrun
          exact hloop _ (.inr ⟨v, hpairs, rfl⟩)
      | some pairs => exact hbody.forPairs names pairs
  | .block name args line, site, h => by
      obtain ⟨hblock, -⟩ := blamedFrom_cons h
      refine blames_after (fun env e he => hblock e (.inl ⟨env, he⟩)) fun v => ?_
      exact blames_after (fun _ e he => hblock e (.inr ⟨v, he⟩)) blames_text
  | .component reference args line, site, h => by
      obtain ⟨hcomponent, -⟩ := blamedFrom_cons h
      refine blames_after (fun env e he => hcomponent e (.inl ⟨env, he⟩)) fun v => ?_
      exact blames_after (fun _ e he => hcomponent e (.inr ⟨v, he⟩)) fun _ => blames_text _
  | .code stmts line, site, h =>
      blames_after (fun env e he => (blamedFrom_cons h).1 e ⟨env, he⟩) blames_leaving

theorem blames_meaningAll : ∀ (nodes : List Node) (site : Nat),
    BlamedFrom c may site (flattenAll nodes) → (meaningAll c site nodes).Blames may
  | [], _, _ => blames_text ""
  | n :: rest, site, h =>
      (blames_meaning n site (blamedFrom_append h).1).andThen
        (blames_meaningAll rest _ (blamedFrom_append h).2)

theorem blames_meaningArms {otherwise : Fragment σ} : ∀ (arms : List Arm) (site : Nat)
    (first : Bool), BlamedFrom c may site (flattenArms first arms) → otherwise.Blames may →
    (meaningArms c site arms otherwise).Blames may
  | [], _, _, _, hotherwise => hotherwise
  | .arm condition body line :: rest, site, first, h, hotherwise => by
      obtain ⟨harm, hrest⟩ := blamedFrom_append h
      obtain ⟨hcondition, hbody⟩ := blamedFrom_cons harm
      have hnext : BlamedFrom c may (site + 1 + (flattenAll body).length)
          (flattenArms false rest) := by
        rwa [List.length_cons, Nat.add_comm _ 1, ← Nat.add_assoc] at hrest
      refine blames_after (fun env e he => hcondition e ?_) fun v => ?_
      · cases first <;> exact ⟨env, he⟩
      · split
        · exact (blames_meaningAll body (site + 1) hbody).inScope
        · exact blames_meaningArms rest _ false hnext hotherwise

end

end Node

/-- The directive that a fault names is one that fails with the error of the fault. -/
theorem Program.failsWith_of_fault {p : Program} {world world' : σ} {fault : Fault}
    (h : ExceptT.run (Node.meaningAll c 0 p.nodes .empty) world = some (.error fault, world')) :
    ∃ i, (Node.flattenAll p.nodes)[fault.site]? = some i ∧ i.FailsWith c fault.error := by
  have hblamed : Item.BlamedFrom c
      (fun site e => ∃ i, (Node.flattenAll p.nodes)[site]? = some i ∧ i.FailsWith c e) 0
      (Node.flattenAll p.nodes) := by
    intro n i e hi hfails
    rw [Nat.zero_add]
    exact ⟨i, hi, hfails⟩
  exact Node.blames_meaningAll p.nodes 0 hblamed _ _ _ _ h

end

end LiveMarkup
