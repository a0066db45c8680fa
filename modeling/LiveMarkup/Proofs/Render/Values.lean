import LiveMarkup.Proofs.Expr.Grammar
import LiveMarkup.Proofs.Render.Agreement
import LiveMarkup.Render.Evaluate
set_option autoImplicit false

/-! # Values of expressions

The value of an expression does not depend on its spans (`Expr.eval_bare`). Expressions in a row are
evaluated from left to right, each in the world that the one before it left (`Expr.Evaluates`). -/

namespace LiveMarkup.Expr

section

variable {σ : Type} (c : RenderCall σ) (env : Environment)

/-! ## Spans -/

theorem calleeName_bare : ∀ e : Expr, e.bare.calleeName = e.calleeName
  | .node (.member object field) _ => congrArg (· ++ "." ++ field) (calleeName_bare object)
  | .node .null _ | .node (.bool _) _ | .node (.int _) _ | .node (.float _) _ | .node (.str _) _
  | .node (.array _) _ | .node (.object _) _ | .node (.ident _) _ | .node .data _
  | .node .instanceKey _ | .node .hostProps _ | .node .isServer _ | .node (.index _ _) _
  | .node (.call _ _) _ | .node (.unary _ _) _ | .node (.binary _ _ _) _
  | .node (.conditional _ _ _) _ => rfl

mutual

theorem eval_bare : ∀ e : Expr, e.bare.eval c env = e.eval c env
  | .node kind _ => by
      rw [bare, plain, eval, eval]
      exact evalKind_bareKind kind

theorem evalKind_bareKind :
    ∀ kind : ExprKind, evalKind c env (bareKind kind) = evalKind c env kind
  | .null => rfl
  | .bool _ => rfl
  | .int _ => rfl
  | .float _ => rfl
  | .str _ => rfl
  | .ident _ => rfl
  | .data => rfl
  | .instanceKey => rfl
  | .hostProps => rfl
  | .isServer => rfl
  | .array items => by
      rw [bareKind, evalKind, evalKind, evalAll_bareItems items]
  | .object entries => by
      rw [bareKind, evalKind, evalKind, evalEntries_bareEntries entries]
  | .member object _ => by
      rw [bareKind, evalKind, evalKind, eval_bare object]
  | .index object at_ => by
      rw [bareKind, evalKind, evalKind, eval_bare object, eval_bare at_]
  | .call callee args => by
      rw [bareKind, evalKind, evalKind, eval_bare callee, evalAll_bareItems args,
        calleeName_bare callee]
  | .unary _ operand => by
      rw [bareKind, evalKind, evalKind, eval_bare operand]
  | .binary _ left right => by
      rw [bareKind, evalKind, evalKind, eval_bare left, eval_bare right]
  | .conditional condition consequent otherwise => by
      rw [bareKind, evalKind, evalKind, eval_bare condition, eval_bare consequent,
        eval_bare otherwise]

theorem evalAll_bareItems : ∀ es : List Expr, evalAll c env (bareItems es) = evalAll c env es
  | [] => rfl
  | e :: rest => by
      rw [bareItems, evalAll, evalAll, eval_bare e, evalAll_bareItems rest]

theorem evalEntries_bareEntries :
    ∀ es : List (String × Expr), evalEntries c env (bareEntries es) = evalEntries c env es
  | [] => rfl
  | (_, e) :: rest => by
      rw [bareEntries, evalEntries, evalEntries, eval_bare e, evalEntries_bareEntries rest]

end

/-! ## Expressions in a row -/

/-- The values of expressions, one for each, and the world that the last one leaves. -/
inductive Evaluates : σ → List Expr → List Value → σ → Prop
  | nil (s : σ) : Evaluates s [] [] s
  | cons {s s₁ s₂ : σ} {e : Expr} {es : List Expr} {v : Value} {vs : List Value} :
      ExceptT.run (e.eval c env) s = some (.ok v, s₁) → Evaluates s₁ es vs s₂ →
      Evaluates s (e :: es) (v :: vs) s₂

variable {c env}

theorem run_evalAll_eq_ok_iff {s s' : σ} {es : List Expr} {vs : List Value} :
    ExceptT.run (evalAll c env es) s = some (.ok vs, s') ↔ Evaluates c env s es vs s' := by
  induction es generalizing s vs with
  | nil =>
      constructor
      · rintro ⟨⟩
        exact .nil _
      · rintro ⟨⟩
        rfl
  | cons e es ih =>
      rw [evalAll, run_bind_eq_ok_iff]
      constructor
      · rintro ⟨v, s₁, he, hrest⟩
        obtain ⟨vs, s₂, hrest, heq⟩ := run_bind_eq_ok_iff.mp hrest
        cases heq
        exact .cons he (ih.mp hrest)
      · rintro (_ | ⟨he, hrest⟩)
        exact ⟨_, _, he, run_bind_eq_ok_iff.mpr ⟨_, _, ih.mpr hrest, rfl⟩⟩

theorem evaluates_congr {s s' : σ} {es es' : List Expr} {vs : List Value}
    (h : bareItems es = bareItems es') : Evaluates c env s es vs s' ↔ Evaluates c env s es' vs s' := by
  rw [← run_evalAll_eq_ok_iff, ← run_evalAll_eq_ok_iff, ← evalAll_bareItems c env es, h,
    evalAll_bareItems]

/-- The value of an array is new, and holds the values of its items. -/
theorem run_eval_array_eq_ok_iff {s s' : σ} {e : Expr} {items : List Expr} {v : Value}
    (h : e.kind = .array items) : ExceptT.run (e.eval c env) s = some (.ok v, s') ↔
      ∃ vs s₁, Evaluates c env s items vs s₁ ∧ v = .array (c.host.fresh s₁).1 vs ∧
        s' = (c.host.fresh s₁).2 := by
  obtain ⟨kind, span⟩ := e
  obtain rfl : kind = .array items := h
  rw [eval, evalKind, run_bind_eq_ok_iff]
  constructor
  · rintro ⟨vs, s₁, hvs, hnew⟩
    change some (Except.ok (Value.array (c.host.fresh s₁).1 vs), (c.host.fresh s₁).2) = _ at hnew
    cases hnew
    exact ⟨vs, s₁, run_evalAll_eq_ok_iff.mp hvs, rfl, rfl⟩
  · rintro ⟨vs, s₁, hvs, rfl, rfl⟩
    exact ⟨vs, s₁, run_evalAll_eq_ok_iff.mpr hvs, rfl⟩

end

end LiveMarkup.Expr
