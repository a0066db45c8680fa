import LiveMarkup.Client.Dispatch
import LiveMarkup.Proofs.Client.Rendering
import LiveMarkup.Proofs.Expr.Lists
import LiveMarkup.Proofs.Render.Values
set_option autoImplicit false

/-! # Arguments of event bindings

The arguments of a binding are put between brackets and read as one expression. If they are a list of
expressions, this gives the values of its items, one for each, from left to right (`Binding.Listed`).
But not only lists are accepted: arguments may close the bracket in front of them and go on, as in
`go([1, 2]][0)`. Then the handler gets what the whole comes to, and if that is an array it gets the
items (`Binding.Spliced`). There is nothing else that succeeds (`Client.arguments_eq_ok_iff`). -/

namespace LiveMarkup

open Text

theorem trim_of_gaps {s : List Char} (h : ∀ c ∈ s, Token.isGap c = true) : trim s = [] := by
  have hblank : ∀ c ∈ s, isBlank c = true := by
    intro c hc
    have hgap := h c hc
    simp only [Token.isGap, Bool.or_eq_true, beq_iff_eq] at hgap
    rcases hgap with ((rfl | rfl) | rfl) | rfl <;> decide
  rw [trim, show trimStart s = [] from List.dropWhile_eq_nil_iff.mpr hblank]
  rfl

namespace Binding

/-- The arguments are a list. Its items are evaluated one after the other, and then the array of them
gets an identity. -/
def Listed (budget : Nat) (b : Binding) (data : Value) (c : Client) (vs : List Value)
    (c' : Client) : Prop :=
  ∃ es store, Expr.Lists b.arguments.toList es ∧
    Expr.Evaluates (.plain (Store.host budget) data) .empty c.store es vs store ∧
    c' = { c with store := store.fresh.2 }

/-- The arguments are no list. They close the bracket that is put in front of them, behind a list or
gaps, and make an expression with it that is no array. -/
def Spliced (budget : Nat) (b : Binding) (data : Value) (c : Client) (vs : List Value)
    (c' : Client) : Prop :=
  (∀ es, ¬Expr.Lists b.arguments.toList es) ∧
    (∃ before after, b.arguments.toList = before ++ ']' :: after ∧
      ((∀ c ∈ before, Token.isGap c = true) ∨ ∃ es, Expr.Lists before es)) ∧
    ∃ e v store, Expr.ofSource ("[" ++ b.arguments ++ "]") = .ok e ∧
      (∀ items, e.kind ≠ .array items) ∧
      ExceptT.run (e.eval (.plain (Store.host budget) data) .empty) c.store = some (.ok v, store) ∧
      vs = argumentsOf v ∧ c' = { c with store }

/-! ## What the arguments are read as -/

section

variable (b : Binding)

theorem bracketed_arguments :
    "[" ++ b.arguments ++ "]" = String.ofList (bracketed b.arguments.toList) := by
  apply String.toList_injective
  simp only [String.toList_append, String.toList_ofList]
  rfl

theorem expression?_of_blank (h : (trim b.arguments.toList).isEmpty = true) :
    b.expression? = .ok none := by
  rw [expression?, if_pos h]

variable {b} (hblank : ¬(trim b.arguments.toList).isEmpty = true)

include hblank

theorem expression?_of_ofSource {e : Expr}
    (h : Expr.ofSource (String.ofList (bracketed b.arguments.toList)) = .ok e) :
    b.expression? = .ok (some e) := by
  rw [expression?, if_neg hblank, b.bracketed_arguments, h]
  rfl

theorem expression?_of_error {e : SyntaxError}
    (h : Expr.ofSource (String.ofList (bracketed b.arguments.toList)) = .error e) :
    b.expression? = .error e := by
  rw [expression?, if_neg hblank, b.bracketed_arguments, h]
  rfl

end

end Binding

namespace Client

variable {budget : Nat} {b : Binding} {data : Value} {c c' : Client} {vs : List Value}

theorem run_onStore {α : Type} (x : Run Store α) (c : Client) :
    ExceptT.run (liftM (Act.onStore x) : Attempt (Except EvalError α)) c =
      (ExceptT.run x c.store).map fun (result, store) => (.ok result, { c with store }) := by
  rw [run_lift]
  exact Option.map_map _ _ _

/-- Arguments that make an expression are what its value stands for. -/
theorem run_arguments_iff {e : Expr} (h : b.expression? = .ok (some e)) :
    ExceptT.run (arguments budget b data) c = some (.ok vs, c') ↔ ∃ v store,
      ExceptT.run (e.eval (.plain (Store.host budget) data) .empty) c.store = some (.ok v, store) ∧
        vs = Binding.argumentsOf v ∧ c' = { c with store } := by
  rw [arguments, h]
  change ExceptT.run (liftM (Act.onStore _) >>= fun result =>
    Attempt.ofExcept (.callback ("arguments of " ++ b.handler)) result >>= fun v =>
      pure (Binding.argumentsOf v)) c = _ ↔ _
  rw [run_bind_eq_ok_iff, run_onStore]
  constructor
  · rintro ⟨result, c₁, hread, hrest⟩
    obtain ⟨⟨value, store⟩, hrun, heq⟩ := Option.map_eq_some_iff.mp hread
    cases heq
    cases result with
    | error e => cases hrest
    | ok v =>
        cases hrest
        exact ⟨v, store, hrun, rfl, rfl⟩
  · rintro ⟨v, store, hrun, rfl, rfl⟩
    exact ⟨.ok v, { c with store }, by rw [hrun]; rfl, rfl⟩

/-- The values of a list are those of its items. -/
theorem run_arguments_of_lists {es : List Expr} (hblank : ¬(trim b.arguments.toList).isEmpty = true)
    (h : Expr.Lists b.arguments.toList es) :
    ExceptT.run (arguments budget b data) c = some (.ok vs, c') ↔ ∃ store,
      Expr.Evaluates (.plain (Store.host budget) data) .empty c.store es vs store ∧
        c' = { c with store := store.fresh.2 } := by
  obtain ⟨e, items, hread, hkind, hbare⟩ := h.ofSource_bracketed
  rw [run_arguments_iff (b.expression?_of_ofSource hblank hread)]
  constructor
  · rintro ⟨v, _, hrun, rfl, rfl⟩
    obtain ⟨vs, store, hvs, rfl, rfl⟩ := (Expr.run_eval_array_eq_ok_iff hkind).mp hrun
    exact ⟨store, (Expr.evaluates_congr hbare).mp hvs, rfl⟩
  · rintro ⟨store, hvs, rfl⟩
    exact ⟨_, _, (Expr.run_eval_array_eq_ok_iff hkind).mpr
      ⟨vs, store, (Expr.evaluates_congr hbare).mpr hvs, rfl, rfl⟩, rfl, rfl⟩

/-- Arguments that come to values are a list, or go on behind a bracket of their own. -/
theorem listed_or_spliced (hblank : ¬(trim b.arguments.toList).isEmpty = true)
    (h : ExceptT.run (arguments budget b data) c = some (.ok vs, c')) :
    b.Listed budget data c vs c' ∨ b.Spliced budget data c vs c' := by
  cases hread : Expr.ofSource (String.ofList (bracketed b.arguments.toList)) with
  | error e =>
      rw [arguments, b.expression?_of_error hblank hread] at h
      cases h
  | ok e =>
      obtain ⟨es, hlists⟩ | ⟨hkind, hcloses⟩ :=
        Expr.lists_or_closes_of_ofSource hread fun h => hblank (by rw [trim_of_gaps h]; rfl)
      · obtain ⟨store, hvs, rfl⟩ := (run_arguments_of_lists hblank hlists).mp h
        exact .inl ⟨es, store, hlists, hvs, rfl⟩
      · obtain ⟨v, store, hrun, rfl, rfl⟩ :=
          (run_arguments_iff (b.expression?_of_ofSource hblank hread)).mp h
        exact .inr ⟨Expr.not_lists_of_kind hread hkind, hcloses, e, v, store,
          b.bracketed_arguments ▸ hread, hkind, hrun, rfl, rfl⟩

/-- What the handler gets: nothing if the text of the arguments is blank, the values of its items if it
is a list, and what it comes to if it closes the bracket in front of it. No other arguments come to
values. -/
theorem arguments_eq_ok_iff (budget : Nat) (b : Binding) (data : Value) (c c' : Client)
    (vs : List Value) :
    ExceptT.run (arguments budget b data) c = some (.ok vs, c') ↔
      if (trim b.arguments.toList).isEmpty then vs = [] ∧ c' = c
      else b.Listed budget data c vs c' ∨ b.Spliced budget data c vs c' := by
  split
  · next hblank =>
      rw [arguments, b.expression?_of_blank hblank]
      constructor
      · rintro ⟨⟩
        exact ⟨rfl, rfl⟩
      · rintro ⟨rfl, rfl⟩
        rfl
  · next hblank =>
      refine ⟨listed_or_spliced hblank, ?_⟩
      rintro (⟨es, store, hlists, hvs, rfl⟩ | ⟨-, -, e, v, store, hread, -, hrun, rfl, rfl⟩)
      · exact (run_arguments_of_lists hblank hlists).mpr ⟨store, hvs, rfl⟩
      · rw [b.bracketed_arguments] at hread
        exact (run_arguments_iff (b.expression?_of_ofSource hblank hread)).mpr
          ⟨v, store, hrun, rfl, rfl⟩

/-! ## A bracket of one's own -/

/-- `go([1, 2]][0)`: with the brackets, the first item of a list of one. -/
def reopened : Binding := ⟨"go", "[1, 2]][0"⟩

theorem ofSource_reopened : Expr.ofSource (String.ofList (bracketed reopened.arguments.toList)) =
    .ok (.node (.index
      (.node (.array [.node (.array [.node (.int 1) ⟨2, 3⟩, .node (.int 2) ⟨5, 6⟩]) ⟨1, 7⟩]) ⟨0, 8⟩)
      (.node (.int 0) ⟨9, 10⟩)) ⟨0, 11⟩) := by cbv

theorem run_arguments_reopened (budget : Nat) (data : Value) (c : Client) :
    ExceptT.run (arguments budget reopened data) c =
      some (.ok [.int 1, .int 2], { c with store := c.store.fresh.2.fresh.2 }) := by
  refine (run_arguments_iff (Binding.expression?_of_ofSource (by decide) ofSource_reopened)).mpr
    ⟨.array c.store.fresh.1 [.int 1, .int 2], _, ?_, rfl, rfl⟩
  rfl

/-- Arguments that are no list are accepted, and the handler gets two of them. -/
theorem arguments_reopened : ¬∀ (budget : Nat) (text : String) (b : Binding) (data : Value)
    (c c' : Client) (vs : List Value), Binding.parse text = .ok b →
      ExceptT.run (arguments budget b data) c = some (.ok vs, c') →
      (trim b.arguments.toList).isEmpty = true ∨ ∃ es store, Expr.Lists b.arguments.toList es ∧
        Expr.Evaluates (.plain (Store.host budget) data) .empty c.store es vs store := by
  intro h
  have hparse : Binding.parse "go([1, 2]][0)" = .ok reopened := by rfl
  obtain hblank | ⟨es, _, hlists, -⟩ := h 0 _ _ .null (create .empty .braces) _ _ hparse
    (run_arguments_reopened 0 .null _)
  · exact absurd hblank (by decide)
  · exact Expr.not_lists_of_kind ofSource_reopened nofun es hlists

end Client

end LiveMarkup
