import LiveMarkup.Render.Call
set_option autoImplicit false

/-! # Computations that agree

Two computations over different worlds agree if from related worlds on both exceed the budget, both
fail, or both have the same result and leave related worlds. A computation that agrees with itself
keeps an invariant. -/

namespace LiveMarkup

/-- How two worlds are related. After a failure less may be known of them. -/
structure Bridge (σ τ : Type) where
  on : σ → τ → Prop
  failed : σ → τ → Prop
  weaken : ∀ s t, on s t → failed s t

/-- The bridge of computations that are compared with themselves: one world with an invariant. -/
def Bridge.keeping {σ : Type} (I : σ → Prop) : Bridge σ σ where
  on := fun s t => s = t ∧ I s
  failed := fun s t => s = t ∧ I s
  weaken := fun _ _ h => h

section

variable {σ τ ε δ α β : Type}

/-- Both outcomes are no outcome, both are failures, or both are one result from a class and leave
related worlds. -/
def AgreeAt (P : α → Prop) (R : Bridge σ τ) :
    Option (Except ε α × σ) → Option (Except δ α × τ) → Prop
  | none, none => True
  | some (.ok a, s), some (.ok b, t) => a = b ∧ P a ∧ R.on s t
  | some (.error _, s), some (.error _, t) => R.failed s t
  | _, _ => False

theorem AgreeAt.cases {P : α → Prop} {R : Bridge σ τ} {x : Option (Except ε α × σ)}
    {y : Option (Except δ α × τ)} (h : AgreeAt P R x y) :
    (x = none ∧ y = none) ∨
      (∃ e s e' t, x = some (.error e, s) ∧ y = some (.error e', t) ∧ R.failed s t) ∨
      ∃ a s t, x = some (.ok a, s) ∧ y = some (.ok a, t) ∧ P a ∧ R.on s t := by
  rcases x with _ | ⟨e | a, s⟩ <;> rcases y with _ | ⟨e' | b, t⟩ <;>
    simp only [AgreeAt] at h
  · exact .inl ⟨rfl, rfl⟩
  · exact .inr (.inl ⟨e, s, e', t, rfl, rfl, h⟩)
  · obtain ⟨rfl, ha, hst⟩ := h
    exact .inr (.inr ⟨a, s, t, rfl, rfl, ha, hst⟩)

/-- What is done with outcomes that agree, if it makes of failures and of results what agrees. -/
theorem AgreeAt.map {σ' τ' ε' δ' : Type} {P : α → Prop} {Q : β → Prop} {R : Bridge σ τ}
    {S : Bridge σ' τ'} {x : Option (Except ε α × σ)} {y : Option (Except δ α × τ)}
    {f : Except ε α × σ → Except ε' β × σ'} {g : Except δ α × τ → Except δ' β × τ'}
    (h : AgreeAt P R x y)
    (hfailed : ∀ e s e' t, R.failed s t →
      AgreeAt Q S (some (f (.error e, s))) (some (g (.error e', t))))
    (hon : ∀ a s t, P a → R.on s t → AgreeAt Q S (some (f (.ok a, s))) (some (g (.ok a, t)))) :
    AgreeAt Q S (x.map f) (y.map g) := by
  obtain ⟨hs, ht⟩ | ⟨e, s, e', t, hs, ht, hst⟩ | ⟨a, s, t, hs, ht, ha, hst⟩ := h.cases
  · rw [hs, ht]
    trivial
  · rw [hs, ht]
    exact hfailed e s e' t hst
  · rw [hs, ht]
    exact hon a s t ha hst

/-- Two computations agree from related worlds on. -/
def Agree (P : α → Prop) (R : Bridge σ τ) (x : ExceptT ε (StateT σ Option) α)
    (y : ExceptT δ (StateT τ Option) α) : Prop :=
  ∀ s t, R.on s t → AgreeAt P R (ExceptT.run x s) (ExceptT.run y t)

theorem run_bind (x : ExceptT ε (StateT σ Option) α) (f : α → ExceptT ε (StateT σ Option) β)
    (s : σ) : ExceptT.run (x >>= f) s =
      match ExceptT.run x s with
      | none => none
      | some (.ok a, s') => ExceptT.run (f a) s'
      | some (.error e, s') => some (.error e, s') := by
  show (ExceptT.run x s).bind _ = _
  rcases ExceptT.run x s with _ | ⟨e | a, s'⟩ <;> rfl

/-- What cannot fail is run as a step of what can. -/
theorem run_lift (x : StateT σ Option α) (s : σ) :
    ExceptT.run (liftM x : ExceptT ε (StateT σ Option) α) s =
      (x s).map fun (a, s') => (.ok a, s') := by
  show (x s).bind _ = _
  cases x s <;> rfl

/-- What comes of two steps one after the other, if both succeed. -/
theorem run_bind_eq_ok_iff {x : ExceptT ε (StateT σ Option) α}
    {f : α → ExceptT ε (StateT σ Option) β} {s s'' : σ} {b : β} :
    ExceptT.run (x >>= f) s = some (.ok b, s'') ↔ ∃ a s',
      ExceptT.run x s = some (.ok a, s') ∧ ExceptT.run (f a) s' = some (.ok b, s'') := by
  rw [run_bind]
  constructor
  · intro h
    split at h
    · cases h
    · next a s' hx => exact ⟨a, s', hx, h⟩
    · cases h
  · rintro ⟨a, s', hx, hf⟩
    rw [hx]
    exact hf

variable {P : α → Prop} {Q : β → Prop} {R : Bridge σ τ}

theorem Agree.bind {x : ExceptT ε (StateT σ Option) α} {y : ExceptT δ (StateT τ Option) α}
    {f : α → ExceptT ε (StateT σ Option) β} {g : α → ExceptT δ (StateT τ Option) β}
    (hx : Agree P R x y) (hf : ∀ a, P a → Agree Q R (f a) (g a)) :
    Agree Q R (x >>= f) (y >>= g) := by
  intro s t hst
  rw [run_bind, run_bind]
  obtain ⟨hs, ht⟩ | ⟨e, s', e', t', hs, ht, hfailed⟩ | ⟨a, s', t', hs, ht, ha, hst'⟩ :=
    (hx s t hst).cases
  · rw [hs, ht]
    trivial
  · rw [hs, ht]
    exact hfailed
  · rw [hs, ht]
    exact hf a ha s' t' hst'

theorem Agree.pure {a : α} (ha : P a) :
    Agree P R (Pure.pure a : ExceptT ε (StateT σ Option) α)
      (Pure.pure a : ExceptT δ (StateT τ Option) α) :=
  fun _ _ hst => ⟨rfl, ha, hst⟩

end

section

variable {σ τ α β : Type} {P : α → Prop} {Q : β → Prop} {R : Bridge σ τ}

theorem agree_failed (e e' : EvalError) :
    Agree P R (Run.failed e : Run σ α) (Run.failed e' : Run τ α) :=
  fun s t hst => R.weaken s t hst

theorem agree_ofExcept {x : Except EvalError α} (h : ∀ a, x = .ok a → P a) :
    Agree P R (Run.ofExcept x : Run σ α) (Run.ofExcept x : Run τ α) := by
  cases x with
  | error e => exact agree_failed e e
  | ok a => exact Agree.pure (h a rfl)

theorem Agree.update {f : σ → α × σ} {g : τ → α × τ}
    (h : ∀ s t, R.on s t → (f s).1 = (g t).1 ∧ P (f s).1 ∧ R.on (f s).2 (g t).2) :
    Agree P R (Run.update f) (Run.update g) :=
  h

@[simp] theorem run_update (f : σ → α × σ) (s : σ) :
    ExceptT.run (Run.update f) s = some (.ok (f s).1, (f s).2) := rfl

theorem run_get_bind (f : σ → Run σ α) (s : σ) :
    ExceptT.run (get >>= f) s = ExceptT.run (f s) s := rfl

theorem run_within {part : σ → τ} {put : τ → σ → σ} (x : Run τ α) (s : σ) :
    ExceptT.run (Run.within part put x) s =
      (ExceptT.run x (part s)).map fun (result, t) => (result, put t s) := rfl

/-- What is done next may depend on the world. -/
theorem Agree.get_bind {f : σ → Run σ β} {g : τ → Run τ β}
    (h : ∀ s t, R.on s t → AgreeAt Q R (ExceptT.run (f s) s) (ExceptT.run (g t) t)) :
    Agree Q R (get >>= f) (get >>= g) :=
  h

/-- One computation over the same part of two worlds. -/
theorem Agree.within {ρ : Type} {x : Run ρ α} {part : σ → ρ} {part' : τ → ρ} {put : ρ → σ → σ}
    {put' : ρ → τ → τ} (hpart : ∀ s t, R.on s t → part s = part' t)
    (hput : ∀ s t p, R.on s t → R.on (put p s) (put' p t)) :
    Agree (fun _ => True) R (Run.within part put x) (Run.within part' put' x) := by
  intro s t hst
  rw [run_within, run_within, hpart s t hst]
  cases ExceptT.run x (part' t) with
  | none => trivial
  | some outcome =>
      obtain ⟨e | a, p⟩ := outcome
      · exact R.weaken _ _ (hput s t p hst)
      · exact ⟨rfl, trivial, hput s t p hst⟩

end

end LiveMarkup
