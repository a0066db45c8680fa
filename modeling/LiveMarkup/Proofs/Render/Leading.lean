import LiveMarkup.Proofs.Render.Agreement
set_option autoImplicit false

/-! # Where computations lead

What holds between the worlds before and after every step of a computation holds between the worlds
before and after its runs, if it can be put together. Failed runs count as well: what was done
before a failure stays done. -/

namespace LiveMarkup

section

variable {σ ε α β : Type} {R : σ → σ → Prop}

/-- A relation that holds along any number of steps. -/
structure Steps (R : σ → σ → Prop) : Prop where
  refl : ∀ s, R s s
  trans : ∀ {s t u}, R s t → R t u → R s u

/-- A computation whose runs, failed ones included, end in related worlds. -/
def Leads (R : σ → σ → Prop) (x : ExceptT ε (StateT σ Option) α) : Prop :=
  ∀ s outcome s', ExceptT.run x s = some (outcome, s') → R s s'

namespace Steps

variable (hR : Steps R)

include hR

theorem pure (a : α) : Leads R (Pure.pure a : ExceptT ε (StateT σ Option) α) := by
  rintro s _ _ ⟨⟩
  exact hR.refl s

theorem bind {x : ExceptT ε (StateT σ Option) α} {f : α → ExceptT ε (StateT σ Option) β}
    (hx : Leads R x) (hf : ∀ a, Leads R (f a)) : Leads R (x >>= f) := by
  intro s outcome s' h
  rw [run_bind] at h
  cases hrun : ExceptT.run x s with
  | none => simp [hrun] at h
  | some step =>
      obtain ⟨e | a, s₁⟩ := step
      · rw [hrun] at h
        obtain ⟨-, rfl⟩ := Prod.mk.inj (Option.some.inj h)
        exact hx s _ _ hrun
      · rw [hrun] at h
        exact hR.trans (hx s _ _ hrun) (hf a s₁ _ _ h)

end Steps

/-- What is done next may depend on the world. -/
theorem leads_get_bind {f : σ → ExceptT ε (StateT σ Option) α} (h : ∀ s, Leads R (f s)) :
    Leads R (get >>= f) :=
  fun s _ _ hrun => h s s _ _ hrun

end

section

variable {σ α : Type} {R : σ → σ → Prop}

theorem Steps.failed (hR : Steps R) (e : EvalError) : Leads R (Run.failed e : Run σ α) := by
  rintro s _ _ ⟨⟩
  exact hR.refl s

theorem leads_update {f : σ → α × σ} (h : ∀ s, R s (f s).2) : Leads R (Run.update f) := by
  rintro s _ _ ⟨⟩
  exact h s

theorem Leads.attempt {x : Run σ α} (h : Leads R x) : Leads R x.attempt := by
  intro s outcome s' hrun
  obtain ⟨⟨result, s₁⟩, hx, heq⟩ := Option.map_eq_some_iff.mp hrun
  obtain rfl : s₁ = s' := congrArg Prod.snd heq
  exact h s result s₁ hx

theorem Steps.raise (hR : Steps R) (failure : Option EvalError) :
    Leads R (match failure with
      | none => Pure.pure ()
      | some e => Run.failed e : Run σ Unit) := by
  cases failure with
  | none => exact hR.pure ()
  | some e => exact hR.failed e

theorem Steps.failure? (hR : Steps R) {x : Run σ α} (h : Leads R x) : Leads R x.failure? := by
  refine hR.bind h.attempt fun result => ?_
  cases result with
  | ok _ => exact hR.pure none
  | error e => exact hR.pure (some e)

end

end LiveMarkup
