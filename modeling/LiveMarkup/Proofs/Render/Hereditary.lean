import LiveMarkup.Render.Execute
set_option autoImplicit false

/-! # Classes of values that evaluation does not leave -/

namespace LiveMarkup

/-- A class of values that evaluation does not leave: it has all scalars, it has a container exactly
when it has what is in it. -/
structure Hereditary (P : Value → Prop) : Prop where
  null : P .null
  bool : ∀ b, P (.bool b)
  int : ∀ n, P (.int n)
  float : ∀ x, P (.float x)
  str : ∀ s, P (.str s)
  array : ∀ i items, P (.array i items) ↔ ∀ v ∈ items, P v
  object : ∀ i fields, (∀ e ∈ fields, P e.2) → P (.object i (Table.ofList fields))
  fields : ∀ i fields, P (.object i fields) → ∀ e ∈ fields, P e.2

theorem hereditary_true : Hereditary fun _ => True :=
  ⟨trivial, fun _ => trivial, fun _ => trivial, fun _ => trivial, fun _ => trivial, by simp,
    by simp, by simp⟩

namespace Hereditary

variable {P : Value → Prop} (h : Hereditary P)

include h

theorem get? {i : Ident} {fields : Table Value} (hv : P (.object i fields)) {name : String}
    {v : Value} (hget : Table.get? name fields = some v) : P v :=
  h.fields i fields hv _ (Table.mem_of_get? hget)

theorem member {v w : Value} (hv : P v) {name : String} (hw : v.member name = .ok w) : P w := by
  cases v <;> simp only [Value.member, Except.ok.injEq, reduceCtorEq] at hw
  case object i fields =>
      subst hw
      cases hget : Table.get? name fields with
      | none => exact h.null
      | some w => exact h.get? hv hget
  all_goals
    subst hw
    try split
  all_goals first | exact h.null | exact h.int _

theorem itemAt {i : Ident} {items : List Value} (hv : P (.array i items)) (n : Int64) :
    P ((Value.itemAt items n).getD .null) := by
  unfold Value.itemAt
  split
  · cases hget : items[n.toInt.toNat]? with
    | none => exact h.null
    | some w => exact (h.array i items).mp hv w (List.mem_of_getElem? hget)
  · exact h.null

theorem index {v key w : Value} (hv : P v) (hw : v.index key = .ok w) : P w := by
  unfold Value.index at hw
  split at hw
  · simp at hw
  · obtain rfl := Except.ok.inj hw
    exact h.itemAt hv _
  · obtain rfl := Except.ok.inj hw
    cases Value.itemAt _ _ with
    | none => exact h.null
    | some c => exact h.str _
  · exact h.member hv hw

theorem arithmetic (whole : Int → Int → Option Int) (real : Float → Float → Float) (l r : Value) :
    P (Value.arithmetic whole real l r) := by
  unfold Value.arithmetic
  split
  · split
    · exact h.int _
    · exact h.float _
  · exact h.float _

theorem binary (op : BinaryOp) {l r : Value} (hl : P l) (hr : P r) : P (op.apply l r) := by
  cases op <;> simp only [BinaryOp.apply]
  case add =>
      unfold Value.add
      split
      · exact h.str _
      · exact h.arithmetic _ _ _ _
  case sub => exact h.arithmetic _ _ _ _
  case mul => exact h.arithmetic _ _ _ _
  case mod => exact h.arithmetic _ _ _ _
  case div => exact h.float _
  all_goals try split
  all_goals first | exact h.bool _ | assumption

theorem unary (op : UnaryOp) (v : Value) : P (op.apply v) := by
  unfold UnaryOp.apply
  split
  · exact h.bool _
  · split
    · exact h.int _
    · exact h.float _
  · exact h.float _
  · exact h.int _
  · exact h.float _

theorem loopPairs {v : Value} (hv : P v) {pairs : List (Value × Value)}
    (hpairs : v.loopPairs? = some pairs) : ∀ e ∈ pairs, P e.1 ∧ P e.2 := by
  unfold Value.loopPairs? at hpairs
  split at hpairs
  · obtain rfl := Option.some.inj hpairs
    simp only [List.mem_map]
    rintro _ ⟨⟨w, i⟩, hmem, rfl⟩
    exact ⟨h.int _, (h.array _ _).mp hv w (List.fst_mem_of_mem_zipIdx hmem)⟩
  · obtain rfl := Option.some.inj hpairs
    simp only [List.mem_map]
    rintro _ ⟨⟨key, w⟩, hmem, rfl⟩
    exact ⟨h.str _, h.fields _ _ hv _ hmem⟩
  · simp at hpairs

end Hereditary

/-! ## Environments -/

section

variable {P : Value → Prop}

/-- Every value that an environment binds is of a class. -/
def Environment.Within (P : Value → Prop) (env : Environment) : Prop :=
  ∀ scope ∈ env.innermost :: env.outer, ∀ e ∈ scope, P e.2

theorem Environment.within_empty : Environment.empty.Within P := by
  intro scope hscope e he
  obtain rfl : scope = [] := by simpa [Environment.empty] using hscope
  simp at he

theorem Environment.Within.lookup {env : Environment} (h : env.Within P) {name : String} {v : Value}
    (hv : env.lookup? name = some v) : P v := by
  have hin : ∀ scopes : List (Table Value), (∀ scope ∈ scopes, ∀ e ∈ scope, P e.2) →
      ∀ v, Environment.lookupIn name scopes = some v → P v := by
    intro scopes
    induction scopes with
    | nil => simp [Environment.lookupIn]
    | cons scope rest ih =>
        intro hscopes v hv
        rw [Environment.lookupIn] at hv
        cases hget : Table.get? name scope with
        | some w =>
            rw [hget] at hv
            obtain rfl := Option.some.inj hv
            exact hscopes scope List.mem_cons_self _ (Table.mem_of_get? hget)
        | none =>
            rw [hget] at hv
            exact ih (fun s hs => hscopes s (List.mem_cons_of_mem _ hs)) v hv
  exact hin _ h v hv

theorem Table.forall_insert {name : String} {v : Value} {t : Table Value} (ht : ∀ e ∈ t, P e.2)
    (hv : P v) : ∀ e ∈ Table.insert name v t, P e.2 := by
  intro e he
  rcases Table.mem_insert he with rfl | he
  · exact hv
  · exact ht e he

theorem Environment.Within.define {env : Environment} (h : env.Within P) {name : String} {v : Value}
    (hv : P v) : (env.define name v).Within P := by
  intro scope hscope
  rcases List.mem_cons.mp hscope with rfl | hscope
  · exact Table.forall_insert (h _ List.mem_cons_self) hv
  · exact h scope (List.mem_cons_of_mem _ hscope)

theorem Environment.Within.push {env : Environment} (h : env.Within P) : env.push.Within P := by
  intro scope hscope
  rcases List.mem_cons.mp hscope with rfl | hscope
  · exact fun e he => absurd he List.not_mem_nil
  · exact h scope hscope

theorem Environment.Within.pop {env : Environment} (h : env.Within P) : env.pop.Within P := by
  unfold Environment.pop
  cases houter : env.outer with
  | nil => exact h
  | cons scope rest =>
      intro s hs
      refine h s (List.mem_cons_of_mem _ ?_)
      rwa [houter]

theorem Environment.Within.assign {env env' : Environment} (h : env.Within P) {name : String}
    {v : Value} (hv : P v) (hassign : env.assign? name v = some env') : env'.Within P := by
  have hin : ∀ scopes scopes' : List (Table Value), (∀ scope ∈ scopes, ∀ e ∈ scope, P e.2) →
      Environment.assignIn name v scopes = some scopes' → ∀ scope ∈ scopes', ∀ e ∈ scope, P e.2 := by
    intro scopes
    induction scopes with
    | nil => simp [Environment.assignIn]
    | cons scope rest ih =>
        intro scopes' hscopes hsome
        rw [Environment.assignIn] at hsome
        split at hsome
        · obtain rfl := Option.some.inj hsome
          intro s hs
          rcases List.mem_cons.mp hs with rfl | hs
          · exact Table.forall_insert (hscopes scope List.mem_cons_self) hv
          · exact hscopes s (List.mem_cons_of_mem _ hs)
        · obtain ⟨rest', hrest, rfl⟩ := Option.map_eq_some_iff.mp hsome
          intro s hs
          rcases List.mem_cons.mp hs with rfl | hs
          · exact hscopes s List.mem_cons_self
          · exact ih rest' (fun s hs => hscopes s (List.mem_cons_of_mem _ hs)) hrest s hs
  unfold Environment.assign? at hassign
  split at hassign
  · obtain rfl := Option.some.inj hassign
    exact h.define hv
  · obtain ⟨outer, houter, rfl⟩ := Option.map_eq_some_iff.mp hassign
    intro scope hscope
    rcases List.mem_cons.mp hscope with rfl | hscope
    · exact h _ List.mem_cons_self
    · exact hin _ outer (fun s hs => h s (List.mem_cons_of_mem _ hs)) houter scope hscope

end

end LiveMarkup
