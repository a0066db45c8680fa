import LiveMarkup.Proofs.Render.Agreement
import LiveMarkup.Reactive.Script
import LiveMarkup.Reactive.Store
set_option autoImplicit false

/-! # Writes that fail

A write stores the new value, runs the watcher of the key, and puts the old value back when the
watcher fails. `Store.snapshot_of_failed_write` says what is left of it when the watcher itself
wrote nothing: no refresh is asked for, and the state is as before exactly when it had the key. A key that
was not there before the write is there afterwards, with null. -/

namespace LiveMarkup

namespace Table

variable {α : Type}

/-- Of two writes to one key the second counts. -/
theorem insert_insert (key : String) (first second : α) (t : Table α) :
    insert key second (insert key first t) = insert key second t := by
  induction t with
  | nil => simp [insert]
  | cons entry rest ih =>
      by_cases h : entry.1 = key
      · simp [insert, h]
      · simp only [insert, if_neg h, ih]

end Table

/-! ## Effects that refuse -/

/-- An effect that ends with a failure without writing to any state; it may read, mark instances as
pending, put work off and leave entries in the journal. The stores are those before and after. -/
inductive Effect.Refuses : Effect → Store → EvalError → Store → Prop
  | fail (e : EvalError) (s : Store) : Refuses (.fail e) s e s
  | read {signal : SignalId} {key : String} {next : Value → Effect} {s s₁ : Store} {e : EvalError} :
    Refuses (next (s.read signal key)) s e s₁ → Refuses (.read signal key next) s e s₁
  | schedule {i : InstanceRef} {next : Bool → Effect} {s s₁ : Store} {e : EvalError} :
    Refuses (next (s.schedule i).1) (s.schedule i).2 e s₁ → Refuses (.schedule i next) s e s₁
  | defer {later next : Effect} {s s₁ : Store} {e : EvalError} :
    Refuses next (s.defer later) e s₁ → Refuses (.defer later next) s e s₁
  | note {entry : List Value} {next : Effect} {s s₁ : Store} {e : EvalError} :
    Refuses next (s.note entry) e s₁ → Refuses (.note entry next) s e s₁

namespace Store

variable {s s₁ : Store} {i : SignalId} {key : String} {v : Value} {w : Watcher} {e : EvalError}

/-- Carrying out an effect that refuses fails, whatever a write would do. -/
theorem run_perform_of_refuses {effect : Effect} (h : effect.Refuses s e s₁) (write : Writer) :
    ExceptT.run (perform write effect) s = some (.error e, s₁) := by
  induction h with
  | fail e s => rfl
  | read _ ih => exact ih
  | schedule _ ih => exact ih
  | defer _ ih => exact ih
  | note _ ih => exact ih

/-- An effect that refuses leaves every state as it is. -/
theorem signals_of_refuses {effect : Effect} (h : effect.Refuses s e s₁) :
    s₁.signals = s.signals := by
  induction h with
  | fail e s => rfl
  | read _ ih => exact ih
  | schedule _ ih => exact ih
  | defer _ ih => exact ih
  | note _ ih => exact ih

/-! ## Putting values -/

theorem signals_put_congr (h : s₁.signals = s.signals) (i : SignalId) (key : String) (v : Value) :
    (s₁.put i key v).signals = (s.put i key v).signals := by
  unfold put
  rw [h]

/-- Of two values that are put under one key the second counts. -/
theorem put_put (s : Store) (i : SignalId) (key : String) (first second : Value) :
    (s.put i key first).put i key second = s.put i key second := by
  have hcompose : ∀ state : SignalState,
      Table.insert key second (Table.insert key first state.data) =
        Table.insert key second state.data :=
    fun state => Table.insert_insert key first second state.data
  unfold put
  congr 1
  apply Array.ext
  · simp
  · intro j hj hj'
    simp only [Array.getElem_modify]
    split <;> simp [hcompose]

theorem snapshot_put_of_ne {j : SignalId} (h : j ≠ i) (s : Store) (key : String) (v : Value) :
    (s.put i key v).snapshot j = s.snapshot j := by
  unfold snapshot put
  dsimp only
  rw [Array.getElem?_modify, if_neg h.symm]

theorem snapshot_put_self (h : s.watcher? i key = some w) (v : Value) :
    (s.put i key v).snapshot i = Table.insert key v (s.snapshot i) := by
  unfold snapshot put
  dsimp only
  rw [Array.getElem?_modify, if_pos rfl]
  cases hi : s.signals[i]? with
  | none => simp [watcher?, hi] at h
  | some state => rfl

/-- Storing what is read leaves a state as it is if it has the key, and else adds the key. -/
theorem insert_read (s : Store) (i : SignalId) (key : String) :
    Table.insert key (s.read i key) (s.snapshot i) =
      if key ∈ Table.keys (s.snapshot i) then s.snapshot i else s.snapshot i ++ [(key, .null)] := by
  unfold read
  cases hget : Table.get? key (s.snapshot i) with
  | some old =>
      have hmem : key ∈ Table.keys (s.snapshot i) := Table.get?_isSome_iff.mp (by simp [hget])
      rw [if_pos hmem]
      exact Table.insert_of_get? hget
  | none =>
      have hnot : key ∉ Table.keys (s.snapshot i) := by
        rw [← Table.get?_isSome_iff, hget]
        exact Bool.false_ne_true
      rw [if_neg hnot]
      exact Table.insert_of_not_mem hnot .null

/-! ## Failing writes -/

theorem run_attempt {σ α : Type} (x : Run σ α) (world : σ) :
    ExceptT.run x.attempt world =
      (ExceptT.run x world).map fun (result, world') => (.ok result, world') := rfl

theorem run_failure? {σ α : Type} (x : Run σ α) (world : σ) :
    ExceptT.run x.failure? world =
      (ExceptT.run x world).map fun (result, world') =>
        (.ok (match result with | .ok _ => none | .error e => some e), world') := by
  unfold Run.failure?
  rw [run_bind, run_attempt]
  rcases ExceptT.run x world with _ | ⟨_ | _, _⟩ <;> rfl

/-- A write whose watcher refuses fails with it, and the old value is put back. -/
theorem run_write_of_refuses (hwatched : s.watcher? i key = some w)
    (hrefuses : (w (s.read i key) v).Refuses (s.put i key v) e s₁) (budget : Nat) :
    ExceptT.run (write (budget + 1) i key v) s =
      some (.error e, s₁.put i key (s.read i key)) := by
  have hfails := run_perform_of_refuses hrefuses (write budget)
  rw [write, run_get_bind, run_get_bind, hwatched, run_bind]
  dsimp only [run_update]
  rw [run_bind, run_attempt, hfails]
  rfl

/-- What a failing write leaves. Setting a key and updating it alone fail with the watcher that
refuses and leave one store: the queue is as the watcher left it, and of all states at most the
written one has changed. That one is as before exactly if it had the key; otherwise the key stays
behind with null. -/
theorem snapshot_of_failed_write (hwatched : s.watcher? i key = some w)
    (hrefuses : (w (s.read i key) v).Refuses (s.put i key v) e s₁) (budget : Nat) :
    ∃ s', ExceptT.run (set (budget + 1) i key v) s = some (.error e, s') ∧
      (∀ refresh, ExceptT.run (update (budget + 1) i [(key, v)] refresh) s =
        some (.error e, s')) ∧
      s'.queue = s₁.queue ∧ (∀ j, j ≠ i → s'.snapshot j = s.snapshot j) ∧
      (s'.snapshot i = s.snapshot i ↔ key ∈ Table.keys (s.snapshot i)) ∧
      (key ∉ Table.keys (s.snapshot i) → s'.snapshot i = s.snapshot i ++ [(key, .null)]) := by
  have hwrite := run_write_of_refuses hwatched hrefuses budget
  have hsignals : (s₁.put i key (s.read i key)).signals = (s.put i key (s.read i key)).signals := by
    rw [signals_put_congr (signals_of_refuses hrefuses), put_put]
  have hself : (s₁.put i key (s.read i key)).snapshot i =
      if key ∈ Table.keys (s.snapshot i) then s.snapshot i else s.snapshot i ++ [(key, .null)] := by
    rw [snapshot_congr hsignals, snapshot_put_self hwatched, insert_read]
  refine ⟨s₁.put i key (s.read i key), ?_, ?_, rfl, ?_, ?_, ?_⟩
  · rw [set, setWith, run_bind, hwrite]
  · intro refresh
    rw [update, updateWith, run_bind, writeAll, run_bind, run_failure?, hwrite]
    cases refresh <;> rfl
  · intro j hj
    rw [snapshot_congr hsignals, snapshot_put_of_ne hj]
  · rw [hself]
    split
    · next hmem => exact iff_of_true rfl hmem
    · next hnot => exact iff_of_false (by simp) hnot
  · intro hnot
    rw [hself, if_neg hnot]

/-- The state of a form without fields whose key `age` is read-only. -/
def readOnlyAge : Store :=
  (empty.newSignal ⟨"form", "form"⟩ [] true).2.watch 0 "age"
    ((Script.Reaction.fail "read-only").watcher "age")

/-- Setting a read-only key that has never been written leaves it behind with null. -/
theorem snapshot_of_failed_write_readOnlyAge :
    readOnlyAge.snapshot 0 = [] ∧
      ∃ s', ExceptT.run (set 1 0 "age" (.int 1)) readOnlyAge =
          some (.error (.custom "read-only"), s') ∧
        s'.snapshot 0 = [("age", .null)] ∧ s'.queue = readOnlyAge.queue := by
  have hrefuses : Effect.Refuses
      ((Script.Reaction.fail "read-only").watcher "age" .null (.int 1))
      (readOnlyAge.put 0 "age" (.int 1)) (.custom "read-only")
      ((readOnlyAge.put 0 "age" (.int 1)).note [.str "watch", .str "age", .null, .int 1]) :=
    .note (.fail _ _)
  have hwatched : readOnlyAge.watcher? 0 "age" =
      some ((Script.Reaction.fail "read-only").watcher "age") := rfl
  obtain ⟨s', hset, -, hqueue, -, -, hself⟩ := snapshot_of_failed_write hwatched hrefuses 0
  exact ⟨rfl, s', hset, hself List.not_mem_nil, hqueue⟩

end Store

end LiveMarkup
