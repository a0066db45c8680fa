import LiveMarkup.Proofs.QueueHistory
import LiveMarkup.Proofs.Reactive.FailedWrites
import LiveMarkup.Proofs.Render.Tandem
set_option autoImplicit false

/-! # Batches of writes

A batch writes its entries one after the other and asks for one refresh in the end. Where the
watchers of a state write nothing themselves, `update_eq_sets` compares that with setting the
entries in turn: the outcome and the data are the same, and so are the pending instances, although
the two ask for refreshes at different moments. A run of sets is one refresh ahead of the batch from
its first write on (`Behind`); what watchers do to both stores keeps that distance. -/

namespace LiveMarkup

/-- An effect that writes to no state. It may read, leave entries in the journal, put work off, and
mark some instances as pending. What it does then does not depend on whether they were pending,
which is where a batch and its writes in turn differ while they run. -/
def Effect.WritesNothing (marks : InstanceRef → Prop) : Effect → Prop
  | .done _ => True
  | .fail _ => True
  | .read _ _ next => ∀ v, (next v).WritesNothing marks
  | .set _ _ _ _ => False
  | .update _ _ _ _ => False
  | .schedule i next => marks i ∧ next true = next false ∧ (next true).WritesNothing marks
  | .defer _ next => next.WritesNothing marks
  | .note _ next => next.WritesNothing marks

/-! ## Queues -/

namespace Queue

variable {α : Type} {marks : InstanceRef → Prop} {q q' q'' : Queue α}

/-- Two queues with the same keys pending that agree in everything else; in the order of the pending
instances as well, where nothing is marked. -/
structure Agrees (marks : InstanceRef → Prop) (q q' : Queue α) : Prop where
  keys : (q.pending.map InstanceRef.key).Perm (q'.pending.map InstanceRef.key)
  pending : (∀ i, ¬ marks i) → q.pending = q'.pending
  deferred : q.deferred = q'.deferred
  armed : q.armed = q'.armed
  requests : q.requests = q'.requests

theorem Agrees.refl (marks : InstanceRef → Prop) (q : Queue α) : q.Agrees marks q :=
  ⟨.refl _, fun _ => rfl, rfl, rfl, rfl⟩

theorem Agrees.trans (h : q.Agrees marks q') (h' : q'.Agrees marks q'') : q.Agrees marks q'' :=
  ⟨h.keys.trans h'.keys, fun hnone => (h.pending hnone).trans (h'.pending hnone),
    h.deferred.trans h'.deferred, h.armed.trans h'.armed, h.requests.trans h'.requests⟩

theorem Agrees.isPending (h : q.Agrees marks q') (key : String) :
    q.isPending key = q'.isPending key := by
  rw [Bool.eq_iff_iff, isPending_iff, isPending_iff]
  exact h.keys.mem_iff

theorem Agrees.schedule (h : q.Agrees marks q') (i : InstanceRef) :
    (q.schedule i).2.Agrees marks (q'.schedule i).2 := by
  unfold Queue.schedule
  rw [h.isPending]
  split
  · exact h
  · refine ⟨?_, fun hnone => ?_, h.deferred, rfl, ?_⟩
    · simpa only [arm, List.map_append] using h.keys.append_right _
    · simp [arm, h.pending hnone]
    · simp [arm, h.armed, h.requests]

theorem Agrees.defer (h : q.Agrees marks q') (callback : α) :
    (q.defer callback).Agrees marks (q'.defer callback) :=
  ⟨h.keys, h.pending, by simp [Queue.defer, arm, h.deferred], rfl,
    by simp [Queue.defer, arm, h.armed, h.requests]⟩

theorem isPending_schedule (q : Queue α) (i : InstanceRef) (key : String) :
    (q.schedule i).2.isPending key = (q.isPending key || i.key = key) := by
  unfold schedule
  split
  · next h =>
      by_cases hkey : i.key = key
      · rw [← hkey, h]
        simp
      · simp [hkey]
  · simp [arm, isPending]

/-- Marking an instance again changes nothing. -/
theorem schedule_schedule_self (q : Queue α) (i : InstanceRef) :
    ((q.schedule i).2.schedule i).2 = (q.schedule i).2 := by
  have hpending : (q.schedule i).2.isPending i.key = true := by
    rw [isPending_schedule]
    simp
  rw [schedule, if_pos hpending]

/-- Which of two instances is marked first shows in the order of the pending ones at most. -/
theorem agrees_schedule_comm (q : Queue α) (i j : InstanceRef) (hj : marks j) :
    ((q.schedule j).2.schedule i).2.Agrees marks ((q.schedule i).2.schedule j).2 := by
  have hnone : ∀ {p : Prop}, (∀ i, ¬ marks i) → p := fun hnone => absurd hj (hnone j)
  by_cases hi : q.isPending i.key
  · have hself : (q.schedule i).2 = q := by rw [schedule, if_pos hi]
    have hstill : ((q.schedule j).2.schedule i).2 = (q.schedule j).2 := by
      rw [schedule, if_pos (by rw [isPending_schedule, hi]; rfl)]
    rw [hself, hstill]
    exact .refl marks _
  · by_cases hj : q.isPending j.key
    · have hself : (q.schedule j).2 = q := by rw [schedule, if_pos hj]
      have hstill : ((q.schedule i).2.schedule j).2 = (q.schedule i).2 := by
        rw [schedule, if_pos (by rw [isPending_schedule, hj]; rfl)]
      rw [hself, hstill]
      exact .refl marks _
    · by_cases hkeys : i.key = j.key
      · -- the first of the two keeps the other one out
        have hi' : (q.schedule j).2.isPending i.key := by simp [isPending_schedule, hkeys]
        have hj' : (q.schedule i).2.isPending j.key := by simp [isPending_schedule, hkeys]
        rw [schedule, if_pos hi', schedule, if_neg hj, schedule, if_pos hj', schedule, if_neg hi]
        exact ⟨by simp [arm, hkeys], hnone, rfl, rfl, rfl⟩
      · have hi' : ¬ (q.schedule j).2.isPending i.key := by
          simp [isPending_schedule, hi, Ne.symm hkeys]
        have hj' : ¬ (q.schedule i).2.isPending j.key := by simp [isPending_schedule, hj, hkeys]
        rw [schedule, if_neg hi', schedule, if_neg hj, schedule, if_neg hj', schedule, if_neg hi]
        refine ⟨?_, hnone, rfl, rfl, by simp [arm]⟩
        simpa [arm] using List.Perm.append_left _ (.swap _ _ _)

theorem schedule_defer (q : Queue α) (i : InstanceRef) (callback : α) :
    ((q.defer callback).schedule i).2 = (q.schedule i).2.defer callback := by
  have hsame : (q.defer callback).isPending i.key = q.isPending i.key := rfl
  unfold schedule
  rw [hsame]
  split
  · rfl
  · simp [defer, arm]

end Queue

/-! ## Stores -/

namespace Store

variable {marks : InstanceRef → Prop} {s s' t t' : Store} {i : SignalId} {key : String} {v : Value}

/-- The watchers of a state write to no state. -/
def Silent (marks : InstanceRef → Prop) (i : SignalId) (s : Store) : Prop :=
  ∀ key w, s.watcher? i key = some w → ∀ old new, (w old new).WritesNothing marks

/-- Two stores with one data, whose queues agree. -/
structure Agrees (marks : InstanceRef → Prop) (s s' : Store) : Prop where
  signals : s.signals = s'.signals
  queue : s.queue.Agrees marks s'.queue
  journal : s.journal = s'.journal
  made : s.made = s'.made

/-- The first store is one refresh of a state behind the second. -/
def Behind (marks : InstanceRef → Prop) (i : SignalId) (s t : Store) : Prop :=
  (s.refresh i).Agrees marks t

theorem watcher?_congr (h : s'.signals = s.signals) (i : SignalId) (key : String) :
    s'.watcher? i key = s.watcher? i key := by
  unfold watcher?
  rw [h]

theorem watcher?_put (s : Store) (i : SignalId) (key : String) (v : Value) (j : SignalId)
    (key' : String) : (s.put i key v).watcher? j key' = s.watcher? j key' := by
  unfold watcher? put
  dsimp only
  rw [Array.getElem?_modify]
  split <;> cases s.signals[j]? <;> rfl

theorem Silent.congr (h : s.Silent marks i) (hsignals : s'.signals = s.signals) :
    s'.Silent marks i := fun key w hw => h key w ((watcher?_congr hsignals i key).symm.trans hw)

theorem Silent.put (h : s.Silent marks i) (key : String) (v : Value) :
    (s.put i key v).Silent marks i :=
  fun key' w hw => h key' w ((watcher?_put s i key v i key').symm.trans hw)

theorem read_congr (h : s'.signals = s.signals) (i : SignalId) (key : String) :
    s'.read i key = s.read i key := by
  unfold read
  rw [snapshot_congr h]

theorem Agrees.refl (marks : InstanceRef → Prop) (s : Store) : s.Agrees marks s :=
  ⟨rfl, .refl marks _, rfl, rfl⟩

theorem Agrees.trans {s'' : Store} (h : s.Agrees marks s') (h' : s'.Agrees marks s'') :
    s.Agrees marks s'' :=
  ⟨h.signals.trans h'.signals, h.queue.trans h'.queue, h.journal.trans h'.journal,
    h.made.trans h'.made⟩

theorem Agrees.schedule (h : s.Agrees marks s') (j : InstanceRef) :
    (s.schedule j).2.Agrees marks (s'.schedule j).2 :=
  ⟨h.signals, h.queue.schedule j, h.journal, h.made⟩

theorem Agrees.defer (h : s.Agrees marks s') (later : Effect) :
    (s.defer later).Agrees marks (s'.defer later) :=
  ⟨h.signals, h.queue.defer later, h.journal, h.made⟩

theorem Agrees.note (h : s.Agrees marks s') (entry : List Value) :
    (s.note entry).Agrees marks (s'.note entry) :=
  ⟨h.signals, h.queue, congrArg (·.push entry) h.journal, h.made⟩

theorem Agrees.put (h : s.Agrees marks s') (i : SignalId) (key : String) (v : Value) :
    (s.put i key v).Agrees marks (s'.put i key v) :=
  ⟨signals_put_congr h.signals i key v, h.queue, h.journal, h.made⟩

/-! ### Refreshes -/

/-- The instance that a refresh of a state marks as pending. -/
def owner? (s : Store) (i : SignalId) : Option InstanceRef :=
  s.signals[i]?.bind fun state => if state.queued then some state.owner else none

theorem refresh_of_none (h : s.owner? i = none) : s.refresh i = s := by
  unfold owner? at h
  unfold refresh
  cases hi : s.signals[i]? with
  | none => rfl
  | some state =>
      cases hqueued : state.queued with
      | false => simp [hqueued]
      | true => simp [hi, hqueued] at h

theorem refresh_of_some {owner : InstanceRef} (h : s.owner? i = some owner) :
    s.refresh i = (s.schedule owner).2 := by
  unfold owner? at h
  unfold refresh
  cases hi : s.signals[i]? with
  | none => simp [hi] at h
  | some state =>
      cases hqueued : state.queued with
      | false => simp [hi, hqueued] at h
      | true =>
          obtain rfl : state.owner = owner := by simpa [hi, hqueued] using h
          simp [hqueued]

theorem owner?_congr (h : s'.signals = s.signals) (i : SignalId) : s'.owner? i = s.owner? i := by
  unfold owner?
  rw [h]

theorem owner?_put (s : Store) (i : SignalId) (key : String) (v : Value) (j : SignalId) :
    (s.put i key v).owner? j = s.owner? j := by
  unfold owner? put
  dsimp only
  rw [Array.getElem?_modify]
  split <;> cases s.signals[j]? <;> rfl

theorem signals_refresh (s : Store) (i : SignalId) : (s.refresh i).signals = s.signals := by
  cases h : s.owner? i with
  | none => rw [refresh_of_none h]
  | some owner => rw [refresh_of_some h]; rfl

theorem Agrees.refresh (h : s.Agrees marks s') (i : SignalId) :
    (s.refresh i).Agrees marks (s'.refresh i) := by
  have howner := owner?_congr h.signals i
  cases hs : s.owner? i with
  | none => rwa [refresh_of_none hs, refresh_of_none (howner.symm.trans hs)]
  | some owner =>
      rw [refresh_of_some hs, refresh_of_some (howner.symm.trans hs)]
      exact h.schedule owner

theorem refresh_refresh (s : Store) (i : SignalId) : (s.refresh i).refresh i = s.refresh i := by
  have howner := owner?_congr (s.signals_refresh i) i
  cases h : s.owner? i with
  | none => rw [refresh_of_none (howner.trans h)]
  | some owner =>
      rw [refresh_of_some (howner.trans h), refresh_of_some h]
      exact congrArg (fun queue => { s with queue }) (Queue.schedule_schedule_self s.queue owner)

theorem Behind.refresh (h : s.Behind marks i t) : s.Behind marks i (t.refresh i) := by
  have hagain := Agrees.refresh h i
  rwa [refresh_refresh] at hagain

theorem Behind.signals (h : s.Behind marks i t) : t.signals = s.signals :=
  (Agrees.signals h).symm.trans (s.signals_refresh i)

theorem Behind.schedule (h : s.Behind marks i t) {j : InstanceRef} (hj : marks j) :
    (s.schedule j).2.Behind marks i (t.schedule j).2 := by
  refine Agrees.trans ?_ (Agrees.schedule h j)
  have howner : (s.schedule j).2.owner? i = s.owner? i := owner?_congr rfl i
  cases hs : s.owner? i with
  | none => rw [refresh_of_none hs, refresh_of_none (howner.trans hs)]; exact .refl marks _
  | some owner =>
      rw [refresh_of_some hs, refresh_of_some (howner.trans hs)]
      exact ⟨rfl, Queue.agrees_schedule_comm s.queue owner j hj, rfl, rfl⟩

/-- What does not touch the owner of a state may come before or after its refresh. -/
theorem Behind.of_eq {f : Store → Store} (h : (f (s.refresh i)).Agrees marks t)
    (howner : (f s).owner? i = s.owner? i)
    (hschedule : ∀ owner, ((f s).schedule owner).2 = f (s.schedule owner).2) :
    (f s).Behind marks i t := by
  unfold Behind
  cases hs : s.owner? i with
  | none => rwa [refresh_of_none (howner.trans hs), ← refresh_of_none hs]
  | some owner => rwa [refresh_of_some (howner.trans hs), hschedule, ← refresh_of_some hs]

theorem Behind.defer (h : s.Behind marks i t) (later : Effect) :
    (s.defer later).Behind marks i (t.defer later) :=
  .of_eq (f := fun s => s.defer later) (Agrees.defer h later) rfl fun owner =>
    congrArg (fun queue => { s with queue }) (Queue.schedule_defer s.queue owner later)

theorem Behind.note (h : s.Behind marks i t) (entry : List Value) :
    (s.note entry).Behind marks i (t.note entry) :=
  .of_eq (f := fun s => s.note entry) (Agrees.note h entry) rfl fun _ => rfl

theorem Behind.put (h : s.Behind marks i t) (key : String) (v : Value) :
    (s.put i key v).Behind marks i (t.put i key v) :=
  .of_eq (f := fun s => s.put i key v) (Agrees.put h i key v) (owner?_put s i key v i) fun _ => rfl

/-! ## Watchers that write nothing -/

/-- A relation between stores that lasts while watchers without writes run in both. -/
structure Lasts (marks : InstanceRef → Prop) (R : Store → Store → Prop) : Prop where
  signals : ∀ s t, R s t → t.signals = s.signals
  schedule : ∀ s t j, R s t → marks j → R (s.schedule j).2 (t.schedule j).2
  defer : ∀ s t later, R s t → R (s.defer later) (t.defer later)
  note : ∀ s t entry, R s t → R (s.note entry) (t.note entry)

section

variable {R : Store → Store → Prop}

theorem Lasts.tandem_perform (h : Lasts marks R) (write write' : Writer) {effect : Effect}
    (hnothing : effect.WritesNothing marks) :
    Tandem False R (perform write effect) (perform write' effect) := by
  induction effect with
  | done answer => exact Tandem.pure _
  | fail e => exact tandem_failed e
  | read j key next ih =>
      refine Tandem.get_bind fun s t hst => ?_
      rw [read_congr (h.signals s t hst)]
      exact ih _ (hnothing _) s t hst
  | set j key v next => exact hnothing.elim
  | update j entries refresh next => exact hnothing.elim
  | schedule j next ih =>
      obtain ⟨hj, hsame, hnext⟩ := hnothing
      have hanswer : ∀ b, next b = next true := fun b => by cases b <;> simp [hsame]
      intro s t hst
      -- the two answers may differ, what follows does not
      rw [perform, perform, run_bind, run_bind, run_update, run_update]
      dsimp only
      rw [hanswer, hanswer (t.schedule j).1]
      exact ih true hnext _ _ (h.schedule s t j hst hj)
  | defer later next _ ih =>
      exact (Tandem.update fun s t hst => ⟨rfl, h.defer s t later hst⟩ :
        Tandem False R (Run.update fun s => ((), s.defer later)) _).bind fun _ => ih hnothing
  | note entry next ih =>
      exact (Tandem.update fun s t hst => ⟨rfl, h.note s t entry hst⟩ :
        Tandem False R (Run.update fun s => ((), s.note entry)) _).bind fun _ => ih hnothing

/-- A write runs in two stores alike, if no watcher of the state writes. -/
theorem Lasts.tandem_write (h : Lasts marks R)
    (hput : ∀ s t key v, R s t → R (s.put i key v) (t.put i key v))
    (hsilent : ∀ s t, R s t → s.Silent marks i) (m n : Nat) (key : String) (v : Value) :
    Tandem False R (write (m + 1) i key v) (write (n + 1) i key v) := by
  have htandem_put : ∀ v, Tandem False R (Run.update fun s => ((), s.put i key v))
      (Run.update fun s => ((), s.put i key v)) :=
    fun v => Tandem.update fun s t hst => ⟨rfl, hput s t key v hst⟩
  intro s t hst
  have hsignals := h.signals s t hst
  rw [write, write, run_get_bind, run_get_bind, run_get_bind, run_get_bind, read_congr hsignals,
    watcher?_congr hsignals]
  refine (htandem_put v).bind (fun _ => ?_) s t hst
  cases hw : s.watcher? i key with
  | none => exact Tandem.pure ()
  | some w =>
      have hnothing := hsilent s t hst key w hw (s.read i key) v
      refine (h.tandem_perform (write m) (write n) hnothing).attempt.bind fun result => ?_
      cases result with
      | ok replacement =>
          cases replacement with
          | some replacement => exact htandem_put replacement
          | none => exact Tandem.pure ()
      | error e => exact (htandem_put (s.read i key)).bind fun _ => tandem_failed e

end

theorem lasts_behind (marks : InstanceRef → Prop) (i : SignalId) :
    Lasts marks (Behind marks i) where
  signals _ _ h := h.signals
  schedule _ _ _ h hj := h.schedule hj
  defer _ _ later h := h.defer later
  note _ _ entry h := h.note entry

/-- A store in which more instances may be pending, none but those that watchers mark. -/
def Marked (marks : InstanceRef → Prop) (s s' : Store) : Prop :=
  ∃ more, s'.queue.pending = s.queue.pending ++ more ∧ ∀ j ∈ more, marks j

theorem Marked.trans {s'' : Store} (h : s.Marked marks s') (h' : s'.Marked marks s'') :
    s.Marked marks s'' := by
  obtain ⟨more, hmore, hmarks⟩ := h
  obtain ⟨further, hfurther, hmarks'⟩ := h'
  refine ⟨more ++ further, by rw [hfurther, hmore, List.append_assoc], fun j hj => ?_⟩
  exact (List.mem_append.mp hj).elim (hmarks j) (hmarks' j)

/-- Entries are written in order and none of them fails; the stores before and after. -/
inductive Passes (write : Writer) (i : SignalId) : List (String × Value) → Store → Store → Prop
  | nil (s : Store) : Passes write i [] s s
  | cons {key : String} {v : Value} {rest : List (String × Value)} {s s₁ s' : Store} :
    ExceptT.run (write i key v) s = some (.ok (), s₁) → Passes write i rest s₁ s' →
    Passes write i ((key, v) :: rest) s s'

section

variable {write : Writer} {front rest entries : List (String × Value)} {n : Nat}
  {failure : Option EvalError}

end

section

variable {front entries : List (String × Value)} {budget : Nat}

end

end Store

end LiveMarkup
