import LiveMarkup.Proofs.QueueHistory
import LiveMarkup.Proofs.Render.Leading
import LiveMarkup.Reactive.Native
set_option autoImplicit false

/-! # Work that comes to the queue

Nothing but taking a frame takes work out of the queue. Writes, effects and calls of functions
schedule and defer, however they end (`leads_carryOutAll`), so what was in the queue before is there
afterwards, in front of what came meanwhile. -/

namespace LiveMarkup

namespace Queue

variable {α : Type} {q q' : Queue α}

/-- A queue after some scheduling and deferring. -/
def Adds (q q' : Queue α) : Prop :=
  ∃ ops : List (Op α), (∀ op ∈ ops, op.takesFrame = false) ∧ q' = q.after ops

theorem after_append (q : Queue α) (ops more : List (Op α)) :
    q.after (ops ++ more) = (q.after ops).after more :=
  List.foldl_append

theorem steps_adds : Steps (Adds : Queue α → Queue α → Prop) where
  refl q := ⟨[], by simp, rfl⟩
  trans := by
    rintro q _ _ ⟨ops, hops, rfl⟩ ⟨more, hmore, rfl⟩
    refine ⟨ops ++ more, fun op hop => ?_, (after_append q ops more).symm⟩
    exact (List.mem_append.mp hop).elim (hops op) (hmore op)

theorem adds_schedule (q : Queue α) (i : InstanceRef) : q.Adds (q.schedule i).2 :=
  ⟨[.schedule i], by simp [Op.takesFrame], rfl⟩

theorem adds_defer (q : Queue α) (callback : α) : q.Adds (q.defer callback) :=
  ⟨[.defer callback], by simp [Op.takesFrame], rfl⟩

/-- Callbacks that are deferred go behind those that wait. -/
theorem deferred_after (q : Queue α) {ops : List (Op α)} (h : ∀ op ∈ ops, op.takesFrame = false) :
    (q.after ops).deferred = q.deferred ++ ops.filterMap Op.callback? := by
  induction ops using List.reverseRecOn with
  | nil => simp [after]
  | append_singleton ops op ih =>
      rw [after_append_singleton, List.filterMap_append, ← List.append_assoc,
        ← ih fun op' hop => h op' (List.mem_append_left _ hop)]
      cases op with
      | schedule i =>
          have hsame : ((q.after ops).schedule i).2.deferred = (q.after ops).deferred := by
            unfold schedule
            split <;> rfl
          exact hsame.trans (List.append_nil _).symm
      | defer callback => rfl
      | takeFrame => exact absurd (h .takeFrame (by simp)) (by simp [Op.takesFrame])

theorem Adds.deferred (h : q.Adds q') : ∃ callbacks, q'.deferred = q.deferred ++ callbacks := by
  obtain ⟨ops, hops, rfl⟩ := h
  exact ⟨_, deferred_after q hops⟩

end Queue

namespace Store

/-- A store to whose queue some work may have come. -/
def AddsWork (s s' : Store) : Prop := s.queue.Adds s'.queue

variable {s s' : Store}

theorem steps_addsWork : Steps AddsWork where
  refl s := Queue.steps_adds.refl s.queue
  trans h h' := Queue.steps_adds.trans h h'

theorem addsWork_of_queue (h : s'.queue = s.queue) : s.AddsWork s' := by
  rw [AddsWork, h]
  exact Queue.steps_adds.refl s.queue

theorem addsWork_schedule (s : Store) (i : InstanceRef) : s.AddsWork (s.schedule i).2 :=
  Queue.adds_schedule s.queue i

theorem addsWork_refresh (s : Store) (i : SignalId) : s.AddsWork (s.refresh i) := by
  unfold refresh
  split
  · split
    · exact s.addsWork_schedule _
    · exact steps_addsWork.refl s
  · exact steps_addsWork.refl s

theorem queue_nameMethods (s : Store) (methods : List (String × NativeOp)) :
    (s.nameMethods methods).2.queue = s.queue := by
  induction methods generalizing s with
  | nil => rfl
  | cons first rest ih => exact ih s.fresh.2

theorem queue_foldl_watch (i : SignalId) (watchers : List (String × Watcher)) (s : Store) :
    (watchers.foldl (fun s (key, w) => s.watch i key w) s).queue = s.queue := by
  induction watchers generalizing s with
  | nil => rfl
  | cons first rest ih => exact ih (s.watch i first.1 first.2)

/-! ## Effects -/

section

variable {write : Writer} (hwrite : ∀ i key v, Leads AddsWork (write i key v))

include hwrite

theorem leads_setWith (i : SignalId) (key : String) (v : Value) :
    Leads AddsWork (setWith write i key v) :=
  steps_addsWork.bind (hwrite i key v) fun _ => leads_update fun s => s.addsWork_refresh i

theorem leads_writeAll (i : SignalId) (entries : List (String × Value)) :
    Leads AddsWork (writeAll write i entries) := by
  induction entries with
  | nil => exact steps_addsWork.pure _
  | cons entry rest ih =>
      refine steps_addsWork.bind (steps_addsWork.failure? (hwrite i entry.1 entry.2)) ?_
      intro failure
      cases failure with
      | some e => exact steps_addsWork.pure _
      | none => exact steps_addsWork.bind ih fun _ => steps_addsWork.pure _

theorem leads_updateWith (i : SignalId) (entries : List (String × Value)) (refresh : Bool) :
    Leads AddsWork (updateWith write i entries refresh) := by
  refine steps_addsWork.bind (leads_writeAll hwrite i entries) fun written => ?_
  dsimp only
  split
  · exact steps_addsWork.bind (leads_update fun s => s.addsWork_refresh i) fun _ =>
      steps_addsWork.raise written.2
  · exact steps_addsWork.raise written.2

theorem leads_perform (e : Effect) : Leads AddsWork (perform write e) := by
  have hR := steps_addsWork
  induction e with
  | done answer => exact hR.pure answer
  | fail e => exact hR.failed e
  | read i key next ih => exact leads_get_bind fun s => ih _
  | set i key v next ih => exact hR.bind (hR.failure? (leads_setWith hwrite i key v)) ih
  | update i entries refresh next ih =>
      exact hR.bind (hR.failure? (leads_updateWith hwrite i entries refresh)) ih
  | schedule i next ih => exact hR.bind (leads_update fun s => s.addsWork_schedule i) ih
  | defer later next _ ih =>
      exact hR.bind (leads_update fun s => Queue.adds_defer s.queue later) fun _ => ih
  | note entry next ih =>
      exact hR.bind (leads_update fun s => addsWork_of_queue rfl) fun _ => ih

end

theorem leads_write (budget : Nat) (i : SignalId) (key : String) (v : Value) :
    Leads AddsWork (write budget i key v) := by
  have hR := steps_addsWork
  -- on how deep writes may still be nested
  induction budget generalizing i key v with
  | zero => exact fun _ _ _ h => nomatch h
  | succ budget ih =>
      refine leads_get_bind fun s => leads_get_bind fun s' => ?_
      refine hR.bind (leads_update fun s => addsWork_of_queue rfl) fun _ => ?_
      cases s'.watcher? i key with
      | none => exact hR.pure ()
      | some watcher =>
          refine hR.bind (leads_perform ih _).attempt fun result => ?_
          match result with
          | .ok (some replacement) => exact leads_update fun s => addsWork_of_queue rfl
          | .ok none => exact hR.pure ()
          | .error e =>
              exact hR.bind (leads_update fun s => addsWork_of_queue rfl) fun _ => hR.failed e

theorem leads_carryOut (budget : Nat) (e : Effect) : Leads AddsWork (carryOut budget e) :=
  leads_perform (leads_write budget) e

theorem leads_carryOutAll (budget : Nat) (effects : List Effect) :
    Leads AddsWork (carryOutAll budget effects) := by
  have hR := steps_addsWork
  induction effects with
  | nil => exact hR.pure ()
  | cons e rest ih => exact hR.bind (hR.failure? (leads_carryOut budget e)) fun _ => ih

end Store

theorem NativeFn.leads_call (budget : Nat) (f : NativeFn) (args : List Value) :
    Leads Store.AddsWork (f.call budget args) := by
  have hR := Store.steps_addsWork
  obtain ⟨ident, name, op⟩ := f
  cases op with
  | fail => exact hR.failed _
  | curry => exact hR.bind (leads_update fun s => Store.addsWork_of_queue rfl) fun _ => hR.pure _
  | readState signal key =>
      cases signal with
      | none => exact hR.pure _
      | some i => exact leads_get_bind fun s => hR.pure _
  | writeState signal key =>
      cases signal with
      | none => exact hR.pure _
      | some i =>
          exact hR.bind (Store.leads_setWith (Store.leads_write budget) i key _) fun _ => hR.pure _
  | _ => exact hR.pure _

end LiveMarkup
