import LiveMarkup.Reactive.Queue
import Mathlib.Data.List.Induction
set_option autoImplicit false

/-! # Histories of the update queue

A queue is only ever changed by scheduling, deferring and taking a frame. What it holds after any
sequence of these operations is a function of the operations since the last frame was taken
(`Op.batch`), and the frames it has asked for are the frames that had work, together with the one it
is waiting for. `accounts_of_history` says so for every history. -/

namespace LiveMarkup.Queue

variable {α : Type}

/-! ## Operations and what they answer -/

inductive Op (α : Type) where
  | schedule (i : InstanceRef)
  | defer (callback : α)
  | takeFrame

inductive Answer (α : Type) where
  /-- Whether the instance was not pending before. -/
  | scheduled (fresh : Bool)
  | deferred
  | frame (work : FrameWork α)

def perform (q : Queue α) : Op α → Answer α × Queue α
  | .schedule i => (.scheduled (q.schedule i).1, (q.schedule i).2)
  | .defer callback => (.deferred, q.defer callback)
  | .takeFrame => (.frame q.takeFrame.1, q.takeFrame.2)

/-- The queue after some operations. -/
def after (q : Queue α) (ops : List (Op α)) : Queue α :=
  ops.foldl (fun q op => (q.perform op).2) q

/-- What some operations answer, one after the other. -/
def answers (q : Queue α) : List (Op α) → List (Answer α)
  | [] => []
  | op :: rest => (q.perform op).1 :: answers (q.perform op).2 rest

/-- Whether an answer is a frame that has work. -/
def Answer.isWork : Answer α → Bool
  | frame work => !work.isEmpty
  | _ => false

theorem after_append_singleton (q : Queue α) (ops : List (Op α)) (op : Op α) :
    q.after (ops ++ [op]) = ((q.after ops).perform op).2 := by
  simp [after]

theorem answers_append_singleton (q : Queue α) (ops : List (Op α)) (op : Op α) :
    q.answers (ops ++ [op]) = q.answers ops ++ [((q.after ops).perform op).1] := by
  induction ops generalizing q with
  | nil => rfl
  | cons first rest ih =>
      rw [List.cons_append, answers, ih]
      rfl

/-! ## The batch of a history -/

namespace Op

def takesFrame : Op α → Bool
  | takeFrame => true
  | _ => false

def instance? : Op α → Option InstanceRef
  | schedule i => some i
  | _ => none

def callback? : Op α → Option α
  | defer callback => some callback
  | _ => none

/-- The operations since the last frame was taken. -/
def batch (ops : List (Op α)) : List (Op α) :=
  (ops.reverse.takeWhile fun op => !op.takesFrame).reverse

/-- The keys of the instances that some operations schedule, in order. -/
def keys (ops : List (Op α)) : List String := (ops.filterMap instance?).map InstanceRef.key

theorem batch_append_takeFrame (ops : List (Op α)) : batch (ops ++ [takeFrame]) = [] := by
  simp [batch, takesFrame]

theorem batch_append_of_not {op : Op α} (h : op.takesFrame = false) (ops : List (Op α)) :
    batch (ops ++ [op]) = batch ops ++ [op] := by
  simp [batch, h]

@[simp] theorem keys_append (ops more : List (Op α)) :
    keys (ops ++ more) = keys ops ++ keys more := by
  simp [keys]

end Op

theorem eraseDups_append_singleton {β : Type} [BEq β] [LawfulBEq β] (l : List β) (b : β) :
    (l ++ [b]).eraseDups = if b ∈ l then l.eraseDups else l.eraseDups ++ [b] := by
  rw [List.eraseDups_append]
  split <;> simp [List.removeAll, List.eraseDups_cons, *]

theorem nodup_eraseDups {β : Type} [BEq β] [LawfulBEq β] (l : List β) : l.eraseDups.Nodup := by
  induction l using List.reverseRecOn with
  | nil => simp
  | append_singleton l b ih =>
      rw [eraseDups_append_singleton]
      split
      · exact ih
      · next h => exact List.nodup_append.2 ⟨ih, by simp, by simp; exact fun a ha hab => h (hab ▸ ha)⟩

/-! ## The books of a queue

`Keeps q batch` is what one operation preserves: the queue holds the work of the batch and nothing
else. The counting of frames is apart, since it looks at the whole history. -/

structure Keeps (q : Queue α) (batch : List (Op α)) : Prop where
  pending : q.pending.map InstanceRef.key = (Op.keys batch).eraseDups
  mem_pending : ∀ i ∈ q.pending, Op.schedule i ∈ batch
  deferred : q.deferred = batch.filterMap Op.callback?
  armed : q.armed = true ↔ q.pending ≠ [] ∨ q.deferred ≠ []

theorem keeps_empty : Keeps (empty : Queue α) [] where
  pending := rfl
  mem_pending := by simp [empty]
  deferred := rfl
  armed := by simp [empty]

theorem isPending_iff (q : Queue α) (key : String) :
    q.isPending key = true ↔ key ∈ q.pending.map InstanceRef.key := by
  simp only [isPending, List.any_eq_true, decide_eq_true_eq, List.mem_map]

theorem Keeps.isPending_iff_mem_keys {q : Queue α} {batch : List (Op α)} (h : q.Keeps batch)
    (key : String) : q.isPending key = true ↔ key ∈ Op.keys batch := by
  rw [isPending_iff, h.pending, List.mem_eraseDups]

theorem schedule_fst_eq_false_iff (q : Queue α) (i : InstanceRef) :
    (q.schedule i).1 = false ↔ q.isPending i.key = true := by
  unfold schedule
  split
  · next h => exact iff_of_true rfl h
  · next h => exact iff_of_false (by simp) h

/-- Scheduling keeps the books: a key that is pending stays where it is, a new one goes last. -/
theorem Keeps.schedule {q : Queue α} {batch : List (Op α)} (h : q.Keeps batch) (i : InstanceRef) :
    (q.schedule i).2.Keeps (batch ++ [.schedule i]) := by
  have hkeys : Op.keys [(Op.schedule i : Op α)] = [i.key] := rfl
  unfold Queue.schedule
  split
  · next hp =>
      have hmem : i.key ∈ Op.keys batch := (h.isPending_iff_mem_keys i.key).1 hp
      refine ⟨?_, fun j hj => List.mem_append_left _ (h.mem_pending j hj), ?_, h.armed⟩
      · rw [Op.keys_append, hkeys, eraseDups_append_singleton, if_pos hmem, h.pending]
      · simp [h.deferred, Op.callback?]
  · next hp =>
      have hmem : i.key ∉ Op.keys batch := fun hk => hp ((h.isPending_iff_mem_keys i.key).2 hk)
      refine ⟨?_, ?_, ?_, by simp [arm]⟩
      · rw [Op.keys_append, hkeys, eraseDups_append_singleton, if_neg hmem, ← h.pending]
        simp [arm]
      · intro j hj
        rcases List.mem_append.1 (show j ∈ q.pending ++ [i] from hj) with hj | hj
        · exact List.mem_append_left _ (h.mem_pending j hj)
        · rw [List.mem_singleton.1 hj]
          simp
      · simp [arm, h.deferred, Op.callback?]

theorem Keeps.defer {q : Queue α} {batch : List (Op α)} (h : q.Keeps batch) (callback : α) :
    (q.defer callback).Keeps (batch ++ [.defer callback]) where
  pending := by
    rw [Op.keys_append, show Op.keys [Op.defer callback] = [] from rfl, List.append_nil]
    exact h.pending
  mem_pending i hi := List.mem_append_left _ (h.mem_pending i hi)
  deferred := by simp [Queue.defer, arm, h.deferred, Op.callback?]
  armed := by simp [Queue.defer, arm]

theorem keeps_takeFrame (q : Queue α) : q.takeFrame.2.Keeps [] where
  pending := rfl
  mem_pending := by simp [takeFrame]
  deferred := rfl
  armed := by simp [takeFrame]

/-- One operation keeps the books. -/
theorem Keeps.perform {q : Queue α} {ops : List (Op α)} (h : q.Keeps (Op.batch ops)) (op : Op α) :
    (q.perform op).2.Keeps (Op.batch (ops ++ [op])) := by
  cases op with
  | schedule i => rw [Op.batch_append_of_not rfl]; exact h.schedule i
  | defer callback => rw [Op.batch_append_of_not rfl]; exact h.defer callback
  | takeFrame => rw [Op.batch_append_takeFrame]; exact keeps_takeFrame q

/-- After any history the queue holds the work of its batch. -/
theorem keeps_after (ops : List (Op α)) : ((empty : Queue α).after ops).Keeps (Op.batch ops) := by
  induction ops using List.reverseRecOn with
  | nil => exact keeps_empty
  | append_singleton ops op ih =>
      rw [after_append_singleton]
      exact ih.perform op

/-! ## Counting frames -/

/-- Frames that were asked for: one for each frame with work, and one while the queue waits. -/
def requestsDue (q : Queue α) (given : List (Answer α)) : Nat :=
  given.countP Answer.isWork + if q.armed then 1 else 0

/-- Arming asks for a frame exactly when none has been asked for. -/
theorem requests_arm (q : Queue α) :
    q.arm.requests + (if q.armed then 1 else 0) = q.requests + 1 := by
  unfold arm
  cases q.armed <;> simp

/-- One operation keeps the count: it asks for the frame that it newly waits for, and a frame that
is taken has work exactly when the queue was waiting for it. -/
theorem requests_perform {q : Queue α} {batch : List (Op α)} (h : q.Keeps batch)
    {given : List (Answer α)} (hr : q.requests = q.requestsDue given) (op : Op α) :
    (q.perform op).2.requests = (q.perform op).2.requestsDue (given ++ [(q.perform op).1]) := by
  simp only [requestsDue, List.countP_append] at hr ⊢
  have harm := requests_arm q
  cases op with
  | schedule i =>
      by_cases hp : q.isPending i.key = true
      · simpa [perform, schedule, hp, Answer.isWork] using hr
      · have hreq : (q.schedule i).2.requests = q.arm.requests := by simp [schedule, hp, arm]
        have harmed : (q.schedule i).2.armed = true := by simp [schedule, hp, arm]
        simp only [perform, hreq, harmed, if_true, List.countP_singleton, Answer.isWork]
        simp only [Bool.false_eq_true, if_false]
        omega
  | defer callback =>
      have hreq : (q.defer callback).requests = q.arm.requests := rfl
      have harmed : (q.defer callback).armed = true := rfl
      simp only [perform, hreq, harmed, if_true, List.countP_singleton, Answer.isWork]
      simp only [Bool.false_eq_true, if_false]
      omega
  | takeFrame =>
      have hwork : (Answer.frame q.takeFrame.1).isWork = q.armed := by
        rw [Bool.eq_iff_iff, h.armed]
        simp [Answer.isWork, takeFrame, FrameWork.isEmpty, or_iff_not_imp_left]
      have hrest : q.takeFrame.2.armed = false := rfl
      have hreq : q.takeFrame.2.requests = q.requests := rfl
      simp only [perform, List.countP_singleton, hwork, hrest, hreq]
      simpa using hr

theorem requests_after (ops : List (Op α)) :
    ((empty : Queue α).after ops).requests =
      ((empty : Queue α).after ops).requestsDue ((empty : Queue α).answers ops) := by
  induction ops using List.reverseRecOn with
  | nil => rfl
  | append_singleton ops op ih =>
      rw [after_append_singleton, answers_append_singleton]
      exact requests_perform (keeps_after ops) ih op

/-! ## No work is lost or doubled -/

/-- After any history of a new queue: it is armed exactly when it holds work; it has asked for one
frame per taken frame that had work, and for the one it waits for; the next frame lists every key
scheduled since the last frame once, in the order in which the keys first came, and the callbacks
deferred since then in their order; and scheduling answers false exactly for the keys that are
pending, which are those scheduled since the last frame. -/
theorem accounts_of_history (ops : List (Op α)) :
    let q := (empty : Queue α).after ops
    (q.armed = true ↔ q.pending ≠ [] ∨ q.deferred ≠ []) ∧
    q.requests = ((empty : Queue α).answers ops).countP Answer.isWork + (if q.armed then 1 else 0) ∧
    (q.takeFrame.1.updates.map InstanceRef.key).Nodup ∧
    q.takeFrame.1.updates.map InstanceRef.key = (Op.keys (Op.batch ops)).eraseDups ∧
    (∀ i ∈ q.takeFrame.1.updates, Op.schedule i ∈ Op.batch ops) ∧
    q.takeFrame.1.deferred = (Op.batch ops).filterMap Op.callback? ∧
    ∀ i : InstanceRef, ((q.schedule i).1 = false ↔ q.isPending i.key = true) ∧
      (q.isPending i.key = true ↔ i.key ∈ Op.keys (Op.batch ops)) := by
  intro q
  have h : q.Keeps (Op.batch ops) := keeps_after ops
  refine ⟨h.armed, requests_after ops, ?_, h.pending, h.mem_pending, h.deferred, fun i => ?_⟩
  · rw [show q.takeFrame.1.updates.map InstanceRef.key = _ from h.pending]
    exact nodup_eraseDups _
  · exact ⟨schedule_fst_eq_false_iff q i, h.isPending_iff_mem_keys i.key⟩

end LiveMarkup.Queue
