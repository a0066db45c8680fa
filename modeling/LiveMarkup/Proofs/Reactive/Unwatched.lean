import LiveMarkup.Engine.Server
import LiveMarkup.Proofs.Render.Tandem
set_option autoImplicit false

/-! # Stores without watchers

On the server nothing watches a state, so no write starts another one: effects, setups and functions
come to the same end within every budget but zero. -/

namespace LiveMarkup

namespace Store

/-- No state of the store is watched. -/
def Unwatched (s : Store) : Prop :=
  ∀ (i : SignalId) (state : SignalState), s.signals[i]? = some state → state.watchers = []

/-- One store that nothing watches, in both worlds. -/
def Still (s s' : Store) : Prop := s = s' ∧ s.Unwatched

variable {s s' : Store}

theorem Unwatched.congr (h : s.Unwatched) (hsignals : s'.signals = s.signals) : s'.Unwatched := by
  unfold Unwatched
  rwa [hsignals]

theorem unwatched_empty : empty.Unwatched := fun _ _ h => nomatch h

theorem Unwatched.watcher?_eq_none (h : s.Unwatched) (i : SignalId) (key : String) :
    s.watcher? i key = none := by
  unfold watcher?
  cases hi : s.signals[i]? with
  | none => rfl
  | some state => rw [Option.bind_some, h i state hi]; rfl

theorem Unwatched.put (h : s.Unwatched) (i : SignalId) (key : String) (v : Value) :
    (s.put i key v).Unwatched := by
  intro j state hstate
  unfold Store.put at hstate
  dsimp only at hstate
  rw [Array.getElem?_modify] at hstate
  split at hstate
  · obtain ⟨before, hbefore, rfl⟩ := Option.map_eq_some_iff.mp hstate
    exact h j before hbefore
  · exact h j state hstate

theorem Unwatched.newSignal (h : s.Unwatched) (owner : InstanceRef) (data : Table Value)
    (queued : Bool) : (s.newSignal owner data queued).2.Unwatched := by
  intro j state hstate
  unfold Store.newSignal at hstate
  dsimp only at hstate
  rw [Array.getElem?_push] at hstate
  split at hstate
  · obtain rfl := Option.some.inj hstate
    rfl
  · exact h j state hstate

theorem Unwatched.refresh (h : s.Unwatched) (i : SignalId) : (s.refresh i).Unwatched := by
  unfold Store.refresh
  split
  · split
    · exact h.congr rfl
    · exact h
  · exact h

theorem Unwatched.nameMethods (h : s.Unwatched) (methods : List (String × NativeOp)) :
    (s.nameMethods methods).2.Unwatched := by
  induction methods generalizing s with
  | nil => exact h
  | cons first rest ih => exact ih (s := s.fresh.2) (h.congr rfl)

/-! ## Effects -/

section

variable {α : Type} {endless : Prop}

theorem tandem_get_bind {f g : Store → Run Store α}
    (h : ∀ s, s.Unwatched → Tandem endless Still (f s) (g s)) :
    Tandem endless Still (get >>= f) (get >>= g) := by
  refine Tandem.get_bind ?_
  rintro s _ ⟨rfl, hs⟩
  exact h s hs s s ⟨rfl, hs⟩

theorem tandem_update {f : Store → α × Store}
    (h : ∀ s, s.Unwatched → (f s).2.Unwatched) :
    Tandem endless Still (Run.update f) (Run.update f) := by
  refine Tandem.update ?_
  rintro s _ ⟨rfl, hs⟩
  exact ⟨rfl, rfl, h s hs⟩

end

section

variable (m n : Nat)

/-- A write ends with the new value in its place. -/
theorem tandem_write (i : SignalId) (key : String) (v : Value) :
    Tandem False Still (write (m + 1) i key v) (write (n + 1) i key v) := by
  unfold write
  refine tandem_get_bind fun s _ => tandem_get_bind fun s hs => ?_
  refine Tandem.bind (tandem_update fun s hs => hs.put i key v) fun _ => ?_
  -- nothing watches the key, so no write follows
  rw [hs.watcher?_eq_none]
  exact Tandem.pure ()

theorem tandem_setWith (i : SignalId) (key : String) (v : Value) :
    Tandem False Still (setWith (write (m + 1)) i key v) (setWith (write (n + 1)) i key v) :=
  (tandem_write m n i key v).bind fun _ => tandem_update fun _ hs => hs.refresh i

theorem tandem_writeAll (i : SignalId) (entries : List (String × Value)) :
    Tandem False Still (writeAll (write (m + 1)) i entries) (writeAll (write (n + 1)) i entries) := by
  induction entries with
  | nil => exact Tandem.pure _
  | cons entry rest ih =>
      refine (tandem_write m n i entry.1 entry.2).failure?.bind fun failure => ?_
      cases failure with
      | some e => exact Tandem.pure _
      | none => exact ih.bind fun _ => Tandem.pure _

theorem tandem_updateWith (i : SignalId) (entries : List (String × Value)) (refresh : Bool) :
    Tandem False Still (updateWith (write (m + 1)) i entries refresh)
      (updateWith (write (n + 1)) i entries refresh) := by
  refine (tandem_writeAll m n i entries).bind fun answer => ?_
  obtain ⟨written, outcome⟩ := answer
  cases outcome with
  | none =>
      dsimp only
      split
      · exact (tandem_update fun _ hs => hs.refresh i).bind fun _ => Tandem.pure _
      · exact Tandem.pure _
  | some e =>
      dsimp only
      split
      · exact (tandem_update fun _ hs => hs.refresh i).bind fun _ => tandem_failed e
      · exact tandem_failed e

theorem tandem_carryOut (e : Effect) :
    Tandem False Still (carryOut (m + 1) e) (carryOut (n + 1) e) := by
  unfold carryOut
  induction e with
  | done answer => exact Tandem.pure _
  | fail e => exact tandem_failed e
  | read i key next ih => exact tandem_get_bind fun s _ => ih _
  | set i key v next ih => exact (tandem_setWith m n i key v).failure?.bind fun r => ih r
  | update i entries refresh next ih =>
      exact (tandem_updateWith m n i entries refresh).failure?.bind fun r => ih r
  | schedule i next ih => exact (tandem_update fun _ hs => hs.congr rfl).bind fun b => ih b
  | defer later next _ ih => exact (tandem_update fun _ hs => hs.congr rfl).bind fun _ => ih
  | note entry next ih => exact (tandem_update fun _ hs => hs.congr rfl).bind fun _ => ih

/-- A function that a template calls. -/
theorem tandem_call (f : NativeFn) (args : List Value) :
    Tandem False Still (f.call (m + 1) args) (f.call (n + 1) args) := by
  unfold NativeFn.call
  cases f.op with
  | fail => exact tandem_failed _
  | curry => exact (tandem_update fun _ hs => hs.congr rfl).bind fun _ => Tandem.pure _
  | readState signal key =>
      cases signal with
      | none => exact Tandem.pure _
      | some i => exact tandem_get_bind fun s _ => Tandem.pure _
  | writeState signal key =>
      cases signal with
      | none => exact Tandem.pure _
      | some i => exact (tandem_setWith m n i key _).bind fun _ => Tandem.pure _
  | _ => exact Tandem.pure _

end

end Store

/-! ## Setups -/

section

open Store

variable (m n : Nat)

theorem tandem_newIdent : Tandem False Still Collected.newIdent Collected.newIdent :=
  tandem_update fun _ hs => hs.congr rfl

/-- A setup that is gone through installs no watcher. -/
theorem tandem_collect (owner : InstanceRef) (setup : Setup) (c : Collected) :
    Tandem False Still (Collected.collect (m + 1) owner setup c)
      (Collected.collect (n + 1) owner setup c) := by
  induction setup generalizing c with
  | done => exact Tandem.pure c
  | props next ih => exact tandem_newIdent.bind fun i => ih _ c
  | propTypes types next ih => exact tandem_newIdent.bind fun i => ih _ _
  | proxy initial next ih =>
      exact (tandem_update fun _ hs => hs.newSignal _ _ _).bind fun id => ih _ _ _
  | methods methods next ih =>
      exact (tandem_update fun _ hs => hs.nameMethods methods).bind fun named => ih _
  | act effect next ih => exact (tandem_carryOut m n effect).failure?.bind fun _ => ih c
  | useSignal key next ih => exact ih none c
  | events _ _ ih => exact ih c
  | watch _ _ _ ih => exact ih c
  | onError _ _ ih => exact ih c
  | load _ _ ih => exact ih c
  | on _ _ _ ih => exact ih c

/-- The data record of what was collected. -/
def Collected.record (c : Collected) : Run Store Value := do
  let state ← match c.proxy with
    | some id => pure ((← get).snapshot id)
    | none => pure []
  return .object (← Collected.newIdent) (dataRecord c.props state c.methods)

theorem tandem_record (c : Collected) : Tandem False Still c.record c.record := by
  have hrecord : ∀ state, Tandem False Still
      (do return Value.object (← Collected.newIdent) (dataRecord c.props state c.methods))
      (do return Value.object (← Collected.newIdent) (dataRecord c.props state c.methods)) :=
    fun state => tandem_newIdent.bind fun i => Tandem.pure _
  unfold Collected.record
  dsimp only
  split
  · exact tandem_get_bind fun s _ => (Tandem.pure _).bind hrecord
  · exact (Tandem.pure _).bind hrecord

theorem tandem_childData (w : Website) (name key : String) (props : Value) :
    Tandem False Still (w.childData (m + 1) name key props) (w.childData (n + 1) name key props) := by
  unfold Website.childData
  dsimp only
  cases (w.component? name).bind ComponentDef.setup with
  | some setup => exact (tandem_collect m n _ setup _).bind tandem_record
  | none => exact (Tandem.pure _).bind tandem_record

end

end LiveMarkup
