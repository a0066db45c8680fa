import LiveMarkup.Proofs.Render.Leading
import LiveMarkup.Render.Execute
import Mathlib
set_option autoImplicit false

/-! # What a run does to the scopes

Branches and loop bodies open a scope of their own, and assignments reach through to any scope.
Which names a node list can bind or write is read off its statements: a declaration counts where it
stands, an assignment wherever it stands. From this it follows what every run, failed ones included,
leaves of the scopes it started in. -/

namespace LiveMarkup

/-! ## Names that statements write -/

namespace Stmt

def declared? : Stmt → Option String
  | declare name _ => some name
  | assign _ _ => none

def assigned? : Stmt → Option String
  | declare _ _ => none
  | assign name _ => some name

end Stmt

namespace Node

def stmts : Node → List Stmt
  | code stmts _ => stmts
  | _ => []

/-- The targets of the assignments in the statements of these nodes. -/
def targets (nodes : List Node) : List String := (nodes.flatMap stmts).filterMap Stmt.assigned?

/-- The names that a node list declares directly, not inside a branch or a loop. -/
def declared (nodes : List Node) : List String := (nodes.flatMap stmts).filterMap Stmt.declared?

/-- The names that a node list assigns to, branches and loops included. -/
def assigned (nodes : List Node) : List String := targets (walkAll nodes)

theorem targets_append (a b : List Node) : targets (a ++ b) = targets a ++ targets b := by
  rw [targets, List.flatMap_append, List.filterMap_append, targets, targets]

theorem targets_cons (n : Node) (rest : List Node) :
    targets (n :: rest) = n.stmts.filterMap Stmt.assigned? ++ targets rest := by
  rw [targets, List.flatMap_cons, List.filterMap_append, targets]

theorem declared_cons (n : Node) (rest : List Node) :
    declared (n :: rest) = n.stmts.filterMap Stmt.declared? ++ declared rest := by
  rw [declared, List.flatMap_cons, List.filterMap_append, declared]

end Node

/-! ## What may change of the scopes -/

/-- How scopes can differ after steps that bind and write names of two lists. The scopes below
the innermost one bind what they bound, and all that can be new is in the innermost one. -/
structure Environment.Rewrites (bound written : List String) (e e' : Environment) : Prop where
  outerNames : e'.outer.map Table.keys = e.outer.map Table.keys
  outerValues : ∀ name ∉ written,
    e'.outer.map (Table.get? name) = e.outer.map (Table.get? name)
  kept : ∀ name ∈ Table.keys e.innermost, name ∈ Table.keys e'.innermost
  gained : ∀ name ∈ Table.keys e'.innermost,
    name ∈ Table.keys e.innermost ∨ name ∈ bound
  values : ∀ name, name ∉ written → name ∉ bound →
    Table.get? name e'.innermost = Table.get? name e.innermost

namespace Environment

theorem mem_keys_insert {name key : String} {v : Value} {t : Table Value} :
    name ∈ Table.keys (Table.insert key v t) ↔ name ∈ Table.keys t ∨ name = key := by
  rw [Table.keys_insert]
  split
  · next hmem =>
    exact ⟨.inl, fun h => h.elim id fun heq => heq ▸ hmem⟩
  · simp

/-- Writing the nearest of the outer scopes that bind a name changes one value of this name. -/
theorem assignIn_spec {name : String} {v : Value} {scopes scopes' : List (Table Value)}
    (h : assignIn name v scopes = some scopes') :
    scopes'.map Table.keys = scopes.map Table.keys ∧
      ∀ other, other ≠ name → scopes'.map (Table.get? other) = scopes.map (Table.get? other) := by
  induction scopes generalizing scopes' with
  | nil => simp [assignIn] at h
  | cons scope rest ih =>
      unfold assignIn at h
      split at h
      · next hbound =>
        obtain rfl := Option.some.inj h
        have hmem : name ∈ Table.keys scope := Table.get?_isSome_iff.mp hbound
        refine ⟨?_, fun other hother => ?_⟩
        · rw [List.map_cons, List.map_cons, Table.keys_insert, if_pos hmem]
        · rw [List.map_cons, List.map_cons, Table.get?_insert_of_ne hother]
      · obtain ⟨rest', hrest, rfl⟩ := Option.map_eq_some_iff.mp h
        obtain ⟨hkeys, hvalues⟩ := ih hrest
        exact ⟨by rw [List.map_cons, List.map_cons, hkeys],
          fun other hother => by rw [List.map_cons, List.map_cons, hvalues other hother]⟩

namespace Rewrites

variable {bound written : List String} {e e' e'' : Environment}

theorem refl (e : Environment) : Rewrites bound written e e :=
  ⟨rfl, fun _ _ => rfl, fun _ h => h, fun _ h => .inl h, fun _ _ _ => rfl⟩

theorem trans (h : Rewrites bound written e e') (h' : Rewrites bound written e' e'') :
    Rewrites bound written e e'' where
  outerNames := h'.outerNames.trans h.outerNames
  outerValues := fun name hname => (h'.outerValues name hname).trans (h.outerValues name hname)
  kept := fun name hname => h'.kept name (h.kept name hname)
  gained := fun name hname => (h'.gained name hname).elim (h.gained name) .inr
  values := fun name ha hd => (h'.values name ha hd).trans (h.values name ha hd)

theorem mono {more : List String} (h : Rewrites bound written e e') (hsub : bound ⊆ more) :
    Rewrites more written e e' where
  outerNames := h.outerNames
  outerValues := h.outerValues
  kept := h.kept
  gained := fun name hname => (h.gained name hname).imp id fun hmem => hsub hmem
  values := fun name ha hd => h.values name ha fun hmem => hd (hsub hmem)

theorem depth (h : Rewrites bound written e e') : e'.depth = e.depth := by
  have hlength := congrArg List.length h.outerNames
  rw [List.length_map, List.length_map] at hlength
  rw [Environment.depth, Environment.depth, hlength]

theorem define {name : String} (hname : name ∈ bound) (v : Value) :
    Rewrites bound written e (e.define name v) where
  outerNames := rfl
  outerValues := fun _ _ => rfl
  kept := fun _ hother => mem_keys_insert.mpr (.inl hother)
  gained := fun _ hother => (mem_keys_insert.mp hother).imp id (by rintro rfl; exact hname)
  values := fun _ _ hother => Table.get?_insert_of_ne (by rintro rfl; exact hother hname) v _

theorem assign {name : String} {v : Value} (hname : name ∈ written)
    (h : e.assign? name v = some e') : Rewrites bound written e e' := by
  have hne : ∀ other ∉ written, other ≠ name := fun other hother heq => hother (heq ▸ hname)
  unfold assign? at h
  split at h
  · next hbound =>
    obtain rfl := Option.some.inj h
    have hmem : name ∈ Table.keys e.innermost := Table.get?_isSome_iff.mp hbound
    exact {
      outerNames := rfl
      outerValues := fun _ _ => rfl
      kept := fun _ hother => mem_keys_insert.mpr (.inl hother)
      gained := fun _ hother => (mem_keys_insert.mp hother).elim .inl fun heq => .inl (heq ▸ hmem)
      values := fun other hother _ => Table.get?_insert_of_ne (hne other hother) v _ }
  · obtain ⟨outer, houter, rfl⟩ := Option.map_eq_some_iff.mp h
    obtain ⟨hkeys, hvalues⟩ := assignIn_spec houter
    exact ⟨hkeys, fun other hother => hvalues other (hne other hother), fun _ h => h,
      fun _ h => .inl h, fun _ _ _ => rfl⟩

theorem lookupIn_eq {name : String} {scopes scopes' : List (Table Value)}
    (h : scopes'.map (Table.get? name) = scopes.map (Table.get? name)) :
    lookupIn name scopes' = lookupIn name scopes := by
  induction scopes generalizing scopes' with
  | nil => rw [List.map_eq_nil_iff.mp h]
  | cons scope rest ih =>
      obtain ⟨scope', rest', rfl, hscope, hrest⟩ := List.map_eq_cons_iff.mp h
      rw [lookupIn, lookupIn, hscope, ih hrest]

/-- A name that is neither declared nor assigned to stands for what it stood for. -/
theorem lookup? (h : Rewrites bound written e e') {name : String} (ha : name ∉ written)
    (hd : name ∉ bound) : e'.lookup? name = e.lookup? name := by
  refine lookupIn_eq ?_
  rw [List.map_cons, List.map_cons, h.values name ha hd, h.outerValues name ha]

/-- What was declared in a scope of its own is gone with it. -/
theorem pop {inner : List String} (h : Rewrites inner written e.push e') :
    Rewrites bound written e e'.pop := by
  obtain ⟨innermost, outer⟩ := e'
  obtain ⟨scope, rest, rfl⟩ : ∃ scope rest, outer = scope :: rest := by
    cases outer with
    | nil => exact absurd h.outerNames (by simp [push])
    | cons scope rest => exact ⟨scope, rest, rfl⟩
  obtain ⟨hscope, hrest⟩ := List.cons.inj h.outerNames
  have hvalues := fun name hname => List.cons.inj (h.outerValues name hname)
  exact {
    outerNames := hrest
    outerValues := fun name hname => (hvalues name hname).2
    kept := fun _ hname => hscope ▸ hname
    gained := fun _ hname => .inl (hscope ▸ hname)
    values := fun name hname _ => (hvalues name hname).1 }

end Rewrites

end Environment

/-! ## Steps -/

section

variable {σ α β : Type} {bound written : List String}

theorem steps_rewrites :
    Steps fun m m' : Machine σ => m.env.Rewrites bound written m'.env where
  refl m := .refl m.env
  trans h h' := h.trans h'

/-- A step that binds and writes only names of two lists, however it ends. -/
def Exec.Writes (bound written : List String) (x : Exec σ α) : Prop :=
  Leads (fun m m' => m.env.Rewrites bound written m'.env) x

namespace Exec

theorem writes_pure (a : α) : Writes bound written (pure a : Exec σ α) := steps_rewrites.pure a

theorem Writes.bind {x : Exec σ α} {f : α → Exec σ β} (hx : Writes bound written x)
    (hf : ∀ a, Writes bound written (f a)) : Writes bound written (x >>= f) :=
  steps_rewrites.bind hx hf

theorem writes_update {f : Machine σ → Machine σ}
    (h : ∀ m : Machine σ, m.env.Rewrites bound written (f m).env) :
    Writes bound written (update f) := by
  rintro m outcome m' ⟨⟩
  exact h m

theorem writes_failed (e : EvalError) : Writes bound written (failed e : Exec σ α) := by
  rintro m outcome m' ⟨⟩
  exact .refl _

theorem writes_atLine (line : Nat) : Writes bound written (atLine line : Exec σ Unit) :=
  writes_update fun _ => .refl _

theorem writes_write (text : String) : Writes bound written (write text : Exec σ Unit) :=
  writes_update fun _ => .refl _

theorem writes_define {name : String} (h : name ∈ bound) (v : Value) :
    Writes bound written (define name v : Exec σ Unit) :=
  writes_update fun _ => .define h v

/-- An assignment to a name that no scope has leaves the scopes alone. -/
theorem rewrites_of_assign {name : String} (h : name ∈ written) {v : Value} {m m' : Machine σ}
    {outcome : Except EvalError Unit}
    (hrun : ExceptT.run (match m.env.assign? name v with
      | some env => update fun m => { m with env }
      | none => failed (.assignToUndeclared name) : Exec σ Unit) m = some (outcome, m')) :
    m.env.Rewrites bound written m'.env := by
  cases hassign : m.env.assign? name v with
  | none =>
      rw [hassign] at hrun
      exact writes_failed (.assignToUndeclared name) m outcome m' hrun
  | some env =>
      rw [hassign] at hrun
      obtain ⟨-, rfl⟩ := Prod.mk.inj (Option.some.inj hrun)
      exact .assign h hassign

theorem writes_ofRun (x : Run σ α) : Writes bound written (ofRun x) := by
  intro m outcome m' h
  obtain ⟨⟨_, world⟩, -, heq⟩ := Option.map_eq_some_iff.mp h
  obtain rfl : { m with world } = m' := congrArg Prod.snd heq
  exact .refl _

theorem Writes.inScope {inner : List String} {x : Exec σ α} (h : Writes inner written x) :
    Writes bound written (inScope x) := by
  intro m outcome m' hrun
  obtain ⟨⟨_, m₁⟩, hx, heq⟩ := Option.map_eq_some_iff.mp hrun
  obtain rfl : { m₁ with env := m₁.env.pop } = m' := congrArg Prod.snd heq
  exact (h _ _ _ hx).pop

theorem writes_eval (c : RenderCall σ) (e : Expr) : Writes bound written (eval c e) :=
  leads_get_bind fun _ => writes_ofRun _

theorem writes_evalArgs (c : RenderCall σ) (directive : String) (args : Expr) :
    Writes bound written (evalArgs c directive args) := by
  refine (writes_eval c args).bind fun v => ?_
  split
  · exact writes_pure _
  · exact writes_failed _

theorem Writes.mono {more : List String} {x : Exec σ α} (h : Writes bound written x)
    (hsub : bound ⊆ more) : Writes more written x :=
  fun m outcome m' hrun => (h m outcome m' hrun).mono hsub

/-- The pair of an iteration is bound in the scope of the iteration, so nothing is left of it. -/
theorem Writes.forPairs {inner : List String} (binding : LoopBinding) (line : Nat)
    {body : Exec σ Unit} (h : Writes inner written body) (pairs : List (Value × Value)) :
    Writes bound written (forPairs binding line body pairs) := by
  have hpair : ∀ value, Writes (binding.key.toList ++ binding.value :: inner) written
      (do define binding.value value; body) := by
    intro value
    refine (writes_define (by simp) value).bind fun _ => h.mono fun name hname => ?_
    exact List.mem_append_right _ (List.mem_cons_of_mem _ hname)
  induction pairs with
  | nil => exact writes_pure ()
  | cons pair rest ih =>
      obtain ⟨key, value⟩ := pair
      suffices hfirst : Writes (binding.key.toList ++ binding.value :: inner) written _ from
        hfirst.inScope.bind fun _ => (writes_atLine line).bind fun _ => ih
      cases hkey : binding.key with
      | none => simpa only [hkey] using hpair value
      | some name =>
          rw [hkey] at hpair
          exact (writes_define (by simp) key).bind fun _ => hpair value

end Exec

/-! ## Statements and nodes -/

namespace Stmt

theorem writes_exec (c : RenderCall σ) {s : Stmt} (hd : ∀ name ∈ s.declared?, name ∈ bound)
    (ha : ∀ name ∈ s.assigned?, name ∈ written) :
    Exec.Writes bound written (s.exec c) := by
  cases s with
  | declare name value =>
      exact (Exec.writes_eval c value).bind fun v => Exec.writes_define (hd name rfl) v
  | assign name value =>
      exact (Exec.writes_eval c value).bind fun v m outcome m' hrun =>
        Exec.rewrites_of_assign (ha name rfl) hrun

theorem writes_execAll (c : RenderCall σ) {stmts : List Stmt}
    (hd : ∀ s ∈ stmts, ∀ name ∈ s.declared?, name ∈ bound)
    (ha : ∀ s ∈ stmts, ∀ name ∈ s.assigned?, name ∈ written) :
    Exec.Writes bound written (execAll c stmts) := by
  induction stmts with
  | nil => exact Exec.writes_pure ()
  | cons s rest ih =>
      refine (writes_exec c (hd s List.mem_cons_self) (ha s List.mem_cons_self)).bind fun _ => ?_
      exact ih (fun s' hs' => hd s' (List.mem_cons_of_mem _ hs'))
        fun s' hs' => ha s' (List.mem_cons_of_mem _ hs')

end Stmt

namespace Node

mutual

theorem writes_exec (c : RenderCall σ) {bound written : List String} :
    ∀ n : Node, n.stmts.filterMap Stmt.declared? ⊆ bound → targets n.walk ⊆ written →
      Exec.Writes bound written (n.exec c)
  | text s, _, _ => Exec.writes_write s
  | interpolate e escape line, _, _ =>
      (Exec.writes_atLine line).bind fun _ => (Exec.writes_eval c e).bind fun _ =>
        Exec.writes_write _
  | choose arms none, _, ha => by
      rw [walk, List.append_nil] at ha
      exact writes_execArms c arms ha (Exec.writes_pure ())
  | choose arms (some body), _, ha => by
      have hsplit : targets (walkArms arms ++ walkAll body) ⊆ written := ha
      rw [targets_append] at hsplit
      obtain ⟨harms, hbody⟩ := List.append_subset.mp hsplit
      exact writes_execArms c arms harms (writes_execAll c body hbody).inScope
  | loop binding subject body line, _, ha => by
      refine (Exec.writes_atLine line).bind fun _ => (Exec.writes_eval c subject).bind fun v => ?_
      cases v.loopPairs? with
      | none => exact Exec.writes_failed _
      | some pairs => exact (writes_execAll c body ha).forPairs binding line pairs
  | block name args line, _, _ =>
      (Exec.writes_atLine line).bind fun _ => (Exec.writes_evalArgs c "block" args).bind fun _ =>
        (Exec.writes_ofRun _).bind fun _ => Exec.writes_write _
  | component reference args line, _, _ =>
      (Exec.writes_atLine line).bind fun _ =>
        (Exec.writes_evalArgs c "component" args).bind fun _ =>
          (Exec.writes_ofRun _).bind fun _ => Exec.writes_write _
  | code statements line, hd, ha => by
      have hself : targets [code statements line] ⊆ written := ha
      rw [targets_cons] at hself
      refine (Exec.writes_atLine line).bind fun _ => Stmt.writes_execAll c ?_ ?_
      · exact fun s hs name hname => hd (List.mem_filterMap.mpr ⟨s, hs, hname⟩)
      · exact fun s hs name hname =>
          (List.append_subset.mp hself).1 (List.mem_filterMap.mpr ⟨s, hs, hname⟩)

theorem writes_execAll (c : RenderCall σ) {written : List String} :
    ∀ nodes : List Node, assigned nodes ⊆ written →
      Exec.Writes (declared nodes) written (execAll c nodes)
  | [], _ => Exec.writes_pure ()
  | n :: rest, ha => by
      rw [assigned, walkAll, targets_append] at ha
      obtain ⟨hn, hrest⟩ := List.append_subset.mp ha
      rw [declared_cons]
      refine (writes_exec c n (List.subset_append_left _ _) hn).bind fun _ => ?_
      exact (writes_execAll c rest hrest).mono (List.subset_append_right _ _)

theorem writes_execArms (c : RenderCall σ) {bound written : List String}
    {otherwise : Exec σ Unit} : ∀ arms : List Arm, targets (walkArms arms) ⊆ written →
      Exec.Writes bound written otherwise → Exec.Writes bound written (execArms c arms otherwise)
  | [], _, hotherwise => hotherwise
  | .arm condition body line :: rest, ha, hotherwise => by
      rw [walkArms, targets_append] at ha
      obtain ⟨hbody, hrest⟩ := List.append_subset.mp ha
      refine (Exec.writes_atLine line).bind fun _ => (Exec.writes_eval c condition).bind fun v => ?_
      split
      · exact (writes_execAll c body hbody).inScope
      · exact writes_execArms c rest hrest hotherwise

end

end Node

end

end LiveMarkup
