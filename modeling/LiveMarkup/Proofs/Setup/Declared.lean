import LiveMarkup.Engine.Server
import LiveMarkup.Reactive.Script
set_option autoImplicit false

/-! # What a setup declares

A setup that only declares props, state and methods comes to the same wherever it is gone through,
since it sees values but not their identities (`Setup.Alike`). What it comes to is said here without
a store (`Setup.declared`): the props with their defaults, the last state, and the names of the
methods. Declared prop types add empty texts for the props that are missing and change nothing else
(`get?_declared`). -/

namespace LiveMarkup

/-! ## Values without identities -/

namespace Value

mutual

/-- A value without identities: functions go by their name. -/
def bare : Value → Value
  | null => null
  | bool b => bool b
  | int n => int n
  | float x => float x
  | str s => str s
  | array _ items => array (.given 0) (bareItems items)
  | object _ fields => object (.given 0) (bareFields fields)
  | markup s => markup s
  | function f => function ⟨.given 0, f.name, .echo⟩

def bareItems : List Value → List Value
  | [] => []
  | v :: rest => bare v :: bareItems rest

def bareFields : List (String × Value) → List (String × Value)
  | [] => []
  | (key, v) :: rest => (key, bare v) :: bareFields rest

end

theorem bareFields_append (t t' : Table Value) :
    bareFields (t ++ t') = bareFields t ++ bareFields t' := by
  induction t with
  | nil => rfl
  | cons first rest ih => simp only [List.cons_append, bareFields, ih]

theorem get?_bareFields (key : String) (t : Table Value) :
    Table.get? key (bareFields t) = (Table.get? key t).map bare := by
  induction t with
  | nil => rfl
  | cons first rest ih =>
      rw [bareFields, Table.get?, Table.get?]
      split
      · rfl
      · exact ih

theorem bareFields_insert (key : String) (v : Value) (t : Table Value) :
    bareFields (Table.insert key v t) = Table.insert key v.bare (bareFields t) := by
  induction t with
  | nil => rfl
  | cons first rest ih =>
      rw [Table.insert, bareFields, Table.insert]
      split
      · rfl
      · rw [bareFields, ih]

theorem bareFields_extend (t entries : Table Value) :
    bareFields (Table.extend t entries) = Table.extend (bareFields t) (bareFields entries) := by
  induction entries generalizing t with
  | nil => rfl
  | cons first rest ih =>
      have hrest := ih (Table.insert first.1 first.2 t)
      rw [bareFields_insert] at hrest
      exact hrest

theorem fields_bare (v : Value) : v.bare.fields = bareFields v.fields := by
  cases v <;> simp only [bare, fields, bareFields]

/-- Values that are the same up to identities have the same fields up to identities. -/
theorem field?_bare {v v' : Value} (h : v.bare = v'.bare) (key : String) :
    (v.field? key).map bare = (v'.field? key).map bare := by
  rw [field?, field?, ← get?_bareFields, ← get?_bareFields, ← fields_bare, ← fields_bare, h]

end Value

open Value (bareFields)

/-- Identities do not matter to the check of props. -/
theorem bareFields_checkProps (types : List (String × PropType)) (t : Table Value) :
    bareFields (checkProps types t).2 = (checkProps types (bareFields t)).2 := by
  induction types generalizing t with
  | nil => rfl
  | cons first rest ih =>
      rw [checkProps, checkProps, Value.get?_bareFields]
      cases Table.get? first.1 t with
      | none =>
          have hrest := ih (Table.insert first.1 (.str "") t)
          rw [Value.bareFields_insert] at hrest
          exact hrest
      | some v =>
          have hrest := ih t
          dsimp only [Option.map_some]
          split <;> split <;> exact hrest

/-! ## Tables that are written over -/

/-- The last entry of a key counts. -/
theorem Table.get?_extend_reverse {α : Type} (entries t : Table α) (key : String) :
    Table.get? key (Table.extend t entries) =
      (Table.get? key entries.reverse).or (Table.get? key t) := by
  have happend : ∀ t' t'' : Table α, Table.get? key (t' ++ t'') =
      (Table.get? key t').or (Table.get? key t'') := by
    intro t' t''
    induction t' with
    | nil => rfl
    | cons first rest ih =>
        rw [List.cons_append, Table.get?, Table.get?]
        split
        · rfl
        · exact ih
  induction entries generalizing t with
  | nil => rfl
  | cons first rest ih =>
      refine (ih (Table.insert first.1 first.2 t)).trans ?_
      rw [List.reverse_cons, happend, Option.or_assoc]
      congr 1
      rw [Table.get?]
      by_cases hkey : first.1 = key
      · simp [hkey]
      · rw [Table.get?_insert_of_ne (fun he => hkey he.symm), if_neg hkey]
        rfl

/-! ## Declarations -/

/-- What a setup has declared so far. -/
structure Declared where
  /-- The props, with what declared types have filled in. -/
  props : Table Value
  /-- The props for which types were declared. -/
  typed : List String
  /-- The state that was created last. -/
  state : Table Value
  /-- The names of the methods. -/
  methods : List String

namespace Declared

/-- The record of some props with the declared state and methods. -/
def record (d : Declared) (props : Table Value) : Table Value :=
  dataRecord props d.state (d.methods.map fun name => ⟨.given 0, name, .echo⟩)

/-- Before the first declaration there are the props that were passed. -/
def start (props : Table Value) : Declared := ⟨props, [], [], []⟩

/-- What signals, methods and props of an instance have to be for these declarations. -/
structure Meets (d : Declared) (props : Table Value) (signal : Option SignalId)
    (methods : List NativeFn) (s : Store) : Prop where
  props : bareFields props = bareFields d.props
  state : bareFields ((signal.map s.snapshot).getD []) = bareFields d.state
  methods : methods.map NativeFn.name = d.methods

theorem meets_start {props : Table Value} (s : Store) : (start props).Meets props none [] s :=
  ⟨rfl, rfl, rfl⟩

/-- A data record shows the declared state and methods over the props. -/
theorem Meets.bareFields_dataRecord {d : Declared} {props : Table Value} {signal : Option SignalId}
    {methods : List NativeFn} {s : Store} (h : d.Meets props signal methods s)
    {shown shown' : Table Value} (hshown : bareFields shown = bareFields shown') :
    bareFields (dataRecord shown ((signal.map s.snapshot).getD []) methods) =
      bareFields (d.record shown') := by
  have hmethods : bareFields (methods.map fun f => (f.name, Value.function f)) =
      bareFields (d.methods.map fun name => (name, Value.function ⟨.given 0, name, .echo⟩)) := by
    rw [← h.methods]
    clear h
    induction methods with
    | nil => rfl
    | cons f rest ih => exact congrArg (List.cons (f.name, .function ⟨.given 0, f.name, .echo⟩)) ih
  unfold record dataRecord
  rw [List.map_map, Value.bareFields_extend, Value.bareFields_extend, hshown, h.state, hmethods,
    ← Value.bareFields_extend, ← Value.bareFields_extend]
  rfl

end Declared

namespace Setup

/-- What a setup declares that gets new objects for its props. -/
def declared (owner : InstanceRef) : Setup → Declared → Declared
  | done, d => d
  | props next, d => declared owner (next (.object (.given 0) d.props)) d
  | propTypes types next, d =>
    let checked := (checkProps types d.props).2
    declared owner (next (.object (.given 0) checked))
      { d with props := checked, typed := d.typed ++ types.map Prod.fst }
  | proxy initial next, d => declared owner (next 0 owner) { d with state := Table.ofList initial }
  | methods ops next, d =>
    declared owner next { d with methods := d.methods ++ ops.map Prod.fst }
  | events _ next, d => declared owner next d
  | watch _ _ next, d => declared owner next d
  | onError _ next, d => declared owner next d
  | load _ next, d => declared owner next d
  | useSignal _ next, d => declared owner (next none) d
  | on _ _ next, d => declared owner next d
  | act _ next, d => declared owner next d

/-- Setups that declare the same props, prop types, state and methods from the same values, whatever
the identities, and that do no more than leave notes beside. -/
inductive Alike : Setup → Setup → Prop
  | done : Alike done done
  | props {next next' : Value → Setup} :
      (∀ v v' : Value, v.bare = v'.bare → Alike (next v) (next' v')) →
      Alike (props next) (props next')
  | propTypes {types : List (String × PropType)} {next next' : Value → Setup} :
      (∀ v v' : Value, v.bare = v'.bare → Alike (next v) (next' v')) →
      Alike (propTypes types next) (propTypes types next')
  | proxy {initial initial' : List (String × Value)} {next next' : SignalId → InstanceRef → Setup} :
      bareFields initial = bareFields initial' →
      (∀ id id' owner, Alike (next id owner) (next' id' owner)) →
      Alike (proxy initial next) (proxy initial' next')
  | methods {ops ops' : List (String × NativeOp)} {next next' : Setup} :
      ops.map Prod.fst = ops'.map Prod.fst → Alike next next' →
      Alike (methods ops next) (methods ops' next')
  | note {entry entry' : List Value} {next next' : Setup} : Alike next next' →
      Alike (act (.note entry .finish) next) (act (.note entry' .finish) next')

/-- A setup that only declares things. -/
def Declaratory (s : Setup) : Prop := s.Alike s

end Setup

/-! ## What prop types fill in -/

/-- A prop that is missing becomes an empty text if a type is declared for it. -/
theorem get?_checkProps (types : List (String × PropType)) (t : Table Value) (key : String) :
    Table.get? key (checkProps types t).2 =
      (Table.get? key t).or (if key ∈ types.map Prod.fst then some (.str "") else none) := by
  induction types generalizing t with
  | nil => simp [checkProps]
  | cons first rest ih =>
      obtain ⟨name, type⟩ := first
      rw [checkProps]
      cases hname : Table.get? name t with
      | none =>
          have hrest := ih (Table.insert name (.str "") t)
          refine hrest.trans ?_
          by_cases hkey : key = name
          · subst hkey
            simp [hname]
          · simp only [Table.get?_insert_of_ne hkey, List.map_cons, List.mem_cons, hkey, false_or]
      | some v =>
          have hrest := ih t
          have hsame : Table.get? key (checkProps rest t).2 = (Table.get? key t).or
              (if key ∈ ((name, type) :: rest).map Prod.fst then some (.str "") else none) := by
            rw [hrest]
            by_cases hkey : key = name
            · subst hkey
              simp [hname]
            · simp only [List.map_cons, List.mem_cons, hkey, false_or]
          dsimp only
          split <;> exact hsame

/-- What a setup has made of the props that were passed. -/
theorem get?_declared (owner : InstanceRef) (s : Setup) (d : Declared) (passed : Table Value)
    (h : ∀ key, Table.get? key d.props =
      (Table.get? key passed).or (if key ∈ d.typed then some (.str "") else none)) (key : String) :
    Table.get? key (s.declared owner d).props = (Table.get? key passed).or
      (if key ∈ (s.declared owner d).typed then some (.str "") else none) := by
  induction s generalizing d with
  | done => exact h key
  | props next ih => exact ih _ d h
  | propTypes types next ih =>
      refine ih _ _ fun key => ?_
      rw [get?_checkProps, h, Option.or_assoc]
      congr 1
      by_cases htyped : key ∈ d.typed <;> simp only [htyped, List.mem_append, true_or, false_or,
        if_true, if_false, Option.some_or, Option.none_or]
  | proxy initial next ih => exact ih _ _ _ h
  | methods ops next ih => exact ih _ h
  | events _ _ ih | watch _ _ _ ih | onError _ _ ih | load _ _ ih | on _ _ _ ih | act _ _ ih =>
      exact ih _ h
  | useSignal _ next ih => exact ih _ _ h

/-- Two records show the same: every field is in both or in none, with the same value up to
identities. -/
def SameFields (t t' : Table Value) : Prop :=
  ∀ key, (Table.get? key t).map Value.bare = (Table.get? key t').map Value.bare

/-- With and without the filled in props, the records are the same exactly if each declared prop was
passed or is hidden by state or by a method. -/
theorem sameFields_record_iff (owner : InstanceRef) (s : Setup) (passed : Table Value) :
    let d := s.declared owner (.start passed)
    SameFields (d.record passed) (d.record d.props) ↔ ∀ key ∈ d.typed,
      key ∈ Table.keys passed ∨ key ∈ Table.keys d.state ∨ key ∈ d.methods := by
  intro d
  have hprops : ∀ key, Table.get? key d.props =
      (Table.get? key passed).or (if key ∈ d.typed then some (.str "") else none) :=
    get?_declared owner s (.start passed) passed fun key => by simp [Declared.start]
  have hrecord : ∀ (props : Table Value) (key : String), Table.get? key (d.record props) =
      (Table.get? key (d.methods.map fun name =>
        (name, Value.function ⟨.given 0, name, .echo⟩)).reverse).or
        ((Table.get? key d.state.reverse).or (Table.get? key props)) := by
    intro props key
    unfold Declared.record dataRecord
    rw [Table.get?_extend_reverse, Table.get?_extend_reverse, List.map_map]
    rfl
  have hmethods : ∀ key, (Table.get? key (d.methods.map fun name =>
      (name, Value.function ⟨.given 0, name, .echo⟩)).reverse).isSome ↔ key ∈ d.methods := by
    intro key
    rw [Table.get?_isSome_iff]
    simp [Table.keys]
  have hstate : ∀ key, (Table.get? key d.state.reverse).isSome ↔ key ∈ Table.keys d.state := by
    intro key
    rw [Table.get?_isSome_iff]
    simp [Table.keys]
  constructor
  · intro hsame key htyped
    have hkey := hsame key
    rw [hrecord, hrecord, hprops, if_pos htyped] at hkey
    rw [← hmethods, ← hstate, ← Table.get?_isSome_iff]
    -- a field that nothing shows would be an empty text in one record and missing in the other
    revert hkey
    cases Table.get? key passed with
    | some v => simp
    | none =>
        cases Table.get? key d.state.reverse <;> cases Table.get? key (List.reverse _) <;> simp
  · intro hcovered key
    rw [hrecord, hrecord, hprops]
    by_cases htyped : key ∈ d.typed
    · rcases hcovered key htyped with hkey | hkey | hkey
      · obtain ⟨v, hv⟩ := Option.isSome_iff_exists.mp (Table.get?_isSome_iff.mpr hkey)
        simp [hv]
      · obtain ⟨v, hv⟩ := Option.isSome_iff_exists.mp ((hstate key).mpr hkey)
        simp [hv]
      · obtain ⟨v, hv⟩ := Option.isSome_iff_exists.mp ((hmethods key).mpr hkey)
        simp [hv]
    · simp [htyped]

theorem sameFields_congr {t₁ t₂ t₁' t₂' : Table Value} (h₁ : bareFields t₁ = bareFields t₁')
    (h₂ : bareFields t₂ = bareFields t₂') : SameFields t₁ t₂ ↔ SameFields t₁' t₂' := by
  unfold SameFields
  simp only [← Value.get?_bareFields, h₁, h₂]

/-! ## Scripted setups -/

namespace Script

/-- The steps that do nothing but declare. -/
def Step.Declares : Step → Prop
  | .props | .propTypes _ | .proxy _ _ => True
  | .methods ms => ∀ m ∈ ms, ∀ owner key, m.2 ≠ .other owner key
  | _ => False

theorem alike_resolve {signal signal' : Option SignalId}
    {resolved resolved' : List (String × NativeOp)}
    {next next' : List (String × NativeOp) → Setup}
    (hresolved : resolved.map Prod.fst = resolved'.map Prod.fst)
    (hnext : ∀ ops ops' : List (String × NativeOp), ops.map Prod.fst = ops'.map Prod.fst →
      (next ops).Alike (next' ops'))
    {methods : List (String × Method)} (h : (Step.methods methods).Declares) :
    (resolve signal resolved next methods).Alike (resolve signal' resolved' next' methods) := by
  induction methods generalizing resolved resolved' with
  | nil => exact hnext _ _ hresolved
  | cons first rest ih =>
      obtain ⟨name, method⟩ := first
      have hrest : (Step.methods rest).Declares := fun m hm => h m (List.mem_cons_of_mem _ hm)
      -- the resolved operations may differ, their names do not
      have hmore : ∀ op op' : NativeOp, (resolved ++ [(name, op)]).map Prod.fst =
          (resolved' ++ [(name, op')]).map Prod.fst := by
        intro op op'
        rw [List.map_append, List.map_append, hresolved]
        rfl
      cases method with
      | native op => exact ih (hmore _ _) hrest
      | state key => exact ih (hmore _ _) hrest
      | write key => exact ih (hmore _ _) hrest
      | other owner key => exact absurd rfl (h _ List.mem_cons_self owner key)

/-- State that is taken from props. -/
theorem bareFields_passed {v v' : Value} (hv : v.bare = v'.bare)
    (fromProps : List (String × String)) :
    bareFields (fromProps.map fun (key, prop) => (key, (v.field? prop).getD .null)) =
      bareFields (fromProps.map fun (key, prop) => (key, (v'.field? prop).getD .null)) := by
  have hpassed : ∀ prop, ((v.field? prop).getD .null).bare =
      ((v'.field? prop).getD .null).bare := by
    intro prop
    have hfield := Value.field?_bare hv prop
    revert hfield
    cases v.field? prop <;> cases v'.field? prop <;> simp
  induction fromProps with
  | nil => rfl
  | cons entry rest ih =>
      rw [List.map_cons, List.map_cons, Value.bareFields, Value.bareFields, ih, hpassed]

/-- A script of such steps is a setup that only declares things. -/
theorem declaratory_setup {steps : List Step} (h : ∀ s ∈ steps, s.Declares)
    (signal : Option SignalId) : (setup signal steps).Declaratory := by
  have halike : ∀ signal signal' : Option SignalId,
      (setup signal steps).Alike (setup signal' steps) := by
    induction steps with
    | nil => exact fun _ _ => .done
    | cons step rest ih =>
        have hrest := ih fun s hs => h s (List.mem_cons_of_mem _ hs)
        intro signal signal'
        cases step with
        | props => exact .props fun v v' _ => .note (hrest signal signal')
        | propTypes types => exact .propTypes fun v v' _ => .note (hrest signal signal')
        | proxy fields fromProps =>
            refine .props fun v v' hv => .proxy ?_ fun id id' owner =>
              .note (hrest (some id) (some id'))
            rw [Value.bareFields_append, Value.bareFields_append, bareFields_passed hv]
        | methods methods =>
            have hmethods := h _ List.mem_cons_self
            exact alike_resolve rfl (fun ops ops' hops => .methods hops (hrest signal signal'))
              hmethods
        | events | watch | onError | load | on => exact (h _ List.mem_cons_self).elim
  exact halike signal signal

end Script

end LiveMarkup
