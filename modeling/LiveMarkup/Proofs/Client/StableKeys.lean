import LiveMarkup.Proofs.InstanceKeys
import Mathlib.Data.List.Induction
set_option autoImplicit false

/-! # Histories of a registry

A registry is only ever changed by seeding it, by resolving occurrences and by starting a new pass.
No operation takes a key out of a list or moves one, so a position means one instance for the life
of the page (`keys_prefix_after`), and the cursor of a component is the number of occurrences that
the running pass has resolved by their place (`Op.position`). What occurrences by key do is kept
apart in lists of its own: the lists by position are the same without them
(`Agree.positionalAnswers`). `identity_of_history` puts this together for every history. -/

namespace LiveMarkup

/-! ## What a record holds of a component -/

namespace HostProps

/-- The recorded instances of a component, in order. A record names a component once; the registry
does not go by that. -/
def recordsOf (h : HostProps) (name : String) : List (String × Value) :=
  (h.entries.filter fun e => e.1 = name).flatMap Prod.snd

/-- The record has the instance that carries this key: under its instance key, with props that carry
a key. -/
def Carries (h : HostProps) (name key : String) : Prop :=
  ∃ e ∈ h.recordsOf name, e.1 = explicitInstanceKey name key ∧ (explicitKey? e.2).isSome

end HostProps

/-- Carried keys of one component are told apart. -/
theorem explicitInstanceKey_injective (name : String) :
    Function.Injective (explicitInstanceKey name) := by
  intro key key' h
  have hlist := congrArg String.toList h
  simp only [explicitInstanceKey, String.toList_append, List.append_assoc] at hlist
  have htail := List.append_cancel_left (List.append_cancel_left hlist)
  exact String.ext htail

namespace Registry

variable {r r' : Registry} {name : String}

/-! ## Seeding -/

section

variable {l l' : KeyList}

theorem isPrefix_keys_foldl_seed (t : List (String × Value)) :
    l.keys <+: (t.foldl (fun l e => KeyList.seed l e.1 e.2) l).keys := by
  induction t generalizing l with
  | nil => exact List.prefix_refl _
  | cons e rest ih =>
      have hfirst : l.keys <+: (KeyList.seed l e.1 e.2).keys := by
        unfold KeyList.seed
        split
        · exact List.prefix_refl _
        · show l.keys <+: if l.keys.contains e.1 then l.keys else l.keys ++ [e.1]
          split
          · exact List.prefix_refl _
          · exact List.prefix_append _ _
      exact hfirst.trans ih

theorem cursor_foldl_seed (t : List (String × Value)) :
    (t.foldl (fun l e => KeyList.seed l e.1 e.2) l).cursor = l.cursor := by
  induction t generalizing l with
  | nil => rfl
  | cons e rest ih =>
      have hfirst : (KeyList.seed l e.1 e.2).cursor = l.cursor := by
        unfold KeyList.seed
        split <;> rfl
      exact ih.trans hfirst

/-- Seeding adds keys by position without a look at the other keys. -/
theorem keys_foldl_seed_congr (h : l.keys = l'.keys) (t : List (String × Value)) :
    (t.foldl (fun l e => KeyList.seed l e.1 e.2) l).keys =
      (t.foldl (fun l e => KeyList.seed l e.1 e.2) l').keys := by
  induction t generalizing l l' with
  | nil => exact h
  | cons e rest ih =>
      refine ih ?_
      show (KeyList.seed l e.1 e.2).keys = (KeyList.seed l' e.1 e.2).keys
      unfold KeyList.seed
      split
      · exact h
      · show (if l.keys.contains e.1 then l.keys else l.keys ++ [e.1]) =
          if l'.keys.contains e.1 then l'.keys else l'.keys ++ [e.1]
        rw [h]

end

/-- A record reaches the list of a component with what it holds of it. -/
theorem list_seed_recordsOf (r : Registry) (host : HostProps) (name : String) :
    list (r.seed host) name =
      (host.recordsOf name).foldl (fun l e => KeyList.seed l e.1 e.2) (list r name) := by
  unfold seed HostProps.recordsOf
  induction host.entries generalizing r with
  | nil => rfl
  | cons first rest ih =>
      rw [List.foldl_cons, ih, list_insert]
      by_cases heq : first.1 = name
      · subst heq
        simp [List.foldl_append]
      · have hne : ¬name = first.1 := fun h => heq h.symm
        simp [heq, hne]

/-! ## Operations -/

inductive Op where
  | seed (host : HostProps)
  | resetCursors
  | resolve (name : String)
  | resolveExplicit (name key : String)

def perform (r : Registry) : Op → Registry
  | .seed host => r.seed host
  | .resetCursors => r.resetCursors
  | .resolve name => (r.resolve name).2
  | .resolveExplicit name key => (r.resolveExplicit name key).2

/-- The registry after some operations. -/
def after (r : Registry) (ops : List Op) : Registry := ops.foldl perform r

/-- What some operations answer for the occurrences by position among them, in order. -/
def positionalAnswers (r : Registry) : List Op → List Resolution
  | [] => []
  | .resolve name :: rest => (r.resolve name).1 :: positionalAnswers (r.resolve name).2 rest
  | op :: rest => positionalAnswers (r.perform op) rest

namespace Op

def isReset : Op → Bool
  | resetCursors => true
  | _ => false

def isExplicit : Op → Bool
  | resolveExplicit _ _ => true
  | _ => false

def resolves (name : String) : Op → Bool
  | resolve other => other = name
  | _ => false

/-- The operation makes the instance known that carries this key. -/
def Introduces (name key : String) : Op → Prop
  | seed host => host.Carries name key
  | resolveExplicit other own => other = name ∧ own = key
  | _ => False

/-- The operations since the cursors were last reset. -/
def pass (ops : List Op) : List Op := (ops.reverse.takeWhile fun op => !op.isReset).reverse

/-- How many occurrences of a component the running pass has resolved by their place. -/
def position (name : String) (ops : List Op) : Nat := (pass ops).countP (resolves name)

theorem position_append_resetCursors (name : String) (ops : List Op) :
    position name (ops ++ [resetCursors]) = 0 := by
  simp [position, pass, isReset]

theorem position_append_of_not {op : Op} (h : op.isReset = false) (name : String)
    (ops : List Op) :
    position name (ops ++ [op]) = position name ops + if op.resolves name then 1 else 0 := by
  have hpass : pass (ops ++ [op]) = pass ops ++ [op] := by simp [pass, h]
  rw [position, hpass, List.countP_append, List.countP_singleton]
  rfl

end Op

theorem after_append (r : Registry) (ops more : List Op) :
    after r (ops ++ more) = after (after r ops) more := List.foldl_append

/-! ## One operation on one list -/

theorem list_resolve_of_ne {other : String} (h : name ≠ other) (r : Registry) :
    list (r.resolve other).2 name = list r name := by
  unfold resolve
  dsimp only
  split <;> rw [list_insert, if_neg h]

/-- Whether the key under the cursor was there or not, the cursor moves on by one, and the key that
was given stands where the cursor was. -/
theorem list_resolve {r : Registry} {name : String}
    (hwithin : cursor r name ≤ (keys r name).length) :
    cursor (r.resolve name).2 name = cursor r name + 1 ∧
      (keys (r.resolve name).2 name)[cursor r name]? = some (r.resolve name).1.key ∧
      ((r.resolve name).1.created = true ↔ (keys r name).length ≤ cursor r name) := by
  unfold keys cursor at *
  cases hget : (list r name).keys[(list r name).cursor]? with
  | some key =>
      have hlt := (List.getElem?_eq_some_iff.mp hget).1
      simp only [resolve, hget, list_insert, if_true]
      exact ⟨trivial, trivial, by simpa using hlt⟩
  | none =>
      have hge := List.getElem?_eq_none_iff.mp hget
      have hend : (list r name).cursor = (list r name).keys.length := by omega
      simp only [resolve, hget, list_insert, if_true]
      refine ⟨trivial, ?_, by simpa using hge⟩
      rw [hend]
      simp

theorem list_resolveExplicit (r : Registry) (name key other : String) :
    list (r.resolveExplicit name key).2 other =
      if other = name then
        { list r name with
          explicit := if (list r name).explicit.contains (explicitInstanceKey name key)
            then (list r name).explicit
            else (list r name).explicit ++ [explicitInstanceKey name key] }
      else list r other := by
  unfold resolveExplicit
  dsimp only
  split <;> rw [list_insert]

/-- An occurrence by key touches nothing that occurrences by position go by. -/
theorem positional_resolveExplicit (r : Registry) (name key other : String) :
    keys (r.resolveExplicit name key).2 other = keys r other ∧
      cursor (r.resolveExplicit name key).2 other = cursor r other := by
  unfold keys cursor
  rw [list_resolveExplicit]
  by_cases heq : other = name
  · subst heq
    rw [if_pos rfl]
    exact ⟨rfl, rfl⟩
  · rw [if_neg heq]
    exact ⟨rfl, rfl⟩

theorem created_resolveExplicit (r : Registry) (name key : String) :
    (r.resolveExplicit name key).1.created = true ↔
      explicitInstanceKey name key ∉ (list r name).explicit := by
  unfold resolveExplicit
  dsimp only
  split
  · next h => simpa using h
  · next h => simpa using h

/-! ## Lists only grow -/

/-- One operation leaves every list a beginning of what it becomes. -/
theorem keys_prefix_perform (r : Registry) (op : Op) (name : String) :
    keys r name <+: keys (r.perform op) name := by
  cases op with
  | seed host =>
      show (list r name).keys <+: (list (r.seed host) name).keys
      rw [list_seed_recordsOf]
      exact isPrefix_keys_foldl_seed _
  | resetCursors =>
      have hkeys : keys r.resetCursors name = keys r name := by
        unfold keys
        rw [list_resetCursors]
      exact hkeys ▸ List.prefix_refl (keys r name)
  | resolve other =>
      by_cases heq : name = other
      · subst heq
        show (list r name).keys <+: (list (r.resolve name).2 name).keys
        unfold resolve
        dsimp only
        split
        · simp only [list_insert, if_true]
          exact List.prefix_refl _
        · simp only [list_insert, if_true]
          exact List.prefix_append _ _
      · have hkeys : keys (r.resolve other).2 name = keys r name :=
          congrArg KeyList.keys (list_resolve_of_ne heq r)
        exact hkeys ▸ List.prefix_refl (keys r name)
  | resolveExplicit other key =>
      have hkeys := (positional_resolveExplicit r other key name).1
      exact hkeys ▸ List.prefix_refl (keys r name)

theorem keys_prefix_after (r : Registry) (ops : List Op) (name : String) :
    keys r name <+: keys (after r ops) name := by
  induction ops generalizing r with
  | nil => exact List.prefix_refl _
  | cons op rest ih => exact (keys_prefix_perform r op name).trans (ih (r.perform op))

/-! ## The books of a registry

`Kept r ops` is what one operation preserves of the registry that a history has led to. -/

structure Kept (r : Registry) (ops : List Op) : Prop where
  cursor : ∀ name, cursor r name = Op.position name ops
  within : ∀ name, Registry.cursor r name ≤ (keys r name).length
  explicit : ∀ name key, explicitInstanceKey name key ∈ (list r name).explicit ↔
    ∃ op ∈ ops, op.Introduces name key

theorem kept_empty : Kept [] [] where
  cursor _ := rfl
  within _ := Nat.le_refl 0
  explicit name key := by
    show explicitInstanceKey name key ∈ [] ↔ _
    simp

section

variable {ops : List Op}

/-- An operation that brings in no instance by key leaves those that are known as they are. -/
theorem Kept.explicit_of_not_introduces (h : Kept r ops) {op : Op}
    (hsame : ∀ name, (list r' name).explicit = (list r name).explicit)
    (hop : ∀ name key, ¬op.Introduces name key) (name key : String) :
    explicitInstanceKey name key ∈ (list r' name).explicit ↔
      ∃ op' ∈ ops ++ [op], op'.Introduces name key := by
  rw [hsame, h.explicit]
  simp [hop]

theorem Kept.seed (h : Kept r ops) (host : HostProps) :
    Kept (r.seed host) (ops ++ [.seed host]) := by
  have hcursor : ∀ name, Registry.cursor (r.seed host) name = Registry.cursor r name := by
    intro name
    unfold Registry.cursor
    rw [list_seed_recordsOf, cursor_foldl_seed]
  constructor
  · intro name
    rw [hcursor, h.cursor, Op.position_append_of_not rfl]
    rfl
  · intro name
    rw [hcursor]
    exact Nat.le_trans (h.within name) (keys_prefix_perform r (.seed host) name).length_le
  · intro name key
    rw [list_seed_recordsOf, mem_explicit_foldl_seed, h.explicit]
    simp [Op.Introduces, HostProps.Carries, or_and_right, exists_or]

theorem Kept.resetCursors (h : Kept r ops) : Kept r.resetCursors (ops ++ [.resetCursors]) := by
  constructor
  · intro name
    unfold Registry.cursor
    rw [list_resetCursors, Op.position_append_resetCursors]
  · intro name
    unfold Registry.cursor
    rw [list_resetCursors]
    exact Nat.zero_le _
  · refine h.explicit_of_not_introduces (fun name => ?_) fun _ _ => id
    rw [list_resetCursors]

theorem Kept.resolve (h : Kept r ops) (name : String) :
    Kept (r.resolve name).2 (ops ++ [.resolve name]) := by
  obtain ⟨hcursor, hgiven, -⟩ := list_resolve (h.within name)
  constructor
  · intro other
    rw [Op.position_append_of_not rfl]
    by_cases heq : other = name
    · subst heq
      rw [hcursor, h.cursor]
      simp [Op.resolves]
    · have hne : ¬name = other := fun he => heq he.symm
      have hlist : Registry.cursor (r.resolve name).2 other = Registry.cursor r other :=
        congrArg KeyList.cursor (list_resolve_of_ne heq r)
      rw [hlist, h.cursor]
      simp [Op.resolves, hne]
  · intro other
    by_cases heq : other = name
    · subst heq
      have hlt := (List.getElem?_eq_some_iff.mp hgiven).1
      omega
    · unfold Registry.cursor keys
      rw [list_resolve_of_ne heq]
      exact h.within other
  · refine h.explicit_of_not_introduces (fun other => ?_) fun _ _ => id
    by_cases heq : other = name
    · subst heq
      unfold Registry.resolve
      dsimp only
      split <;> rw [list_insert, if_pos rfl]
    · rw [list_resolve_of_ne heq]

theorem Kept.resolveExplicit (h : Kept r ops) (name key : String) :
    Kept (r.resolveExplicit name key).2 (ops ++ [.resolveExplicit name key]) := by
  have hsame := positional_resolveExplicit r name key
  constructor
  · intro other
    rw [(hsame other).2, h.cursor, Op.position_append_of_not rfl]
    rfl
  · intro other
    rw [(hsame other).1, (hsame other).2]
    exact h.within other
  · intro other own
    rw [list_resolveExplicit]
    by_cases heq : other = name
    · subst heq
      have hadded : ∀ k, k ∈ (if (list r other).explicit.contains (explicitInstanceKey other key)
            then (list r other).explicit
            else (list r other).explicit ++ [explicitInstanceKey other key]) ↔
          k ∈ (list r other).explicit ∨ k = explicitInstanceKey other key := by
        intro k
        split
        · next hthere =>
            have hmem := List.contains_iff_mem.mp hthere
            exact ⟨.inl, fun hk => hk.elim id fun he => he ▸ hmem⟩
        · simp
      rw [if_pos rfl, hadded, h.explicit, (explicitInstanceKey_injective other).eq_iff]
      simp [Op.Introduces, or_and_right, exists_or, eq_comm]
    · have hne : ¬name = other := fun he => heq he.symm
      rw [if_neg heq, h.explicit]
      simp [Op.Introduces, hne]

/-- One operation keeps the books. -/
theorem Kept.perform (h : Kept r ops) (op : Op) : Kept (r.perform op) (ops ++ [op]) := by
  cases op with
  | seed host => exact h.seed host
  | resetCursors => exact h.resetCursors
  | resolve name => exact h.resolve name
  | resolveExplicit name key => exact h.resolveExplicit name key

end

/-- After any history the books are right. -/
theorem kept_after (ops : List Op) : Kept (after [] ops) ops := by
  induction ops using List.reverseRecOn with
  | nil => exact kept_empty
  | append_singleton ops op ih =>
      rw [after_append]
      exact ih.perform op

/-! ## Histories without the occurrences by key -/

/-- Two registries are equal in what occurrences by position go by. -/
def Agree (r r' : Registry) : Prop :=
  ∀ name, keys r name = keys r' name ∧ cursor r name = cursor r' name

theorem Agree.seed (h : Agree r r') (host : HostProps) : Agree (r.seed host) (r'.seed host) := by
  intro name
  unfold keys cursor
  simp only [list_seed_recordsOf, cursor_foldl_seed]
  exact ⟨keys_foldl_seed_congr (h name).1 _, (h name).2⟩

theorem Agree.resetCursors (h : Agree r r') : Agree r.resetCursors r'.resetCursors := by
  intro name
  unfold keys cursor
  rw [list_resetCursors, list_resetCursors]
  exact ⟨(h name).1, rfl⟩

theorem Agree.resolve (h : Agree r r') (name : String) :
    (r.resolve name).1 = (r'.resolve name).1 ∧ Agree (r.resolve name).2 (r'.resolve name).2 := by
  obtain ⟨hkeys, hcursor⟩ : (list r name).keys = (list r' name).keys ∧
    (list r name).cursor = (list r' name).cursor := h name
  have hinsert : ∀ l l' : KeyList, l.keys = l'.keys → l.cursor = l'.cursor →
      Agree (Table.insert name l r) (Table.insert name l' r') := by
    intro l l' hlkeys hlcursor other
    unfold keys cursor
    rw [list_insert, list_insert]
    split
    · exact ⟨hlkeys, hlcursor⟩
    · exact h other
  unfold Registry.resolve
  dsimp only
  rw [← hkeys, ← hcursor]
  split
  · exact ⟨rfl, hinsert _ _ rfl rfl⟩
  · exact ⟨rfl, hinsert _ _ rfl rfl⟩

theorem Agree.resolveExplicit_left (h : Agree r r') (name key : String) :
    Agree (r.resolveExplicit name key).2 r' := by
  intro other
  obtain ⟨hkeys, hcursor⟩ := positional_resolveExplicit r name key other
  rw [hkeys, hcursor]
  exact h other

/-- Without the occurrences by key, a history answers the same for those by position. -/
theorem Agree.positionalAnswers (h : Agree r r') (ops : List Op) :
    positionalAnswers r ops = positionalAnswers r' (ops.filter fun op => !op.isExplicit) := by
  induction ops generalizing r r' with
  | nil => rfl
  | cons op rest ih =>
      cases op with
      | seed host => exact ih (h.seed host)
      | resetCursors => exact ih h.resetCursors
      | resolve name =>
          obtain ⟨hanswer, hnext⟩ := h.resolve name
          show (r.resolve name).1 :: _ = (r'.resolve name).1 :: _
          rw [hanswer, ih hnext]
      | resolveExplicit name key => exact ih (h.resolveExplicit_left name key)

/-! ## One position, one instance -/

/-- What a position was resolved to stays in its place. -/
theorem getElem?_keys_of_resolve (ops more : List Op) (name : String) :
    (keys (after [] (ops ++ .resolve name :: more)) name)[Op.position name ops]? =
      some ((after [] ops).resolve name).1.key := by
  have hkept := kept_after ops
  obtain ⟨-, hgiven, -⟩ := list_resolve (hkept.within name)
  rw [hkept.cursor] at hgiven
  have hlater : after [] (ops ++ .resolve name :: more) =
      after ((after [] ops).resolve name).2 more := by
    rw [after_append]
    rfl
  have hprefix := keys_prefix_after ((after [] ops).resolve name).2 more name
  obtain ⟨hlt, hkey⟩ := List.getElem?_eq_some_iff.mp hgiven
  rw [hlater, List.prefix_iff_getElem?.mp hprefix _ hlt, hkey]

/-- Occurrences of one component with the same number in their passes are the same instance. -/
theorem key_resolve_of_position_eq (ops : List Op) (name : String) (more : List Op) :
    let later := ops ++ .resolve name :: more
    Op.position name later = Op.position name ops →
      ((after [] later).resolve name).1.key = ((after [] ops).resolve name).1.key := by
  intro later hsame
  -- both are what the list has at the position that they share, once the later one is resolved
  have hearlier := getElem?_keys_of_resolve ops (more ++ [.resolve name]) name
  have hlater := getElem?_keys_of_resolve later [] name
  have hlists : ops ++ .resolve name :: (more ++ [.resolve name]) = later ++ [.resolve name] := by
    simp [later]
  rw [hsame] at hlater
  rw [hlists, hlater] at hearlier
  exact Option.some.inj hearlier

/-- After any history of a new registry: more operations leave every list a beginning of what it
becomes; an occurrence stands at the position that counts the occurrences of its component since the
last reset; what it is resolved to stays at that position, so that an occurrence with the same
number in any later pass is the same instance; it is new exactly when its position is past the end
of the list. An occurrence by key changes no list by position and no cursor, and without all of
these the history answers the same for the occurrences by position. An occurrence by key is new
exactly when none of its component and key was resolved before and no seeded record carries it. -/
theorem identity_of_history (ops : List Op) :
    let r := after [] ops
    (∀ more name, keys r name <+: keys (after [] (ops ++ more)) name) ∧
    (∀ name, cursor r name = Op.position name ops) ∧
    (∀ name more, (keys (after [] (ops ++ .resolve name :: more)) name)[Op.position name ops]? =
      some (r.resolve name).1.key) ∧
    (∀ name more, let later := ops ++ .resolve name :: more
      Op.position name later = Op.position name ops →
        ((after [] later).resolve name).1.key = (r.resolve name).1.key) ∧
    (∀ name, (r.resolve name).1.created = true ↔ (keys r name).length ≤ Op.position name ops) ∧
    (∀ name key other, keys (r.resolveExplicit name key).2 other = keys r other ∧
      cursor (r.resolveExplicit name key).2 other = cursor r other) ∧
    positionalAnswers [] ops = positionalAnswers [] (ops.filter fun op => !op.isExplicit) ∧
    ∀ name key, (r.resolveExplicit name key).1.created = true ↔
      .resolveExplicit name key ∉ ops ∧ ∀ host, .seed host ∈ ops → ¬host.Carries name key := by
  intro r
  have hkept : Kept r ops := kept_after ops
  refine ⟨fun more name => ?_, hkept.cursor,
    fun name more => getElem?_keys_of_resolve ops more name, key_resolve_of_position_eq ops,
    fun name => ?_, positional_resolveExplicit r, ?_, fun name key => ?_⟩
  · rw [after_append]
    exact keys_prefix_after r more name
  · rw [← hkept.cursor name]
    exact (list_resolve (hkept.within name)).2.2
  · have hsame : Agree [] [] := fun name => ⟨rfl, rfl⟩
    exact hsame.positionalAnswers ops
  · rw [created_resolveExplicit, hkept.explicit]
    constructor
    · intro h
      exact ⟨fun hmem => h ⟨_, hmem, rfl, rfl⟩, fun host hmem hcarries => h ⟨_, hmem, hcarries⟩⟩
    · rintro ⟨hresolved, hseeded⟩ ⟨op, hmem, hop⟩
      cases op with
      | seed host => exact hseeded host hmem hop
      | resolveExplicit other own =>
          obtain ⟨rfl, rfl⟩ := hop
          exact hresolved hmem
      | resetCursors => exact hop
      | resolve _ => exact hop

/-- The second card of a pass is made once; the next pass finds it again, with a card by key
between. -/
theorem second_card_again :
    let host : HostProps := ⟨[("card", [("card", .null)])]⟩
    let ops : List Op := [.seed host, .resolve "card", .resolveExplicit "card" "hero"]
    let later := ops ++ .resolve "card" :: [.resetCursors, .resolve "card"]
    Op.position "card" later = Op.position "card" ops ∧
      ((after [] ops).resolve "card").1 = ⟨"card_1", true⟩ ∧
      ((after [] later).resolve "card").1.key = "card_1" := by
  intro host ops later
  have hsame : Op.position "card" later = Op.position "card" ops := by decide
  have hfirst : ((after [] ops).resolve "card").1 = ⟨"card_1", true⟩ := by decide +kernel
  refine ⟨hsame, hfirst, ?_⟩
  rw [(identity_of_history ops).2.2.2.1 "card" _ hsame, hfirst]

end Registry

end LiveMarkup
