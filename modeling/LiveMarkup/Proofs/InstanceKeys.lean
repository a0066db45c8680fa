import LiveMarkup.Client.Registry
import Std.Data.String.ToNat
set_option autoImplicit false

/-! # Instance keys

The server numbers the occurrences of a component that carry no key by counting those that it has
recorded; the client by a cursor that walks over a list. Both count the same: the recorded instances
of a component are numbered without a gap (`Numbered`), and so are the lists that a registry is
seeded with (`Registry.Canonical`). -/

namespace LiveMarkup

/-! ## Keys -/

theorem positionalKey_succ (name : String) (n : Nat) :
    (positionalKey name (n + 1)).toList = name.toList ++ '_' :: (Nat.repr (n + 1)).toList := by
  simp [positionalKey, String.toList_append]

theorem positionalKey_injective (name : String) : Function.Injective (positionalKey name) := by
  intro i j h
  have hlist := congrArg String.toList h
  cases i with
  | zero =>
      cases j with
      | zero => rfl
      | succ j =>
          rw [positionalKey_succ] at hlist
          have hlength := congrArg List.length hlist
          simp [positionalKey] at hlength
  | succ i =>
      cases j with
      | zero =>
          rw [positionalKey_succ] at hlist
          have hlength := congrArg List.length hlist
          simp [positionalKey] at hlength
      | succ j =>
          rw [positionalKey_succ, positionalKey_succ] at hlist
          have hrepr := List.cons.inj (List.append_cancel_left hlist)
          exact Nat.repr_injective (String.ext hrepr.2)

/-- Keys by position have an underscore where the keys that occurrences carry have a colon. -/
theorem positionalKey_ne_explicitInstanceKey (name : String) (n : Nat) (key : String) :
    positionalKey name n ≠ explicitInstanceKey name key := by
  intro h
  have hlist := congrArg String.toList h
  have hexplicit : (explicitInstanceKey name key).toList = name.toList ++ ':' :: key.toList := by
    simp [explicitInstanceKey, String.toList_append]
  rw [hexplicit] at hlist
  cases n with
  | zero =>
      have hlength := congrArg List.length hlist
      simp [positionalKey] at hlength
  | succ n =>
      rw [positionalKey_succ] at hlist
      have hchar := (List.cons.inj (List.append_cancel_left hlist)).1
      exact absurd hchar (by decide)

/-- The keys that instances of a component can have. -/
def KeyOf (name key : String) : Prop :=
  (∃ n, key = positionalKey name n) ∨ ∃ k, key = explicitInstanceKey name k

/-- A key begins with the name of the component. -/
theorem KeyOf.starts {name key : String} (h : KeyOf name key) :
    ∃ rest, name.toList ++ rest = key.toList := by
  rcases h with ⟨n, rfl⟩ | ⟨k, rfl⟩
  · cases n with
    | zero => exact ⟨[], by simp [positionalKey]⟩
    | succ n => exact ⟨_, (positionalKey_succ name n).symm⟩
  · exact ⟨':' :: k.toList, by simp [explicitInstanceKey, String.toList_append]⟩

/-! ## Recorded instances -/

/-- The keys of the recorded instances that carry none, in order. -/
def positions (t : Table Value) : List String :=
  (t.filter fun e => (explicitKey? e.2).isNone).map Prod.fst

/-- The recorded instances of a component: those without a key of their own are numbered in order,
the others go by theirs. -/
structure Numbered (name : String) (t : Table Value) : Prop where
  nodup : (Table.keys t).Nodup
  positional : positions t = (List.range (positions t).length).map (positionalKey name)
  explicit : ∀ e ∈ t, ∀ key, explicitKey? e.2 = some key → e.1 = explicitInstanceKey name key

/-- The key of the next occurrence, given how many came before it without a key. -/
def nextKeyOf (name : String) (count : Nat) (props : Value) : String :=
  match explicitKey? props with
  | some key => explicitInstanceKey name key
  | none => positionalKey name count

theorem keyOf_nextKeyOf (name : String) (count : Nat) (props : Value) :
    KeyOf name (nextKeyOf name count props) := by
  unfold nextKeyOf
  split
  · next key _ => exact .inr ⟨key, rfl⟩
  · exact .inl ⟨count, rfl⟩

namespace Numbered

variable {name : String} {t : Table Value}

theorem empty (name : String) : Numbered name [] := ⟨List.nodup_nil, rfl, by simp⟩

/-- Every recorded key is one of the component's. -/
theorem cases_mem (h : Numbered name t) {e : String × Value} (he : e ∈ t) :
    (explicitKey? e.2 = none ∧ ∃ n < (positions t).length, e.1 = positionalKey name n) ∨
      ∃ key, explicitKey? e.2 = some key ∧ e.1 = explicitInstanceKey name key := by
  cases hkey : explicitKey? e.2 with
  | some key => exact .inr ⟨key, rfl, h.explicit e he key hkey⟩
  | none =>
      have hmem : e.1 ∈ positions t :=
        List.mem_map.mpr ⟨e, List.mem_filter.mpr ⟨he, by simp [hkey]⟩, rfl⟩
      rw [h.positional] at hmem
      obtain ⟨n, hn, heq⟩ := List.mem_map.mp hmem
      exact .inl ⟨rfl, n, List.mem_range.mp hn, heq.symm⟩

theorem keyOf (h : Numbered name t) {e : String × Value} (he : e ∈ t) : KeyOf name e.1 := by
  obtain ⟨-, n, -, hn⟩ | ⟨key, -, hkey⟩ := h.cases_mem he
  · exact .inl ⟨n, hn⟩
  · exact .inr ⟨key, hkey⟩

/-- The first number that no instance has. -/
theorem not_mem_keys (h : Numbered name t) :
    positionalKey name (positions t).length ∉ Table.keys t := by
  intro hmem
  obtain ⟨e, he, heq⟩ := List.mem_map.mp hmem
  obtain ⟨-, n, hn, hkey⟩ | ⟨key, -, hkey⟩ := h.cases_mem he
  · have := positionalKey_injective name (heq.symm.trans hkey)
    omega
  · exact positionalKey_ne_explicitInstanceKey _ _ _ (heq.symm.trans hkey)

theorem positions_insert (h : Numbered name t) (props : Value) :
    positions (Table.insert (nextKeyOf name (positions t).length props) props t) =
      if (explicitKey? props).isNone then
        positions t ++ [positionalKey name (positions t).length]
      else positions t := by
  cases hkey : explicitKey? props with
  | none =>
      rw [nextKeyOf, hkey, Table.insert_of_not_mem h.not_mem_keys]
      simp [positions, hkey]
  | some key =>
      rw [nextKeyOf, hkey]
      -- an entry that is written over carries the same key
      have hover : ∀ e ∈ t, e.1 = explicitInstanceKey name key → (explicitKey? e.2).isSome := by
        intro e he heq
        obtain ⟨-, n, -, hn⟩ | ⟨key', hkey', -⟩ := h.cases_mem he
        · exact absurd (hn.symm.trans heq) (positionalKey_ne_explicitInstanceKey _ _ _)
        · simp [hkey']
      clear h
      simp only [Option.isNone_some, if_neg Bool.false_ne_true]
      induction t with
      | nil => simp [Table.insert, positions, hkey]
      | cons first rest ih =>
          have hrest := ih fun e he => hover e (List.mem_cons_of_mem _ he)
          unfold positions at hrest ⊢
          unfold Table.insert
          split
          · next heq =>
              have hfirst := hover first List.mem_cons_self heq
              rw [Option.isSome_iff_exists] at hfirst
              obtain ⟨k, hk⟩ := hfirst
              simp [hkey, hk]
          · simp only [List.filter_cons]
            split <;> simp [hrest]

/-- Recording the next occurrence keeps the numbering. -/
theorem insert (h : Numbered name t) (props : Value) :
    Numbered name (Table.insert (nextKeyOf name (positions t).length props) props t) := by
  refine ⟨Table.nodup_keys_insert h.nodup _ _, ?_, ?_⟩
  · rw [h.positions_insert]
    split
    · rw [List.length_append, List.length_singleton, List.range_succ, List.map_append, ← h.positional]
      rfl
    · exact h.positional
  · intro e he key hkey
    rcases Table.mem_insert he with rfl | he
    · simp only [nextKeyOf] at hkey ⊢
      rw [hkey]
    · exact h.explicit e he key hkey

end Numbered

/-! ## Keys that the server gives -/

namespace HostProps

variable {h : HostProps} {name : String}

theorem instances_record (h : HostProps) (name key : String) (props : Value) (other : String) :
    (h.record name key props).instances other =
      if other = name then Table.insert key props (h.instances name) else h.instances other := by
  unfold record instances
  split
  · next heq => rw [heq, Table.get?_insert_self, Option.getD_some]
  · next hne => rw [Table.get?_insert_of_ne hne]

theorem nextKey_of_numbered (hn : Numbered name (h.instances name)) :
    h.nextKey name = positionalKey name (positions (h.instances name)).length := by
  have hcount : ((h.instances name).filter fun e => (explicitKey? e.2).isNone).length =
      (positions (h.instances name)).length := by simp [positions]
  have hfree : Table.contains (positionalKey name (positions (h.instances name)).length)
      (h.instances name) = false := by
    rw [Table.contains, ← Bool.not_eq_true, Table.get?_isSome_iff]
    exact hn.not_mem_keys
  unfold nextKey
  dsimp only
  rw [hcount, List.range'_succ, List.map_cons, List.find?_cons, hfree]
  rfl

theorem keyFor_of_numbered (hn : Numbered name (h.instances name)) (props : Value) :
    h.keyFor name props = nextKeyOf name (positions (h.instances name)).length props := by
  unfold keyFor nextKeyOf
  cases explicitKey? props with
  | some key => rfl
  | none => exact nextKey_of_numbered hn

/-- What a render has recorded: the instances of every component are numbered. -/
structure Orderly (h : HostProps) : Prop where
  names_nodup : (Table.keys h.entries).Nodup
  numbered : ∀ name, Numbered name (h.instances name)

theorem orderly_empty : Orderly empty := ⟨List.nodup_nil, fun name => Numbered.empty name⟩

theorem Orderly.register (hh : h.Orderly) (name : String) (props : Value) :
    (h.register name props).2.Orderly := by
  refine ⟨Table.nodup_keys_insert hh.names_nodup _ _, fun other => ?_⟩
  show Numbered other ((h.record name (h.keyFor name props) props).instances other)
  rw [instances_record, keyFor_of_numbered (hh.numbered name)]
  split
  · next heq => exact heq ▸ (hh.numbered name).insert props
  · exact hh.numbered other

end HostProps

/-! ## Keys that the client resolves -/

namespace Registry

/-- Keys by position are numbered without a gap. -/
def Canonical (name : String) (l : KeyList) : Prop :=
  l.keys = (List.range l.keys.length).map (positionalKey name)

theorem list_insert (r : Registry) (name other : String) (l : KeyList) :
    list (Table.insert name l r) other = if other = name then l else list r other := by
  unfold list
  split
  · next heq => rw [heq, Table.get?_insert_self, Option.getD_some]
  · next hne => rw [Table.get?_insert_of_ne hne]

theorem list_resetCursors (r : Registry) (name : String) :
    list r.resetCursors name = { list r name with cursor := 0 } := by
  have hget : Table.get? name r.resetCursors =
      (Table.get? name r).map fun l => { l with cursor := 0 } := by
    unfold resetCursors
    induction r with
    | nil => rfl
    | cons first rest ih =>
        rw [List.map_cons, Table.get?, Table.get?]
        split
        · rfl
        · exact ih
  unfold list
  rw [hget]
  cases Table.get? name r <;> rfl

/-! ### Seeding -/

/-- The recorded keys of one component come behind those that are there. -/
theorem foldl_seed {t : Table Value} {l : KeyList}
    (h : (l.keys ++ l.explicit ++ Table.keys t).Nodup) :
    (t.foldl (fun l e => KeyList.seed l e.1 e.2) l).keys = l.keys ++ positions t := by
  -- every key is new to the list when its turn comes, since no key is recorded twice
  induction t generalizing l with
  | nil => simp [positions]
  | cons first rest ih =>
      obtain ⟨key, props⟩ := first
      have hsplit : ((l.keys ++ l.explicit) ++ key :: Table.keys rest).Nodup := h
      have hnew : key ∉ l.keys ++ l.explicit := fun hmem =>
        (List.nodup_append.mp hsplit).2.2 _ hmem _ List.mem_cons_self rfl
      simp only [List.mem_append, not_or] at hnew
      rw [List.foldl_cons]
      cases hkey : explicitKey? props with
      | none =>
          have hseed : KeyList.seed l key props = { l with keys := l.keys ++ [key] } := by
            simp [KeyList.seed, hkey, hnew.1]
          have hnodup : (l.keys ++ [key] ++ l.explicit ++ Table.keys rest).Nodup := by
            refine hsplit.perm ?_
            simp only [List.append_assoc, List.singleton_append]
            exact List.Perm.append_left _ List.perm_middle
          rw [hseed, ih hnodup]
          simp [positions, hkey]
      | some k =>
          have hseed : KeyList.seed l key props = { l with explicit := l.explicit ++ [key] } := by
            simp [KeyList.seed, hkey, hnew.2]
          have hnodup : (l.keys ++ (l.explicit ++ [key]) ++ Table.keys rest).Nodup := by
            simpa using hsplit
          rw [hseed, ih hnodup]
          simp [positions, hkey]

/-- Seeding makes known what the records carry, and forgets nothing. -/
theorem mem_explicit_foldl_seed {t : Table Value} {l : KeyList} {key : String} :
    key ∈ (t.foldl (fun l e => KeyList.seed l e.1 e.2) l).explicit ↔
      key ∈ l.explicit ∨ ∃ e ∈ t, e.1 = key ∧ (explicitKey? e.2).isSome := by
  induction t generalizing l with
  | nil => simp
  | cons first rest ih =>
      have hfirst : key ∈ (KeyList.seed l first.1 first.2).explicit ↔
          key ∈ l.explicit ∨ first.1 = key ∧ (explicitKey? first.2).isSome := by
        unfold KeyList.seed
        by_cases hown : (explicitKey? first.2).isSome
        · rw [if_pos hown]
          dsimp only
          split
          · next hthere =>
              have hmem := List.contains_iff_mem.mp hthere
              exact ⟨.inl, fun h => h.elim id fun he => he.1 ▸ hmem⟩
          · simp [hown, eq_comm]
        · simp [hown]
      rw [List.foldl_cons, ih, hfirst]
      simp [or_assoc]

theorem list_seed {host : HostProps} (h : (Table.keys host.entries).Nodup) (r : Registry)
    (name : String) : list (r.seed host) name =
      (host.instances name).foldl (fun l e => KeyList.seed l e.1 e.2) (list r name) := by
  unfold seed HostProps.instances
  generalize host.entries = entries at h
  induction entries generalizing r with
  | nil => rfl
  | cons first rest ih =>
      obtain ⟨hfirst, hrest⟩ := List.nodup_cons.mp h
      rw [List.foldl_cons, ih _ hrest, list_insert, Table.get?]
      by_cases heq : first.1 = name
      · subst heq
        have hnone : Table.get? first.1 rest = none := by
          rw [← Option.not_isSome_iff_eq_none, Table.get?_isSome_iff]
          exact hfirst
        simp [hnone]
      · rw [if_neg heq, if_neg fun he => heq he.symm]

/-- A registry that is seeded with what a page recorded. -/
theorem canonical_seed {host : HostProps} (h : host.Orderly) (name : String) :
    Canonical name (list (seed [] host) name) := by
  have hkeys := foldl_seed (t := host.instances name) (l := .empty)
    (by simpa [KeyList.empty] using (h.numbered name).nodup)
  unfold Canonical
  rw [list_seed h.names_nodup]
  show (List.foldl _ KeyList.empty _).keys =
    (List.range (List.foldl _ KeyList.empty _).keys.length).map _
  rw [hkeys]
  exact (h.numbered name).positional

/-! ### Resolving -/

/-- The cursors stand behind as many occurrences as have been counted. -/
def Paced (r : Registry) (count : String → Nat) : Prop :=
  ∀ name, Canonical name (list r name) ∧ (list r name).cursor = count name ∧
    count name ≤ (list r name).keys.length

theorem paced_resetCursors {r : Registry} (h : ∀ name, Canonical name (list r name)) :
    Paced r.resetCursors fun _ => 0 := by
  intro name
  rw [list_resetCursors]
  exact ⟨h name, rfl, Nat.zero_le _⟩

theorem Paced.congr {r : Registry} {count count' : String → Nat} (h : Paced r count)
    (hcount : ∀ name, count' name = count name) : Paced r count' := by
  intro name
  rw [hcount]
  exact h name

theorem Paced.insert {r : Registry} {count : String → Nat} (h : Paced r count) {name : String}
    {l : KeyList} {n : Nat} (hcanonical : Canonical name l) (hcursor : l.cursor = n)
    (hle : n ≤ l.keys.length) :
    Paced (Table.insert name l r) fun other => if other = name then n else count other := by
  intro other
  rw [list_insert]
  by_cases heq : other = name
  · subst heq
    simp only [if_true]
    exact ⟨hcanonical, hcursor, hle⟩
  · simp only [if_neg heq]
    exact h other

theorem Paced.resolve {r : Registry} {count : String → Nat} (h : Paced r count) (name : String) :
    (r.resolve name).1.key = positionalKey name (count name) ∧
      Paced (r.resolve name).2 fun other => if other = name then count name + 1 else count other := by
  obtain ⟨hcanonical, hcursor, hle⟩ := h name
  unfold Registry.resolve
  dsimp only
  -- the key under the cursor, or a new one at the end
  cases hget : (list r name).keys[(list r name).cursor]? with
  | some key =>
      obtain ⟨hlt, -⟩ := List.getElem?_eq_some_iff.mp hget
      have hkey := hget
      rw [hcanonical, List.getElem?_map, List.getElem?_range hlt] at hkey
      refine ⟨?_, h.insert hcanonical ?_ ?_⟩
      · rw [← Option.some.inj hkey, hcursor]
      · show (list r name).cursor + 1 = count name + 1
        rw [hcursor]
      · rw [← hcursor]
        exact hlt
  | none =>
      have hend : (list r name).keys.length = count name := by
        have hge := List.getElem?_eq_none_iff.mp hget
        omega
      refine ⟨by rw [hend], h.insert ?_ ?_ ?_⟩
      · unfold Canonical
        rw [List.length_append, List.length_singleton, List.range_succ, List.map_append,
          ← hcanonical]
        rfl
      · show (list r name).cursor + 1 = count name + 1
        rw [hcursor]
      · simp [hend]

theorem Paced.resolveExplicit {r : Registry} {count : String → Nat} (h : Paced r count)
    (name key : String) : (r.resolveExplicit name key).1.key = explicitInstanceKey name key ∧
      Paced (r.resolveExplicit name key).2 count := by
  obtain ⟨hcanonical, hcursor, hle⟩ := h name
  have hsame : ∀ other, count other = if other = name then count name else count other := by
    intro other
    split
    · next heq => rw [heq]
    · rfl
  unfold Registry.resolveExplicit
  dsimp only
  split
  · exact ⟨rfl, (h.insert hcanonical hcursor hle).congr hsame⟩
  · refine ⟨rfl, (h.insert ?_ ?_ ?_).congr hsame⟩
    · exact hcanonical
    · exact hcursor
    · exact hle

end Registry

end LiveMarkup
