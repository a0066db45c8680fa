import LiveMarkup.Proofs.PageKeys
import Mathlib.Data.List.Nodup
import Mathlib.Data.List.Perm.Subperm
set_option autoImplicit false

/-! # The search for a free key

An occurrence without a key of its own gets the first numbered key that is free, from the count of
such occurrences on. The search knows no bound (`HostProps.Finds`); it ends because the numbered keys
are all different and the record is finite, so a record of any origin has a next key, which is new to
it (`HostProps.nextKey_not_mem_keys`). Where a page only registers occurrences there is nothing to
pass over, and the numbers have no gap (`HostProps.register_adds`). -/

namespace LiveMarkup

namespace HostProps

variable {h : HostProps} {name : String}

/-- The search from a number on comes to a key: the first that no instance of the component has. -/
inductive Finds (h : HostProps) (name : String) : Nat → String → Prop
  | free {n : Nat} : positionalKey name n ∉ h.keys name → Finds h name n (positionalKey name n)
  | taken {n : Nat} {key : String} : positionalKey name n ∈ h.keys name →
      Finds h name (n + 1) key → Finds h name n key

theorem Finds.not_mem_keys {n : Nat} {key : String} (hfinds : Finds h name n key) :
    key ∉ h.keys name := by
  induction hfinds with
  | free hfree => exact hfree
  | taken _ _ ih => exact ih

theorem Finds.unique {n : Nat} {key key' : String} (hfinds : Finds h name n key)
    (hfinds' : Finds h name n key') : key = key' := by
  induction hfinds with
  | free hfree =>
      cases hfinds' with
      | free => rfl
      | taken htaken => exact absurd htaken hfree
  | taken htaken _ ih =>
      cases hfinds' with
      | free hfree => exact absurd htaken hfree
      | taken _ hrest => exact ih hrest

theorem not_contains_iff {key : String} :
    (!Table.contains key (h.instances name)) = true ↔ key ∉ h.keys name := by
  rw [Table.contains, Bool.not_eq_true', ← Bool.not_eq_true, Table.get?_isSome_iff]
  rfl

/-- What is found among some numbers in a row is what the search comes to. -/
theorem finds_of_find? {n k : Nat} {key : String}
    (hfound : ((List.range' n k).map (positionalKey name)).find?
      (fun key => !Table.contains key (h.instances name)) = some key) : Finds h name n key := by
  induction k generalizing n with
  | zero => cases hfound
  | succ k ih =>
      rw [List.range'_succ, List.map_cons, List.find?_cons] at hfound
      split at hfound
      · next hfree =>
          obtain rfl := Option.some.inj hfound
          exact .free (not_contains_iff.mp hfree)
      · next htaken =>
          refine .taken ?_ (ih hfound)
          by_contra hfree
          rw [not_contains_iff.mpr hfree] at htaken
          cases htaken

/-- Of as many numbers as there are recorded instances and one more, one is free. -/
theorem exists_free (h : HostProps) (name : String) (count : Nat) :
    ∃ key ∈ (List.range' count ((h.instances name).length + 1)).map (positionalKey name),
      key ∉ h.keys name := by
  by_contra hnone
  have hsub : (List.range' count ((h.instances name).length + 1)).map (positionalKey name) ⊆
      h.keys name := by
    intro key hkey
    by_contra hfree
    exact hnone ⟨key, hkey, hfree⟩
  have hnodup : ((List.range' count ((h.instances name).length + 1)).map
      (positionalKey name)).Nodup :=
    List.Nodup.map (positionalKey_injective name) List.nodup_range'
  have hlength := (List.subperm_of_subset hnodup hsub).length_le
  rw [List.length_map, List.length_range', HostProps.keys, Table.keys, List.length_map] at hlength
  exact Nat.not_succ_le_self _ hlength

/-- The next key is what the search comes to from the count of occurrences without a key on, and the
search makes no more steps than there are recorded instances. -/
theorem finds_nextKey (h : HostProps) (name : String) :
    Finds h name (positions (h.instances name)).length (h.nextKey name) ∧
      ∃ steps ≤ (h.keys name).length,
        h.nextKey name = positionalKey name ((positions (h.instances name)).length + steps) := by
  have hcount : ((h.instances name).filter fun e => (explicitKey? e.2).isNone).length =
      (positions (h.instances name)).length := by simp [positions]
  obtain ⟨free, hmem, hfree⟩ := h.exists_free name (positions (h.instances name)).length
  have hsome : (((List.range' (positions (h.instances name)).length
      ((h.instances name).length + 1)).map (positionalKey name)).find?
        fun key => !Table.contains key (h.instances name)).isSome :=
    List.find?_isSome.mpr ⟨free, hmem, not_contains_iff.mpr hfree⟩
  obtain ⟨key, hfound⟩ := Option.isSome_iff_exists.mp hsome
  have hnext : h.nextKey name = key := by
    unfold nextKey
    dsimp only
    rw [hcount, hfound, Option.getD_some]
  rw [hnext]
  refine ⟨finds_of_find? hfound, ?_⟩
  obtain ⟨n, hn, hkey⟩ := List.mem_map.mp (List.mem_of_find?_eq_some hfound)
  rw [List.mem_range'_1] at hn
  have hlength : (h.keys name).length = (h.instances name).length := List.length_map _
  refine ⟨n - (positions (h.instances name)).length, by omega, ?_⟩
  rw [← hkey, Nat.add_sub_cancel' hn.1]

/-- The server gives no key twice. -/
theorem nextKey_not_mem_keys (h : HostProps) (name : String) : h.nextKey name ∉ h.keys name :=
  (h.finds_nextKey name).1.not_mem_keys

/-! ## What registering adds -/

theorem get?_record (h : HostProps) (name key : String) (props : Value) (other k : String) :
    (h.record name key props).get? other k =
      if other = name ∧ k = key then some props else h.get? other k := by
  unfold get?
  rw [instances_record]
  by_cases hother : other = name
  · subst hother
    rw [if_pos rfl]
    by_cases hk : k = key
    · subst hk
      rw [Table.get?_insert_self, if_pos ⟨rfl, rfl⟩]
    · rw [Table.get?_insert_of_ne hk, if_neg fun hand => hk hand.2]
  · rw [if_neg hother, if_neg fun hand => hother hand.1]

theorem keys_record_of_not_mem {key : String} (hnew : key ∉ h.keys name) (props : Value) :
    (h.record name key props).keys name = h.keys name ++ [key] := by
  unfold keys at *
  rw [instances_record, if_pos rfl, Table.keys_insert, if_neg hnew]

/-- What an occurrence without a key of its own does to a record: it adds a key at the end of its
component's, and leaves every entry as it is. -/
structure Adds (h h' : HostProps) (name key : String) (props : Value) : Prop where
  new : key ∉ h.keys name
  keys : h'.keys name = h.keys name ++ [key]
  entry : h'.get? name key = some props
  others : ∀ other k, ¬(other = name ∧ k = key) → h'.get? other k = h.get? other k

theorem adds_register {props : Value} (hprops : explicitKey? props = none) :
    (h.register name props).1 = h.nextKey name ∧
      Adds h (h.register name props).2 name (h.nextKey name) props := by
  have hkey : h.keyFor name props = h.nextKey name := by rw [keyFor, hprops]
  have hrecord : h.register name props = (h.nextKey name, h.record name (h.nextKey name) props) := by
    rw [register, hkey]
  have hnew := h.nextKey_not_mem_keys name
  rw [hrecord]
  refine ⟨rfl, hnew, keys_record_of_not_mem hnew props, ?_, fun other k hother => ?_⟩
  · rw [get?_record, if_pos ⟨rfl, rfl⟩]
  · rw [get?_record, if_neg hother]

/-- The search for the next key ends for every record, whatever it was made from, with a key that is
not in it, so an occurrence without a key of its own writes over nothing. In a page that only
registers occurrences, those of a component without a key are numbered in a row, whatever comes in
between: the first has the component's name, a later one its number behind it. -/
theorem register_adds :
    (∀ (h : HostProps) (name : String),
      (Finds h name (positions (h.instances name)).length (h.nextKey name) ∧
        ∃ steps ≤ (h.keys name).length,
          h.nextKey name = positionalKey name ((positions (h.instances name)).length + steps)) ∧
      h.nextKey name ∉ h.keys name ∧
      ∀ props, explicitKey? props = none →
        (h.register name props).1 = h.nextKey name ∧
        Adds h (h.register name props).2 name (h.nextKey name) props) ∧
    ∀ (page : List Occurrence) (i : Nat) (o : Occurrence), page[i]? = some o →
      explicitKey? o.props = none →
      (keysOf page)[i]? = some (
        let earlier := positionals o.component (page.take i)
        if earlier = 0 then o.component else o.component ++ "_" ++ toString earlier) := by
  refine ⟨fun h name => ⟨h.finds_nextKey name, h.nextKey_not_mem_keys name, ?_⟩, ?_⟩
  · exact fun props hprops => adds_register hprops
  · intro page i o hi hprops
    rw [getElem?_keysOf, hi, Option.map_some, nextKeyOf, hprops]
    rfl

/-- With `row_1` recorded the count gives a key that is taken, so the next row is `row_2`; of two cards
with a hero in between, the second is `card_1`. -/
theorem register_adds_row :
    let h := empty.record "row" "row_1" (.object (.given 0) [])
    let card : Occurrence := ⟨"card", .object (.given 0) []⟩
    let hero : Occurrence := ⟨"card", .object (.given 0) [("$key", .str "hero")]⟩
    h.nextKey "row" = "row_2" ∧
      Adds h (h.register "row" (.object (.given 0) [])).2 "row" (h.nextKey "row")
        (.object (.given 0) []) ∧
      (keysOf [card, hero, card])[2]? = some "card_1" := by
  intro h card hero
  refine ⟨by decide +kernel, ?_, ?_⟩
  · exact ((register_adds.1 h "row").2.2 (.object (.given 0) []) rfl).2
  · exact (register_adds.2 [card, hero, card] 2 card rfl rfl).trans (by decide +kernel)

end HostProps

end LiveMarkup
