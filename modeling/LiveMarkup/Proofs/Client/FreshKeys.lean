import LiveMarkup.Proofs.Client.StableKeys
import LiveMarkup.Proofs.KeySearch
set_option autoImplicit false

/-! # Keys of one pass

A pass walks over the list that the page was seeded with and then names new instances after the
length of the list (`handedOut_eq`). The list comes from outside, so a name past its end can stand in
it already; the server passes over such names (`HostProps.nextKey_not_mem_keys`), the registry does
not, and a pass hands a key out twice exactly when it reaches one of them
(`nodup_handedOut_iff`). -/

namespace LiveMarkup

namespace HostProps

variable {h : HostProps}

/-! ## Records without a component or key twice -/

/-- A record names every component once, and every instance of it once. -/
structure Distinct (h : HostProps) : Prop where
  names : (Table.keys h.entries).Nodup
  keys : ∀ name, (h.keys name).Nodup

theorem distinct_empty : Distinct empty := ⟨List.nodup_nil, fun _ => List.nodup_nil⟩

theorem Distinct.record (hh : h.Distinct) (name key : String) (props : Value) :
    (h.record name key props).Distinct := by
  refine ⟨Table.nodup_keys_insert hh.names _ _, fun other => ?_⟩
  show (Table.keys ((h.record name key props).instances other)).Nodup
  rw [instances_record]
  split
  · exact Table.nodup_keys_insert (hh.keys name) _ _
  · exact hh.keys other

/-- Whatever a page carries is read as a record without a component or key twice. -/
theorem distinct_ofValue (v : Value) : (ofValue v).Distinct := by
  have hinstances : ∀ (name : String) (t : Table Value) (h : HostProps), h.Distinct →
      (t.foldl (fun h entry => h.record name entry.1 entry.2) h).Distinct := by
    intro name t
    induction t with
    | nil => exact fun _ hh => hh
    | cons entry rest ih => exact fun h hh => ih _ (hh.record name entry.1 entry.2)
  unfold ofValue
  generalize hstart : empty = start
  have hdistinct : start.Distinct := hstart ▸ distinct_empty
  clear hstart
  induction v.fields generalizing start with
  | nil => exact hdistinct
  | cons component rest ih => exact ih _ (hinstances component.1 component.2.fields start hdistinct)

end HostProps

namespace Registry

variable {r : Registry} {name : String}

/-! ## A pass over one list -/

/-- The keys that so many occurrences in a row are given. -/
def handedOut (r : Registry) (name : String) : Nat → List String
  | 0 => []
  | n + 1 => (r.resolve name).1.key :: handedOut (r.resolve name).2 name n

/-- One occurrence is given the key under the cursor, or is the first behind the list. -/
theorem resolve_cases (h : cursor r name ≤ (keys r name).length) :
    (cursor r name < (keys r name).length ∧
        (keys r name).drop (cursor r name) =
          (r.resolve name).1.key :: (keys r name).drop (cursor r name + 1) ∧
        keys (r.resolve name).2 name = keys r name) ∨
      (cursor r name = (keys r name).length ∧
        (r.resolve name).1.key = positionalKey name (keys r name).length ∧
        keys (r.resolve name).2 name = keys r name ++ [(r.resolve name).1.key]) := by
  unfold keys cursor at *
  cases hget : (list r name).keys[(list r name).cursor]? with
  | some key =>
      obtain ⟨hlt, hkey⟩ := List.getElem?_eq_some_iff.mp hget
      refine .inl ⟨hlt, ?_, ?_⟩
      · simp only [resolve, hget]
        rw [List.drop_eq_getElem_cons hlt, hkey]
      · simp only [resolve, hget, list_insert, if_true]
  | none =>
      have hge := List.getElem?_eq_none_iff.mp hget
      refine .inr ⟨by omega, ?_, ?_⟩
      · simp only [resolve, hget]
      · simp only [resolve, hget, list_insert, if_true]

/-- A pass hands out what is left of the list and then the numbers from its length on. -/
theorem handedOut_eq (n : Nat) (h : cursor r name ≤ (keys r name).length) :
    handedOut r name n = ((keys r name).drop (cursor r name)).take n ++
      (List.range' (keys r name).length (n - ((keys r name).length - cursor r name))).map
        (positionalKey name) := by
  induction n generalizing r with
  | zero => simp [handedOut]
  | succ n ih =>
      have hcursor := (list_resolve h).1
      obtain ⟨hlt, hdrop, hkeys⟩ | ⟨hend, hkey, hkeys⟩ := resolve_cases h
      · have hrest : n + 1 - ((keys r name).length - cursor r name) =
            n - ((keys r name).length - (cursor r name + 1)) := by omega
        rw [handedOut, ih (by rw [hkeys, hcursor]; omega), hkeys, hcursor, hdrop, hrest,
          List.take_succ_cons, List.cons_append]
      · have hlength : (keys (r.resolve name).2 name).length = (keys r name).length + 1 := by
          rw [hkeys, List.length_append, List.length_singleton]
        have hover : (keys (r.resolve name).2 name).drop (cursor (r.resolve name).2 name) = [] :=
          List.drop_eq_nil_of_le (by omega)
        have hfirst : (keys r name).drop (cursor r name) = [] :=
          List.drop_eq_nil_of_le (by omega)
        have hleft : n - ((keys r name).length + 1 - (cursor r name + 1)) = n := by omega
        have hone : n + 1 - ((keys r name).length - cursor r name) = n + 1 := by omega
        rw [handedOut, ih (by omega), hover, hfirst, hlength, hcursor, hleft, hone, hkey,
          List.range'_succ, List.take_nil, List.take_nil]
        rfl

/-! ## Seeded lists -/

/-- A new registry lists what the record has without a key of its own. -/
theorem keys_seed {host : HostProps} (h : host.Distinct) (name : String) :
    keys (seed [] host) name = positions (host.instances name) := by
  unfold keys
  rw [list_seed h.names]
  have hnodup : (KeyList.empty.keys ++ KeyList.empty.explicit ++
      Table.keys (host.instances name)).Nodup := h.keys name
  exact foldl_seed hnodup

theorem nodup_positions {host : HostProps} (h : host.Distinct) (name : String) :
    (positions (host.instances name)).Nodup :=
  (h.keys name).sublist (List.filter_sublist.map Prod.fst)

/-- Whatever record a new registry is seeded with, a pass over a component walks over the recorded
keys and then numbers new instances from their count on. The keys are told apart exactly as long as
the pass reaches no number that the record has already; the server's next key is never in the
record. -/
theorem nodup_handedOut_iff (v : Value) (name : String) (n : Nat) :
    let host := HostProps.ofValue v
    let recorded := positions (host.instances name)
    let given := handedOut (seed [] host).resetCursors name n
    given = recorded.take n ++
        (List.range' recorded.length (n - recorded.length)).map (positionalKey name) ∧
      (given.Nodup ↔ ∀ i, recorded.length ≤ i → i < n → positionalKey name i ∉ recorded) ∧
      host.nextKey name ∉ host.keys name := by
  intro host recorded given
  have hdistinct := HostProps.distinct_ofValue v
  have hkeys : keys (seed [] host).resetCursors name = recorded := by
    unfold keys
    rw [list_resetCursors]
    exact keys_seed hdistinct name
  have hcursor : cursor (seed [] host).resetCursors name = 0 := by
    unfold cursor
    rw [list_resetCursors]
  have hgiven : given = recorded.take n ++
      (List.range' recorded.length (n - recorded.length)).map (positionalKey name) := by
    have hwithin : cursor (seed [] host).resetCursors name ≤
        (keys (seed [] host).resetCursors name).length := by
      rw [hcursor]
      exact Nat.zero_le _
    have h := handedOut_eq n hwithin
    rwa [hkeys, hcursor, List.drop_zero, Nat.sub_zero] at h
  refine ⟨hgiven, ?_, host.nextKey_not_mem_keys name⟩
  have hnumbers : ((List.range' recorded.length (n - recorded.length)).map
      (positionalKey name)).Nodup :=
    List.Nodup.map (positionalKey_injective name) List.nodup_range'
  rw [hgiven, List.nodup_append]
  constructor
  · rintro ⟨-, -, hapart⟩ i hle hlt hmem
    -- the pass has walked over the whole list when it comes to this number
    have hall : recorded.take n = recorded := List.take_of_length_le (by omega)
    refine hapart (positionalKey name i) (hall.symm ▸ hmem) _ (List.mem_map.mpr ⟨i, ?_, rfl⟩) rfl
    rw [List.mem_range'_1]
    omega
  · intro hfree
    refine ⟨(nodup_positions hdistinct name).sublist (List.take_sublist _ _), hnumbers, ?_⟩
    rintro key hmem other hother rfl
    obtain ⟨i, hi, rfl⟩ := List.mem_map.mp hother
    rw [List.mem_range'_1] at hi
    exact hfree i (by omega) (by omega) (List.mem_of_mem_take hmem)

/-- A recorded gap is filled with a key that stands behind it: of the instances `card` and `card_2`,
a pass over three cards gives the second key twice, where the server passes over it. -/
theorem handedOut_card_twice :
    let host : HostProps := .ofValue
      (.object (.given 0) [("card", .object (.given 1)
        [("card", .object (.given 2) []), ("card_2", .object (.given 3) [])])])
    handedOut (seed [] host).resetCursors "card" 3 = ["card", "card_2", "card_2"] ∧
      ¬ (handedOut (seed [] host).resetCursors "card" 3).Nodup ∧
      host.nextKey "card" = "card_3" := by
  decide +kernel

/-- The record of a render has no gap, so a pass after it never gives a key twice. -/
theorem nodup_handedOut_of_orderly {host : HostProps} (h : host.Orderly) (name : String) (n : Nat) :
    (handedOut (seed [] host).resetCursors name n).Nodup := by
  have hpaced := paced_resetCursors fun name => canonical_seed h name
  have hall : ∀ (n start : Nat) (r : Registry) (count : String → Nat), r.Paced count →
      count name = start → handedOut r name n =
        (List.range' start n).map (positionalKey name) := by
    intro n
    induction n with
    | zero => exact fun _ _ _ _ _ => rfl
    | succ n ih =>
        intro start r count hr hstart
        obtain ⟨hkey, hnext⟩ := hr.resolve name
        rw [handedOut, hkey, hstart, ih (start + 1) _ _ hnext (by simp [hstart]), List.range'_succ]
        rfl
  rw [hall n 0 _ _ hpaced rfl]
  exact List.Nodup.map (positionalKey_injective name) List.nodup_range'

end Registry

end LiveMarkup
