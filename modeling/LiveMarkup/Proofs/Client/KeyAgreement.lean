import LiveMarkup.Proofs.PageKeys
import LiveMarkup.Proofs.Value.Plain
set_option autoImplicit false

/-! # One pass over a page

A client that is seeded with what a page recorded, and that goes through the occurrences of the page
once more from the start, finds every occurrence under the key that the page gave it, and makes no new
key (`resolveAll_of_page`). Two facts carry the pass: the cursors stand where the numbers of the page
are (`Paced`), and the lists hold all that the page is going to record (`Covers`). -/

namespace LiveMarkup

namespace HostProps

variable {h : HostProps}

/-! ## What a page has recorded stays -/

theorem Orderly.length_positions_le (hh : h.Orderly) (page : List Occurrence) (component : String) :
    (positions (h.instances component)).length ≤
      (positions ((h.registerAll page).2.instances component)).length := by
  induction page generalizing h with
  | nil => exact Nat.le_refl _
  | cons o rest ih =>
      have hfirst := hh.length_positions_register o component
      exact Nat.le_trans (Nat.le.intro hfirst.symm) (ih (hh.register o.component o.props))

theorem keys_instances_register (h : HostProps) (o : Occurrence) (component : String) :
    Table.keys ((h.register o.component o.props).2.instances component) =
      if component = o.component ∧ h.keyFor o.component o.props ∉ Table.keys (h.instances component)
      then Table.keys (h.instances component) ++ [h.keyFor o.component o.props]
      else Table.keys (h.instances component) := by
  show Table.keys ((h.record o.component (h.keyFor o.component o.props) o.props).instances
    component) = _
  rw [instances_record]
  by_cases heq : component = o.component
  · subst heq
    rw [if_pos rfl, Table.keys_insert]
    split <;> simp_all
  · simp [heq]

/-- The key of an occurrence is recorded. -/
theorem mem_keys_register (h : HostProps) (o : Occurrence) :
    h.keyFor o.component o.props ∈
      Table.keys ((h.register o.component o.props).2.instances o.component) := by
  rw [keys_instances_register]
  split
  · exact List.mem_append_right _ List.mem_cons_self
  · next hthere => simpa using hthere

theorem mem_keys_registerAll (page : List Occurrence) {component key : String}
    (hkey : key ∈ Table.keys (h.instances component)) :
    key ∈ Table.keys ((h.registerAll page).2.instances component) := by
  induction page generalizing h with
  | nil => exact hkey
  | cons o rest ih =>
      refine ih (h := (h.register o.component o.props).2) ?_
      rw [keys_instances_register]
      split
      · exact List.mem_append_left _ hkey
      · exact hkey

theorem Recorded.registerAll (hh : h.Recorded) {page : List Occurrence}
    (hplain : ∀ o ∈ page, o.props.Plain) : (h.registerAll page).2.Recorded := by
  induction page generalizing h with
  | nil => exact hh
  | cons o rest ih =>
      have hnext := hh.register o.component (hplain o List.mem_cons_self)
      exact ih hnext fun o' ho' => hplain o' (List.mem_cons_of_mem _ ho')

end HostProps

namespace Registry

/-- Resolves an occurrence: by the key it carries, and else by its place. -/
def resolveOccurrence (r : Registry) (o : Occurrence) : Resolution × Registry :=
  match explicitKey? o.props with
  | some key => r.resolveExplicit o.component key
  | none => r.resolve o.component

/-- Resolves occurrences one after the other. -/
def resolveAll (r : Registry) : List Occurrence → List Resolution × Registry
  | [] => ([], r)
  | o :: rest =>
    let (resolution, r) := r.resolveOccurrence o
    let (resolutions, r) := r.resolveAll rest
    (resolution :: resolutions, r)

/-- The lists hold the keys of all that is recorded. -/
structure Covers (r : Registry) (h : HostProps) : Prop where
  positional : ∀ name, (positions (h.instances name)).length ≤ (list r name).keys.length
  explicit : ∀ name key, explicitInstanceKey name key ∈ Table.keys (h.instances name) →
    explicitInstanceKey name key ∈ (list r name).explicit

section

variable {r : Registry} {h : HostProps} {count : String → Nat}

/-! ## One occurrence -/

theorem Paced.resolveOccurrence (hr : Paced r count) (o : Occurrence) :
    (r.resolveOccurrence o).1.key = nextKeyOf o.component (count o.component) o.props ∧
      Paced (r.resolveOccurrence o).2 fun name => count name + positionals name [o] := by
  unfold Registry.resolveOccurrence nextKeyOf
  cases hkey : explicitKey? o.props with
  | none =>
      obtain ⟨hresolved, hpaced⟩ := hr.resolve o.component
      refine ⟨hresolved, hpaced.congr fun name => ?_⟩
      by_cases heq : name = o.component
      · simp [positionals, hkey, heq]
      · have hother : ¬o.component = name := fun he => heq he.symm
        simp [positionals, heq, hother]
  | some key =>
      obtain ⟨hresolved, hpaced⟩ := hr.resolveExplicit o.component key
      exact ⟨hresolved, hpaced.congr fun name => by simp [positionals, hkey]⟩

/-- Longer lists hold as much. -/
theorem Covers.insert (hr : Covers r h) {name : String} {l : KeyList}
    (hkeys : (list r name).keys.length ≤ l.keys.length)
    (hexplicit : ∀ key ∈ (list r name).explicit, key ∈ l.explicit) :
    Covers (Table.insert name l r) h := by
  constructor
  · intro other
    rw [list_insert]
    split
    · next heq => exact heq ▸ Nat.le_trans (hr.positional name) hkeys
    · exact hr.positional other
  · intro other key hkey
    rw [list_insert]
    split
    · next heq =>
        subst heq
        exact hexplicit _ (hr.explicit other key hkey)
    · exact hr.explicit other key hkey

/-- Resolving takes nothing out of the lists. -/
theorem Covers.resolveOccurrence (hr : Covers r h) (o : Occurrence) :
    Covers (r.resolveOccurrence o).2 h := by
  unfold Registry.resolveOccurrence
  cases explicitKey? o.props with
  | none =>
      dsimp only
      unfold Registry.resolve
      dsimp only
      split
      · exact hr.insert (Nat.le_refl _) fun _ h => h
      · exact hr.insert (by simp) fun _ h => h
  | some key =>
      dsimp only
      unfold Registry.resolveExplicit
      dsimp only
      split
      · exact hr.insert (Nat.le_refl _) fun _ h => h
      · exact hr.insert (Nat.le_refl _) fun _ h => List.mem_append_left _ h

/-- An occurrence that is in the lists is not new. -/
theorem created_resolveOccurrence (hr : Paced r count) {o : Occurrence}
    (hpositional : count o.component + positionals o.component [o] ≤
      (list r o.component).keys.length)
    (hexplicit : ∀ key, explicitKey? o.props = some key →
      explicitInstanceKey o.component key ∈ (list r o.component).explicit) :
    (r.resolveOccurrence o).1.created = false := by
  unfold Registry.resolveOccurrence
  cases hkey : explicitKey? o.props with
  | none =>
      have hlt : (list r o.component).cursor < (list r o.component).keys.length := by
        rw [(hr o.component).2.1]
        have hone : positionals o.component [o] = 1 := by simp [positionals, hkey]
        omega
      dsimp only
      unfold Registry.resolve
      dsimp only
      rw [List.getElem?_eq_getElem hlt]
  | some key =>
      have hmem := hexplicit key hkey
      dsimp only
      unfold Registry.resolveExplicit
      dsimp only
      rw [if_pos (List.contains_iff_mem.mpr hmem)]

/-! ## All occurrences -/

theorem resolveAll_of_covers (hh : h.Orderly)
    (hr : Paced r fun name => (positions (h.instances name)).length) (page : List Occurrence)
    (hcovers : Covers r (h.registerAll page).2) :
    (r.resolveAll page).1 = (h.registerAll page).1.map fun key => ⟨key, false⟩ := by
  induction page generalizing r h with
  | nil => rfl
  | cons o rest ih =>
      have hkeyFor := HostProps.keyFor_of_numbered (hh.numbered o.component) o.props
      have hnext := hh.register o.component o.props
      obtain ⟨hkey, hpaced⟩ := hr.resolveOccurrence o
      have hcreated : (r.resolveOccurrence o).1.created = false := by
        refine created_resolveOccurrence hr ?_ fun key hown => ?_
        · rw [← hh.length_positions_register]
          exact Nat.le_trans (hnext.length_positions_le rest _) (hcovers.positional _)
        · refine hcovers.explicit _ _ (HostProps.mem_keys_registerAll rest ?_)
          have hself : explicitInstanceKey o.component key = h.keyFor o.component o.props := by
            rw [HostProps.keyFor, hown]
          rw [hself]
          exact HostProps.mem_keys_register h o
      have hresolved : (r.resolveOccurrence o).1 = ⟨h.keyFor o.component o.props, false⟩ := by
        rw [hkeyFor, ← hkey, ← hcreated]
      have hrest := ih hnext (hpaced.congr fun name => hh.length_positions_register o name)
        (hcovers.resolveOccurrence o)
      show (r.resolveOccurrence o).1 :: ((r.resolveOccurrence o).2.resolveAll rest).1 = _
      rw [hresolved, hrest]
      rfl

end

/-! ## Seeding -/

/-- A registry that is seeded with a record holds all of it. -/
theorem covers_seed {host : HostProps} (h : host.Orderly) : Covers (seed [] host) host := by
  constructor
  · intro name
    have hkeys := foldl_seed (t := host.instances name) (l := .empty)
      (by simpa [KeyList.empty] using (h.numbered name).nodup)
    rw [list_seed h.names_nodup]
    refine Nat.le_of_eq (congrArg List.length ?_)
    exact hkeys.symm
  · intro name key hkey
    obtain ⟨e, he, heq⟩ := List.mem_map.mp hkey
    rw [list_seed h.names_nodup, ← heq]
    obtain ⟨-, n, -, hn⟩ | ⟨own, hown, -⟩ := (h.numbered name).cases_mem he
    · exact absurd (hn.symm.trans heq) (positionalKey_ne_explicitInstanceKey _ _ _)
    · exact mem_explicit_foldl_seed.mpr (.inr ⟨e, he, rfl, by simp [hown]⟩)

/-- JSON loses nothing of a record that a registry goes by. -/
theorem covers_seed_reread {host : HostProps} (h : host.Recorded) {v : Value} {n : Nat}
    (hv : Value.Reread (host.toValue .made n).1 v) :
    Covers (seed [] (HostProps.ofValue v)) host := by
  have hcovers := covers_seed (h.orderly_reread hv)
  have haligned : ∀ name, Table.Aligned (fun v w => explicitKey? w = explicitKey? v)
      (host.instances name) ((HostProps.ofValue v).instances name) := fun name =>
    (h.reread hv name).imp fun e he w hw => hw.explicitKey? (h.plain name e he)
  constructor
  · intro name
    rw [← HostProps.positions_of_aligned (haligned name)]
    exact hcovers.positional name
  · intro name key hkey
    rw [← (haligned name).keys] at hkey
    exact hcovers.explicit name key hkey

/-- After a pass starts, a seeded registry stands before the first occurrence. -/
theorem paced_seed {host : HostProps} (h : host.Orderly) :
    Paced (resetCursors (seed [] host)) fun _ => 0 :=
  paced_resetCursors fun name => canonical_seed h name

theorem Covers.resetCursors {r : Registry} {h : HostProps} (hr : Covers r h) :
    Covers r.resetCursors h := by
  constructor
  · intro name
    rw [list_resetCursors]
    exact hr.positional name
  · intro name key hkey
    rw [list_resetCursors]
    exact hr.explicit name key hkey

/-- A client that goes once through the occurrences of a page resolves them to the keys that the page
gave them, and none of them is new to it. -/
theorem resolveAll_of_page (page : List Occurrence) (hplain : ∀ o ∈ page, o.props.Plain)
    (n m : Nat) :
    let host := (HostProps.empty.registerAll page).2
    let carried := (Value.ofJson .made m (host.toValue .made n).1.toJson).1
    ((seed [] (HostProps.ofValue carried)).resetCursors.resolveAll page).1 =
      (keysOf page).map fun key => ⟨key, false⟩ := by
  intro host carried
  have hrecorded : host.Recorded := HostProps.recorded_empty.registerAll hplain
  have hcarried : Value.Reread (host.toValue .made n).1 carried := ⟨m, rfl⟩
  exact resolveAll_of_covers HostProps.orderly_empty
    (paced_seed (hrecorded.orderly_reread hcarried)) page
    (covers_seed_reread hrecorded hcarried).resetCursors

/-- The second `hero` writes over the first and is found all the same. -/
theorem resolveAll_of_cards :
    let card : Occurrence := ⟨"card", .object (.given 0) []⟩
    let hero : Occurrence := ⟨"card", .object (.given 0) [("$key", .str "hero")]⟩
    let page := [card, hero, card, ⟨"nav", .null⟩, hero, card]
    let carried := (Value.ofJson .made 0
      ((HostProps.empty.registerAll page).2.toValue .made 0).1.toJson).1
    (∀ o ∈ page, o.props.Plain) ∧
      ((seed [] (HostProps.ofValue carried)).resetCursors.resolveAll page).1 =
        [⟨"card", false⟩, ⟨"card:hero", false⟩, ⟨"card_1", false⟩, ⟨"nav", false⟩,
          ⟨"card:hero", false⟩, ⟨"card_2", false⟩] := by
  intro card hero page carried
  have hcard : card.props.Plain := .object List.nodup_nil (by simp)
  have hhero : hero.props.Plain := .object (by decide) (by simpa using Value.Plain.str "hero")
  have hplain : ∀ o ∈ page, o.props.Plain := by
    simp only [page, List.forall_mem_cons, List.not_mem_nil, false_implies, implies_true, and_true]
    exact ⟨hcard, hhero, hcard, .null, hhero, hcard⟩
  have hkeys : keysOf page = ["card", "card:hero", "card_1", "nav", "card:hero", "card_2"] := by
    decide +kernel
  refine ⟨hplain, (resolveAll_of_page page hplain 0 0).trans ?_⟩
  rw [hkeys]
  rfl

end Registry

end LiveMarkup
