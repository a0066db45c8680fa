import LiveMarkup.Proofs.InstanceKeys
set_option autoImplicit false

/-! # The keys of a page

A page registers its component occurrences one after the other (`registerAll`). The key of each is
made from the name of its component, from the key it carries or else from how many occurrences of the
component without a key came before it (`getElem?_keysOf`). Keys are made for every component on its
own and used for the whole page: beside occurrences of one component that carry the same key, two
occurrences share a key exactly where the name of one component reads like a key of the other
(`keysOf_eq_iff`). -/

namespace LiveMarkup

/-- A place in a page where a component is shown with some props. -/
structure Occurrence where
  component : String
  props : Value

namespace HostProps

/-- Registers occurrences one after the other: their keys, and what is recorded after them. -/
def registerAll (h : HostProps) : List Occurrence → List String × HostProps
  | [] => ([], h)
  | o :: rest =>
    let (key, h) := h.register o.component o.props
    let (keys, h) := h.registerAll rest
    (key :: keys, h)

end HostProps

/-- The keys of the occurrences of a page. -/
def keysOf (page : List Occurrence) : List String := (HostProps.empty.registerAll page).1

/-- How many occurrences of a component carry no key. -/
def positionals (component : String) (page : List Occurrence) : Nat :=
  page.countP fun o => o.component = component && (explicitKey? o.props).isNone

theorem positionals_cons (component : String) (o : Occurrence) (rest : List Occurrence) :
    positionals component (o :: rest) =
      positionals component [o] + positionals component rest := by
  unfold positionals
  rw [← List.countP_append, List.singleton_append]

/-! ## Keys in closed form -/

namespace HostProps

variable {h : HostProps}

/-- An occurrence without a key makes its component's numbers go on by one. -/
theorem Orderly.length_positions_register (hh : h.Orderly) (o : Occurrence) (component : String) :
    (positions ((h.register o.component o.props).2.instances component)).length =
      (positions (h.instances component)).length + positionals component [o] := by
  have hnumbered := hh.numbered o.component
  show (positions ((h.record o.component (h.keyFor o.component o.props) o.props).instances
    component)).length = _
  rw [instances_record, keyFor_of_numbered hnumbered]
  by_cases heq : component = o.component
  · subst heq
    rw [if_pos rfl, hnumbered.positions_insert]
    cases hkey : explicitKey? o.props <;> simp [positionals, hkey]
  · have hother : ¬o.component = component := fun he => heq he.symm
    simp [positionals, heq, hother]

theorem Orderly.registerAll (hh : h.Orderly) (page : List Occurrence) :
    (h.registerAll page).2.Orderly := by
  induction page generalizing h with
  | nil => exact hh
  | cons o rest ih => exact ih (hh.register o.component o.props)

theorem Orderly.getElem?_registerAll (hh : h.Orderly) (page : List Occurrence) (i : Nat) :
    (h.registerAll page).1[i]? = page[i]?.map fun o =>
      nextKeyOf o.component
        ((positions (h.instances o.component)).length + positionals o.component (page.take i))
        o.props := by
  induction page generalizing h i with
  | nil => rfl
  | cons o rest ih =>
      cases i with
      | zero =>
          have hkey := keyFor_of_numbered (hh.numbered o.component) o.props
          exact congrArg some hkey
      | succ i =>
          have hrest := ih (hh.register o.component o.props) i
          refine hrest.trans ?_
          rw [List.getElem?_cons_succ, List.take_succ_cons]
          cases rest[i]? with
          | none => rfl
          | some o' =>
              rw [Option.map_some, Option.map_some, hh.length_positions_register,
                positionals_cons _ o (rest.take i), Nat.add_assoc]

end HostProps

/-- The key of an occurrence counts the occurrences of its component before it. -/
theorem getElem?_keysOf (page : List Occurrence) (i : Nat) :
    (keysOf page)[i]? = page[i]?.map fun o =>
      nextKeyOf o.component (positionals o.component (page.take i)) o.props := by
  have hkeys := HostProps.orderly_empty.getElem?_registerAll page i
  have hnone : ∀ component, (positions (HostProps.empty.instances component)).length = 0 :=
    fun _ => rfl
  simp only [hnone, Nat.zero_add] at hkeys
  exact hkeys

/-! ## Equal keys -/

/-- What a key adds to the name of its component. -/
def keyEnding (n : Nat) (props : Value) : List Char :=
  match explicitKey? props with
  | some key => ':' :: key.toList
  | none => if n = 0 then [] else '_' :: (Nat.repr n).toList

theorem toList_nextKeyOf (component : String) (n : Nat) (props : Value) :
    (nextKeyOf component n props).toList = component.toList ++ keyEnding n props := by
  unfold nextKeyOf keyEnding
  cases explicitKey? props with
  | some key => simp [explicitInstanceKey, String.toList_append]
  | none =>
      cases n with
      | zero => simp [positionalKey]
      | succ n => simpa using positionalKey_succ component n

theorem isDigit_of_mem_repr {n : Nat} {c : Char} (h : c ∈ (Nat.repr n).toList) :
    c.isDigit = true := by
  rw [Nat.toList_repr] at h
  exact Nat.isDigit_of_mem_toDigits (by decide) (by decide) h

/-- The ending of a key begins with a mark that no number has. -/
theorem head_keyEnding {n : Nat} {props : Value} {c : Char} {rest : List Char}
    (h : keyEnding n props = c :: rest) : c.isDigit = false := by
  unfold keyEnding at h
  cases hkey : explicitKey? props with
  | some key =>
      rw [hkey] at h
      rw [← (List.cons.inj h).1]
      decide
  | none =>
      rw [hkey] at h
      dsimp only at h
      split at h
      · cases h
      · rw [← (List.cons.inj h).1]
        decide

/-- Two occurrences of one component that carry the same key. -/
def SameOwnKey (o o' : Occurrence) : Prop :=
  o.component = o'.component ∧
    ∃ key, explicitKey? o.props = some key ∧ explicitKey? o'.props = some key

/-- The name of the second component reads like a key of the first, and goes on to the key of the
first occurrence as the key of the second does. The numbers say how many occurrences of the same
component without a key came before. -/
inductive RunsInto (o : Occurrence) (n : Nat) (o' : Occurrence) (n' : Nat) : Prop
  /-- The first occurrence of a component that is named like a later occurrence of another. -/
  | numbered : explicitKey? o.props = none → n ≠ 0 → explicitKey? o'.props = none → n' = 0 →
      o'.component = positionalKey o.component n → RunsInto o n o' n'
  /-- A component that is named like an occurrence with a key of its own: that key then begins with
  what the name adds, and ends like the other key. -/
  | keyed (rest : String) : explicitKey? o.props = some (nextKeyOf rest n' o'.props) →
      o'.component = explicitInstanceKey o.component rest → RunsInto o n o' n'

/-- A name that reads like a key of another component. -/
def RunsOn (component component' : String) : Prop :=
  component ≠ component' ∧ KeyOf component component'

section

variable {o o' : Occurrence} {n n' : Nat}

theorem RunsInto.runsOn (h : RunsInto o n o' n') : RunsOn o.component o'.component := by
  cases h with
  | numbered _ hn _ _ hname =>
      refine ⟨fun heq => hn ?_, .inl ⟨n, hname⟩⟩
      exact positionalKey_injective o.component (hname.symm.trans heq.symm)
  | keyed rest _ hname =>
      refine ⟨fun heq => ?_, .inr ⟨rest, hname⟩⟩
      exact positionalKey_ne_explicitInstanceKey o.component 0 rest (heq.trans hname)

theorem RunsInto.nextKeyOf_eq (h : RunsInto o n o' n') :
    nextKeyOf o.component n o.props = nextKeyOf o'.component n' o'.props := by
  cases h with
  | numbered hkey _ hkey' hn' hname =>
      simp only [nextKeyOf, hkey, hkey', hn', hname]
      rfl
  | keyed rest hkey hname =>
      have hown : nextKeyOf o.component n o.props =
          explicitInstanceKey o.component (nextKeyOf rest n' o'.props) := by
        rw [nextKeyOf, hkey]
      rw [hown, hname]
      apply String.toList_injective
      simp [toList_nextKeyOf, explicitInstanceKey, String.toList_append]

/-- Where one name goes on like another and both keys are equal, the first key covers what the other
name adds. -/
theorem runsInto_of_keyEnding {added : List Char} (hadded : added ≠ [])
    (hname : o'.component.toList = o.component.toList ++ added)
    (hending : keyEnding n o.props = added ++ keyEnding n' o'.props) : RunsInto o n o' n' := by
  obtain ⟨c, added, rfl⟩ := List.exists_cons_of_ne_nil hadded
  cases hkey : explicitKey? o.props with
  | some key =>
      have hstart : ':' :: key.toList = c :: (added ++ keyEnding n' o'.props) := by
        simpa [keyEnding, hkey] using hending
      obtain ⟨rfl, hkeyList⟩ := List.cons.inj hstart
      refine .keyed (String.ofList added) ?_ ?_
      · rw [hkey]
        refine congrArg some (String.toList_injective ?_)
        rw [hkeyList, toList_nextKeyOf, String.toList_ofList]
      · apply String.toList_injective
        simp [hname, explicitInstanceKey, String.toList_append]
  | none =>
      have hn : n ≠ 0 := by
        rintro rfl
        simp [keyEnding, hkey] at hending
      have hstart : '_' :: (Nat.repr n).toList = c :: (added ++ keyEnding n' o'.props) := by
        simpa [keyEnding, hkey, hn] using hending
      obtain ⟨rfl, hdigits⟩ := List.cons.inj hstart
      -- nothing follows the name of the other, since the ending of a key is no digit
      have hnone : keyEnding n' o'.props = [] := by
        cases hrest : keyEnding n' o'.props with
        | nil => rfl
        | cons d rest =>
            have hdigit : d.isDigit = true :=
              isDigit_of_mem_repr (n := n) (by rw [hdigits, hrest]; simp)
            rw [head_keyEnding hrest] at hdigit
            cases hdigit
      have hown : explicitKey? o'.props = none ∧ n' = 0 := by
        unfold keyEnding at hnone
        cases hkey' : explicitKey? o'.props with
        | some key => simp [hkey'] at hnone
        | none =>
            rw [hkey'] at hnone
            dsimp only at hnone
            split at hnone
            · next hn' => exact ⟨rfl, hn'⟩
            · cases hnone
      refine .numbered hkey hn hown.1 hown.2 (String.toList_injective ?_)
      rw [hnone, List.append_nil] at hdigits
      obtain ⟨m, rfl⟩ := Nat.exists_eq_succ_of_ne_zero hn
      rw [positionalKey_succ, hdigits, hname]

/-- Keys of one component are equal where the keys or else the numbers are. -/
theorem nextKeyOf_eq_of_component {component : String} {props props' : Value}
    (h : nextKeyOf component n props = nextKeyOf component n' props') :
    (explicitKey? props = none ∧ explicitKey? props' = none ∧ n = n') ∨
      ∃ key, explicitKey? props = some key ∧ explicitKey? props' = some key := by
  unfold nextKeyOf at h
  cases hkey : explicitKey? props with
  | none =>
      cases hkey' : explicitKey? props' with
      | none =>
          rw [hkey, hkey'] at h
          exact .inl ⟨rfl, rfl, positionalKey_injective component h⟩
      | some key' =>
          rw [hkey, hkey'] at h
          exact absurd h (positionalKey_ne_explicitInstanceKey _ _ _)
  | some key =>
      cases hkey' : explicitKey? props' with
      | none =>
          rw [hkey, hkey'] at h
          exact absurd h.symm (positionalKey_ne_explicitInstanceKey _ _ _)
      | some key' =>
          rw [hkey, hkey'] at h
          refine .inr ⟨key, rfl, ?_⟩
          have hlist := congrArg String.toList h
          simp only [explicitInstanceKey, String.toList_append, List.append_assoc] at hlist
          have hkeys := List.append_cancel_left (List.append_cancel_left hlist)
          rw [String.toList_injective hkeys]

theorem runsInto_of_ne (hname : o.component ≠ o'.component)
    (h : nextKeyOf o.component n o.props = nextKeyOf o'.component n' o'.props) :
    RunsInto o n o' n' ∨ RunsInto o' n' o n := by
  have hlist := congrArg String.toList h
  rw [toList_nextKeyOf, toList_nextKeyOf, List.append_eq_append_iff] at hlist
  have hnil : ∀ added, o'.component.toList = o.component.toList ++ added ∨
      o.component.toList = o'.component.toList ++ added → added ≠ [] := by
    rintro _ (heq | heq) rfl
    · exact hname (String.toList_injective (by simpa using heq.symm))
    · exact hname (String.toList_injective (by simpa using heq))
  obtain ⟨added, hlonger, hending⟩ | ⟨added, hlonger, hending⟩ := hlist
  · exact .inl (runsInto_of_keyEnding (hnil added (.inl hlonger)) hlonger hending)
  · exact .inr (runsInto_of_keyEnding (hnil added (.inr hlonger)) hlonger hending)

end

/-- Occurrences of one component without a key have different numbers. -/
theorem positionals_take_lt {page : List Occurrence} {i j : Nat} {o : Occurrence}
    (hi : page[i]? = some o) (hkey : explicitKey? o.props = none) (hij : i < j) :
    positionals o.component (page.take i) < positionals o.component (page.take j) := by
  have hsplit : page.take (i + 1) = page.take i ++ [o] := by
    rw [List.take_add_one, hi]
    rfl
  have hprefix : (page.take (i + 1)).Sublist (page.take j) :=
    (List.take_prefix_take_left (by omega)).sublist
  have hnext : positionals o.component (page.take (i + 1)) =
      positionals o.component (page.take i) + 1 := by
    rw [hsplit, positionals, List.countP_append]
    simp [positionals, hkey]
  have hle : positionals o.component (page.take (i + 1)) ≤
      positionals o.component (page.take j) := hprefix.countP_le
  omega

section

variable {page : List Occurrence} {i j : Nat} {o o' : Occurrence}

theorem sameOwnKey_or_runsInto (hi : page[i]? = some o) (hj : page[j]? = some o') (hij : i ≠ j)
    (hkeys : (keysOf page)[i]? = (keysOf page)[j]?) :
    SameOwnKey o o' ∨
      RunsInto o (positionals o.component (page.take i))
        o' (positionals o'.component (page.take j)) ∨
      RunsInto o' (positionals o'.component (page.take j))
        o (positionals o.component (page.take i)) := by
  rw [getElem?_keysOf, getElem?_keysOf, hi, hj, Option.map_some, Option.map_some,
    Option.some.injEq] at hkeys
  by_cases hname : o.component = o'.component
  · rw [hname] at hkeys
    rcases nextKeyOf_eq_of_component hkeys with ⟨hkey, hkey', hnumbers⟩ | hown
    · -- the later of the two has the greater number
      rw [← hname] at hnumbers
      rcases Nat.lt_or_gt_of_ne hij with hlt | hgt
      · have := positionals_take_lt hi hkey hlt
        omega
      · have := positionals_take_lt hj hkey' hgt
        rw [← hname] at this
        omega
    · exact .inl ⟨hname, hown⟩
  · exact .inr (runsInto_of_ne hname hkeys)

/-- Where no component of a page is named like a key of another, occurrences share a key only if they
are of one component and carry the same key. -/
theorem sameOwnKey_of_apart
    (hapart : ∀ o ∈ page, ∀ o' ∈ page, ¬RunsOn o.component o'.component)
    (hi : page[i]? = some o) (hj : page[j]? = some o') (hij : i ≠ j)
    (hkeys : (keysOf page)[i]? = (keysOf page)[j]?) : SameOwnKey o o' := by
  have hmem := List.mem_of_getElem? hi
  have hmem' := List.mem_of_getElem? hj
  rcases sameOwnKey_or_runsInto hi hj hij hkeys with hown | hruns | hruns
  · exact hown
  · exact absurd hruns.runsOn (hapart o hmem o' hmem')
  · exact absurd hruns.runsOn (hapart o' hmem' o hmem)

/-- Two occurrences of a page share a key exactly if they are of one component and carry the same
key, or if the name of one component runs into the key of the other. -/
theorem keysOf_eq_iff (hi : page[i]? = some o) (hj : page[j]? = some o') (hij : i ≠ j) :
    (keysOf page)[i]? = (keysOf page)[j]? ↔ SameOwnKey o o' ∨
      RunsInto o (positionals o.component (page.take i))
        o' (positionals o'.component (page.take j)) ∨
      RunsInto o' (positionals o'.component (page.take j))
        o (positionals o.component (page.take i)) := by
  constructor
  · exact sameOwnKey_or_runsInto hi hj hij
  · rw [getElem?_keysOf, getElem?_keysOf, hi, hj, Option.map_some, Option.map_some,
      Option.some.injEq]
    rintro (⟨hname, key, hkey, hkey'⟩ | hruns | hruns)
    · simp only [nextKeyOf, hkey, hkey', hname]
    · exact hruns.nextKeyOf_eq
    · exact hruns.nextKeyOf_eq.symm

end

/-- The second `card` gets the key of a component that is named `card_1`. -/
theorem keysOf_eq_of_numbered_name :
    let card : Occurrence := ⟨"card", .object (.given 0) []⟩
    let card₁ : Occurrence := ⟨"card_1", .object (.given 0) []⟩
    let page := [card, card, card₁]
    page[1]? = some card ∧ page[2]? = some card₁ ∧ (1 : Nat) ≠ 2 ∧
      (keysOf page)[1]? = (keysOf page)[2]? ∧ ¬SameOwnKey card card₁ := by
  refine ⟨rfl, rfl, by decide, (keysOf_eq_iff rfl rfl (by decide)).mpr (.inr (.inl ?_)), ?_⟩
  · exact .numbered rfl (by decide) rfl (by decide) (by decide)
  · rintro ⟨hname, -⟩
    exact absurd hname (by decide)

/-- The `a` that carries the key `b` gets the key of a component that is named `a:b`. -/
theorem not_sameOwnKey_of_keysOf_eq :
    ¬∀ (page : List Occurrence) (i j : Nat) (o o' : Occurrence), page[i]? = some o →
      page[j]? = some o' → i ≠ j → (keysOf page)[i]? = (keysOf page)[j]? → SameOwnKey o o' := by
  intro h
  let keyed : Occurrence := ⟨"a", .object (.given 0) [("$key", .str "b")]⟩
  let named : Occurrence := ⟨"a:b", .object (.given 0) []⟩
  have hkeys : (keysOf [keyed, named])[0]? = (keysOf [keyed, named])[1]? := by decide +kernel
  have hown := h [keyed, named] 0 1 keyed named rfl rfl (by decide) hkeys
  exact absurd hown.1 (by decide)

end LiveMarkup
