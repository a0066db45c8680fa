import LiveMarkup.Proofs.Document.Outside
import Mathlib.Data.List.ProdSigma
import Mathlib.Logic.Function.Iterate
set_option autoImplicit false

/-! # Boolean properties follow their attributes

Syncing a node goes through the nodes of its subtree in document order, and at each through the
boolean attributes. It comes down to one pair of a node and an attribute after the other
(`syncIn_eq_foldl`), and no pair has an influence on another, so what it changes and logs can be read
off the document it starts from. The walk can as well be made round by round, with a pile of the
nodes that are still to be visited: in a document whose nodes form trees the pile runs empty after
every node of the subtree was on top of it once (`rounds_syncProperties`). -/

namespace LiveMarkup.Document

variable {d d₁ d' : Document} {id x : NodeId} {name : String} {p q : NodeId × String}
  {ps : List (NodeId × String)}

/-! ## One property -/

/-- Whether a node carries an attribute that its live property does not follow. A property that was
never set is on. -/
def lags (d : Document) (p : NodeId × String) : Bool :=
  (d.attribute? p.1 p.2).any fun value => (d.property? p.1 p.2).getD true != (value == "true")

/-- What is logged when a property catches up with its attribute. -/
def catchUp (d : Document) (p : NodeId × String) : Mutation :=
  .setProperty p.1 p.2 (d.attribute? p.1 p.2 == some "true")

def syncPair (d : Document) (p : NodeId × String) : Document := syncProperty p.1 d p.2

theorem syncPair_of_not_lags (h : d.lags p = false) : d.syncPair p = d := by
  unfold syncPair syncProperty
  unfold lags at h
  cases hvalue : d.attribute? p.1 p.2 with
  | none => rfl
  | some value =>
      rw [hvalue, Option.any_some, bne_eq_false_iff_eq] at h
      dsimp only
      rw [h, beq_self_eq_true, if_pos rfl]

theorem syncPair_of_lags (h : d.lags p = true) :
    d.syncPair p = d.setProperty p.1 p.2 (d.attribute? p.1 p.2 == some "true") := by
  unfold syncPair syncProperty
  unfold lags at h
  cases hvalue : d.attribute? p.1 p.2 with
  | none =>
      rw [hvalue] at h
      cases h
  | some value =>
      rw [hvalue, Option.any_some, bne_iff_ne] at h
      have hwanted : (some value == some "true") = (value == "true") := rfl
      dsimp only
      rw [if_neg (by simpa using h), hwanted]

/-- Only an element has attributes to follow. -/
theorem isSome_element?_of_lags (h : d.lags p = true) : (d.element? p.1).isSome := by
  unfold lags attribute? at h
  cases helement : d.element? p.1 with
  | none =>
      rw [helement] at h
      cases h
  | some e => rfl

theorem element?_setProperty (h : (d.element? id).isSome) (name : String) (value : Bool)
    (x : NodeId) : (d.setProperty id name value).element? x =
      if x = id then
        (d.element? x).map fun e => { e with properties := Table.insert name value e.properties }
      else d.element? x := by
  obtain ⟨e, he⟩ := Option.isSome_iff_exists.mp h
  have htouched : Touches d (d.setProperty id name value) id
      { e with properties := Table.insert name value e.properties } := by
    rw [setProperty, if_pos h]
    exact (Touches.modifyElement he _).record _
  obtain ⟨n, hn, -⟩ := exists_node_of_element? he
  by_cases hx : x = id
  · rw [if_pos hx, hx, he]
    exact htouched.element? (by rw [hn]; rfl)
  · rw [if_neg hx, element?, kind?, htouched.node, if_neg hx]
    rfl

theorem node?_syncPair (hx : x ≠ p.1) : (d.syncPair p).node? x = d.node? x := by
  cases h : d.lags p with
  | false => rw [syncPair_of_not_lags h]
  | true =>
      rw [syncPair_of_lags h, setProperty, if_pos (isSome_element?_of_lags h), node?_record,
        modifyElement, node?_modify, if_neg hx]

theorem log_syncPair (d : Document) (p : NodeId × String) : (d.syncPair p).log.toList =
    d.log.toList ++ if d.lags p then [d.catchUp p] else [] := by
  cases h : d.lags p with
  | false => simp [syncPair_of_not_lags h]
  | true =>
      rw [syncPair_of_lags h, setProperty, if_pos (isSome_element?_of_lags h)]
      simp [record, catchUp]

theorem synced_syncPair (d : Document) (p : NodeId × String) : Synced d (d.syncPair p) :=
  synced_syncProperty p.1 d p.2

/-- A property of one pair is no property of another. -/
theorem property?_syncPair (d : Document) (p q : NodeId × String) :
    (d.syncPair p).property? q.1 q.2 =
      if q = p ∧ d.lags p then some (d.attribute? p.1 p.2 == some "true")
      else d.property? q.1 q.2 := by
  cases h : d.lags p with
  | false => simp [syncPair_of_not_lags h]
  | true =>
      have hlive := isSome_element?_of_lags h
      obtain ⟨e, he⟩ := Option.isSome_iff_exists.mp hlive
      rw [syncPair_of_lags h]
      unfold property?
      rw [element?_setProperty hlive]
      by_cases hnode : q.1 = p.1
      · rw [if_pos hnode, hnode, he]
        by_cases hname : q.2 = p.2
        · rw [if_pos ⟨Prod.ext hnode hname, rfl⟩, hname]
          exact Table.get?_insert_self ..
        · rw [if_neg fun heq => hname (congrArg Prod.snd heq.1)]
          exact Table.get?_insert_of_ne hname ..
      · rw [if_neg hnode, if_neg fun heq => hnode (congrArg Prod.fst heq.1)]

theorem liveValue_syncPair (d : Document) (p : NodeId × String) (x : NodeId) :
    ((d.syncPair p).element? x).map Element.value = (d.element? x).map Element.value := by
  cases h : d.lags p with
  | false => rw [syncPair_of_not_lags h]
  | true =>
      rw [syncPair_of_lags h, element?_setProperty (isSome_element?_of_lags h)]
      split
      · rw [Option.map_map]
        rfl
      · rfl

/-- A pair that is synced follows; others lag as they did. -/
theorem lags_syncPair (d : Document) (p q : NodeId × String) :
    (d.syncPair p).lags q = (d.lags q && decide (q ≠ p)) := by
  have hattribute := (synced_syncPair d p).sameTree.attribute? q.1 q.2
  by_cases heq : q = p
  · subst heq
    cases h : d.lags q with
    | false => rw [syncPair_of_not_lags h, h, Bool.false_and]
    | true =>
        rw [lags, hattribute, property?_syncPair, if_pos ⟨rfl, h⟩]
        cases d.attribute? q.1 q.2 <;> simp
  · rw [lags, hattribute, property?_syncPair, if_neg fun h => heq h.1, ← lags]
    simp [heq]

/-! ## One property after the other -/

theorem synced_foldl_syncPair (d : Document) (ps : List (NodeId × String)) :
    Synced d (ps.foldl syncPair d) := Synced.foldl synced_syncPair d ps

theorem foldl_syncPair_of_not_lags (h : ∀ p ∈ ps, d.lags p = false) : ps.foldl syncPair d = d := by
  induction ps with
  | nil => rfl
  | cons p rest ih =>
      obtain ⟨hp, hrest⟩ := List.forall_mem_cons.mp h
      rw [List.foldl_cons, syncPair_of_not_lags hp]
      exact ih hrest

theorem lags_foldl_syncPair (d : Document) (ps : List (NodeId × String)) (q : NodeId × String) :
    (ps.foldl syncPair d).lags q = (d.lags q && decide (q ∉ ps)) := by
  induction ps generalizing d with
  | nil => simp
  | cons p rest ih =>
      rw [List.foldl_cons, ih, lags_syncPair]
      by_cases heq : q = p <;> simp [heq]

/-- What lags in the beginning is logged, in its turn. -/
theorem log_foldl_syncPair (d : Document) (hnodup : ps.Nodup) :
    (ps.foldl syncPair d).log.toList = d.log.toList ++ (ps.filter d.lags).map d.catchUp := by
  induction ps generalizing d with
  | nil => simp
  | cons p rest ih =>
      obtain ⟨hp, hrest⟩ := List.nodup_cons.mp hnodup
      -- the first pair is not met again, so the others see it changed in no way
      have hlags : rest.filter (d.syncPair p).lags = rest.filter d.lags := by
        refine List.filter_congr fun q hq => ?_
        have hne : q ≠ p := fun heq => hp (heq ▸ hq)
        simp [lags_syncPair, hne]
      have hlogged : (d.syncPair p).catchUp = d.catchUp := by
        funext q
        rw [catchUp, (synced_syncPair d p).sameTree.attribute?, catchUp]
      rw [List.foldl_cons, ih _ hrest, log_syncPair, hlags, hlogged, List.append_assoc]
      cases h : d.lags p <;> simp [h]

theorem property?_foldl_syncPair (h : ∀ p ∈ ps, p = q → d.lags p = false) :
    (ps.foldl syncPair d).property? q.1 q.2 = d.property? q.1 q.2 := by
  induction ps generalizing d with
  | nil => rfl
  | cons p rest ih =>
      obtain ⟨hp, hrest⟩ := List.forall_mem_cons.mp h
      have hnext : ∀ p' ∈ rest, p' = q → (d.syncPair p).lags p' = false := by
        intro p' hp' heq
        rw [lags_syncPair, hrest p' hp' heq, Bool.false_and]
      rw [List.foldl_cons, ih hnext, property?_syncPair, if_neg]
      rintro ⟨rfl, hlags⟩
      simp [hp rfl] at hlags

theorem liveValue_foldl_syncPair (d : Document) (ps : List (NodeId × String)) (x : NodeId) :
    ((ps.foldl syncPair d).element? x).map Element.value = (d.element? x).map Element.value := by
  induction ps generalizing d with
  | nil => rfl
  | cons p rest ih => exact (ih (d.syncPair p)).trans (liveValue_syncPair d p x)

theorem node?_foldl_syncPair (h : ∀ p ∈ ps, p.1 ≠ x) : (ps.foldl syncPair d).node? x = d.node? x := by
  induction ps generalizing d with
  | nil => rfl
  | cons p rest ih =>
      obtain ⟨hp, hrest⟩ := List.forall_mem_cons.mp h
      exact (ih hrest).trans (node?_syncPair (Ne.symm hp))

/-! ## The nodes of a subtree -/

def subtreeIn (d : Document) : Nat → NodeId → List NodeId
  | 0, _ => []
  | bound + 1, id => id :: (d.children id).flatMap (subtreeIn d bound)

/-- A node and all below it, in document order. -/
def subtree (d : Document) (id : NodeId) : List NodeId := d.subtreeIn d.depthBound id

theorem Holds.flatMap_subtreeIn {parent : Option NodeId} {f : Forest} {bound : Nat}
    (h : d.Holds parent f) (hbound : f.height ≤ bound) :
    f.roots.flatMap (d.subtreeIn bound) = f.ids := by
  induction f generalizing parent bound with
  | nil => rfl
  | cons id kind below next ihb ihn =>
      obtain ⟨bound, rfl, hlow, hlevel⟩ := Forest.exists_bound_of_height_le hbound
      rw [Forest.roots, List.flatMap_cons, subtreeIn, children_eq h.1, ihb h.2.1 hlow,
        ihn h.2.2 hlevel]
      rfl

theorem Holds.subtree {parent : Option NodeId} {kind : NodeKind} {below : Forest}
    (h : d.Holds parent (.tree id kind below)) (hnodup : (Forest.tree id kind below).ids.Nodup) :
    d.subtree id = (Forest.tree id kind below).ids := by
  rw [← h.flatMap_subtreeIn (Nat.le_succ_of_le (h.height_le hnodup))]
  simp [Forest.roots, Document.subtree, depthBound]

theorem Treelike.nodup_subtree (h : d.Treelike) (hid : (d.node? id).isSome) :
    (d.subtree id).Nodup := by
  obtain ⟨n, hn⟩ := Option.isSome_iff_exists.mp hid
  obtain ⟨below, hholds, hnodup⟩ := h.exists_tree hn
  rwa [hholds.subtree hnodup]

theorem Treelike.mem_subtree_iff (h : d.Treelike) (hid : (d.node? id).isSome) :
    x ∈ d.subtree id ↔ d.Under x id := by
  obtain ⟨n, hn⟩ := Option.isSome_iff_exists.mp hid
  obtain ⟨below, hholds, hnodup⟩ := h.exists_tree hn
  rw [hholds.subtree hnodup]
  constructor
  · intro hx
    obtain ⟨r, hr, hunder⟩ := hholds.under_root hx
    obtain rfl : r = id := by simpa [Forest.roots] using hr
    exact hunder
  · exact hholds.mem_ids_of_under h.linked List.mem_cons_self

/-! ## The walk -/

/-- Whatever bounds the walk, it comes down to the pairs of the nodes it visits. -/
theorem syncIn_eq_foldl (depth : Nat) (id : NodeId) (hsame : SameTree d d₁) :
    syncIn depth d₁ id = (d.subtreeIn depth id ×ˢ booleanAttributes).foldl syncPair d₁ := by
  induction depth generalizing d₁ id with
  | zero => rfl
  | succ depth ih =>
      have hchildren : ∀ (l : List NodeId) (d₂ : Document), SameTree d d₂ →
          l.foldl (syncIn depth) d₂ =
            (l.flatMap (d.subtreeIn depth) ×ˢ booleanAttributes).foldl syncPair d₂ := by
        intro l
        induction l with
        | nil => exact fun _ _ => rfl
        | cons c rest ihl =>
            intro d₂ hsame₂
            have hnext := hsame₂.trans (synced_syncIn depth d₂ c).sameTree
            rw [List.foldl_cons, ihl _ hnext, ih c hsame₂, List.flatMap_cons]
            simp only [SProd.sprod, List.product, List.flatMap_append, List.foldl_append]
      have hstart := hsame.trans
        (Synced.foldl (synced_syncProperty id) d₁ booleanAttributes).sameTree
      rw [syncIn, subtreeIn, List.product_cons, List.foldl_append, List.foldl_map, hstart.children]
      exact hchildren _ _ hstart

theorem syncProperties_eq_foldl (d : Document) (id : NodeId) :
    d.syncProperties id = (d.subtree id ×ˢ booleanAttributes).foldl syncPair d :=
  syncIn_eq_foldl _ id (.refl d)

theorem lags_syncProperties (d : Document) (id : NodeId) (p : NodeId × String) :
    (d.syncProperties id).lags p = (d.lags p && decide (p ∉ d.subtree id ×ˢ booleanAttributes)) := by
  rw [syncProperties_eq_foldl, lags_foldl_syncPair]

theorem SameTree.subtreeIn (h : SameTree d d') (bound : Nat) (id : NodeId) :
    d'.subtreeIn bound id = d.subtreeIn bound id := by
  induction bound generalizing id with
  | zero => rfl
  | succ bound ih =>
      rw [Document.subtreeIn, Document.subtreeIn, h.children]
      exact congrArg _ (List.flatMap_congr fun c _ => ih c)

theorem SameTree.subtree (h : SameTree d d') (id : NodeId) : d'.subtree id = d.subtree id := by
  rw [Document.subtree, Document.subtree, depthBound, depthBound, h.size, h.subtreeIn]

/-- Where everything follows, there is nothing to do. -/
theorem syncProperties_of_not_lags
    (h : ∀ p ∈ d.subtree id ×ˢ booleanAttributes, d.lags p = false) : d.syncProperties id = d := by
  rw [syncProperties_eq_foldl]
  exact foldl_syncPair_of_not_lags h

theorem syncProperties_syncProperties (d : Document) (id : NodeId) :
    (d.syncProperties id).syncProperties id = d.syncProperties id := by
  refine syncProperties_of_not_lags fun p hp => ?_
  rw [(synced_syncProperties d id).sameTree.subtree] at hp
  rw [lags_syncProperties]
  simp [hp]

/-! ## The walk round by round -/

/-- Visits the node on top of a pile and puts its children in its place. -/
def syncRound : Document × List NodeId → Document × List NodeId
  | (d, []) => (d, [])
  | (d, id :: pile) =>
    let d := booleanAttributes.foldl (syncProperty id) d
    (d, d.children id ++ pile)

/-- A round syncs the node on top of the pile and goes on with the trees below it. -/
theorem syncRound_root {parent : Option NodeId} {kind : NodeKind} {below next : Forest}
    (h : d.Holds parent (.cons id kind below next)) (hsame : SameTree d d₁) (pile : List NodeId) :
    syncRound (d₁, id :: pile) =
        (booleanAttributes.foldl (syncProperty id) d₁, below.roots ++ pile) ∧
      SameTree d (booleanAttributes.foldl (syncProperty id) d₁) := by
  have hsynced := hsame.trans (Synced.foldl (synced_syncProperty id) d₁ booleanAttributes).sameTree
  refine ⟨?_, hsynced⟩
  rw [syncRound, hsynced.children, children_eq h.1]

/-- The trees on top of a pile are gone through before what lies below them. -/
theorem iterate_syncRound {parent : Option NodeId} {f : Forest} (h : d.Holds parent f)
    (hsame : SameTree d d₁) (pile : List NodeId) :
    syncRound^[f.ids.length] (d₁, f.roots ++ pile) =
      ((f.ids ×ˢ booleanAttributes).foldl syncPair d₁, pile) := by
  induction f generalizing parent d₁ pile with
  | nil => rfl
  | cons id kind below next ihb ihn =>
      obtain ⟨hfirst, hstart⟩ := syncRound_root h hsame (next.roots ++ pile)
      have hbelow := hstart.trans (synced_foldl_syncPair _ (below.ids ×ˢ booleanAttributes)).sameTree
      have hcount : (Forest.cons id kind below next).ids.length =
          next.ids.length + below.ids.length + 1 := by
        simp only [Forest.ids, List.length_cons, List.length_append]
        omega
      rw [hcount, Function.iterate_succ_apply, Forest.roots, List.cons_append, hfirst,
        Function.iterate_add_apply, ihb h.2.1 hstart, ihn h.2.2 hbelow, Forest.ids,
        List.product_cons, List.foldl_append, List.foldl_map]
      simp only [SProd.sprod, List.product, List.flatMap_append, List.foldl_append]
      rfl

/-- Every node of the trees is on top of the pile once, in document order. -/
theorem head?_iterate_syncRound {parent : Option NodeId} {f : Forest} (h : d.Holds parent f)
    (hsame : SameTree d d₁) (pile : List NodeId) {n : Nat} (hn : n < f.ids.length) :
    (syncRound^[n] (d₁, f.roots ++ pile)).2.head? = f.ids[n]? := by
  induction f generalizing parent d₁ pile n with
  | nil => cases hn
  | cons id kind below next ihb ihn =>
      cases n with
      | zero => rfl
      | succ n =>
          obtain ⟨hfirst, hstart⟩ := syncRound_root h hsame (next.roots ++ pile)
          simp only [Forest.ids, List.length_cons, List.length_append] at hn
          rw [Function.iterate_succ_apply, Forest.roots, List.cons_append, hfirst, Forest.ids,
            List.getElem?_cons_succ]
          by_cases hlow : n < below.ids.length
          · rw [ihb h.2.1 hstart _ hlow, List.getElem?_append_left hlow]
          · -- the trees below are done with, and the next ones are on top
            obtain ⟨m, rfl⟩ := Nat.exists_eq_add_of_le (Nat.le_of_not_lt hlow)
            have hbelow := hstart.trans
              (synced_foldl_syncPair _ (below.ids ×ˢ booleanAttributes)).sameTree
            rw [Nat.add_comm, Function.iterate_add_apply, iterate_syncRound h.2.1 hstart,
              ihn h.2.2 hbelow pile (by omega), List.getElem?_append_right (by omega)]
            congr 1
            omega

theorem rounds_syncProperties (h : d.Treelike) (hid : (d.node? id).isSome) :
    (∀ n < (d.subtree id).length, (syncRound^[n] (d, [id])).2.head? = (d.subtree id)[n]?) ∧
      syncRound^[(d.subtree id).length] (d, [id]) = (d.syncProperties id, []) := by
  obtain ⟨n, hn⟩ := Option.isSome_iff_exists.mp hid
  obtain ⟨below, hholds, hnodup⟩ := h.exists_tree hn
  rw [syncProperties_eq_foldl, hholds.subtree hnodup]
  exact ⟨fun _ hm => head?_iterate_syncRound hholds (.refl d) [] hm,
    iterate_syncRound hholds (.refl d) []⟩

/-! ## What is changed -/

/-- Syncing a node of one document gave another. -/
structure PropertiesFollow (d : Document) (id : NodeId) (d' : Document) : Prop where
  /-- Below the node and at it, a property is on exactly when the attribute reads `true`. -/
  on_iff : ∀ x, d.Under x id → ∀ name ∈ booleanAttributes, ∀ value,
    d'.attribute? x name = some value →
      ((d'.property? x name).getD true = true ↔ value = "true")
  /-- Each pair of a node and an attribute of which this was not true has been logged once, in
  document order, and nothing else. -/
  log_eq : d'.log.toList = d.log.toList ++
    ((d.subtree id ×ˢ booleanAttributes).filter d.lags).map d.catchUp
  /-- Other properties are as they were, of nodes in the subtree too. -/
  property?_eq : ∀ x name,
    (d.Under x id → name ∈ booleanAttributes → d.attribute? x name = none) →
      d'.property? x name = d.property? x name
  outside : ∀ x, ¬d.Under x id → d'.node? x = d.node? x
  liveValue_eq : ∀ x, (d'.element? x).map Element.value = (d.element? x).map Element.value
  sameTree : SameTree d d'

theorem lags_eq_false_iff {value : String} (h : d.attribute? x name = some value) :
    d.lags (x, name) = false ↔ ((d.property? x name).getD true = true ↔ value = "true") := by
  rw [lags, h, Option.any_some, bne_eq_false_iff_eq, Bool.eq_iff_iff, beq_iff_eq]

theorem nodup_booleanAttributes : booleanAttributes.Nodup := by decide

theorem propertiesFollow_syncProperties (h : d.Treelike) (hid : (d.node? id).isSome) :
    PropertiesFollow d id (d.syncProperties id) := by
  have hmem : ∀ x name, (x, name) ∈ d.subtree id ×ˢ booleanAttributes ↔
      d.Under x id ∧ name ∈ booleanAttributes := by
    intro x name
    rw [List.mem_product, h.mem_subtree_iff hid]
  refine ⟨?_, ?_, ?_, ?_, ?_, (synced_syncProperties d id).sameTree⟩
  · intro x hx name hname value hvalue
    rw [← lags_eq_false_iff hvalue, lags_syncProperties]
    simp [(hmem x name).mpr ⟨hx, hname⟩]
  · rw [syncProperties_eq_foldl]
    exact log_foldl_syncPair d ((h.nodup_subtree hid).product nodup_booleanAttributes)
  · intro x name hnone
    rw [syncProperties_eq_foldl]
    refine property?_foldl_syncPair (q := (x, name)) ?_
    rintro _ hp rfl
    obtain ⟨hx, hname⟩ := (hmem x name).mp hp
    rw [lags, hnone hx hname]
    rfl
  · intro x hx
    rw [syncProperties_eq_foldl]
    refine node?_foldl_syncPair ?_
    rintro ⟨y, name⟩ hp rfl
    exact hx ((hmem y name).mp hp).1
  · intro x
    rw [syncProperties_eq_foldl]
    exact liveValue_foldl_syncPair d _ x

/-- Syncing the boolean properties of a node. Made with a pile of nodes it visits every node of the
subtree once, in document order, and ends; what it changes is what has to be changed; and a second
time there is nothing to change. -/
theorem properties_follow_attributes (h : d.Treelike) (hid : (d.node? id).isSome) :
    ((d.subtree id).Nodup ∧ ∀ x, x ∈ d.subtree id ↔ d.Under x id) ∧
      (∀ n < (d.subtree id).length, (syncRound^[n] (d, [id])).2.head? = (d.subtree id)[n]?) ∧
      syncRound^[(d.subtree id).length] (d, [id]) = (d.syncProperties id, []) ∧
      PropertiesFollow d id (d.syncProperties id) ∧
      (d.syncProperties id).syncProperties id = d.syncProperties id := by
  obtain ⟨hvisited, hempty⟩ := rounds_syncProperties h hid
  refine ⟨⟨h.nodup_subtree hid, fun x => h.mem_subtree_iff hid⟩, hvisited, hempty, ?_, ?_⟩
  · exact propertiesFollow_syncProperties h hid
  · exact syncProperties_syncProperties d id

/-- A form that is not disabled, with a box that was unticked and one that was never touched. The
form is to be enabled and the first box to be ticked; the other box shows what it should. -/
theorem properties_follow_attributes_form :
    let d : Document :=
      ⟨#[some ⟨.element (.ofTag rootTag []), none, [1]⟩,
        some ⟨.element (.ofTag "form" [("disabled", "false")]), some 0, [2, 4]⟩,
        some ⟨.element (.ofTag "label" []), some 1, [3]⟩,
        some ⟨.element ⟨"input", [("checked", "true")], some "Ada", [("checked", false)]⟩,
          some 2, []⟩,
        some ⟨.element (.ofTag "input" [("required", "true")]), some 1, []⟩], [], #[]⟩
    d.WellFormed ∧ (d.node? 1).isSome ∧
      (d.syncProperties 1).log = #[.setProperty 1 "disabled" false, .setProperty 3 "checked" true] ∧
      (d.syncProperties 1).property? 3 "checked" = some true ∧
      (d.syncProperties 1).property? 4 "required" = none ∧
      ((d.syncProperties 1).syncProperties 1).log = (d.syncProperties 1).log := by
  intro d
  have hd : d.WellFormed := wellFormed_of_isOrdered (by decide +kernel)
  have hform : (d.node? 1).isSome := rfl
  obtain ⟨-, -, -, hfollow, hagain⟩ := properties_follow_attributes hd.treelike hform
  refine ⟨hd, hform, ?_, by decide +kernel, by decide +kernel, congrArg Document.log hagain⟩
  have hlog := hfollow.log_eq
  rw [← Array.toList_inj, hlog]
  decide +kernel

end LiveMarkup.Document
