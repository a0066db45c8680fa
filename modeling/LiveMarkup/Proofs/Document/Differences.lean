import LiveMarkup.Proofs.Document.Paths
import LiveMarkup.Proofs.Document.Reconcile
import Mathlib
set_option autoImplicit false

/-! # Reconciliation touches what differs

Every mutation that a reconciliation logs is about a node of the old tree that has another markup
than the fresh node at the same child positions, or has no such node. A tree that has the markup of
its counterpart stays as it is, with its live values and properties, unless a node above it is
replaced and takes it along (`replaced_with_equal_child`). Afterwards there is nothing left to do:
`reconcile_touches_differences` says all three for every well-formed document. -/

namespace LiveMarkup.Document

variable {d source : Document} {old new : NodeId}

section

variable (h : d.WellFormed) (hsource : source.WellFormed) (hold : (d.node? old).isSome)
  (hroot : old ≠ root) (hnew : (source.node? new).isSome)

include h hsource hold hroot hnew

theorem logged_targets_reconcile :
    ∃ added, (d.reconcile old source new).2.log.toList = d.log.toList ++ added ∧
      ∀ m ∈ added, ∃ path, d.descend? old path = some m.target ∧
        ∀ y, source.descend? new path = some y → d.deepEqual m.target source y = false := by
  obtain ⟨n, hn⟩ := Option.isSome_iff_exists.mp hold
  obtain ⟨m, hm⟩ := Option.isSome_iff_exists.mp hnew
  obtain ⟨before, after, hsome, hnone⟩ := h.exists_beside old
  obtain ⟨below, below', hplaced, hholds, -, ⟨added, hlog, htargets, -⟩, -⟩ :=
    exists_patches_reconcile h hsource before after hn hroot hm hsome hnone
  refine ⟨added, hlog, fun mutation hmutation => ?_⟩
  obtain ⟨i, path, k, b, hat, hother⟩ := (htargets mutation hmutation).exists_at?
  obtain rfl := Forest.eq_zero_of_at?_tree hat
  refine ⟨path, hplaced.holds.descend?_iff.mpr ⟨k, b, hat⟩, fun y hy => ?_⟩
  obtain ⟨k', b', hat'⟩ := hholds.descend?_iff.mp hy
  obtain ⟨p, htree⟩ := hplaced.holds.exists_at? hat
  obtain ⟨p', htree'⟩ := hholds.exists_at? hat'
  have hnodup := hplaced.nodup.sublist (Forest.sublist_ids_of_at? hat)
  rw [← Bool.not_eq_true, htree.deepEqual_iff hnodup htree']
  exact hother _ hat'

theorem kept_of_deepEqual {path : List Nat} {x y : NodeId} (hx : d.descend? old path = some x)
    (hy : source.descend? new path = some y) (hequal : d.deepEqual x source y = true)
    (habove : ∀ front j back, path = front ++ j :: back → ∀ a b, d.descend? old front = some a →
      source.descend? new front = some b → d.Patchable a source b)
    {rest : List Nat} {z : NodeId} (hz : d.descend? x rest = some z) :
    (d.reconcile old source new).2.descend? (d.reconcile old source new).1 (path ++ rest) = some z ∧
      (d.reconcile old source new).2.kind? z = d.kind? z ∧
      (d.reconcile old source new).2.children z = d.children z := by
  obtain ⟨n, hn⟩ := Option.isSome_iff_exists.mp hold
  obtain ⟨m, hm⟩ := Option.isSome_iff_exists.mp hnew
  obtain ⟨before, after, hsome, hnone⟩ := h.exists_beside old
  obtain ⟨below, below', hplaced, hholds, -, -, kind₁, below₁, hedit, hpatched, -⟩ :=
    exists_patches_reconcile h hsource before after hn hroot hm hsome hnone
  obtain ⟨k, b, hat⟩ := hplaced.holds.descend?_iff.mp hx
  obtain ⟨k', b', hat'⟩ := hholds.descend?_iff.mp hy
  obtain ⟨p, htree⟩ := hplaced.holds.exists_at? hat
  obtain ⟨p', htree'⟩ := hholds.exists_at? hat'
  have hnodup := hplaced.nodup.sublist (Forest.sublist_ids_of_at? hat)
  have halike := (htree.deepEqual_iff hnodup htree').mp hequal
  have hstays := hpatched.at?_of_alike hat hat' halike <| by
    intro front j back hpath a ka ba b kb bb ha hb
    obtain ⟨_, hheldA⟩ := hplaced.holds.exists_at? ha
    obtain ⟨_, hheldB⟩ := hholds.exists_at? hb
    rw [← patchable_iff (kind?_eq hheldA.1) (kind?_eq hheldB.1)]
    exact habove front j back hpath a b (hplaced.holds.descend?_iff.mpr ⟨ka, ba, ha⟩)
      (hholds.descend?_iff.mpr ⟨kb, bb, hb⟩)
  -- the node is in the tree that stays
  obtain ⟨kz, bz, hatz⟩ := htree.descend?_iff.mp hz
  have hbefore : (Forest.tree old n.kind below).at? 0 (path ++ rest) = some (.tree z kz bz) :=
    (Forest.at?_append hat rest).trans hatz
  have hafter := (Forest.at?_append hstays rest).trans hatz
  obtain ⟨_, hheld⟩ := hplaced.holds.exists_at? hbefore
  obtain ⟨_, hheld'⟩ := hedit.placed.holds.exists_at? hafter
  refine ⟨hedit.placed.holds.descend?_iff.mpr ⟨kz, bz, hafter⟩, ?_, ?_⟩
  · rw [kind?_eq hheld.1, kind?_eq hheld'.1]
  · rw [children_eq hheld.1, children_eq hheld'.1]

theorem reconcile_again :
    (d.reconcile old source new).2.reconcile (d.reconcile old source new).1 source new =
      d.reconcile old source new := by
  have hequal := deepEqual_reconcile h hsource hold hroot hnew
  rw [reconcile, depthBound, patchNode, if_pos hequal]

end

/-- A reconciliation touches only nodes that differ from the fresh node at the same positions; a tree
that does not differ keeps its nodes as they are, where every node above it can be patched; and a
second reconciliation with the same fresh node changes and logs nothing. -/
theorem reconcile_touches_differences (h : d.WellFormed) (hsource : source.WellFormed)
    (hold : (d.node? old).isSome) (hroot : old ≠ root) (hnew : (source.node? new).isSome) :
    let r := (d.reconcile old source new).1
    let d' := (d.reconcile old source new).2
    (∃ added, d'.log.toList = d.log.toList ++ added ∧
      ∀ m ∈ added, ∃ path, d.descend? old path = some m.target ∧
        ∀ y, source.descend? new path = some y → d.deepEqual m.target source y = false) ∧
    (∀ path x y, d.descend? old path = some x → source.descend? new path = some y →
      d.deepEqual x source y = true →
      (∀ front j back, path = front ++ j :: back → ∀ a b, d.descend? old front = some a →
        source.descend? new front = some b → d.Patchable a source b) →
      ∀ rest z, d.descend? x rest = some z →
        d'.descend? r (path ++ rest) = some z ∧ d'.kind? z = d.kind? z ∧
          d'.children z = d.children z) ∧
    d'.reconcile r source new = (r, d') :=
  ⟨logged_targets_reconcile h hsource hold hroot hnew,
    fun _ _ _ hx hy hequal habove _ _ hz =>
      kept_of_deepEqual h hsource hold hroot hnew hx hy hequal habove hz,
    reconcile_again h hsource hold hroot hnew⟩

/-- A form of which the first field has been filled in, beside fresh markup that differs in the
second: the field keeps its node with what was entered. -/
theorem reconcile_touches_differences_form :
    let live : Document :=
      ⟨#[some ⟨.element (.ofTag rootTag []), none, [1]⟩,
        some ⟨.element (.ofTag "form" []), some 0, [2, 4]⟩,
        some ⟨.element (.ofTag "label" []), some 1, [3]⟩,
        some ⟨.element ⟨"input", [("name", "n")], some "Ada", [("disabled", true)]⟩, some 2, []⟩,
        some ⟨.element (.ofTag "p" [("class", "old")]), some 1, []⟩], [], #[]⟩
    let source : Document :=
      ⟨#[some ⟨.element (.ofTag rootTag []), none, [1]⟩,
        some ⟨.element (.ofTag "form" []), some 0, [2, 4]⟩,
        some ⟨.element (.ofTag "label" []), some 1, [3]⟩,
        some ⟨.element (.ofTag "input" [("name", "n")]), some 2, []⟩,
        some ⟨.element (.ofTag "p" [("class", "new")]), some 1, []⟩], [], #[]⟩
    live.WellFormed ∧ source.WellFormed ∧
      (live.reconcile 1 source 1).2.log = #[.setAttribute 4 "class"] ∧
      (live.reconcile 1 source 1).2.descend? 1 [0, 0] = some 3 ∧
      (live.reconcile 1 source 1).2.kind? 3 = live.kind? 3 ∧
      (live.reconcile 1 source 1).2.reconcile 1 source 1 = live.reconcile 1 source 1 := by
  intro live source
  have hlive : live.WellFormed := wellFormed_of_isOrdered (by decide +kernel)
  have hsource : source.WellFormed := wellFormed_of_isOrdered (by decide +kernel)
  have hold : (live.node? 1).isSome := rfl
  have hnew : (source.node? 1).isSome := rfl
  obtain ⟨-, hkept, hagain⟩ :=
    reconcile_touches_differences hlive hsource hold (by decide) hnew
  have habove : ∀ front j back, [0] = front ++ j :: back → ∀ a b, live.descend? 1 front = some a →
      source.descend? 1 front = some b → live.Patchable a source b := by
    intro front j back hpath a b ha hb
    obtain rfl : front = [] := by
      cases front with
      | nil => rfl
      | cons k front => simp at hpath
    obtain rfl : 1 = a := Option.some.inj ha
    obtain rfl : 1 = b := Option.some.inj hb
    exact .inr ⟨"form", rfl, rfl⟩
  obtain ⟨hplace, hkind, -⟩ :=
    hkept [0] 2 2 rfl rfl (by decide +kernel) habove [0] 3 rfl
  exact ⟨hlive, hsource, by cbv, hplace, hkind, hagain⟩

/-- A field that does not differ from its counterpart does not stay when the node above it is
replaced: a copy takes its place, without what was entered. -/
theorem replaced_with_equal_child :
    let live : Document :=
      ⟨#[some ⟨.element (.ofTag rootTag []), none, [1]⟩,
        some ⟨.element (.ofTag "div" []), some 0, [2]⟩,
        some ⟨.element ⟨"input", [], some "Ada", []⟩, some 1, []⟩], [], #[]⟩
    let source : Document :=
      ⟨#[some ⟨.element (.ofTag rootTag []), none, [1]⟩,
        some ⟨.element (.ofTag "section" []), some 0, [2]⟩,
        some ⟨.element (.ofTag "input" []), some 1, []⟩], [], #[]⟩
    let (r, d') := live.reconcile 1 source 1
    live.WellFormed ∧ source.WellFormed ∧
      live.descend? 1 [0] = some 2 ∧ source.descend? 1 [0] = some 2 ∧
      live.deepEqual 2 source 2 = true ∧ live.value? 2 = some "Ada" ∧
      d'.node? 2 = none ∧ (d'.descend? r [0]).map d'.value? = some (some "") := by
  intro live source
  exact ⟨wellFormed_of_isOrdered (by decide +kernel), wellFormed_of_isOrdered (by decide +kernel),
    by decide +kernel, by decide +kernel, by decide +kernel, by decide +kernel, by decide +kernel,
    by decide +kernel⟩

end LiveMarkup.Document
