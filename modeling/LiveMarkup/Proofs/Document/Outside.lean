import LiveMarkup.Proofs.Document.InPlace
import LiveMarkup.Proofs.Document.Links
set_option autoImplicit false

/-! # What an update leaves alone

A search for an attribute finds every node that carries it, as far as the node stands under the root
(`exists_find?_of_under`). Reconciling a node and making the boolean properties below it follow
touch nothing outside of the node (`sameOutside_sync_reconcile`): a node that stood outside before
stands outside of what has taken the place. -/

namespace LiveMarkup.Document

variable {d d' source : Document} {id x old new : NodeId} {name value : String}

/-! ## Searching -/

/-- A search goes down to a node that a chain of children leads to. -/
theorem isSome_findIn_of_chain {path : List NodeId} {scope : NodeId} {bound : Nat}
    (h : d.WellFormed) (hchain : (scope :: path).IsChain (flip d.ChildOf))
    (hlast : (scope :: path).getLast (by simp) = id) (hid : d.attribute? id name = some value)
    (hbound : path.length < bound) : (d.findIn name value bound scope).isSome := by
  induction path generalizing scope bound with
  | nil =>
      obtain ⟨bound, rfl⟩ := Nat.exists_eq_succ_of_ne_zero (Nat.ne_of_gt hbound)
      obtain rfl : scope = id := by simpa using hlast
      rw [findIn, if_pos hid]
      rfl
  | cons child rest ih =>
      obtain ⟨bound, rfl⟩ := Nat.exists_eq_succ_of_ne_zero (Nat.ne_of_gt (Nat.zero_lt_of_lt hbound))
      obtain ⟨hchild, hrest⟩ := List.isChain_cons_cons.mp hchain
      rw [findIn]
      split
      · rfl
      · rw [List.findSome?_isSome_iff]
        refine ⟨child, (h.linked scope child).mpr hchild, ih hrest ?_ (by simpa using hbound)⟩
        rwa [List.getLast_cons (by simp)] at hlast

/-- What carries an attribute in the document can be found by it. -/
theorem exists_find?_of_under (h : d.WellFormed) (hunder : d.Under id root)
    (hid : d.attribute? id name = some value) : ∃ found, d.find? root name value = some found := by
  obtain ⟨path, hchain, hlast, hlength⟩ := exists_chain_of_under h hunder
  -- the same way, seen from the root
  obtain ⟨top, down, hdown⟩ := List.exists_cons_of_ne_nil (l := (id :: path).reverse) (by simp)
  have htop : top = root := by
    rw [List.getLast_eq_head_reverse] at hlast
    simpa [hdown] using hlast
  subst htop
  have hdownward : (root :: down).IsChain (flip d.ChildOf) := by
    rw [← hdown]
    exact List.isChain_reverse.mpr hchain
  have hbottom : (root :: down).getLast (by simp) = id := by
    have hend : (root :: down).getLast? = some id := by
      rw [← hdown, List.getLast?_reverse]
      rfl
    rwa [List.getLast?_eq_some_getLast (by simp), Option.some.injEq] at hend
  have hsame : down.length = path.length := by
    have hlengths := congrArg List.length hdown
    simpa using hlengths.symm
  have hfound := isSome_findIn_of_chain h hdownward hbottom hid (by rw [hsame]; exact hlength)
  exact Option.isSome_iff_exists.mp hfound

/-! ## Boolean properties -/

/-- Making properties follow touches the node itself and what stands below it. -/
theorem kind?_syncProperty (hx : x ≠ id) (d : Document) (name : String) :
    (syncProperty id d name).kind? x = d.kind? x := by
  unfold syncProperty
  split
  · rfl
  · dsimp only
    split
    · rfl
    · unfold setProperty
      split
      · show ((d.modifyElement id _).node? x).map NodeData.kind = _
        rw [modifyElement, node?_modify, if_neg hx]
        rfl
      · rfl

theorem kind?_syncProperties_here (hx : x ≠ id) (d : Document) (names : List String) :
    (names.foldl (syncProperty id) d).kind? x = d.kind? x := by
  induction names generalizing d with
  | nil => rfl
  | cons name rest ih => exact (ih (syncProperty id d name)).trans (kind?_syncProperty hx d name)

theorem SameTree.under_iff (h : SameTree d d') (a b : NodeId) : d'.Under a b ↔ d.Under a b := by
  have hchild : d'.ChildOf = d.ChildOf := by
    funext c p
    rw [ChildOf, ChildOf, h.parent?]
  rw [Under, Under, hchild]

theorem kind?_syncIn (h : d.WellFormed) (depth : Nat) (hx : ¬d.Under x id) :
    (syncIn depth d id).kind? x = d.kind? x := by
  induction depth generalizing d id with
  | zero => rfl
  | succ depth ih =>
      have hhere : x ≠ id := fun heq => hx (heq ▸ .refl)
      -- the children, in a document with the same tree
      have hbelow : ∀ (l : List NodeId), (∀ c ∈ l, c ∈ d.children id) → ∀ d₁, SameTree d d₁ →
          (l.foldl (syncIn depth) d₁).kind? x = d₁.kind? x := by
        intro l
        induction l with
        | nil => exact fun _ _ _ => rfl
        | cons c rest ihl =>
            intro hl d₁ hsame
            have hc : d.ChildOf c id := (h.linked id c).mp (hl c List.mem_cons_self)
            have hout : ¬d₁.Under x c := by
              rw [hsame.under_iff]
              exact fun hunder => hx (hunder.tail hc)
            have hfirst := ih (hsame.wellFormed h) hout
            have hnext := hsame.trans (synced_syncIn depth d₁ c).sameTree
            exact (ihl (fun c' hc' => hl c' (List.mem_cons_of_mem c hc')) _ hnext).trans hfirst
      have hstart := (Synced.foldl (synced_syncProperty id) d booleanAttributes).sameTree
      have hchildren : ∀ c ∈ (booleanAttributes.foldl (syncProperty id) d).children id,
          c ∈ d.children id := by
        intro c hc
        rwa [hstart.children] at hc
      have hfirst := kind?_syncProperties_here hhere d booleanAttributes
      exact (hbelow _ hchildren _ hstart).trans hfirst

theorem kind?_syncProperties (h : d.WellFormed) (hx : ¬d.Under x id) :
    (d.syncProperties id).kind? x = d.kind? x := kind?_syncIn h _ hx

/-! ## Outside of a node -/

/-- Every node that does not stand under `top` keeps its kind (with attributes, live value and
properties), its parent and, but for the place of `top` among them, its children. -/
def SameOutside (d : Document) (top : NodeId) (d' : Document) : Prop :=
  ∀ x, (d.node? x).isSome → ¬d.Under x top →
    d'.kind? x = d.kind? x ∧ d'.parent? x = d.parent? x ∧
      (d.parent? top ≠ some x → d'.children x = d.children x)

theorem sameOutside_syncProperties (h : d.WellFormed) (top : NodeId) :
    d.SameOutside top (d.syncProperties top) := by
  intro x _ hx
  have hsame := (synced_syncProperties d top).sameTree
  exact ⟨kind?_syncProperties h hx, hsame.parent? x, fun _ => hsame.children x⟩

section

variable (h : d.WellFormed) (hsource : source.WellFormed) (hold : (d.node? old).isSome)
  (hroot : old ≠ root) (hnew : (source.node? new).isSome)

include h hsource hold hroot hnew

/-- What stood outside of a node stands outside of what has taken its place. -/
theorem not_under_reconcile (hx : (d.node? x).isSome) (hout : ¬d.Under x old) :
    ¬(d.reconcile old source new).2.Under x (d.reconcile old source new).1 := by
  intro hunder
  -- upwards from `x` nothing has changed, as far as it leads outside
  induction hunder using Relation.ReflTransGen.head_induction_on with
  | refl =>
      obtain ⟨hkept, hcopied⟩ := kept_or_copied_reconcile h hsource hold hroot hnew
      by_cases hpatchable : d.Patchable old source new
      · rw [hkept hpatchable] at hout
        exact hout .refl
      · have hvacant := (hcopied hpatchable).1
        rw [hvacant] at hx
        cases hx
  | @head x p hxp _ ih =>
      have hparent := (outside_reconcile h hsource hold hroot hnew hx hout).2.1
      have hp : d.ChildOf x p := hparent.symm.trans hxp
      have hlive : (d.node? p).isSome := h.treelike.live_of_childOf hp
      exact ih hlive fun hpold => hout (.head hp hpold)

/-- An exchange of a node with what it is reconciled to, live properties included. -/
theorem sameOutside_sync_reconcile :
    d.SameOutside old
      ((d.reconcile old source new).2.syncProperties (d.reconcile old source new).1) := by
  intro x hx hout
  have hwell := wellFormed_reconcile h hsource hold hroot hnew
  have hafter := not_under_reconcile h hsource hold hroot hnew hx hout
  have hsame := (synced_syncProperties (d.reconcile old source new).2
    (d.reconcile old source new).1).sameTree
  obtain ⟨hkind, hparent, hchildren⟩ := outside_reconcile h hsource hold hroot hnew hx hout
  have hsynced := kind?_syncProperties hwell hafter
  refine ⟨hsynced.trans hkind, (hsame.parent? x).trans hparent, fun htop => ?_⟩
  exact (hsame.children x).trans (hchildren htop)

end

end LiveMarkup.Document
