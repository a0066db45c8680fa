import LiveMarkup.Proofs.Document.Patched
set_option autoImplicit false

/-! # Trees at child positions

`Forest.at?` is the tree that is reached in a forest by child positions; a document that holds the
forest reaches its top by `Document.descend?`. A tree that had the markup of its counterpart still
stands at its position in the patched forest, if no node above it was replaced
(`Patched.at?_of_alike`). -/

namespace LiveMarkup.Document

variable {d source : Document} {parent q : Option NodeId} {x y old new : NodeId}
  {kind kind' : NodeKind} {below below' : Forest} {f g f₁ t t' : Forest} {i : Nat}
  {path rest : List Nat}

namespace Forest

/-- The tree reached by child positions from the tree at a place of a forest. -/
def at? : Forest → Nat → List Nat → Option Forest
  | nil, _, _ => none
  | cons id kind below _, 0, [] => some (tree id kind below)
  | cons _ _ below _, 0, j :: path => below.at? j path
  | cons _ _ _ next, i + 1, path => next.at? i path

theorem at?_cons_zero (id : NodeId) (kind : NodeKind) (below next : Forest) (path : List Nat) :
    (cons id kind below next).at? 0 path = (tree id kind below).at? 0 path := by
  cases path <;> rfl

theorem at?_append (h : f.at? i path = some t) (rest : List Nat) :
    f.at? i (path ++ rest) = t.at? 0 rest := by
  induction f generalizing i path with
  | nil => nomatch h
  | cons id kind below next ihb ihn =>
      match i, path with
      | 0, [] =>
          obtain rfl := Option.some.inj h
          cases rest <;> rfl
      | 0, j :: path => exact ihb h
      | i + 1, path => exact ihn h

theorem exists_tree_of_at? (h : f.at? i path = some t) : ∃ x kind below, t = tree x kind below := by
  induction f generalizing i path with
  | nil => nomatch h
  | cons id kind below next ihb ihn =>
      match i, path with
      | 0, [] => exact ⟨id, kind, below, (Option.some.inj h).symm⟩
      | 0, j :: path => exact ihb h
      | i + 1, path => exact ihn h

/-- A single tree has nothing beside it. -/
theorem eq_zero_of_at?_tree (h : (tree x kind below).at? i path = some t) : i = 0 := by
  match i with
  | 0 => rfl
  | i + 1 => nomatch h

theorem sublist_ids_of_at? (h : f.at? i path = some t) : t.ids.Sublist f.ids := by
  induction f generalizing i path with
  | nil => nomatch h
  | cons id kind below next ihb ihn =>
      match i, path with
      | 0, [] =>
          obtain rfl := Option.some.inj h
          simp [ids]
      | 0, j :: path => exact ((ihb h).trans (List.sublist_append_left _ _)).cons _
      | i + 1, path => exact ((ihn h).trans (List.sublist_append_right _ _)).cons _

theorem Sound.at? (hsound : f.Sound) (h : f.at? i path = some t) : t.Sound := by
  induction f generalizing i path with
  | nil => nomatch h
  | cons id kind below next ihb ihn =>
      match i, path with
      | 0, [] =>
          obtain rfl := Option.some.inj h
          exact ⟨hsound.1, hsound.2.1, hsound.2.2.1, trivial⟩
      | 0, j :: path => exact ihb hsound.2.2.1 h
      | i + 1, path => exact ihn hsound.2.2.2 h

/-- Related forests have related trees at the same places. -/
theorem Rel.exists_at? {r : NodeKind → NodeKind → Prop} (h : Rel r f g)
    (hf : f.at? i path = some (tree x kind below)) :
    ∃ y kind' below', g.at? i path = some (tree y kind' below') ∧ r kind kind' ∧
      Rel r below below' := by
  induction f generalizing g i path with
  | nil => nomatch hf
  | cons id k b next ihb ihn =>
      cases g with
      | nil => exact h.elim
      | cons id' k' b' next' =>
          obtain ⟨hkind, hbelow, hnext⟩ := h
          match i, path with
          | 0, [] =>
              obtain ⟨rfl, rfl, rfl⟩ : id = x ∧ k = kind ∧ b = below := by
                simpa [at?] using hf
              exact ⟨id', k', b', rfl, hkind, hbelow⟩
          | 0, j :: path => exact ihb (g := b') hbelow hf
          | i + 1, path => exact ihn (g := next') hnext hf

/-- A node that differs stands at some place, and at this place there is no tree with its markup. -/
theorem Differs.exists_at? (h : f.Differs g x) : ∃ i path kind below,
    f.at? i path = some (tree x kind below) ∧
      ∀ t', g.at? i path = some t' → ¬(tree x kind below).Alike t' := by
  induction h with
  | surplus old kind below next => exact ⟨0, [], kind, below, rfl, fun t' h => nomatch h⟩
  | @markup old new kind kind' below below' next next' hother =>
      refine ⟨0, [], kind, below, rfl, fun t' h => ?_⟩
      obtain rfl := Option.some.inj h
      exact hother
  | inside old new kind kind' next next' _ ih =>
      obtain ⟨j, path, k, b, hat, hother⟩ := ih
      exact ⟨0, j :: path, k, b, hat, hother⟩
  | beside old new kind kind' below below' _ ih =>
      obtain ⟨i, path, k, b, hat, hother⟩ := ih
      exact ⟨i + 1, path, k, b, hat, hother⟩
  | besideSurplus old kind below _ ih =>
      obtain ⟨i, path, k, b, hat, -⟩ := ih
      exact ⟨i + 1, path, k, b, hat, fun t' h => nomatch h⟩

/-! ### Patched trees -/

/-- A tree with the markup of its counterpart stays where it stands, if every node above it can be
patched. -/
theorem Patched.at?_of_alike (h : Patched source f g f₁) (hf : f.at? i path = some t)
    (hg : g.at? i path = some t') (halike : t.Alike t')
    (habove : ∀ front j back, path = front ++ j :: back → ∀ x k b y k' b',
      f.at? i front = some (tree x k b) → g.at? i front = some (tree y k' b') →
      NodeKind.Patchable k k') :
    f₁.at? i path = some t := by
  induction h generalizing i path with
  | removed f => nomatch hg
  | appended _ _ _ => nomatch hf
  | same _ _ ih =>
      match i, path with
      | 0, [] => exact hf
      | 0, j :: path => exact hf
      | i + 1, path => exact ih hf hg habove
  | text hne _ ih =>
      match i, path with
      | 0, [] =>
          obtain rfl := Option.some.inj hf
          obtain rfl := Option.some.inj hg
          exact absurd (NodeKind.eq_of_alike_text halike.1) hne
      | 0, j :: path => nomatch hf
      | i + 1, path => exact ih hf hg habove
  | element hother _ _ _ _ ihb ihn =>
      match i, path with
      | 0, [] =>
          obtain rfl := Option.some.inj hf
          obtain rfl := Option.some.inj hg
          exact absurd halike hother
      | 0, j :: path =>
          refine ihb hf hg fun front k back hpath => habove (j :: front) k back ?_
          rw [hpath, List.cons_append]
      | i + 1, path => exact ihn hf hg habove
  | replaced hnot _ _ ih =>
      match i, path with
      | 0, [] =>
          obtain rfl := Option.some.inj hf
          obtain rfl := Option.some.inj hg
          exact absurd (NodeKind.Patchable.of_alike halike.1) hnot
      | 0, j :: path => exact absurd (habove [] j path rfl _ _ _ _ _ _ rfl rfl) hnot
      | i + 1, path => exact ih hf hg habove

end Forest

/-! ## Positions in a document -/

/-- Descending in a document leads to the top of the tree that stands there. -/
theorem Holds.descend?_eq (h : d.Holds parent f) (i : Nat) (path : List Nat) :
    (f.roots[i]?.bind fun c => d.descend? c path) = (f.at? i path).bind fun t => t.roots.head? := by
  induction f generalizing parent i path with
  | nil => simp [Forest.roots, Forest.at?]
  | cons id kind below next ihb ihn =>
      cases i with
      | zero =>
          cases path with
          | nil => simp [Forest.roots, Forest.at?, descend?, h.1]
          | cons j path =>
              have hchildren : d.children id = below.roots := children_eq h.1
              simpa [Forest.roots, Forest.at?, descend?, hchildren] using ihb h.2.1 j path
      | succ i => simpa [Forest.roots, Forest.at?] using ihn h.2.2 i path

/-- From the top of a held tree: the nodes reached are the tops of the trees at the positions. -/
theorem Holds.descend?_iff (h : d.Holds parent (.tree old kind below)) :
    d.descend? old path = some x ↔
      ∃ k b, (Forest.tree old kind below).at? 0 path = some (.tree x k b) := by
  have heq := h.descend?_eq 0 path
  simp only [Forest.roots, List.getElem?_cons_zero, Option.bind_some] at heq
  rw [heq]
  constructor
  · intro htop
    obtain ⟨t, hat, hroot⟩ := Option.bind_eq_some_iff.mp htop
    obtain ⟨x', k, b, rfl⟩ := Forest.exists_tree_of_at? hat
    obtain rfl : x' = x := by simpa [Forest.roots] using hroot
    exact ⟨k, b, hat⟩
  · rintro ⟨k, b, hat⟩
    simp [hat, Forest.roots]

/-- The tree at a position is held under the node above it. -/
theorem Holds.exists_at? (h : d.Holds parent f) (hat : f.at? i path = some t) :
    ∃ p, d.Holds p t := by
  induction f generalizing parent i path with
  | nil => nomatch hat
  | cons id kind below next ihb ihn =>
      match i, path with
      | 0, [] =>
          obtain rfl := Option.some.inj hat
          exact ⟨parent, h.1, h.2.1, trivial⟩
      | 0, j :: path => exact ihb h.2.1 hat
      | i + 1, path => exact ihn h.2.2 hat

end LiveMarkup.Document
