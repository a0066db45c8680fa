import LiveMarkup.Proofs.Document.Attributes
set_option autoImplicit false

/-! # What a patch makes of live trees

Live trees are paired with fresh ones by position. `Forest.Patched` says what becomes of each pair:
it stays if both have the same markup, its node is patched if both nodes are texts or elements of one
tag, and otherwise a copy takes its place. `Forest.Differs` says which live nodes there is a reason
to touch: those that have a counterpart of another markup or none at all. -/

namespace LiveMarkup.Document

/-- Whether a node can be patched into another: both are texts or elements of one tag. -/
def NodeKind.Patchable : NodeKind → NodeKind → Prop
  | .text _, .text _ => True
  | .element a, .element b => a.tag = b.tag
  | _, _ => False

theorem NodeKind.Patchable.of_alike {kind kind' : NodeKind} (h : NodeKind.alike kind kind' = true) :
    Patchable kind kind' := by
  cases kind <;> cases kind' <;> simp_all [NodeKind.alike, Patchable]

theorem NodeKind.eq_of_alike_text {s t : String} (h : NodeKind.alike (.text s) (.text t) = true) :
    s = t := by
  simpa [NodeKind.alike] using h

namespace Forest

/-- A node of the first forest differs from the second: it stands where that has a tree with another
markup, or none. -/
inductive Differs : Forest → Forest → NodeId → Prop
  | surplus (old : NodeId) (kind : NodeKind) (below next : Forest) :
    Differs (cons old kind below next) nil old
  | markup {old new : NodeId} {kind kind' : NodeKind} {below below' : Forest} (next next' : Forest) :
    ¬(tree old kind below).Alike (tree new kind' below') →
    Differs (cons old kind below next) (cons new kind' below' next') old
  | inside {below below' : Forest} {x : NodeId} (old new : NodeId) (kind kind' : NodeKind)
    (next next' : Forest) :
    Differs below below' x → Differs (cons old kind below next) (cons new kind' below' next') x
  | beside {next next' : Forest} {x : NodeId} (old new : NodeId) (kind kind' : NodeKind)
    (below below' : Forest) :
    Differs next next' x → Differs (cons old kind below next) (cons new kind' below' next') x
  | besideSurplus {next : Forest} {x : NodeId} (old : NodeId) (kind : NodeKind) (below : Forest) :
    Differs next nil x → Differs (cons old kind below next) nil x

/-- What differs among single trees differs among them and their neighbours. -/
theorem Differs.grow {old new x : NodeId} {kind kind' : NodeKind} {below below' : Forest}
    (h : Differs (tree old kind below) (tree new kind' below') x) (next next' : Forest) :
    Differs (cons old kind below next) (cons new kind' below' next') x := by
  cases h with
  | markup _ _ hother => exact .markup _ _ hother
  | inside _ _ _ _ _ _ hbelow => exact .inside _ _ _ _ _ _ hbelow
  | beside _ _ _ _ _ _ hnext => nomatch hnext

/-- What a patch makes of live trees beside the fresh trees of a document, tree by tree. -/
inductive Patched (source : Document) : (live fresh result : Forest) → Prop
  | removed (live : Forest) : Patched source live nil nil
  | appended {new copy : NodeId} {kind' : NodeKind} {below₁ below' next' rest : Forest} :
    below₁.Rel Eq below' → Patched source nil next' rest →
    Patched source nil (cons new kind' below' next') (cons copy kind' below₁ rest)
  | same {old new : NodeId} {kind kind' : NodeKind} {below below' next next' rest : Forest} :
    (tree old kind below).Alike (tree new kind' below') → Patched source next next' rest →
    Patched source (cons old kind below next) (cons new kind' below' next')
      (cons old kind below rest)
  | text {old new : NodeId} {current wanted : String} {next next' rest : Forest} :
    current ≠ wanted → Patched source next next' rest →
    Patched source (cons old (.text current) nil next) (cons new (.text wanted) nil next')
      (cons old (.text wanted) nil rest)
  | element {old new : NodeId} {a b e : Element} {below below' below₁ next next' rest : Forest} :
    ¬(tree old (.element a) below).Alike (tree new (.element b) below') → a.tag = b.tag →
    PatchedElement source new a b e → Patched source below below' below₁ →
    Patched source next next' rest →
    Patched source (cons old (.element a) below next) (cons new (.element b) below' next')
      (cons old (.element e) below₁ rest)
  | replaced {old new copy : NodeId} {kind kind' : NodeKind}
    {below below' below₁ next next' rest : Forest} :
    ¬NodeKind.Patchable kind kind' → below₁.Rel Eq below' → Patched source next next' rest →
    Patched source (cons old kind below next) (cons new kind' below' next')
      (cons copy kind' below₁ rest)

namespace Patched

variable {source : Document} {old new x : NodeId} {kind kind' kind₁ : NodeKind}
  {below below' below₁ next next' rest f g f₁ : Forest}

/-- What is patched has the markup of the fresh trees. -/
theorem alike (h : Patched source f g f₁) (hg : g.Sound) : f₁.Alike g := by
  induction h with
  | removed f => trivial
  | appended hcopies _ ih => exact ⟨alike_refl hg.2.1, hcopies.alike hg.2.2.1, ih hg.2.2.2⟩
  | same halike _ ih => exact ⟨halike.1, halike.2.1, ih hg.2.2.2⟩
  | text _ _ ih => exact ⟨alike_refl hg.2.1, trivial, ih hg.2.2.2⟩
  | element _ _ helement _ _ ihb ihn =>
      exact ⟨helement.alike (hg.2.1 _ rfl), ihb hg.2.2.1, ihn hg.2.2.2⟩
  | replaced _ hcopies _ ih => exact ⟨alike_refl hg.2.1, hcopies.alike hg.2.2.1, ih hg.2.2.2⟩

/-- The patch of one tree, beside the patches of the others. -/
theorem beside
    (h : Patched source (tree old kind below) (tree new kind' below') (tree x kind₁ below₁))
    (hnext : Patched source next next' rest) :
    Patched source (cons old kind below next) (cons new kind' below' next')
      (cons x kind₁ below₁ rest) := by
  cases h with
  | same halike _ => exact .same halike hnext
  | text hne _ => exact .text hne hnext
  | element hnot htag helement hbelow _ => exact .element hnot htag helement hbelow hnext
  | replaced hnot hcopies _ => exact .replaced hnot hcopies hnext

end Patched

end Forest

end LiveMarkup.Document
