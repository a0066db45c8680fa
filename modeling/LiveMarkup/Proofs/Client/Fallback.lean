import LiveMarkup.Proofs.Client.Unmoved
import LiveMarkup.Proofs.Client.Update
import LiveMarkup.Proofs.Document.InPlace
import Mathlib
set_option autoImplicit false

/-! # Updates after a failed render

An update puts what an instance is rendered to in the place of its root, and remembers the node that
stands there (`exists_placed_of_update`). A failed render is replaced by the fallback of the
instance, so the node is then the fallback's. The next update finds the instance there exactly if
that node is marked with the key of the instance; where nothing is, the update does nothing
(`shown_after_fallback`). -/

namespace LiveMarkup.Client

open Document (parse)

variable {c c' c₁ c₂ : Client} {key html : String} {i : Instance} {root : NodeId} {budget : Nat}

/-! ## Where an instance is found -/

theorem under_of_findRoot (h : c.document.WellFormed) (hroot : c.findRoot i = some root) :
    c.document.Under root Document.root := by
  unfold findRoot at hroot
  rcases Option.or_eq_some_iff.mp hroot with hseen | ⟨-, hfound⟩
  · obtain ⟨-, hseen⟩ := Option.filter_eq_some_iff.mp hseen
    exact (Document.contains_iff_under h).mp (Bool.and_eq_true_iff.mp hseen).1
  · exact Document.under_of_findIn h hfound

/-- An instance that was last seen at a node of the document is still shown by it if the node is
marked with the key of the instance. -/
theorem findRoot_of_contains (hseen : i.root = some root)
    (hcontains : c.document.contains root = true) :
    c.findRoot i = if c.document.attribute? root rootAttribute = some i.key then some root
      else c.document.find? Document.root rootAttribute i.key := by
  unfold findRoot
  rw [hseen]
  split
  · next hmarked => simp [hcontains, hmarked]
  · next hmarked => simp [Option.filter, hmarked]

/-! ## One update -/

/-- The first element `new` of fresh markup is shown at `placed`, in the place of the root of an
instance with the given mark. The instance is found there if the element is marked with it, and else
where the document has another element that is. -/
structure PlacedAt (d : Document) (key mark : String) (root : NodeId) (source : Document)
    (new placed : NodeId) (c : Client) : Prop where
  wellFormed : c.document.WellFormed
  shown : d.ShownInPlace root source new placed c.document
  ne_root : placed ≠ Document.root
  found : ∃ i, c.instance? key = some i ∧ i.key = mark ∧
    c.findRoot i = if source.attribute? new rootAttribute = some mark then some placed
      else c.document.find? Document.root rootAttribute mark

theorem PlacedAt.unmoved {d source : Document} {mark : String} {new placed : NodeId}
    (h : PlacedAt d key mark root source new placed c₁) (hunmoved : Unmoved c₁ c₂) :
    PlacedAt d key mark root source new placed c₂ := by
  obtain ⟨hwell, hshown, hne, i₁, hi₁, hkey₁, hfound₁⟩ := h
  obtain ⟨i₂, hi₂, hkey₂, hfound₂⟩ := hunmoved.instances key i₁ hi₁
  refine ⟨?_, ?_, hne, i₂, hi₂, hkey₂.trans hkey₁, ?_⟩
  · rw [hunmoved.document]
    exact hwell
  · rw [hunmoved.document]
    exact hshown
  · rw [hfound₂, hfound₁, hunmoved.document]

/-- Reconciling a node of the document shows the fresh one in its place, and live properties that
follow are nothing to that. -/
theorem shownInPlace_sync {d d₁ source : Document} {old new placed : NodeId} (h : d.WellFormed)
    (hsource : source.WellFormed) (hold : d.Under old Document.root) (hne : old ≠ Document.root)
    (hnew : (source.node? new).isSome) (hreconcile : d.reconcile old source new = (placed, d₁)) :
    (d₁.syncProperties placed).WellFormed ∧
      d.ShownInPlace old source new placed (d₁.syncProperties placed) ∧
      (d₁.syncProperties placed).contains placed = true := by
  obtain ⟨p, hp, -⟩ := hold.cases_head.resolve_left hne
  obtain ⟨n, hn, -⟩ := Document.exists_node_of_parent? hp
  have hlive : (d.node? old).isSome := by simp [hn]
  have hwell := Document.wellFormed_reconcile h hsource hlive hne hnew
  have hshown := Document.shownInPlace_reconcile h hsource hlive hne hnew
  have hunder := Document.under_root_reconcile h hsource hlive hne hnew hold
  rw [hreconcile] at hwell hshown hunder
  have hsame := (Document.synced_syncProperties d₁ placed).sameTree
  have hwell' := hsame.wellFormed hwell
  refine ⟨hwell', hshown.sameTree hsame, (Document.contains_iff_under hwell').mpr ?_⟩
  exact Relation.ReflTransGen.mono (fun x p hp => (hsame.parent? x).trans hp) _ _ hunder

/-- Placing markup shows its first element in the place of the root. -/
theorem exists_placed_place (h : c.document.WellFormed) (hi : c.instance? key = some i)
    (hroot : c.document.Under root Document.root) (hne : root ≠ Document.root) {new : NodeId}
    (hnew : (parse html).firstElementChild? Document.root = some new) :
    ∃ placed, PlacedAt c.document key i.key root (parse html) new placed
      (place key root html c) := by
  obtain ⟨placed, d, hreconcile⟩ : ∃ placed d, c.document.reconcile root (parse html) new =
      (placed, d) := ⟨_, _, rfl⟩
  obtain ⟨hwell, hshown, hcontains⟩ := shownInPlace_sync h (Document.wellFormed_parse html) hroot
    hne (Document.live_of_firstElementChild? hnew) hreconcile
  unfold place
  dsimp only
  rw [hnew]
  dsimp only
  rw [hreconcile]
  generalize d.syncProperties placed = d' at hwell hshown hcontains
  have hdocument := (sameButInstances_modifyInstance { c with document := d' } key fun i =>
    { i with root := some placed }).document
  refine ⟨placed, ?_, ?_, ?_, { i with root := some placed }, ?_, rfl, ?_⟩
  · rw [hdocument]
    exact hwell
  · rw [hdocument]
    exact hshown
  · -- there is something above the place, and nothing above the document
    rintro rfl
    obtain ⟨p, hp, -⟩ := hroot.cases_head.resolve_left hne
    exact nomatch hwell.root_parent.symm.trans (hshown.parent.trans hp)
  · rw [instance?_modifyInstance, if_pos rfl]
    show (c.instance? key).map _ = _
    rw [hi]
    rfl
  · rw [findRoot_of_contains rfl (by rw [hdocument]; exact hcontains), hdocument,
      Document.attribute?_of_deepEqual hwell hshown.equal]

/-- Between its hooks an exchange places the markup. -/
theorem exists_place_of_exchange
    (hrun : ExceptT.run (exchange budget key root html) c = some (.ok (), c')) :
    ∃ c₁, Unmoved c c₁ ∧ Unmoved (place key root html c₁) c' := by
  unfold exchange at hrun
  rw [run_bind, run_lift] at hrun
  cases hbefore : fire budget key .beforeUpdate c with
  | none =>
      rw [hbefore] at hrun
      cases hrun
  | some result =>
      obtain ⟨⟨⟩, c₁⟩ := result
      rw [hbefore] at hrun
      dsimp only [Option.map_some] at hrun
      rw [run_modify_bind, run_lift] at hrun
      obtain ⟨⟨⟨⟩, c₂⟩, hafter, heq⟩ := Option.map_eq_some_iff.mp hrun
      cases heq
      exact ⟨c₁, unmoving_fire budget key _ _ _ _ hbefore, unmoving_fire budget key _ _ _ _ hafter⟩

theorem document_startPass (c : Client) (key : String) (root : NodeId) :
    (c.startPass key root).document = c.document :=
  (sameButInstances_modifyInstance c key fun i => { i with root := some root }).document

/-- An update of an instance in the document places what it renders. Up to then nothing moves, nor
does it afterwards. -/
theorem exists_place_of_update (hi : c.instance? key = some i) (hroot : c.findRoot i = some root)
    (hrun : ExceptT.run (updateComponent budget key) c = some (.ok (), c')) :
    ∃ html c₁ c₂, ExceptT.run (renderInstance budget (renderChild budget maxDepth) i)
        (c.startPass key root) = some (.ok html, c₁) ∧
      Unmoved (c.startPass key root) c₂ ∧ Unmoved (place key root html c₂) c' := by
  rw [run_updateComponent_of_mounted hi hroot] at hrun
  cases hrender : ExceptT.run (renderInstance budget (renderChild budget maxDepth) i)
    (c.startPass key root) with
  | none =>
      rw [hrender] at hrun
      cases hrun
  | some result =>
      rw [hrender] at hrun
      obtain ⟨e | html, c₁⟩ := result
      · cases hrun
      obtain ⟨c₂, hbefore, hafter⟩ := exists_place_of_exchange hrun
      exact ⟨html, c₁, c₂, rfl, (unmoved_renderInstance budget i hrender).trans hbefore, hafter⟩

/-- An update of an instance in the document shows the first element of what it renders. -/
theorem exists_placed_of_update (h : c.document.WellFormed) (hi : c.instance? key = some i)
    (hroot : c.findRoot i = some root) (hne : root ≠ Document.root)
    (hrun : ExceptT.run (updateComponent budget key) c = some (.ok (), c')) :
    ∃ html c₁, ExceptT.run (renderInstance budget (renderChild budget maxDepth) i)
        (c.startPass key root) = some (.ok html, c₁) ∧
      ∀ new, (parse html).firstElementChild? Document.root = some new →
        ∃ placed, PlacedAt c.document key i.key root (parse html) new placed c' := by
  obtain ⟨html, c₁, c₂, hrender, hbefore, hafter⟩ := exists_place_of_update hi hroot hrun
  refine ⟨html, c₁, hrender, fun new hnew => ?_⟩
  have hdocument : c₂.document = c.document :=
    hbefore.document.trans (document_startPass c key root)
  have hstart : (c.startPass key root).instance? key = some { i with root := some root } := by
    show (c.modifyInstance key _).instance? key = _
    rw [instance?_modifyInstance, if_pos rfl, hi]
    rfl
  obtain ⟨i₂, hi₂, hkey₂, -⟩ := hbefore.instances key _ hstart
  obtain ⟨placed, hplaced⟩ := exists_placed_place (by rw [hdocument]; exact h) hi₂
    (by rw [hdocument]; exact under_of_findRoot h hroot) hne hnew
  rw [hdocument, hkey₂] at hplaced
  exact ⟨placed, hplaced.unmoved hafter⟩

/-- An instance that nothing shows is passed over by an update. -/
theorem document_updateComponent_of_findRoot (hi : c.instance? key = some i)
    (hunseen : c.findRoot i = none) (budget : Nat) :
    ∃ c', ExceptT.run (updateComponent budget key) c = some (.ok (), c') ∧
      c'.document = c.document := by
  rw [run_updateComponent, hi, mountedRoot_of_instance? hi, hunseen]
  exact ⟨_, rfl, (sameButInstances_modifyInstance c key _).document⟩

/-! ## An update after a failed one -/

/-- The template of an instance fails, and the fallback makes other markup of the failure. -/
def FallsBack (budget : Nat) (i : Instance) (c : Client) (html : String) : Prop :=
  ∃ data c₁ f c₂ fallback, instanceData i c = some (data, c₁) ∧
    execute i.component.template
      (instanceCall budget (renderChild budget maxDepth) i.key data) c₁ = some (.error f, c₂) ∧
    i.fallback = some fallback ∧ fallback f.error = html

theorem FallsBack.run_renderInstance (h : FallsBack budget i c html) :
    ∃ c', ExceptT.run (renderInstance budget (renderChild budget maxDepth) i) c =
      some (.ok html, c') := by
  obtain ⟨data, c₁, f, c₂, fallback, hdata, hfails, hfallback, rfl⟩ := h
  refine ⟨c₂, ?_⟩
  unfold renderInstance
  rw [run_bind, run_lift, hdata]
  dsimp only [Option.map_some]
  rw [run_bind, run_lift, hfails]
  dsimp only [Option.map_some]
  rw [hfallback]
  rfl

/-- If an update of an instance succeeds, it shows what the instance is rendered to in the place
that a node has in a document. -/
def UpdatesAt (budget : Nat) (c : Client) (key : String) (d : Document) (root : NodeId) : Prop :=
  ∀ c', ExceptT.run (updateComponent budget key) c = some (.ok (), c') →
    ∃ i r html c₁, c.instance? key = some i ∧ c.findRoot i = some r ∧
      ExceptT.run (renderInstance budget (renderChild budget maxDepth) i) (c.startPass key r) =
        some (.ok html, c₁) ∧
      ∀ new, (parse html).firstElementChild? Document.root = some new →
        ∃ shown, d.ShownInPlace root (parse html) new shown c'.document

/-- An update shows what it renders in the place where it finds the instance. -/
theorem updatesAt_of_findRoot (h : c.document.WellFormed) (hi : c.instance? key = some i)
    (hroot : c.findRoot i = some root) (hne : root ≠ Document.root) :
    UpdatesAt budget c key c.document root := by
  intro c' hrun
  obtain ⟨html, c₁, hrender, hplaced⟩ := exists_placed_of_update h hi hroot hne hrun
  refine ⟨i, root, html, c₁, hi, hroot, hrender, fun new hnew => ?_⟩
  obtain ⟨placed, hplaced⟩ := hplaced new hnew
  exact ⟨placed, hplaced.shown⟩

/-- What is shown in the place of something that is shown in a place is shown in that place. -/
theorem UpdatesAt.trans {d d₁ source : Document} {new placed : NodeId}
    (hshown : d.ShownInPlace root source new placed d₁) (h : UpdatesAt budget c key d₁ placed) :
    UpdatesAt budget c key d root := by
  intro c' hrun
  obtain ⟨i, r, html, c₁, hi, hr, hrender, hlater⟩ := h c' hrun
  refine ⟨i, r, html, c₁, hi, hr, hrender, fun new hnew => ?_⟩
  obtain ⟨placed, hplaced⟩ := hlater new hnew
  exact ⟨placed, hshown.trans hplaced⟩

/-- An update whose render failed shows the fallback. When next the instance is updated, it is shown
in the same place again if the fallback's element is marked with its key. If it is not, then another
element that is gives its place to the instance, and where there is none the update does nothing. -/
theorem shown_after_fallback (h : c.document.WellFormed) (hi : c.instance? key = some i)
    (hroot : c.findRoot i = some root) (hne : root ≠ Document.root)
    (hfails : FallsBack budget i (c.startPass key root) html) {new : NodeId}
    (hnew : (parse html).firstElementChild? Document.root = some new)
    (hrun : ExceptT.run (updateComponent budget key) c = some (.ok (), c')) :
    (∃ placed, c.document.ShownInPlace root (parse html) new placed c'.document) ∧
      ∀ c₂ budget₂, Unmoved c' c₂ →
        ((parse html).attribute? new rootAttribute = some i.key →
          UpdatesAt budget₂ c₂ key c.document root) ∧
        ((parse html).attribute? new rootAttribute ≠ some i.key →
          (∀ other, c'.document.find? Document.root rootAttribute i.key = some other →
            other ≠ Document.root → UpdatesAt budget₂ c₂ key c'.document other) ∧
          (c'.document.find? Document.root rootAttribute i.key = none →
            ∃ c₃, ExceptT.run (updateComponent budget₂ key) c₂ = some (.ok (), c₃) ∧
              c₃.document = c'.document)) := by
  -- the first update rendered the fallback
  obtain ⟨html₁, c₁, hrender, hplaced⟩ := exists_placed_of_update h hi hroot hne hrun
  obtain ⟨c₁', hrender'⟩ := hfails.run_renderInstance
  obtain rfl : html₁ = html := by
    rw [hrender'] at hrender
    cases hrender
    rfl
  obtain ⟨placed, hplaced⟩ := hplaced new hnew
  refine ⟨⟨placed, hplaced.shown⟩, fun c₂ budget₂ hunmoved => ?_⟩
  -- the second finds the instance where the first has left it
  obtain ⟨hwell, hshown, hplacedRoot, i₂, hi₂, -, hfound⟩ := hplaced.unmoved hunmoved
  refine ⟨fun hmarked => ?_, fun hunmarked => ?_⟩
  · rw [if_pos hmarked] at hfound
    exact .trans hshown (updatesAt_of_findRoot hwell hi₂ hfound hplacedRoot)
  · rw [if_neg hunmarked] at hfound
    rw [← hunmoved.document]
    refine ⟨fun other hother hne => ?_, fun hnone => ?_⟩
    · exact updatesAt_of_findRoot hwell hi₂ (hfound.trans hother) hne
    · exact document_updateComponent_of_findRoot hi₂ (hfound.trans hnone) budget₂

/-- Of two elements of one tag with one child each, the elements are reconciled and then the
children. -/
theorem reconcile_of_only_child {d source : Document} {old new child fresh : NodeId} {a b : Element}
    (hdiffers : d.deepEqual old source new = false) (hold : d.kind? old = some (.element a))
    (hnew : source.kind? new = some (.element b)) (htag : a.tag = b.tag)
    (hchild : (((d.patchValue old source new).dropStale old source new).setFresh old source
      new).children old = [child])
    (hfresh : source.children new = [fresh]) :
    d.reconcile old source new = (old, (Document.patchNode source source.slots.size
      (((d.patchValue old source new).dropStale old source new).setFresh old source new) child
      fresh).2) := by
  unfold Document.reconcile Document.depthBound
  rw [Document.patchNode, hdiffers, hold, hnew]
  dsimp only
  rw [if_neg Bool.false_ne_true, if_pos htag, hchild, hfresh, Document.patchChildren,
    Document.patchChildren]

/-! ## A fallback without a mark -/

namespace UnmarkedFallback

/-- What is shown in the place of a note that cannot be rendered. -/
def fallback (e : EvalError) : String := "<p>failed: " ++ e.message ++ "</p>"

def note : ComponentDef :=
  ⟨"note", "<p>\x7b\x7b label \x7d\x7d</p>", some (.onError fallback .done)⟩

def template : Template where
  name := "note"
  source := "<p element=\"\x7b\x7b$ctxKey\x7d\x7d\">\x7b\x7b label \x7d\x7d</p>"
  program := ⟨[.text "<p element=\"", .interpolate (.node .instanceKey ⟨14, 21⟩) true 1,
    .text "\">", .interpolate (.node (.ident "label") ⟨28, 33⟩) true 1, .text "</p>"]⟩

theorem component_note : Template.component "note" note.source .braces = .ok template :=
  Template.component_of_segments
    [⟨.text, "<p element=\"".toList, ⟨0, 12⟩, 1⟩,
      ⟨.directive .escaped, "$ctxKey".toList, ⟨14, 21⟩, 1⟩, ⟨.text, "\">".toList, ⟨23, 25⟩, 1⟩,
      ⟨.directive .escaped, "label".toList, ⟨28, 33⟩, 1⟩, ⟨.text, "</p>".toList, ⟨36, 40⟩, 1⟩]
    (by decide +kernel) (by decide +kernel) (by cbv)

def component : Component := ⟨"note", template, note.setup⟩

/-- The note after its setup. It has no label. -/
def unlabelled : Instance :=
  { Instance.create component "note" .null with fallback := some fallback }

def client : Client :=
  { Client.create (parse "<main><p element=\"note\">hi</p></main>") .braces with
    components := [("note", component)]
    instances := [("note", unlabelled)] }

theorem first_failed : (parse "<p>failed: label is not defined</p>").firstElementChild?
    Document.root = some 1 := by decide +kernel

/-- No element is marked once the fallback is in the place of the note. -/
theorem find?_place {c : Client} (h : c.document = client.document) :
    (place "note" 2 "<p>failed: label is not defined</p>" c).document.find? Document.root
      rootAttribute "note" = none := by
  let source := parse "<p>failed: label is not defined</p>"
  have hdiffers : client.document.deepEqual 2 source 1 = false := by decide +kernel
  have hold : client.document.kind? 2 =
      some (.element (.ofTag "p" [(rootAttribute, "note")])) := by decide +kernel
  have hnew : source.kind? 1 = some (.element (.ofTag "p" [])) := by decide +kernel
  have hchild : (((client.document.patchValue 2 source 1).dropStale 2 source 1).setFresh 2 source
      1).children 2 = [3] := by decide +kernel
  have hfresh : source.children 1 = [2] := by decide +kernel
  have hplace : (place "note" 2 "<p>failed: label is not defined</p>" c).document =
      (client.document.reconcile 2 source 1).2.syncProperties
        (client.document.reconcile 2 source 1).1 := by
    unfold place
    rw [(sameButInstances_modifyInstance ..).document]
    dsimp only
    rw [first_failed, h]
  rw [hplace, reconcile_of_only_child hdiffers hold hnew rfl hchild hfresh]
  decide +kernel

end UnmarkedFallback

open UnmarkedFallback in
/-- The fallback of the note is shown once and for all, whatever becomes of its state. -/
theorem shown_after_fallback_unmarked :
    Template.component "note" note.source .braces = .ok template ∧
    ∃ c', ExceptT.run (updateComponent 1 "note") client = some (.ok (), c') ∧
      ∀ store budget, ∃ c₂,
        ExceptT.run (updateComponent budget "note") { c' with store } = some (.ok (), c₂) ∧
          c₂.document = c'.document := by
  have hwell : client.document.WellFormed := Document.wellFormed_parse _
  have hroot : client.findRoot unlabelled = some 2 := by decide +kernel
  have hfails : FallsBack 1 unlabelled (client.startPass "note" 2)
      "<p>failed: label is not defined</p>" := ⟨_, _, _, _, _, rfl, rfl, rfl, rfl⟩
  have hsucceeds : (ExceptT.run (updateComponent 1 "note") client).map (fun r => r.1.toOption) =
      some (some ()) := by decide +kernel
  obtain ⟨⟨e | ⟨⟩, c'⟩, hrun, hok⟩ := Option.map_eq_some_iff.mp hsucceeds
  · cases hok
  obtain ⟨-, hlater⟩ := shown_after_fallback hwell rfl hroot (by decide) hfails first_failed hrun
  refine ⟨component_note, c', hrun, fun store budget => ?_⟩
  obtain ⟨-, hunmarked⟩ := hlater { c' with store } budget (unmoved_of_same rfl rfl)
  refine (hunmarked (by decide +kernel)).2 ?_
  -- the only element that was marked shows the fallback now
  obtain ⟨html, c₁, c₂, hrender, hbefore, hafter⟩ := exists_place_of_update rfl hroot hrun
  obtain ⟨c₃, hrender'⟩ := hfails.run_renderInstance
  obtain ⟨⟨rfl⟩, -⟩ := Prod.mk.inj (Option.some.inj (hrender'.symm.trans hrender))
  rw [hafter.document]
  exact find?_place (hbefore.document.trans (document_startPass client "note" 2))

end LiveMarkup.Client
