import LiveMarkup.Client.Update
import LiveMarkup.Proofs.Client.Mirror
import LiveMarkup.Proofs.Document.Parse
import LiveMarkup.Proofs.Document.Reconcile
set_option autoImplicit false

/-! # Updates that change nothing

Where no component has a setup, an update leaves the tree as it is exactly when the root shows already
what the instance is rendered to (`quiet_updateComponent`). That is what an engine with the same
components renders for the instance on its own, as if nothing else were on the page
(`upToDate_iff_showsAlone`). -/

namespace LiveMarkup

namespace Document

variable {d : Document} {id : NodeId} {name value : String}

theorem attribute?_of_findIn {bound : Nat} {scope : NodeId}
    (h : d.findIn name value bound scope = some id) : d.attribute? id name = some value := by
  induction bound generalizing scope with
  | zero => simp [findIn] at h
  | succ bound ih =>
      rw [findIn] at h
      split at h
      · next hscope =>
          obtain rfl := Option.some.inj h
          exact hscope
      · obtain ⟨child, -, hchild⟩ := List.exists_of_findSome?_eq_some h
        exact ih hchild

theorem live_of_attribute? (h : d.attribute? id name = some value) : (d.node? id).isSome := by
  cases hn : d.node? id with
  | none => simp [attribute?, element?, kind?, hn] at h
  | some n => rfl

theorem live_of_firstElementChild? {scope : NodeId} (h : d.firstElementChild? scope = some id) :
    (d.node? id).isSome := by
  have helement := List.find?_some h
  cases hn : d.node? id with
  | none => simp [element?, kind?, hn] at helement
  | some n => rfl

/-- Whether a node is the tree that markup stands for, if there is an element in the markup. -/
def Shows (d : Document) (id : NodeId) (html : String) : Prop :=
  ∀ new, (parse html).firstElementChild? root = some new → d.deepEqual id (parse html) new = true

end Document

namespace Client

variable {c c' : Client} {key : String} {i : Instance} {root : NodeId} {budget : Nat}

/-- An instance is found by the attribute that holds its key. -/
theorem attribute?_of_findRoot (h : c.findRoot i = some root) :
    c.document.attribute? root rootAttribute = some i.key := by
  unfold findRoot at h
  rcases Option.or_eq_some_iff.mp h with hseen | ⟨-, hfound⟩
  · obtain ⟨-, hroot⟩ := Option.filter_eq_some_iff.mp hseen
    simpa using (Bool.and_eq_true_iff.mp hroot).2
  · exact Document.attribute?_of_findIn hfound

/-! ## Between updates -/

/-- A client without setups, between its updates. The document itself is marked with no key. -/
structure Steady (c : Client) : Prop where
  setupFree : SetupFree c.components
  calm : c.AllCalm
  canonical : ∀ name, Registry.Canonical name (Registry.list c.registry name)
  wellFormed : c.document.WellFormed
  unmarked : c.document.attribute? Document.root rootAttribute = none

/-- A client is steady again, with the components and blocks that it had. -/
structure Follows (c c' : Client) : Prop where
  steady : c'.Steady
  components : c'.components = c.components
  blocks : c'.blocks = c.blocks

theorem Follows.trans {c₁ c₂ : Client} (h₁ : Follows c c₁) (h₂ : Follows c₁ c₂) : Follows c c₂ :=
  ⟨h₂.steady, h₂.components.trans h₁.components, h₂.blocks.trans h₁.blocks⟩

namespace Steady

theorem follows_same (h : Steady c) (hsame : SameButInstances c c') (hcalm : c'.AllCalm) :
    Follows c c' := by
  obtain ⟨hdocument, hcomponents, hblocks, hregistry, -, -⟩ := hsame
  refine ⟨⟨?_, hcalm, ?_, ?_, ?_⟩, hcomponents, hblocks⟩
  · rw [hcomponents]
    exact h.setupFree
  · rw [hregistry]
    exact h.canonical
  · rw [hdocument]
    exact h.wellFormed
  · rw [hdocument]
    exact h.unmarked

theorem follows_kept (h : Steady c) (hkept : Kept c.document c.components c.blocks c') :
    Follows c c' := by
  obtain ⟨hdocument, hcomponents, hblocks, hcalm, count, hpaced⟩ := hkept
  refine ⟨⟨?_, hcalm, fun name => (hpaced name).1, ?_, ?_⟩, hcomponents, hblocks⟩
  · rw [hcomponents]
    exact h.setupFree
  · rw [hdocument]
    exact h.wellFormed
  · rw [hdocument]
    exact h.unmarked

theorem follows_document (h : Steady c) {d : Document} (hd : d.WellFormed)
    (hunmarked : d.attribute? Document.root rootAttribute = none) :
    Follows c { c with document := d } :=
  ⟨⟨h.setupFree, h.calm.congr rfl rfl, h.canonical, hd, hunmarked⟩, rfl, rfl⟩

end Steady

/-- The client when it begins to render an instance again. -/
def startPass (c : Client) (key : String) (root : NodeId) : Client :=
  let c := c.modifyInstance key fun i => { i with root := some root }
  { c with registry := c.registry.resetCursors }

theorem Steady.paced_startPass (h : Steady c) (key : String) (root : NodeId) :
    (c.startPass key root).registry.Paced fun _ => 0 := by
  have hsame := sameButInstances_modifyInstance c key fun i => { i with root := some root }
  show (c.modifyInstance key _).registry.resetCursors.Paced _
  rw [hsame.registry]
  exact Registry.paced_resetCursors h.canonical

theorem Steady.kept_startPass (h : Steady c) (key : String) (root : NodeId) :
    Kept c.document c.components c.blocks (c.startPass key root) := by
  have hsame := sameButInstances_modifyInstance c key fun i => { i with root := some root }
  refine ⟨hsame.document, hsame.components, hsame.blocks, ?_, _, h.paced_startPass key root⟩
  exact (h.calm.retouch key fun _ => rfl).congr rfl rfl

/-- The root of an instance shows what the instance is rendered to; an instance without a root shows
nothing. -/
def UpToDate (budget : Nat) (c : Client) (key : String) : Prop :=
  ∀ i root, c.instance? key = some i → c.findRoot i = some root →
    ∃ html c', ExceptT.run (renderInstance budget (renderChild budget maxDepth) i)
        (c.startPass key root) = some (.ok html, c') ∧ c.document.Shows root html

/-! ## Updates -/

theorem run_modify_bind {α : Type} (f : Client → Client) (g : PUnit → Attempt α) (c : Client) :
    ExceptT.run (modify f >>= g) c = ExceptT.run (g ⟨⟩) (f c) := rfl

/-- Puts markup in the place of a root, between the hooks of an update. -/
def exchange (budget : Nat) (key : String) (root : NodeId) (html : String) : Attempt Unit := do
  fire budget key .beforeUpdate
  modify (place key root html)
  fire budget key .updated

/-- What an update does with an instance in the document. -/
def refresh (budget : Nat) (key : String) (i : Instance) (root : NodeId) : Attempt Unit := do
  modify fun c => { c with registry := c.registry.resetCursors }
  let html ← renderInstance budget (renderChild budget maxDepth) i
  exchange budget key root html

theorem run_updateComponent (budget : Nat) (key : String) (c : Client) :
    ExceptT.run (updateComponent budget key) c =
      match c.instance? key, (c.mountedRoot key).1 with
      | some i, some root => ExceptT.run (refresh budget key i root) (c.mountedRoot key).2
      | _, _ => some (.ok (), (c.mountedRoot key).2) := by
  show ExceptT.run (match c.instance? key, (c.mountedRoot key).1 with
    | some i, some root => refresh budget key i root
    | _, _ => pure ()) (c.mountedRoot key).2 = _
  split <;> rfl

theorem mountedRoot_of_instance? (h : c.instance? key = some i) : c.mountedRoot key =
    (c.findRoot i, c.modifyInstance key fun j => { j with root := c.findRoot i }) := by
  rw [mountedRoot, h]

/-- An instance that is not in the document is passed over. -/
theorem run_updateComponent_of_unseen (h : Steady c)
    (hunseen : ∀ i root, c.instance? key = some i → c.findRoot i ≠ some root) (budget : Nat) :
    ∃ c', ExceptT.run (updateComponent budget key) c = some (.ok (), c') ∧ Follows c c' ∧
      c'.document = c.document := by
  rw [run_updateComponent]
  cases hi : c.instance? key with
  | none =>
      refine ⟨c, ?_, ⟨h, rfl, rfl⟩, rfl⟩
      rw [mountedRoot, hi]
  | some i =>
      have hroot : c.findRoot i = none := Option.eq_none_iff_forall_ne_some.mpr fun r => hunseen i r hi
      have hsame := sameButInstances_modifyInstance c key fun j => { j with root := none }
      rw [mountedRoot_of_instance? hi, hroot]
      exact ⟨_, rfl, h.follows_same hsame (h.calm.retouch key fun _ => rfl), hsame.document⟩

/-- Placing markup keeps a client steady, and logs no change of the tree exactly when the root shows
the markup already. -/
theorem follows_place (h : Steady c)
    (hroot : (c.document.attribute? root rootAttribute).isSome) (key html : String) :
    Follows c (place key root html c) ∧
      ((place key root html c).document.treeLog = c.document.treeLog ↔
        c.document.Shows root html) := by
  obtain ⟨value, hvalue⟩ := Option.isSome_iff_exists.mp hroot
  have hlive := Document.live_of_attribute? hvalue
  have hne : root ≠ Document.root := by
    rintro rfl
    simp [h.unmarked] at hvalue
  -- what is left of the markup: a document with the element in place of the root, or the same one
  have hplace : ∃ (placed : NodeId) (document : Document), place key root html c =
      { c with document := document.syncProperties placed }.modifyInstance key (fun i =>
        { i with root := some placed }) ∧
      document.WellFormed ∧ document.attribute? Document.root rootAttribute = none ∧
      (document.treeLog = c.document.treeLog ↔ c.document.Shows root html) := by
    unfold place Document.Shows
    dsimp only
    cases hfirst : (Document.parse html).firstElementChild? Document.root with
    | none => exact ⟨_, _, rfl, h.wellFormed, h.unmarked, by simp⟩
    | some new =>
        have hnew := Document.live_of_firstElementChild? hfirst
        have hparsed := Document.wellFormed_parse html
        have hkind := (Document.outside_reconcile h.wellFormed hparsed hlive hne hnew
          h.wellFormed.root_live (h.wellFormed.root_not_under hne)).1
        refine ⟨_, _, rfl, ?_, ?_, ?_⟩
        · exact Document.wellFormed_reconcile h.wellFormed hparsed hlive hne hnew
        · rw [Document.attribute?, Document.element?, hkind]
          exact h.unmarked
        · rw [Document.treeLog_reconcile h.wellFormed hparsed hlive hne hnew]
          simp
  obtain ⟨placed, document, heq, hwell, hunmarked, hquiet⟩ := hplace
  -- live properties follow, which is no change of the tree
  have hsynced := Document.synced_syncProperties document placed
  rw [heq, ← hquiet, ← hsynced.treeLog]
  generalize document.syncProperties placed = d at hsynced
  have hfollows : Follows c { c with document := d } :=
    h.follows_document (hsynced.sameTree.wellFormed hwell)
      ((hsynced.sameTree.attribute? ..).trans hunmarked)
  have hsame := sameButInstances_modifyInstance { c with document := d } key fun i =>
    { i with root := some placed }
  refine ⟨hfollows.trans (hfollows.steady.follows_same hsame ?_), ?_⟩
  · exact hfollows.steady.calm.retouch key fun _ => rfl
  · rw [hsame.document]

theorem run_exchange (h : Steady c)
    (hroot : (c.document.attribute? root rootAttribute).isSome) (budget : Nat) (key html : String) :
    ExceptT.run (exchange budget key root html) c = some (.ok (), place key root html c) := by
  unfold exchange
  rw [run_bind, run_lift, h.calm.fire]
  dsimp only [Option.map_some]
  rw [run_modify_bind, run_lift, (follows_place h hroot key html).1.steady.calm.fire]
  rfl

/-- An update of an instance in the document renders it and exchanges the markup. -/
theorem run_updateComponent_of_mounted (hi : c.instance? key = some i)
    (hroot : c.findRoot i = some root) (budget : Nat) :
    ExceptT.run (updateComponent budget key) c =
      match ExceptT.run (renderInstance budget (renderChild budget maxDepth) i)
        (c.startPass key root) with
      | none => none
      | some (.ok html, c₁) => ExceptT.run (exchange budget key root html) c₁
      | some (.error e, c₁) => some (.error e, c₁) := by
  rw [run_updateComponent, hi, mountedRoot_of_instance? hi, hroot]
  show ExceptT.run (renderInstance budget (renderChild budget maxDepth) i >>=
    exchange budget key root) (c.startPass key root) = _
  rw [run_bind]
  rcases ExceptT.run (renderInstance budget (renderChild budget maxDepth) i)
    (c.startPass key root) with _ | ⟨_ | _, _⟩ <;> rfl

/-- An update of an instance in the document comes out as its render does. -/
theorem run_updateComponent_of_seen (h : Steady c) (hi : c.instance? key = some i)
    (hroot : c.findRoot i = some root) (budget : Nat) :
    match ExceptT.run (renderInstance budget (renderChild budget maxDepth) i)
        (c.startPass key root) with
    | none => ExceptT.run (updateComponent budget key) c = none
    | some (.error e, _) =>
      ∃ c', ExceptT.run (updateComponent budget key) c = some (.error e, c') ∧ Follows c c'
    | some (.ok html, _) =>
      ∃ c', ExceptT.run (updateComponent budget key) c = some (.ok (), c') ∧ Follows c c' ∧
        (c'.document.treeLog = c.document.treeLog ↔ c.document.Shows root html) := by
  have hkept := keeping_renderInstance budget (fun _ store hc => hc.withStore store)
    (kept_renderChild h.setupFree budget maxDepth) i (h.kept_startPass key root)
  rw [run_updateComponent_of_mounted hi hroot]
  -- by how the render ends: out of budget, with an error, or with markup to exchange
  revert hkept
  rcases ExceptT.run (renderInstance budget (renderChild budget maxDepth) i)
    (c.startPass key root) with _ | ⟨e | html, c₁⟩
  · exact fun _ => rfl
  · exact fun hkept => ⟨c₁, rfl, h.follows_kept hkept.2⟩
  · rintro ⟨-, -, -, hkept⟩
    have hmarked : (c₁.document.attribute? root rootAttribute).isSome := by
      rw [hkept.document, attribute?_of_findRoot hroot]
      rfl
    have hfollows := h.follows_kept hkept
    obtain ⟨hplaced, hquiet⟩ := follows_place hfollows.steady hmarked key html
    rw [hkept.document] at hquiet
    have hdone := run_exchange hfollows.steady hmarked budget key html
    exact ⟨_, hdone, hfollows.trans hplaced, hquiet⟩

/-- An update succeeds and logs no change of the tree exactly when the instance is up to date. -/
theorem quiet_updateComponent (h : Steady c) (budget : Nat) (key : String) :
    (∃ c', ExceptT.run (updateComponent budget key) c = some (.ok (), c') ∧
      c'.document.treeLog = c.document.treeLog) ↔ UpToDate budget c key := by
  by_cases hseen : ∃ i root, c.instance? key = some i ∧ c.findRoot i = some root
  · obtain ⟨i, root, hi, hroot⟩ := hseen
    -- the condition is about this instance and this root alone
    have hup : UpToDate budget c key ↔ ∃ html c',
        ExceptT.run (renderInstance budget (renderChild budget maxDepth) i) (c.startPass key root) =
          some (.ok html, c') ∧ c.document.Shows root html := by
      refine ⟨fun hup => hup i root hi hroot, fun hshown j r hj hr => ?_⟩
      obtain rfl := Option.some.inj (hi.symm.trans hj)
      obtain rfl := Option.some.inj (hroot.symm.trans hr)
      exact hshown
    have hrun := run_updateComponent_of_seen h hi hroot budget
    rw [hup]
    revert hrun
    rcases ExceptT.run (renderInstance budget (renderChild budget maxDepth) i)
      (c.startPass key root) with _ | ⟨e | html, c₁⟩
    · intro hrun
      simp [hrun]
    · rintro ⟨c', hrun, -⟩
      simp [hrun]
    · rintro ⟨c', hrun, -, hquiet⟩
      simp [hrun, hquiet]
  · have hunseen : ∀ i root, c.instance? key = some i → c.findRoot i ≠ some root :=
      fun i root hi hroot => hseen ⟨i, root, hi, hroot⟩
    obtain ⟨c', hrun, -, hdocument⟩ := run_updateComponent_of_unseen h hunseen budget
    constructor
    · exact fun _ i root hi hroot => absurd hroot (hunseen i root hi)
    · exact fun _ => ⟨c', hrun, by rw [hdocument]⟩

/-! ## Runs of updates -/

/-- A client that comes out of another by updates, whether they succeed or not. -/
inductive UpdatedFrom (budget : Nat) (c : Client) : Client → Prop
  | start : UpdatedFrom budget c c
  | update {c₁ c₂ : Client} (key : String) (outcome : Except ClientError Unit) :
      UpdatedFrom budget c c₁ →
      ExceptT.run (updateComponent budget key) c₁ = some (outcome, c₂) → UpdatedFrom budget c c₂

theorem Steady.follows_update (h : Steady c) {outcome : Except ClientError Unit}
    (hrun : ExceptT.run (updateComponent budget key) c = some (outcome, c')) : Follows c c' := by
  by_cases hseen : ∃ i root, c.instance? key = some i ∧ c.findRoot i = some root
  · obtain ⟨i, root, hi, hroot⟩ := hseen
    have hrun' := run_updateComponent_of_seen h hi hroot budget
    revert hrun'
    rcases ExceptT.run (renderInstance budget (renderChild budget maxDepth) i)
      (c.startPass key root) with _ | ⟨e | html, c₁⟩
    · exact fun hrun' => absurd (hrun.symm.trans hrun') (by simp)
    · rintro ⟨c₂, hrun', hfollows⟩
      obtain ⟨-, rfl⟩ := Prod.mk.inj (Option.some.inj (hrun'.symm.trans hrun))
      exact hfollows
    · rintro ⟨c₂, hrun', hfollows, -⟩
      obtain ⟨-, rfl⟩ := Prod.mk.inj (Option.some.inj (hrun'.symm.trans hrun))
      exact hfollows
  · have hunseen : ∀ i root, c.instance? key = some i → c.findRoot i ≠ some root :=
      fun i root hi hroot => hseen ⟨i, root, hi, hroot⟩
    obtain ⟨c₁, hrun', hfollows, -⟩ := run_updateComponent_of_unseen h hunseen budget
    obtain ⟨-, rfl⟩ := Prod.mk.inj (Option.some.inj (hrun'.symm.trans hrun))
    exact hfollows

theorem Steady.follows_updatedFrom (h : Steady c) (hupdated : UpdatedFrom budget c c') :
    Follows c c' := by
  induction hupdated with
  | start => exact ⟨h, rfl, rfl⟩
  | update key outcome _ hrun ih => exact ih.trans (ih.steady.follows_update hrun)

end Client

/-! ## What an engine renders -/

/-- Renders a component on its own: nothing has been recorded, so the occurrences in it are numbered
from the start. -/
def Engine.renderAlone (e : Engine) (budget : Nat) (t : Template) (key : String) (props : Value)
    (store : Store) : Option (Rendered × PageState) :=
  t.program.execute
    (e.site.occurrenceCall budget (e.site.renderChild budget Engine.maxDepth) key true
      (.object store.fresh.1 props.fields)) ⟨e.cache, .empty, store.fresh.2⟩

/-- The root of an instance shows what an engine renders for the instance on its own. -/
def Engine.ShowsAlone (e : Engine) (budget : Nat) (c : Client) (key : String) : Prop :=
  ∀ i root, c.instance? key = some i → c.findRoot i = some root →
    ∃ html s, e.renderAlone budget i.component.template key i.props c.store = some (.ok html, s) ∧
      c.document.Shows root html

/-- An instance is rendered to what an engine renders for it on its own. -/
theorem Client.upToDate_iff_showsAlone {e : Engine} {c : Client} (h : c.Steady)
    (hs : Shared e.site e.cache c.components c.blocks) (budget : Nat) (key : String) :
    UpToDate budget c key ↔ e.ShowsAlone budget c key := by
  refine forall_congr' fun i => forall_congr' fun root => imp_congr_right fun hi =>
    imp_congr_right fun hroot => ?_
  -- the instance has the template that the engine has for its component
  have hcalm := h.calm key i hi
  obtain ⟨name, hget, -⟩ := hcalm.registered
  obtain ⟨t, ht, hcomponent⟩ := Option.map_eq_some_iff.mp ((hs.registered name).symm.trans hget)
  have hkept := h.kept_startPass key root
  have hm : Mirrors e.cache c.document c.components c.blocks ⟨e.cache, .empty, c.store⟩
      (c.startPass key root) := by
    have hsame := sameButInstances_modifyInstance c key fun i => { i with root := some root }
    exact ⟨hsame.store.symm, rfl, fun name => Numbered.empty name, h.paced_startPass key root,
      hkept.document, hkept.components, hkept.blocks, hkept.calm⟩
  have hrender : AgreeAt (fun _ => True) (mirror e.cache c.document c.components c.blocks)
      (e.renderAlone budget t key i.props c.store)
      (ExceptT.run (renderInstance budget (renderChild budget maxDepth) i)
        (c.startPass key root)) :=
    agree_renderInstance hs (agree_renderChild hs maxDepth) ht hcalm (by rw [← hcomponent]) hm budget
  rw [← hcomponent]
  obtain ⟨hx, hy⟩ | ⟨f, s, f', c₁, hx, hy, -⟩ | ⟨html, s, c₁, hx, hy, -⟩ := hrender.cases
  · simp [hx, hy]
  · simp [hx, hy]
  · simp [hx, hy]

end LiveMarkup
