import LiveMarkup.Proofs.Engine.Caching
import LiveMarkup.Proofs.Reactive.Unwatched
import Mathlib
set_option autoImplicit false

/-! # Renders that end

Components are nested up to a limit, blocks are not: a render ends if no block calls itself, directly
or through others, and does not if it comes to blocks that always call one another
(`Engine.render_ends`). -/

namespace LiveMarkup

/-! ## Calls between blocks -/

namespace Blocks

/-- A block has a call of another one in its template. -/
def Calls (blocks : Blocks) (caller called : String) : Prop :=
  ∃ t, Table.get? caller blocks = some t ∧ called ∈ t.program.blockNames

/-- Calls of a block are nested less deep than a bound. -/
def Nests (blocks : Blocks) : Nat → String → Prop
  | 0, _ => False
  | depth + 1, name => ∀ called, blocks.Calls name called → blocks.Nests depth called

/-- No block calls itself, directly or through others. -/
def Acyclic (blocks : Blocks) : Prop := ∀ name, ¬ Relation.TransGen blocks.Calls name name

variable {blocks : Blocks}

theorem mem_keys_of_calls {caller called : String} (h : blocks.Calls caller called) :
    caller ∈ Table.keys blocks := by
  obtain ⟨t, ht, -⟩ := h
  exact Table.get?_isSome_iff.mp (Option.isSome_of_eq_some ht)

/-- Blocks that lead to a block are distinct, so with as many of them as there are blocks nothing is
left to call. -/
theorem nests_of_path (h : blocks.Acyclic) {path : List String} {name : String} {depth : Nat}
    (hnodup : path.Nodup) (hpath : ∀ before ∈ path, Relation.TransGen blocks.Calls before name)
    (hkeys : path ⊆ Table.keys blocks) (hlength : blocks.length < path.length + depth) :
    blocks.Nests depth name := by
  induction depth generalizing path name with
  | zero =>
      -- the path would have more names than there are blocks
      have hle := (hnodup.subperm hkeys).length_le
      rw [Table.keys, List.length_map] at hle
      omega
  | succ depth ih =>
      -- the caller is not on the path yet, since it would lead to itself
      intro called hcalls
      have hlonger : (name :: path).Nodup :=
        List.nodup_cons.mpr ⟨fun hmem => h name (hpath name hmem), hnodup⟩
      refine ih hlonger ?_ ?_ ?_
      · intro before hbefore
        rcases List.mem_cons.mp hbefore with rfl | hbefore
        · exact .single hcalls
        · exact (hpath before hbefore).tail hcalls
      · exact List.cons_subset.mpr ⟨mem_keys_of_calls hcalls, hkeys⟩
      · rw [List.length_cons]
        omega

/-- Without a circle, calls are nested at most as deep as there are blocks. -/
theorem Acyclic.nests (h : blocks.Acyclic) (name : String) :
    blocks.Nests (blocks.length + 1) name :=
  nests_of_path h List.nodup_nil (by simp) (by simp) (by simp)

section

variable {σ τ : Type} {endless : Prop} {R : σ → τ → Prop} {host : Host σ} {host' : Host τ}

/-- Budgets that calls are not nested deeper than make no difference. -/
theorem tandem_render_of_nests (hhost : ServicesTandem endless R host host') {depth : Nat}
    {name : String} (h : blocks.Nests depth name) {budget budget' : Nat} (hle : depth ≤ budget)
    (hle' : depth ≤ budget') (args : Value) :
    Tandem endless R (render blocks host budget name args) (render blocks host' budget' name args) := by
  induction depth generalizing name budget budget' args with
  | zero => exact h.elim
  | succ depth ih =>
      obtain ⟨budget, rfl⟩ := Nat.exists_eq_succ_of_ne_zero (Nat.ne_zero_of_lt hle)
      obtain ⟨budget', rfl⟩ := Nat.exists_eq_succ_of_ne_zero (Nat.ne_zero_of_lt hle')
      refine Website.tandem_renderWith hhost (fun t ht called hcalled args => ?_) args
      exact ih (h called ⟨t, ht, hcalled⟩) (Nat.le_of_succ_le_succ hle)
        (Nat.le_of_succ_le_succ hle') args

end

/-- What a measure goes down by with every call has no circle. -/
theorem acyclic_of_rank (rank : String → Nat)
    (h : ∀ caller called, blocks.Calls caller called → rank called < rank caller) :
    blocks.Acyclic := by
  have hless : ∀ a b, Relation.TransGen blocks.Calls a b → rank b < rank a := by
    intro a b hpath
    induction hpath with
    | single hcall => exact h _ _ hcall
    | tail _ hcall ih => exact (h _ _ hcall).trans ih
  exact fun name hcircle => Nat.lt_irrefl _ (hless name name hcircle)

end Blocks

/-! ## Blocks that always call one another -/

/-- A program begins with text and then a call of a block. -/
def Program.Opens (p : Program) (name : String) : Prop :=
  ∃ (texts : List String) (span : Span) (line : Nat) (rest : List Node), p.nodes =
    texts.map Node.text ++ .block name (.node (.object []) span) line :: rest

section

variable {σ : Type} {c : RenderCall σ} {called : String}

/-- A call of a block does not end if the block does not. -/
theorem run_block (hblock : ∀ args world, ExceptT.run (c.block called args) world = none)
    (span : Span) (line : Nat) (m : Machine σ) :
    ExceptT.run (Node.exec c (.block called (.node (.object []) span) line)) m = none := by
  show ExceptT.run (Exec.ofRun (c.block called (.object (c.host.fresh m.world).1 [])) >>=
    fun text => Exec.write text) { m with line, world := (c.host.fresh m.world).2 } = none
  have hrun : ∀ (v : Value) (m : Machine σ),
      ExceptT.run (Exec.ofRun (c.block called v)) m = none := by
    intro v m
    show (ExceptT.run (c.block called v) m.world).map _ = none
    rw [hblock]
    rfl
  rw [run_bind, hrun]

/-- A program does not end that begins with a block that does not end. -/
theorem Program.Opens.execute_eq_none {p : Program} (h : p.Opens called)
    (hblock : ∀ args world, ExceptT.run (c.block called args) world = none) (world : σ) :
    p.execute c world = none := by
  have hexec : ∀ (texts : List String) (span : Span) (line : Nat) (rest : List Node)
      (m : Machine σ), ExceptT.run (Node.execAll c (texts.map Node.text ++
        .block called (.node (.object []) span) line :: rest)) m = none := by
    intro texts span line rest
    induction texts with
    | nil =>
        intro m
        show ExceptT.run (Node.exec c (.block called (.node (.object []) span) line) >>= fun _ =>
          Node.execAll c rest) m = none
        rw [run_bind, run_block hblock]
    | cons text texts ih =>
        intro m
        exact ih { m with out := m.out ++ text }
  obtain ⟨texts, span, line, rest, hnodes⟩ := h
  unfold Program.execute
  rw [hnodes, hexec]
  rfl

end

/-- Each block of a class begins with a call of another one of it. -/
def Blocks.Endless (blocks : Blocks) (ring : String → Prop) : Prop :=
  ∀ caller, ring caller → ∃ t called, Table.get? caller blocks = some t ∧ ring called ∧
    t.program.Opens called

/-- Blocks that always call one another exceed every budget. -/
theorem Blocks.Endless.render_eq_none {σ : Type} {blocks : Blocks} {ring : String → Prop}
    (h : blocks.Endless ring) (host : Host σ) (budget : Nat) {name : String} (hname : ring name)
    (args : Value) (world : σ) :
    ExceptT.run (Blocks.render blocks host budget name args) world = none := by
  induction budget generalizing name args world with
  | zero => rfl
  | succ budget ih =>
      obtain ⟨t, called, hget, hcalled, hopens⟩ := h name hname
      unfold Blocks.render Blocks.renderWith
      rw [hget]
      have hrender : ExceptT.run (t.render { RenderCall.plain host args with
          block := Blocks.render blocks host budget }) world = none := by
        show (t.program.execute _ world).map _ = none
        rw [hopens.execute_eq_none fun args world => ih hcalled args world]
        rfl
      rw [run_bind, hrender]

/-! ## Pages -/

namespace Website

/-- Budgets that exceed the number of blocks make no difference, if blocks do not call one another
in a circle. -/
theorem servesTandem_of_acyclic {w : Website} (h : w.blocks.Acyclic)
    (C : TemplateCache → TemplateCache → Prop) (m n : Nat) :
    w.ServesTandem False C Store.Unwatched (w.blocks.length + m + 1)
      (w.blocks.length + n + 1) where
  empty := Store.unwatched_empty
  numbered := fun _ _ hs => hs.congr rfl
  call := fun f args => Store.tandem_call _ _ f args
  childData := fun name key props => tandem_childData _ _ w name key props
  blocks := fun name args => by
    refine Blocks.tandem_render_of_nests ?_ (h.nests name) (by omega) (by omega) args
    exact servicesTandem_pageHost (fun _ _ hs => hs.congr rfl) fun f args =>
      Store.tandem_call _ _ f args

end Website

namespace Engine

open Website

/-- If no block calls itself, directly or through others, a page is rendered to markup or an error,
one and the same within every budget that exceeds the number of blocks, however components refer to
one another. A page that begins with a block of which each begins with another one is not rendered
within any budget. -/
theorem render_ends (e : Engine) :
    (e.site.blocks.Acyclic → ∀ name data, ∃ run, ∀ budget, e.site.blocks.length < budget →
      e.render budget name data = some run) ∧
    ∀ ring, e.site.blocks.Endless ring → ∀ name page e', e.compile name = (.ok page, e') →
      (∃ first, ring first ∧ page.program.Opens first) →
        ∀ budget data, e.render budget name data = none := by
  constructor
  · intro hacyclic name data
    -- any two budgets come to one run, so the least one decides
    have hsame : ∀ m n, ∃ run, e.render (e.site.blocks.length + m + 1) name data = some run ∧
        e.render (e.site.blocks.length + n + 1) name data = some run := by
      intro m n
      obtain ⟨w, cache⟩ := e
      unfold render
      rw [← renderWithHostOr_fail, ← renderWithHostOr_fail]
      obtain ⟨hfalse, -⟩ | ⟨run, run', hrun, hrun', hruns⟩ :=
        tandem_renderWithHostOr (lookupsTandem_refl w) (servesTandem_of_acyclic hacyclic _ m n)
          (fun _ => ⟨rfl, rfl⟩) trivial ⟨rfl, trivial⟩ data
      · exact hfalse.elim
      · rw [hrun, hrun', hruns.eq]
        exact ⟨_, rfl, rfl⟩
    obtain ⟨run, hrun, -⟩ := hsame 0 0
    refine ⟨run, fun budget hless => ?_⟩
    obtain ⟨n, rfl⟩ := Nat.exists_eq_add_of_lt hless
    obtain ⟨run', hfirst, hrun'⟩ := hsame 0 n
    rw [hrun', ← hfirst, hrun]
  · rintro ring hendless name page e' hcompile ⟨first, hfirst, hopens⟩ budget data
    have hsite : e'.site = e.site := by
      rw [← show (e.compile name).2.site = e.site from rfl, hcompile]
    have hexecute : ∀ s, page.program.execute (e'.site.pageCall budget data) s = none := by
      refine hopens.execute_eq_none fun args world => ?_
      rw [hsite]
      exact hendless.render_eq_none _ budget hfirst args world
    unfold render renderWithHost
    rw [hcompile]
    dsimp only
    rw [hexecute]
    rfl

end Engine

/-! ## Nested blocks -/

namespace NestedBlocks

/-- The source of a block or page that calls a block. -/
def calling (block : String) : String := "[$ " ++ block ++ "(\x7b\x7d)]"

def callingTemplate (name block : String) : Template where
  name := name
  source := calling block
  program := ⟨[.block block (.node (.object []) ⟨11, 13⟩) 1]⟩

/-- One block calls another one. -/
def straight : Blocks :=
  [("b.outer", callingTemplate "b.outer" "b.inner"), ("b.inner", ⟨"b.inner", "x", ⟨[.text "x"]⟩⟩)]

/-- One block calls itself. -/
def ring : Blocks := [("b.outer", callingTemplate "b.outer" "b.outer")]

/-- A page that calls the outer block. -/
def engine (blocks : Blocks) : Engine where
  site := ⟨TwoCards.config, [("page", calling "b.outer")], blocks, []⟩
  cache := []

example : Template.build "b.outer" (calling "b.outer") TwoCards.config.delimiters =
    .ok (callingTemplate "b.outer" "b.outer") := by cbv

theorem acyclic_straight : straight.Acyclic := by
  refine Blocks.acyclic_of_rank (fun name => if name = "b.outer" then 1 else 0) ?_
  rintro caller called ⟨t, ht, hcalled⟩
  rcases List.mem_cons.mp (Table.mem_of_get? ht) with hentry | hentry
  · obtain ⟨rfl, rfl⟩ := Prod.mk.inj hentry
    obtain rfl := List.mem_singleton.mp hcalled
    decide
  · obtain ⟨rfl, rfl⟩ := Prod.mk.inj (List.mem_singleton.mp hentry)
    nomatch hcalled

theorem endless_ring : ring.Endless (· = "b.outer") := by
  rintro _ rfl
  exact ⟨_, "b.outer", rfl, rfl, [], _, _, _, rfl⟩

theorem compile_ring : (engine ring).compile "page" = (.ok (callingTemplate "page" "b.outer"),
    ⟨(engine ring).site, [("page", callingTemplate "page" "b.outer")]⟩) := by cbv

end NestedBlocks

namespace Engine

open NestedBlocks

theorem render_ends_straight : ∃ run, ∀ budget, 2 < budget →
    (engine straight).render budget "page" (.object (.given 0) []) = some run :=
  (render_ends (engine straight)).1 acyclic_straight "page" _

/-- A page with a block that calls itself is not rendered within any budget. -/
theorem render_ends_ring :
    ¬ ∃ budget run, (engine ring).render budget "page" (.object (.given 0) []) = some run := by
  rintro ⟨budget, run, hrun⟩
  have hnone := (render_ends (engine ring)).2 _ endless_ring "page" _ _ compile_ring
    ⟨"b.outer", rfl, [], _, _, _, rfl⟩ budget (.object (.given 0) [])
  nomatch hnone.symm.trans hrun

end Engine

end LiveMarkup
