import LiveMarkup.Proofs.Render.Programs
import LiveMarkup.Reactive.Native
set_option autoImplicit false

/-! # Escaped output

A program whose interpolations are all escaped, and that calls no block and no component, shows its
own texts and escaped values. Where the data and the recorded props hold no markup and no function,
no expression makes any, so nothing that is shown for a value can be read as markup
(`Program.assembled_of_escaping`). -/

namespace LiveMarkup

/-! ## Inert text -/

namespace Text

/-- How the references that escaping makes go on behind the ampersand. -/
def escapes : List String := ["amp;", "lt;", "gt;", "quot;", "#39;"]

/-- The characters that end or open tags and attribute values. -/
def delimiters : List Char := ['<', '>', '"', '\'']

/-- Characters that markup reads as text: none is a delimiter, and an ampersand only starts a
reference that escaping makes. -/
structure InertChars (cs : List Char) : Prop where
  plain : ∀ c ∈ cs, c ∉ delimiters
  reference : ∀ before after, cs = before ++ '&' :: after → ∃ name ∈ escapes, name.toList <+: after

def Inert (s : String) : Prop := InertChars s.toList

theorem inertChars_nil : InertChars [] := ⟨by simp, by simp⟩

theorem InertChars.append {cs ds : List Char} (hcs : InertChars cs) (hds : InertChars ds) :
    InertChars (cs ++ ds) where
  plain := by
    intro c hc
    rcases List.mem_append.mp hc with hc | hc
    · exact hcs.plain c hc
    · exact hds.plain c hc
  reference := by
    intro before after hsplit
    rcases List.append_eq_append_iff.mp hsplit with ⟨mid, hbefore, hds'⟩ | ⟨mid, hcs', hafter⟩
    · exact hds.reference mid after hds'
    · cases mid with
      | nil => exact hds.reference [] after hafter.symm
      | cons c rest =>
          obtain ⟨rfl, rfl⟩ := List.cons_eq_cons.mp hafter
          obtain ⟨name, hname, hstarts⟩ := hcs.reference before rest hcs'
          exact ⟨name, hname, hstarts.trans (List.prefix_append rest ds)⟩

/-- A reference that escaping makes is inert. -/
theorem inertChars_reference {name : String} (hname : name ∈ escapes) :
    InertChars ('&' :: name.toList) := by
  have hquiet : escapes.all (fun name => name.toList.all fun c => c ∉ delimiters ∧ c ≠ '&') := by
    decide +kernel
  simp only [List.all_eq_true, decide_eq_true_eq] at hquiet
  refine ⟨?_, ?_⟩
  · intro c hc
    rcases List.mem_cons.mp hc with rfl | hc
    · decide
    · exact (hquiet name hname c hc).1
  · intro before after hsplit
    cases before with
    | nil =>
        obtain ⟨-, rfl⟩ := List.cons_eq_cons.mp hsplit
        exact ⟨name, hname, List.prefix_refl _⟩
    | cons c rest =>
        obtain ⟨-, hrest⟩ := List.cons_eq_cons.mp hsplit
        have hmem : '&' ∈ name.toList := by
          rw [hrest]
          exact List.mem_append_right _ List.mem_cons_self
        exact absurd rfl (hquiet name hname _ hmem).2

theorem inertChars_escapedChar (c : Char) : InertChars (escapedChar c) := by
  have hreference : ∀ name ∈ escapes, InertChars ('&' :: name.toList) :=
    fun name hname => inertChars_reference hname
  unfold escapedChar
  split
  · exact hreference "amp;" (by decide)
  split
  · exact hreference "lt;" (by decide)
  split
  · exact hreference "gt;" (by decide)
  split
  · exact hreference "quot;" (by decide)
  split
  · exact hreference "#39;" (by decide)
  -- any other character stands for itself
  · refine ⟨?_, ?_⟩
    · intro d hd
      obtain rfl := List.mem_singleton.mp hd
      simp [delimiters, *]
    · intro before after hsplit
      have hmem : '&' ∈ [c] := by
        rw [hsplit]
        exact List.mem_append_right _ List.mem_cons_self
      exact absurd (List.mem_singleton.mp hmem).symm ‹c ≠ '&'›

theorem inert_escapeMarkup (s : String) : Inert (escapeMarkup s) := by
  have hflat : ∀ cs : List Char, InertChars (cs.flatMap escapedChar) := by
    intro cs
    induction cs with
    | nil => exact inertChars_nil
    | cons c rest ih =>
        rw [List.flatMap_cons]
        exact (inertChars_escapedChar c).append ih
  unfold Inert escapeMarkup
  rw [String.toList_ofList]
  exact hflat s.toList

end Text

/-! ## Values without markup -/

namespace Value

/-- A value that holds no markup and no function at any depth. -/
inductive Unmarked : Value → Prop
  | null : Unmarked .null
  | bool (b : Bool) : Unmarked (.bool b)
  | int (n : Int64) : Unmarked (.int n)
  | float (x : Float) : Unmarked (.float x)
  | str (s : String) : Unmarked (.str s)
  | array {i : Ident} {items : List Value} : (∀ v ∈ items, Unmarked v) → Unmarked (.array i items)
  | object {i : Ident} {fields : Table Value} : (∀ e ∈ fields, Unmarked e.2) →
      Unmarked (.object i fields)

theorem hereditary_unmarked : Hereditary Unmarked where
  null := .null
  bool := .bool
  int := .int
  float := .float
  str := .str
  array := fun i items => ⟨fun h => by cases h; assumption, .array⟩
  object := by
    intro i fields h
    refine .object fun e he => ?_
    rcases Table.mem_extend he with he | he
    · exact h e he
    · exact absurd he List.not_mem_nil
  fields := fun i fields h => by cases h; assumption

/-- What is shown for a value without markup is inert. -/
theorem Unmarked.inert_safe {v : Value} (h : v.Unmarked) : Text.Inert v.safe := by
  cases h with
  | null => exact Text.inertChars_nil
  | bool b =>
      cases b with
      | false => exact Text.inertChars_nil
      | true => exact Text.inert_escapeMarkup _
  | int n => exact Text.inert_escapeMarkup _
  | float x => exact Text.inert_escapeMarkup _
  | str s => exact Text.inert_escapeMarkup _
  | array _ => exact Text.inert_escapeMarkup _
  | object _ => exact Text.inert_escapeMarkup _

end Value

/-! ## Programs that escape -/

/-- A node that shows nothing but text and escaped values, itself. -/
def Node.Escaping : Node → Prop
  | .text _ | .choose _ _ | .loop _ _ _ _ | .code _ _ => True
  | .interpolate _ escape _ => escape = true
  | .block _ _ _ | .component _ _ _ => False

/-- Output put together from texts of a kind and inert text. -/
def Assembled (own : String → Prop) (out : String) : Prop :=
  ∃ chunks : List String, out = String.join chunks ∧ ∀ s ∈ chunks, own s ∨ Text.Inert s

theorem assembled_empty (own : String → Prop) : Assembled own "" :=
  ⟨[], rfl, fun _ hs => absurd hs List.not_mem_nil⟩

theorem Assembled.append {own : String → Prop} {out s : String} (h : Assembled own out)
    (hs : own s ∨ Text.Inert s) : Assembled own (out ++ s) := by
  obtain ⟨chunks, rfl, hchunks⟩ := h
  refine ⟨chunks ++ [s], ?_, ?_⟩
  · simp [String.join_append]
  · intro t ht
    rcases List.mem_append.mp ht with ht | ht
    · exact hchunks t ht
    · exact List.mem_singleton.mp ht ▸ hs

/-- What the arguments of a render hold: neither the data nor the recorded props have markup. -/
structure RenderCall.Unmarked {σ : Type} (c : RenderCall σ) : Prop where
  data : c.data.Unmarked
  hostProps : ∀ props, c.hostProps = some props →
    ∀ world v world', props.start world = some (.ok v, world') → v.Unmarked

section

variable {σ : Type} {c : RenderCall σ} {own : String → Prop}

/-- A machine whose output is assembled and whose scopes bind values without markup. -/
structure Machine.Harmless (own : String → Prop) (m : Machine σ) : Prop where
  within : m.env.Within Value.Unmarked
  out : Assembled own m.out

/-- A step that keeps machines harmless, with results of a class. -/
abbrev Exec.Harmless {α : Type} (own : String → Prop) (P : α → Prop) (x : Exec σ α) : Prop :=
  Agree P (Bridge.keeping (Machine.Harmless own)) x x

/-! ## Steps -/

theorem agree_self {α : Type} {P : α → Prop} (x : Run σ α)
    (h : ∀ world a world', x.start world = some (.ok a, world') → P a) :
    Agree P (Bridge.keeping fun _ => True) x x := by
  rintro world _ ⟨rfl, -⟩
  cases hrun : ExceptT.run x world with
  | none => trivial
  | some outcome =>
      obtain ⟨e | a, world'⟩ := outcome
      · exact ⟨rfl, trivial⟩
      · exact ⟨rfl, h world a world' hrun, rfl, trivial⟩

/-- Expressions have values without markup: there is no function that one could call. -/
theorem RenderCall.Unmarked.eval (hc : c.Unmarked) {env : Environment}
    (henv : env.Within Value.Unmarked) (e : Expr) :
    Agree Value.Unmarked (Bridge.keeping fun _ : σ => True) (e.eval c env) (e.eval c env) := by
  have hcalls : CallsAgree Value.Unmarked (Bridge.keeping fun _ : σ => True) (fun _ => True) c c :=
    { services :=
        { fresh := fun s t hst => hst.1 ▸ ⟨rfl, rfl, trivial⟩
          call := fun f args hf => nomatch hf }
      data := rfl
      dataWithin := hc.data
      instanceKey := rfl
      visible := rfl
      block := fun _ _ _ => agree_self _ fun _ _ _ _ => trivial
      child := fun _ _ _ _ _ => agree_self _ fun _ _ _ _ => trivial }
  refine hcalls.eval Value.hereditary_unmarked henv e fun _ => ⟨rfl, ?_⟩
  cases hprops : c.hostProps with
  | none => trivial
  | some props => exact agree_self props (hc.hostProps props hprops)

theorem harmless_update {f : Machine σ → Machine σ} (h : ∀ m, m.Harmless own → (f m).Harmless own) :
    Exec.Harmless own (fun _ => True) (Exec.update f) := by
  rintro m _ ⟨rfl, hm⟩
  exact ⟨rfl, trivial, rfl, h m hm⟩

theorem harmless_failed {α : Type} {P : α → Prop} (e : EvalError) :
    Exec.Harmless own P (Exec.failed e : Exec σ α) :=
  fun _ _ hm => hm

theorem harmless_atLine (line : Nat) :
    Exec.Harmless own (fun _ => True) (Exec.atLine line : Exec σ Unit) :=
  harmless_update fun _ hm => ⟨hm.within, hm.out⟩

theorem harmless_write {s : String} (hs : own s ∨ Text.Inert s) :
    Exec.Harmless own (fun _ => True) (Exec.write s : Exec σ Unit) :=
  harmless_update fun _ hm => ⟨hm.within, hm.out.append hs⟩

theorem harmless_define (name : String) {v : Value} (hv : v.Unmarked) :
    Exec.Harmless own (fun _ => True) (Exec.define name v : Exec σ Unit) :=
  harmless_update fun _ hm => ⟨hm.within.define hv, hm.out⟩

theorem harmless_inScope {x : Exec σ Unit} (hx : Exec.Harmless own (fun _ => True) x) :
    Exec.Harmless own (fun _ => True) (Exec.inScope x) := by
  rintro m _ ⟨rfl, hm⟩
  have hinner := hx { m with env := m.env.push } _ ⟨rfl, hm.within.push, hm.out⟩
  show AgreeAt _ _ ((ExceptT.run x _).map _) ((ExceptT.run x _).map _)
  refine hinner.map ?_ ?_
  · rintro _ m' _ _ ⟨rfl, hm'⟩
    exact ⟨rfl, hm'.within.pop, hm'.out⟩
  · rintro _ m' _ _ ⟨rfl, hm'⟩
    exact ⟨rfl, trivial, rfl, hm'.within.pop, hm'.out⟩

namespace RenderCall.Unmarked

theorem harmless_eval (hc : c.Unmarked) (e : Expr) :
    Exec.Harmless own Value.Unmarked (Exec.eval c e) := by
  rintro m _ ⟨rfl, hm⟩
  have heval := hc.eval hm.within e m.world _ ⟨rfl, trivial⟩
  show AgreeAt _ _ ((ExceptT.run (e.eval c m.env) m.world).map _)
    ((ExceptT.run (e.eval c m.env) m.world).map _)
  refine heval.map ?_ ?_
  · rintro _ world _ _ ⟨rfl, -⟩
    exact ⟨rfl, hm.within, hm.out⟩
  · rintro v world _ hv ⟨rfl, -⟩
    exact ⟨rfl, hv, rfl, hm.within, hm.out⟩

theorem harmless_stmts (hc : c.Unmarked) (stmts : List Stmt) :
    Exec.Harmless own (fun _ => True) (Stmt.execAll c stmts) := by
  have hstmt : ∀ s : Stmt, Exec.Harmless own (fun _ => True) (s.exec c) := by
    intro s
    cases s with
    | declare name value =>
        exact (hc.harmless_eval value).bind fun v hv => harmless_define name hv
    | assign name value =>
        refine (hc.harmless_eval value).bind fun v hv => ?_
        refine Agree.get_bind ?_
        rintro m _ ⟨rfl, hm⟩
        cases hassign : m.env.assign? name v with
        | none => exact ⟨rfl, hm⟩
        | some env => exact ⟨rfl, trivial, rfl, hm.within.assign hv hassign, hm.out⟩
  induction stmts with
  | nil => exact Agree.pure trivial
  | cons s rest ih => exact (hstmt s).bind fun _ _ => ih

theorem harmless_forPairs (binding : LoopBinding) (line : Nat) {body : Exec σ Unit}
    (hbody : Exec.Harmless own (fun _ => True) body) (pairs : List (Value × Value))
    (hpairs : ∀ e ∈ pairs, e.1.Unmarked ∧ e.2.Unmarked) :
    Exec.Harmless own (fun _ => True) (Exec.forPairs binding line body pairs) := by
  induction pairs with
  | nil => exact Agree.pure trivial
  | cons pair rest ih =>
      obtain ⟨key, value⟩ := pair
      obtain ⟨hkey, hvalue⟩ := hpairs (key, value) List.mem_cons_self
      have hrest := ih fun e he => hpairs e (List.mem_cons_of_mem _ he)
      have hinner : Exec.Harmless own (fun _ => True)
          (do Exec.define binding.value value; body) :=
        (harmless_define binding.value hvalue).bind fun _ _ => hbody
      refine Agree.bind (P := fun _ => True) (harmless_inScope ?_) fun _ _ =>
        (harmless_atLine line).bind fun _ _ => hrest
      cases binding.key with
      | none => exact hinner
      | some name => exact (harmless_define name hkey).bind fun _ _ => hinner

/-! ## Nodes -/

mutual

theorem harmless_node (hc : c.Unmarked) :
    ∀ n : Node, (∀ inner ∈ n.walk, inner.Escaping) →
      (∀ s, Node.text s ∈ n.walk → own s) → Exec.Harmless own (fun _ => True) (n.exec c)
  | .text s, _, hown => harmless_write (.inl (hown s List.mem_cons_self))
  | .interpolate e escape line, hn, _ => by
      obtain rfl : escape = true := hn _ List.mem_cons_self
      refine (harmless_atLine line).bind fun _ _ => ?_
      refine (hc.harmless_eval e).bind fun v hv => ?_
      exact harmless_write (.inr hv.inert_safe)
  | .choose arms none, hn, hown => by
      have hin : ∀ inner ∈ Node.walkArms arms, inner ∈ (Node.choose arms none).walk := by
        intro inner hmem
        simp only [Node.walk, List.mem_cons, List.mem_append]
        exact .inr (.inl hmem)
      exact harmless_arms hc arms (fun inner hmem => hn inner (hin inner hmem))
        (fun s hmem => hown s (hin _ hmem)) (Agree.pure trivial)
  | .choose arms (some body), hn, hown => by
      have harms : ∀ inner ∈ Node.walkArms arms, inner ∈ (Node.choose arms (some body)).walk := by
        intro inner hmem
        simp only [Node.walk, List.mem_cons, List.mem_append]
        exact .inr (.inl hmem)
      have hbody : ∀ inner ∈ Node.walkAll body, inner ∈ (Node.choose arms (some body)).walk := by
        intro inner hmem
        simp only [Node.walk, List.mem_cons, List.mem_append]
        exact .inr (.inr hmem)
      refine harmless_arms hc arms (fun inner hmem => hn inner (harms inner hmem))
        (fun s hmem => hown s (harms _ hmem)) (harmless_inScope ?_)
      exact harmless_nodes hc body (fun inner hmem => hn inner (hbody inner hmem))
        (fun s hmem => hown s (hbody _ hmem))
  | .loop binding subject body line, hn, hown => by
      refine (harmless_atLine line).bind fun _ _ => ?_
      refine (hc.harmless_eval subject).bind fun v hv => ?_
      cases hpairs : v.loopPairs? with
      | none => exact harmless_failed _
      | some pairs =>
          refine harmless_forPairs binding line ?_ pairs
            (Value.hereditary_unmarked.loopPairs hv hpairs)
          exact harmless_nodes hc body (fun inner hmem => hn inner (List.mem_cons_of_mem _ hmem))
            (fun s hmem => hown s (List.mem_cons_of_mem _ hmem))
  | .block _ _ _, hn, _ => (hn _ List.mem_cons_self).elim
  | .component _ _ _, hn, _ => (hn _ List.mem_cons_self).elim
  | .code stmts line, _, _ => (harmless_atLine line).bind fun _ _ => hc.harmless_stmts stmts

theorem harmless_nodes (hc : c.Unmarked) :
    ∀ nodes : List Node, (∀ inner ∈ Node.walkAll nodes, inner.Escaping) →
      (∀ s, Node.text s ∈ Node.walkAll nodes → own s) →
      Exec.Harmless own (fun _ => True) (Node.execAll c nodes)
  | [], _, _ => Agree.pure trivial
  | n :: rest, hnodes, hown => by
      refine (harmless_node hc n (fun inner hmem => hnodes inner (List.mem_append_left _ hmem))
        (fun s hmem => hown s (List.mem_append_left _ hmem))).bind fun _ _ => ?_
      exact harmless_nodes hc rest (fun inner hmem => hnodes inner (List.mem_append_right _ hmem))
        (fun s hmem => hown s (List.mem_append_right _ hmem))

theorem harmless_arms (hc : c.Unmarked) {otherwise : Exec σ Unit} :
    ∀ arms : List Arm, (∀ inner ∈ Node.walkArms arms, inner.Escaping) →
      (∀ s, Node.text s ∈ Node.walkArms arms → own s) →
      Exec.Harmless own (fun _ => True) otherwise →
      Exec.Harmless own (fun _ => True) (Node.execArms c arms otherwise)
  | [], _, _, hotherwise => hotherwise
  | .arm condition body line :: rest, harms, hown, hotherwise => by
      refine (harmless_atLine line).bind fun _ _ => ?_
      refine (hc.harmless_eval condition).bind fun v _ => ?_
      split
      · refine harmless_inScope (harmless_nodes hc body ?_ ?_)
        · exact fun inner hmem => harms inner (List.mem_append_left _ hmem)
        · exact fun s hmem => hown s (List.mem_append_left _ hmem)
      · refine harmless_arms hc rest ?_ ?_ hotherwise
        · exact fun inner hmem => harms inner (List.mem_append_right _ hmem)
        · exact fun s hmem => hown s (List.mem_append_right _ hmem)

end

end RenderCall.Unmarked

/-- What an escaping program shows is put together from its own texts and inert text, if the data
and the recorded props hold no markup and no function. -/
theorem Program.assembled_of_escaping (p : Program)
    (hp : ∀ n ∈ Node.walkAll p.nodes, n.Escaping) (hc : c.Unmarked) {world world' : σ}
    {out : String} (hrun : p.execute c world = some (.ok out, world')) :
    ∃ chunks : List String, out = String.join chunks ∧
      ∀ s ∈ chunks, Node.text s ∈ Node.walkAll p.nodes ∨ Text.Inert s := by
  have hstart : (Machine.start world).Harmless fun s => Node.text s ∈ Node.walkAll p.nodes :=
    ⟨Environment.within_empty, assembled_empty _⟩
  have hkept := hc.harmless_nodes p.nodes hp (fun _ hs => hs) _ _ ⟨rfl, hstart⟩
  obtain ⟨⟨result, m⟩, hexec, hshown⟩ := Option.map_eq_some_iff.mp hrun
  rw [hexec] at hkept
  cases result with
  | error e => simp at hshown
  | ok _ =>
      obtain ⟨-, -, -, hm⟩ := hkept
      obtain ⟨rfl, -⟩ : m.out = out ∧ m.world = world' := by simpa using hshown
      exact hm.out

/-- Names that are shown inside an attribute. -/
def nameList : Program :=
  ⟨[.text "<ul title=\"",
    .loop ⟨none, "name"⟩ (.node (.ident "names") default)
      [.interpolate (.node (.ident "name") default) true 1] 1,
    .text "\">"]⟩

/-- A name that tries to leave the attribute stays in it. -/
theorem Program.assembled_of_escaping_nameList :
    ∃ out world', nameList.execute
        (RenderCall.plain (Store.host 1)
          (.object (.given 0) [("names", .array (.given 1) [.str "\"><b>"])])) Store.empty =
          some (.ok out, world') ∧
      out = "<ul title=\"&quot;&gt;&lt;b&gt;\">" ∧
      ∃ chunks : List String, out = String.join chunks ∧
        ∀ s ∈ chunks, Node.text s ∈ Node.walkAll nameList.nodes ∨ Text.Inert s := by
  have hp : ∀ n ∈ Node.walkAll nameList.nodes, n.Escaping := by
    simp [nameList, Node.walkAll, Node.walk, Node.Escaping]
  have hc : (RenderCall.plain (Store.host 1)
      (.object (.given 0) [("names", .array (.given 1) [.str "\"><b>"])])).Unmarked := by
    refine ⟨.object ?_, fun _ hprops => nomatch hprops⟩
    simp only [List.forall_mem_singleton]
    exact .array (by simpa using .str _)
  refine ⟨_, _, rfl, by decide +kernel, ?_⟩
  exact Program.assembled_of_escaping nameList hp hc rfl

end

end LiveMarkup
