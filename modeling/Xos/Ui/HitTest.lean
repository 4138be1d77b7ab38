import Xos.Graphics.Clip

/-!
# Hit tests and drawing (`user/lib/window/ui`)

Both go down the tree of nodes. `hit_test` looks into all children of a node, while `draw_node` leaves the children
of tabs and scroll containers to the `draw` of these, which draws one of them.
-/
namespace Xos.Ui

open Graphics

/-- The constructors, as far as they differ in what they draw and in the layout of a page of tabs. -/
inductive Kind where
  | root
  | tabs (index : Int)
  | tab
  | scrollContainer
  | other

/-- A node with its children, and with the rest of the list that it is in. -/
inductive Node where
  | null
  | node (id : Nat) (kind : Kind) (visible interactive : Bool) (rect : Rect) (firstChild nextSibling : Node)

/-- The child that `draw` passes to `draw_node`, for nodes with `draws_children`. -/
def Kind.draws : Kind → Option Int
  | .tabs index => some index
  | .scrollContainer => some 0
  | _ => none

/-- `hit_test` of the nodes of a list, up to the first hit. -/
def hitTest (p : Int × Int) : Node → Option Nat
  | .null => none
  | .node id _ visible interactive rect child next =>
    let hit := if visible ∧ rect.Has p then (hitTest p child).or (if interactive then some id else none) else none
    hit.or (hitTest p next)

/-- The nodes that `draw_node` visits if everything is dirty, for all nodes of a list or the one at an index. -/
def drawn : Option Int → Node → List Nat
  | _, .null => []
  | none, .node id kind _ _ _ child next => id :: drawn kind.draws child ++ drawn none next
  | some i, .node id kind _ _ _ child next => (if i = 0 then id :: drawn kind.draws child else []) ++ drawn (some (i - 1)) next

/-- The layout of a list in which all nodes, or only the first one, get a rectangle. -/
def layout (all : Bool) (r : Rect) : Node → Node
  | .null => .null
  | .node id kind visible interactive _ child next =>
    let child := match kind with
      | .root | .tab => layout false r child
      | .tabs _ => layout true (.of r.x (r.y + 16) r.w (r.h - 16)) child
      | _ => child
    .node id kind visible interactive r child (if all then layout true r next else next)

/-- Some node of the list, or below it, is interactive and under the mouse, as are all nodes above it. -/
def Hittable (p : Int × Int) : Node → Prop
  | .null => False
  | .node _ _ visible interactive rect child next =>
    visible ∧ rect.Has p ∧ (interactive ∨ Hittable p child) ∨ Hittable p next

/-- Of the children of tabs or of a scroll container, the first one with something under the mouse is the one that is
drawn, and so on below it. -/
def Shown (p : Int × Int) : Option Int → Node → Prop
  | _, .null => True
  | only, .node _ kind visible interactive rect child next =>
    (visible ∧ rect.Has p ∧ (interactive ∨ Hittable p child) →
      (only = none ∨ only = some 0) ∧ (Hittable p child → Shown p kind.draws child)) ∧
    (¬(visible ∧ rect.Has p ∧ (interactive ∨ Hittable p child)) → Shown p (only.map (· - 1)) next)

def Node.ids : Node → List Nat
  | .null => []
  | .node id _ _ _ _ child next => id :: child.ids ++ next.ids

variable {t child next : Node} {p : Int × Int} {id id' : Nat} {only : Option Int} {kind : Kind} {visible interactive : Bool}
  {rect : Rect}

theorem mem_drawn_node : id ∈ drawn only (.node id' kind visible interactive rect child next) ↔
    (only = none ∨ only = some 0) ∧ (id = id' ∨ id ∈ drawn kind.draws child) ∨ id ∈ drawn (only.map (· - 1)) next := by
  cases only with
  | none => simp [drawn, or_assoc]
  | some i =>
    by_cases first : i = 0
    · simp [drawn, first, or_assoc]
    · simp [drawn, first]

theorem hittable_iff : Hittable p t ↔ hitTest p t ≠ none := by
  induction t with
  | null => simp [Hittable, hitTest]
  | node id' kind visible interactive rect child next ihChild ihNext =>
    rw [Hittable, hitTest, ihChild, ihNext]
    cases hitTest p child <;> cases interactive <;> by_cases here : visible ∧ rect.Has p <;> simp [here]

/-- A hit is in the first node that has one, below it or at itself. -/
theorem hitTest_node (hit : hitTest p (.node id' kind visible interactive rect child next) = some id) :
    (visible ∧ rect.Has p ∧ (interactive ∨ Hittable p child)) ∧
        (hitTest p child = some id ∨ hitTest p child = none ∧ id = id') ∨
      ¬(visible ∧ rect.Has p ∧ (interactive ∨ Hittable p child)) ∧ hitTest p next = some id := by
  rw [hitTest] at hit
  rw [hittable_iff]
  by_cases here : visible ∧ rect.Has p
  · cases below : hitTest p child <;> cases interactive <;> simp_all
  · rw [if_neg here, Option.none_or] at hit
    exact .inr ⟨fun under => here ⟨under.1, under.2.1⟩, hit⟩

theorem mem_ids_of_hit (hit : hitTest p t = some id) : id ∈ t.ids := by
  induction t with
  | null => cases hit
  | node id' kind visible interactive rect child next ihChild ihNext =>
    rw [Node.ids, List.mem_append, List.mem_cons]
    rcases hitTest_node hit with ⟨-, below | ⟨-, self⟩⟩ | ⟨-, there⟩
    · exact .inl (.inr (ihChild below))
    · exact .inl (.inl self)
    · exact .inr (ihNext there)

theorem mem_ids_of_drawn (visited : id ∈ drawn only t) : id ∈ t.ids := by
  induction t generalizing only with
  | null => cases only <;> cases visited
  | node id' kind visible interactive rect child next ihChild ihNext =>
    rw [Node.ids, List.mem_append, List.mem_cons]
    rcases mem_drawn_node.mp visited with ⟨-, self | below⟩ | there
    · exact .inl (.inl self)
    · exact .inl (.inr (ihChild below))
    · exact .inr (ihNext there)

theorem shown_of_not_hittable (free : ¬Hittable p t) : Shown p only t := by
  induction t generalizing only with
  | null => trivial
  | node id' kind visible interactive rect child next ihChild ihNext =>
    rw [Hittable, not_or] at free
    exact ⟨fun here => absurd here free.1, fun _ => ihNext free.2⟩

/-- One node of the list is hit. Whether it is drawn is decided where it is, since a node is in the tree once. -/
theorem mem_drawn_iff (once : t.ids.Nodup) (hit : hitTest p t = some id) : id ∈ drawn only t ↔ Shown p only t := by
  induction t generalizing only with
  | null => cases hit
  | node id' kind visible interactive rect child next ihChild ihNext =>
    rw [Node.ids, List.nodup_append, List.nodup_cons] at once
    obtain ⟨⟨alone, inner⟩, later, apart⟩ := once
    rw [mem_drawn_node, Shown]
    rcases hitTest_node hit with ⟨here, place⟩ | ⟨elsewhere, there⟩
    · have inside : id ∈ id' :: child.ids := by
        rcases place with below | ⟨-, rfl⟩
        · exact List.mem_cons_of_mem _ (mem_ids_of_hit below)
        · exact List.mem_cons_self
      have not_next : id ∉ drawn (only.map (· - 1)) next :=
        fun visited => apart id inside id (mem_ids_of_drawn visited) rfl
      have own : (id = id' ∨ id ∈ drawn kind.draws child) ↔ (Hittable p child → Shown p kind.draws child) := by
        rw [hittable_iff]
        rcases place with below | ⟨none, self⟩
        · have other : id ≠ id' := fun same => alone (same ▸ mem_ids_of_hit below)
          simp [other, below, ihChild inner below]
        · simp [self, none]
      simp only [not_next, or_false, own, here, not_true_eq_false, true_implies, false_implies, and_true, and_self]
    · have not_here : ¬(id = id' ∨ id ∈ drawn kind.draws child) := fun visited =>
        apart id (List.mem_cons.mpr (visited.imp_right mem_ids_of_drawn)) id (mem_ids_of_hit there) rfl
      rw [← ihNext later there]
      simp only [not_here, and_false, false_or, elsewhere, not_false_eq_true, true_implies, false_implies, true_and]

/-- Wherever the layout has put the nodes: what `hit_test` returns is drawn exactly if the first child under the mouse is
the one that is drawn, in all tabs and scroll containers on the way down to it. -/
theorem hitTest_drawn (t : Node) (once : t.ids.Nodup) (p : Int × Int) :
    (∀ id, hitTest p t = some id → id ∈ drawn none t) ↔ Shown p none t := by
  cases found : hitTest p t with
  | none => simp [shown_of_not_hittable fun under => hittable_iff.mp under found]
  | some id => simp [mem_drawn_iff once found]

/-- A root with tabs of two pages, each with a button. -/
def pages (index : Int) (second : Node) : Node :=
  layout false (.of 0 0 100 100) (.node 0 .root true false (.of 0 0 0 0) (.node 1 (.tabs index) true true (.of 0 0 0 0)
    (.node 2 .tab true false (.of 0 0 0 0) (.node 3 .other true true (.of 0 0 0 0) .null .null) second) .null) .null)

theorem button_drawn : 3 ∈ drawn none (pages 0 .null) := by
  refine (hitTest_drawn (pages 0 .null) (by decide) (50, 50)).mpr ?_ 3 (by decide)
  simp [pages, layout, Shown, Kind.draws]

/-- With the second page selected, a click on its button goes to the button of the first page. -/
theorem hidden_button_hit :
    let t := pages 1 (.node 4 .tab true false (.of 0 0 0 0) (.node 5 .other true true (.of 0 0 0 0) .null .null) .null)
    hitTest (50, 50) t = some 3 ∧ drawn none t = [0, 1, 4, 5] := by decide

end Xos.Ui
