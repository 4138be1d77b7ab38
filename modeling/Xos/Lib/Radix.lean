import Mathlib.Data.List.Basic
import Mathlib.Data.List.Induction

/-!
# Radix forests in a store

An entry of an inner node leads to a child or nowhere, and one of a node of level 1 holds a value or nothing. Only roots
may share children.
-/
namespace Xos.Lib.Radix

open Function Option List Prod

variable {ν ι α β : Type}

section Walk

variable (next : α → Option ν) (leaf : α → Option β) (entries : ν → ι → α)

def walk : ν → List ι → Option ν
  | t, [] => some t
  | t, i :: path => (next (entries t i)).bind fun c => walk c path

/-- The value that the slot `j` of the node at the end of a path holds. -/
def lookup (t : ν) (path : List ι) (j : ι) : Option β :=
  (walk next entries t path).bind fun u => leaf (entries u j)

end Walk

/-- Every node has a level, and those that are not part of the forest have level 0. Children are one
level below their parents. Two parents of one child are roots that have it in the same, shared slot. -/
structure Forest (next : α → Option ν) (top : Nat) (shared : ι → Prop) (entries : ν → ι → α)
    (level : ν → Nat) : Prop where
  bounded : ∀ t, level t ≤ top
  child : ∀ t i c, 2 ≤ level t → next (entries t i) = some c → level c + 1 = level t
  parent : ∀ t i u j c, 2 ≤ level t → 2 ≤ level u → next (entries t i) = some c → next (entries u j) = some c →
    i = j ∧ (t = u ∨ level t = top ∧ shared i)

variable {next : α → Option ν} {leaf : α → Option β} {top : Nat} {shared : ι → Prop}
  {entries entries' : ν → ι → α} {level : ν → Nat} {t u c n : ν} {i j : ι} {path q : List ι}

@[simp] theorem walk_nil : walk next entries t [] = some t := rfl

theorem walk_cons : walk next entries t (i :: path) = (next (entries t i)).bind fun c => walk next entries c path :=
  rfl

@[simp] theorem walk_singleton : walk next entries t [i] = next (entries t i) := by
  cases link : next (entries t i) <;> simp [walk_cons, link]

theorem walk_append : walk next entries t (path ++ q) = (walk next entries t path).bind fun u => walk next entries u q := by
  induction path generalizing t with
  | nil => rfl
  | cons i path ih =>
    rw [cons_append, walk_cons, walk_cons]
    cases next (entries t i) with
    | none => rfl
    | some c => exact ih

@[simp] theorem lookup_nil : lookup next leaf entries t [] j = leaf (entries t j) := rfl

theorem lookup_cons : lookup next leaf entries t (i :: path) j =
    (next (entries t i)).bind fun c => lookup next leaf entries c path j := by
  rw [lookup, walk_cons, bind_assoc]
  rfl

theorem Forest.level_walk (forest : Forest next top shared entries level) (deep : path.length < level t)
    (walked : walk next entries t path = some n) : level n + path.length = level t := by
  induction path generalizing t with
  | nil =>
    cases walked
    rfl
  | cons i path ih =>
    obtain ⟨c, link, rest⟩ := bind_eq_some_iff.mp walked
    rw [length_cons] at deep ⊢
    have below := forest.child t i c (by omega) link
    have := ih (by omega) rest
    omega

/-- A node is reached from roots along one path only, and from one root only unless the first slot
of the path is shared. -/
theorem Forest.walk_unique (forest : Forest next top shared entries level) (root : level t = top)
    (root' : level u = top) (deep : path.length < top) (same : path.length = q.length)
    (left : walk next entries t path = some n) (right : walk next entries u q = some n) :
    path = q ∧ (t = u ∨ ∃ i rest, path = i :: rest ∧ shared i) := by
  -- the induction is on the path from its end, where uniqueness of parents applies
  induction path using reverseRecOn generalizing q n with
  | nil =>
    obtain rfl := length_eq_zero_iff.mp same.symm
    cases left
    cases right
    exact ⟨rfl, Or.inl rfl⟩
  | append_singleton path i ih =>
    obtain rfl | ⟨q, j, rfl⟩ := eq_nil_or_concat' q
    · simp at same
    simp only [length_append, length_singleton, Nat.add_right_cancel_iff] at same deep
    rw [walk_append] at left right
    obtain ⟨a, left, first⟩ := bind_eq_some_iff.mp left
    obtain ⟨b, right, second⟩ := bind_eq_some_iff.mp right
    rw [walk_singleton] at first second
    have rank := forest.level_walk (by omega) left
    have rank' := forest.level_walk (by omega) right
    obtain ⟨rfl, meet⟩ := forest.parent a i b j n (by omega) (by omega) first second
    rcases meet with rfl | ⟨high, share⟩
    · obtain ⟨rfl, roots⟩ := ih (by omega) same left right
      refine ⟨rfl, roots.imp_right ?_⟩
      rintro ⟨k, rest, rfl, share⟩
      exact ⟨k, rest ++ [i], rfl, share⟩
    · obtain rfl : path = [] := length_eq_zero_iff.mp (by omega)
      obtain rfl : q = [] := length_eq_zero_iff.mp same.symm
      exact ⟨rfl, Or.inr ⟨i, [], rfl, share⟩⟩

section Agree

variable (agree : ∀ u j, 2 ≤ level u → entries' u j = entries u j)

include agree

theorem Forest.congr (forest : Forest next top shared entries level) : Forest next top shared entries' level := by
  refine ⟨forest.bounded, fun u j c inner link => ?_, fun u j w k c inner inner' link link' => ?_⟩
  · rw [agree u j inner] at link
    exact forest.child u j c inner link
  · rw [agree u j inner] at link
    rw [agree w k inner'] at link'
    exact forest.parent u j w k c inner inner' link link'

theorem Forest.walk_congr (forest : Forest next top shared entries level) (deep : path.length < level u) :
    walk next entries' u path = walk next entries u path := by
  induction path generalizing u with
  | nil => rfl
  | cons k path ih =>
    rw [length_cons] at deep
    rw [walk_cons, walk_cons, agree u k (by omega)]
    cases link : next (entries u k) with
    | none => rfl
    | some c =>
      have below := forest.child u k c (by omega) link
      exact ih (by omega)

end Agree

theorem Forest.lookup_congr (forest : Forest next top shared entries level)
    (agree : ∀ u j, level u ≠ 0 → entries' u j = entries u j) (deep : path.length < level u) :
    lookup next leaf entries' u path j = lookup next leaf entries u path j := by
  rw [lookup, lookup, forest.walk_congr (fun u j inner => agree u j (by omega)) deep]
  cases walked : walk next entries u path with
  | none => rfl
  | some n =>
    have rank := forest.level_walk deep walked
    exact congrArg leaf (agree n j (by omega))

section Leaf

variable (elsewhere : ∀ u j, (u, j) ≠ (t, i) → entries' u j = entries u j)

include elsewhere

theorem inner_unchanged (low : level t = 1) (u : ν) (j : ι) (inner : 2 ≤ level u) : entries' u j = entries u j := by
  refine elsewhere u j fun same => ?_
  obtain ⟨rfl, -⟩ := mk.inj same
  omega

theorem Forest.lookup_write (forest : Forest next top shared entries level) (low : level t = 1)
    (deep : path.length < level u) (away : walk next entries u path = some t → j ≠ i) :
    lookup next leaf entries' u path j = lookup next leaf entries u path j := by
  rw [lookup, lookup, forest.walk_congr (inner_unchanged elsewhere low) deep]
  cases walked : walk next entries u path with
  | none => rfl
  | some n =>
    refine congrArg leaf (elsewhere n j fun same => ?_)
    obtain ⟨rfl, rfl⟩ := mk.inj same
    exact away walked rfl

end Leaf

/-- A node `c` outside the forest, with empty entries, is linked into an empty slot of an inner
node. Entries of other nodes outside the forest may change as well. -/
structure Linked (next : α → Option ν) (level : ν → Nat) (entries entries' : ν → ι → α) (empty : α)
    (t : ν) (i : ι) (c : ν) : Prop where
  inner : 2 ≤ level t
  absent : next (entries t i) = none
  fresh : level c = 0
  link : next (entries' t i) = some c
  blank : ∀ j, entries' c j = empty
  elsewhere : ∀ u j, level u ≠ 0 → (u, j) ≠ (t, i) → entries' u j = entries u j

theorem Forest.walk_link {empty : α} (forest : Forest next top shared entries level)
    (linked : Linked next level entries entries' empty t i c) (deep : path.length < level u)
    (walked : walk next entries u path = some n) : walk next entries' u path = some n := by
  induction path generalizing u with
  | nil => exact walked
  | cons k path ih =>
    rw [length_cons] at deep
    obtain ⟨d, step, rest⟩ := bind_eq_some_iff.mp walked
    have below := forest.child u k d (by omega) step
    have kept : entries' u k = entries u k := by
      refine linked.elsewhere u k (by omega) fun here => ?_
      obtain ⟨rfl, rfl⟩ := mk.inj here
      rw [linked.absent] at step
      cases step
    rw [walk_cons, kept, step]
    exact ih (by omega) rest

section Link

variable [DecidableEq ν] {empty : α} (nowhere : next empty = none)

/-- The levels once `c` has joined the forest at level `k`. -/
def ranked (level : ν → Nat) (c : ν) (k : Nat) : ν → Nat := update level c k

theorem ranked_self {k : Nat} : ranked level c k c = k := update_self ..

theorem ranked_of_ne {k : Nat} (differ : u ≠ c) : ranked level c k u = level u := update_of_ne differ ..

theorem ranked_of_level {k : Nat} (fresh : level c = 0) (known : level u ≠ 0) : ranked level c k u = level u :=
  ranked_of_ne fun same => known (same ▸ fresh)

variable (linked : Linked next level entries entries' empty t i c)

include linked nowhere

section

variable (forest : Forest next top shared entries level)
include forest

theorem Linked.cases (inner : 2 ≤ ranked level c (level t - 1) u) (link : next (entries' u j) = some n) :
    2 ≤ level u ∧ ranked level c (level t - 1) u = level u ∧ ((u, j) = (t, i) ∧ n = c ∨
      next (entries u j) = some n ∧ ranked level c (level t - 1) n = level n ∧ n ≠ c) := by
  have differ : u ≠ c := by
    rintro rfl
    rw [linked.blank, nowhere] at link
    cases link
  rw [ranked_of_ne differ] at inner ⊢
  refine ⟨inner, rfl, ?_⟩
  by_cases here : (u, j) = (t, i)
  · obtain ⟨rfl, rfl⟩ := mk.inj here
    exact Or.inl ⟨rfl, some.inj (link.symm.trans linked.link)⟩
  · rw [linked.elsewhere u j (by omega) here] at link
    have below := forest.child u j n inner link
    have other : n ≠ c := by
      rintro rfl
      rw [linked.fresh] at below
      omega
    exact Or.inr ⟨link, ranked_of_ne other, other⟩

theorem Forest.link : Forest next top shared entries' (ranked level c (level t - 1)) := by
  refine ⟨fun u => ?_, fun u j n inner step => ?_, fun u j w k n inner inner' step step' => ?_⟩
  · by_cases here : u = c
    · subst here
      have := forest.bounded t
      rw [ranked_self]
      omega
    · rw [ranked_of_ne here]
      exact forest.bounded u
  · obtain ⟨high, same, ⟨here, rfl⟩ | ⟨old, kept, -⟩⟩ := linked.cases nowhere forest inner step
    · obtain ⟨rfl, -⟩ := mk.inj here
      rw [same, ranked_self]
      omega
    · rw [kept, same]
      exact forest.child u j n high old
  · obtain ⟨high, same, first⟩ := linked.cases nowhere forest inner step
    obtain ⟨high', -, second⟩ := linked.cases nowhere forest inner' step'
    rcases first with ⟨here, rfl⟩ | ⟨old, -, other⟩
    · rcases second with ⟨here', -⟩ | ⟨-, -, other⟩
      · obtain ⟨rfl, rfl⟩ := mk.inj here
        obtain ⟨rfl, rfl⟩ := mk.inj here'
        exact ⟨rfl, Or.inl rfl⟩
      · exact absurd rfl other
    · rcases second with ⟨-, rfl⟩ | ⟨old', -, -⟩
      · exact absurd rfl other
      · rw [same]
        exact forest.parent u j w k n high high' old old'

theorem Forest.lookup_link (bare : leaf empty = none) (deep : level u = path.length + 1) :
    lookup next leaf entries' u path j = lookup next leaf entries u path j := by
  have inner := linked.inner
  induction path generalizing u with
  | nil =>
    rw [length_nil] at deep
    rw [lookup_nil, lookup_nil, linked.elsewhere u j (by omega)]
    rintro same
    obtain ⟨rfl, -⟩ := mk.inj same
    omega
  | cons k path ih =>
    rw [length_cons] at deep
    rw [lookup_cons, lookup_cons]
    by_cases here : (u, k) = (t, i)
    · obtain ⟨rfl, rfl⟩ := mk.inj here
      rw [linked.link, linked.absent, bind_some, bind_none]
      cases path with
      | nil => rw [lookup_nil, linked.blank, bare]
      | cons k path => rw [lookup_cons, linked.blank, nowhere, bind_none]
    · rw [linked.elsewhere u k (by omega) here]
      cases step : next (entries u k) with
      | none => rfl
      | some d =>
        have below := forest.child u k d (by omega) step
        exact ih (by omega)

end

end Link

/-- A node outside the forest becomes a root. It has only shared slots of another root. -/
structure Rooted (next : α → Option ν) (top : Nat) (shared : ι → Prop) (level : ν → Nat)
    (entries entries' : ν → ι → α) (k r : ν) : Prop where
  template : level k = top
  fresh : level r = 0
  copied : ∀ i c, next (entries' r i) = some c → shared i ∧ next (entries k i) = some c
  elsewhere : ∀ u j, level u ≠ 0 → entries' u j = entries u j

theorem Forest.root [DecidableEq ν] {k r : ν} (forest : Forest next top shared entries level) (tall : 2 ≤ top)
    (rooted : Rooted next top shared level entries entries' k r) : Forest next top shared entries' (ranked level r top) := by
  have template := rooted.template
  -- every link of the new forest is one of the old forest, with the template for the new root
  have origin (u j c) (inner : 2 ≤ ranked level r top u) (link : next (entries' u j) = some c) :
      ∃ w, level w = ranked level r top u ∧ next (entries w j) = some c ∧
        ranked level r top c = level c ∧ (w = u ∨ u = r ∧ w = k ∧ shared j) := by
    have known (w) (high : 2 ≤ level w) (old : next (entries w j) = some c) : ranked level r top c = level c := by
      have below := forest.child w j c high old
      exact ranked_of_level rooted.fresh (by omega)
    by_cases here : u = r
    · subst here
      obtain ⟨share, old⟩ := rooted.copied j c link
      exact ⟨k, by rw [ranked_self, template], old, known k (by omega) old, Or.inr ⟨rfl, rfl, share⟩⟩
    · rw [ranked_of_ne here] at inner ⊢
      rw [rooted.elsewhere u j (by omega)] at link
      exact ⟨u, rfl, link, known u inner link, Or.inl rfl⟩
  refine ⟨fun u => ?_, fun u j c inner link => ?_, fun u j w l c inner inner' link link' => ?_⟩
  · by_cases here : u = r
    · subst here
      exact Nat.le_of_eq ranked_self
    · rw [ranked_of_ne here]
      exact forest.bounded u
  · obtain ⟨w, same, old, kept, -⟩ := origin u j c inner link
    rw [kept, ← same]
    exact forest.child w j c (by omega) old
  · obtain ⟨a, same, old, -, source⟩ := origin u j c inner link
    obtain ⟨b, same', old', -, source'⟩ := origin w l c inner' link'
    obtain ⟨rfl, meet⟩ := forest.parent a j b l c (by omega) (by omega) old old'
    refine ⟨rfl, ?_⟩
    rw [← same]
    rcases source with rfl | ⟨rfl, rfl, share⟩
    · rcases source' with rfl | ⟨rfl, rfl, share⟩
      · exact meet
      · rcases meet with rfl | meet
        · exact Or.inr ⟨template, share⟩
        · exact Or.inr meet
    · exact Or.inr ⟨template, share⟩

end Xos.Lib.Radix
