import Mathlib.Data.Finset.Card
import Mathlib.Data.Finset.Range
import Mathlib.Data.List.Chain
import Mathlib.Data.List.Nodup
import Mathlib.Logic.Function.Basic
import Mathlib.Tactic.Tauto

/-!
# Doubly linked nodes

The nodes of a ring lead from its head through the others and back to it. The nodes of a list lead from the first to the
last, with null links outside.
-/
namespace Xos.Lib

open Function List

variable {ν : Type*}

def Linked (next prev : ν → Option ν) (a b : ν) : Prop := next a = some b ∧ prev b = some a

theorem chain_congr {next prev next' prev' : ν → Option ν} {l : List ν} (chain : l.IsChain (Linked next prev))
    (nexts : ∀ a ∈ l.dropLast, next' a = next a) (prevs : ∀ b ∈ l.tail, prev' b = prev b) : l.IsChain (Linked next' prev') := by
  induction chain with
  | nil => exact .nil
  | singleton a => exact .singleton a
  | @cons_cons a b l link chain ih =>
    have here : Linked next' prev' a b :=
      ⟨(nexts a (by simp)).trans link.1, (prevs b (by simp)).trans link.2⟩
    refine .cons_cons here (ih (fun c mem => nexts c ?_) fun c mem => prevs c (mem_cons_of_mem b mem))
    rw [dropLast_cons_of_ne_nil (cons_ne_nil b l)]
    exact mem_cons_of_mem a mem

theorem length_le_of_nodup {nodes : List ℕ} {bound : ℕ} (nodup : nodes.Nodup)
    (below : ∀ a ∈ nodes, a < bound) : nodes.length ≤ bound := by
  have inside : nodes.toFinset ⊆ Finset.range bound := fun a mem =>
    Finset.mem_range.mpr (below a (mem_toFinset.mp mem))
  simpa [toFinset_card_of_nodup nodup] using Finset.card_le_card inside

variable [DecidableEq ν]

structure IsRing (next prev : ν → Option ν) (head : ν) (rest : List ν) : Prop where
  nodup : (head :: rest).Nodup
  chain : (head :: rest ++ [head]).IsChain (Linked next prev)

namespace IsRing

variable {next prev : ν → Option ν} {head t p n : ν} {rest front back : List ν}

omit [DecidableEq ν] in
theorem single (forward : next t = some t) (backward : prev t = some t) : IsRing next prev t [] :=
  ⟨nodup_singleton t, .cons_cons ⟨forward, backward⟩ (.singleton t)⟩

omit [DecidableEq ν] in
theorem rotate (ring : IsRing next prev head (front ++ t :: back)) : IsRing next prev t (back ++ head :: front) := by
  obtain ⟨nodup, chain⟩ := ring
  constructor
  · have perm : (head :: (front ++ t :: back)).Perm (t :: (back ++ head :: front)) := by
      rw [← cons_append]
      exact perm_append_comm
    exact perm.nodup_iff.mp nodup
  · have whole : head :: (front ++ t :: back) ++ [head] = (head :: front) ++ t :: (back ++ [head]) := by simp
    rw [whole, isChain_split] at chain
    have turned : t :: (back ++ head :: front) ++ [t] = (t :: back) ++ head :: (front ++ [t]) := by simp
    rw [turned, isChain_split]
    exact ⟨chain.2, chain.1⟩

omit [DecidableEq ν] in
theorem from_mem (ring : IsRing next prev head rest) (mem : t ∈ head :: rest) :
    ∃ others, IsRing next prev t others ∧ ∀ u, u ∈ t :: others ↔ u ∈ head :: rest := by
  rcases mem_cons.mp mem with rfl | inRest
  · exact ⟨rest, ring, fun u => Iff.rfl⟩
  · obtain ⟨front, back, rfl⟩ := append_of_mem inRest
    refine ⟨back ++ head :: front, ring.rotate, fun u => ?_⟩
    simp only [mem_cons, mem_append]
    tauto

omit [DecidableEq ν] in
theorem reachable_iff (ring : IsRing next prev head rest) :
    Relation.ReflTransGen (fun a b => next a = some b) head t ↔ t ∈ head :: rest := by
  constructor
  · intro path
    induction path with
    | refl => exact mem_cons_self
    | @tail a b _ link inside =>
      obtain ⟨others, turned, same⟩ := ring.from_mem inside
      refine (same b).mp ?_
      cases others with
      | nil =>
        have back := (isChain_pair.mp turned.chain).1
        exact Option.mem_unique back link ▸ mem_cons_self
      | cons c others =>
        have forward := (isChain_cons_cons.mp turned.chain).1.1
        exact Option.mem_unique forward link ▸ mem_cons_of_mem a mem_cons_self
  · intro mem
    rcases mem_cons.mp mem with rfl | inRest
    · exact .refl
    · obtain ⟨front, back, rfl⟩ := append_of_mem inRest
      have whole : head :: (front ++ t :: back) ++ [head] = (head :: (front ++ [t])) ++ (back ++ [head]) := by simp
      have chain := ring.chain
      rw [whole] at chain
      exact relationReflTransGen_of_exists_isChain_cons (front ++ [t])
        (chain.left_of_append.imp fun _ _ link => link.1) (by simp)

theorem append (ring : IsRing next prev head rest) (fresh : t ∉ head :: rest) (last : prev head = some p) :
    IsRing (update (update next t (some head)) p (some t))
      (update (update prev t (some p)) head (some t)) head (rest ++ [t]) := by
  obtain ⟨nodup, chain⟩ := ring
  obtain ⟨init, final, whole⟩ := eq_nil_or_concat (head :: rest) |>.resolve_left (cons_ne_nil _ _)
  rw [concat_eq_append] at whole
  -- the last node is where the backward link of the head leads
  have link : Linked next prev final head := by
    rw [whole, append_assoc] at chain
    exact isChain_pair.mp chain.right_of_append
  obtain rfl : final = p := Option.some.inj (link.2.symm.trans last)
  have apart : t ≠ final := fun same => fresh (whole ▸ by simp [same])
  have other : t ≠ head := fun same => fresh (by simp [same])
  constructor
  · rw [← cons_append]
    exact nodup.append (nodup_singleton t) (by simpa using fresh)
  · have list : head :: (rest ++ [t]) ++ [head] = (head :: rest) ++ [t, head] := by simp
    rw [list, isChain_append]
    refine ⟨chain_congr chain.left_of_append (fun a mem => ?_) fun b mem => ?_,
      isChain_pair.mpr ⟨?_, update_self ..⟩, fun a final' b first => ?_⟩
    · rw [whole, dropLast_concat] at mem
      rw [whole] at nodup fresh
      rw [update_of_ne, update_of_ne]
      · rintro rfl
        exact fresh (mem_append_left _ mem)
      · rintro rfl
        exact (nodup_append.mp nodup).2.2 a mem a (mem_singleton_self a) rfl
    · rw [tail_cons] at mem
      rw [update_of_ne, update_of_ne]
      · rintro rfl
        exact fresh (mem_cons_of_mem head mem)
      · rintro rfl
        exact (nodup_cons.mp nodup).1 mem
    · rw [update_of_ne apart, update_self]
    · obtain rfl : final = a := by
        rw [whole] at final'
        simpa using final'
      obtain rfl : t = b := by simpa using first
      exact ⟨update_self .., by rw [update_of_ne other, update_self]⟩

theorem remove (ring : IsRing next prev head (front ++ t :: back)) (before : prev t = some p) (after : next t = some n) :
    IsRing (update next p (some n)) (update prev n (some p)) head (front ++ back) := by
  obtain ⟨nodup, chain⟩ := ring
  have whole : head :: (front ++ t :: back) ++ [head] = (head :: front) ++ t :: (back ++ [head]) := by simp
  rw [whole, isChain_append] at chain
  obtain ⟨left, right, join⟩ := chain
  -- the nodes around it are the last one before and the first one behind
  obtain ⟨init, final, ends⟩ := eq_nil_or_concat (head :: front) |>.resolve_left (cons_ne_nil _ _)
  rw [concat_eq_append] at ends
  obtain ⟨first, tail, begins⟩ : ∃ first tail, back ++ [head] = first :: tail := by
    cases back with
    | nil => exact ⟨head, [], rfl⟩
    | cons b back => exact ⟨b, back ++ [head], rfl⟩
  obtain rfl : final = p := by
    have link := join final (by rw [ends]; simp) t rfl
    exact Option.some.inj (link.2.symm.trans before)
  rw [begins] at right
  obtain ⟨link, right⟩ := isChain_cons_cons.mp right
  obtain rfl : first = n := Option.some.inj (link.1.symm.trans after)
  -- no node occurs twice
  have nodupLeft : (init ++ [final]).Nodup := by
    rw [← ends]
    exact nodup.sublist (by simp)
  have nodupRight : (first :: tail).Nodup := by
    rw [← begins]
    refine perm_append_comm.nodup_iff.mp (nodup.sublist ?_)
    exact (sublist_cons_self t back).trans (sublist_append_right front _) |>.cons_cons head
  have apart (a : ν) (mem : a ∈ head :: front) : a ∉ back := fun twice => by
    rw [← cons_append] at nodup
    exact (nodup_append.mp nodup).2.2 a mem a (mem_cons_of_mem t twice) rfl
  constructor
  · exact nodup.sublist (by simp)
  · have list : head :: (front ++ back) ++ [head] = (head :: front) ++ (back ++ [head]) := by simp
    rw [list, isChain_append]
    refine ⟨chain_congr left (fun a mem => update_of_ne ?_ _ _) fun b mem => update_of_ne ?_ _ _, ?_, ?_⟩
    · rw [ends, dropLast_concat] at mem
      rintro rfl
      exact (nodup_append.mp nodupLeft).2.2 a mem a (mem_singleton_self a) rfl
    · rw [tail_cons] at mem
      rintro rfl
      have here : b ∈ back ++ [head] := begins ▸ mem_cons_self
      rcases mem_append.mp here with behind | same
      · exact apart b (mem_cons_of_mem head mem) behind
      · rw [mem_singleton.mp same] at mem
        exact (nodup_cons.mp nodup).1 (mem_append_left _ mem)
    · rw [begins]
      refine chain_congr right (fun a mem => update_of_ne ?_ _ _) fun b mem => update_of_ne ?_ _ _
      · rw [← begins, dropLast_concat] at mem
        rintro rfl
        exact apart a (ends ▸ by simp) mem
      · rintro rfl
        exact (nodup_cons.mp nodupRight).1 mem
    · intro a last b start
      obtain rfl : final = a := by
        rw [ends] at last
        simpa using last
      obtain rfl : first = b := by
        rw [begins] at start
        simpa using start
      exact ⟨update_self .., update_self ..⟩

end IsRing

def Walk (link : ν → Option ν) (null : ν) : ν → List ν → Prop
  | a, [] => a = null
  | a, b :: rest => a = b ∧ b ≠ null ∧ ∃ c, link b = some c ∧ Walk link null c rest

namespace Walk

variable {link link' : ν → Option ν} {null a t : ν} {nodes : List ν}

omit [DecidableEq ν] in
theorem congr (walk : Walk link null a nodes) (same : ∀ b ∈ nodes, link' b = link b) : Walk link' null a nodes := by
  induction nodes generalizing a with
  | nil => exact walk
  | cons b rest ih =>
    obtain ⟨here, nonnull, c, leads, later⟩ := walk
    exact ⟨here, nonnull, c, (same b mem_cons_self).trans leads,
      ih later fun d mem => same d (mem_cons_of_mem b mem)⟩

omit [DecidableEq ν] in
theorem eq_nil_iff (walk : Walk link null a nodes) : nodes = [] ↔ a = null := by
  cases nodes with
  | nil => exact ⟨fun _ => walk, fun _ => rfl⟩
  | cons b rest => exact ⟨nofun, fun same => absurd (walk.1.symm.trans same) walk.2.1⟩

omit [DecidableEq ν] in
theorem null_notMem (walk : Walk link null a nodes) : null ∉ nodes := by
  induction nodes generalizing a with
  | nil => exact not_mem_nil
  | cons b rest ih =>
    obtain ⟨-, nonnull, c, -, later⟩ := walk
    rw [mem_cons, not_or]
    exact ⟨nonnull.symm, ih later⟩

omit [DecidableEq ν] in
theorem head_mem (walk : Walk link null a nodes) (nonnull : a ≠ null) : a ∈ nodes := by
  cases nodes with
  | nil => exact absurd walk nonnull
  | cons b rest => exact walk.1 ▸ mem_cons_self

omit [DecidableEq ν] in
theorem blocked (walk : Walk link null a nodes) (mem : t ∈ nodes) (gone : link' t = none)
    (same : ∀ b ≠ t, link' b = link b) (nodes' : List ν) : ¬Walk link' null a nodes' := by
  induction nodes generalizing a nodes' with
  | nil => cases mem
  | cons b rest ih =>
    obtain ⟨rfl, nonnull, c, leads, later⟩ := walk
    cases nodes' with
    | nil => exact nonnull
    | cons b' rest' =>
      rintro ⟨rfl, -, c', leads', later'⟩
      by_cases here : a = t
      · rw [here, gone] at leads'
        cases leads'
      · rw [same a here, leads] at leads'
        obtain rfl := Option.some.inj leads'
        exact ih later ((mem_cons.mp mem).resolve_left fun there => here there.symm) rest' later'

theorem append {last : ν} (walk : Walk link null a (nodes ++ [last])) (nodup : (nodes ++ [last]).Nodup)
    (fresh : t ∉ nodes ++ [last]) (nonnull : t ≠ null) :
    Walk (update (update link t (some null)) last (some t)) null a (nodes ++ [last, t]) := by
  induction nodes generalizing a with
  | nil =>
    obtain ⟨here, notNull, -⟩ := walk
    have apart : t ≠ last := fun same => fresh (by simp [same])
    refine ⟨here, notNull, t, update_self .., rfl, nonnull, null, ?_, rfl⟩
    rw [update_of_ne apart, update_self]
  | cons b rest ih =>
    obtain ⟨here, notNull, c, leads, later⟩ := walk
    rw [cons_append, nodup_cons] at nodup
    have notLast : b ≠ last := fun same => nodup.1 (by simp [same])
    have notNew : b ≠ t := fun same => fresh (by simp [same])
    refine ⟨here, notNull, c, ?_, ih later nodup.2 fun mem => fresh (mem_cons_of_mem b mem)⟩
    rw [update_of_ne notLast, update_of_ne notNew, leads]

end Walk

structure IsList (next prev : ν → Option ν) (null first last : ν) (nodes : List ν) : Prop where
  nodup : nodes.Nodup
  forward : Walk next null first nodes
  backward : Walk prev null last nodes.reverse

namespace IsList

variable {next prev : ν → Option ν} {null first last t : ν} {nodes : List ν}

omit [DecidableEq ν] in
theorem single (nonnull : t ≠ null) (forward : next t = some null) (backward : prev t = some null) : IsList next prev null t t [t] :=
  ⟨nodup_singleton t, ⟨rfl, nonnull, null, forward, rfl⟩, ⟨rfl, nonnull, null, backward, rfl⟩⟩

theorem append (list : IsList next prev null first last nodes) (fresh : t ∉ nodes) (nonnull : t ≠ null) (some_ : last ≠ null) :
    IsList (update (update next t (some null)) last (some t)) (update prev t (some last))
      null first t (nodes ++ [t]) := by
  obtain ⟨nodup, forward, backward⟩ := list
  obtain ⟨front, final, rfl⟩ : ∃ front final, nodes = front ++ [final] := by
    rcases eq_nil_or_concat nodes with rfl | ⟨front, final, whole⟩
    · exact absurd backward some_
    · exact ⟨front, final, whole.trans (concat_eq_append ..)⟩
  -- the walk back begins at the last node
  obtain rfl : last = final := by
    rw [reverse_append, reverse_singleton, singleton_append] at backward
    exact backward.1
  refine ⟨nodup.append (nodup_singleton t) (by simpa using fresh), ?_, ?_⟩
  · rw [append_assoc]
    exact forward.append nodup fresh nonnull
  · rw [reverse_append, reverse_singleton, singleton_append]
    refine ⟨rfl, nonnull, last, update_self .., backward.congr fun b mem => update_of_ne ?_ ..⟩
    rintro rfl
    exact fresh (mem_reverse.mp mem)

end IsList

end Xos.Lib
