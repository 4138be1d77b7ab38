import Mathlib.Data.Set.Lattice
import Mathlib.Logic.Relation
import Mathlib.Order.CompletePartialOrder

/-!
# Pools of resources

What an allocator is for, whatever it allocates: every resource it manages is free or held,
never both. Taking moves free resources to their holder and giving moves held ones back.

`invariant_of_run` is the induction every safety result about runs goes through.
-/
namespace Xos.Lib

theorem invariant_of_run {σ : Type*} {step : σ → σ → Prop} (inv : σ → Prop)
    (kept : ∀ s t, inv s → step s t → inv t) {s t : σ} (run : Relation.ReflTransGen step s t) (initial : inv s) : inv t := by
  induction run with
  | refl => exact initial
  | tail _ last ih => exact kept _ _ ih last

/-- The state of an allocator, with its safety built in. -/
@[ext] structure Pool (α : Type*) where
  free : Set α
  held : Set α
  apart : Disjoint free held

namespace Pool

variable {α : Type*}

def take (pool : Pool α) (taken : Set α) : Pool α where
  free := pool.free \ taken
  held := pool.held ∪ taken
  apart := by
    rw [Set.disjoint_union_right]
    exact ⟨pool.apart.mono_left Set.sdiff_subset, Set.disjoint_sdiff_left⟩

def give (pool : Pool α) (given : Set α) : Pool α where
  free := pool.free ∪ given
  held := pool.held \ given
  apart := by
    rw [Set.disjoint_union_left]
    exact ⟨pool.apart.mono_right Set.sdiff_subset, Set.disjoint_sdiff_right⟩

inductive Step (pool : Pool α) : Pool α → Prop
  | take (taken : Set α) (available : taken ⊆ pool.free) : Step pool (pool.take taken)
  | give (given : Set α) (owned : given ⊆ pool.held) : Step pool (pool.give given)

/-- A step loses nothing and makes nothing up. -/
theorem Step.all {pool pool' : Pool α} (step : pool.Step pool') : pool'.free ∪ pool'.held = pool.free ∪ pool.held := by
  cases step with
  | take taken available =>
    ext x
    have := @available x
    simp only [Pool.take, Set.mem_union, Set.mem_sdiff]
    tauto
  | give given owned =>
    ext x
    have := @owned x
    simp only [Pool.give, Set.mem_union, Set.mem_sdiff]
    tauto

end Pool
end Xos.Lib
