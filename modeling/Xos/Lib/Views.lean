import Mathlib.Data.Set.Basic

/-!
# Views of counted frames

Keys see frames, and a set says which frames are in use. A frame that is given back through owned keys is taken from no
one else.
-/
namespace Xos.Lib

/-- What keys see, with the safety of it built in. -/
@[ext] structure Views (κ φ : Type*) where
  map : κ → Option φ
  used : Set φ
  owned : Set κ
  live : ∀ a f, map a = some f → f ∈ used
  sole : ∀ a, a ∈ owned → ∃ f, map a = some f ∧ ∀ b, map b = some f → b = a

namespace Views

variable {κ φ : Type*} (views : Views κ φ)

def use (frames : Set φ) : Views κ φ where
  map := views.map
  used := views.used ∪ frames
  owned := views.owned
  live a f seen := Or.inl (views.live a f seen)
  sole := views.sole

def bind (seen : κ → Option φ) (apart : ∀ a f, seen a = some f →
    a ∉ views.owned ∧ f ∈ views.used ∧ ∀ b, b ∈ views.owned → views.map b ≠ some f) : Views κ φ where
  map a := (seen a).or (views.map a)
  used := views.used
  owned := views.owned
  live a f here := by
    rcases Option.or_eq_some_iff.mp here with new | ⟨-, old⟩
    · exact (apart a f new).2.1
    · exact views.live a f old
  sole a owns := by
    obtain ⟨f, here, alone⟩ := views.sole a owns
    have kept : seen a = none := by
      cases new : seen a with
      | none => rfl
      | some g => exact absurd owns (apart a g new).1
    refine ⟨f, by rw [kept, Option.none_or, here], fun b there => ?_⟩
    rcases Option.or_eq_some_iff.mp there with new | ⟨-, old⟩
    · exact absurd here ((apart b f new).2.2 a owns)
    · exact alone b old

def own (keys : Set κ) (each : ∀ a, a ∈ keys → ∃ f, views.map a = some f ∧ ∀ b, views.map b = some f → b = a) :
    Views κ φ where
  map := views.map
  used := views.used
  owned := views.owned ∪ keys
  live := views.live
  sole a owns := owns.elim (views.sole a) (each a)

open Classical in
noncomputable def release (keys : Set κ) (subset : keys ⊆ views.owned) : Views κ φ where
  map a := if a ∈ keys then none else views.map a
  used := views.used \ {f | ∃ a, a ∈ keys ∧ views.map a = some f}
  owned := views.owned \ keys
  live a f here := by
    split at here
    · cases here
    next kept =>
    refine ⟨views.live a f here, fun ⟨b, member, there⟩ => kept ?_⟩
    obtain ⟨g, see, alone⟩ := views.sole b (subset member)
    obtain rfl : g = f := Option.mem_unique see there
    rwa [alone a here]
  sole a owns := by
    obtain ⟨f, here, alone⟩ := views.sole a owns.1
    refine ⟨f, by rw [if_neg owns.2, here], fun b there => alone b ?_⟩
    split at there
    · cases there
    · exact there

theorem release_map_of_mem {keys : Set κ} {subset : keys ⊆ views.owned} {a : κ} (mem : a ∈ keys) :
    (views.release keys subset).map a = none := if_pos mem

theorem release_map_of_notMem {keys : Set κ} {subset : keys ⊆ views.owned} {a : κ} (outside : a ∉ keys) :
    (views.release keys subset).map a = views.map a := if_neg outside

end Views
end Xos.Lib
