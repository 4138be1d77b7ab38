import Mathlib.Logic.Basic

/-!
# Outcomes of code that may stop

Code that returns a value may also stop for good: by a panic with its message, by
an access outside the object it indexes, or by never leaving a loop.
-/
namespace Xos

inductive Stop where
  | panic (message : String)
  -- a read outside of an array, or any access where the two are not told apart
  | outOfBounds (index : Nat)
  -- a write outside of an array
  | overwrites (index : Nat)
  | diverges
  deriving DecidableEq, Repr

abbrev Outcome (α : Type) := Except Stop α

namespace Outcome

variable {α β : Type}

variable {x : Outcome α}

theorem bind_eq_ok {f : α → Outcome β} {b : β} : (x >>= f) = .ok b ↔ ∃ a, x = .ok a ∧ f a = .ok b := by
  cases x with
  | error stop => simp [bind, Except.bind]
  | ok a => simp [bind, Except.bind]

theorem of_bind {f : α → Outcome β} {b : β} (ret : (x >>= f) = .ok b) : ∃ a, x = .ok a ∧ f a = .ok b := bind_eq_ok.mp ret

theorem of_bind₂ {γ : Type} {f : α → Outcome β} {g : α → β → Outcome γ} {c : γ} (ret : (x >>= fun a => f a >>= g a) = .ok c) :
    ∃ a b, x = .ok a ∧ f a = .ok b ∧ g a b = .ok c := by
  obtain ⟨a, first, rest⟩ := of_bind ret
  obtain ⟨b, second, rest⟩ := of_bind rest
  exact ⟨a, b, first, second, rest⟩

@[simp] theorem ok_bind (a : α) (f : α → Outcome β) : ((Except.ok a : Outcome α) >>= f) = f a := rfl

@[simp] theorem error_bind (stop : Stop) (f : α → Outcome β) : ((Except.error stop : Outcome α) >>= f) = .error stop := rfl

@[simp] theorem pure_eq_ok (a : α) : (pure a : Outcome α) = .ok a := rfl

theorem ok_inj {a a' : α} {b b' : β} (same : (Except.ok (a, b) : Outcome (α × β)) = .ok (a', b')) : a = a' ∧ b = b' :=
  Prod.mk.inj (Except.ok.inj same)

theorem ok_pair {a a' : α} {b b' : β} : (pure (a, b) : Outcome (α × β)) = .ok (a', b') ↔ a = a' ∧ b = b' := by simp

@[simp] theorem throw_eq_error (stop : Stop) : (throw stop : Outcome α) = .error stop := rfl

theorem map_eq_error {g : α → β} {stop : Stop} : x.map g = .error stop ↔ x = .error stop := by
  cases x with
  | error stop' => simp [Except.map]
  | ok a => simp [Except.map]

theorem isOk_iff : x.isOk = true ↔ ∃ a, x = .ok a := by
  cases x with
  | error stop => simp [Except.isOk, Except.toBool]
  | ok a => simp [Except.isOk, Except.toBool]

variable {σ : Type}

/-- `for (i = first; i < first + n; i++)` over a body that may stop. -/
def forRange (body : Nat → σ → Outcome σ) : Nat → Nat → σ → Outcome σ
  | 0, _, s => .ok s
  | n + 1, first, s => do
    let s ← body first s
    forRange body n (first + 1) s

variable {body : Nat → σ → Outcome σ} {n first : Nat} {s : σ}

theorem forRange_rule (inv : Nat → σ → Prop) (fails : Stop → Prop) {last : Nat}
    (length : first + n = last) (kept : ∀ i s, first ≤ i → i < last → inv i s →
      (∃ s', body i s = .ok s' ∧ inv (i + 1) s') ∨ ∃ stop, body i s = .error stop ∧ fails stop)
    (initial : inv first s) :
    (∃ s', forRange body n first s = .ok s' ∧ inv last s') ∨
      ∃ stop, forRange body n first s = .error stop ∧ fails stop := by
  induction n generalizing first s with
  | zero => exact Or.inl ⟨s, rfl, length ▸ initial⟩
  | succ n ih =>
    rw [forRange]
    rcases kept first s (Nat.le_refl first) (by omega) initial with ⟨s', ret, next⟩ | ⟨stop, stopped, failed⟩
    · rw [ret, ok_bind]
      exact ih (by omega) (fun i s low => kept i s (by omega)) next
    · exact Or.inr ⟨stop, by rw [stopped, error_bind], failed⟩

theorem forRange_kept (inv : σ → Prop) {s' : σ}
    (kept : ∀ i s s', first ≤ i → i < first + n → inv s → body i s = .ok s' → inv s')
    (ret : forRange body n first s = .ok s') (initial : inv s) : inv s' := by
  induction n generalizing first s with
  | zero => exact Except.ok.inj ret ▸ initial
  | succ n ih =>
    obtain ⟨mid, step, rest⟩ := of_bind ret
    exact ih (fun i s s' low high => kept i s s' (by omega) (by omega)) rest
      (kept first s mid (Nat.le_refl first) (by omega) initial step)

theorem forRange_trace {s' : σ} (ret : forRange body n first s = .ok s') :
    ∃ trace : Nat → σ, trace first = s ∧ trace (first + n) = s' ∧
      ∀ i, first ≤ i → i < first + n → body i (trace i) = .ok (trace (i + 1)) := by
  induction n generalizing first s with
  | zero =>
    refine ⟨fun _ => s, rfl, ?_, fun i low high => absurd high (by omega)⟩
    exact Except.ok.inj ret
  | succ n ih =>
    obtain ⟨mid, step, rest⟩ := of_bind ret
    obtain ⟨trace, start, finish, steps⟩ := ih rest
    have later {i : Nat} (low : first < i) : (if i = first then s else trace i) = trace i := if_neg (by omega)
    refine ⟨fun i => if i = first then s else trace i, if_pos rfl, ?_, fun i low high => ?_⟩
    · dsimp only
      rw [later (by omega), show first + (n + 1) = first + 1 + n by omega]
      exact finish
    · dsimp only
      rw [later (i := i + 1) (by omega)]
      by_cases here : i = first
      · rw [if_pos here, here, start]
        exact step
      · rw [if_neg here]
        exact steps i (by omega) (by omega)

/-- If the code returns, its result has the property. -/
def Ensures (x : Outcome α) (post : α → Prop) : Prop := ∀ a, x = .ok a → post a

variable {a : α}

namespace Ensures

variable {x y : Outcome α} {f : α → Outcome β} {mid post : α → Prop} {last : β → Prop}

theorem ok (holds : post a) : Ensures (.ok a) post := fun _ same => Except.ok.inj same ▸ holds

theorem pure (holds : post a) : Ensures (Pure.pure a) post := ok holds

theorem stop (stop : Stop) : Ensures (.error stop) post := fun _ same => by cases same

theorem bind (first : Ensures x mid) (rest : ∀ a, mid a → Ensures (f a) last) : Ensures (x >>= f) last := by
  intro b ret
  obtain ⟨a, before, after⟩ := of_bind ret
  exact rest a (first a before) b after

theorem read (rest : ∀ a, x = .ok a → Ensures (f a) last) : Ensures (x >>= f) last := bind (fun _ same => same) rest

theorem ite {c : Prop} [Decidable c] (yes : c → Ensures x post) (no : ¬c → Ensures y post) : Ensures (if c then x else y) post := by
  split
  next holds => exact yes holds
  next fails => exact no fails

theorem guard {c : Prop} [Decidable c] (holds : post a) (no : ¬c → Ensures y post) : Ensures (if c then Pure.pure a else y) post :=
  ite (fun _ => pure holds) no

theorem mono (ensures : Ensures x mid) (weaker : ∀ a, mid a → post a) : Ensures x post :=
  fun a ret => weaker a (ensures a ret)

theorem forRange_upto {body : Nat → σ → Outcome σ} (inv : Nat → σ → Prop) {last : Nat} {s : σ}
    (length : first + n = last) (initial : inv first s) (kept : ∀ i s, inv i s → Ensures (body i s) (inv (i + 1))) :
    Ensures (forRange body n first s) (inv last) := by
  induction n generalizing first s with
  | zero => exact ok (length ▸ initial)
  | succ n ih => exact bind (kept first s initial) fun mid next => ih (by omega) next

theorem forRange {body : Nat → σ → Outcome σ} {inv : σ → Prop} {s : σ} (initial : inv s)
    (kept : ∀ i s, inv s → Ensures (body i s) inv) : Ensures (forRange body n first s) inv :=
  forRange_upto (fun _ => inv) rfl initial kept

end Ensures

/-- The code returns a result with the property `post`, or it stops in a way that `fails` allows. -/
def Meets (x : Outcome α) (post : α → Prop) (fails : Stop → Prop) : Prop :=
  match x with
  | .ok a => post a
  | .error stop => fails stop

namespace Meets

variable {x : Outcome α} {f : α → Outcome β} {mid post : α → Prop} {last : β → Prop} {fails : Stop → Prop}

theorem bind (first : Meets x mid fails) (rest : ∀ a, mid a → Meets (f a) last fails) : Meets (x >>= f) last fails := by
  cases x with
  | error stop => exact first
  | ok a => exact rest a first

theorem weaken {fails' : Stop → Prop} (meets : Meets x mid fails) (weaker : ∀ a, mid a → post a)
    (allowed : ∀ stop, fails stop → fails' stop) : Meets x post fails' := by
  cases x with
  | error stop => exact allowed stop meets
  | ok a => exact weaker a meets

theorem failed {stop : Stop} (meets : Meets x post fails) (stopped : x = .error stop) : fails stop := by
  subst stopped
  exact meets

theorem forRange (inv : Nat → σ → Prop) {last : Nat} (length : first + n = last)
    (kept : ∀ i s, first ≤ i → i < last → inv i s → Meets (body i s) (inv (i + 1)) fails) (initial : inv first s) :
    Meets (Outcome.forRange body n first s) (inv last) fails := by
  induction n generalizing first s with
  | zero => exact length ▸ initial
  | succ n ih =>
    exact (kept first s (Nat.le_refl first) (by omega) initial).bind fun s' next =>
      ih (by omega) (fun i s low => kept i s (by omega)) next

end Meets

/-- With enough fuel the code does not diverge, and then it does not depend on the fuel. -/
def Settles (run : Nat → Outcome α) : Prop := ∃ n r, r ≠ .error .diverges ∧ ∀ fuel, n ≤ fuel → run fuel = r

namespace Settles

variable {run : Nat → Outcome α} {rest : Nat → α → Outcome β}

theorem of_eq (ends : x ≠ .error .diverges) (same : ∀ fuel, run fuel = x) : Settles run :=
  ⟨0, x, ends, fun fuel _ => same fuel⟩

theorem ok (same : ∀ fuel, run fuel = .ok a) : Settles run := of_eq (fun stopped => by cases stopped) same

theorem of_succ (settles : Settles fun fuel => run (fuel + 1)) : Settles run := by
  obtain ⟨n, r, ends, same⟩ := settles
  refine ⟨n + 1, r, ends, fun fuel enough => ?_⟩
  obtain ⟨k, rfl⟩ : ∃ k, fuel = k + 1 := ⟨fuel - 1, by omega⟩
  exact same k (by omega)

theorem bind {x : Outcome α} {n : Nat} (ends : x ≠ .error .diverges) (same : ∀ fuel, n ≤ fuel → run fuel = x)
    (later : ∀ a, x = .ok a → Settles fun fuel => rest fuel a) : Settles fun fuel => run fuel >>= rest fuel := by
  cases x with
  | error stop =>
    refine ⟨n, .error stop, fun same => ends (congrArg _ (Except.error.inj same)), fun fuel enough => ?_⟩
    simp only [same fuel enough, error_bind]
  | ok a =>
    obtain ⟨n', r', ends', same'⟩ := later a rfl
    refine ⟨max n n', r', ends', fun fuel enough => ?_⟩
    simp only [same fuel (by omega), ok_bind]
    exact same' fuel (by omega)

end Settles

end Outcome
end Xos
