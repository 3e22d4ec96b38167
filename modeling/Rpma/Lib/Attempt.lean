import Mathlib.Tactic.Common

/-!
# Programs that may raise, over a state that survives

An `Attempt σ α` runs from a state, ends in a state, and returns an `α` or raises. What it has
written before it raises stays written: this is a program over a disk, not a transaction.

* `Spec E P m Q`: from a state in `P`, `m` returns in `Q` or raises in `E`. The rules are one per
  way of combining programs.
* `zoom`: a program over a part of the state. It leaves the rest as it is (`Spec.zoom`).
* `Keeps g m`: `m` never writes what `g` reads. What is said about it is framed (`Spec.frame`).
-/

namespace Rpma.Lib

/-- A program over `σ` that returns an `α` or raises. -/
def Attempt (σ α : Type) := σ → Option α × σ

namespace Attempt

variable {σ τ α β : Type}

instance : Monad (Attempt σ) where
  pure a := fun s => (some a, s)
  bind m f := fun s =>
    match m s with
    | (some a, s') => f a s'
    | (none, s') => (none, s')

/-- Raise. -/
def raise : Attempt σ α := fun s => (none, s)

/-- Raise on `none`. -/
def ofOption : Option α → Attempt σ α
  | some a => pure a
  | none => raise

/-- Read a part of the state. -/
def gets (f : σ → α) : Attempt σ α := fun s => (some (f s), s)

/-- Write. -/
def modify (f : σ → σ) : Attempt σ Unit := fun s => (some (), f s)

/-- Run on the part of the state that `get` reads and `put` writes. -/
def zoom (get : σ → τ) (put : σ → τ → σ) (m : Attempt τ α) : Attempt σ α := fun s =>
  ((m (get s)).1, put s (m (get s)).2)

/-- From a state in `P`, `m` returns in `Q` or raises in `E`. -/
def Spec (E P : σ → Prop) (m : Attempt σ α) (Q : α → σ → Prop) : Prop :=
  ∀ s, P s → match m s with
    | (some a, s') => Q a s'
    | (none, s') => E s'

variable {E P P' : σ → Prop} {m : Attempt σ α} {f : α → Attempt σ β} {Q Q' : α → σ → Prop}
  {S : β → σ → Prop}

/-- What a run that returned, or raised, has come to. -/
theorem Spec.run (hm : Spec E P m Q) {s : σ} (hp : P s) :
    ((m s).1 = none → E (m s).2) ∧ ∀ a, (m s).1 = some a → Q a (m s).2 := by
  have h := hm s hp
  generalize m s = out at h
  obtain ⟨_ | a, s'⟩ := out
  · exact ⟨fun _ => h, fun b hb => absurd hb (by simp)⟩
  · exact ⟨fun hn => absurd hn (by simp), fun b hb => Option.some.inj hb ▸ h⟩

theorem Spec.pure {a : α} (h : ∀ s, P s → Q a s) : Spec E P (Pure.pure a) Q := fun s hp => h s hp

theorem Spec.bind (hm : Spec E P m Q) (hf : ∀ a, Spec E (Q a) (f a) S) :
    Spec E P (m >>= f) S := by
  intro s hp
  have hs := hm s hp
  show match (match m s with
      | (some a, s') => f a s'
      | (none, s') => (none, s')) with
    | (some b, s') => S b s'
    | (none, s') => E s'
  generalize m s = out at hs
  obtain ⟨_ | a, s'⟩ := out
  · exact hs
  · exact hf a s' hs

theorem Spec.raise (h : ∀ s, P s → E s) : Spec E P (Attempt.raise : Attempt σ α) Q :=
  fun s hp => h s hp

theorem Spec.ofOption {v : Option α} (hn : ∀ s, P s → E s)
    (h : ∀ a, v = some a → ∀ s, P s → Q a s) : Spec E P (Attempt.ofOption v) Q := by
  cases v with
  | none => exact Spec.raise hn
  | some a => exact Spec.pure (h a rfl)

theorem Spec.gets {f : σ → α} (h : ∀ s, P s → Q (f s) s) : Spec E P (Attempt.gets f) Q :=
  fun s hp => h s hp

theorem Spec.modify {f : σ → σ} {Q : Unit → σ → Prop} (h : ∀ s, P s → Q () (f s)) :
    Spec E P (Attempt.modify f) Q := fun s hp => h s hp

theorem Spec.conseq (hm : Spec E P m Q) (hp : ∀ s, P' s → P s) (hq : ∀ a s, Q a s → Q' a s) :
    Spec E P' m Q' := by
  intro s hs
  have h := hm s (hp s hs)
  generalize m s = out at h
  obtain ⟨_ | a, s'⟩ := out
  · exact h
  · exact hq a s' h

theorem Spec.raise_imp {F : σ → Prop} (hm : Spec E P m Q) (he : ∀ s, E s → F s) :
    Spec F P m Q := by
  intro s hs
  have h := hm s hs
  generalize m s = out at h
  obtain ⟨_ | a, s'⟩ := out
  · exact he s' h
  · exact h

/-- A case distinction in the precondition. -/
theorem Spec.ite {c : Prop} [Decidable c] {n : Attempt σ α} (ht : c → Spec E P m Q)
    (hf : ¬ c → Spec E P n Q) : Spec E P (if c then m else n) Q := by
  split
  · exact ht ‹_›
  · exact hf ‹_›

/-- A fact about values in the precondition is a hypothesis. -/
theorem Spec.and_pure {φ : Prop} (h : φ → Spec E P m Q) : Spec E (fun s => P s ∧ φ) m Q :=
  fun s hp => h hp.2 s hp.1

/-- A program on a part of the state leaves the rest as it is. -/
theorem Spec.zoom {get : τ → σ} {put : τ → σ → τ} {F R : τ → Prop} {T : α → τ → Prop}
    (h : ∀ t, R t → Spec (fun s => F (put t s)) (fun s => s = get t) m fun a s => T a (put t s)) :
    Spec F R (zoom get put m) T := by
  intro t hr
  have hs := h t hr (get t) rfl
  show match ((m (get t)).1, put t (m (get t)).2) with
    | (some a, t') => T a t'
    | (none, t') => F t'
  generalize m (get t) = out at hs
  obtain ⟨_ | a, s'⟩ := out <;> exact hs

/-! ## What a program leaves alone -/

/-- `m` never writes what `g` reads. -/
def Keeps (g : σ → τ) (m : Attempt σ α) : Prop := ∀ s, g (m s).2 = g s

variable {g : σ → τ}

theorem Keeps.modify {f : σ → σ} (h : ∀ s, g (f s) = g s) : Keeps g (Attempt.modify f) := h

theorem Keeps.bind (hm : Keeps g m) (hf : ∀ a, Keeps g (f a)) : Keeps g (m >>= f) := by
  intro s
  have hs := hm s
  show g (match m s with
      | (some a, s') => f a s'
      | (none, s') => (none, s')).2 = g s
  generalize m s = out at hs
  obtain ⟨_ | a, s'⟩ := out
  · exact hs
  · exact (hf a s').trans hs

theorem Keeps.zoom {get : σ → τ} {put : σ → τ → σ} {g : σ → β} {m : Attempt τ α}
    (h : ∀ s t, g (put s t) = g s) : Keeps g (zoom get put m) := fun s => h s _

/-- The frame rule. -/
theorem Spec.frame (hm : Spec E P m Q) (hk : Keeps g m) (F : τ → Prop) :
    Spec E (fun s => P s ∧ F (g s)) m fun a s => Q a s ∧ F (g s) := by
  intro s hs
  have h := hm s hs.1
  have hg := hk s
  generalize m s = out at h hg
  obtain ⟨_ | a, s'⟩ := out
  · exact h
  · exact ⟨h, hg ▸ hs.2⟩

end Attempt

end Rpma.Lib
