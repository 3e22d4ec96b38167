import Mathlib.Tactic.Common

/-!
# Computations that leave a trail

`Traced A ε α` may fail with an `ε`, and appends what it does on the way to a trail of `A`s. It is
written beside a plain computation in `Except ε` to say what that one evaluates.
`Trails safe t m`: where `m` succeeds, `t` succeeds with the same value, and everything it adds to
the trail is safe. The rules are one for each way of combining computations; what the plain
computation has checked by the time of a step may be used to show that the step is safe.
-/

namespace Rpma.Lib

/-- A computation with a trail. -/
abbrev Traced (A ε α : Type) := StateT (List A) (Except ε) α

namespace Traced

variable {A ε α β : Type}

/-- Add to the trail. -/
def touch (a : A) : Traced A ε Unit := fun trail => .ok ((), trail ++ [a])

/-- A computation that adds nothing. -/
def lift (m : Except ε α) : Traced A ε α := fun trail => m.map fun a => (a, trail)

/-- `t` does what `m` does, and leaves a safe trail. -/
def Trails (safe : A → Prop) (t : Traced A ε α) (m : Except ε α) : Prop :=
  ∀ trail a, m = .ok a → ∃ new, t trail = .ok (a, trail ++ new) ∧ ∀ x ∈ new, safe x

variable {safe : A → Prop} {t t' : Traced A ε α} {m m' : Except ε α}

theorem Trails.pure (a : α) : Trails safe (Pure.pure a : Traced A ε α) (.ok a) := by
  rintro trail _ ⟨⟩
  exact ⟨[], by rw [List.append_nil]; rfl, by simp⟩

theorem Trails.lift (m : Except ε α) : Trails safe (Traced.lift m) m := by
  rintro trail a rfl
  exact ⟨[], by simp [Traced.lift, Except.map], by simp⟩

theorem Trails.bind {f : α → Traced A ε β} {g : α → Except ε β} (hm : Trails safe t m)
    (hf : ∀ a, m = .ok a → Trails safe (f a) (g a)) : Trails safe (t >>= f) (m >>= g) := by
  intro trail b hb
  cases m with
  | error e => cases hb
  | ok a =>
    obtain ⟨new, ht, hsafe⟩ := hm trail a rfl
    obtain ⟨new', hf', hsafe'⟩ := hf a rfl (trail ++ new) b hb
    refine ⟨new ++ new', ?_, List.forall_mem_append.mpr ⟨hsafe, hsafe'⟩⟩
    rw [← List.append_assoc, ← hf']
    change (t trail >>= fun p => f p.1 p.2) = _
    rw [ht]
    rfl

/-- A step only the trail sees; it has to be safe wherever the computation succeeds. -/
theorem Trails.touch {x : A} (hx : ∀ a, m = .ok a → safe x) (h : Trails safe t m) :
    Trails safe (Traced.touch x >>= fun _ => t) m := by
  intro trail a ha
  obtain ⟨new, ht, hsafe⟩ := h (trail ++ [x]) a ha
  refine ⟨x :: new, ?_, List.forall_mem_cons.mpr ⟨hx a ha, hsafe⟩⟩
  rw [List.append_cons]
  exact ht

theorem Trails.ite {c : Prop} [Decidable c] (h : c → Trails safe t m)
    (h' : ¬ c → Trails safe t' m') :
    Trails safe (if c then t else t') (if c then m else m') := by
  split
  · exact h ‹_›
  · exact h' ‹_›

end Traced

end Rpma.Lib
