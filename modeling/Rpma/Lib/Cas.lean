import Mathlib.Data.Fintype.Card
import Mathlib.Data.Finset.Card

/-!
# A cell with compare-and-swap

A thread loads the cell and later compares and swaps. The swap is lost if the cell no longer has the
loaded value; then the thread has nothing loaded any more. A write is a swap that was won, or a
plain store.

* `Cell.Moved`: what a step can do to the cell.
* **`Cell.Moved.bound`**: each write makes at most all other threads lose a swap, so that of `n`
  threads at most `n - 1` swaps are lost for each write.
-/

namespace Rpma.Lib

/-- The value, and what each thread has loaded for a swap that is still to come. -/
structure Cell (T α : Type) where
  value : α
  loaded : T → Option α

namespace Cell

variable {T α : Type}

/-- The swap of the thread would be lost. -/
def Stale (c : Cell T α) (t : T) : Prop := c.loaded t ≠ none ∧ c.loaded t ≠ some c.value

instance [DecidableEq α] (c : Cell T α) (t : T) : Decidable (c.Stale t) :=
  inferInstanceAs (Decidable (_ ∧ _))

section Moves

variable [DecidableEq T]

def load (c : Cell T α) (t : T) : Cell T α :=
  { c with loaded := Function.update c.loaded t (some c.value) }

def write (c : Cell T α) (t : T) (v : α) : Cell T α := ⟨v, Function.update c.loaded t none⟩

def drop (c : Cell T α) (t : T) : Cell T α :=
  { c with loaded := Function.update c.loaded t none }

/-- A step, with the number of writes and of lost swaps in it. -/
inductive Moved (c : Cell T α) : Cell T α → Nat → Nat → Prop
  | keep : Moved c c 0 0
  | load (t : T) : Moved c (c.load t) 0 0
  | write (t : T) (v : α) : Moved c (c.write t v) 1 0
  | lose {t : T} (h : c.Stale t) : Moved c (c.drop t) 0 1

/-- Nothing was loaded, and nothing is. -/
theorem Moved.idle {c : Cell T α} {t : T} (h : c.loaded t = none) :
    c.Moved ⟨c.value, Function.update c.loaded t none⟩ 0 0 := by
  have hsame : Function.update c.loaded t none = c.loaded := h ▸ Function.update_eq_self t c.loaded
  rw [hsame]
  exact .keep

theorem stale_load {c : Cell T α} {t u : T} (h : (c.load t).Stale u) : c.Stale u := by
  by_cases hu : u = t
  · subst hu
    exact absurd (Function.update_self ..) h.2
  · simpa [Stale, load, hu] using h

theorem ne_of_stale_drop {c : Cell T α} {t u : T} (h : (c.drop t).Stale u) :
    u ≠ t ∧ c.Stale u := by
  by_cases hu : u = t
  · subst hu
    exact absurd (Function.update_self ..) h.1
  · exact ⟨hu, by simpa [Stale, drop, hu] using h⟩

theorem ne_of_stale_write {c : Cell T α} {t u : T} {v : α} (h : (c.write t v).Stale u) :
    u ≠ t := by
  rintro rfl
  exact h.1 (Function.update_self ..)

end Moves

variable [Fintype T] [DecidableEq α]

/-- The threads whose swap would be lost. -/
def stale (c : Cell T α) : Finset T := Finset.univ.filter c.Stale

@[simp] theorem mem_stale {c : Cell T α} {t : T} : t ∈ c.stale ↔ c.Stale t := by simp [stale]

/-- **Lost swaps are paid for by writes**, and so are those that would be lost now. -/
theorem Moved.bound [DecidableEq T] {c c' : Cell T α} {writes losses won lost : Nat}
    (h : Moved c c' writes losses)
    (hc : lost + c.stale.card ≤ (Fintype.card T - 1) * won) :
    lost + losses + c'.stale.card ≤ (Fintype.card T - 1) * (won + writes) := by
  cases h with
  | keep => exact hc
  | load t =>
    have hsub : (c.load t).stale ⊆ c.stale := fun u hu => by
      rw [mem_stale] at hu ⊢
      exact stale_load hu
    have hcard := Finset.card_le_card hsub
    simp only [Nat.add_zero]
    omega
  | write t v =>
    -- the writer itself has nothing loaded
    have hsub : (c.write t v).stale ⊆ Finset.univ.erase t := fun u hu =>
      Finset.mem_erase.mpr ⟨ne_of_stale_write (mem_stale.mp hu), Finset.mem_univ u⟩
    have hcard := Finset.card_le_card hsub
    rw [Finset.card_erase_of_mem (Finset.mem_univ t), Finset.card_univ] at hcard
    rw [Nat.mul_add, Nat.mul_one]
    omega
  | lose ht =>
    rename_i t
    have hsub : (c.drop t).stale ⊆ c.stale.erase t := fun u hu => by
      obtain ⟨hne, hstale⟩ := ne_of_stale_drop (mem_stale.mp hu)
      exact Finset.mem_erase.mpr ⟨hne, mem_stale.mpr hstale⟩
    have hcard := Finset.card_le_card hsub
    have hpos : 0 < c.stale.card := Finset.card_pos.mpr ⟨t, mem_stale.mpr ht⟩
    rw [Finset.card_erase_of_mem (mem_stale.mpr ht)] at hcard
    simp only [Nat.add_zero]
    omega

end Cell

end Rpma.Lib
