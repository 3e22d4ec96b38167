import Mathlib.Algebra.BigOperators.Group.List.Basic
import Mathlib.Data.List.Forall2
import Mathlib.Data.List.Lex

/-!
# Choices in lexicographic order

`cartesian c ks` lists the ways to choose an element of `c k` for every `k` of `ks`, the first `k`
the slowest.

* `mem_cartesian`: every choice is there, and nothing else.
* `pairwise_cartesian`: if every `c k` is sorted, the choices are sorted lexicographically. Sorted
  by position, this says that no choice of positions comes twice.
* `countP_cartesian`: so many choices satisfy a predicate for every `k` as the product of the
  numbers of elements that do.
-/

namespace Rpma.Lib

variable {ι α β : Type}

/-- The choices from `c k`, `k ∈ ks`. -/
def cartesian (c : ι → List α) : List ι → List (List α)
  | [] => [[]]
  | k :: ks => (c k).flatMap fun v => (cartesian c ks).map (v :: ·)

variable {c : ι → List α} {ks : List ι}

theorem mem_cartesian {vs : List α} :
    vs ∈ cartesian c ks ↔ List.Forall₂ (fun v k => v ∈ c k) vs ks := by
  induction ks generalizing vs with
  | nil => simp [cartesian]
  | cons k ks ih =>
    unfold cartesian
    simp only [List.mem_flatMap, List.mem_map, ih]
    constructor
    · rintro ⟨v, hv, vs, hvs, rfl⟩
      exact .cons hv hvs
    · intro h
      cases h with
      | cons hv hvs => exact ⟨_, hv, _, hvs, rfl⟩

theorem cartesian_congr {c' : ι → List α} (h : ∀ k ∈ ks, c k = c' k) :
    cartesian c ks = cartesian c' ks := by
  induction ks with
  | nil => rfl
  | cons k ks ih =>
    unfold cartesian
    rw [h k List.mem_cons_self, ih fun k' hk' => h k' (List.mem_cons_of_mem k hk')]

/-- Choosing images is choosing and then taking them. -/
theorem cartesian_map (f : α → β) (ks : List ι) :
    cartesian (fun k => (c k).map f) ks = (cartesian c ks).map (List.map f) := by
  induction ks with
  | nil => rfl
  | cons k ks ih =>
    unfold cartesian
    rw [ih, List.map_flatMap, List.flatMap_map]
    congr 1
    funext v
    simp only [List.map_map]
    rfl

/-- **The choices of sorted elements are sorted lexicographically.** -/
theorem pairwise_cartesian {r : α → α → Prop} (h : ∀ k ∈ ks, (c k).Pairwise r) :
    (cartesian c ks).Pairwise (List.Lex r) := by
  induction ks with
  | nil => exact List.pairwise_singleton _ _
  | cons k ks ih =>
    unfold cartesian
    have hks := ih fun k' hk' => h k' (List.mem_cons_of_mem k hk')
    rw [List.pairwise_flatMap]
    constructor
    · intro v _
      exact List.pairwise_map.mpr (hks.imp fun hlex => .cons hlex)
    · refine (h k List.mem_cons_self).imp fun hvw => ?_
      simp only [List.mem_map]
      rintro _ ⟨vs, -, rfl⟩ _ ⟨ws, -, rfl⟩
      exact .rel hvw

/-- **The choices that satisfy `p k` for every `k`** are as many as the product says. -/
theorem countP_cartesian (p : ι → α → Bool) (ks : List ι) :
    (cartesian c ks).countP (fun vs => (vs.zip ks).all fun vk => p vk.2 vk.1) =
      (ks.map fun k => (c k).countP (p k)).prod := by
  induction ks with
  | nil => rfl
  | cons k ks ih =>
    have hcons : ∀ v : α, ((cartesian c ks).map (v :: ·)).countP
          (fun vs => (vs.zip (k :: ks)).all fun vk => p vk.2 vk.1) =
        if p k v then (ks.map fun k => (c k).countP (p k)).prod else 0 := fun v => by
      rw [List.countP_map, ← ih]
      cases hp : p k v <;> simp [Function.comp_def, hp]
    unfold cartesian
    rw [List.countP_flatMap, List.map_cons, List.prod_cons]
    simp only [Function.comp_def, hcons]
    induction c k with
    | nil => simp
    | cons v vs ihv =>
      rw [List.map_cons, List.sum_cons, ihv, List.countP_cons]
      cases p k v <;> simp [Nat.add_mul, Nat.add_comm]

end Rpma.Lib
