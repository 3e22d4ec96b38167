import Mathlib.Data.List.Basic

/-!
# First occurrences up to an equivalence

`firsts eq l` are the elements of `l` that equal none before them, for a decidable equivalence
`eq` that need not be the identity. `rank eq l e` is the position among them of the one that
equals `e`: it numbers the classes of `l` in the order in which they occur first.

* `pairwise_firsts`, `exists_firsts`: one element of every class.
* `rank_eq_iff`: two elements have one rank iff they are equal.
* `keepFrom_eq`: the list that grows by every element equal to none of its own is `firsts`.
-/

namespace Rpma.Lib

variable {α : Type}

/-- The elements of the second list that equal none before them, the first list included. -/
def firstsFrom (eq : α → α → Bool) : List α → List α → List α
  | _, [] => []
  | seen, e :: es =>
    if seen.any (eq e) then firstsFrom eq (seen ++ [e]) es
    else e :: firstsFrom eq (seen ++ [e]) es

/-- The first occurrences of a list. -/
def firsts (eq : α → α → Bool) (l : List α) : List α := firstsFrom eq [] l

/-- The number of the class of `e` among the classes of `l`. -/
def rank (eq : α → α → Bool) (l : List α) (e : α) : Nat := (firsts eq l).findIdx (eq e)

/-- Append every element of the second list that equals none of the growing first one. -/
def keepFrom (eq : α → α → Bool) : List α → List α → List α
  | fs, [] => fs
  | fs, e :: es => keepFrom eq (if fs.any (eq e) then fs else fs ++ [e]) es

theorem prefix_keepFrom (eq : α → α → Bool) : ∀ fs es : List α, fs <+: keepFrom eq fs es
  | _, [] => List.prefix_rfl
  | fs, e :: es => by
    rw [keepFrom]
    split
    · exact prefix_keepFrom eq fs es
    · exact (List.prefix_append fs [e]).trans (prefix_keepFrom eq (fs ++ [e]) es)

theorem firstsFrom_sublist (eq : α → α → Bool) : ∀ seen l : List α,
    (firstsFrom eq seen l).Sublist l
  | _, [] => List.Sublist.slnil
  | seen, e :: es => by
    rw [firstsFrom]
    split
    · exact (firstsFrom_sublist eq _ es).cons e
    · exact (firstsFrom_sublist eq _ es).cons_cons e

theorem mem_of_mem_firsts {eq : α → α → Bool} {l : List α} {e : α} (h : e ∈ firsts eq l) : e ∈ l :=
  (firstsFrom_sublist eq [] l).subset h

/-- A decidable equivalence. -/
def IsEquiv (eq : α → α → Bool) : Prop := Equivalence fun a b => eq a b = true

variable {eq : α → α → Bool} (heq : IsEquiv eq)

include heq

/-- What has been kept stands for what has been seen. -/
theorem keepFrom_eq_append : ∀ es seen fs : List α,
    (∀ x ∈ seen, ∃ f ∈ fs, eq x f = true) → (∀ f ∈ fs, f ∈ seen) →
    keepFrom eq fs es = fs ++ firstsFrom eq seen es
  | [], seen, fs, _, _ => by simp [keepFrom, firstsFrom]
  | e :: es, seen, fs, hseen, hfs => by
    have hany : fs.any (eq e) = seen.any (eq e) := by
      rw [Bool.eq_iff_iff, List.any_eq_true, List.any_eq_true]
      constructor
      · rintro ⟨f, hf, he⟩
        exact ⟨f, hfs f hf, he⟩
      · rintro ⟨x, hx, he⟩
        obtain ⟨f, hf, hxf⟩ := hseen x hx
        exact ⟨f, hf, heq.trans he hxf⟩
    rw [keepFrom, firstsFrom, hany]
    split
    · rename_i hfound
      refine keepFrom_eq_append es _ fs (fun x hx => ?_) fun f hf =>
        List.mem_append_left _ (hfs f hf)
      rcases List.mem_append.mp hx with hx | hx
      · exact hseen x hx
      · rw [← hany, List.any_eq_true] at hfound
        rw [List.mem_singleton.mp hx]
        exact hfound
    · rw [keepFrom_eq_append es (seen ++ [e]) (fs ++ [e])]
      · simp
      · intro x hx
        rcases List.mem_append.mp hx with hx | hx
        · obtain ⟨f, hf, hxf⟩ := hseen x hx
          exact ⟨f, List.mem_append_left _ hf, hxf⟩
        · exact ⟨e, by simp, by rw [List.mem_singleton.mp hx]; exact heq.refl e⟩
      · intro f hf
        rcases List.mem_append.mp hf with hf | hf
        · exact List.mem_append_left _ (hfs f hf)
        · exact List.mem_append_right _ hf

/-- **The growing list ends as the first occurrences.** -/
theorem keepFrom_eq (l : List α) : keepFrom eq [] l = firsts eq l := by
  rw [keepFrom_eq_append heq l [] [] (by simp) (by simp)]
  rfl

/-- No two of the first occurrences are equal. -/
theorem pairwise_keepFrom {es : List α} : ∀ {fs : List α},
    fs.Pairwise (fun a b => eq a b = false) →
    (keepFrom eq fs es).Pairwise fun a b => eq a b = false := by
  induction es with
  | nil => exact fun h => h
  | cons e es ih =>
    intro fs h
    rw [keepFrom]
    split
    · exact ih h
    · rename_i hnone
      refine ih (List.pairwise_append.mpr ⟨h, List.pairwise_singleton _ _, ?_⟩)
      intro a ha b hb
      obtain rfl := List.mem_singleton.mp hb
      rw [Bool.eq_false_iff]
      exact fun hab => hnone (List.any_eq_true.mpr ⟨a, ha, heq.symm hab⟩)

theorem pairwise_firsts (l : List α) : (firsts eq l).Pairwise fun a b => eq a b = false := by
  rw [← keepFrom_eq heq]
  exact pairwise_keepFrom heq List.Pairwise.nil

/-- Two of the first occurrences that are equal are one. -/
theorem firsts_inj {l : List α} {i j : Nat} {a b : α} (hi : (firsts eq l)[i]? = some a)
    (hj : (firsts eq l)[j]? = some b) (hab : eq a b = true) : i = j := by
  obtain ⟨hilt, rfl⟩ := List.getElem?_eq_some_iff.mp hi
  obtain ⟨hjlt, rfl⟩ := List.getElem?_eq_some_iff.mp hj
  have hpair := List.pairwise_iff_getElem.mp (pairwise_firsts heq l)
  rcases Nat.lt_trichotomy i j with h | h | h
  · exact absurd hab (by rw [hpair i j hilt hjlt h]; simp)
  · exact h
  · exact absurd (heq.symm hab) (by rw [hpair j i hjlt hilt h]; simp)

/-- The rank of an element is settled as soon as it has been looked at. -/
theorem findIdx_keepFrom (fs es : List α) (e : α) :
    (keepFrom eq fs (e :: es)).findIdx (eq e) = fs.findIdx (eq e) := by
  rw [keepFrom]
  split
  · rename_i hfound
    obtain ⟨rest, hrest⟩ := prefix_keepFrom eq fs es
    rw [← hrest, List.findIdx_append, if_pos (List.findIdx_lt_length.mpr
      (List.any_eq_true.mp hfound))]
  · rename_i hnone
    obtain ⟨rest, hrest⟩ := prefix_keepFrom eq (fs ++ [e]) es
    have hall : fs.findIdx (eq e) = fs.length := List.findIdx_eq_length.mpr fun x hx => by
      rw [Bool.eq_false_iff]
      exact fun hx' => hnone (List.any_eq_true.mpr ⟨x, hx, hx'⟩)
    have hself : eq e e = true := heq.refl e
    rw [← hrest, List.append_assoc, List.findIdx_append, hall, if_neg (Nat.lt_irrefl _)]
    simp [List.findIdx_cons, hself]

/-- Every element equals the first occurrence at its rank. -/
theorem firsts_rank {l : List α} {e : α} (he : e ∈ l) :
    ∃ f, (firsts eq l)[rank eq l e]? = some f ∧ eq e f = true := by
  have hcover : ∀ (es fs : List α), e ∈ es → ∃ f ∈ keepFrom eq fs es, eq e f = true := by
    intro es
    induction es with
    | nil => exact fun _ h => absurd h (by simp)
    | cons x es ih =>
      intro fs hx
      rcases List.mem_cons.mp hx with rfl | hx
      · have hpre := prefix_keepFrom eq (if fs.any (eq e) then fs else fs ++ [e]) es
        rw [keepFrom]
        split at hpre
        · rename_i hfound
          obtain ⟨f, hf, hef⟩ := List.any_eq_true.mp hfound
          rw [if_pos hfound]
          exact ⟨f, hpre.subset hf, hef⟩
        · rename_i hnone
          rw [if_neg hnone]
          exact ⟨e, hpre.subset (by simp), heq.refl e⟩
      · rw [keepFrom]
        exact ih _ hx
  obtain ⟨f, hf, hef⟩ := hcover l [] he
  rw [keepFrom_eq heq] at hf
  have hlt : rank eq l e < (firsts eq l).length := List.findIdx_lt_length.mpr ⟨f, hf, hef⟩
  exact ⟨_, List.getElem?_eq_getElem hlt, List.findIdx_getElem⟩

/-- **Two elements have one rank iff they are equal.** -/
theorem rank_eq_iff {l : List α} {a b : α} (ha : a ∈ l) (hb : b ∈ l) :
    rank eq l a = rank eq l b ↔ eq a b = true := by
  obtain ⟨f, hf, haf⟩ := firsts_rank heq ha
  obtain ⟨g, hg, hbg⟩ := firsts_rank heq hb
  constructor
  · intro h
    rw [h] at hf
    obtain rfl := Option.some.inj (hf.symm.trans hg)
    exact heq.trans haf (heq.symm hbg)
  · intro hab
    exact firsts_inj heq hf hg (heq.trans (heq.symm haf) (heq.trans hab hbg))

end Rpma.Lib
