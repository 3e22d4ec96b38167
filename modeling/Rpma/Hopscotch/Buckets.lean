import Rpma.Hopscotch.Invariant

/-!
# Storing and erasing one key

The two changes every operation is made of: `placed` stores a key in a hole and sets the bit of its
home, `erased` empties a bucket and clears the bit. Each is the closed form of the assignments of
the source. Both keep `WF`, and change the map at one key.
-/

namespace Rpma.Hopscotch

open Rpma.Lib
open HashTable (get_ok modify_ok SameShape)

variable {P D : Type} {hash : Hash} {mem : Mem P} {ht : HashTable P D}

/-! ## Storing -/

/-- The table after `key` was stored in bucket `s` with its home `idx`. -/
def placed (ht : HashTable P D) (idx s : Nat) (key : P) (data : Option D) : HashTable P D :=
  { ht with buckets := fun b =>
      { key := if b = s then some key else (ht.buckets b).key
        data := if b = s then data else (ht.buckets b).data
        hopinfo := if b = idx then (ht.buckets b).hopinfo ||| (1#32 <<< (s - idx))
          else (ht.buckets b).hopinfo } }

/-- The assignments that store a key, in their order, give `placed`. -/
theorem upd_placed (ht : HashTable P D) (idx s : Nat) (key : P) (data : Option D) :
    ((ht.upd s fun b => { b with key := some key }).upd s fun b => { b with data := data }).upd idx
      (fun b => { b with hopinfo := b.hopinfo ||| (1#32 <<< (s - idx)) }) =
      placed ht idx s key data := by
  unfold HashTable.upd placed
  congr 1
  funext b
  simp only [Function.update_apply]
  by_cases h1 : b = idx
  · by_cases h2 : idx = s <;> simp [h1, h2]
  · by_cases h2 : b = s
    · subst h2
      simp [h1]
    · simp [h1, h2]

/-- **Storing an absent key in a hole within reach keeps the invariant.** -/
theorem WF.placed (hwf : WF hash mem ht) {key : P} {d : D} {s : Nat}
    (hle : homeIdx hash mem ht key ≤ s) (hnear : s < homeIdx hash mem ht key + hopNumber)
    (hs : s < ht.sz) (hhole : (ht.buckets s).key = none)
    (habs : ∀ t, ¬ Holds mem ht (keyBytes mem ht.keylen key) t) :
    WF hash mem (placed ht (homeIdx hash mem ht key) s key (some d)) := by
  generalize hidx : homeIdx hash mem ht key = idx at hle hnear
  have hcongr : ∀ q, homeIdx hash mem (Hopscotch.placed ht idx s key (some d)) q =
      homeIdx hash mem ht q := homeIdx_congr hash mem ⟨rfl, rfl⟩
  have hkey : ∀ t q, ((Hopscotch.placed ht idx s key (some d)).buckets t).key = some q →
      (t = s ∧ q = key) ∨ (t ≠ s ∧ (ht.buckets t).key = some q) := by
    intro t q hq
    simp only [Hopscotch.placed] at hq
    split at hq
    · exact Or.inl ⟨‹_›, (Option.some.inj hq).symm⟩
    · exact Or.inr ⟨‹_›, hq⟩
  constructor
  · intro b hb i hi
    have hold := hwf.bit_iff b hb i hi
    show _ ↔ b + i < ht.sz ∧ _
    simp only [hcongr]
    by_cases hbi : b = idx
    · subst hbi
      have hset : ((Hopscotch.placed ht b s key (some d)).buckets b).hopinfo.getLsbD i =
          ((ht.buckets b).hopinfo.getLsbD i || decide (i = s - b)) := by
        simp only [Hopscotch.placed, if_true]
        rw [Bitmap.getLsbD_setBit _ (by exact hi)]
      rw [hset]
      by_cases h1 : i = s - b
      · simp [Hopscotch.placed, h1, show b + (s - b) = s by omega, hidx, hs]
      · have h2 : b + i ≠ s := by omega
        simpa [Hopscotch.placed, h1, h2] using hold
    · have hsame : ((Hopscotch.placed ht idx s key (some d)).buckets b).hopinfo =
          (ht.buckets b).hopinfo := by simp [Hopscotch.placed, hbi]
      rw [hsame, hold]
      by_cases h1 : b + i = s
      · rw [h1]
        simp only [Hopscotch.placed, if_true, hhole]
        constructor
        · rintro ⟨-, q, hq, -⟩
          exact absurd hq (by simp)
        · rintro ⟨-, q, hq, hqb⟩
          obtain rfl := Option.some.inj hq
          exact absurd (hidx.symm.trans hqb).symm hbi
      · simp [Hopscotch.placed, h1]
  · intro t ht' q hq
    rw [hcongr]
    rcases hkey t q hq with ⟨rfl, rfl⟩ | ⟨-, hq'⟩
    · rw [hidx]
      exact ⟨hle, hnear⟩
    · exact hwf.near t ht' q hq'
  · rintro kb t u ⟨ht', q, hq, hqb⟩ ⟨hu, r, hr, hrb⟩
    rcases hkey t q hq with ⟨rfl, rfl⟩ | ⟨-, hq'⟩ <;>
      rcases hkey u r hr with ⟨rfl, rfl⟩ | ⟨-, hr'⟩
    · rfl
    · exact absurd ⟨hu, r, hr', hrb.trans hqb.symm⟩ (habs u)
    · exact absurd ⟨ht', q, hq', hqb.trans hrb.symm⟩ (habs t)
    · exact hwf.distinct kb t u ⟨ht', q, hq', hqb⟩ ⟨hu, r, hr', hrb⟩
  · intro t ht' hk
    obtain ⟨q, hq⟩ := Option.ne_none_iff_exists'.mp hk
    rcases hkey t q hq with ⟨rfl, rfl⟩ | ⟨h1, hq'⟩
    · simp [Hopscotch.placed]
    · simpa [Hopscotch.placed, h1] using hwf.data_some t ht' (by simp [hq'])

/-- Storing an absent key adds exactly that key to the map. -/
theorem Rep.placed {m : List UInt8 → Option D} (hm : Rep mem ht m) {key : P} {d : D}
    (idx : Nat) {s : Nat} (hs : s < ht.sz) (hhole : (ht.buckets s).key = none)
    (habs : ∀ t, ¬ Holds mem ht (keyBytes mem ht.keylen key) t) :
    Rep mem (placed ht idx s key (some d))
      (Function.update m (keyBytes mem ht.keylen key) (some d)) := by
  intro kb e
  by_cases hkb : kb = keyBytes mem ht.keylen key
  · subst hkb
    rw [Function.update_self]
    constructor
    · intro he
      obtain rfl := Option.some.inj he
      exact ⟨s, ⟨hs, key, by simp [Hopscotch.placed], rfl⟩, by simp [Hopscotch.placed]⟩
    · rintro ⟨t, ⟨ht', q, hq, hqb⟩, hd⟩
      by_cases h1 : t = s
      · simpa [Hopscotch.placed, h1] using hd
      · simp only [Hopscotch.placed, if_neg h1] at hq
        exact absurd ⟨ht', q, hq, hqb⟩ (habs t)
  · rw [Function.update_of_ne hkb, hm kb e]
    constructor
    · rintro ⟨t, ⟨ht', q, hq, hqb⟩, hd⟩
      have h1 : t ≠ s := by
        rintro rfl
        rw [hhole] at hq
        exact absurd hq (by simp)
      refine ⟨t, ⟨ht', q, ?_, hqb⟩, ?_⟩ <;> simp [Hopscotch.placed, h1, hq, hd]
    · rintro ⟨t, ⟨ht', q, hq, hqb⟩, hd⟩
      by_cases h1 : t = s
      · simp only [Hopscotch.placed, if_pos h1] at hq
        obtain rfl := Option.some.inj hq
        exact absurd hqb.symm hkb
      · simp only [Hopscotch.placed, if_neg h1] at hq hd
        exact ⟨t, ⟨ht', q, hq, hqb⟩, hd⟩

/-! ## Erasing -/

/-- The table after the key at `idx + o` of home `idx` was removed. -/
def erased (ht : HashTable P D) (idx o : Nat) : HashTable P D :=
  { ht with buckets := fun b =>
      { key := if b = idx + o then none else (ht.buckets b).key
        data := if b = idx + o then none else (ht.buckets b).data
        hopinfo := if b = idx then (ht.buckets b).hopinfo &&& ~~~(1#32 <<< o)
          else (ht.buckets b).hopinfo } }

/-- The assignments of a removal, in their order, give `erased`. -/
theorem upd_erased (ht : HashTable P D) (idx o : Nat) :
    ((ht.upd idx fun b => { b with hopinfo := b.hopinfo &&& ~~~(1#32 <<< o) }).upd (idx + o)
      fun b => { b with key := none }).upd (idx + o) (fun b => { b with data := none }) =
      erased ht idx o := by
  unfold HashTable.upd erased
  congr 1
  funext b
  simp only [Function.update_apply]
  by_cases h1 : b = idx + o
  · by_cases h2 : o = 0
    · subst h2
      simp [h1]
    · simp [h1, h2]
  · by_cases h2 : b = idx
    · have h3 : o ≠ 0 := by omega
      simp [h2, h3]
    · simp [h1, h2]

theorem WF.erased (hwf : WF hash mem ht) {idx o : Nat} (hidx : idx < ht.sz) (ho : o < hopNumber)
    (hbit : (ht.buckets idx).hopinfo.getLsbD o = true) : WF hash mem (erased ht idx o) := by
  obtain ⟨-, p, hp, hhome⟩ := (hwf.bit_iff idx hidx o ho).mp hbit
  have hcongr : ∀ q, homeIdx hash mem (Hopscotch.erased ht idx o) q = homeIdx hash mem ht q :=
    homeIdx_congr hash mem ⟨rfl, rfl⟩
  have hkey : ∀ t q, ((Hopscotch.erased ht idx o).buckets t).key = some q →
      t ≠ idx + o ∧ (ht.buckets t).key = some q := by
    intro t q hq
    simp only [Hopscotch.erased] at hq
    split at hq
    · exact absurd hq (by simp)
    · exact ⟨‹_›, hq⟩
  constructor
  · intro b hb i hi
    have hold := hwf.bit_iff b hb i hi
    show _ ↔ b + i < ht.sz ∧ _
    simp only [hcongr]
    by_cases hbi : b = idx
    · subst hbi
      have hclr : ((Hopscotch.erased ht b o).buckets b).hopinfo.getLsbD i =
          ((ht.buckets b).hopinfo.getLsbD i && !decide (i = o)) := by
        simp only [Hopscotch.erased, if_true]
        rw [Bitmap.getLsbD_clearBit _ (by exact hi)]
      rw [hclr]
      by_cases h1 : i = o
      · simp [Hopscotch.erased, h1]
      · simpa [Hopscotch.erased, h1] using hold
    · have hsame : ((Hopscotch.erased ht idx o).buckets b).hopinfo = (ht.buckets b).hopinfo := by
        simp [Hopscotch.erased, hbi]
      rw [hsame, hold]
      by_cases h1 : b + i = idx + o
      · rw [h1]
        simp only [Hopscotch.erased, if_true, hp]
        constructor
        · rintro ⟨-, q, hq, hqb⟩
          obtain rfl := Option.some.inj hq
          exact absurd (hhome.symm.trans hqb).symm hbi
        · rintro ⟨-, q, hq, -⟩
          exact absurd hq (by simp)
      · simp [Hopscotch.erased, h1]
  · intro t ht' q hq
    rw [hcongr]
    exact hwf.near t ht' q (hkey t q hq).2
  · rintro kb t u ⟨ht', q, hq, hqb⟩ ⟨hu, r, hr, hrb⟩
    exact hwf.distinct kb t u ⟨ht', q, (hkey t q hq).2, hqb⟩ ⟨hu, r, (hkey u r hr).2, hrb⟩
  · intro t ht' hk
    obtain ⟨q, hq⟩ := Option.ne_none_iff_exists'.mp hk
    obtain ⟨h1, hq'⟩ := hkey t q hq
    simpa [Hopscotch.erased, h1] using hwf.data_some t ht' (by simp [hq'])

/-- The other buckets hold what they held. -/
theorem holds_erased {idx o s : Nat} {kb : List UInt8} :
    Holds mem (erased ht idx o) kb s ↔ s ≠ idx + o ∧ Holds mem ht kb s := by
  by_cases h : s = idx + o
  · simp [Holds, erased, h]
  · simp only [Holds, erased, h, ne_eq, not_false_eq_true, true_and]
    rfl

theorem Rep.erased (hwf : WF hash mem ht) {m : List UInt8 → Option D} (hm : Rep mem ht m)
    {kb : List UInt8} {idx o : Nat} (hh : Holds mem ht kb (idx + o)) :
    Rep mem (erased ht idx o) (Function.update m kb none) := by
  intro kb' e
  have hiff : (∃ s, Holds mem (Hopscotch.erased ht idx o) kb' s ∧
      ((Hopscotch.erased ht idx o).buckets s).data = some e) ↔
      ∃ s, s ≠ idx + o ∧ Holds mem ht kb' s ∧ (ht.buckets s).data = some e := by
    refine exists_congr fun s => ?_
    rw [holds_erased, and_assoc]
    refine and_congr_right fun h1 => and_congr_right fun _ => ?_
    simp [Hopscotch.erased, h1]
  rw [hiff]
  by_cases hkb : kb' = kb
  · subst hkb
    rw [Function.update_self]
    constructor
    · intro h
      exact absurd h (by simp)
    · rintro ⟨s, h1, hs, -⟩
      exact absurd (hwf.distinct kb' s _ hs hh) h1
  · rw [Function.update_of_ne hkb, hm kb' e]
    constructor
    · rintro ⟨s, hs, hd⟩
      refine ⟨s, ?_, hs, hd⟩
      rintro rfl
      obtain ⟨-, q, hq, hqb⟩ := hs
      obtain ⟨-, r, hr, hrb⟩ := hh
      rw [hq] at hr
      cases hr
      exact hkb (hqb.symm.trans hrb)
    · rintro ⟨s, -, hs, hd⟩
      exact ⟨s, hs, hd⟩

end Rpma.Hopscotch
