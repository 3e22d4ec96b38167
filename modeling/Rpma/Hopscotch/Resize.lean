import Rpma.Hopscotch.Insert

/-!
# Removal and rehashing

* **`hopscotchRemove_spec`**: a removal returns the map's value and drops exactly that key.
* `rehash_spec`: the re-insertion loop builds a table standing for the old buckets it has passed.
* **`hopscotchResize_spec`**: a resize that returns `0` stands for the same map under the new
  exponent; one that returns `-1` gives back the old exponent and bucket array.
-/

namespace Rpma.Hopscotch

open Rpma.Lib
open HashTable (get_ok modify_ok SameShape)

variable {P D : Type} {hash : Hash} {mem : Mem P} {ht : HashTable P D}

/-! ## Removal -/

/-- **`hopscotch_remove` returns the map's value and drops only that key**; it changes nothing
when the key is absent, and does not fault. -/
theorem hopscotchRemove_spec (hwf : WF hash mem ht) {m : List UInt8 → Option D}
    (hm : Rep mem ht m) (key : P) :
    ∃ ht', hopscotchRemove hash mem ht key = .ok (m (keyBytes mem ht.keylen key), ht') ∧
      WF hash mem ht' ∧ SameShape ht' ht ∧
      Rep mem ht' (Function.update m (keyBytes mem ht.keylen key) none) ∧
      (m (keyBytes mem ht.keylen key) = none → ht' = ht) := by
  have hidx := homeIdx_lt hash mem ht key
  rcases scan_or_absent hwf key with ⟨o, ho, hne, hscan, hbit, hh⟩ | ⟨hno, h0⟩
  · obtain ⟨hval, hsome⟩ := hm.eq_of_holds hwf hh
    refine ⟨Hopscotch.erased ht (homeIdx hash mem ht key) o, ?_, hwf.erased hidx ho hbit,
      ⟨rfl, rfl⟩, hm.erased hwf hh, fun h => absurd h hsome⟩
    unfold hopscotchRemove
    simp only [get_ok hidx, ok_bind, if_neg hne, hscan, get_ok hh.1]
    rw [modify_ok hidx, ok_bind, modify_ok (by exact hh.1), ok_bind, modify_ok (by exact hh.1),
      ok_bind, upd_erased, hval]
    rfl
  · have hmn := hm.eq_none_of_not_holds hno
    refine ⟨ht, ?_, hwf, ⟨rfl, rfl⟩, ?_, fun _ => rfl⟩
    · rw [hmn]
      by_cases hz : (ht.buckets (homeIdx hash mem ht key)).hopinfo = 0#32
      · simp [hopscotchRemove, get_ok hidx, hz]
      · simp [hopscotchRemove, get_ok hidx, h0.resolve_left hz]
    · rw [← hmn, Function.update_eq_self]
      exact hm

/-! ## Rehashing -/

/-- A zeroed table has no key. -/
theorem WF.empty (e k : Nat) :
    WF hash mem (⟨e, k, fun _ => .zero⟩ : HashTable P D) := by
  have hno : ∀ kb s, ¬ Holds mem (⟨e, k, fun _ => .zero⟩ : HashTable P D) kb s := by
    rintro kb s ⟨-, p, hp, -⟩
    simp [Bucket.zero] at hp
  refine ⟨fun b _ i _ => ?_, fun s _ p hp => ?_, fun kb s t h => absurd h (hno kb s), ?_⟩
  · simp [Bucket.zero]
  · simp [Bucket.zero] at hp
  · intro s _ hk
    simp [Bucket.zero] at hk

theorem Rep.empty (e k : Nat) :
    Rep mem (⟨e, k, fun _ => .zero⟩ : HashTable P D) fun _ => none := by
  intro kb d
  constructor
  · intro h
    exact absurd h (by simp)
  · rintro ⟨s, ⟨-, p, hp, -⟩, -⟩
    simp [Bucket.zero] at hp

/-- `m` is the part of the old table's map held by its buckets below `i`. -/
def RepBelow (mem : Mem P) (ht : HashTable P D) (i : Nat) (m : List UInt8 → Option D) : Prop :=
  ∀ kb d, m kb = some d ↔ ∃ s < i, Holds mem ht kb s ∧ (ht.buckets s).data = some d

theorem RepBelow.skip {m : List UInt8 → Option D} {i : Nat} (h : RepBelow mem ht i m)
    (hk : (ht.buckets i).key = none) : RepBelow mem ht (i + 1) m := by
  intro kb d
  rw [h kb d]
  constructor
  · rintro ⟨s, hs, hh⟩
    exact ⟨s, by omega, hh⟩
  · rintro ⟨s, hs, hh⟩
    refine ⟨s, ?_, hh⟩
    have : s ≠ i := by
      rintro rfl
      obtain ⟨⟨-, p, hp, -⟩, -⟩ := hh
      rw [hk] at hp
      exact absurd hp (by simp)
    omega

theorem RepBelow.take (hwf : WF hash mem ht) {m : List UInt8 → Option D} {i : Nat}
    (h : RepBelow mem ht i m) (hi : i < ht.sz) {p : P} {d : D} (hk : (ht.buckets i).key = some p)
    (hd : (ht.buckets i).data = some d) :
    RepBelow mem ht (i + 1) (Function.update m (keyBytes mem ht.keylen p) (some d)) := by
  have hh : Holds mem ht (keyBytes mem ht.keylen p) i := ⟨hi, p, hk, rfl⟩
  intro kb e
  by_cases hkb : kb = keyBytes mem ht.keylen p
  · subst hkb
    rw [Function.update_self]
    constructor
    · intro he
      exact ⟨i, by omega, hh, he ▸ hd⟩
    · rintro ⟨s, -, hs, hse⟩
      rw [hwf.distinct _ s i hs hh, hd] at hse
      exact hse
  · rw [Function.update_of_ne hkb, h kb e]
    constructor
    · rintro ⟨s, hs, hse⟩
      exact ⟨s, by omega, hse⟩
    · rintro ⟨s, hs, hse⟩
      refine ⟨s, ?_, hse⟩
      have : s ≠ i := by
        rintro rfl
        obtain ⟨⟨-, q, hq, hqb⟩, -⟩ := hse
        rw [hk] at hq
        cases hq
        exact hkb hqb.symm
      omega

/-- The re-insertion loop from bucket `i` on either gives up on a negative code or ends in a
table that stands for the old table's map. -/
theorem rehash_spec (hwf : WF hash mem ht) {m : List UInt8 → Option D} (hm : Rep mem ht m) :
    ∀ (n i : Nat) (nt : HashTable P D) (m' : List UInt8 → Option D), i + n = ht.sz →
      nt.keylen = ht.keylen → WF hash mem nt → Rep mem nt m' → RepBelow mem ht i m' →
      rehash hash mem ht.buckets n i nt = .ok none ∨
      ∃ nt', rehash hash mem ht.buckets n i nt = .ok (some nt') ∧ WF hash mem nt' ∧
        Rep mem nt' m ∧ SameShape nt' nt
  | 0, i, nt, m', hi, _, hwfn, hmn, hbelow => by
    have hmm : m' = m := by
      funext kb
      refine Option.ext fun d => ?_
      rw [hbelow kb d, hm kb d]
      constructor
      · rintro ⟨s, -, hs⟩
        exact ⟨s, hs⟩
      · rintro ⟨s, hs⟩
        have := hs.1.1
        exact ⟨s, by omega, hs⟩
    exact Or.inr ⟨nt, rfl, hwfn, hmm ▸ hmn, ⟨rfl, rfl⟩⟩
  | n + 1, i, nt, m', hi, hkl, hwfn, hmn, hbelow => by
    cases hk : (ht.buckets i).key with
    | none =>
      simp only [rehash, hk]
      exact rehash_spec hwf hm n (i + 1) nt m' (by omega) hkl hwfn hmn (hbelow.skip hk)
    | some p =>
      obtain ⟨d, hd⟩ := Option.ne_none_iff_exists'.mp
        (hwf.data_some i (by omega) (by simp [hk]))
      obtain ⟨ret, nt1, hins, hout⟩ := hopscotchInsert_spec hwfn hmn p d
      by_cases hneg : ret < 0
      · exact Or.inl (by simp [rehash, hk, hd, hins, hneg])
      · -- a non-negative code is `0`: the key was stored
        have hstep : rehash hash mem ht.buckets (n + 1) i nt =
            rehash hash mem ht.buckets n (i + 1) nt1 := by
          simp [rehash, hk, hd, hins, hneg]
        rw [hstep]
        cases hout with
        | present _ => exact absurd (by decide) hneg
        | full _ _ => exact absurd (by decide) hneg
        | stuck _ _ _ _ _ _ _ _ _ _ => exact absurd (by decide) hneg
        | stored _ _ _ hwf1 hm1 hsh _ =>
          rw [hkl] at hm1
          have hb1 := hbelow.take hwf (by omega) hk hd
          rcases rehash_spec hwf hm n (i + 1) nt1 _ (by omega) (hsh.2.trans hkl) hwf1 hm1 hb1 with
            h | ⟨nt', h, hwf', hm', hsh'⟩
          · exact Or.inl h
          · exact Or.inr ⟨nt', h, hwf', hm', hsh'.trans hsh⟩

/-- **`hopscotch_resize` keeps the map**: `-1` gives back the very table, `0` a table of the new
exponent standing for the same map. It does not fault. -/
theorem hopscotchResize_spec (hwf : WF hash mem ht) {m : List UInt8 → Option D}
    (hm : Rep mem ht m) (malloced : Bool) (delta : Int) :
    ∃ ret ht', hopscotchResize hash mem malloced ht delta = .ok (ret, ht') ∧
      ((ret = -1 ∧ ht' = ht) ∨
        (ret = 0 ∧ WF hash mem ht' ∧ Rep mem ht' m ∧ ht'.exponent = newExponent ht delta ∧
          ht'.keylen = ht.keylen)) := by
  cases malloced with
  | false => exact ⟨-1, ht, by simp [hopscotchResize], Or.inl ⟨rfl, rfl⟩⟩
  | true =>
    have hbelow : RepBelow mem ht 0 fun _ => none := by
      intro kb d
      simp
    rcases rehash_spec hwf hm ht.sz 0 ⟨newExponent ht delta, ht.keylen, fun _ => .zero⟩ _
      (by omega) rfl (WF.empty _ _) (Rep.empty _ _) hbelow with h | ⟨nt, h, hwf', hm', hsh⟩
    · exact ⟨-1, ht, by simp [hopscotchResize, h], Or.inl ⟨rfl, rfl⟩⟩
    · exact ⟨0, nt, by simp [hopscotchResize, h], Or.inr ⟨rfl, hwf', hm', hsh.1, hsh.2⟩⟩

end Rpma.Hopscotch
