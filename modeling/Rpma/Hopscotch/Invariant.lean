import Rpma.Lib.Bitmap
import Rpma.Hopscotch.Table

/-!
# The bitmap invariant of the hopscotch table

`WF` links every bitmap bit to every slot: bit `i` of bucket `b` is set iff bucket `b + i` holds
a key whose home is `b`; every key lies fewer than `hopNumber` buckets after its home; no two
buckets hold equal keys; a bucket with a key has data. `Rep` says which finite map from
`keylen`-byte keys to data a table stands for.

Every operation has one spec lemma over `WF` and `Rep`, the only place where its definition is
unfolded. Here `hopscotchLookup_spec`: a lookup returns the map's value and does not fault.
-/

namespace Rpma.Hopscotch

open Rpma.Lib

variable {P D : Type}

@[simp] theorem ok_bind {α β : Type} (a : α) (f : α → Except Fault β) :
    (Except.ok a >>= f) = f a := rfl

@[simp] theorem pure_eq_ok {α : Type} (a : α) : (pure a : Except Fault α) = .ok a := rfl

/-! ## Accesses inside the table -/

namespace HashTable

theorem get_ok {ht : HashTable P D} {i : Nat} (h : i < ht.sz) :
    ht.get i = .ok (ht.buckets i) := if_pos h

theorem modify_ok {ht : HashTable P D} {i : Nat} (h : i < ht.sz)
    (f : Bucket P D → Bucket P D) : ht.modify i f = .ok (ht.upd i f) := if_pos h

/-- The same exponent and key length, hence the same homes. -/
def SameShape (ht' ht : HashTable P D) : Prop :=
  ht'.exponent = ht.exponent ∧ ht'.keylen = ht.keylen

theorem SameShape.sz_eq {ht' ht : HashTable P D} (h : SameShape ht' ht) : ht'.sz = ht.sz := by
  unfold sz; rw [h.1]

theorem SameShape.trans {a b c : HashTable P D} (h : SameShape a b) (h' : SameShape b c) :
    SameShape a c := ⟨h.1.trans h'.1, h.2.trans h'.2⟩

end HashTable

open HashTable (get_ok modify_ok SameShape)

theorem subSize_ok {a b : Nat} (h : b ≤ a) : subSize a b = .ok (a - b) := if_pos h

section

variable (hash : Hash) (mem : Mem P)

theorem homeIdx_lt (ht : HashTable P D) (key : P) : homeIdx hash mem ht key < ht.sz := by
  have hpos : 0 < ht.sz := Nat.two_pow_pos _
  exact Nat.lt_of_le_of_lt Nat.and_le_right (by omega)

theorem homeIdx_congr {ht' ht : HashTable P D} (h : SameShape ht' ht) (key : P) :
    homeIdx hash mem ht' key = homeIdx hash mem ht key := by
  unfold homeIdx
  rw [h.sz_eq, h.2]

variable {mem}

theorem homeIdx_of_bytes {ht : HashTable P D} {k p : P}
    (h : keyBytes mem ht.keylen k = keyBytes mem ht.keylen p) :
    homeIdx hash mem ht k = homeIdx hash mem ht p := by
  unfold homeIdx
  rw [h]

end

/-! ## The invariant and the map -/

/-- Bucket `s` holds a key whose bytes are `kb`. -/
def Holds (mem : Mem P) (ht : HashTable P D) (kb : List UInt8) (s : Nat) : Prop :=
  s < ht.sz ∧ ∃ p, (ht.buckets s).key = some p ∧ keyBytes mem ht.keylen p = kb

/-- **The bitmap invariant.** -/
structure WF (hash : Hash) (mem : Mem P) (ht : HashTable P D) : Prop where
  /-- A bit is set iff the slot it names holds a key of this home. -/
  bit_iff : ∀ b < ht.sz, ∀ i < hopNumber, (ht.buckets b).hopinfo.getLsbD i = true ↔
    b + i < ht.sz ∧ ∃ p, (ht.buckets (b + i)).key = some p ∧ homeIdx hash mem ht p = b
  /-- Every key lies in the neighbourhood of its home. -/
  near : ∀ s < ht.sz, ∀ p, (ht.buckets s).key = some p →
    homeIdx hash mem ht p ≤ s ∧ s < homeIdx hash mem ht p + hopNumber
  /-- No two buckets hold equal keys. -/
  distinct : ∀ kb s t, Holds mem ht kb s → Holds mem ht kb t → s = t
  /-- A bucket with a key has data. -/
  data_some : ∀ s < ht.sz, (ht.buckets s).key ≠ none → (ht.buckets s).data ≠ none

/-- The table stands for the map `m`. -/
def Rep (mem : Mem P) (ht : HashTable P D) (m : List UInt8 → Option D) : Prop :=
  ∀ kb d, m kb = some d ↔ ∃ s, Holds mem ht kb s ∧ (ht.buckets s).data = some d

section Lookup

variable {hash : Hash} {mem : Mem P} {ht : HashTable P D}

/-- A stored key sits at an offset of its home whose bit is set. -/
theorem WF.slot_of_holds (hwf : WF hash mem ht) {key : P} {s : Nat}
    (h : Holds mem ht (keyBytes mem ht.keylen key) s) :
    ∃ i < hopNumber, s = homeIdx hash mem ht key + i ∧
      (ht.buckets (homeIdx hash mem ht key)).hopinfo.getLsbD i = true := by
  obtain ⟨hs, p, hp, hb⟩ := h
  have hhome := homeIdx_of_bytes hash hb
  obtain ⟨hle, hlt⟩ := hwf.near s hs p hp
  rw [hhome] at hle hlt
  have hse : homeIdx hash mem ht key + (s - homeIdx hash mem ht key) = s := by omega
  refine ⟨s - homeIdx hash mem ht key, by omega, hse.symm, ?_⟩
  refine (hwf.bit_iff _ (homeIdx_lt hash mem ht key) _ (by omega)).mpr ⟨by omega, p, ?_, hhome⟩
  rw [hse]; exact hp

/-- A map's value is the data of the one bucket holding the key. -/
theorem Rep.eq_of_holds (hwf : WF hash mem ht) {m : List UInt8 → Option D} (hm : Rep mem ht m)
    {kb : List UInt8} {s : Nat} (h : Holds mem ht kb s) :
    m kb = (ht.buckets s).data ∧ m kb ≠ none := by
  have hd : (ht.buckets s).data ≠ none := by
    obtain ⟨hs, p, hp, -⟩ := id h
    exact hwf.data_some s hs (by simp [hp])
  obtain ⟨d, hd⟩ := Option.ne_none_iff_exists'.mp hd
  rw [hd, (hm kb d).mpr ⟨s, h, hd⟩]
  simp

theorem Rep.eq_none_of_not_holds {m : List UInt8 → Option D} (hm : Rep mem ht m)
    {kb : List UInt8} (h : ∀ s, ¬ Holds mem ht kb s) : m kb = none := by
  cases hk : m kb with
  | none => rfl
  | some d =>
    obtain ⟨s, hs, -⟩ := (hm kb d).mp hk
    exact absurd hs (h s)

theorem Rep.holds_iff (hwf : WF hash mem ht) {m : List UInt8 → Option D} (hm : Rep mem ht m)
    (kb : List UInt8) : m kb ≠ none ↔ ∃ s, Holds mem ht kb s := by
  constructor
  · intro h
    by_contra hn
    exact h (hm.eq_none_of_not_holds fun s hs => hn ⟨s, hs⟩)
  · rintro ⟨s, hs⟩
    exact (hm.eq_of_holds hwf hs).2

/-- The hop scan finds the offset of the key, and `none` when no bit of it leads to the key. -/
theorem scanHops_spec (hwf : WF hash mem ht) (key : P) {idx : Nat} (hidx : idx < ht.sz) :
    ∀ n i, i + n = hopNumber →
      (∃ o, scanHops mem ht key idx n i = .ok (some o) ∧ o < hopNumber ∧
        (ht.buckets idx).hopinfo.getLsbD o = true ∧
        Holds mem ht (keyBytes mem ht.keylen key) (idx + o)) ∨
      (scanHops mem ht key idx n i = .ok none ∧
        ∀ o, i ≤ o → o < hopNumber → (ht.buckets idx).hopinfo.getLsbD o = true →
          ¬ Holds mem ht (keyBytes mem ht.keylen key) (idx + o))
  | 0, i, h => Or.inr ⟨rfl, fun o ho ho' => absurd ho' (by omega)⟩
  | n + 1, i, h => by
    have ih := scanHops_spec hwf key hidx n (i + 1) (by omega)
    -- The rounds from `i + 1` on decide, once round `i` is known not to match.
    have skip : ((ht.buckets idx).hopinfo.getLsbD i = true →
          ¬ Holds mem ht (keyBytes mem ht.keylen key) (idx + i)) →
        scanHops mem ht key idx (n + 1) i = scanHops mem ht key idx n (i + 1) →
        (∃ o, scanHops mem ht key idx (n + 1) i = .ok (some o) ∧ o < hopNumber ∧
          (ht.buckets idx).hopinfo.getLsbD o = true ∧
          Holds mem ht (keyBytes mem ht.keylen key) (idx + o)) ∨
        (scanHops mem ht key idx (n + 1) i = .ok none ∧
          ∀ o, i ≤ o → o < hopNumber → (ht.buckets idx).hopinfo.getLsbD o = true →
            ¬ Holds mem ht (keyBytes mem ht.keylen key) (idx + o)) := by
      intro hno he
      rw [he]
      rcases ih with hsome | ⟨hnone, hall⟩
      · exact Or.inl hsome
      · refine Or.inr ⟨hnone, fun o ho ho' hbit => ?_⟩
        rcases Nat.eq_or_lt_of_le ho with rfl | hlt
        · exact hno hbit
        · exact hall o hlt ho' hbit
    by_cases hbit : (ht.buckets idx).hopinfo.getLsbD i = true
    · obtain ⟨hlt, p, hp, -⟩ := (hwf.bit_iff idx hidx i (by omega)).mp hbit
      by_cases hk : keyBytes mem ht.keylen key = keyBytes mem ht.keylen p
      · refine Or.inl ⟨i, ?_, by omega, hbit, hlt, p, hp, hk.symm⟩
        simp [scanHops, get_ok hidx, hbit, get_ok hlt, hp, hk]
      · refine skip (fun _ hh => ?_) (by simp [scanHops, get_ok hidx, get_ok hlt, hp, hk])
        obtain ⟨-, q, hq, hb⟩ := hh
        rw [hp] at hq
        cases hq
        exact hk hb.symm
    · exact skip (fun hb => absurd hb hbit) (by simp [scanHops, get_ok hidx, hbit])

/-- What `lookup` and `remove` share: an empty home bitmap holds no key of this home, and
otherwise the scan finds the key's slot. -/
theorem scan_or_absent (hwf : WF hash mem ht) (key : P) :
    let idx := homeIdx hash mem ht key
    (∃ o, o < hopNumber ∧ (ht.buckets idx).hopinfo ≠ 0#32 ∧
      scanHops mem ht key idx hopNumber 0 = .ok (some o) ∧
      (ht.buckets idx).hopinfo.getLsbD o = true ∧
      Holds mem ht (keyBytes mem ht.keylen key) (idx + o)) ∨
    ((∀ s, ¬ Holds mem ht (keyBytes mem ht.keylen key) s) ∧
      ((ht.buckets idx).hopinfo = 0#32 ∨ scanHops mem ht key idx hopNumber 0 = .ok none)) := by
  intro idx
  rcases scanHops_spec hwf key (homeIdx_lt hash mem ht key) hopNumber 0 (by omega) with
    ⟨o, hscan, ho, hbit, hh⟩ | ⟨hscan, hall⟩
  · exact Or.inl ⟨o, ho, (Bitmap.ne_zero_iff_getLsbD _).mpr ⟨o, ho, hbit⟩, hscan, hbit, hh⟩
  · refine Or.inr ⟨fun s hs => ?_, Or.inr hscan⟩
    obtain ⟨i, hi, rfl, hbit⟩ := hwf.slot_of_holds hs
    exact hall i (Nat.zero_le i) hi hbit hs

/-- **`hopscotch_lookup` reads the map** and does not fault. -/
theorem hopscotchLookup_spec (hwf : WF hash mem ht) {m : List UInt8 → Option D}
    (hm : Rep mem ht m) (key : P) :
    hopscotchLookup hash mem ht key = .ok (m (keyBytes mem ht.keylen key)) := by
  have hidx := homeIdx_lt hash mem ht key
  rcases scan_or_absent hwf key with ⟨o, ho, hne, hscan, hbit, hh⟩ | ⟨hno, h0⟩
  · rw [(hm.eq_of_holds hwf hh).1]
    simp [hopscotchLookup, get_ok hidx, hne, hscan, get_ok hh.1]
  · rw [hm.eq_none_of_not_holds hno]
    by_cases hz : (ht.buckets (homeIdx hash mem ht key)).hopinfo = 0#32
    · simp [hopscotchLookup, get_ok hidx, hz]
    · simp [hopscotchLookup, get_ok hidx, h0.resolve_left hz]

theorem hopscotchLookup_some_iff (hwf : WF hash mem ht) {m : List UInt8 → Option D}
    (hm : Rep mem ht m) (key : P) :
    (∃ d, hopscotchLookup hash mem ht key = .ok (some d)) ↔
      ∃ s, Holds mem ht (keyBytes mem ht.keylen key) s := by
  rw [← hm.holds_iff hwf, hopscotchLookup_spec hwf hm, Option.ne_none_iff_exists']
  simp only [Except.ok.injEq]

end Lookup

end Rpma.Hopscotch
