import Mathlib.Data.Finset.Card
import Rpma.Hopscotch.Codec

/-!
# The lookup of the RDMA client (`thr_func` of `multihashclient.c`)

For every key the client reads the 2 KB behind the key's home bucket into its own buffer and
decides on the buffer alone. A home flagged empty is `Not found`. A bitmap of 1 counts as a hit
without a comparison; any other bitmap is walked, and a record counts when it agrees with the key
on the first `keylen - 4` bytes.

* **`thr_func_hits_iff`**: the client counts at most one hit, and only for a stored key, exactly
  when these two shortcuts do no harm (`ShortcutsSafe`).
* `thr_func_false_hit`: a stored key and a probe of the same home: one hit for an absent key.
-/

namespace Rpma.Hopscotch

open Rpma.Lib.CText

/-- The buffer `dst` after an RDMA read of `len` bytes at `off`. -/
def rdmaRead (dst src : Bytes) (off len : Nat) : Bytes := fun a =>
  if a < len then src (off + a) else dst a

/-- `2 * KILOBYTE`: the length of the read. -/
def segmentLen : Nat := 2048

/-- The length of the client's comparison, `keylen - 4`. -/
def cmpLen : Nat := keyLen - 4

/-- The inspection of the buffer for one key: how often `cnt` is incremented, `none` for the
`return` after `Not found`. -/
def thrInspect (tail : List UInt8) (dst : Bytes) (key : List UInt8) : Option Nat :=
  if readFlag dst 0 then
    let hopinfo := readHopinfo tail dst 0
    if hopinfo = 1#32 then some 1
    else some ((List.range hopNumber).filter fun i =>
      hopinfo.getLsbD i && (readKey dst i).take cmpLen == key.take cmpLen).length
  else none

/-- The increments of `cnt` for `k`, from a buffer with the old content `dst`. -/
def thrHits (hash : Hash) (tail : List UInt8) (img dst : Bytes) (k : CStr) : Nat :=
  (thrInspect tail (rdmaRead dst img (homeOf hash k * 64) segmentLen)
    (keyBytes strMem keyLen k)).getD 0

/-- No false hit: at most one, and only when `hopscotch_lookup` finds the key. -/
def NoFalseHit (hash : Hash) (tail : List UInt8) (ht : HashTable CStr CStr) (img dst : Bytes)
    (k : CStr) : Prop :=
  thrHits hash tail img dst k ≤ 1 ∧
    (0 < thrHits hash tail img dst k → ∃ d, hopscotchLookup hash strMem ht k = .ok (some d))

/-- The shortcuts of the client do no harm for `k`: its home is empty; or the bitmap there is 1
and the key there is `k`; or the bitmap is not 1 and no other key of this home begins with the
same 20 bytes as `k`. -/
def ShortcutsSafe (hash : Hash) (ht : HashTable CStr CStr) (k : CStr) : Prop :=
  let home := homeOf hash k
  (ht.buckets home).key = none ∨
  ((ht.buckets home).hopinfo = 1#32 ∧ ∃ p, (ht.buckets home).key = some p ∧
    keyBytes strMem keyLen p = keyBytes strMem keyLen k) ∨
  ((ht.buckets home).hopinfo ≠ 1#32 ∧ ∀ i < hopNumber, (ht.buckets home).hopinfo.getLsbD i = true →
    ∀ p, (ht.buckets (home + i)).key = some p →
      (keyBytes strMem keyLen p).take cmpLen = (keyBytes strMem keyLen k).take cmpLen →
      keyBytes strMem keyLen p = keyBytes strMem keyLen k)

/-! ## The segment shows the records of the image -/

section Segment

variable (img dst : Bytes) (idx : Nat)

theorem readFlag_segment :
    readFlag (rdmaRead dst img (idx * 64) segmentLen) 0 = readFlag img idx := by
  simp [readFlag, rdmaRead, segmentLen]

theorem readHopinfo_segment (tail : List UInt8) :
    readHopinfo tail (rdmaRead dst img (idx * 64) segmentLen) 0 = readHopinfo tail img idx := by
  have hfield : hopField (rdmaRead dst img (idx * 64) segmentLen) 0 = hopField img idx := by
    refine List.map_congr_left fun j hj => ?_
    have hj' : j < 4 := by simpa using hj
    rw [rdmaRead, if_pos (by unfold segmentLen; omega)]
    congr 1
    omega
  rw [readHopinfo, hfield, readHopinfo]

theorem readKey_segment {i : Nat} (hi : i < hopNumber) :
    readKey (rdmaRead dst img (idx * 64) segmentLen) i = readKey img (idx + i) := by
  refine List.map_congr_left fun j hj => ?_
  have hj' : j < 24 := by simpa [keyLen] using hj
  have hi' : i < 32 := hi
  rw [rdmaRead, if_pos (by unfold segmentLen; omega)]
  congr 1
  omega

end Segment

/-! ## What the client counts -/

/-- A bitmap below 1000 has at most three characters. -/
theorem toInt_of_lt_thousand {x : BitVec 32} (h : x.toNat < 1000) :
    -99 ≤ x.toInt ∧ x.toInt ≤ 999 := by
  rw [BitVec.toInt_eq_toNat_of_lt (by omega)]
  omega

section Hits

variable {hash : Hash} {calls : List (CStr × CStr)} {ht : HashTable CStr CStr} {img : Bytes}

/-- Offset `i` of the home of `k` holds a key of this home that agrees with `k` on 20 bytes. -/
def Agrees (hash : Hash) (ht : HashTable CStr CStr) (k : CStr) (i : Nat) : Prop :=
  (ht.buckets (homeOf hash k)).hopinfo.getLsbD i = true ∧
    ∃ p, (ht.buckets (homeOf hash k + i)).key = some p ∧
      (keyBytes strMem keyLen p).take cmpLen = (keyBytes strMem keyLen k).take cmpLen

/-- A home without a key gives no hit. -/
theorem thrHits_empty (hrec : ∀ i < 2 ^ tableSize, RecordAt img (i * 64) (ht.buckets i))
    (tail : List UInt8) (dst : Bytes) (k : CStr)
    (hk : (ht.buckets (homeOf hash k)).key = none) : thrHits hash tail img dst k = 0 := by
  have hflag := readFlag_iff (hrec _ (homeOf_lt hash k))
  simp [hk] at hflag
  simp [thrHits, thrInspect, readFlag_segment, hflag]

/-- The bitmap 1 gives one hit. -/
theorem thrHits_one (hrec : ∀ i < 2 ^ tableSize, RecordAt img (i * 64) (ht.buckets i))
    (tail : List UInt8) (dst : Bytes) {k p : CStr}
    (hk : (ht.buckets (homeOf hash k)).key = some p)
    (hone : (ht.buckets (homeOf hash k)).hopinfo = 1#32) : thrHits hash tail img dst k = 1 := by
  have hr := hrec _ (homeOf_lt hash k)
  have hflag : readFlag img (homeOf hash k) = true := (readFlag_iff hr).mpr (by simp [hk])
  have hhop : readHopinfo tail img (homeOf hash k) = 1#32 := by
    rw [(readHopinfo_iff hr hk).mpr (by rw [hone]; decide) tail, hone]
  simp [thrHits, thrInspect, readFlag_segment, readHopinfo_segment, hflag, hhop]

/-- Any other bitmap below 1000 gives one hit for each key that agrees on 20 bytes. -/
theorem thrHits_walk (h : Populated hash calls ht) (hlen : ∀ c ∈ calls, 23 ≤ c.1.bytes.length)
    (hrec : ∀ i < 2 ^ tableSize, RecordAt img (i * 64) (ht.buckets i)) (tail : List UInt8)
    (dst : Bytes) {k p : CStr} (hk : (ht.buckets (homeOf hash k)).key = some p)
    (hsmall : (ht.buckets (homeOf hash k)).hopinfo.toNat < 1000)
    (hne : (ht.buckets (homeOf hash k)).hopinfo ≠ 1#32) :
    ∃ l : List Nat, thrHits hash tail img dst k = l.length ∧ l.Nodup ∧
      ∀ i, i ∈ l ↔ i < hopNumber ∧ Agrees hash ht k i := by
  have hr := hrec _ (homeOf_lt hash k)
  have hflag : readFlag img (homeOf hash k) = true := (readFlag_iff hr).mpr (by simp [hk])
  have hhop := (readHopinfo_iff hr hk).mpr (toInt_of_lt_thousand hsmall) tail
  let seg := rdmaRead dst img (homeOf hash k * 64) segmentLen
  refine ⟨(List.range hopNumber).filter fun i =>
    (ht.buckets (homeOf hash k)).hopinfo.getLsbD i &&
      (readKey seg i).take cmpLen == (keyBytes strMem keyLen k).take cmpLen, ?_,
    List.nodup_range.filter _, fun i => ?_⟩
  · simp [thrHits, thrInspect, readFlag_segment, readHopinfo_segment, hflag, hhop, hne, seg]
  · rw [List.mem_filter, List.mem_range]
    refine and_congr_right fun hi => ?_
    rw [Bool.and_eq_true, beq_iff_eq, Agrees]
    refine and_congr_right fun hbit => ?_
    obtain ⟨hlt, q, hq, -⟩ := (h.wf.bit_iff _ (by
      rw [HashTable.sz, h.exponent]; exact homeOf_lt hash k) i hi).mp hbit
    obtain ⟨c, hc, hcq⟩ := h.keys _ hlt q hq
    rw [HashTable.sz, h.exponent] at hlt
    have hkey : readKey seg i = keyBytes strMem keyLen q := by
      rw [readKey_segment img dst _ hi,
        readKey_eq (hrec _ hlt) hq (length_of_keyBytes hcq (by decide) (hlen c hc))]
    rw [hkey]
    simp [hq]

/-- A stored key is found behind a bit of its home. -/
theorem Populated.lookup_iff (h : Populated hash calls ht) (k : CStr) :
    (∃ d, hopscotchLookup hash strMem ht k = .ok (some d)) ↔
      ∃ i < hopNumber, (ht.buckets (homeOf hash k)).hopinfo.getLsbD i = true ∧
        ∃ p, (ht.buckets (homeOf hash k + i)).key = some p ∧
          keyBytes strMem keyLen p = keyBytes strMem keyLen k := by
  obtain ⟨m, hm⟩ := h.rep
  rw [hopscotchLookup_some_iff h.wf hm]
  constructor
  · rintro ⟨s, hs⟩
    obtain ⟨i, hi, rfl, hbit⟩ := h.wf.slot_of_holds hs
    obtain ⟨-, p, hp, hb⟩ := hs
    rw [h.homeIdx_eq] at hp hbit
    rw [h.keylen] at hb
    exact ⟨i, hi, hbit, p, hp, hb⟩
  · rintro ⟨i, hi, hbit, p, hp, hb⟩
    have hlt := ((h.wf.bit_iff _ (by rw [HashTable.sz, h.exponent]; exact homeOf_lt hash k) i
      hi).mp hbit).1
    exact ⟨_, hlt, p, hp, by rw [h.keylen]; exact hb⟩

/-- At a bitmap of 1 the hit is right iff the key there is `k`. -/
theorem noFalseHit_one (h : Populated hash calls ht)
    (hrec : ∀ i < 2 ^ tableSize, RecordAt img (i * 64) (ht.buckets i)) (tail : List UInt8)
    (dst : Bytes) {k p : CStr} (hk : (ht.buckets (homeOf hash k)).key = some p)
    (hone : (ht.buckets (homeOf hash k)).hopinfo = 1#32) :
    NoFalseHit hash tail ht img dst k ↔ ShortcutsSafe hash ht k := by
  have h1 := thrHits_one hrec tail dst hk hone
  have hbit : ∀ i < hopNumber, (1#32).getLsbD i = true → i = 0 := by decide
  unfold NoFalseHit
  rw [h1, h.lookup_iff, hone]
  constructor
  · rintro ⟨-, hfound⟩
    obtain ⟨i, hi, hb, q, hq, heq⟩ := hfound Nat.one_pos
    obtain rfl := hbit i hi hb
    exact Or.inr (Or.inl ⟨hone, q, hq, heq⟩)
  · rintro (hnone | ⟨-, q, hq, heq⟩ | ⟨hne, -⟩)
    · exact absurd (hk.symm.trans hnone) (by simp)
    · exact ⟨Nat.le_refl 1, fun _ => ⟨0, by decide, by decide, q, hq, heq⟩⟩
    · exact absurd hone hne

/-- At any other bitmap the hits are right iff every key that agrees with `k` on 20 bytes
is `k`. -/
theorem noFalseHit_walk (h : Populated hash calls ht)
    (hlen : ∀ c ∈ calls, 23 ≤ c.1.bytes.length)
    (hrec : ∀ i < 2 ^ tableSize, RecordAt img (i * 64) (ht.buckets i)) (tail : List UInt8)
    (dst : Bytes) {k p : CStr} (hk : (ht.buckets (homeOf hash k)).key = some p)
    (hsmall : (ht.buckets (homeOf hash k)).hopinfo.toNat < 1000)
    (hne : (ht.buckets (homeOf hash k)).hopinfo ≠ 1#32) :
    NoFalseHit hash tail ht img dst k ↔ ShortcutsSafe hash ht k := by
  obtain ⟨l, hl, hnd, hmem⟩ := thrHits_walk h hlen hrec tail dst hk hsmall hne
  have hone : l.length ≤ 1 ↔ ∀ i ∈ l, ∀ j ∈ l, i = j := by
    rw [← List.toFinset_card_of_nodup hnd, Finset.card_le_one]
    simp
  unfold NoFalseHit
  rw [hl, h.lookup_iff, hone]
  constructor
  · rintro ⟨huniq, hfound⟩
    refine Or.inr (Or.inr ⟨hne, fun i hi hbit q hq hagree => ?_⟩)
    have hil : i ∈ l := (hmem i).mpr ⟨hi, hbit, q, hq, hagree⟩
    obtain ⟨j, hj, hbit', r, hr, heq⟩ := hfound (List.length_pos_of_mem hil)
    have hjl : j ∈ l := (hmem j).mpr ⟨hj, hbit', r, hr, by rw [heq]⟩
    obtain rfl := huniq i hil j hjl
    obtain rfl := Option.some.inj (hq.symm.trans hr)
    exact heq
  · rintro (hnone | ⟨hone', -⟩ | ⟨-, hall⟩)
    · exact absurd (hk.symm.trans hnone) (by simp)
    · exact absurd hone' hne
    · have hstored : ∀ i ∈ l, Holds strMem ht (keyBytes strMem keyLen k) (homeOf hash k + i) := by
        intro i hi
        obtain ⟨hi', hbit, q, hq, hagree⟩ := (hmem i).mp hi
        have hlt := ((h.wf.bit_iff _ (by rw [HashTable.sz, h.exponent]; exact homeOf_lt hash k) i
          hi').mp hbit).1
        exact ⟨hlt, q, hq, by rw [h.keylen]; exact hall i hi' hbit q hq hagree⟩
      refine ⟨fun i hi j hj => ?_, fun hpos => ?_⟩
      · exact Nat.add_left_cancel (h.wf.distinct _ _ _ (hstored i hi) (hstored j hj))
      · obtain ⟨i, hi⟩ := List.exists_mem_of_length_pos hpos
        obtain ⟨hi', hbit, q, hq, hagree⟩ := (hmem i).mp hi
        exact ⟨i, hi', hbit, q, hq, hall i hi' hbit q hq hagree⟩

/-- **No false hit exactly when the shortcuts do no harm**, for every table, image and probe,
whatever the client's buffer and frame held before. -/
theorem thr_func_hits_iff (hash : Hash) (calls : List (CStr × CStr))
    (hlen : ∀ c ∈ calls, 23 ≤ c.1.bytes.length) (img0 dst : Bytes) (tail : List UInt8) :
    ∃ ht img, populate hash calls = .ok ht ∧ writehash ht img0 = .ok img ∧
      ((∀ i < 2 ^ tableSize, (ht.buckets i).hopinfo.toNat < 1000) →
        ∀ k, NoFalseHit hash tail ht img dst k ↔ ShortcutsSafe hash ht k) := by
  obtain ⟨ht, hpop, h⟩ := populate_spec hash calls
  obtain ⟨img, himg, hrec⟩ := writehash_record h img0
  refine ⟨ht, img, hpop, himg, fun hsmall k => ?_⟩
  cases hk : (ht.buckets (homeOf hash k)).key with
  | none =>
    have h0 := thrHits_empty hrec tail dst k hk
    exact iff_of_true ⟨by omega, fun hpos => absurd hpos (by omega)⟩ (Or.inl hk)
  | some p =>
    by_cases hone : (ht.buckets (homeOf hash k)).hopinfo = 1#32
    · exact noFalseHit_one h hrec tail dst hk hone
    · exact noFalseHit_walk h hlen hrec tail dst hk (hsmall _ (homeOf_lt hash k)) hone

/-- The table of one key. -/
theorem populate_one :
    populate jenkinsHash (selfCalls [userKey 1979045]) = .ok (clusterTable [userKey 1979045]) :=
  populate_cluster (by decide) (fun k hk => clashKeys_home k (List.mem_of_mem_head? (by
    rw [List.mem_singleton.mp hk]; rfl))) (by decide)

/-- The equivalence at the table of one key. -/
theorem thr_func_hits_iff_one :
    (∀ c ∈ selfCalls [userKey 1979045], 23 ≤ c.1.bytes.length) ∧
    ∃ ht img, populate jenkinsHash (selfCalls [userKey 1979045]) = .ok ht ∧
      writehash ht (fun _ => 0) = .ok img ∧
      (∀ i < 2 ^ tableSize, (ht.buckets i).hopinfo.toNat < 1000) ∧
      ∀ k, NoFalseHit jenkinsHash [] ht img (fun _ => 0) k ↔ ShortcutsSafe jenkinsHash ht k := by
  have hlen : ∀ c ∈ selfCalls [userKey 1979045], 23 ≤ c.1.bytes.length := by
    simp [selfCalls, userKey_length]
  obtain ⟨ht, img, hpop, himg, hiff⟩ :=
    thr_func_hits_iff jenkinsHash _ hlen (fun _ => 0) (fun _ => 0) []
  obtain rfl := Except.ok.inj (hpop.symm.trans populate_one)
  have hsmall : ∀ i < 2 ^ tableSize,
      ((clusterTable [userKey 1979045]).buckets i).hopinfo.toNat < 1000 := by
    intro i _
    simp only [clusterTable]
    split <;> decide
  exact ⟨hlen, _, img, hpop, himg, hsmall, hiff hsmall⟩

/-- One stored key and a probe of the same home: the client counts a hit for an absent key. -/
theorem thr_func_false_hit :
    ∃ ht img, populate jenkinsHash (selfCalls [userKey 1979045]) = .ok ht ∧
      writehash ht (fun _ => 0) = .ok img ∧
      (∀ i < 2 ^ tableSize, (ht.buckets i).hopinfo.toNat < 1000) ∧
      thrHits jenkinsHash [] img (fun _ => 0) (userKey 5418233) = 1 ∧
      hopscotchLookup jenkinsHash strMem ht (userKey 5418233) = .ok none := by
  obtain ⟨ht, hpop, h⟩ := populate_spec jenkinsHash (selfCalls [userKey 1979045])
  obtain rfl := Except.ok.inj (hpop.symm.trans populate_one)
  obtain ⟨img, himg, hrec⟩ := writehash_record h fun _ => 0
  have hhome : homeOf jenkinsHash (userKey 5418233) = 0 := clashKeys_home _ (by
    rw [clashKeys]; simp)
  refine ⟨_, img, hpop, himg, fun i _ => ?_, ?_, ?_⟩
  · simp only [clusterTable]
    split <;> decide
  · exact thrHits_one hrec [] _ (p := userKey 1979045) (by rw [hhome]; rfl) (by rw [hhome]; rfl)
  · obtain ⟨m, hm⟩ := h.rep
    rw [hopscotchLookup_spec h.wf hm, hm.eq_none_of_not_holds]
    rintro s ⟨-, p, hp, hb⟩
    obtain rfl := List.mem_singleton.mp (List.mem_of_getElem? hp)
    exact absurd hb (by decide)

end Hits

end Rpma.Hopscotch
