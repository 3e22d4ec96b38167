import Mathlib.Data.List.GetD
import Rpma.Hopscotch.Cluster

/-!
# Reading the image back: the record codec

The readers (`readhash.c` on the whole image, `thr_func` of `multihashclient.c` on a 2 KB segment)
compare the flag with `'1'`, copy the four bytes of the hop field into `char hopdest[4]` and pass
the array to `atoi`. The array has no room for a terminator: `atoi` may read on into `tail`, the
bytes that happen to follow it in the reader's frame.

* **`record_reads_back_iff`**: a record reads back, whatever `tail` is, iff the bucket is empty
  or its `hopinfo` printed with `%d` has at most three characters.
* `record_of_fourteen_keys`: fourteen keys of one home, whose bitmap 16383 reads back as 1638.
-/

namespace Rpma.Hopscotch

open Rpma.Lib.CText

/-! ## The readers -/

/-- `valid == addr[i * 64]`. -/
def readFlag (img : Bytes) (i : Nat) : Bool := img (i * 64) == flagValid

/-- `memcpy(&hopdest, &addr[i * 64 + 1], 4)`. -/
def hopField (img : Bytes) (i : Nat) : List UInt8 :=
  (List.range 4).map fun j => img (i * 64 + 1 + j)

/-- `hopinfo = atoi(hopdest)`, with `tail` after the array. -/
def readHopinfo (tail : List UInt8) (img : Bytes) (i : Nat) : BitVec 32 :=
  atoi (hopField img i ++ tail)

/-- `memcpy(&key, &addr[i * 64 + 5], keylen)`. -/
def readKey (img : Bytes) (i : Nat) : List UInt8 :=
  (List.range keyLen).map fun j => img (i * 64 + 5 + j)

/-! ## Reading a record -/

/-- The four bytes of the hop field: the text and its terminator as far as they fit, then
whatever was there. -/
theorem hopField_eq {img : Bytes} {i : Nat} {b : Bucket CStr CStr} {key : CStr}
    (h : RecordAt img (i * 64) b) (hk : b.key = some key) :
    hopField img i = (printInt b.hopinfo.toInt ++ [0]).take 4 ++
      (hopField img i).drop ((printInt b.hopinfo.toInt).length + 1) := by
  simp only [RecordAt, hk] at h
  have htake : (hopField img i).take ((printInt b.hopinfo.toInt).length + 1) =
      (printInt b.hopinfo.toInt ++ [0]).take 4 := by
    refine List.ext_getElem (by simp [hopField]; omega) fun j hj1 hj2 => ?_
    have hj : j < 4 ∧ j ≤ (printInt b.hopinfo.toInt).length := by
      simp [hopField] at hj1
      omega
    have hj3 : j < (printInt b.hopinfo.toInt ++ [0]).length := by simp; omega
    rw [List.getElem_take, List.getElem_take]
    simp only [hopField, List.getElem_map, List.getElem_range]
    rw [h.2.1 j hj.1 hj.2, List.getD_eq_getElem _ _ hj3]
  rw [← htake, List.take_append_drop]

/-- **The hop field reads back for every continuation iff its text leaves room for a
terminator.** -/
theorem readHopinfo_iff {img : Bytes} {i : Nat} {b : Bucket CStr CStr} {key : CStr}
    (h : RecordAt img (i * 64) b) (hk : b.key = some key) :
    (∀ tail, readHopinfo tail img i = b.hopinfo) ↔
      -99 ≤ b.hopinfo.toInt ∧ b.hopinfo.toInt ≤ 999 := by
  rw [← printInt_length_le_three]
  have hfield := hopField_eq h hk
  by_cases hlen : (printInt b.hopinfo.toInt).length ≤ 3
  · refine iff_of_true (fun tail => ?_) hlen
    rw [List.take_of_length_le (by simp; omega)] at hfield
    unfold readHopinfo
    rw [hfield, List.append_assoc, List.append_assoc]
    exact atoi_printInt b.hopinfo _
  · refine iff_of_false (fun hall => ?_) hlen
    obtain ⟨tail, htail⟩ := atoi_printInt_take b.hopinfo (by omega)
    have hlen4 : (hopField img i).length = 4 := by simp [hopField]
    rw [List.drop_eq_nil_of_le (by omega), List.append_nil,
      List.take_append_of_le_length (by omega)] at hfield
    have := hall tail
    unfold readHopinfo at this
    rw [hfield] at this
    exact htail this

/-- A key of 23 characters or more fills the 24 bytes a reader copies. -/
theorem readKey_eq {img : Bytes} {i : Nat} {b : Bucket CStr CStr} {key : CStr}
    (h : RecordAt img (i * 64) b) (hk : b.key = some key) (hlen : 23 ≤ key.bytes.length) :
    readKey img i = keyBytes strMem keyLen key := by
  simp only [RecordAt, hk] at h
  refine List.map_congr_left fun j hj => ?_
  have hj' : j < 24 := by simpa [keyLen] using hj
  rw [h.2.2 j (by omega) (by omega), strMem]
  by_cases hjl : j < key.bytes.length
  · rw [List.getD_append _ _ _ _ hjl]
  · have : j = key.bytes.length := by omega
    simp [this]

theorem readFlag_iff {img : Bytes} {i : Nat} {b : Bucket CStr CStr}
    (h : RecordAt img (i * 64) b) : readFlag img i = true ↔ b.key ≠ none := by
  unfold RecordAt at h
  cases hk : b.key with
  | none =>
    simp only [hk] at h
    simp [readFlag, h, flagEmpty, flagValid]
  | some key =>
    simp only [hk] at h
    simp [readFlag, h.1]

/-- A string that agrees on 24 bytes with one of at least `n ≤ 24` characters has as many. -/
theorem length_of_keyBytes {c p : CStr} (h : keyBytes strMem keyLen c = keyBytes strMem keyLen p)
    {n : Nat} (hn : n ≤ keyLen) (hc : n ≤ c.bytes.length) : n ≤ p.bytes.length := by
  by_contra hlt
  have hp : p.bytes.length < keyLen := by omega
  have hbyte : strMem c p.bytes.length = strMem p p.bytes.length :=
    List.map_inj_left.mp h _ (List.mem_range.mpr hp)
  have hin : p.bytes.length < c.bytes.length := by omega
  simp only [strMem, List.getD_eq_getElem _ _ hin, List.getD_eq_default _ _ (Nat.le_refl _)]
    at hbyte
  exact c.nonzero _ (List.getElem_mem hin) hbyte

/-- The bytes compared of a long enough key are its first characters. -/
theorem keyBytes_eq_take {p : CStr} (h : keyLen ≤ p.bytes.length) :
    keyBytes strMem keyLen p = p.bytes.take keyLen := by
  refine List.ext_getElem (by simp [keyBytes]; omega) fun j hj1 hj2 => ?_
  have hj : j < p.bytes.length := by simp at hj2; omega
  simp [keyBytes, strMem, hj]

/-! ## The codec -/

/-- A reader of record `i` sees bucket `b`: the flag says whether it holds a key, and then
`hopinfo` and the first 24 bytes of the key are the bucket's. -/
def ReadsBack (tail : List UInt8) (img : Bytes) (i : Nat) (b : Bucket CStr CStr) : Prop :=
  (readFlag img i = true ↔ b.key ≠ none) ∧ ∀ key, b.key = some key →
    readHopinfo tail img i = b.hopinfo ∧ readKey img i = key.bytes.take keyLen

/-- **A record reads back exactly when the decimal text of its bitmap leaves room for a
terminator.** -/
theorem record_reads_back_iff (hash : Hash) (calls : List (CStr × CStr)) (img0 : Bytes)
    (hlen : ∀ c ∈ calls, 24 ≤ c.1.bytes.length ∧ c.1.bytes.length ≤ 31) :
    ∃ ht img, populate hash calls = .ok ht ∧ writehash ht img0 = .ok img ∧
      ∀ i < 2 ^ tableSize, (∀ tail, ReadsBack tail img i (ht.buckets i)) ↔
        (ht.buckets i).key = none ∨
          -99 ≤ (ht.buckets i).hopinfo.toInt ∧ (ht.buckets i).hopinfo.toInt ≤ 999 := by
  obtain ⟨ht, hpop, h⟩ := populate_spec hash calls
  obtain ⟨img, himg, hrec⟩ := writehash_record h img0
  refine ⟨ht, img, hpop, himg, fun i hi => ?_⟩
  have hflag := readFlag_iff (hrec i hi)
  cases hk : (ht.buckets i).key with
  | none =>
    rw [hk] at hflag
    simp [ReadsBack, hk, hflag]
  | some p =>
    obtain ⟨c, hc, hcp⟩ := h.keys i (by rw [HashTable.sz, h.exponent]; exact hi) p hk
    have hp : keyLen ≤ p.bytes.length := length_of_keyBytes hcp (Nat.le_refl _) (hlen c hc).1
    have hkey : readKey img i = p.bytes.take keyLen := by
      rw [readKey_eq (hrec i hi) hk (by unfold keyLen at hp; omega), keyBytes_eq_take hp]
    have hiff := readHopinfo_iff (hrec i hi) hk
    rw [hk] at hflag
    constructor
    · exact fun hall => Or.inr (hiff.mp fun tail => ((hall tail).2 p hk).1)
    · rintro (hnone | hrange)
      · exact absurd hnone (by simp)
      · refine fun tail => ⟨by rw [hk]; exact hflag, fun q hq => ?_⟩
        rw [hk] at hq
        cases hq
        exact ⟨hiff.mpr hrange tail, hkey⟩

theorem selfCalls_userKey {ns : List Nat} : ∀ c ∈ selfCalls (ns.map userKey),
    24 ≤ c.1.bytes.length ∧ c.1.bytes.length ≤ 31 := by
  simp [selfCalls, userKey_length]

/-- The equivalence at fourteen keys of home 0. -/
theorem record_reads_back_iff_clash :
    (∀ c ∈ selfCalls (clashKeys.take 14), 24 ≤ c.1.bytes.length ∧ c.1.bytes.length ≤ 31) ∧
    ∃ ht img, populate jenkinsHash (selfCalls (clashKeys.take 14)) = .ok ht ∧
      writehash ht (fun _ => 0) = .ok img ∧
      ∀ i < 2 ^ tableSize, (∀ tail, ReadsBack tail img i (ht.buckets i)) ↔
        (ht.buckets i).key = none ∨
          -99 ≤ (ht.buckets i).hopinfo.toInt ∧ (ht.buckets i).hopinfo.toInt ≤ 999 := by
  have hlen : ∀ c ∈ selfCalls (clashKeys.take 14),
      24 ≤ c.1.bytes.length ∧ c.1.bytes.length ≤ 31 := by
    rw [clashKeys, ← List.map_take]
    exact selfCalls_userKey
  exact ⟨hlen, record_reads_back_iff jenkinsHash _ _ hlen⟩

/-- The image of fourteen keys of home 0: of the text `16383` four characters are left. -/
theorem fourteen_keys_image :
    populate jenkinsHash (selfCalls (clashKeys.take 14)) =
      .ok (clusterTable (clashKeys.take 14)) ∧
    ∃ img, writehash (clusterTable (clashKeys.take 14)) (fun _ => 0) = .ok img ∧
      readFlag img 0 = true ∧ hopField img 0 = [49, 54, 51, 56] := by
  have hpop : populate jenkinsHash (selfCalls (clashKeys.take 14)) =
      .ok (clusterTable (clashKeys.take 14)) :=
    populate_cluster (by decide) (fun k hk => clashKeys_home k (List.mem_of_mem_take hk))
      (clashKeys_nodup.sublist ((List.take_sublist 14 _).map _))
  obtain ⟨ht, hpop', h⟩ := populate_spec jenkinsHash (selfCalls (clashKeys.take 14))
  obtain rfl := Except.ok.inj (hpop'.symm.trans hpop)
  obtain ⟨img, himg, hrec⟩ := writehash_record h fun _ => 0
  have hkey : ((clusterTable (clashKeys.take 14)).buckets 0).key = some (userKey 1979045) := rfl
  have hhop : ((clusterTable (clashKeys.take 14)).buckets 0).hopinfo = 16383#32 := by decide
  have hfield := hopField_eq (hrec 0 (by decide)) hkey
  rw [hhop, List.drop_eq_nil_of_le (by simp [hopField]; decide)] at hfield
  refine ⟨hpop, img, himg, (readFlag_iff (hrec 0 (by decide))).mpr (by simp [hkey]), ?_⟩
  rw [hfield]
  decide

/-- Fourteen keys of home 0: the bitmap 16383 is written as `1638` and read back as that. -/
theorem record_of_fourteen_keys :
    (∀ c ∈ selfCalls (clashKeys.take 14), 24 ≤ c.1.bytes.length ∧ c.1.bytes.length ≤ 31) ∧
    ∃ ht img, populate jenkinsHash (selfCalls (clashKeys.take 14)) = .ok ht ∧
      writehash ht (fun _ => 0) = .ok img ∧ (ht.buckets 0).key ≠ none ∧
      (ht.buckets 0).hopinfo = 16383#32 ∧ readHopinfo [] img 0 = 1638#32 ∧
      ¬ ReadsBack [] img 0 (ht.buckets 0) := by
  obtain ⟨hpop, img, himg, -, hfield⟩ := fourteen_keys_image
  have hkey : ((clusterTable (clashKeys.take 14)).buckets 0).key = some (userKey 1979045) := rfl
  have hhop : ((clusterTable (clashKeys.take 14)).buckets 0).hopinfo = 16383#32 := by decide
  have hread : readHopinfo [] img 0 = 1638#32 := by
    rw [readHopinfo, hfield]
    decide
  refine ⟨?_, _, img, hpop, himg, by simp [hkey], hhop, hread, fun hback => ?_⟩
  · rw [clashKeys, ← List.map_take]
    exact selfCalls_userKey
  · have heq := (hback.2 _ hkey).1
    rw [hread, hhop] at heq
    exact absurd heq (by decide)

end Rpma.Hopscotch
