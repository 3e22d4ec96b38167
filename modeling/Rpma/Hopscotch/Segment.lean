import Rpma.Hopscotch.Client

/-!
# The two single-threaded readers: `readhash.c` and `singlehashclient.c`

`readhash` maps the image and looks at the records from the key's home bucket on where they lie.
`singlehashclient` reads the 2 KB behind the home bucket into its buffer and looks there. Both
compare the flag, pass the hop field to `atoi`, take the key of the home bucket when the bitmap
is 1 and walk the bitmap otherwise; `Sight` is what one lookup gets to see and what it makes of it.

Either program copies the hop field into a `char hopdest[4]` of its own, with no terminator, so
`atoi` may go on into that program's frame (`tail`).

* **`segment_agrees_iff`**: on every image of `(2^TABLE_SIZE + 31) * 64` bytes or more the two
  lookups agree, whatever the frames hold, iff the home bucket is flagged empty or the number in
  its hop field ends inside the field; and the segment of an image of a reachable table holds the
  whole record of every stored key of its home.
* `segment_differs_fourteen_keys`: fourteen keys of one home, two frames, two bitmaps.
-/

namespace Rpma.Hopscotch

open Rpma.Lib.CText

/-! ## The readers -/

/-- A mapped file, a registered region or a buffer. -/
structure Region where
  bytes : Bytes
  size : Nat

/-- The `n` bytes at `off`, `none` when they do not lie in the region. -/
def Region.copy (r : Region) (off n : Nat) : Option (List UInt8) :=
  if off + n ≤ r.size then some (bytesAt r.bytes off n) else none

/-- `metasize` and `hopsize`. -/
def metaSize : Nat := 1
def hopSize : Nat := 4

/-- `metadata_size` of the client. -/
def metadataSize : Nat := 5

/-- What a lookup ends with. -/
inductive Decision where
  | notFound
  /-- `Return current bucket`, without a comparison. -/
  | current
  /-- The offsets from the home at which the comparison says `Found`. -/
  | found (hops : List Nat)
deriving DecidableEq

/-- What a lookup sees: the flag, the bitmap (not read from an empty bucket), the keys it copies
in their order, and its decision. -/
structure Sight where
  flag : Bool
  hopinfo : Option (BitVec 32)
  candidates : List (List UInt8)
  decision : Decision
deriving DecidableEq

/-- The loop over the bits of `hopinfo`: `copy i` is the `memcpy` of candidate `i`. -/
def walk (copy : Nat → Option (List UInt8)) (hopinfo : BitVec 32) (key : List UInt8) :
    List Nat → Option (List (List UInt8) × List Nat)
  | [] => some ([], [])
  | i :: is =>
    if hopinfo.getLsbD i then do
      let cand ← copy i
      let (cands, hops) ← walk copy hopinfo key is
      return (cand :: cands, if key.take cmpLen = cand.take cmpLen then i :: hops else hops)
    else walk copy hopinfo key is

/-- The lookup of `readhash` at bucket `idx` of the image `addr`. -/
def readhashAt (tail : List UInt8) (addr : Region) (idx : Nat) (key : List UInt8) :
    Option Sight := do
  let flag ← addr.copy (idx * 64) 1
  if flag.head? = some flagValid then
    let hopdest ← addr.copy (idx * 64 + metaSize) hopSize
    let hopinfo := atoi (hopdest ++ tail)
    if hopinfo = 1#32 then
      let cand ← addr.copy (idx * 64 + metaSize + hopSize) keyLen
      return ⟨true, some hopinfo, [cand], .current⟩
    else
      let (cands, hops) ← walk
        (fun i => addr.copy ((idx + i) * 64 + metaSize + hopSize) keyLen) hopinfo key
        (List.range hopNumber)
      return ⟨true, some hopinfo, cands, .found hops⟩
  else return ⟨false, none, [], .notFound⟩

/-- `rpma_read` of the client: the segment at `off` into the buffer with the old content `dst`,
`none` when it does not lie in the remote region. -/
def readSegment (dst : Bytes) (src : Region) (off : Nat) : Option Region :=
  if off + segmentLen ≤ src.size then some ⟨rdmaRead dst src.bytes off segmentLen, segmentLen⟩
  else none

/-- The lookup of `singlehashclient` at bucket `idx` of the remote image `src`. -/
def singlehashAt (tail : List UInt8) (dst : Bytes) (src : Region) (idx : Nat)
    (key : List UInt8) : Option Sight := do
  let dst ← readSegment dst src (idx * 64)
  let metadata ← dst.copy 0 metadataSize
  if metadata.head? = some flagValid then
    let hopdest := (metadata.drop 1).take hopSize
    let hopinfo := atoi (hopdest ++ tail)
    if hopinfo = 1#32 then
      let cand ← dst.copy (metaSize + hopSize) keyLen
      return ⟨true, some hopinfo, [cand], .current⟩
    else
      let (cands, hops) ← walk (fun i => dst.copy (metaSize + hopSize + i * 64) keyLen) hopinfo
        key (List.range hopNumber)
      return ⟨true, some hopinfo, cands, .found hops⟩
  else return ⟨false, none, [], .notFound⟩

/-- One round of the loop of `readhash`. -/
def readhash (hash : Hash) (tail : List UInt8) (addr : Region) (k : CStr) : Option Sight :=
  readhashAt tail addr (homeOf hash k) (keyBytes strMem keyLen k)

/-- One round of the loop of `singlehashclient`. -/
def singlehash (hash : Hash) (tail : List UInt8) (dst : Bytes) (src : Region) (k : CStr) :
    Option Sight :=
  singlehashAt tail dst src (homeOf hash k) (keyBytes strMem keyLen k)

/-- Every home bucket has a segment in an image of this length. -/
def imageLen : Nat := (2 ^ tableSize + 31) * 64

/-! ## Copies from the segment are copies from the image -/

theorem Region.copy_eq {r : Region} {off n : Nat} (h : off + n ≤ r.size) :
    r.copy off n = some (bytesAt r.bytes off n) := if_pos h

section Copies

variable {img : Region} {idx : Nat}

theorem segment_fits (hsize : imageLen ≤ img.size) (hidx : idx < 2 ^ tableSize) :
    idx * 64 + segmentLen ≤ img.size := by
  unfold imageLen at hsize
  unfold segmentLen
  omega

theorem readSegment_eq (hsize : imageLen ≤ img.size) (hidx : idx < 2 ^ tableSize) (dst : Bytes) :
    readSegment dst img (idx * 64) =
      some ⟨rdmaRead dst img.bytes (idx * 64) segmentLen, segmentLen⟩ :=
  if_pos (segment_fits hsize hidx)

/-- A copy that stays in the segment gives the bytes of the image. -/
theorem copy_segment (hsize : imageLen ≤ img.size) (hidx : idx < 2 ^ tableSize) (dst : Bytes)
    {off n : Nat} (h : off + n ≤ segmentLen) :
    Region.copy ⟨rdmaRead dst img.bytes (idx * 64) segmentLen, segmentLen⟩ off n =
      img.copy (idx * 64 + off) n := by
  have hfits := segment_fits hsize hidx
  rw [Region.copy_eq h, Region.copy_eq (by omega)]
  refine congrArg some (bytesAt_congr fun i hi => ?_)
  show rdmaRead dst img.bytes (idx * 64) segmentLen (off + i) = _
  rw [rdmaRead, if_pos (by omega), Nat.add_assoc]

end Copies

/-! ## The walk -/

theorem walk_congr {copy copy' : Nat → Option (List UInt8)} (hopinfo : BitVec 32)
    (key : List UInt8) : ∀ {is : List Nat}, (∀ i ∈ is, copy i = copy' i) →
    walk copy hopinfo key is = walk copy' hopinfo key is
  | [], _ => rfl
  | i :: is, h => by
    rw [walk, walk, h i List.mem_cons_self,
      walk_congr hopinfo key fun j hj => h j (List.mem_cons_of_mem i hj)]

theorem walk_isSome {copy : Nat → Option (List UInt8)} (hopinfo : BitVec 32) (key : List UInt8) :
    ∀ {is : List Nat}, (∀ i ∈ is, (copy i).isSome) → (walk copy hopinfo key is).isSome
  | [], _ => rfl
  | i :: is, h => by
    have ih := walk_isSome hopinfo key fun j hj => h j (List.mem_cons_of_mem i hj)
    obtain ⟨cand, hcand⟩ := Option.isSome_iff_exists.mp (h i List.mem_cons_self)
    obtain ⟨rest, hrest⟩ := Option.isSome_iff_exists.mp ih
    rw [walk]
    split
    · simp [hcand, hrest]
    · exact ih

/-! ## The two lookups -/

section Lookups

variable {img : Region} {idx : Nat}

/-- **The client sees in its segment what `readhash` sees in the image**, as long as the two
frames hold the same bytes after `hopdest`. -/
theorem singlehashAt_eq (hsize : imageLen ≤ img.size) (hidx : idx < 2 ^ tableSize) (dst : Bytes)
    (tail key : List UInt8) :
    singlehashAt tail dst img idx key = readhashAt tail img idx key := by
  have hfits := segment_fits hsize hidx
  unfold segmentLen at hfits
  -- the client copies flag and hop field at once, `readhash` one after the other
  have hmeta : img.copy (idx * 64 + 0) metadataSize =
      some (bytesAt img.bytes (idx * 64) 1 ++ bytesAt img.bytes (idx * 64 + metaSize) hopSize) := by
    rw [Region.copy_eq (by unfold metadataSize; omega)]
    exact congrArg some (bytesAt_add img.bytes (idx * 64) 1 4)
  have hkey : ∀ i ∈ List.range hopNumber,
      Region.copy ⟨rdmaRead dst img.bytes (idx * 64) segmentLen, segmentLen⟩
        (metaSize + hopSize + i * 64) keyLen =
      img.copy ((idx + i) * 64 + metaSize + hopSize) keyLen := by
    intro i hi
    have hi' : i < 32 := List.mem_range.mp hi
    rw [copy_segment hsize hidx dst (by unfold metaSize hopSize keyLen segmentLen; omega)]
    congr 1
    ring
  have hcur := hkey 0 (by decide)
  rw [Nat.zero_mul, Nat.add_zero, Nat.add_zero] at hcur
  have hflag : img.copy (idx * 64) 1 = some (bytesAt img.bytes (idx * 64) 1) :=
    Region.copy_eq (by omega)
  have hhop : img.copy (idx * 64 + metaSize) hopSize =
      some (bytesAt img.bytes (idx * 64 + metaSize) hopSize) :=
    Region.copy_eq (by unfold metaSize hopSize; omega)
  unfold singlehashAt readhashAt
  simp only [readSegment_eq hsize hidx, copy_segment hsize hidx dst
    (show 0 + metadataSize ≤ segmentLen by decide), hmeta, hflag, hhop, hcur,
    walk_congr _ _ hkey, Option.bind_eq_bind, Option.bind_some]
  have hhead : ∀ l, (bytesAt img.bytes (idx * 64) 1 ++ l).head? =
      (bytesAt img.bytes (idx * 64) 1).head? := fun l => rfl
  have hdrop : ((bytesAt img.bytes (idx * 64) 1 ++ bytesAt img.bytes (idx * 64 + metaSize)
      hopSize).drop 1).take hopSize = bytesAt img.bytes (idx * 64 + metaSize) hopSize := rfl
  rw [hhead, hdrop]

/-- What `readhash` sees of a bucket whose hop field reads as `hopinfo`. -/
def sightOf (img : Bytes) (idx : Nat) (hopinfo : BitVec 32) (key : List UInt8) : Option Sight :=
  if hopinfo = 1#32 then some ⟨true, some hopinfo, [readKey img idx], .current⟩
  else (walk (fun i => some (readKey img (idx + i))) hopinfo key (List.range hopNumber)).map
    fun w => ⟨true, some hopinfo, w.1, .found w.2⟩

/-- The frame of `readhash` enters a lookup only through the bitmap of a valid bucket. -/
theorem readhashAt_eq (hsize : imageLen ≤ img.size) (hidx : idx < 2 ^ tableSize)
    (tail key : List UInt8) :
    readhashAt tail img idx key = if readFlag img.bytes idx
      then sightOf img.bytes idx (readHopinfo tail img.bytes idx) key
      else some ⟨false, none, [], .notFound⟩ := by
  have hfits := segment_fits hsize hidx
  unfold segmentLen at hfits
  have hflag : img.copy (idx * 64) 1 = some [img.bytes (idx * 64)] := Region.copy_eq (by omega)
  have hhop : img.copy (idx * 64 + metaSize) hopSize = some (hopField img.bytes idx) :=
    Region.copy_eq (by unfold metaSize hopSize; omega)
  have hkey : ∀ i ∈ List.range hopNumber,
      img.copy ((idx + i) * 64 + metaSize + hopSize) keyLen =
        some (readKey img.bytes (idx + i)) := by
    intro i hi
    have hi' : i < 32 := List.mem_range.mp hi
    exact Region.copy_eq (by unfold metaSize hopSize keyLen; omega)
  have hcur := hkey 0 (by decide)
  rw [Nat.add_zero] at hcur
  unfold readhashAt sightOf readHopinfo
  simp only [hflag, hhop, hcur, walk_congr _ _ hkey, Option.bind_eq_bind, Option.bind_some,
    List.head?_cons, Option.some.injEq]
  by_cases hv : img.bytes (idx * 64) = flagValid
  · rw [if_pos hv, if_pos (show readFlag img.bytes idx = true by simp [readFlag, hv])]
    split
    · rfl
    · cases walk (fun i => some (readKey img.bytes (idx + i)))
        (atoi (hopField img.bytes idx ++ tail)) key (List.range hopNumber) <;> rfl
  · rw [if_neg hv, if_neg (show ¬ readFlag img.bytes idx = true by simpa [readFlag] using hv)]
    rfl

/-- A valid bucket gives a sight, and the sight shows the bitmap. -/
theorem sightOf_some (img : Bytes) (idx : Nat) (hopinfo : BitVec 32) (key : List UInt8) :
    ∃ v, sightOf img idx hopinfo key = some v ∧ v.hopinfo = some hopinfo := by
  unfold sightOf
  split
  · exact ⟨_, rfl, rfl⟩
  · have hwalk : (walk (fun i => some (readKey img (idx + i))) hopinfo key
        (List.range hopNumber)).isSome := walk_isSome hopinfo key fun _ _ => rfl
    obtain ⟨w, hw⟩ := Option.isSome_iff_exists.mp hwalk
    rw [hw]
    exact ⟨_, rfl, rfl⟩

/-- Two frames, one lookup each: they see the same iff the number in the hop field of a valid
home bucket ends inside the field. -/
theorem frames_agree_iff (hsize : imageLen ≤ img.size) (hidx : idx < 2 ^ tableSize) (dst : Bytes)
    (key : List UInt8) :
    (∀ tail tail', ∃ v, readhashAt tail img idx key = some v ∧
      singlehashAt tail' dst img idx key = some v) ↔
    readFlag img.bytes idx = false ∨ EndsInside (hopField img.bytes idx) := by
  simp only [singlehashAt_eq hsize hidx, readhashAt_eq hsize hidx]
  cases hv : readFlag img.bytes idx with
  | false => simp
  | true =>
    simp only [if_true, Bool.true_eq_false, false_or]
    rw [← atoi_append_iff (by simp [hopField])]
    constructor
    · intro hall tail tail'
      obtain ⟨v, h1, h2⟩ := hall tail tail'
      obtain ⟨v1, hv1, hhop1⟩ := sightOf_some img.bytes idx (readHopinfo tail img.bytes idx) key
      obtain ⟨v2, hv2, hhop2⟩ := sightOf_some img.bytes idx (readHopinfo tail' img.bytes idx) key
      obtain rfl := Option.some.inj (h1.symm.trans hv1)
      obtain rfl := Option.some.inj (h2.symm.trans hv2)
      exact Option.some.inj (hhop1.symm.trans hhop2)
    · intro hall tail tail'
      obtain ⟨v, hv1, -⟩ := sightOf_some img.bytes idx (readHopinfo tail img.bytes idx) key
      have hsame : readHopinfo tail' img.bytes idx = readHopinfo tail img.bytes idx :=
        hall tail' tail
      exact ⟨v, hv1, by rw [hsame]; exact hv1⟩

end Lookups

/-! ## The segment of a written image -/

/-- The segment at the home of `p` holds all 64 bytes of the record of bucket `s`, which is
`p`'s. -/
def SegmentHolds (hash : Hash) (dst : Bytes) (img : Region) (ht : HashTable CStr CStr) (p : CStr)
    (s : Nat) : Prop :=
  ∃ seg i, readSegment dst img (homeOf hash p * 64) = some seg ∧ s = homeOf hash p + i ∧
    i * 64 + 64 ≤ seg.size ∧ bytesAt seg.bytes (i * 64) 64 = bytesAt img.bytes (s * 64) 64 ∧
    RecordAt seg.bytes (i * 64) (ht.buckets s)

/-- The neighbourhood of a home is what the segment covers. -/
theorem segmentHolds_of_near {hash : Hash} {img : Region} {ht : HashTable CStr CStr} {p : CStr}
    {s : Nat} (hsize : imageLen ≤ img.size) (dst : Bytes)
    (hnear : homeOf hash p ≤ s ∧ s < homeOf hash p + hopNumber)
    (hrec : RecordAt img.bytes (s * 64) (ht.buckets s)) : SegmentHolds hash dst img ht p s := by
  obtain ⟨i, rfl⟩ := Nat.exists_eq_add_of_le hnear.1
  have hi : i < 32 := Nat.lt_of_add_lt_add_left hnear.2
  have hbyte : ∀ j < 64, rdmaRead dst img.bytes (homeOf hash p * 64) segmentLen (i * 64 + j) =
      img.bytes ((homeOf hash p + i) * 64 + j) := by
    intro j hj
    rw [rdmaRead, if_pos (by unfold segmentLen; omega)]
    congr 1
    ring
  refine ⟨_, i, readSegment_eq hsize (homeOf_lt hash p) dst, rfl, ?_, ?_, ?_⟩
  · show i * 64 + 64 ≤ segmentLen
    unfold segmentLen
    omega
  · exact bytesAt_congr hbyte
  · exact hrec.shift hbyte

/-- **The segment reader agrees with the image reader exactly where the hop field holds a
terminated number**, and the 2 KB behind a home hold the record of every stored key of it. -/
theorem segment_agrees_iff (hash : Hash) (img : Region) (hsize : imageLen ≤ img.size)
    (dst : Bytes) :
    (∀ k, (∀ tail tail', ∃ v, readhash hash tail img k = some v ∧
        singlehash hash tail' dst img k = some v) ↔
      readFlag img.bytes (homeOf hash k) = false ∨
        EndsInside (hopField img.bytes (homeOf hash k))) ∧
    ∀ (ht : HashTable CStr CStr) (m : List UInt8 → Option CStr) (img0 : Bytes),
      Run hash keyLen ⟨strMem, ht⟩ m → ht.exponent = tableSize →
      writehash ht img0 = .ok img.bytes →
      ∀ s < 2 ^ tableSize, ∀ p, (ht.buckets s).key = some p →
        SegmentHolds hash dst img ht p s := by
  refine ⟨fun k => frames_agree_iff hsize (homeOf_lt hash k) dst _, ?_⟩
  intro ht m img0 hrun hexp himg s hs p hp
  obtain ⟨hwf, -, hkl⟩ := run_inv hrun
  obtain ⟨img', himg', hrec⟩ := writehash_of_wf hwf hexp img0
  obtain rfl := Except.ok.inj (himg'.symm.trans himg)
  have hhome : homeIdx hash strMem ht p = homeOf hash p := by
    unfold homeIdx homeOf HashTable.sz
    rw [hexp, hkl]
  have hnear := hwf.near s (by rw [HashTable.sz, hexp]; exact hs) p hp
  rw [hhome] at hnear
  exact segmentHolds_of_near hsize dst hnear (hrec s hs)

/-- The image of one key of home 0. -/
theorem segment_agrees_iff_one :
    ∃ ht m img, Run jenkinsHash keyLen ⟨strMem, ht⟩ m ∧ ht.exponent = tableSize ∧
      writehash ht (fun _ => 0) = .ok img ∧ imageLen ≤ (⟨img, imageLen⟩ : Region).size ∧
      (∀ k, (∀ tail tail', ∃ v, readhash jenkinsHash tail ⟨img, imageLen⟩ k = some v ∧
          singlehash jenkinsHash tail' (fun _ => 0) ⟨img, imageLen⟩ k = some v) ↔
        readFlag img (homeOf jenkinsHash k) = false ∨
          EndsInside (hopField img (homeOf jenkinsHash k))) ∧
      SegmentHolds jenkinsHash (fun _ => 0) ⟨img, imageLen⟩ ht (userKey 1979045) 0 := by
  obtain ⟨m, hrun⟩ := insertAll_run jenkinsHash _ (Run.init strMem) populate_one
  obtain ⟨img, himg, -⟩ := writehash_of_wf (run_inv hrun).1 rfl fun _ => 0
  obtain ⟨hagree, hholds⟩ :=
    segment_agrees_iff jenkinsHash ⟨img, imageLen⟩ (Nat.le_refl _) fun _ => 0
  exact ⟨_, m, img, hrun, rfl, himg, Nat.le_refl _, hagree,
    hholds _ m _ hrun rfl himg 0 (by decide) _ rfl⟩

/-- Fourteen keys of home 0: `readhash` with a zero behind `hopdest` reads the bitmap 1638, a
client with the character `3` there reads 16383. -/
theorem segment_differs_fourteen_keys :
    ∃ ht img, populate jenkinsHash (selfCalls (clashKeys.take 14)) = .ok ht ∧
      writehash ht (fun _ => 0) = .ok img ∧
      ∃ v w, readhash jenkinsHash [0] ⟨img, imageLen⟩ (userKey 1979045) = some v ∧
        singlehash jenkinsHash [51, 0] (fun _ => 0) ⟨img, imageLen⟩ (userKey 1979045) = some w ∧
        v.hopinfo = some 1638#32 ∧ w.hopinfo = some 16383#32 := by
  obtain ⟨hpop, img, himg, hflag, hfield⟩ := fourteen_keys_image
  have hhome : homeOf jenkinsHash (userKey 1979045) = 0 := clashKeys_home _ (by
    rw [clashKeys]; simp)
  let key := keyBytes strMem keyLen (userKey 1979045)
  have hsee : ∀ tail, ∃ v, readhashAt tail ⟨img, imageLen⟩ 0 key = some v ∧
      v.hopinfo = some (atoi ([49, 54, 51, 56] ++ tail)) := by
    intro tail
    obtain ⟨v, hv, hhop⟩ := sightOf_some img 0 (readHopinfo tail img 0) key
    rw [readHopinfo, hfield] at hhop
    refine ⟨v, ?_, hhop⟩
    rw [readhashAt_eq (Nat.le_refl _) (by decide), if_pos hflag]
    exact hv
  obtain ⟨v, hv, hv'⟩ := hsee [0]
  obtain ⟨w, hw, hw'⟩ := hsee [51, 0]
  refine ⟨_, img, hpop, himg, v, w, ?_, ?_, by rw [hv']; decide, by rw [hw']; decide⟩
  · rw [readhash, hhome]
    exact hv
  · rw [singlehash, hhome, singlehashAt_eq (Nat.le_refl _) (by decide)]
    exact hw

end Rpma.Hopscotch
