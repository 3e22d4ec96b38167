import Rpma.Hopscotch.Client

/-!
# The loop of `thr_func` over its keys

A thread looks up `keys[start]` to `keys[end - 1]`, one after another, and adds the hits to `cnt`.
From one key to the next it keeps its buffer and its frame. `Frame` is what it may find there: any
buffer, and for each lookup any bytes behind `hopdest`, which `atoi` may run into.

The buffer carries nothing over, since every read overwrites what is inspected
(`thrInspect_segment`). Two things do: the `return NULL` after `Not found` drops the keys that
follow, and a hop field without an end shows what lies behind it.

* **`independent_iff`**: the lookups of a range are independent of each other exactly when every
  key but the last has a home that is flagged, and the hop fields of the flagged homes end.
* `singleLoop_eq`: the loop of `singlehashclient.c` goes on after `Not found`, and drops no key.
* `miss_drops_stored_key`: a key that is absent, then one that is stored: no hit.
-/

namespace Rpma.Hopscotch

open Rpma.Lib.CText

/-! ## The loop -/

/-- What a thread finds in its memory: the buffer that `malloc` gave it, and the bytes that lie
behind `hopdest` when `keys[k]` is looked up. -/
structure Frame where
  dst : Bytes
  behind : Nat → List UInt8

/-- A thread in its loop: the positions it has looked up, each with its increments of `cnt`, its
buffer, and the `atomic_int` `cnt`. -/
structure Progress where
  lookups : List (Nat × Nat)
  dst : Bytes
  cnt : BitVec 32

section Loop

variable (hash : Hash) (img : Bytes) (keys : Nat → CStr)

/-- The `n` positions from `k` on. -/
def thrLoop (behind : Nat → List UInt8) : Nat → Nat → Progress → Progress
  | 0, _, s => s
  | n + 1, k, s =>
    let dst := rdmaRead s.dst img (homeOf hash (keys k) * 64) segmentLen
    match thrInspect (behind k) dst (keyBytes strMem keyLen (keys k)) with
    | some hits =>
      thrLoop behind n (k + 1) ⟨s.lookups ++ [(k, hits)], dst, s.cnt + BitVec.ofNat 32 hits⟩
    -- `printf("Not found\n"); return NULL;`
    | none => ⟨s.lookups ++ [(k, 0)], dst, s.cnt⟩

/-- `thr_func` for the keys from `start` to `stop - 1`, every read a success. -/
def thrFunc (f : Frame) (start stop : Nat) (cnt : BitVec 32) : Progress :=
  thrLoop hash img keys f.behind (stop - start) start ⟨[], f.dst, cnt⟩

/-- What position `k` contributes to `cnt` when it is the only one in the range. -/
def alone (f : Frame) (k : Nat) : Nat :=
  ((thrFunc hash img keys f k (k + 1) 0).lookups.map Prod.snd).sum

/-- The loop of `main` of `singlehashclient.c`: it inspects the buffer in the same way, and goes
on after `Not found`. -/
def singleLoop (behind : Nat → List UInt8) : Nat → Nat → Bytes → List (Nat × Option Nat)
  | 0, _, _ => []
  | n + 1, k, dst =>
    let dst := rdmaRead dst img (homeOf hash (keys k) * 64) segmentLen
    (k, thrInspect (behind k) dst (keyBytes strMem keyLen (keys k))) ::
      singleLoop behind n (k + 1) dst

/-- **The lookups of the range are independent of each other**, whatever the frames hold. -/
structure Independent (start stop : Nat) : Prop where
  /-- Every position is looked up exactly once. -/
  once : ∀ f cnt, (thrFunc hash img keys f start stop cnt).lookups.map Prod.fst =
    List.range' start (stop - start)
  /-- It contributes what it contributes alone. -/
  same : ∀ f cnt f' k, start ≤ k → k < stop → ∀ hits,
    (k, hits) ∈ (thrFunc hash img keys f start stop cnt).lookups ↔ hits = alone hash img keys f' k
  /-- The growth of `cnt` is the sum. -/
  growth : ∀ f cnt f', (thrFunc hash img keys f start stop cnt).cnt = cnt +
    BitVec.ofNat 32 ((List.range' start (stop - start)).map (alone hash img keys f')).sum

/-- No key but the last is a miss at an empty home, and no hop field is read past its end. -/
structure RangeServed (start stop : Nat) : Prop where
  flagged : ∀ k, start ≤ k → k + 1 < stop → readFlag img (homeOf hash (keys k)) = true
  ends : ∀ k, start ≤ k → k < stop → readFlag img (homeOf hash (keys k)) = true →
    EndsInside (hopField img (homeOf hash (keys k)))

end Loop

/-! ## One lookup -/

/-- What the client makes of the records at `idx` on. -/
def inspectAt (tail : List UInt8) (img : Bytes) (idx : Nat) (key : List UInt8) : Option Nat :=
  if readFlag img idx then
    if readHopinfo tail img idx = 1#32 then some 1
    else some ((List.range hopNumber).filter fun i =>
      (readHopinfo tail img idx).getLsbD i &&
        (readKey img (idx + i)).take cmpLen == key.take cmpLen).length
  else none

/-- What a lookup makes of its buffer does not depend on what was in it. -/
theorem thrInspect_segment (tail : List UInt8) (img dst : Bytes) (idx : Nat) (key : List UInt8) :
    thrInspect tail (rdmaRead dst img (idx * 64) segmentLen) key = inspectAt tail img idx key := by
  have hwalk : ((List.range hopNumber).filter fun i => (readHopinfo tail img idx).getLsbD i &&
        (readKey (rdmaRead dst img (idx * 64) segmentLen) i).take cmpLen == key.take cmpLen) =
      (List.range hopNumber).filter fun i => (readHopinfo tail img idx).getLsbD i &&
        (readKey img (idx + i)).take cmpLen == key.take cmpLen := by
    apply List.filter_congr
    intro i hi
    rw [readKey_segment img dst idx (List.mem_range.mp hi)]
  unfold thrInspect inspectAt
  simp only [readFlag_segment, readHopinfo_segment, hwalk]

theorem inspectAt_eq_none {tail : List UInt8} {img : Bytes} {idx : Nat} {key : List UInt8} :
    inspectAt tail img idx key = none ↔ readFlag img idx = false := by
  unfold inspectAt
  cases readFlag img idx with
  | false => simp
  | true =>
    simp only [if_true, Bool.true_eq_false, iff_false]
    split <;> simp

/-- **A lookup makes the same of its home whatever lies behind `hopdest`** exactly when the home is
flagged empty or its hop field ends. -/
theorem inspectAt_tail_iff (img : Bytes) (idx : Nat) (key : List UInt8) :
    (∀ tail tail', (inspectAt tail img idx key).getD 0 = (inspectAt tail' img idx key).getD 0) ↔
      (readFlag img idx = true → EndsInside (hopField img idx)) := by
  have hlen : (hopField img idx).length ≤ 8 := by simp [hopField]
  constructor
  · intro hall hflag
    by_contra h
    -- a field that goes on can be read as 0, no hit, and as 1, a hit
    obtain ⟨tail0, h0⟩ := atoi_reaches hlen h 0#32
    obtain ⟨tail1, h1⟩ := atoi_reaches hlen h 1#32
    have hnone : inspectAt tail0 img idx key = some 0 := by
      unfold inspectAt readHopinfo
      simp [hflag, h0]
    have hone : inspectAt tail1 img idx key = some 1 := by
      unfold inspectAt readHopinfo
      simp [hflag, h1]
    have := hall tail0 tail1
    rw [hnone, hone] at this
    exact absurd this (by decide)
  · intro hend tail tail'
    cases hflag : readFlag img idx with
    | false => rw [inspectAt_eq_none.mpr hflag, inspectAt_eq_none.mpr hflag]
    | true =>
      have hsame : readHopinfo tail img idx = readHopinfo tail' img idx := by
        unfold readHopinfo
        rw [atoi_append (hend hflag), atoi_append (hend hflag)]
      unfold inspectAt
      rw [hsame]

/-! ## The positions looked up -/

/-- The lookups from `k` on, `n` at most, if `look` is what each finds; `none` ends them. -/
def lookupsFrom (look : Nat → Option Nat) : Nat → Nat → List (Nat × Nat)
  | 0, _ => []
  | n + 1, k =>
    match look k with
    | some hits => (k, hits) :: lookupsFrom look n (k + 1)
    | none => [(k, 0)]

section Lookups

variable {look : Nat → Option Nat}

theorem fst_ge_of_mem_lookupsFrom {n k : Nat} {p : Nat × Nat} (h : p ∈ lookupsFrom look n k) :
    k ≤ p.1 := by
  induction n generalizing k with
  | zero => simp [lookupsFrom] at h
  | succ n ih =>
    unfold lookupsFrom at h
    split at h
    · rcases List.mem_cons.mp h with rfl | h
      · exact Nat.le_refl _
      · exact Nat.le_of_succ_le (ih h)
    · rw [List.mem_singleton.mp h]

/-- Every position is looked up once iff none but the last is a miss. -/
theorem lookupsFrom_fst_iff (n k : Nat) :
    (lookupsFrom look n k).map Prod.fst = List.range' k n ↔
      ∀ i, k ≤ i → i + 1 < k + n → look i ≠ none := by
  induction n generalizing k with
  | zero => exact iff_of_true rfl fun i hi hlt => by omega
  | succ n ih =>
    unfold lookupsFrom
    cases hk : look k with
    | some hits =>
      simp only [List.map_cons, List.range'_succ, List.cons.injEq, true_and, ih]
      constructor
      · intro h i hi hlt
        rcases Nat.eq_or_lt_of_le hi with rfl | hi
        · simp [hk]
        · exact h i hi (by omega)
      · exact fun h i hi hlt => h i (by omega) (by omega)
    | none =>
      simp only [List.map_cons, List.map_nil, List.range'_succ, List.cons.injEq, true_and]
      constructor
      · intro h i hi hlt
        cases n with
        | zero => omega
        | succ n => simp at h
      · intro h
        cases n with
        | zero => rfl
        | succ n => exact absurd hk (h k (Nat.le_refl k) (by omega))

/-- If none but the last is a miss, each position has the hits it finds. -/
theorem mem_lookupsFrom_iff {n k : Nat} (hserved : ∀ i, k ≤ i → i + 1 < k + n → look i ≠ none)
    {i hits : Nat} (hi : k ≤ i) (hlt : i < k + n) :
    (i, hits) ∈ lookupsFrom look n k ↔ hits = (look i).getD 0 := by
  induction n generalizing k with
  | zero => omega
  | succ n ih =>
    unfold lookupsFrom
    rcases Nat.eq_or_lt_of_le hi with rfl | hi
    · cases hk : look k with
      | some h =>
        simp only [List.mem_cons, Prod.mk.injEq, true_and, Option.getD_some]
        refine or_iff_left fun hmem => ?_
        have := fst_ge_of_mem_lookupsFrom hmem
        simp only at this
        omega
      | none => simp
    · cases hk : look k with
      | some h =>
        have hne : (i, hits) ≠ (k, h) := fun heq => by
          have := congrArg Prod.fst heq
          simp only at this
          omega
        simp only [List.mem_cons, hne, false_or]
        exact ih (fun j hj hjlt => hserved j (by omega) (by omega)) hi (by omega)
      | none => exact absurd hk (hserved k (Nat.le_refl k) (by omega))

/-- Then the hits are those of the positions, one after another. -/
theorem lookupsFrom_snd {n k : Nat} (hserved : ∀ i, k ≤ i → i + 1 < k + n → look i ≠ none) :
    (lookupsFrom look n k).map Prod.snd = (List.range' k n).map fun i => (look i).getD 0 := by
  induction n generalizing k with
  | zero => rfl
  | succ n ih =>
    unfold lookupsFrom
    cases hk : look k with
    | some h =>
      simp only [List.map_cons, List.range'_succ, hk, Option.getD_some]
      rw [ih fun j hj hjlt => hserved j (by omega) (by omega)]
    | none =>
      cases n with
      | zero => simp [hk]
      | succ n => exact absurd hk (hserved k (Nat.le_refl k) (by omega))

end Lookups

/-! ## The range -/

section Range

variable {hash : Hash} {img : Bytes} {keys : Nat → CStr}

/-- What the lookup of `keys[k]` finds in the image. -/
def lookupAt (hash : Hash) (img : Bytes) (keys : Nat → CStr) (behind : Nat → List UInt8)
    (k : Nat) : Option Nat :=
  inspectAt (behind k) img (homeOf hash (keys k)) (keyBytes strMem keyLen (keys k))

theorem lookupAt_ne_none_iff {behind : Nat → List UInt8} {k : Nat} :
    lookupAt hash img keys behind k ≠ none ↔ readFlag img (homeOf hash (keys k)) = true := by
  unfold lookupAt
  rw [ne_eq, inspectAt_eq_none, Bool.not_eq_false]

/-- The buffer of a lookup shows what the image holds. -/
theorem thrInspect_lookup (behind : Nat → List UInt8) (k : Nat) (dst : Bytes) :
    thrInspect (behind k) (rdmaRead dst img (homeOf hash (keys k) * 64) segmentLen)
      (keyBytes strMem keyLen (keys k)) = lookupAt hash img keys behind k :=
  thrInspect_segment ..

/-- **The loop is a walk over the image**: nothing of the old buffer comes into it. -/
theorem thrLoop_eq (behind : Nat → List UInt8) (n k : Nat) (s : Progress) :
    (thrLoop hash img keys behind n k s).lookups =
        s.lookups ++ lookupsFrom (lookupAt hash img keys behind) n k ∧
      (thrLoop hash img keys behind n k s).cnt = s.cnt + BitVec.ofNat 32
        ((lookupsFrom (lookupAt hash img keys behind) n k).map Prod.snd).sum := by
  induction n generalizing k s with
  | zero => simp [thrLoop, lookupsFrom]
  | succ n ih =>
    unfold thrLoop lookupsFrom
    simp only [thrInspect_lookup]
    cases hk : lookupAt hash img keys behind k with
    | some hits =>
      obtain ⟨hl, hc⟩ := ih (k + 1) ⟨s.lookups ++ [(k, hits)],
        rdmaRead s.dst img (homeOf hash (keys k) * 64) segmentLen, s.cnt + BitVec.ofNat 32 hits⟩
      refine ⟨by rw [hl, List.append_assoc]; rfl, ?_⟩
      rw [hc, List.map_cons, List.sum_cons, BitVec.ofNat_add, BitVec.add_assoc]
    | none => simp

theorem thrFunc_lookups (f : Frame) (start stop : Nat) (cnt : BitVec 32) :
    (thrFunc hash img keys f start stop cnt).lookups =
      lookupsFrom (lookupAt hash img keys f.behind) (stop - start) start := by
  unfold thrFunc
  rw [(thrLoop_eq f.behind (stop - start) start _).1]
  rfl

theorem thrFunc_cnt (f : Frame) (start stop : Nat) (cnt : BitVec 32) :
    (thrFunc hash img keys f start stop cnt).cnt = cnt + BitVec.ofNat 32
      ((lookupsFrom (lookupAt hash img keys f.behind) (stop - start) start).map Prod.snd).sum := by
  unfold thrFunc
  rw [(thrLoop_eq f.behind (stop - start) start _).2]

/-- Alone, a key contributes what its lookup finds. -/
theorem alone_eq (f : Frame) (k : Nat) :
    alone hash img keys f k = (lookupAt hash img keys f.behind k).getD 0 := by
  unfold alone
  rw [thrFunc_lookups, lookupsFrom_snd fun i hi hlt => by omega, Nat.add_sub_cancel_left]
  simp

theorem alone_eq_thrHits (f : Frame) (k : Nat) :
    alone hash img keys f k = thrHits hash (f.behind k) img f.dst (keys k) := by
  unfold thrHits
  rw [alone_eq, thrInspect_lookup]

/-- The contributions do not depend on the frames iff no hop field is read past its end. -/
theorem alone_eq_iff (k : Nat) :
    (∀ f f', alone hash img keys f k = alone hash img keys f' k) ↔
      (readFlag img (homeOf hash (keys k)) = true →
        EndsInside (hopField img (homeOf hash (keys k)))) := by
  rw [← inspectAt_tail_iff img _ (keyBytes strMem keyLen (keys k))]
  constructor
  · intro h tail tail'
    have := h ⟨img, fun _ => tail⟩ ⟨img, fun _ => tail'⟩
    rwa [alone_eq, alone_eq] at this
  · intro h f f'
    rw [alone_eq, alone_eq]
    exact h _ _

/-- None but the last is a miss, said of the walk. -/
theorem not_miss_iff (behind : Nat → List UInt8) {start stop : Nat} :
    (∀ k, start ≤ k → k + 1 < start + (stop - start) → lookupAt hash img keys behind k ≠ none) ↔
      ∀ k, start ≤ k → k + 1 < stop → readFlag img (homeOf hash (keys k)) = true := by
  refine forall_congr' fun k => forall_congr' fun hk => ?_
  rw [lookupAt_ne_none_iff]
  exact imp_congr_left (by omega)

/-- Every position is looked up once iff none but the last is a miss. -/
theorem once_iff (f : Frame) (cnt : BitVec 32) {start stop : Nat} :
    (thrFunc hash img keys f start stop cnt).lookups.map Prod.fst =
        List.range' start (stop - start) ↔
      ∀ k, start ≤ k → k + 1 < stop → readFlag img (homeOf hash (keys k)) = true := by
  rw [thrFunc_lookups, lookupsFrom_fst_iff, not_miss_iff]

/-- **The lookups of a range are independent of each other exactly when every key but the last has
a home that is flagged, and the hop fields of the flagged homes end.** -/
theorem independent_iff (hash : Hash) (img : Bytes) (keys : Nat → CStr) (start stop : Nat) :
    Independent hash img keys start stop ↔ RangeServed hash img keys start stop := by
  constructor
  · intro h
    refine ⟨(once_iff ⟨img, fun _ => []⟩ 0).mp (h.once _ _), fun k hk hlt => ?_⟩
    refine (alone_eq_iff k).mp fun f f' => ?_
    exact (h.same f 0 f' k hk hlt _).mp ((h.same f 0 f k hk hlt _).mpr rfl)
  · intro h
    have hserved := fun behind => (not_miss_iff behind).mpr h.flagged
    have hsame : ∀ (f f' : Frame) (k : Nat), start ≤ k → k < stop →
        (lookupAt hash img keys f.behind k).getD 0 = alone hash img keys f' k := by
      intro f f' k hk hlt
      rw [← alone_eq]
      exact (alone_eq_iff k).mpr (h.ends k hk hlt) f f'
    constructor
    · exact fun f cnt => (once_iff f cnt).mpr h.flagged
    · intro f cnt f' k hk hlt hits
      rw [thrFunc_lookups, mem_lookupsFrom_iff (hserved f.behind) hk (by omega),
        hsame f f' k hk hlt]
    · intro f cnt f'
      rw [thrFunc_cnt, lookupsFrom_snd (hserved f.behind)]
      congr 3
      apply List.map_congr_left
      intro k hk
      have := List.mem_range'_1.mp hk
      exact hsame f f' k this.1 (by omega)

/-- **`singlehashclient` looks up every key**, and finds for it what the image holds. -/
theorem singleLoop_eq (behind : Nat → List UInt8) (n k : Nat) (dst : Bytes) :
    singleLoop hash img keys behind n k dst =
      (List.range' k n).map fun i => (i, lookupAt hash img keys behind i) := by
  induction n generalizing k dst with
  | zero => rfl
  | succ n ih =>
    unfold singleLoop
    simp only [thrInspect_lookup]
    rw [ih (k + 1), List.range'_succ, List.map_cons]

end Range

/-! ## A miss before a hit -/

/-- `user1979046` and, after it, `user1979045`. -/
def missThenHit : Nat → CStr
  | 0 => userKey 1979046
  | _ => userKey 1979045

/-- **A key that is absent, then one that is stored**: no hit, though the second key alone has
one. -/
theorem miss_drops_stored_key :
    ∃ ht img, populate jenkinsHash (selfCalls [userKey 1979045]) = .ok ht ∧
      writehash ht (fun _ => 0) = .ok img ∧
      (∀ f, (thrFunc jenkinsHash img missThenHit f 0 2 0).cnt = 0 ∧
        alone jenkinsHash img missThenHit f 1 = 1) ∧
      ¬ Independent jenkinsHash img missThenHit 0 2 := by
  obtain ⟨ht, hpop, h⟩ := populate_spec jenkinsHash (selfCalls [userKey 1979045])
  obtain rfl := Except.ok.inj (hpop.symm.trans populate_one)
  obtain ⟨img, himg, hrec⟩ := writehash_record h fun _ => 0
  have hmiss : readFlag img (homeOf jenkinsHash (missThenHit 0)) = false := by
    have haway : homeOf jenkinsHash (missThenHit 0) = 1467621 := by decide +kernel
    have hempty : ([userKey 1979045] : List CStr)[1467621]? = none :=
      List.getElem?_eq_none (by decide)
    rw [haway]
    exact Bool.eq_false_iff.mpr fun hflag =>
      (readFlag_iff (i := 1467621) (hrec _ (by decide))).mp hflag hempty
  have hhome : homeOf jenkinsHash (missThenHit 1) = 0 := by decide +kernel
  refine ⟨_, img, hpop, himg, fun f => ⟨?_, ?_⟩, fun hind => ?_⟩
  · have hnone : lookupAt jenkinsHash img missThenHit f.behind 0 = none := by
      by_contra hne
      exact absurd (lookupAt_ne_none_iff.mp hne) (by simp [hmiss])
    rw [thrFunc_cnt, lookupsFrom, hnone]
    rfl
  · rw [alone_eq_thrHits]
    exact thrHits_one hrec _ _ (p := userKey 1979045) (by rw [hhome]; rfl) (by rw [hhome]; rfl)
  · have hflag := (once_iff _ 0).mp (hind.once ⟨img, fun _ => []⟩ 0) 0 (Nat.le_refl 0) (by decide)
    rw [hmiss] at hflag
    cases hflag

end Rpma.Hopscotch
