import Rpma.Lib.Traced
import Rpma.Hopscotch.Cluster

/-!
# Every access of the table is safe

The operations of `Table.lean` once more, with a trail of what the C text evaluates on the way and
might evaluate wrongly: the buckets it indexes, the keys it compares against, its `size_t`
subtractions, its shift amounts, and the argument of `__builtin_ctz`. The trail is in the order
of the statements, and a statement that reads a bucket twice leaves two entries.

The operations of `Table.lean` check some of this and fault. `trails_*` say that wherever they
come to an end, the trail is safe, and the computation with the trail comes to the same end; since
no reached table makes them fault, that is everywhere (`step_accesses_safe`).
-/

namespace Rpma.Hopscotch

open Rpma.Lib (Traced)
open Rpma.Lib.Traced (touch lift Trails)
open HashTable (SameShape)

variable {P D : Type}

/-! ## What is evaluated -/

inductive Access (P : Type) where
  /-- `buckets[i]`, in an array of `2^exponent` buckets. -/
  | bucket (exponent i : Nat)
  /-- The second argument of `memcmp`. -/
  | compare (key : Option P)
  /-- `a - b` in `size_t`. -/
  | sub (a b : Nat)
  /-- `1 << k` or `1ULL << k`, against or into a bitmap. -/
  | shift (k : Nat)
  /-- `1ULL << exponent`. -/
  | size (exponent : Nat)
  /-- `__builtin_ctz(x)`. -/
  | ctz (x : BitVec 32)

def Access.Safe : Access P → Prop
  | .bucket exponent i => i < 2 ^ exponent
  | .compare key => key ≠ none
  | .sub a b => b ≤ a
  | .shift k => k < 32
  | .size exponent => exponent < 64
  | .ctz x => x ≠ 0#32

abbrev Tr (P α : Type) := Traced (Access P) Fault α

/-! ## The operations with their trail -/

/-- Read `ht->buckets[i]`. -/
def getT (ht : HashTable P D) (i : Nat) : Tr P (Bucket P D) := do
  touch (.bucket ht.exponent i)
  lift (ht.get i)

/-- Assign fields of `ht->buckets[i]`. -/
def modifyT (ht : HashTable P D) (i : Nat) (f : Bucket P D → Bucket P D) :
    Tr P (HashTable P D) := do
  touch (.bucket ht.exponent i)
  lift (ht.modify i f)

def subT (a b : Nat) : Tr P Nat := do
  touch (.sub a b)
  lift (subSize a b)

section Operations

variable (hash : Hash) (mem : Mem P)

/-- The scan of `hopscotch_lookup` and `hopscotch_remove`. -/
def scanHopsT (ht : HashTable P D) (key : P) (idx : Nat) : Nat → Nat → Tr P (Option Nat)
  | 0, _ => pure none
  | n + 1, i => do
    let home ← getT ht idx
    touch (.shift i)
    if home.hopinfo.getLsbD i then
      let b ← getT ht (idx + i)
      touch (.compare b.key)
      match b.key with
      | none => lift (.error (.nullKey (idx + i)))
      | some p =>
        if keyBytes mem ht.keylen key = keyBytes mem ht.keylen p then pure (some i)
        else scanHopsT ht key idx n (i + 1)
    else scanHopsT ht key idx n (i + 1)

/-- `hopscotch_lookup`. -/
def hopscotchLookupT (ht : HashTable P D) (key : P) : Tr P (Option D) := do
  touch (.size ht.exponent)
  let idx := homeIdx hash mem ht key
  let home ← getT ht idx
  if home.hopinfo = 0#32 then pure none
  else
    match ← scanHopsT mem ht key idx hopNumber 0 with
    | some i => do
      let b ← getT ht (idx + i)
      pure b.data
    | none => pure none

/-- The linear probe. -/
def probeT (ht : HashTable P D) : Nat → Nat → Tr P (Option Nat)
  | 0, _ => pure none
  | n + 1, i => do
    let b ← getT ht i
    match b.key with
    | none => pure (some i)
    | some _ => probeT ht n (i + 1)

/-- The inner loop of the displacement, which reads a bitmap and, if it is not 0, reads it again
for its lowest bit. -/
def scanBackT (ht : HashTable P D) (i : Nat) : Nat → Nat → Tr P (Option (Nat × Nat))
  | 0, _ => pure none
  | n + 1, j => do
    let h ← subT i j
    let b ← getT ht h
    if b.hopinfo = 0#32 then scanBackT ht i n (j + 1)
    else do
      touch (.sub i j)
      touch (.bucket ht.exponent h)
      touch (.ctz b.hopinfo)
      if ctz b.hopinfo ≥ j then scanBackT ht i n (j + 1) else pure (some (j, ctz b.hopinfo))

/-- The body of a displacement; every line computes `i - j` anew. -/
def moveHopT (ht : HashTable P D) (i j off : Nat) : Tr P (HashTable P D) := do
  let h ← subT i j
  let src ← getT ht (h + off)
  let ht ← modifyT ht i fun b => { b with key := src.key }
  touch (.sub i j)
  touch (.bucket ht.exponent (h + off))
  let ht ← modifyT ht i fun b => { b with data := src.data }
  touch (.sub i j)
  let ht ← modifyT ht (h + off) fun b => { b with key := none }
  touch (.sub i j)
  let ht ← modifyT ht (h + off) fun b => { b with data := none }
  touch (.sub i j)
  touch (.shift off)
  let ht ← modifyT ht h fun b => { b with hopinfo := b.hopinfo &&& ~~~(1#32 <<< off) }
  touch (.sub i j)
  touch (.shift j)
  modifyT ht h fun b => { b with hopinfo := b.hopinfo ||| (1#32 <<< j) }

/-- `while ( i - idx >= HOP_NUMBER )`. -/
def displaceT (idx : Nat) : Nat → HashTable P D → Nat → Tr P (Option Nat × HashTable P D)
  | 0, _, _ => lift (.error .spin)
  | fuel + 1, ht, i => do
    let d ← subT i idx
    if d < hopNumber then pure (some i, ht)
    else
      match ← scanBackT ht i (hopNumber - 1) 1 with
      | none => pure (none, ht)
      | some (j, off) => do
        let ht ← moveHopT ht i j off
        let h ← subT i j
        displaceT idx fuel ht (h + off)

/-- `hopscotch_insert`. -/
def hopscotchInsertT (ht : HashTable P D) (key : P) (data : Option D) :
    Tr P (Int × HashTable P D) := do
  let found ← hopscotchLookupT hash mem ht key
  if found.isSome then pure (-2, ht)
  else
    touch (.size ht.exponent)
    let idx := homeIdx hash mem ht key
    match ← probeT ht (ht.sz - idx) idx with
    | none => pure (-1, ht)
    | some i =>
      match ← displaceT idx (i + 1) ht i with
      | (none, ht) => pure (-3, ht)
      | (some i, ht) => do
        let off ← subT i idx
        let ht ← modifyT ht i fun b => { b with key := some key }
        let ht ← modifyT ht i fun b => { b with data := data }
        touch (.shift off)
        let ht ← modifyT ht idx fun b => { b with hopinfo := b.hopinfo ||| (1#32 <<< off) }
        let home ← getT ht idx
        if home.hopinfo.toNat > 32 then pure (-4, ht) else pure (0, ht)

/-- `hopscotch_remove`. -/
def hopscotchRemoveT (ht : HashTable P D) (key : P) : Tr P (Option D × HashTable P D) := do
  touch (.size ht.exponent)
  let idx := homeIdx hash mem ht key
  let home ← getT ht idx
  if home.hopinfo = 0#32 then pure (none, ht)
  else
    match ← scanHopsT mem ht key idx hopNumber 0 with
    | none => pure (none, ht)
    | some i => do
      let b ← getT ht (idx + i)
      let data := b.data
      touch (.shift i)
      let ht ← modifyT ht idx fun b => { b with hopinfo := b.hopinfo &&& ~~~(1#32 <<< i) }
      let ht ← modifyT ht (idx + i) fun b => { b with key := none }
      let ht ← modifyT ht (idx + i) fun b => { b with data := none }
      pure (data, ht)

/-- The re-insertion loop of `hopscotch_resize`, over an array of `2^oexp` buckets. -/
def rehashT (oexp : Nat) (obuckets : Nat → Bucket P D) :
    Nat → Nat → HashTable P D → Tr P (Option (HashTable P D))
  | 0, _, ht => do
    touch (.size oexp)
    pure (some ht)
  | n + 1, i, ht => do
    touch (.size oexp)
    touch (.bucket oexp i)
    match (obuckets i).key with
    | none => rehashT oexp obuckets n (i + 1) ht
    | some key => do
      touch (.bucket oexp i)
      touch (.bucket oexp i)
      let r ← hopscotchInsertT hash mem ht key (obuckets i).data
      if r.1 < 0 then pure none else rehashT oexp obuckets n (i + 1) r.2

/-- `hopscotch_resize`. -/
def hopscotchResizeT (malloced : Bool) (ht : HashTable P D) (delta : Int) :
    Tr P (Int × HashTable P D) := do
  touch (.size (newExponent ht delta))
  if malloced = false then pure (-1, ht)
  else
    match ← rehashT hash mem ht.exponent ht.buckets ht.sz 0
        ⟨newExponent ht delta, ht.keylen, fun _ => .zero⟩ with
    | none => pure (-1, ht)
    | some nt => pure (0, nt)

/-- One operation of a caller. -/
def stepT (s : State P D) : Op P D → Tr P (Ret D × State P D)
  | .insert key data => do
    let r ← hopscotchInsertT hash s.mem s.ht key (some data)
    pure (.code r.1, ⟨s.mem, r.2⟩)
  | .remove key => do
    let r ← hopscotchRemoveT hash s.mem s.ht key
    pure (.data r.1, ⟨s.mem, r.2⟩)
  | .lookup key => do
    let data ← hopscotchLookupT hash s.mem s.ht key
    pure (.data data, s)
  | .resize malloced delta => do
    let r ← hopscotchResizeT hash s.mem malloced s.ht delta
    pure (.code r.1, ⟨s.mem, r.2⟩)
  | .write mem => pure (.unit, ⟨mem, s.ht⟩)

end Operations

/-! ## The trails are safe -/

section Trails

variable {hash : Hash} {mem : Mem P} {ht : HashTable P D}

theorem get_eq_ok {i : Nat} {b : Bucket P D} (h : ht.get i = .ok b) : i < ht.sz := by
  unfold HashTable.get at h
  split at h
  · assumption
  · cases h

theorem modify_eq_ok {i : Nat} {f : Bucket P D → Bucket P D} {ht' : HashTable P D}
    (h : ht.modify i f = .ok ht') : i < ht.sz ∧ ht'.exponent = ht.exponent := by
  unfold HashTable.modify at h
  split at h
  · cases h
    exact ⟨‹_›, rfl⟩
  · cases h

theorem subSize_eq_ok {a b d : Nat} (h : subSize a b = .ok d) : b ≤ a ∧ d = a - b := by
  unfold subSize at h
  split at h
  · cases h
    exact ⟨‹_›, rfl⟩
  · cases h

theorem trails_get (ht : HashTable P D) (i : Nat) :
    Trails Access.Safe (getT ht i) (ht.get i) := .touch (fun _ h => get_eq_ok h) (.lift _)

theorem trails_modify (ht : HashTable P D) (i : Nat) (f : Bucket P D → Bucket P D) :
    Trails Access.Safe (modifyT ht i f) (ht.modify i f) :=
  .touch (fun _ h => (modify_eq_ok h).1) (.lift _)

theorem trails_sub (a b : Nat) : Trails (Access.Safe (P := P)) (subT a b) (subSize a b) :=
  .touch (fun _ h => (subSize_eq_ok h).1) (.lift _)

theorem trails_scanHops (key : P) (idx n i : Nat) (hi : i + n = hopNumber) :
    Trails Access.Safe (scanHopsT mem ht key idx n i) (scanHops mem ht key idx n i) := by
  induction n generalizing i with
  | zero => exact .pure none
  | succ n ih =>
    have hnum : hopNumber = 32 := rfl
    refine .bind (trails_get ht idx) fun home _ => ?_
    refine .touch (fun _ _ => show i < 32 by omega) (.ite (fun _ => ?_) fun _ => ?_)
    · refine .bind (trails_get ht (idx + i)) fun b _ => ?_
      cases hk : b.key with
      | none => exact .touch (fun _ h => by cases h) (.lift _)
      | some p =>
        refine .touch (fun _ _ => by simp [Access.Safe]) (.ite (fun _ => .pure _) fun _ => ?_)
        exact ih (i + 1) (by omega)
    · exact ih (i + 1) (by omega)

theorem trails_hopscotchLookup (he : ht.exponent < 64) (key : P) :
    Trails Access.Safe (hopscotchLookupT hash mem ht key) (hopscotchLookup hash mem ht key) := by
  refine .touch (fun _ _ => he) (.bind (trails_get ht _) fun home _ => ?_)
  refine .ite (fun _ => .pure none) fun _ => ?_
  refine .bind (trails_scanHops key _ hopNumber 0 (Nat.zero_add _)) fun found _ => ?_
  cases found with
  | none => exact .pure none
  | some i => exact .bind (trails_get ht _) fun b _ => .pure b.data

theorem trails_probe (n i : Nat) : Trails Access.Safe (probeT ht n i) (probe ht n i) := by
  induction n generalizing i with
  | zero => exact .pure none
  | succ n ih =>
    refine .bind (trails_get ht i) fun b _ => ?_
    cases b.key with
    | none => exact .pure (some i)
    | some _ => exact ih (i + 1)

theorem trails_scanBack (i n j : Nat) :
    Trails Access.Safe (scanBackT ht i n j) (scanBack ht i n j) := by
  induction n generalizing j with
  | zero => exact .pure none
  | succ n ih =>
    refine .bind (trails_sub i j) fun h hsub => .bind (trails_get ht h) fun b hget => ?_
    refine .ite (fun _ => ih (j + 1)) fun hz => ?_
    refine .touch (fun _ _ => (subSize_eq_ok hsub).1) (.touch (fun _ _ => get_eq_ok hget) ?_)
    exact .touch (fun _ _ => hz) (.ite (fun _ => ih (j + 1)) fun _ => .pure _)

/-! What the loops return, whatever the table. -/

theorem bind_eq_ok {α β : Type} {m : Except Fault α} {f : α → Except Fault β} {b : β}
    (h : (m >>= f) = .ok b) : ∃ a, m = .ok a ∧ f a = .ok b := by
  cases m with
  | error e => cases h
  | ok a => exact ⟨a, rfl, h⟩

theorem scanHops_lt {key : P} {idx o : Nat} (n i : Nat) (hi : i + n = hopNumber)
    (h : scanHops mem ht key idx n i = .ok (some o)) : o < hopNumber := by
  induction n generalizing i with
  | zero => cases h
  | succ n ih =>
    have hrest := ih (i + 1) (by omega)
    obtain ⟨home, -, h⟩ := bind_eq_ok h
    split at h
    · obtain ⟨b, -, h⟩ := bind_eq_ok h
      split at h
      · cases h
      · split at h
        · cases h
          omega
        · exact hrest h
    · exact hrest h

theorem scanBack_lt {i k off : Nat} (n j : Nat) (hj : j + n = hopNumber)
    (h : scanBack ht i n j = .ok (some (k, off))) : off < k ∧ k < hopNumber := by
  induction n generalizing j with
  | zero => cases h
  | succ n ih =>
    have hrest := ih (j + 1) (by omega)
    obtain ⟨d, -, h⟩ := bind_eq_ok h
    obtain ⟨b, -, h⟩ := bind_eq_ok h
    split at h
    · exact hrest h
    · split at h
      · exact hrest h
      · cases h
        omega

theorem moveHop_exponent {i j off : Nat} {ht' : HashTable P D}
    (h : moveHop ht i j off = .ok ht') : ht'.exponent = ht.exponent := by
  obtain ⟨d, -, h⟩ := bind_eq_ok h
  obtain ⟨src, -, h⟩ := bind_eq_ok h
  obtain ⟨ht1, h1, h⟩ := bind_eq_ok h
  obtain ⟨ht2, h2, h⟩ := bind_eq_ok h
  obtain ⟨ht3, h3, h⟩ := bind_eq_ok h
  obtain ⟨ht4, h4, h⟩ := bind_eq_ok h
  obtain ⟨ht5, h5, h⟩ := bind_eq_ok h
  rw [(modify_eq_ok h).2, (modify_eq_ok h5).2, (modify_eq_ok h4).2, (modify_eq_ok h3).2,
    (modify_eq_ok h2).2, (modify_eq_ok h1).2]

/-- The displacement loop ends within reach of the home, unless it gives up. -/
theorem displace_eq_ok {idx : Nat} {r : Option Nat} {ht' : HashTable P D} (fuel : Nat)
    (ht : HashTable P D) (i : Nat) (h : displace idx fuel ht i = .ok (r, ht')) :
    ht'.exponent = ht.exponent ∧ ∀ e, r = some e → e - idx < hopNumber := by
  induction fuel generalizing ht i with
  | zero => cases h
  | succ fuel ih =>
    obtain ⟨d, hd, h⟩ := bind_eq_ok h
    split at h
    · rename_i hlt
      cases h
      refine ⟨rfl, ?_⟩
      rintro _ ⟨⟩
      rwa [← (subSize_eq_ok hd).2]
    · obtain ⟨back, -, h⟩ := bind_eq_ok h
      split at h
      · cases h
        exact ⟨rfl, nofun⟩
      · obtain ⟨ht1, hmove, h⟩ := bind_eq_ok h
        obtain ⟨d', -, h⟩ := bind_eq_ok h
        obtain ⟨hexp, hnear⟩ := ih ht1 _ h
        exact ⟨hexp.trans (moveHop_exponent hmove), hnear⟩

theorem hopscotchInsert_exponent {key : P} {data : Option D} {ret : Int} {ht' : HashTable P D}
    (h : hopscotchInsert hash mem ht key data = .ok (ret, ht')) : ht'.exponent = ht.exponent := by
  obtain ⟨found, -, h⟩ := bind_eq_ok h
  split at h
  · cases h
    rfl
  · obtain ⟨i, -, h⟩ := bind_eq_ok h
    split at h
    · cases h
      rfl
    · obtain ⟨⟨e, ht1⟩, hd, h⟩ := bind_eq_ok h
      have hexp := (displace_eq_ok _ _ _ hd).1
      split at h
      · rename_i heq
        cases heq
        cases h
        exact hexp
      · rename_i heq
        cases heq
        obtain ⟨off, -, h⟩ := bind_eq_ok h
        obtain ⟨ht2, h2, h⟩ := bind_eq_ok h
        obtain ⟨ht3, h3, h⟩ := bind_eq_ok h
        obtain ⟨ht4, h4, h⟩ := bind_eq_ok h
        obtain ⟨home, -, h⟩ := bind_eq_ok h
        have hexp' : ht4.exponent = ht.exponent := by
          rw [(modify_eq_ok h4).2, (modify_eq_ok h3).2, (modify_eq_ok h2).2, hexp]
        split at h <;> cases h <;> exact hexp'

/-! The operations. -/

theorem trails_moveHop (i : Nat) {j off : Nat} (hj : j < hopNumber) (ho : off < j) :
    Trails Access.Safe (moveHopT ht i j off) (moveHop ht i j off) := by
  have hj32 : j < 32 := hj
  refine .bind (trails_sub i j) fun h hsub => .bind (trails_get ht (h + off)) fun src hget => ?_
  have hle : j ≤ i := (subSize_eq_ok hsub).1
  refine .bind (trails_modify _ _ _) fun ht1 h1 => ?_
  refine .touch (fun _ _ => hle) (.touch (fun _ _ => ?_) ?_)
  · have hlt : h + off < 2 ^ ht.exponent := get_eq_ok hget
    rwa [← (modify_eq_ok h1).2] at hlt
  refine .bind (trails_modify _ _ _) fun ht2 _ => .touch (fun _ _ => hle) ?_
  refine .bind (trails_modify _ _ _) fun ht3 _ => .touch (fun _ _ => hle) ?_
  refine .bind (trails_modify _ _ _) fun ht4 _ => .touch (fun _ _ => hle) ?_
  refine .touch (fun _ _ => show off < 32 by omega) ?_
  refine .bind (trails_modify _ _ _) fun ht5 _ => .touch (fun _ _ => hle) ?_
  exact .touch (fun _ _ => hj32) (trails_modify _ _ _)

theorem trails_displace (idx fuel : Nat) (ht : HashTable P D) (i : Nat) :
    Trails Access.Safe (displaceT idx fuel ht i) (displace idx fuel ht i) := by
  induction fuel generalizing ht i with
  | zero => exact .lift _
  | succ fuel ih =>
    refine .bind (trails_sub i idx) fun d _ => .ite (fun _ => .pure _) fun _ => ?_
    refine .bind (trails_scanBack i _ _) fun back hback => ?_
    cases back with
    | none => exact .pure _
    | some p =>
      obtain ⟨j, off⟩ := p
      obtain ⟨ho, hj⟩ := scanBack_lt _ _ (by decide) hback
      refine .bind (trails_moveHop i hj ho) fun ht' _ => .bind (trails_sub i j) fun h _ => ?_
      exact ih ht' (h + off)

theorem trails_hopscotchInsert (he : ht.exponent < 64) (key : P) (data : Option D) :
    Trails Access.Safe (hopscotchInsertT hash mem ht key data)
      (hopscotchInsert hash mem ht key data) := by
  refine .bind (trails_hopscotchLookup he key) fun found _ => .ite (fun _ => .pure _) fun _ => ?_
  refine .touch (fun _ _ => he) (.bind (trails_probe _ _) fun i _ => ?_)
  cases i with
  | none => exact .pure _
  | some i =>
    refine .bind (trails_displace _ _ _ _) fun r hd => ?_
    obtain ⟨e, ht'⟩ := r
    cases e with
    | none => exact .pure _
    | some e =>
      have hnear : e - homeIdx hash mem ht key < 32 := (displace_eq_ok _ _ _ hd).2 e rfl
      refine .bind (trails_sub e _) fun off hsub => ?_
      refine .bind (trails_modify _ _ _) fun ht1 _ => .bind (trails_modify _ _ _) fun ht2 _ => ?_
      refine .touch (fun _ _ => ?_) (.bind (trails_modify _ _ _) fun ht3 _ => ?_)
      · rw [Access.Safe, (subSize_eq_ok hsub).2]
        exact hnear
      · exact .bind (trails_get _ _) fun home _ => .ite (fun _ => .pure _) fun _ => .pure _

theorem trails_hopscotchRemove (he : ht.exponent < 64) (key : P) :
    Trails Access.Safe (hopscotchRemoveT hash mem ht key) (hopscotchRemove hash mem ht key) := by
  refine .touch (fun _ _ => he) (.bind (trails_get ht _) fun home _ => ?_)
  refine .ite (fun _ => .pure _) fun _ => ?_
  refine .bind (trails_scanHops key _ hopNumber 0 (Nat.zero_add _)) fun found hfound => ?_
  cases found with
  | none => exact .pure _
  | some i =>
    have hi : i < 32 := scanHops_lt _ _ (Nat.zero_add _) hfound
    refine .bind (trails_get ht _) fun b _ => .touch (fun _ _ => hi) ?_
    refine .bind (trails_modify _ _ _) fun ht1 _ => .bind (trails_modify _ _ _) fun ht2 _ => ?_
    exact .bind (trails_modify _ _ _) fun ht3 _ => .pure _

theorem trails_rehash {oexp : Nat} (hoexp : oexp < 64) (obuckets : Nat → Bucket P D)
    (n i : Nat) (nt : HashTable P D) (hi : i + n = 2 ^ oexp) (hnt : nt.exponent < 64) :
    Trails Access.Safe (rehashT hash mem oexp obuckets n i nt)
      (rehash hash mem obuckets n i nt) := by
  induction n generalizing i nt with
  | zero => exact .touch (fun _ _ => hoexp) (.pure _)
  | succ n ih =>
    have hlt : i < 2 ^ oexp := by omega
    rw [rehash, rehashT]
    refine .touch (fun _ _ => hoexp) (.touch (fun _ _ => hlt) ?_)
    cases (obuckets i).key with
    | none => exact ih (i + 1) nt (by omega) hnt
    | some key =>
      refine .touch (fun _ _ => hlt) (.touch (fun _ _ => hlt) ?_)
      refine .bind (trails_hopscotchInsert hnt key _) fun r hins => ?_
      refine .ite (fun _ => .pure _) fun _ => ih (i + 1) r.2 (by omega) ?_
      rwa [hopscotchInsert_exponent hins]

theorem trails_hopscotchResize (malloced : Bool) {delta : Int} (he : ht.exponent < 64)
    (hnew : newExponent ht delta < 64) :
    Trails Access.Safe (hopscotchResizeT hash mem malloced ht delta)
      (hopscotchResize hash mem malloced ht delta) := by
  refine .touch (fun _ _ => hnew) ?_
  cases malloced with
  | false => exact .pure _
  | true =>
    refine .bind (trails_rehash he ht.buckets ht.sz 0 _ (Nat.zero_add _) hnew) fun nt _ => ?_
    cases nt with
    | none => exact .pure _
    | some nt => exact .pure _

/-- An operation on a table whose size fits in `size_t`. -/
theorem trails_step {s : State P D} (he : s.ht.exponent < 64) {op : Op P D}
    (hnew : ∀ malloced delta, op = .resize malloced delta → newExponent s.ht delta < 64) :
    Trails Access.Safe (stepT hash s op) (step hash s op) := by
  cases op with
  | insert key data => exact .bind (trails_hopscotchInsert he key _) fun r _ => .pure _
  | remove key => exact .bind (trails_hopscotchRemove he key) fun r _ => .pure _
  | lookup key => exact .bind (trails_hopscotchLookup he key) fun r _ => .pure _
  | resize malloced delta =>
    exact .bind (trails_hopscotchResize malloced he (hnew _ _ rfl)) fun r _ => .pure _
  | write mem => exact .pure _

end Trails

/-! ## Every reached table -/

section Run

variable {hash : Hash} {keylen : Nat} {s : State P D} {m : List UInt8 → Option D}

/-- A size that callers may ask for fits in `size_t`. -/
theorem newExponent_lt {malloced : Bool} {delta : Int}
    (ha : Allowed s (.resize malloced delta : Op P D)) : newExponent s.ht delta < 64 := by
  obtain ⟨hpos, hfit⟩ := ha
  have hlt : ((s.ht.exponent : Int) + delta).toNat < 64 := by
    by_contra hge
    have hpow : 2 ^ 64 ≤ 2 ^ ((s.ht.exponent : Int) + delta).toNat :=
      Nat.pow_le_pow_right (by decide) (Nat.le_of_not_lt hge)
    unfold bucketSize at hfit
    omega
  unfold newExponent
  rw [Int.emod_eq_of_lt hpos (by omega)]
  exact hlt

/-- From every reached table every allowed operation comes to an end without a fault. -/
theorem run_step (h : Run hash keylen s m) (op : Op P D) :
    ∃ r s', step hash s op = .ok (r, s') := by
  obtain ⟨hwf, hm, -⟩ := run_inv h
  cases op with
  | insert key data =>
    obtain ⟨ret, ht', hins, -⟩ := hopscotchInsert_spec hwf hm key data
    exact ⟨_, _, by rw [step, hins]; rfl⟩
  | remove key =>
    obtain ⟨ht', hrem, -⟩ := hopscotchRemove_spec hwf hm key
    exact ⟨_, _, by rw [step, hrem]; rfl⟩
  | lookup key => exact ⟨_, _, by rw [step, hopscotchLookup_spec hwf hm key]; rfl⟩
  | resize malloced delta =>
    obtain ⟨ret, ht', hres, -⟩ := hopscotchResize_spec hwf hm malloced delta
    exact ⟨_, _, by rw [step, hres]; rfl⟩
  | write mem => exact ⟨_, _, rfl⟩

theorem run_exponent_lt (h : Run hash keylen s m) : s.ht.exponent < 64 := by
  induction h with
  | init mem => exact show tableSize < 64 by decide
  | @step s s' m op r hrun ha hs ih =>
    obtain ⟨hwf, hm, -⟩ := run_inv hrun
    cases op with
    | insert key data =>
      obtain ⟨⟨ret, ht'⟩, hins, h⟩ := bind_eq_ok hs
      cases h
      rw [hopscotchInsert_exponent hins]
      exact ih
    | remove key =>
      obtain ⟨ht', hrem, -, hsh, -⟩ := hopscotchRemove_spec hwf hm key
      obtain ⟨⟨data, ht''⟩, hrem', h⟩ := bind_eq_ok hs
      rw [hrem] at hrem'
      cases hrem'
      cases h
      rw [hsh.1]
      exact ih
    | lookup key =>
      obtain ⟨data, -, h⟩ := bind_eq_ok hs
      cases h
      exact ih
    | resize malloced delta =>
      obtain ⟨ret, ht', hres, hout⟩ := hopscotchResize_spec hwf hm malloced delta
      obtain ⟨⟨ret', ht''⟩, hres', h⟩ := bind_eq_ok hs
      rw [hres] at hres'
      cases hres'
      cases h
      rcases hout with ⟨-, rfl⟩ | ⟨-, -, -, hexp, -⟩
      · exact ih
      · rw [hexp]
        exact newExponent_lt ha
    | write mem =>
      cases hs
      exact ih

/-- **Every access of a reached table is safe.** Whatever the exponent, the keys and their homes,
an allowed operation comes to its end (the displacement loop, too), and all it evaluated on the
way was in order: bucket indices inside their array, no `NULL` key compared against, no
subtraction below zero, no shift in a bitmap by 32 or more. -/
theorem step_accesses_safe (hash : Hash) (keylen : Nat) {s : State P D}
    {m : List UInt8 → Option D} (h : Run hash keylen s m) (op : Op P D) (ha : Allowed s op) :
    ∃ r s' trail, step hash s op = .ok (r, s') ∧ stepT hash s op [] = .ok ((r, s'), trail) ∧
      ∀ x ∈ trail, x.Safe := by
  obtain ⟨r, s', hs⟩ := run_step h op
  have hnew : ∀ malloced delta, op = .resize malloced delta → newExponent s.ht delta < 64 := by
    rintro malloced delta rfl
    exact newExponent_lt ha
  obtain ⟨trail, ht, hsafe⟩ := trails_step (run_exponent_lt h) hnew [] _ hs
  exact ⟨r, s', trail, hs, ht, hsafe⟩

end Run

/-- Thirty-two keys of home 0 and one more: the loop that looks for a key to move reaches back 31
buckets. -/
theorem step_accesses_safe_cluster :
    ∃ r s' trail, step jenkinsHash ⟨strMem, clusterTable (clashKeys.take 32)⟩
        (.insert lateKey lateKey) = .ok (r, s') ∧
      stepT jenkinsHash ⟨strMem, clusterTable (clashKeys.take 32)⟩ (.insert lateKey lateKey) [] =
        .ok ((r, s'), trail) ∧ ∀ x ∈ trail, x.Safe := by
  obtain ⟨m, hrun⟩ := (isCluster_clashKeys (Nat.le_refl 32)).run
  exact step_accesses_safe jenkinsHash keyLen hrun (.insert lateKey lateKey) trivial

end Rpma.Hopscotch
