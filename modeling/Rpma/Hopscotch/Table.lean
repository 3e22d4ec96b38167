import Mathlib.Algebra.Group.Int.Defs
import Mathlib.Algebra.Group.Nat.Defs
import Mathlib.Logic.Function.Basic

/-!
# The hopscotch table (`examples/hash/hopscotch.h`)

`hopscotchInit`, `hopscotchLookup`, `hopscotchInsert`, `hopscotchRemove` and `hopscotchResize`
as the header computes them, over an arbitrary 32-bit hash in place of `_jenkins_hash`.

* A key is a pointer `P`; the bytes behind it are read through a memory `Mem P`, so that callers
  may overwrite every buffer the table does not hold. A data pointer is a value of `D`. `none`
  is `NULL` for both.
* The bucket array is a function on indices, and every access goes through `HashTable.get` or
  `HashTable.modify`, which answer `Fault.outOfBounds` outside `[0, 2^exponent)`. The other
  undefined behaviours of the C text are faults too: comparing against a `NULL` key, a `size_t`
  subtraction that wraps, and a displacement loop that does not end. The theorems show that
  none of them is reached.
* `1 << i`, `1ULL << off` and `~(1ULL << off)` act on a `uint32_t` field with a shift below 32,
  so they are the 32-bit vectors `1#32 <<< i` and their complements.
-/

namespace Rpma.Hopscotch

/-- `TABLE_SIZE`: `hopscotch_init` allocates `2^TABLE_SIZE` buckets. -/
def tableSize : Nat := 21

/-- `HOP_NUMBER`: the width of a bucket's bitmap. -/
def hopNumber : Nat := 32

/-- Memory behind key pointers: the byte at an offset from a pointer. -/
abbrev Mem (P : Type) := P → Nat → UInt8

/-- A 32-bit hash of a key's bytes. -/
abbrev Hash := List UInt8 → BitVec 32

/-- The `keylen` bytes behind `p`, which is all `memcmp` and the hash read of a key. -/
def keyBytes {P : Type} (mem : Mem P) (keylen : Nat) (p : P) : List UInt8 :=
  (List.range keylen).map (mem p)

/-- `_jenkins_hash`: one-at-a-time over the key bytes, in `uint32_t` arithmetic. -/
def jenkinsHash : Hash := fun key =>
  let hash := key.foldl (fun (hash : BitVec 32) b =>
    let hash := hash + b.toBitVec.setWidth 32
    let hash := hash + (hash <<< 10)
    hash ^^^ (hash >>> 6)) 0#32
  let hash := hash + (hash <<< 3)
  let hash := hash ^^^ (hash >>> 11)
  hash + (hash <<< 15)

/-- `struct hopscotch_bucket`. -/
structure Bucket (P D : Type) where
  key : Option P
  data : Option D
  hopinfo : BitVec 32

/-- A bucket of a `memset` array. -/
def Bucket.zero {P D : Type} : Bucket P D := ⟨none, none, 0#32⟩

/-- `struct hopscotch_hash_table`. -/
structure HashTable (P D : Type) where
  exponent : Nat
  keylen : Nat
  buckets : Nat → Bucket P D

/-- What the C text leaves undefined. -/
inductive Fault where
  | outOfBounds (i : Nat)
  | nullKey (i : Nat)
  | nullData (i : Nat)
  | wrap
  | spin
  deriving DecidableEq, Repr

variable {P D : Type}

namespace HashTable

/-- `1ULL << ht->exponent`. -/
def sz (ht : HashTable P D) : Nat := 2 ^ ht.exponent

/-- Read `ht->buckets[i]`. -/
def get (ht : HashTable P D) (i : Nat) : Except Fault (Bucket P D) :=
  if i < ht.sz then .ok (ht.buckets i) else .error (.outOfBounds i)

/-- The table with bucket `i` rewritten by `f`. -/
def upd (ht : HashTable P D) (i : Nat) (f : Bucket P D → Bucket P D) : HashTable P D :=
  { ht with buckets := Function.update ht.buckets i (f (ht.buckets i)) }

/-- Assign fields of `ht->buckets[i]`. -/
def modify (ht : HashTable P D) (i : Nat) (f : Bucket P D → Bucket P D) :
    Except Fault (HashTable P D) :=
  if i < ht.sz then .ok (ht.upd i f) else .error (.outOfBounds i)

end HashTable

/-- `size_t` subtraction; a wrap is a fault. -/
def subSize (a b : Nat) : Except Fault Nat :=
  if b ≤ a then .ok (a - b) else .error .wrap

/-- `__builtin_ctz`. -/
def ctz (x : BitVec 32) : Nat := x.ctz.toNat

/-- `hopscotch_init`: `2^TABLE_SIZE` zeroed buckets. -/
def hopscotchInit (keylen : Nat) : HashTable P D :=
  ⟨tableSize, keylen, fun _ => .zero⟩

section Operations

variable (hash : Hash) (mem : Mem P)

/-- `idx = h & (sz - 1)`: the home bucket of a key. -/
def homeIdx (ht : HashTable P D) (key : P) : Nat :=
  (hash (keyBytes mem ht.keylen key)).toNat &&& (ht.sz - 1)

/-- The `for ( i = 0; i < HOP_NUMBER; i++ )` of `hopscotch_lookup` and `hopscotch_remove` from
`i` on, `n` rounds left: the first offset whose bit is set and whose key compares equal. -/
def scanHops (ht : HashTable P D) (key : P) (idx : Nat) : Nat → Nat → Except Fault (Option Nat)
  | 0, _ => .ok none
  | n + 1, i => do
    let home ← ht.get idx
    if home.hopinfo.getLsbD i then
      let b ← ht.get (idx + i)
      match b.key with
      | none => .error (.nullKey (idx + i))
      | some p =>
        if keyBytes mem ht.keylen key = keyBytes mem ht.keylen p then .ok (some i)
        else scanHops ht key idx n (i + 1)
    else scanHops ht key idx n (i + 1)

/-- `hopscotch_lookup`. -/
def hopscotchLookup (ht : HashTable P D) (key : P) : Except Fault (Option D) := do
  let idx := homeIdx hash mem ht key
  let home ← ht.get idx
  if home.hopinfo = 0#32 then return none
  match ← scanHops mem ht key idx hopNumber 0 with
  | some i => return (← ht.get (idx + i)).data
  | none => return none

/-- The linear probe `for ( i = idx; i < sz; i++ )` from `i` on, `n` buckets left: the first
bucket without a key. -/
def probe (ht : HashTable P D) : Nat → Nat → Except Fault (Option Nat)
  | 0, _ => .ok none
  | n + 1, i => do
    let b ← ht.get i
    match b.key with
    | none => .ok (some i)
    | some _ => probe ht n (i + 1)

/-- The inner `for ( j = 1; j < HOP_NUMBER; j++ )` of the displacement from `j` on, `n` rounds
left: the first bucket `i - j` whose lowest bit `off` lies below `j`. -/
def scanBack (ht : HashTable P D) (i : Nat) : Nat → Nat → Except Fault (Option (Nat × Nat))
  | 0, _ => .ok none
  | n + 1, j => do
    let b ← ht.get (← subSize i j)
    if b.hopinfo = 0#32 then scanBack ht i n (j + 1)
    else if ctz b.hopinfo ≥ j then scanBack ht i n (j + 1)
    else .ok (some (j, ctz b.hopinfo))

/-- The body of a displacement: the key at `i - j + off` moves into the hole `i`, and the bitmap
of its home `i - j` follows, in the order of the assignments. -/
def moveHop (ht : HashTable P D) (i j off : Nat) : Except Fault (HashTable P D) := do
  let h ← subSize i j
  let src ← ht.get (h + off)
  let ht ← ht.modify i fun b => { b with key := src.key }
  let ht ← ht.modify i fun b => { b with data := src.data }
  let ht ← ht.modify (h + off) fun b => { b with key := none }
  let ht ← ht.modify (h + off) fun b => { b with data := none }
  let ht ← ht.modify h fun b => { b with hopinfo := b.hopinfo &&& ~~~(1#32 <<< off) }
  ht.modify h fun b => { b with hopinfo := b.hopinfo ||| (1#32 <<< j) }

/-- `while ( i - idx >= HOP_NUMBER )`: bring the hole `i` within reach of `idx`. `none` is the
`return -3`. The hole's index falls in every round, so `i + 1` rounds are enough: a longer run
is the fault `spin`. -/
def displace (idx : Nat) : Nat → HashTable P D → Nat → Except Fault (Option Nat × HashTable P D)
  | 0, _, _ => .error .spin
  | fuel + 1, ht, i => do
    if (← subSize i idx) < hopNumber then return (some i, ht)
    match ← scanBack ht i (hopNumber - 1) 1 with
    | none => return (none, ht)
    | some (j, off) =>
      let ht ← moveHop ht i j off
      displace idx fuel ht ((← subSize i j) + off)

/-- `hopscotch_insert`. -/
def hopscotchInsert (ht : HashTable P D) (key : P) (data : Option D) :
    Except Fault (Int × HashTable P D) := do
  if (← hopscotchLookup hash mem ht key).isSome then return (-2, ht)
  let idx := homeIdx hash mem ht key
  match ← probe ht (ht.sz - idx) idx with
  | none => return (-1, ht)
  | some i =>
    match ← displace idx (i + 1) ht i with
    | (none, ht) => return (-3, ht)
    | (some i, ht) =>
      let off ← subSize i idx
      let ht ← ht.modify i fun b => { b with key := some key }
      let ht ← ht.modify i fun b => { b with data := data }
      let ht ← ht.modify idx fun b => { b with hopinfo := b.hopinfo ||| (1#32 <<< off) }
      if (← ht.get idx).hopinfo.toNat > 32 then return (-4, ht)
      return (0, ht)

/-- `hopscotch_remove`. -/
def hopscotchRemove (ht : HashTable P D) (key : P) :
    Except Fault (Option D × HashTable P D) := do
  let idx := homeIdx hash mem ht key
  let home ← ht.get idx
  if home.hopinfo = 0#32 then return (none, ht)
  match ← scanHops mem ht key idx hopNumber 0 with
  | none => return (none, ht)
  | some i =>
    let data := (← ht.get (idx + i)).data
    let ht ← ht.modify idx fun b => { b with hopinfo := b.hopinfo &&& ~~~(1#32 <<< i) }
    let ht ← ht.modify (idx + i) fun b => { b with key := none }
    let ht ← ht.modify (idx + i) fun b => { b with data := none }
    return (data, ht)

/-- The re-insertion loop of `hopscotch_resize` over the old buckets `i, …, i + n - 1`; `none`
when an insertion returned a negative code. -/
def rehash (obuckets : Nat → Bucket P D) :
    Nat → Nat → HashTable P D → Except Fault (Option (HashTable P D))
  | 0, _, ht => .ok (some ht)
  | n + 1, i, ht =>
    match (obuckets i).key with
    | none => rehash obuckets n (i + 1) ht
    | some key => do
      let (ret, ht) ← hopscotchInsert hash mem ht key (obuckets i).data
      if ret < 0 then return none
      rehash obuckets n (i + 1) ht

/-- `nexp = ht->exponent + delta` in `size_t`. -/
def newExponent (ht : HashTable P D) (delta : Int) : Nat :=
  (((ht.exponent : Int) + delta) % 2 ^ 64).toNat

/-- `hopscotch_resize`; `malloced` is whether the new bucket array was allocated. -/
def hopscotchResize (malloced : Bool) (ht : HashTable P D) (delta : Int) :
    Except Fault (Int × HashTable P D) := do
  if !malloced then return (-1, ht)
  let nt : HashTable P D := ⟨newExponent ht delta, ht.keylen, fun _ => .zero⟩
  match ← rehash hash mem ht.buckets ht.sz 0 nt with
  | none => return (-1, ht)
  | some nt => return (0, nt)

end Operations

end Rpma.Hopscotch
