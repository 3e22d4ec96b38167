import Rpma.Lib.CText
import Rpma.Hopscotch.Map

/-!
# The persistent image of the table: `writehash.c`

`writehash` populates a table with `hopscotch_insert(ht, key, data)`, ignoring the result codes,
and writes one 64-byte record per bucket: the flag at `+0`, the decimal text of `hopinfo` in the
four bytes at `+1`, the key at `+5`, the data at `+37`. Every field goes through `strcpy`, so it
brings a terminator that the next field overwrites, and a long data string runs into the next
record before that record is written.

The writer prints into `char hop[4]`; text of four characters or more overruns that array too.
The model gives it the benefit of the doubt: the text arrives unharmed.

* `populate_spec`: the insertion loop leaves a table with the bitmap invariant, whose keys are
  those of its calls.
* `writehash_record`: what record `i` of the image holds.
-/

namespace Rpma.Hopscotch

open Rpma.Lib.CText
open HashTable (SameShape)

/-! ## Populating the table -/

/-- A C string: the characters before the terminator. -/
structure CStr where
  bytes : List UInt8
  nonzero : ∀ b ∈ bytes, b ≠ 0

/-- Memory behind a string pointer; the bytes after the terminator are never read. -/
def strMem : Mem CStr := fun s i => s.bytes.getD i 0

/-- The key length `writehash` passes to `hopscotch_init`. -/
def keyLen : Nat := 24

/-- The insertion loop of `writehash`: result codes are ignored. -/
def insertAll (hash : Hash) : HashTable CStr CStr → List (CStr × CStr) →
    Except Fault (HashTable CStr CStr)
  | ht, [] => .ok ht
  | ht, c :: cs => do
    let (_, ht) ← hopscotchInsert hash strMem ht c.1 (some c.2)
    insertAll hash ht cs

/-- The populated table. -/
def populate (hash : Hash) (calls : List (CStr × CStr)) : Except Fault (HashTable CStr CStr) :=
  insertAll hash (hopscotchInit keyLen) calls

/-! ## The writer -/

/-- The flags `'0'` and `'1'`. -/
def flagEmpty : UInt8 := 48
def flagValid : UInt8 := 49

/-- The body of the record loop for a bucket, with the running offset `off`. -/
def writeRecord (i : Nat) (b : Bucket CStr CStr) (img : Bytes) (off : Nat) :
    Except Fault (Bytes × Nat) :=
  match b.key with
  | some key => do
    let img := strcpy img off [flagValid]
    let off := off + 1
    let hop := printInt b.hopinfo.toInt
    let img := strcpy img off hop
    let off := off + 4
    let img := strcpy img off key.bytes
    let off := off + 32
    match b.data with
    | some data => .ok (strcpy img off data.bytes, off + 27)
    | none => .error (.nullData i)
  | none => .ok (strcpy img off [flagEmpty], off + 64)

/-- The record loop from bucket `i` on, `n` buckets left. -/
def writeRecords (ht : HashTable CStr CStr) : Nat → Nat → Bytes → Nat →
    Except Fault (Bytes × Nat)
  | 0, _, img, off => .ok (img, off)
  | n + 1, i, img, off => do
    let (img, off) ← writeRecord i (ht.buckets i) img off
    writeRecords ht n (i + 1) img off

/-- The cleaning loop: `strcpy(addr + i, " ")` for `i < 1000000000`. -/
def clean (img : Bytes) : Bytes :=
  (List.range 1000000000).foldl (fun img i => strcpy img i [32]) img

/-- `writehash` from the mapped bytes `img`: clean, then `2^TABLE_SIZE` records. -/
def writehash (ht : HashTable CStr CStr) (img : Bytes) : Except Fault Bytes := do
  let (img, _) ← writeRecords ht (2 ^ tableSize) 0 (clean img) 0
  return img

/-! ## What the image holds -/

/-- The record of bucket `b` at offset `off`. -/
def RecordAt (img : Bytes) (off : Nat) (b : Bucket CStr CStr) : Prop :=
  match b.key with
  | none => img off = flagEmpty
  | some key => img off = flagValid ∧
    (∀ j < 4, j ≤ (printInt b.hopinfo.toInt).length →
      img (off + 1 + j) = (printInt b.hopinfo.toInt ++ [0]).getD j 0) ∧
    ∀ j < 32, j ≤ key.bytes.length → img (off + 5 + j) = (key.bytes ++ [0]).getD j 0

/-- A record is its 64 bytes, wherever they lie. -/
theorem RecordAt.shift {img img' : Bytes} {off off' : Nat} {b : Bucket CStr CStr}
    (h : RecordAt img off b) (he : ∀ j < 64, img' (off' + j) = img (off + j)) :
    RecordAt img' off' b := by
  have h0 : img' off' = img off := he 0 (by decide)
  unfold RecordAt at h ⊢
  cases hk : b.key with
  | none =>
    simp only [hk] at h ⊢
    rw [h0]
    exact h
  | some key =>
    simp only [hk] at h ⊢
    obtain ⟨h1, h2, h3⟩ := h
    refine ⟨by rw [h0]; exact h1, fun j hj hl => ?_, fun j hj hl => ?_⟩
    · rw [Nat.add_assoc, he _ (by omega), ← Nat.add_assoc]
      exact h2 j hj hl
    · rw [Nat.add_assoc, he _ (by omega), ← Nat.add_assoc]
      exact h3 j hj hl

/-- One record: 64 bytes further, the bytes before it untouched, its fields in place. -/
theorem writeRecord_spec (i : Nat) (b : Bucket CStr CStr) (img : Bytes) (off : Nat)
    (hd : b.key ≠ none → b.data ≠ none) :
    ∃ img', writeRecord i b img off = .ok (img', off + 64) ∧ (∀ a < off, img' a = img a) ∧
      RecordAt img' off b := by
  cases hk : b.key with
  | none =>
    refine ⟨strcpy img off [flagEmpty], by simp [writeRecord, hk],
      fun a ha => strcpy_below img _ ha, ?_⟩
    simpa [RecordAt, hk] using strcpy_at img off (s := [flagEmpty]) (Nat.zero_le _)
  | some key =>
    obtain ⟨data, hdata⟩ := Option.ne_none_iff_exists'.mp (hd (by simp [hk]))
    have hrun : writeRecord i b img off = .ok (strcpy (strcpy (strcpy (strcpy img off [flagValid])
        (off + 1) (printInt b.hopinfo.toInt)) (off + 1 + 4) key.bytes) (off + 1 + 4 + 32)
        data.bytes, off + 64) := by
      simp [writeRecord, hk, hdata]
    refine ⟨_, hrun, fun a ha => ?_, ?_⟩
    · rw [strcpy_below _ _ (by omega), strcpy_below _ _ (by omega), strcpy_below _ _ (by omega),
        strcpy_below _ _ ha]
    · simp only [RecordAt, hk]
      refine ⟨?_, fun j hj hl => ?_, fun j hj hl => ?_⟩
      · rw [strcpy_below _ _ (by omega), strcpy_below _ _ (by omega), strcpy_below _ _ (by omega)]
        exact strcpy_at img off (s := [flagValid]) (Nat.zero_le _)
      · rw [strcpy_below _ _ (by omega), strcpy_below _ _ (by omega)]
        exact strcpy_at _ (off + 1) hl
      · rw [strcpy_below _ _ (by omega)]
        exact strcpy_at _ (off + 1 + 4) hl

/-- The record loop: every later record starts after the ones before it, so each of them is
still there at the end. -/
theorem writeRecords_spec (ht : HashTable CStr CStr) : ∀ (n i : Nat) (img : Bytes),
    (∀ t, i ≤ t → t < i + n → (ht.buckets t).key ≠ none → (ht.buckets t).data ≠ none) →
    ∃ img', writeRecords ht n i img (i * 64) = .ok (img', (i + n) * 64) ∧
      (∀ a < i * 64, img' a = img a) ∧
      ∀ t, i ≤ t → t < i + n → RecordAt img' (t * 64) (ht.buckets t)
  | 0, i, img, _ => ⟨img, rfl, fun _ _ => rfl, fun t h1 h2 => absurd h2 (by omega)⟩
  | n + 1, i, img, hd => by
    obtain ⟨img1, h1, hbelow1, hrec⟩ := writeRecord_spec i (ht.buckets i) img (i * 64)
      (hd i (Nat.le_refl i) (by omega))
    obtain ⟨img2, h2, hbelow2, hrecs⟩ := writeRecords_spec ht n (i + 1) img1
      fun t h1 h2 => hd t (by omega) (by omega)
    refine ⟨img2, ?_, fun a ha => ?_, fun t ht1 ht2 => ?_⟩
    · have hoff : i * 64 + 64 = (i + 1) * 64 := by ring
      have hend : (i + 1 + n) * 64 = (i + (n + 1)) * 64 := by ring
      rw [writeRecords, h1, ok_bind, hoff]
      exact h2.trans (by rw [hend])
    · rw [hbelow2 a (by omega), hbelow1 a ha]
    · rcases Nat.eq_or_lt_of_le ht1 with rfl | hlt
      · exact hrec.shift fun j hj => hbelow2 _ (by omega)
      · exact hrecs t hlt (by omega)

/-! ## The populated table -/

/-- A table left by the insertion loop over `calls`. -/
structure Populated (hash : Hash) (calls : List (CStr × CStr)) (ht : HashTable CStr CStr) :
    Prop where
  wf : WF hash strMem ht
  rep : ∃ m, Rep strMem ht m
  exponent : ht.exponent = tableSize
  keylen : ht.keylen = keyLen
  /-- Every stored key is the key of a call. -/
  keys : ∀ s < ht.sz, ∀ p, (ht.buckets s).key = some p →
    ∃ c ∈ calls, keyBytes strMem keyLen c.1 = keyBytes strMem keyLen p

/-- The insertion loop keeps the invariant and adds no key but those of its calls. -/
theorem insertAll_spec (hash : Hash) : ∀ (cs : List (CStr × CStr)) (ht : HashTable CStr CStr)
    (m : List UInt8 → Option CStr), WF hash strMem ht → Rep strMem ht m →
    ∃ ht' m', insertAll hash ht cs = .ok ht' ∧ WF hash strMem ht' ∧ Rep strMem ht' m' ∧
      SameShape ht' ht ∧
      ∀ kb, m' kb ≠ none → m kb ≠ none ∨ ∃ c ∈ cs, keyBytes strMem ht.keylen c.1 = kb
  | [], ht, m, hwf, hm => ⟨ht, m, rfl, hwf, hm, ⟨rfl, rfl⟩, fun _ h => Or.inl h⟩
  | c :: cs, ht, m, hwf, hm => by
    obtain ⟨ret, ht1, hins, hout⟩ := hopscotchInsert_spec hwf hm c.1 c.2
    obtain ⟨hwf1, hsh1, hm1⟩ := hout.rep hwf hm
    obtain ⟨ht2, m2, hall, hwf2, hm2, hsh2, hkeys⟩ := insertAll_spec hash cs ht1 _ hwf1 hm1
    refine ⟨ht2, m2, by rw [insertAll, hins, ok_bind]; exact hall, hwf2, hm2, hsh2.trans hsh1,
      fun kb hkb => ?_⟩
    rcases hkeys kb hkb with h1 | ⟨c', hc', hb⟩
    · by_cases hc : kb = keyBytes strMem ht.keylen c.1
      · exact Or.inr ⟨c, by simp, hc.symm⟩
      · refine Or.inl ?_
        split at h1
        · rwa [Function.update_of_ne hc] at h1
        · exact h1
    · exact Or.inr ⟨c', by simp [hc'], by rw [← hsh1.2]; exact hb⟩

/-- **`writehash` populates a table that satisfies the invariant**, without a fault. -/
theorem populate_spec (hash : Hash) (calls : List (CStr × CStr)) :
    ∃ ht, populate hash calls = .ok ht ∧ Populated hash calls ht := by
  obtain ⟨ht, m, hrun, hwf, hm, hsh, hkeys⟩ := insertAll_spec hash calls
    (hopscotchInit keyLen) _ (WF.empty _ _) (Rep.empty _ _)
  refine ⟨ht, hrun, hwf, ⟨m, hm⟩, hsh.1, hsh.2, fun s hs p hp => ?_⟩
  rw [show keyLen = ht.keylen from hsh.2.symm]
  have hne := (hm.eq_of_holds hwf ⟨hs, p, hp, rfl⟩).2
  rcases hkeys _ hne with h | ⟨c, hc, hb⟩
  · exact absurd rfl h
  · exact ⟨c, hc, by rw [hsh.2]; rw [hsh.2] at hb; exact hb⟩

/-- The table of the insertion loop is a reached table. -/
theorem insertAll_run (hash : Hash) {keylen : Nat} : ∀ (cs : List (CStr × CStr))
    {ht ht' : HashTable CStr CStr} {m : List UInt8 → Option CStr},
    Run hash keylen ⟨strMem, ht⟩ m → insertAll hash ht cs = .ok ht' →
    ∃ m', Run hash keylen ⟨strMem, ht'⟩ m'
  | [], ht, ht', m, h, hrun => by
    obtain rfl := Except.ok.inj hrun
    exact ⟨m, h⟩
  | c :: cs, ht, ht', m, h, hrun => by
    obtain ⟨hwf, hm, -⟩ := run_inv h
    obtain ⟨ret, ht1, hins, -⟩ := hopscotchInsert_spec hwf hm c.1 c.2
    rw [insertAll, hins, ok_bind] at hrun
    have hstep : step hash ⟨strMem, ht⟩ (.insert c.1 c.2) = .ok (.code ret, ⟨strMem, ht1⟩) := by
      rw [step, hins, ok_bind]
      rfl
    have hallowed : Allowed ⟨strMem, ht⟩ (.insert c.1 c.2) := trivial
    exact insertAll_run hash cs (h.step hallowed hstep) hrun

/-- The image of a table: every bucket has its record. -/
theorem writehash_of_wf {hash : Hash} {ht : HashTable CStr CStr} (hwf : WF hash strMem ht)
    (hexp : ht.exponent = tableSize) (img0 : Bytes) :
    ∃ img, writehash ht img0 = .ok img ∧
      ∀ i < 2 ^ tableSize, RecordAt img (i * 64) (ht.buckets i) := by
  obtain ⟨img, hrun, -, hrec⟩ := writeRecords_spec ht (2 ^ tableSize) 0 (clean img0) fun t _ h2 =>
    hwf.data_some t (by rw [HashTable.sz, hexp]; omega)
  refine ⟨img, ?_, fun i hi => hrec i (Nat.zero_le i) (by omega)⟩
  rw [Nat.zero_mul] at hrun
  rw [writehash, hrun, ok_bind]
  rfl

theorem writehash_record {hash : Hash} {calls : List (CStr × CStr)} {ht : HashTable CStr CStr}
    (h : Populated hash calls ht) (img0 : Bytes) :
    ∃ img, writehash ht img0 = .ok img ∧
      ∀ i < 2 ^ tableSize, RecordAt img (i * 64) (ht.buckets i) :=
  writehash_of_wf h.wf h.exponent img0

end Rpma.Hopscotch
