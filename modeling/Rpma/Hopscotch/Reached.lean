import Mathlib.Data.Set.Finite.Basic
import Rpma.Hopscotch.Cluster

/-!
# Every run of the hopscotch table is a run of a finite map

`ActsAsMap` is what a caller of `hopscotch.h` counts on, operation by operation, in terms of the map
that the return codes seen so far describe.

* **`run_actsAsMap`**: from every reached table each operation answers as the map `m` does, does
  not fault, and changes the map only as its return code says.
* **`run_bitmap_exact`**: in every reached table the bitmaps describe exactly the stored keys.
-/

namespace Rpma.Hopscotch

variable {P D : Type}

/-! ## The table acts as the map -/

/-- **The table behaves as the finite map `m`** from `keylen`-byte keys to data. -/
structure ActsAsMap (hash : Hash) (keylen : Nat) (s : State P D) (m : List UInt8 → Option D) :
    Prop where
  /-- The map is finite and its keys have `keylen` bytes. -/
  finite : {kb | m kb ≠ none}.Finite ∧ ∀ kb, m kb ≠ none → kb.length = keylen
  /-- `lookup(k)` returns the data of `k`, `NULL` when absent. -/
  lookup : ∀ k, hopscotchLookup hash s.mem s.ht k = .ok (m (keyBytes s.mem keylen k))
  /-- `insert(k, d)`: `-2` iff present, and then nothing changes; `0` and `-4` add exactly
  `k ↦ d`; `-1` and `-3` change no lookup. -/
  insert : ∀ k d, ∃ ret ht', hopscotchInsert hash s.mem s.ht k (some d) = .ok (ret, ht') ∧
    ret ∈ ([0, -1, -2, -3, -4] : List Int) ∧
    (ret = -2 ↔ m (keyBytes s.mem keylen k) ≠ none) ∧ (ret = -2 → ht' = s.ht) ∧
    (ret = 0 ∨ ret = -4 → ∀ k', hopscotchLookup hash s.mem ht' k' =
      .ok (Function.update m (keyBytes s.mem keylen k) (some d) (keyBytes s.mem keylen k'))) ∧
    (ret = -1 ∨ ret = -3 → ∀ k', hopscotchLookup hash s.mem ht' k' =
      .ok (m (keyBytes s.mem keylen k')))
  /-- `remove(k)` returns the data of `k` and deletes only `k`; nothing changes when absent. -/
  remove : ∀ k, ∃ ht', hopscotchRemove hash s.mem s.ht k =
      .ok (m (keyBytes s.mem keylen k), ht') ∧
    (∀ k', hopscotchLookup hash s.mem ht' k' =
      .ok (Function.update m (keyBytes s.mem keylen k) none (keyBytes s.mem keylen k'))) ∧
    (m (keyBytes s.mem keylen k) = none → ht' = s.ht)
  /-- `resize` changes no lookup, and `-1` leaves the exponent and the bucket array. -/
  resize : ∀ malloced delta, Allowed s (.resize malloced delta) →
    ∃ ret ht', hopscotchResize hash s.mem malloced s.ht delta = .ok (ret, ht') ∧
      (ret = 0 ∨ ret = -1) ∧
      (∀ k', hopscotchLookup hash s.mem ht' k' = .ok (m (keyBytes s.mem keylen k'))) ∧
      (ret = -1 → ht'.exponent = s.ht.exponent ∧ ht'.buckets = s.ht.buckets)

section

variable {hash : Hash} {mem : Mem P} {ht : HashTable P D}

/-- The keys of a table are among the keys its buckets hold. -/
theorem Rep.finite {m : List UInt8 → Option D} (hm : Rep mem ht m) :
    {kb | m kb ≠ none}.Finite := by
  let keyAt : Nat → Option (List UInt8) := fun s => (ht.buckets s).key.map (keyBytes mem ht.keylen)
  have hfin : (Set.image keyAt {s | s < ht.sz}).Finite := (Set.finite_lt_nat ht.sz).image keyAt
  refine (hfin.preimage (Option.some_injective _).injOn).subset fun kb hkb => ?_
  obtain ⟨d, hd⟩ := Option.ne_none_iff_exists'.mp hkb
  obtain ⟨s, ⟨hs, p, hp, hb⟩, -⟩ := (hm kb d).mp hd
  exact ⟨s, hs, by simp [keyAt, hp, hb]⟩

theorem Rep.keylen {m : List UInt8 → Option D} (hm : Rep mem ht m) {kb : List UInt8}
    (h : m kb ≠ none) : kb.length = ht.keylen := by
  obtain ⟨d, hd⟩ := Option.ne_none_iff_exists'.mp h
  obtain ⟨s, ⟨-, p, -, rfl⟩, -⟩ := (hm kb d).mp hd
  simp [keyBytes]

end

/-- **Every run of the table is a run of a finite map**, for every hash: from every reached
table each operation answers as the map its past return codes describe. -/
theorem run_actsAsMap (hash : Hash) (keylen : Nat) {s : State P D} {m : List UInt8 → Option D}
    (h : Run hash keylen s m) : ActsAsMap hash keylen s m := by
  obtain ⟨hwf, hm, hkl⟩ := run_inv h
  subst hkl
  refine ⟨⟨hm.finite, fun kb => hm.keylen⟩, hopscotchLookup_spec hwf hm, fun k d => ?_,
    fun k => ?_, fun malloced delta _ => ?_⟩
  · obtain ⟨ret, ht', hins, hout⟩ := hopscotchInsert_spec hwf hm k d
    obtain ⟨hwf', hsh, hm'⟩ := hout.rep hwf hm
    have hlook := hopscotchLookup_spec hwf' hm'
    rw [hsh.2] at hlook
    refine ⟨ret, ht', hins, ?_, ?_, ?_, fun hret => ?_, fun hret => ?_⟩
    · cases hout with
      | present _ => simp
      | full _ _ => simp
      | stuck _ _ _ _ _ _ _ _ _ _ => simp
      | stored _ _ _ _ _ _ hret => rcases hret with rfl | rfl <;> simp
    · cases hout with
      | present h => simp [h]
      | full h _ => simp [h]
      | stuck _ _ h _ _ _ _ _ _ _ => simp [h]
      | stored _ _ h _ _ _ hret => rcases hret with rfl | rfl <;> simp [h]
    · intro h2
      cases hout with
      | present _ => rfl
      | full _ _ => exact absurd h2 (by decide)
      | stuck _ _ _ _ _ _ _ _ _ _ => exact absurd h2 (by decide)
      | stored _ _ _ _ _ _ hret => rcases hret with rfl | rfl <;> exact absurd h2 (by decide)
    · rw [if_pos hret] at hlook
      exact hlook
    · rw [if_neg (by omega)] at hlook
      exact hlook
  · obtain ⟨ht', hrem, hwf', hsh, hm', hsame⟩ := hopscotchRemove_spec hwf hm k
    have hlook := hopscotchLookup_spec hwf' hm'
    rw [hsh.2] at hlook
    exact ⟨ht', hrem, hlook, hsame⟩
  · obtain ⟨ret, ht', hres, hout⟩ := hopscotchResize_spec hwf hm malloced delta
    refine ⟨ret, ht', hres, ?_⟩
    rcases hout with ⟨rfl, rfl⟩ | ⟨rfl, hwf', hm', -, hkl'⟩
    · exact ⟨Or.inr rfl, hopscotchLookup_spec hwf hm, fun _ => ⟨rfl, rfl⟩⟩
    · have hlook := hopscotchLookup_spec hwf' hm'
      rw [hkl'] at hlook
      exact ⟨Or.inl rfl, hlook, fun h => absurd h (by decide)⟩

/-- A table with keys away from their home: five of home 0, in the buckets 0 to 4. -/
theorem run_actsAsMap_cluster :
    ∃ m, Run jenkinsHash keyLen ⟨strMem, clusterTable (clashKeys.take 5)⟩ m ∧
      ((clusterTable (clashKeys.take 5)).buckets 4).key = clashKeys[4]? ∧
      (∀ k ∈ clashKeys[4]?, homeOf jenkinsHash k = 0) ∧
      ActsAsMap jenkinsHash keyLen ⟨strMem, clusterTable (clashKeys.take 5)⟩ m := by
  obtain ⟨m, hrun⟩ := (isCluster_clashKeys (n := 5) (by decide)).run
  exact ⟨m, hrun, rfl, fun k hk => clashKeys_home k (List.mem_of_getElem? hk),
    run_actsAsMap jenkinsHash keyLen hrun⟩

/-- **In every reached table the bitmaps are exact**: bit `i` of bucket `b` is set iff bucket
`b + i` is in the table and holds a key of home `b`; equal keys share a bucket; every key lies
fewer than 32 buckets after its home. -/
theorem run_bitmap_exact (hash : Hash) (keylen : Nat) {s : State P D}
    {m : List UInt8 → Option D} (h : Run hash keylen s m) :
    (∀ b < 2 ^ s.ht.exponent, ∀ i < 32, (s.ht.buckets b).hopinfo.getLsbD i = true ↔
      b + i < 2 ^ s.ht.exponent ∧ ∃ p, (s.ht.buckets (b + i)).key = some p ∧
        (hash (keyBytes s.mem keylen p)).toNat &&& (2 ^ s.ht.exponent - 1) = b) ∧
    (∀ a < 2 ^ s.ht.exponent, ∀ b < 2 ^ s.ht.exponent, ∀ p q, (s.ht.buckets a).key = some p →
      (s.ht.buckets b).key = some q → keyBytes s.mem keylen p = keyBytes s.mem keylen q → a = b) ∧
    (∀ a < 2 ^ s.ht.exponent, ∀ p, (s.ht.buckets a).key = some p →
      (hash (keyBytes s.mem keylen p)).toNat &&& (2 ^ s.ht.exponent - 1) ≤ a ∧
      a < ((hash (keyBytes s.mem keylen p)).toNat &&& (2 ^ s.ht.exponent - 1)) + 32) := by
  obtain ⟨hwf, -, rfl⟩ := run_inv h
  refine ⟨hwf.bit_iff, fun a ha b hb p q hp hq hpq => ?_, hwf.near⟩
  exact hwf.distinct _ a b ⟨ha, p, hp, rfl⟩ ⟨hb, q, hq, hpq.symm⟩

/-- The bitmap of five keys of home 0. -/
theorem run_bitmap_exact_cluster :
    ∃ m, Run jenkinsHash keyLen ⟨strMem, clusterTable (clashKeys.take 5)⟩ m ∧
      ((clusterTable (clashKeys.take 5)).buckets 0).hopinfo = 31#32 ∧
      ∀ b < 2 ^ tableSize, ∀ i < 32,
        ((clusterTable (clashKeys.take 5)).buckets b).hopinfo.getLsbD i = true ↔
          b + i < 2 ^ tableSize ∧ ∃ p,
            ((clusterTable (clashKeys.take 5)).buckets (b + i)).key = some p ∧
              (jenkinsHash (keyBytes strMem keyLen p)).toNat &&& (2 ^ tableSize - 1) = b := by
  obtain ⟨m, hrun⟩ := (isCluster_clashKeys (n := 5) (by decide)).run
  exact ⟨m, hrun, rfl, (run_bitmap_exact jenkinsHash keyLen hrun).1⟩

end Rpma.Hopscotch
