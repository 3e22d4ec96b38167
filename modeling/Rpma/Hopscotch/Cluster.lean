import Rpma.Hopscotch.Image

/-!
# Keys of one home

Distinct keys that share the home bucket 0 fill the buckets from 0 on, one bit of bucket 0 each
(`populate_cluster`). The bitmap of `n` such keys is `2^n - 1`: it takes fourteen for the
decimal text to outgrow its field, and thirty-two to leave the next key no place.

`clashKeys` are keys as the YCSB traces have them, `user` and twenty digits, which
`_jenkins_hash` sends to bucket 0. With `awayKey` of home 32 they make the concrete tables of the
later modules.
-/

namespace Rpma.Hopscotch

open Rpma.Lib.CText

/-- The table that holds `ks` in the buckets from 0 on, all of home 0. -/
def clusterTable (ks : List CStr) : HashTable CStr CStr :=
  ⟨tableSize, keyLen, fun b => ⟨ks[b]?, ks[b]?, if b = 0 then BitVec.ofNat 32 (2 ^ ks.length - 1)
    else 0#32⟩⟩

/-- A string stored under itself, as `writehash` does. -/
def selfCalls (ks : List CStr) : List (CStr × CStr) := ks.map fun k => (k, k)

/-- The home of a string in a table of `hopscotch_init`. -/
def homeOf (hash : Hash) (k : CStr) : Nat :=
  (hash (keyBytes strMem keyLen k)).toNat &&& (2 ^ tableSize - 1)

theorem homeOf_lt (hash : Hash) (k : CStr) : homeOf hash k < 2 ^ tableSize :=
  Nat.lt_of_le_of_lt Nat.and_le_right (by decide)

theorem Populated.homeIdx_eq {hash : Hash} {calls : List (CStr × CStr)}
    {ht : HashTable CStr CStr} (h : Populated hash calls ht) (k : CStr) :
    homeIdx hash strMem ht k = homeOf hash k := by
  unfold homeIdx homeOf HashTable.sz
  rw [h.exponent, h.keylen]

theorem clusterTable_nil : clusterTable [] = hopscotchInit keyLen := by
  simp [clusterTable, hopscotchInit, Bucket.zero]

/-- One more bit above the lowest `n`. -/
theorem lowBits_succ : ∀ n < 32,
    BitVec.ofNat 32 (2 ^ n - 1) ||| (1#32 <<< n) = BitVec.ofNat 32 (2 ^ (n + 1) - 1) := by
  decide

/-- Storing the next key of the cluster in the bucket after it. -/
theorem placed_clusterTable (ks : List CStr) (k : CStr) (hlen : ks.length < 32) :
    placed (clusterTable ks) 0 ks.length k (some k) = clusterTable (ks ++ [k]) := by
  simp only [placed, clusterTable, HashTable.mk.injEq, true_and]
  funext b
  have hget : (if b = ks.length then some k else ks[b]?) = (ks ++ [k])[b]? := by
    by_cases hb : b = ks.length
    · simp [hb]
    · rw [if_neg hb, List.getElem?_append]
      split
      · rfl
      · rw [List.getElem?_eq_none (by omega), List.getElem?_eq_none (by simp; omega)]
  rw [Bucket.mk.injEq]
  refine ⟨hget, hget, ?_⟩
  by_cases hb : b = 0
  · simp only [hb, if_true, Nat.sub_zero, List.length_append, List.length_singleton]
    exact lowBits_succ _ hlen
  · simp [hb]

theorem firstEmpty_clusterTable (ks : List CStr) (hlen : ks.length ≤ 32) :
    FirstEmpty (clusterTable ks) 0 ks.length := by
  refine ⟨Nat.zero_le _, ?_, by simp [clusterTable], fun t _ ht => by simp [clusterTable, ht]⟩
  show ks.length < 2 ^ tableSize
  exact Nat.lt_of_le_of_lt hlen (by decide)

@[simp] theorem clusterTable_keylen (ks : List CStr) : (clusterTable ks).keylen = keyLen := rfl

theorem homeIdx_clusterTable (hash : Hash) (ks : List CStr) (k : CStr) :
    homeIdx hash strMem (clusterTable ks) k = homeOf hash k := rfl

/-- Keys that make a cluster. -/
structure IsCluster (hash : Hash) (ks : List CStr) : Prop where
  length_le : ks.length ≤ 32
  home : ∀ k ∈ ks, homeOf hash k = 0
  nodup : (ks.map (keyBytes strMem keyLen)).Nodup

/-- The code of the insertion that makes `n` keys of home 0 one more. -/
def clusterCode (n : Nat) : Int :=
  if (BitVec.ofNat 32 (2 ^ (n + 1) - 1)).toNat > 32 then -4 else 0

/-- **The next key of the cluster** goes to the bucket after it. -/
theorem insert_cluster {hash : Hash} {ks : List CStr} {k : CStr} {m : List UInt8 → Option CStr}
    (hwf : WF hash strMem (clusterTable ks)) (hm : Rep strMem (clusterTable ks) m)
    (hlen : ks.length < 32) (hhome : homeOf hash k = 0)
    (hnd : ((ks ++ [k]).map (keyBytes strMem keyLen)).Nodup) :
    hopscotchInsert hash strMem (clusterTable ks) k (some k) =
      .ok (clusterCode ks.length, clusterTable (ks ++ [k])) ∧
    WF hash strMem (clusterTable (ks ++ [k])) ∧
    Rep strMem (clusterTable (ks ++ [k]))
      (Function.update m (keyBytes strMem keyLen k) (some k)) := by
  have hidx : homeIdx hash strMem (clusterTable ks) k = 0 :=
    (homeIdx_clusterTable hash ks k).trans hhome
  -- the next key is none of those stored
  have habs : ∀ t, ¬ Holds strMem (clusterTable ks) (keyBytes strMem keyLen k) t := by
    rintro t ⟨-, p, hp, hb⟩
    have hp' : p ∈ ks := List.mem_of_getElem? hp
    rw [List.map_append, List.nodup_append'] at hnd
    refine hnd.2.2 (List.mem_map_of_mem hp') ?_
    rw [show keyBytes strMem keyLen p = keyBytes strMem keyLen k from hb]
    simp
  have hfirst : FirstEmpty (clusterTable ks) (homeIdx hash strMem (clusterTable ks) k)
      ks.length := by
    rw [hidx]
    exact firstEmpty_clusterTable ks (by omega)
  have hnear : ks.length < homeIdx hash strMem (clusterTable ks) k + hopNumber := by
    rw [hidx, Nat.zero_add]
    exact hlen
  have hins := hopscotchInsert_near hwf hm (hm.eq_none_of_not_holds habs) hfirst hnear (some k)
  have hwf1 := hwf.placed (d := k) hfirst.1 hnear hfirst.2.1 hfirst.2.2.1 habs
  have hm1 := hm.placed (d := k) 0 hfirst.2.1 hfirst.2.2.1 habs
  rw [hidx, placed_clusterTable ks k hlen] at hins hwf1
  rw [placed_clusterTable ks k hlen] at hm1
  refine ⟨?_, hwf1, hm1⟩
  have hhop : ((clusterTable (ks ++ [k])).buckets 0).hopinfo =
      BitVec.ofNat 32 (2 ^ (ks.length + 1) - 1) := by simp [clusterTable]
  rw [hins, hhop]
  rfl

/-- The insertion loop grows a cluster. -/
theorem insertAll_cluster (hash : Hash) : ∀ (ks' ks : List CStr) (m : List UInt8 → Option CStr),
    WF hash strMem (clusterTable ks) → Rep strMem (clusterTable ks) m →
    (ks ++ ks').length ≤ 32 → (∀ k ∈ ks', homeOf hash k = 0) →
    ((ks ++ ks').map (keyBytes strMem keyLen)).Nodup →
    insertAll hash (clusterTable ks) (selfCalls ks') = .ok (clusterTable (ks ++ ks'))
  | [], ks, _, _, _, _, _, _ => by simp [selfCalls, insertAll]
  | k :: ks', ks, m, hwf, hm, hlen, hhome, hnd => by
    rw [List.append_cons] at hlen hnd ⊢
    have hlen1 : ks.length < 32 := by
      simp at hlen
      omega
    have hnd1 : ((ks ++ [k]).map (keyBytes strMem keyLen)).Nodup := by
      rw [List.map_append, List.nodup_append'] at hnd
      exact hnd.1
    obtain ⟨hins, hwf1, hm1⟩ := insert_cluster hwf hm hlen1 (hhome k (by simp)) hnd1
    show insertAll hash (clusterTable ks) ((k, k) :: selfCalls ks') = _
    rw [insertAll, hins, ok_bind]
    exact insertAll_cluster hash ks' (ks ++ [k]) _ hwf1 hm1 hlen
      (fun q hq => hhome q (by simp [hq])) hnd

/-- **Up to 32 distinct keys of home 0 fill the buckets from 0 on.** -/
theorem populate_cluster {hash : Hash} {ks : List CStr} (hlen : ks.length ≤ 32)
    (hhome : ∀ k ∈ ks, homeOf hash k = 0) (hnd : (ks.map (keyBytes strMem keyLen)).Nodup) :
    populate hash (selfCalls ks) = .ok (clusterTable ks) := by
  have h := insertAll_cluster hash ks [] (fun _ => none)
    (by rw [clusterTable_nil]; exact WF.empty _ _) (by rw [clusterTable_nil]; exact Rep.empty _ _)
    hlen hhome hnd
  rwa [clusterTable_nil] at h

/-- **The cluster is a reachable table.** -/
theorem IsCluster.run {hash : Hash} {ks : List CStr} (hc : IsCluster hash ks) :
    ∃ m, Run hash keyLen ⟨strMem, clusterTable ks⟩ m :=
  insertAll_run hash (selfCalls ks) (.init strMem)
    (populate_cluster hc.length_le hc.home hc.nodup)

/-! ## Keys of the traces -/

/-- The decimal digits of `n`, eight of them. -/
def digits8 (n : Nat) : List UInt8 :=
  (List.range 8).map fun i => 48 + UInt8.ofNat (n / 10 ^ (7 - i) % 10)

theorem digits8_nonzero (n : Nat) : ∀ b ∈ digits8 n, b ≠ 0 := by
  have hdigit : ∀ d < 10, 48 + UInt8.ofNat d ≠ 0 := by decide
  intro b hb
  obtain ⟨i, -, rfl⟩ := List.mem_map.mp hb
  exact hdigit _ (Nat.mod_lt _ (by decide))

/-- `user000000000000` and eight more digits. -/
def userKey (n : Nat) : CStr where
  bytes := [117, 115, 101, 114] ++ List.replicate 12 48 ++ digits8 n
  nonzero b hb := by
    rcases List.mem_append.mp hb with h | h
    · have hpre : ∀ c ∈ ([117, 115, 101, 114] ++ List.replicate 12 48 : List UInt8), c ≠ 0 := by
        simp
      exact hpre b h
    · exact digits8_nonzero n b h

theorem userKey_length (n : Nat) : (userKey n).bytes.length = 24 := by
  simp [userKey, digits8]

/-- Keys that `_jenkins_hash` sends to bucket 0. -/
def clashKeys : List CStr :=
  [1979045, 5418233, 7348012, 12137250, 14524534, 20190561, 20560931, 22169759, 23228459, 23258661,
    25646968, 26198721, 26735636, 28312313, 29859594, 30053379, 31587762, 31993433, 32749970,
    34772628, 40976864, 41949936, 42716442, 43638959, 44838767, 49245855, 51334683, 52837738,
    59587717, 59694279, 64015242, 65417046, 67825811].map userKey

/-- A key that `_jenkins_hash` sends to bucket 32. -/
def awayKey : CStr := userKey 1224662

/-- A 33rd key of home 0. -/
def lateKey : CStr := userKey 67825811

theorem clashKeys_home : ∀ k ∈ clashKeys, homeOf jenkinsHash k = 0 := by
  decide +kernel

theorem clashKeys_nodup : (clashKeys.map (keyBytes strMem keyLen)).Nodup := by
  decide +kernel

theorem lateKey_home : homeOf jenkinsHash lateKey = 0 :=
  clashKeys_home _ (by simp [clashKeys, lateKey])

theorem isCluster_clashKeys {n : Nat} (hn : n ≤ 32) :
    IsCluster jenkinsHash (clashKeys.take n) where
  length_le := by
    rw [List.length_take]
    omega
  home k hk := clashKeys_home k (List.mem_of_mem_take hk)
  nodup := clashKeys_nodup.sublist ((List.take_sublist n _).map _)

theorem awayKey_home : homeOf jenkinsHash awayKey = 32 := by
  decide +kernel

end Rpma.Hopscotch
