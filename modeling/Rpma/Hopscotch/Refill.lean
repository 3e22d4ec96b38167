import Rpma.Hopscotch.Holes
import Rpma.Hopscotch.Refusal

/-!
# Which insertions make a resize fail

`hopscotch_resize` fills a new bucket array with the stored keys, one `hopscotch_insert` after
another, and gives up at the first negative code. For its other caller, `writehash`, the code `-4`
means that the key was stored and left its home with a bitmap above 32. `ResizeContract` is what a
resize is for: it fails only for want of memory or of a place for some key.

The re-insertion loop ends in one of three ways (`rehash_outcome`): every key is placed with 0,
some key finds no place, or one was placed with `-4`, which the loop takes for a failure. Which keys
are placed with `-4` is a matter of the table before the insertion (`CrowdsHome`): the bucket is the
end of the chain of holes, and the bit of that bucket lifts the bitmap of the home above 32.

* **`resizeContract_iff`**: a resize keeps its contract exactly when it comes to no key that would
  crowd its home.
* `IsCluster.crowds_iff`: keys of one home do so from the sixth on.
* `resize_fails_with_room`: six keys of one home cannot be moved to a table of the same size.
-/

namespace Rpma.Hopscotch

open HashTable (SameShape)

variable {P D : Type}

section Refill

variable (hash : Hash) (mem : Mem P)

/-- `hopscotch_insert(ht, key, data)` stores the key and leaves `ht'`. -/
def Stores (ht : HashTable P D) (key : P) (data : Option D) (ht' : HashTable P D) : Prop :=
  ∃ ret, hopscotchInsert hash mem ht key data = .ok (ret, ht') ∧ (ret = 0 ∨ ret = -4)

/-- The keys of the old buckets `i, …, i + n - 1` can all be placed, one after another. -/
def Placeable (obuckets : Nat → Bucket P D) : Nat → Nat → HashTable P D → Prop
  | 0, _, _ => True
  | n + 1, i, ht =>
    match (obuckets i).key with
    | none => Placeable obuckets n (i + 1) ht
    | some key => ∃ ht', Stores hash mem ht key (obuckets i).data ht' ∧
        Placeable obuckets n (i + 1) ht'

/-- The chain of holes for the absent `key` ends in a bucket `e` within reach of its home, and the
bit of `e` lifts the bitmap of the home above 32. -/
def CrowdsHome (ht : HashTable P D) (key : P) : Prop :=
  ∃ i e, FirstEmpty ht (homeIdx hash mem ht key) i ∧ HolePath ht (homeIdx hash mem ht key) i e ∧
    e < homeIdx hash mem ht key + hopNumber ∧
    32 < ((ht.buckets (homeIdx hash mem ht key)).hopinfo |||
      1#32 <<< (e - homeIdx hash mem ht key)).toNat

/-- Placed one after another, the keys come to one that would crowd its home. -/
def Crowds (obuckets : Nat → Bucket P D) : Nat → Nat → HashTable P D → Prop
  | 0, _, _ => False
  | n + 1, i, ht =>
    match (obuckets i).key with
    | none => Crowds obuckets n (i + 1) ht
    | some key => CrowdsHome hash mem ht key ∨
        ∃ ht', Stores hash mem ht key (obuckets i).data ht' ∧ Crowds obuckets n (i + 1) ht'

/-- The codes that the insertions of the re-insertion loop return. -/
def rehashCodes (obuckets : Nat → Bucket P D) :
    Nat → Nat → HashTable P D → Except Fault (List Int)
  | 0, _, _ => .ok []
  | n + 1, i, ht =>
    match (obuckets i).key with
    | none => rehashCodes obuckets n (i + 1) ht
    | some key => do
      let (ret, ht) ← hopscotchInsert hash mem ht key (obuckets i).data
      if ret < 0 then return [ret]
      return ret :: (← rehashCodes obuckets n (i + 1) ht)

/-- The zeroed bucket array of a resize. -/
def freshTable (ht : HashTable P D) (delta : Int) : HashTable P D :=
  ⟨newExponent ht delta, ht.keylen, fun _ => .zero⟩

/-- **What a resize is for.** -/
structure ResizeContract (malloced : Bool) (ht : HashTable P D) (delta : Int) : Prop where
  /-- `-1` only if the allocation failed, or an insertion found no reachable free bucket. -/
  fails_only : ∀ ht', hopscotchResize hash mem malloced ht delta = .ok (-1, ht') →
    malloced = false ∨ ∃ codes,
      rehashCodes hash mem ht.buckets ht.sz 0 (freshTable ht delta) = .ok codes ∧
        (-1 ∈ codes ∨ -3 ∈ codes)
  /-- `0` and the new exponent, if every key can be placed. -/
  succeeds : malloced = true → Placeable hash mem ht.buckets ht.sz 0 (freshTable ht delta) →
    ∃ ht', hopscotchResize hash mem malloced ht delta = .ok (0, ht') ∧
      ht'.exponent = newExponent ht delta

end Refill

/-! ## The loop -/

section Loop

variable {hash : Hash} {mem : Mem P} {ht : HashTable P D}

/-- How the re-insertion loop can end. -/
inductive RehashEnd (hash : Hash) (mem : Mem P) (obuckets : Nat → Bucket P D) (n i : Nat)
    (nt : HashTable P D) : Prop
  /-- Every key was placed with 0. -/
  | done (nt' : HashTable P D) (h : rehash hash mem obuckets n i nt = .ok (some nt'))
      (hsh : SameShape nt' nt) (hno : ¬ Crowds hash mem obuckets n i nt)
  /-- Some key found no place. -/
  | refused (codes : List Int) (h : rehash hash mem obuckets n i nt = .ok none)
      (hcodes : rehashCodes hash mem obuckets n i nt = .ok codes)
      (hmem : -1 ∈ codes ∨ -3 ∈ codes) (hno : ¬ Crowds hash mem obuckets n i nt)
      (hstuck : ¬ Placeable hash mem obuckets n i nt)
  /-- Some key was placed with `-4`. -/
  | crowded (codes : List Int) (h : rehash hash mem obuckets n i nt = .ok none)
      (hcodes : rehashCodes hash mem obuckets n i nt = .ok codes)
      (hmem : ∀ c ∈ codes, c = 0 ∨ c = -4) (hyes : Crowds hash mem obuckets n i nt)

/-- What becomes of a new key, and whether it would crowd its home. -/
theorem hopscotchInsert_new (hwf : WF hash mem ht) {m : List UInt8 → Option D}
    (hm : Rep mem ht m) {key : P} (d : D) (habs : m (keyBytes mem ht.keylen key) = none) :
    ∃ ret ht', hopscotchInsert hash mem ht key (some d) = .ok (ret, ht') ∧
      ((ret = -1 ∨ ret = -3) ∧ ¬ CrowdsHome hash mem ht key ∨
        ret = -4 ∧ CrowdsHome hash mem ht key ∨ ret = 0 ∧ ¬ CrowdsHome hash mem ht key) := by
  rcases exists_firstEmpty_or_full ht (homeIdx_lt hash mem ht key) with ⟨i, hi⟩ | ⟨-, hall⟩
  · obtain ⟨e, ht1, hpath, -, -, -, -, hhome, hend⟩ := hopscotchInsert_holes hwf hm habs hi d
    -- the chain has one end, so the key crowds its home iff this one is as `CrowdsHome` says
    have hcrowds : CrowdsHome hash mem ht key ↔ e < homeIdx hash mem ht key + hopNumber ∧
        32 < ((ht.buckets (homeIdx hash mem ht key)).hopinfo |||
          1#32 <<< (e - homeIdx hash mem ht key)).toNat := by
      constructor
      · rintro ⟨i', e', hi', hpath', h⟩
        obtain rfl := hi.unique hi'
        obtain rfl := hpath.unique hpath'
        exact h
      · exact fun h => ⟨i, e, hi, hpath, h⟩
    rcases hend with ⟨hnear, hins⟩ | ⟨hfar, hins⟩
    · refine ⟨_, _, hins, .inr ?_⟩
      simp only [placed, if_true, hhome, hcrowds, hnear, true_and]
      split
      · rename_i h
        exact .inl ⟨rfl, h⟩
      · rename_i h
        exact .inr ⟨rfl, h⟩
    · exact ⟨-3, ht1, hins, .inl ⟨.inr rfl, fun h => Nat.not_lt.mpr hfar (hcrowds.mp h).1⟩⟩
  · have hlook : hopscotchLookup hash mem ht key = .ok none := by
      rw [hopscotchLookup_spec hwf hm key, habs]
    refine ⟨-1, ht, hopscotchInsert_full _ hlook hall, .inl ⟨.inl rfl, ?_⟩⟩
    rintro ⟨i, -, hi, -⟩
    exact hall i hi.1 hi.2.1 hi.2.2.1

/-- The next key of the old table is not in the new one yet. -/
theorem RepBelow.absent (hwf : WF hash mem ht) {m : List UInt8 → Option D} {i : Nat}
    (h : RepBelow mem ht i m) (hi : i < ht.sz) {p : P} (hk : (ht.buckets i).key = some p) :
    m (keyBytes mem ht.keylen p) = none := by
  cases hd : m (keyBytes mem ht.keylen p) with
  | none => rfl
  | some d =>
    obtain ⟨s, hs, hh, -⟩ := (h _ d).mp hd
    have := hwf.distinct _ s i hh ⟨hi, p, hk, rfl⟩
    omega

theorem Stores.result {key : P} {data : Option D} {ht' ht1 : HashTable P D} {ret : Int}
    (h : Stores hash mem ht key data ht')
    (hins : hopscotchInsert hash mem ht key data = .ok (ret, ht1)) :
    ht' = ht1 ∧ (ret = 0 ∨ ret = -4) := by
  obtain ⟨ret', hins', hret⟩ := h
  rw [hins] at hins'
  cases hins'
  exact ⟨rfl, hret⟩

variable {obuckets : Nat → Bucket P D} {n i : Nat} {nt nt1 : HashTable P D} {p : P}

theorem RehashEnd.skip (hk : (obuckets i).key = none)
    (h : RehashEnd hash mem obuckets n (i + 1) nt) : RehashEnd hash mem obuckets (n + 1) i nt := by
  cases h with
  | done nt' h hsh hno =>
    exact .done nt' (by simpa [rehash, hk] using h) hsh (by simpa [Crowds, hk] using hno)
  | refused codes h hcodes hmem hno hstuck =>
    exact .refused codes (by simpa [rehash, hk] using h) (by simpa [rehashCodes, hk] using hcodes)
      hmem (by simpa [Crowds, hk] using hno) (by simpa [Placeable, hk] using hstuck)
  | crowded codes h hcodes hmem hyes =>
    exact .crowded codes (by simpa [rehash, hk] using h) (by simpa [rehashCodes, hk] using hcodes)
      hmem (by simpa [Crowds, hk] using hyes)

/-- A key that finds no place ends the loop. -/
theorem RehashEnd.refuse (hk : (obuckets i).key = some p) {ret : Int}
    (hins : hopscotchInsert hash mem nt p (obuckets i).data = .ok (ret, nt1))
    (hret : ret = -1 ∨ ret = -3) (hno : ¬ CrowdsHome hash mem nt p) :
    RehashEnd hash mem obuckets (n + 1) i nt := by
  have hneg : ret < 0 := by omega
  refine .refused [ret] (by simp [rehash, hk, hins, hneg]) (by simp [rehashCodes, hk, hins, hneg])
    ?_ ?_ ?_
  · rcases hret with rfl | rfl <;> simp
  · simp only [Crowds, hk]
    rintro (h | ⟨nt2, hst, -⟩)
    · exact hno h
    · have := (hst.result hins).2
      omega
  · simp only [Placeable, hk]
    rintro ⟨nt2, hst, -⟩
    have := (hst.result hins).2
    omega

/-- So does one that is placed with `-4`. -/
theorem RehashEnd.crowd (hk : (obuckets i).key = some p)
    (hins : hopscotchInsert hash mem nt p (obuckets i).data = .ok (-4, nt1))
    (hyes : CrowdsHome hash mem nt p) : RehashEnd hash mem obuckets (n + 1) i nt := by
  refine .crowded [-4] (by simp [rehash, hk, hins]) (by simp [rehashCodes, hk, hins]) (by simp) ?_
  simp only [Crowds, hk]
  exact .inl hyes

/-- A key that is placed with 0 leaves the end to the other keys. -/
theorem RehashEnd.store (hk : (obuckets i).key = some p)
    (hins : hopscotchInsert hash mem nt p (obuckets i).data = .ok (0, nt1))
    (hno : ¬ CrowdsHome hash mem nt p) (hsh1 : SameShape nt1 nt)
    (h : RehashEnd hash mem obuckets n (i + 1) nt1) :
    RehashEnd hash mem obuckets (n + 1) i nt := by
  have hcrowds : Crowds hash mem obuckets (n + 1) i nt ↔
      Crowds hash mem obuckets n (i + 1) nt1 := by
    simp only [Crowds, hk]
    constructor
    · rintro (h | ⟨nt2, hst, hc⟩)
      · exact absurd h hno
      · obtain ⟨rfl, -⟩ := hst.result hins
        exact hc
    · exact fun hc => .inr ⟨nt1, ⟨0, hins, .inl rfl⟩, hc⟩
  have hrehash : rehash hash mem obuckets (n + 1) i nt =
      rehash hash mem obuckets n (i + 1) nt1 := by
    simp [rehash, hk, hins]
  have hcons : ∀ codes, rehashCodes hash mem obuckets n (i + 1) nt1 = .ok codes →
      rehashCodes hash mem obuckets (n + 1) i nt = .ok (0 :: codes) := by
    intro codes hcodes
    simp [rehashCodes, hk, hins, hcodes]
  cases h with
  | done nt' h hsh hno =>
    exact .done nt' (hrehash.trans h) (hsh.trans hsh1) (mt hcrowds.mp hno)
  | refused codes h hcodes hmem hno hstuck =>
    refine .refused (0 :: codes) (hrehash.trans h) (hcons codes hcodes) ?_ (mt hcrowds.mp hno) ?_
    · exact hmem.imp (List.mem_cons_of_mem _) (List.mem_cons_of_mem _)
    · simp only [Placeable, hk]
      rintro ⟨nt2, hst, hp⟩
      obtain ⟨rfl, -⟩ := hst.result hins
      exact hstuck hp
  | crowded codes h hcodes hmem hyes =>
    refine .crowded (0 :: codes) (hrehash.trans h) (hcons codes hcodes) ?_ (hcrowds.mpr hyes)
    exact List.forall_mem_cons.mpr ⟨.inl rfl, hmem⟩

/-- **The re-insertion loop ends in one of three ways.** -/
theorem rehash_outcome (hwf : WF hash mem ht) (n i : Nat) (nt : HashTable P D)
    (m : List UInt8 → Option D) (hi : i + n = ht.sz) (hkl : nt.keylen = ht.keylen)
    (hwfn : WF hash mem nt) (hmn : Rep mem nt m) (hbelow : RepBelow mem ht i m) :
    RehashEnd hash mem ht.buckets n i nt := by
  induction n generalizing i nt m with
  | zero => exact .done nt rfl ⟨rfl, rfl⟩ id
  | succ n ih =>
    cases hk : (ht.buckets i).key with
    | none => exact (ih (i + 1) nt m (by omega) hkl hwfn hmn (hbelow.skip hk)).skip hk
    | some p =>
      have habs : m (keyBytes mem nt.keylen p) = none := by
        rw [hkl]
        exact hbelow.absent hwf (by omega) hk
      obtain ⟨d, hd⟩ := Option.ne_none_iff_exists'.mp
        (hwf.data_some i (by omega) (by simp [hk]))
      obtain ⟨ret, nt1, hins, hret⟩ := hopscotchInsert_new hwfn hmn d habs
      rw [← hd] at hins
      rcases hret with ⟨hret, hno⟩ | ⟨rfl, hyes⟩ | ⟨rfl, hno⟩
      · exact .refuse hk hins hret hno
      · exact .crowd hk hins hyes
      · obtain ⟨ret', nt2, hins', hout⟩ := hopscotchInsert_spec hwfn hmn p d
        rw [← hd, hins] at hins'
        cases hins'
        cases hout with
        | stored _ _ _ hwf1 hm1 hsh _ =>
          rw [hkl] at hm1
          exact .store hk hins hno hsh (ih (i + 1) nt1 _ (by omega) (hsh.2.trans hkl) hwf1 hm1
            (hbelow.take hwf (by omega) hk hd))

end Loop

/-! ## Resizing -/

section Resize

variable {hash : Hash} {mem : Mem P} {ht : HashTable P D}

theorem hopscotchResize_of_rehash {delta : Int} {r : Option (HashTable P D)}
    (h : rehash hash mem ht.buckets ht.sz 0 (freshTable ht delta) = .ok r) :
    hopscotchResize hash mem true ht delta = .ok (match r with
      | none => (-1, ht)
      | some nt => (0, nt)) := by
  unfold freshTable at h
  cases r <;> simp [hopscotchResize, h]

theorem resize_outcome (hwf : WF hash mem ht) (delta : Int) :
    RehashEnd hash mem ht.buckets ht.sz 0 (freshTable ht delta) := by
  have hbelow : RepBelow mem ht 0 fun _ => none := by
    intro kb d
    simp
  exact rehash_outcome hwf ht.sz 0 (freshTable ht delta) _ (Nat.zero_add _) rfl (WF.empty _ _)
    (Rep.empty _ _) hbelow

theorem hopscotchResize_of_crowds (hwf : WF hash mem ht) {delta : Int}
    (h : Crowds hash mem ht.buckets ht.sz 0 (freshTable ht delta)) :
    hopscotchResize hash mem true ht delta = .ok (-1, ht) := by
  cases resize_outcome hwf delta with
  | done _ _ _ hno => exact absurd h hno
  | refused _ hr _ _ _ _ => exact hopscotchResize_of_rehash hr
  | crowded _ hr _ _ _ => exact hopscotchResize_of_rehash hr

/-- **A resize keeps its contract exactly when it crowds no home.** -/
theorem resizeContract_iff_not_crowds (hwf : WF hash mem ht) (malloced : Bool) (delta : Int) :
    ResizeContract hash mem malloced ht delta ↔
      (malloced = true → ¬ Crowds hash mem ht.buckets ht.sz 0 (freshTable ht delta)) := by
  cases malloced with
  | false => exact iff_of_true ⟨fun _ _ => .inl rfl, fun h => by cases h⟩ fun h => by cases h
  | true =>
    cases resize_outcome hwf delta with
    | done nt h hsh hno =>
      have hres := hopscotchResize_of_rehash h
      refine iff_of_true ⟨fun ht' h1 => ?_, fun _ _ => ⟨nt, hres, hsh.1⟩⟩ fun _ => hno
      rw [hres] at h1
      cases h1
    | refused codes h hcodes hmem hno hstuck =>
      exact iff_of_true ⟨fun _ _ => .inr ⟨codes, hcodes, hmem⟩, fun _ hp => absurd hp hstuck⟩
        fun _ => hno
    | crowded codes h hcodes hmem hyes =>
      refine iff_of_false (fun hc => ?_) fun h => h rfl hyes
      obtain hmalloced | ⟨codes', hcodes', hbad⟩ :=
        hc.fails_only ht (hopscotchResize_of_rehash h)
      · cases hmalloced
      · rw [hcodes] at hcodes'
        cases hcodes'
        rcases hbad with hbad | hbad <;> exact absurd (hmem _ hbad) (by decide)

end Resize

/-- **In every reached table a resize fails only for want of memory or of a place, and succeeds
when every key can be placed, exactly when it comes to no key that would lift the bitmap of its home
above 32.** -/
theorem resizeContract_iff (hash : Hash) (keylen : Nat) {s : State P D}
    {m : List UInt8 → Option D} (h : Run hash keylen s m) (malloced : Bool) (delta : Int) :
    ResizeContract hash s.mem malloced s.ht delta ↔
      (malloced = true →
        ¬ Crowds hash s.mem s.ht.buckets (2 ^ s.ht.exponent) 0 (freshTable s.ht delta)) :=
  resizeContract_iff_not_crowds (run_inv h).1 malloced delta

/-! ## A cluster -/

section Cluster

variable {hash : Hash} {ks : List CStr}

/-- The `i`-th key of a cluster follows those before it. -/
theorem IsCluster.stores (hc : IsCluster hash ks) {i : Nat} (hi : i < ks.length)
    {m : List UInt8 → Option CStr} (hwf : WF hash strMem (clusterTable (ks.take i)))
    (hm : Rep strMem (clusterTable (ks.take i)) m) :
    ∃ k, (clusterTable ks).buckets i = ⟨some k, some k, ((clusterTable ks).buckets i).hopinfo⟩ ∧
      homeIdx hash strMem (clusterTable (ks.take i)) k = 0 ∧
      Stores hash strMem (clusterTable (ks.take i)) k (some k) (clusterTable (ks.take (i + 1))) ∧
      WF hash strMem (clusterTable (ks.take (i + 1))) ∧
      ∃ m', Rep strMem (clusterTable (ks.take (i + 1))) m' := by
  have hk : ks[i]? = some ks[i] := List.getElem?_eq_getElem hi
  have htake : ks.take (i + 1) = ks.take i ++ [ks[i]] := by simp
  have hilen : (ks.take i).length = i := List.length_take_of_le (Nat.le_of_lt hi)
  have h0 : homeOf hash ks[i] = 0 := hc.home _ (List.getElem_mem hi)
  have hnd : ((ks.take i ++ [ks[i]]).map (keyBytes strMem keyLen)).Nodup := by
    rw [← htake]
    exact hc.nodup.sublist ((List.take_sublist _ _).map _)
  have hlen := hc.length_le
  obtain ⟨hins, hwf', hm'⟩ := insert_cluster hwf hm (by omega) h0 hnd
  rw [← htake] at hins hwf' hm'
  refine ⟨ks[i], ?_, (homeIdx_clusterTable _ _ _).trans h0, ⟨_, hins, ?_⟩, hwf', _, hm'⟩
  · simp only [clusterTable, hk]
  · unfold clusterCode
    split
    · exact .inr rfl
    · exact .inl rfl

/-- The next key of a cluster crowds its home iff there are five before it. -/
theorem crowdsHome_clusterTable_iff {k : CStr} (hlen : ks.length < 32)
    (h0 : homeIdx hash strMem (clusterTable ks) k = 0) :
    CrowdsHome hash strMem (clusterTable ks) k ↔ 5 ≤ ks.length := by
  have hfirst := firstEmpty_clusterTable ks (Nat.le_of_lt hlen)
  have hnear : ks.length < 0 + hopNumber := by
    rw [Nat.zero_add]
    exact hlen
  have hhop : ((clusterTable ks).buckets 0).hopinfo ||| 1#32 <<< (ks.length - 0) =
      BitVec.ofNat 32 (2 ^ (ks.length + 1) - 1) := by
    simpa [clusterTable] using lowBits_succ _ hlen
  have hhigh : ∀ n < 32, 32 < (BitVec.ofNat 32 (2 ^ (n + 1) - 1)).toNat ↔ 5 ≤ n := by decide
  rw [CrowdsHome, h0, ← hhigh _ hlen, ← hhop]
  constructor
  · rintro ⟨i, e, hi, hpath, -, h⟩
    obtain rfl := hfirst.unique hi
    obtain rfl := (HolePath.near hnear).unique hpath
    exact h
  · exact fun h => ⟨_, _, hfirst, .near hnear, hnear, h⟩

/-- **The keys of a cluster crowd their home from the sixth on.** -/
theorem IsCluster.crowds_iff (hc : IsCluster hash ks) (n i : Nat) (m : List UInt8 → Option CStr)
    (hwf : WF hash strMem (clusterTable (ks.take i)))
    (hm : Rep strMem (clusterTable (ks.take i)) m) :
    Crowds hash strMem (clusterTable ks).buckets n i (clusterTable (ks.take i)) ↔
      ∃ j, i ≤ j ∧ j < i + n ∧ j < ks.length ∧ 5 ≤ j := by
  induction n generalizing i m with
  | zero =>
    refine iff_of_false id ?_
    rintro ⟨j, h1, h2, -⟩
    omega
  | succ n ih =>
    by_cases hi : i < ks.length
    · obtain ⟨k, hb, h0, hst, hwf', m', hm'⟩ := hc.stores hi hwf hm
      have hlen : (ks.take i).length = i := List.length_take_of_le (Nat.le_of_lt hi)
      have hi32 : i < 32 := Nat.lt_of_lt_of_le hi hc.length_le
      have hhome := crowdsHome_clusterTable_iff (by omega) h0
      have hrest : (∃ ht', Stores hash strMem (clusterTable (ks.take i)) k (some k) ht' ∧
          Crowds hash strMem (clusterTable ks).buckets n (i + 1) ht') ↔
            ∃ j, i + 1 ≤ j ∧ j < i + 1 + n ∧ j < ks.length ∧ 5 ≤ j := by
        rw [← ih (i + 1) m' hwf' hm']
        obtain ⟨ret, hins, hret⟩ := hst
        constructor
        · rintro ⟨ht', hst', h⟩
          obtain ⟨rfl, -⟩ := hst'.result hins
          exact h
        · exact fun h => ⟨_, ⟨ret, hins, hret⟩, h⟩
      rw [Crowds, hb]
      simp only [hhome, hlen, hrest]
      constructor
      · rintro (h | ⟨j, h1, h2, h3⟩)
        · exact ⟨i, Nat.le_refl i, by omega, hi, h⟩
        · exact ⟨j, by omega, by omega, h3⟩
      · rintro ⟨j, h1, h2, h3, h4⟩
        rcases Nat.eq_or_lt_of_le h1 with rfl | hlt
        · exact .inl h4
        · exact .inr ⟨j, hlt, by omega, h3, h4⟩
    · have hnone : ((clusterTable ks).buckets i).key = none := by
        simp only [clusterTable]
        exact List.getElem?_eq_none (Nat.le_of_not_lt hi)
      have htake : ks.take (i + 1) = ks.take i := by
        rw [List.take_of_length_le (by omega), List.take_of_length_le (by omega)]
      have hrest := ih (i + 1) m (by rwa [htake]) (by rwa [htake])
      rw [htake] at hrest
      rw [Crowds, hnone]
      refine hrest.trans (iff_of_false ?_ ?_) <;>
        · rintro ⟨j, h1, -, h3, -⟩
          omega

/-- All of them can be placed. -/
theorem IsCluster.placeable (hc : IsCluster hash ks) (n i : Nat) (m : List UInt8 → Option CStr)
    (hwf : WF hash strMem (clusterTable (ks.take i)))
    (hm : Rep strMem (clusterTable (ks.take i)) m) :
    Placeable hash strMem (clusterTable ks).buckets n i (clusterTable (ks.take i)) := by
  induction n generalizing i m with
  | zero => trivial
  | succ n ih =>
    by_cases hi : i < ks.length
    · obtain ⟨k, hb, -, hst, hwf', m', hm'⟩ := hc.stores hi hwf hm
      rw [Placeable, hb]
      exact ⟨_, hst, ih (i + 1) m' hwf' hm'⟩
    · have hnone : ((clusterTable ks).buckets i).key = none := by
        simp only [clusterTable]
        exact List.getElem?_eq_none (Nat.le_of_not_lt hi)
      have htake : ks.take (i + 1) = ks.take i := by
        rw [List.take_of_length_le (by omega), List.take_of_length_le (by omega)]
      have hrest := ih (i + 1) m (by rwa [htake]) (by rwa [htake])
      rw [htake] at hrest
      rw [Placeable, hnone]
      exact hrest

end Cluster

/-- A cluster is moved to an empty table of the same size. -/
theorem freshTable_clusterTable (ks : List CStr) :
    freshTable (clusterTable ks) 0 = clusterTable (ks.take 0) := by
  rw [List.take_zero, clusterTable_nil]
  rfl

theorem wf_take_zero (hash : Hash) (ks : List CStr) :
    WF hash strMem (clusterTable (ks.take 0)) ∧
      Rep strMem (clusterTable (ks.take 0)) fun _ => none := by
  rw [List.take_zero, clusterTable_nil]
  exact ⟨WF.empty _ _, Rep.empty _ _⟩

/-- A resize to the same size comes to a sixth key of the home iff there are six. -/
theorem IsCluster.resize_crowds_iff {hash : Hash} {ks : List CStr} (hc : IsCluster hash ks) :
    Crowds hash strMem (clusterTable ks).buckets (2 ^ tableSize) 0
      (freshTable (clusterTable ks) 0) ↔ 6 ≤ ks.length := by
  obtain ⟨hwf, hm⟩ := wf_take_zero hash ks
  have hlen := hc.length_le
  rw [freshTable_clusterTable, hc.crowds_iff (2 ^ tableSize) 0 _ hwf hm]
  constructor
  · rintro ⟨j, -, -, h3, h4⟩
    omega
  · intro h
    have hsz : 5 < 0 + 2 ^ tableSize := by decide
    exact ⟨5, Nat.zero_le 5, hsz, by omega, Nat.le_refl 5⟩

theorem IsCluster.resize_placeable {hash : Hash} {ks : List CStr} (hc : IsCluster hash ks) :
    Placeable hash strMem (clusterTable ks).buckets (2 ^ tableSize) 0
      (freshTable (clusterTable ks) 0) := by
  obtain ⟨hwf, hm⟩ := wf_take_zero hash ks
  rw [freshTable_clusterTable]
  exact hc.placeable _ 0 _ hwf hm

/-- Five keys of one home are moved. -/
theorem resizeContract_five :
    ∃ m, Run jenkinsHash keyLen ⟨strMem, clusterTable (clashKeys.take 5)⟩ m ∧
      ResizeContract jenkinsHash strMem true (clusterTable (clashKeys.take 5)) 0 ∧
      ∃ ht', hopscotchResize jenkinsHash strMem true (clusterTable (clashKeys.take 5)) 0 =
        .ok (0, ht') := by
  have hc : IsCluster jenkinsHash (clashKeys.take 5) := isCluster_clashKeys (by decide)
  obtain ⟨m, hrun⟩ := hc.run
  have hcontract : ResizeContract jenkinsHash strMem true (clusterTable (clashKeys.take 5)) 0 :=
    (resizeContract_iff jenkinsHash keyLen hrun true 0).mpr fun _ h =>
      absurd (hc.resize_crowds_iff.mp h) (by decide)
  obtain ⟨ht', hres, -⟩ := hcontract.succeeds rfl hc.resize_placeable
  exact ⟨m, hrun, hcontract, ht', hres⟩

/-- **Six keys of one home cannot be moved to a table of the same size**, though every one of them
can be placed there. -/
theorem resize_fails_with_room :
    ∃ m, Run jenkinsHash keyLen ⟨strMem, clusterTable (clashKeys.take 6)⟩ m ∧
      Allowed ⟨strMem, clusterTable (clashKeys.take 6)⟩ (.resize true 0 : Op CStr CStr) ∧
      hopscotchResize jenkinsHash strMem true (clusterTable (clashKeys.take 6)) 0 =
        .ok (-1, clusterTable (clashKeys.take 6)) ∧
      Placeable jenkinsHash strMem (clusterTable (clashKeys.take 6)).buckets (2 ^ tableSize) 0
        (freshTable (clusterTable (clashKeys.take 6)) 0) ∧
      ¬ ResizeContract jenkinsHash strMem true (clusterTable (clashKeys.take 6)) 0 := by
  have hc : IsCluster jenkinsHash (clashKeys.take 6) := isCluster_clashKeys (by decide)
  obtain ⟨m, hrun⟩ := hc.run
  generalize hks : clashKeys.take 6 = ks at hc hrun ⊢
  have h6 : 6 ≤ ks.length := by
    rw [← hks]
    decide
  have hcrowds := hc.resize_crowds_iff.mpr h6
  have hnot : ¬ ResizeContract jenkinsHash strMem true (clusterTable ks) 0 := fun h =>
    (resizeContract_iff_not_crowds (run_inv hrun).1 true 0).mp h rfl hcrowds
  have hallowed : Allowed ⟨strMem, clusterTable ks⟩ (.resize true 0 : Op CStr CStr) := by
    show 0 ≤ (tableSize : Int) + 0 ∧ bucketSize * 2 ^ ((tableSize : Int) + 0).toNat < 2 ^ 64
    decide
  exact ⟨m, hrun, hallowed, hopscotchResize_of_crowds (run_inv hrun).1 hcrowds,
    hc.resize_placeable, hnot⟩

end Rpma.Hopscotch
