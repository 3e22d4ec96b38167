import Rpma.Hopscotch.Cluster

/-!
# When an insertion refuses a key

`hopscotch_insert` refuses a new key with `-1` when the probe finds no empty bucket, and with `-3`
when the hole it found cannot be brought within reach of the home. By then it may have moved the
hole many times, and of each bitmap in front of the hole it looked at the lowest bit only.

The lowest bit is enough: the hole is nobody's slot, so a bitmap of a bucket `l` places in front
of the hole whose lowest bit is not below `l` has no bit below `l` at all (`not_relocatable_iff`).
While it moves, the hole stays the first empty bucket from the home on (`FirstEmpty.relocated`),
which names it without the loop.

* **`insert_refusal_complete`**: `-1` exactly when no bucket from the home on is empty, and then
  nothing changed; after `-3` no key can legally move into the hole.
-/

namespace Rpma.Hopscotch

open Rpma.Lib
open HashTable (get_ok modify_ok SameShape)

variable {P D : Type} {hash : Hash} {mem : Mem P} {ht : HashTable P D}

/-! ## The hole -/

/-- No key of home `h` is stored at or before `e`. -/
def NoneUpTo (hash : Hash) (mem : Mem P) (ht : HashTable P D) (h e : Nat) : Prop :=
  ∀ t < ht.sz, ∀ p, (ht.buckets t).key = some p → homeIdx hash mem ht p = h → e < t

/-- **The lowest bit decides**: the bucket `l` places in front of a hole cannot give up its first
key to the hole iff all its keys lie behind the hole. -/
theorem not_relocatable_iff (hwf : WF hash mem ht) {e l : Nat} (he : e < ht.sz) (hle : l ≤ e)
    (hhole : (ht.buckets e).key = none) :
    ¬ Relocatable ht e l ↔ NoneUpTo hash mem ht (e - l) e := by
  have hnum : hopNumber = 32 := rfl
  have hh : e - l < ht.sz := by omega
  constructor
  · intro hno t ht' p hp hhome
    obtain ⟨hge, hlt⟩ := hwf.near t ht' p hp
    rw [hhome] at hge hlt
    by_contra hte
    -- the key sits at an offset below `l`, so the lowest bit of its home is below `l`, too
    have hne : t ≠ e := by
      rintro rfl
      rw [hhole] at hp
      cases hp
    have hback : e - l + (t - (e - l)) = t := by omega
    have hbit : (ht.buckets (e - l)).hopinfo.getLsbD (t - (e - l)) = true := by
      refine (hwf.bit_iff (e - l) hh _ (by omega)).mpr ⟨by omega, p, ?_, hhome⟩
      rw [hback]
      exact hp
    have hz : (ht.buckets (e - l)).hopinfo ≠ 0#32 :=
      (Bitmap.ne_zero_iff_getLsbD _).mpr ⟨_, by omega, hbit⟩
    obtain ⟨-, -, hlow⟩ := Bitmap.ctz_spec _ hz
    refine hno ⟨hz, ?_⟩
    by_contra hctz
    have hoff : t - (e - l) < (ht.buckets (e - l)).hopinfo.ctz.toNat := by
      unfold ctz at hctz
      omega
    rw [hlow _ hoff] at hbit
    cases hbit
  · rintro hall ⟨hz, hlt⟩
    obtain ⟨h32, hbit, -⟩ := Bitmap.ctz_spec _ hz
    obtain ⟨hin, p, hp, hhome⟩ := (hwf.bit_iff (e - l) hh _ h32).mp hbit
    have hbehind := hall _ hin p hp hhome
    unfold ctz at hlt
    omega

/-- A displacement moves the hole forward, and it stays the first from the home on. -/
theorem FirstEmpty.relocated {idx h j off : Nat} (hfirst : FirstEmpty ht idx (h + j))
    (hle : idx ≤ h + off) (ho : off < j) :
    FirstEmpty (Hopscotch.relocated ht h j off) idx (h + off) := by
  obtain ⟨-, hlt, -, hall⟩ := hfirst
  refine ⟨hle, ?_, ?_, fun t h1 h2 => ?_⟩
  · rw [relocated_sz]
    omega
  · simp [Hopscotch.relocated, show off ≠ j by omega]
  · have hj : t ≠ h + j := by omega
    have hoff : t ≠ h + off := by omega
    simpa [Hopscotch.relocated, hj, hoff] using hall t h1 (by omega)

/-- **Where the displacement loop gives up**: the hole is out of reach of the home, still the
first empty bucket from there on, and no bucket in front of it can give up a key. -/
theorem displace_stuck {idx : Nat} {ht' : HashTable P D} :
    ∀ (fuel : Nat) (ht : HashTable P D) (i : Nat), WF hash mem ht → FirstEmpty ht idx i →
      displace idx fuel ht i = .ok (none, ht') →
      ∃ e, WF hash mem ht' ∧ FirstEmpty ht' idx e ∧ idx + hopNumber ≤ e ∧
        ∀ l, 1 ≤ l → l < hopNumber → ¬ Relocatable ht' e l
  | 0, _, _, _, _, hd => by cases hd
  | fuel + 1, ht, i, hwf, hfirst, hd => by
    obtain ⟨hle, hi, hhole, -⟩ := id hfirst
    by_cases hnear : i < idx + hopNumber
    · have hnear' : i - idx < hopNumber := by omega
      simp [displace, subSize_ok hle, hnear'] at hd
    · rcases displace_round hi (Nat.le_of_not_lt hnear) fuel with
        ⟨h, j, off, rfl, h1, hj, ho, hbit, -, hrec⟩ | ⟨hstop, hall⟩
      · rw [hrec] at hd
        exact displace_stuck fuel _ _ (hwf.relocated hi ho hj hhole hbit)
          (hfirst.relocated (by omega) ho) hd
      · rw [hstop] at hd
        cases hd
        exact ⟨i, hwf, hfirst, Nat.le_of_not_lt hnear, hall⟩

/-! ## The codes -/

/-- A new key with no empty bucket from its home on is refused, and nothing changes. -/
theorem hopscotchInsert_full {key : P} (data : Option D)
    (hlook : hopscotchLookup hash mem ht key = .ok none)
    (hall : ∀ t, homeIdx hash mem ht key ≤ t → t < ht.sz → (ht.buckets t).key ≠ none) :
    hopscotchInsert hash mem ht key data = .ok (-1, ht) := by
  rcases exists_firstEmpty_or_full ht (homeIdx_lt hash mem ht key) with ⟨i, hi⟩ | ⟨hp, -⟩
  · exact absurd hi.2.2.1 (hall i hi.1 hi.2.1)
  · simp [hopscotchInsert, hlook, hp]

theorem hopscotchInsert_stuck {key : P} (data : Option D) {ht' : HashTable P D} {i : Nat}
    (hlook : hopscotchLookup hash mem ht key = .ok none)
    (hi : FirstEmpty ht (homeIdx hash mem ht key) i)
    (hd : displace (homeIdx hash mem ht key) (i + 1) ht i = .ok (none, ht')) :
    hopscotchInsert hash mem ht key data = .ok (-3, ht') := by
  simp [hopscotchInsert, hlook, hi.probe_eq, hd]

/-- A new key with an empty bucket `i` is stored, with `-4` iff that leaves its home's bitmap above
32, or its displacement got stuck. -/
theorem hopscotchInsert_empty (hwf : WF hash mem ht) {m : List UInt8 → Option D}
    (hm : Rep mem ht m) {key : P} (data : Option D)
    (hlook : hopscotchLookup hash mem ht key = .ok none) {i : Nat}
    (hi : FirstEmpty ht (homeIdx hash mem ht key) i) :
    ∃ ret ht', hopscotchInsert hash mem ht key data = .ok (ret, ht') ∧
      ((ret = if 32 < (ht'.buckets (homeIdx hash mem ht key)).hopinfo.toNat then -4 else 0) ∨
        ret = -3 ∧ displace (homeIdx hash mem ht key) (i + 1) ht i = .ok (none, ht')) := by
  obtain ⟨r, ht1, e, hd, -, -, hsh, hle1, hlt1, -, hr⟩ :=
    displace_spec (i + 1) ht i hwf hm hi.1 hi.2.1 hi.2.2.1 (by omega)
  rcases hr with ⟨rfl, -⟩ | ⟨rfl, -, -⟩
  · exact ⟨_, _, hopscotchInsert_eq hlook hi.probe_eq hd hsh hle1 hlt1, .inl rfl⟩
  · exact ⟨-3, ht1, hopscotchInsert_stuck data hlook hi hd, .inr ⟨rfl, hd⟩⟩

/-- **A refusal is complete.** For an absent key `-1` means exactly that no bucket from the home
on is empty, and it changes nothing. After `-3` the hole, the first empty bucket `e` from the home
on, is out of reach, and no key can legally move into it: of each of the 31 homes in front of `e`
every key lies behind `e`. -/
theorem insert_refusal_complete (hash : Hash) (keylen : Nat) {s : State P D}
    {m : List UInt8 → Option D} (h : Run hash keylen s m) (key : P) (data : Option D)
    (habs : m (keyBytes s.mem keylen key) = none) :
    let idx := homeIdx hash s.mem s.ht key
    ∃ ret ht', hopscotchInsert hash s.mem s.ht key data = .ok (ret, ht') ∧
      (ret = -1 ↔ ∀ t, idx ≤ t → t < 2 ^ s.ht.exponent → (s.ht.buckets t).key ≠ none) ∧
      (ret = -1 → ht' = s.ht) ∧
      (ret = -3 → ∃ e, FirstEmpty ht' idx e ∧ idx + 32 ≤ e ∧
        ∀ home, e - 31 ≤ home → home ≤ e - 1 → NoneUpTo hash s.mem ht' home e) := by
  intro idx
  obtain ⟨hwf, hm, rfl⟩ := run_inv h
  have hlook : hopscotchLookup hash s.mem s.ht key = .ok none := by
    rw [hopscotchLookup_spec hwf hm key, habs]
  rcases exists_firstEmpty_or_full s.ht (homeIdx_lt hash s.mem s.ht key) with ⟨i, hi⟩ | ⟨-, hall⟩
  · have hnot : ¬ ∀ t, idx ≤ t → t < 2 ^ s.ht.exponent → (s.ht.buckets t).key ≠ none :=
      fun hfull => hfull i hi.1 hi.2.1 hi.2.2.1
    obtain ⟨ret, ht', hins, hret⟩ := hopscotchInsert_empty hwf hm data hlook hi
    have hne : ret ≠ -1 := by
      rcases hret with rfl | ⟨rfl, -⟩
      · split <;> decide
      · decide
    refine ⟨ret, ht', hins, iff_of_false hne hnot, fun h => absurd h hne, fun h3 => ?_⟩
    have hd : displace idx (i + 1) s.ht i = .ok (none, ht') := by
      rcases hret with hret | ⟨-, hd⟩
      · rw [hret] at h3
        split at h3 <;> exact absurd h3 (by decide)
      · exact hd
    obtain ⟨e, hwf', hfirst, hfar, hno⟩ := displace_stuck (i + 1) s.ht i hwf hi hd
    have h32 : idx + 32 ≤ e := hfar
    refine ⟨e, hfirst, h32, fun home h1 h2 => ?_⟩
    have hnear : e - home < hopNumber := Nat.lt_succ_of_le (by omega)
    have hback : e - (e - home) = home := by omega
    have hnone := (not_relocatable_iff hwf' hfirst.2.1 (Nat.sub_le e home) hfirst.2.2.1).mp
      (hno (e - home) (by omega) hnear)
    rwa [hback] at hnone
  · exact ⟨-1, s.ht, hopscotchInsert_full data hlook hall, iff_of_true rfl hall, fun _ => rfl,
      fun h3 => absurd h3 (by decide)⟩

/-- Thirty-two keys of home 0, and one more: the hole behind them cannot move, for none of the
homes 1 to 31 has a key. -/
theorem insert_refusal_complete_cluster :
    ∃ m, Run jenkinsHash keyLen ⟨strMem, clusterTable (clashKeys.take 32)⟩ m ∧
      ∃ ht', hopscotchInsert jenkinsHash strMem (clusterTable (clashKeys.take 32)) lateKey none =
          .ok (-3, ht') ∧
        ∃ e, FirstEmpty ht' 0 e ∧ 0 + 32 ≤ e ∧
          ∀ home, e - 31 ≤ home → home ≤ e - 1 → NoneUpTo jenkinsHash strMem ht' home e := by
  obtain ⟨m, hrun⟩ := (isCluster_clashKeys (Nat.le_refl 32)).run
  obtain ⟨hwf, hm, -⟩ := run_inv hrun
  have hidx : homeIdx jenkinsHash strMem (clusterTable (clashKeys.take 32)) lateKey = 0 :=
    (homeIdx_clusterTable _ _ _).trans lateKey_home
  have habs : m (keyBytes strMem keyLen lateKey) = none := by
    refine hm.eq_none_of_not_holds ?_
    rintro t ⟨-, p, hp, hb⟩
    have hne : ∀ k ∈ clashKeys.take 32,
        keyBytes strMem keyLen k ≠ keyBytes strMem keyLen lateKey := by decide +kernel
    exact hne p (List.mem_of_getElem? hp) hb
  have hlook := hopscotchLookup_spec hwf hm lateKey
  dsimp only [clusterTable_keylen] at hlook
  rw [habs] at hlook
  have hfirst : FirstEmpty (clusterTable (clashKeys.take 32)) 0 32 :=
    firstEmpty_clusterTable (clashKeys.take 32) (by decide)
  have hd : displace 0 (32 + 1) (clusterTable (clashKeys.take 32)) 32 =
      .ok (none, clusterTable (clashKeys.take 32)) := by
    rcases displace_round hfirst.2.1 (Nat.le_refl (0 + 32)) 32 with
      ⟨h, j, off, hi, h1, hj, -, -, ⟨-, hr, -⟩, -⟩ | ⟨hstop, -⟩
    · have hlt : j < 32 := hj
      have h0 : 32 - j ≠ 0 := by omega
      exact absurd (by simp [clusterTable, h0]) hr.1
    · exact hstop
  obtain ⟨ret, ht', hins, -, -, hstuck⟩ :=
    insert_refusal_complete jenkinsHash keyLen hrun lateKey none habs
  have hcode : hopscotchInsert jenkinsHash strMem (clusterTable (clashKeys.take 32)) lateKey none =
      .ok (-3, clusterTable (clashKeys.take 32)) := by
    refine hopscotchInsert_stuck none hlook (i := 32) ?_ ?_
    · rw [hidx]
      exact hfirst
    · rw [hidx]
      exact hd
  rw [hcode] at hins
  cases hins
  rw [hidx] at hstuck
  exact ⟨m, hrun, _, hcode, hstuck rfl⟩

end Rpma.Hopscotch
