import Rpma.Hopscotch.Codec

/-!
# Where an insertion leaves a hole

The writer flags a bucket by its key slot, and the readers take the flag as "nothing hashes here".
The two agree as long as a bucket without a key has an empty bitmap (`NoneHidden`). An insertion
that stores its key fills every hole it made. One that fails with `-3` leaves the last hole of its
displacement chain behind, and that hole may be the home of keys stored elsewhere.

The chain is a matter of the table before the call: moving a key changes no later choice
(`relocatable_relocated`). `HolePath` follows it there.

* `displace_hole`: the displacement loop fills its first hole and empties the end of the chain.
* `noneHidden_insert_iff`: an insertion keeps `NoneHidden` iff its chain ends clean.
* **`homes_flagged_iff`**: along a run of insertions every image flags the home of every stored
  key iff every chain of the run ends clean (`ChainEndsClean`).
* `home_hidden_after_failed_insert`: 34 keys after which a stored key has a home flagged empty.
-/

namespace Rpma.Hopscotch

open Rpma.Lib
open Rpma.Lib.CText
open HashTable (SameShape)

variable {P D : Type}

/-! ## The chain of holes -/

/-- The hole of the displacement loop goes from `i` to `e`: it stops within reach of `idx`, stops
where no key can be moved into it, or moves to the slot of the key that fills it. -/
inductive HolePath (ht : HashTable P D) (idx : Nat) : Nat → Nat → Prop
  | near {i : Nat} (h : i < idx + hopNumber) : HolePath ht idx i i
  | stuck {i : Nat} (h : idx + hopNumber ≤ i)
      (hno : ∀ l, 1 ≤ l → l < hopNumber → ¬ Relocatable ht i l) : HolePath ht idx i i
  | move {i j e : Nat} (h : idx + hopNumber ≤ i) (h1 : 1 ≤ j) (hj : j < hopNumber)
      (hr : Relocatable ht i j) (hmin : ∀ l, 1 ≤ l → l < j → ¬ Relocatable ht i l)
      (hp : HolePath ht idx (i - j + ctz (ht.buckets (i - j)).hopinfo) e) : HolePath ht idx i e

section Chain

variable {ht : HashTable P D}

/-- The chain has one end. -/
theorem HolePath.unique {idx i e e' : Nat} (h : HolePath ht idx i e) (h' : HolePath ht idx i e') :
    e = e' := by
  induction h generalizing e' with
  | near hn =>
    cases h' with
    | near _ => rfl
    | stuck _ _ => rfl
    | move hf _ _ _ _ _ => omega
  | stuck hf hno =>
    cases h' with
    | near _ => rfl
    | stuck _ _ => rfl
    | move _ h1 hj hr _ _ => exact absurd hr (hno _ h1 hj)
  | @move i j e hf h1 hj hr hmin _ ih =>
    cases h' with
    | near hn => omega
    | stuck _ hno => exact absurd hr (hno _ h1 hj)
    | @move _ j' _ _ h1' hj' hr' hmin' hp' =>
      have hjj : j = j' := by
        rcases Nat.lt_trichotomy j j' with hlt | heq | hlt
        · exact absurd hr (hmin' j h1 hlt)
        · exact heq
        · exact absurd hr' (hmin j' h1' hlt)
      subst hjj
      exact ih hp'

/-- The hole falls, but not below `idx`. -/
theorem HolePath.bounds {idx i e : Nat} (h : HolePath ht idx i e) : idx ≤ i → idx ≤ e ∧ e ≤ i := by
  induction h with
  | near _ => exact fun hle => ⟨hle, Nat.le_refl _⟩
  | stuck _ _ => exact fun hle => ⟨hle, Nat.le_refl _⟩
  | move hf _ hj hr _ _ ih =>
    intro _
    have hlt := hr.2
    have := ih (by omega)
    omega

/-- Moving the lowest bit of a bitmap up leaves a nonzero bitmap with a higher lowest bit. -/
theorem ctz_moved {x : BitVec 32} {j : Nat} (hx : x ≠ 0#32) (ho : ctz x < j) (hj : j < 32) :
    (x &&& ~~~(1#32 <<< ctz x)) ||| (1#32 <<< j) ≠ 0#32 ∧
      ctz x < ctz ((x &&& ~~~(1#32 <<< ctz x)) ||| (1#32 <<< j)) := by
  obtain ⟨-, -, hlow⟩ := Bitmap.ctz_spec x hx
  generalize hy : (x &&& ~~~(1#32 <<< ctz x)) ||| (1#32 <<< j) = y
  have hbit : ∀ i < 32, y.getLsbD i = ((x.getLsbD i && !decide (i = ctz x)) || decide (i = j)) := by
    intro i hi
    rw [← hy, Bitmap.getLsbD_setBit _ hi, Bitmap.getLsbD_clearBit _ hi]
  have hne : y ≠ 0#32 := (Bitmap.ne_zero_iff_getLsbD y).mpr ⟨j, hj, by simp [hbit j hj]⟩
  refine ⟨hne, ?_⟩
  obtain ⟨hlt, hset, -⟩ := Bitmap.ctz_spec y hne
  by_contra hle
  have hle' : y.ctz.toNat ≤ ctz x := Nat.le_of_not_lt hle
  rw [hbit _ hlt] at hset
  rcases Nat.eq_or_lt_of_le hle' with heq | hlt'
  · simp [heq, Nat.ne_of_lt ho] at hset
  · have := hlow _ hlt'
    simp [this, show y.ctz.toNat ≠ j by omega] at hset

variable {h j : Nat}

theorem relocated_hopinfo_of_ne {off b : Nat} (hb : b ≠ h) :
    ((relocated ht h j off).buckets b).hopinfo = (ht.buckets b).hopinfo := by
  simp [relocated, hb]

theorem relocated_hopinfo_self {off : Nat} : ((relocated ht h j off).buckets h).hopinfo =
    ((ht.buckets h).hopinfo &&& ~~~(1#32 <<< off)) ||| (1#32 <<< j) := by
  simp [relocated]

/-- A bitmap is empty after a move iff it was. -/
theorem relocated_hopinfo_eq_zero (hne : (ht.buckets h).hopinfo ≠ 0#32)
    (ho : ctz (ht.buckets h).hopinfo < j) (hj : j < hopNumber) (b : Nat) :
    ((relocated ht h j (ctz (ht.buckets h).hopinfo)).buckets b).hopinfo = 0#32 ↔
      (ht.buckets b).hopinfo = 0#32 := by
  by_cases hb : b = h
  · subst hb
    rw [relocated_hopinfo_self]
    exact iff_of_false (ctz_moved hne ho hj).1 hne
  · rw [relocated_hopinfo_of_ne hb]

/-- **A move changes no later choice**: below the new hole the same buckets can give up a key. -/
theorem relocatable_relocated (hne : (ht.buckets h).hopinfo ≠ 0#32)
    (ho : ctz (ht.buckets h).hopinfo < j) (hj : j < hopNumber) {x l : Nat}
    (hx : x ≤ h + ctz (ht.buckets h).hopinfo) (hl : l ≤ x) :
    Relocatable (relocated ht h j (ctz (ht.buckets h).hopinfo)) x l ↔
      Relocatable ht x l ∧ x - l ≠ h := by
  unfold Relocatable
  by_cases hb : x - l = h
  · have hle : l ≤ ctz (ht.buckets h).hopinfo := by omega
    have hlt := (ctz_moved hne ho hj).2
    rw [hb, relocated_hopinfo_self]
    exact iff_of_false (fun hr => by omega) (fun hr => hr.2 rfl)
  · rw [relocated_hopinfo_of_ne hb]
    simp [hb]

/-- The bucket a key has just left cannot be chosen below the hole it left. -/
theorem not_relocatable_self {x l : Nat} (hx : x ≤ h + ctz (ht.buckets h).hopinfo) (hl : l ≤ x)
    (hr : Relocatable ht x l) : x - l ≠ h := by
  rintro rfl
  have := hr.2
  omega

/-- So the chain after a move is the chain before it. -/
theorem HolePath.of_relocated (hne : (ht.buckets h).hopinfo ≠ 0#32)
    (ho : ctz (ht.buckets h).hopinfo < j) (hj : j < hopNumber) {idx x e : Nat}
    (hp : HolePath (relocated ht h j (ctz (ht.buckets h).hopinfo)) idx x e) :
    x ≤ h + ctz (ht.buckets h).hopinfo → HolePath ht idx x e := by
  have hiff : ∀ {y l}, y ≤ h + ctz (ht.buckets h).hopinfo → idx + hopNumber ≤ y → l < hopNumber →
      (Relocatable (relocated ht h j (ctz (ht.buckets h).hopinfo)) y l ↔ Relocatable ht y l) := by
    intro y l hy hf hl
    rw [relocatable_relocated hne ho hj hy (by omega)]
    exact and_iff_left_of_imp (not_relocatable_self hy (by omega))
  induction hp with
  | near hn => exact fun _ => .near hn
  | stuck hf hno => exact fun hx => .stuck hf fun l h1 hl hr => hno l h1 hl ((hiff hx hf hl).mpr hr)
  | @move y k e hf h1 hk hr hmin _ ih =>
    intro hx
    have hr' := (hiff hx hf hk).mp hr
    have hne' := not_relocatable_self hx (by omega) hr'
    rw [relocated_hopinfo_of_ne hne'] at ih
    have hlt := hr'.2
    exact .move hf h1 hk hr' (fun l h1 hl hrl => hmin l h1 hl ((hiff hx hf (by omega)).mpr hrl))
      (ih (by omega))

end Chain

/-- **The displacement loop fills its first hole and empties the end of its chain**; no bitmap
becomes or stops being empty, and that of the home stays. -/
theorem displace_hole {hash : Hash} {mem : Mem P} {idx : Nat} :
    ∀ (fuel : Nat) (ht : HashTable P D) (i : Nat), WF hash mem ht → idx ≤ i → i < ht.sz →
      (ht.buckets i).key = none → i < fuel →
      ∃ r ht' e, displace idx fuel ht i = .ok (r, ht') ∧ HolePath ht idx i e ∧
        ((r = some e ∧ e < idx + hopNumber) ∨ (r = none ∧ idx + hopNumber ≤ e)) ∧
        (∀ b, (ht'.buckets b).key = none ↔ b = e ∨ (b ≠ i ∧ (ht.buckets b).key = none)) ∧
        (∀ b, (ht'.buckets b).hopinfo = 0#32 ↔ (ht.buckets b).hopinfo = 0#32) ∧
        (ht'.buckets idx).hopinfo = (ht.buckets idx).hopinfo
  | 0, _, _, _, _, _, _, hf => absurd hf (by omega)
  | fuel + 1, ht, i, hwf, hle, hi, hhole, hf => by
    -- where the loop stops, the hole is where it started
    have hsame : ∀ b, (ht.buckets b).key = none ↔ b = i ∨ (b ≠ i ∧ (ht.buckets b).key = none) := by
      intro b
      by_cases hb : b = i
      · simp [hb, hhole]
      · simp [hb]
    by_cases hnear : i < idx + hopNumber
    · refine ⟨some i, ht, i, ?_, .near hnear, Or.inl ⟨rfl, hnear⟩, hsame, fun _ => Iff.rfl, rfl⟩
      have : i - idx < hopNumber := by omega
      simp [displace, subSize_ok hle, this]
    · have hfar := Nat.le_of_not_lt hnear
      rcases displace_round hi hfar fuel with
        ⟨h, j, off, rfl, h1, hj, ho, hbit, ⟨rfl, hr, hmin⟩, hrec⟩ | ⟨hstop, hno⟩
      · obtain ⟨-, p, hp, -⟩ := (hwf.bit_iff h (by omega) _ (by omega)).mp hbit
        have hne : (ht.buckets h).hopinfo ≠ 0#32 :=
          (Bitmap.ne_zero_iff_getLsbD _).mpr ⟨_, by unfold hopNumber at hj; omega, hbit⟩
        have hempty : ∀ b, ((relocated ht h j (ctz (ht.buckets h).hopinfo)).buckets b).key = none ↔
            b = h + ctz (ht.buckets h).hopinfo ∨ (b ≠ h + j ∧ (ht.buckets b).key = none) := by
          intro b
          by_cases hb : b = h + j
          · simp [relocated, hb, hp, show j ≠ ctz (ht.buckets h).hopinfo by omega]
          · by_cases hb' : b = h + ctz (ht.buckets h).hopinfo
            · simp [relocated, hb', show ctz (ht.buckets h).hopinfo ≠ j by omega]
            · simp [relocated, hb, hb']
        have hle' : idx ≤ h + ctz (ht.buckets h).hopinfo := by omega
        obtain ⟨r, ht', e, hd, hpath, hend, hkeys, hzero, hhome⟩ := displace_hole fuel
          (relocated ht h j (ctz (ht.buckets h).hopinfo)) (h + ctz (ht.buckets h).hopinfo)
          (hwf.relocated hi ho hj hhole hbit) hle' (by rw [relocated_sz]; omega)
          ((hempty _).mpr (Or.inl rfl)) (by omega)
        refine ⟨r, ht', e, hrec.trans hd, ?_, hend, fun b => ?_, fun b => ?_, ?_⟩
        · refine .move hfar h1 hj hr hmin ?_
          rw [Nat.add_sub_cancel]
          exact hpath.of_relocated hne ho hj (Nat.le_refl _)
        · rw [hkeys, hempty]
          by_cases hb : b = h + ctz (ht.buckets h).hopinfo
          · simp [hb, hp]
          · simp [hb]
        · rw [hzero, relocated_hopinfo_eq_zero hne ho hj]
        -- the hole is out of reach of the home, so the bitmap that changed lies behind it
        · have hbehind : idx ≠ h := by omega
          rw [hhome]
          simp [relocated, hbehind]
      · exact ⟨none, ht, i, hstop, .stuck hfar hno, Or.inr ⟨rfl, hfar⟩, hsame, fun _ => Iff.rfl,
          rfl⟩

/-! ## One insertion -/

/-- A bucket without a key has an empty bitmap: no key is homed at it. -/
def NoneHidden (ht : HashTable P D) : Prop :=
  ∀ b < ht.sz, (ht.buckets b).key = none → (ht.buckets b).hopinfo = 0#32

/-- If inserting the absent `key` runs out of moves with the hole out of reach, the chain of holes
ends in a bucket that is the home of no key. -/
def ChainEndsClean (hash : Hash) (mem : Mem P) (ht : HashTable P D) (key : P) : Prop :=
  (∀ s, ¬ Holds mem ht (keyBytes mem ht.keylen key) s) →
    ∀ i e, FirstEmpty ht (homeIdx hash mem ht key) i → HolePath ht (homeIdx hash mem ht key) i e →
      homeIdx hash mem ht key + hopNumber ≤ e → (ht.buckets e).hopinfo = 0#32

section Step

variable {hash : Hash} {mem : Mem P} {ht : HashTable P D}

/-- What an insertion of an absent key does to the holes, its first hole being `i`. -/
theorem hopscotchInsert_holes (hwf : WF hash mem ht) {m : List UInt8 → Option D}
    (hm : Rep mem ht m) {key : P} {i : Nat} (habs : m (keyBytes mem ht.keylen key) = none)
    (hi : FirstEmpty ht (homeIdx hash mem ht key) i) (d : D) :
    ∃ e ht1, HolePath ht (homeIdx hash mem ht key) i e ∧ SameShape ht1 ht ∧ e < ht.sz ∧
      (∀ b, (ht1.buckets b).key = none ↔ b = e ∨ (b ≠ i ∧ (ht.buckets b).key = none)) ∧
      (∀ b, (ht1.buckets b).hopinfo = 0#32 ↔ (ht.buckets b).hopinfo = 0#32) ∧
      (ht1.buckets (homeIdx hash mem ht key)).hopinfo =
        (ht.buckets (homeIdx hash mem ht key)).hopinfo ∧
      ((e < homeIdx hash mem ht key + hopNumber ∧ hopscotchInsert hash mem ht key (some d) =
          .ok (if 32 < ((placed ht1 (homeIdx hash mem ht key) e key (some d)).buckets
              (homeIdx hash mem ht key)).hopinfo.toNat then -4 else 0,
            placed ht1 (homeIdx hash mem ht key) e key (some d))) ∨
        (homeIdx hash mem ht key + hopNumber ≤ e ∧
          hopscotchInsert hash mem ht key (some d) = .ok (-3, ht1))) := by
  have hlook := hopscotchLookup_spec hwf hm key
  rw [habs] at hlook
  obtain ⟨r, ht1, e, hd, hpath, hend, hkeys, hzero, hhome⟩ := displace_hole (i + 1) ht i hwf hi.1
    hi.2.1 hi.2.2.1 (by omega)
  obtain ⟨r', ht1', -, hd', -, -, hsh, -⟩ := displace_spec (i + 1) ht i hwf hm hi.1 hi.2.1
    hi.2.2.1 (by omega)
  obtain ⟨rfl, rfl⟩ := Prod.mk.inj (Except.ok.inj (hd.symm.trans hd'))
  obtain ⟨hle, hei⟩ := hpath.bounds hi.1
  have hlt : e < ht.sz := Nat.lt_of_le_of_lt hei hi.2.1
  refine ⟨e, ht1, hpath, hsh, hlt, hkeys, hzero, hhome, ?_⟩
  rcases hend with ⟨rfl, hnear⟩ | ⟨rfl, hfar⟩
  · exact Or.inl ⟨hnear, hopscotchInsert_eq hlook hi.probe_eq hd hsh hle hlt⟩
  · refine Or.inr ⟨hfar, ?_⟩
    simp [hopscotchInsert, hlook, hi.probe_eq, hd]

/-- Storing the key in the last hole leaves no hidden bucket. -/
theorem NoneHidden.placed (hn : NoneHidden ht) {ht1 : HashTable P D} {idx i e : Nat}
    (hi : FirstEmpty ht idx i) (hsh : SameShape ht1 ht)
    (hkeys : ∀ b, (ht1.buckets b).key = none ↔ b = e ∨ (b ≠ i ∧ (ht.buckets b).key = none))
    (hzero : ∀ b, (ht1.buckets b).hopinfo = 0#32 ↔ (ht.buckets b).hopinfo = 0#32)
    (key : P) (data : Option D) : NoneHidden (placed ht1 idx e key data) := by
  intro b hb hk
  have hbe : b ≠ e := by
    rintro rfl
    simp [Hopscotch.placed] at hk
  simp only [Hopscotch.placed, if_neg hbe] at hk
  obtain ⟨hbi, hk'⟩ := ((hkeys b).mp hk).resolve_left hbe
  -- the home itself is not empty: either it is the first hole, or the probe passed it
  have hbidx : b ≠ idx := by
    rintro rfl
    exact hi.2.2.2 b (Nat.le_refl b) (Nat.lt_of_le_of_ne hi.1 hbi) hk'
  simp only [Hopscotch.placed, if_neg hbidx]
  exact (hzero b).mpr (hn b (by rw [← hsh.sz_eq]; exact hb) hk')

/-- A hole left behind is hidden iff it has a bitmap. -/
theorem noneHidden_stuck_iff (hn : NoneHidden ht) {ht1 : HashTable P D} {i e : Nat}
    (he : e < ht.sz) (hsh : SameShape ht1 ht)
    (hkeys : ∀ b, (ht1.buckets b).key = none ↔ b = e ∨ (b ≠ i ∧ (ht.buckets b).key = none))
    (hzero : ∀ b, (ht1.buckets b).hopinfo = 0#32 ↔ (ht.buckets b).hopinfo = 0#32) :
    NoneHidden ht1 ↔ (ht.buckets e).hopinfo = 0#32 := by
  constructor
  · intro h
    rw [← hzero e]
    exact h e (by rw [hsh.sz_eq]; exact he) ((hkeys e).mpr (Or.inl rfl))
  · intro h b hb hk
    rw [hzero b]
    rcases (hkeys b).mp hk with rfl | ⟨-, hk'⟩
    · exact h
    · exact hn b (by rw [← hsh.sz_eq]; exact hb) hk'

/-- **An insertion keeps `NoneHidden` exactly when its chain ends clean.** -/
theorem noneHidden_insert_iff (hwf : WF hash mem ht) {m : List UInt8 → Option D}
    (hm : Rep mem ht m) (hn : NoneHidden ht) {key : P} {d : D} {ret : Int} {ht' : HashTable P D}
    (hins : hopscotchInsert hash mem ht key (some d) = .ok (ret, ht')) :
    NoneHidden ht' ↔ ChainEndsClean hash mem ht key := by
  have hres : ∀ {r t}, hopscotchInsert hash mem ht key (some d) = .ok (r, t) → ht' = t :=
    fun h => (Prod.mk.inj (Except.ok.inj (hins.symm.trans h))).2
  by_cases habs : m (keyBytes mem ht.keylen key) = none
  · have hnone : ∀ s, ¬ Holds mem ht (keyBytes mem ht.keylen key) s :=
      fun s hs => (hm.eq_of_holds hwf hs).2 habs
    rcases exists_firstEmpty_or_full ht (homeIdx_lt hash mem ht key) with ⟨i, hi⟩ | ⟨hp, hall⟩
    · obtain ⟨e, ht1, hpath, hsh, he, hkeys, hzero, -, hend⟩ :=
        hopscotchInsert_holes hwf hm habs hi d
      rcases hend with ⟨hnear, hins1⟩ | ⟨hfar, hins1⟩
      · obtain rfl := hres hins1
        refine iff_of_true (hn.placed hi hsh hkeys hzero key _) fun _ i' e' hi' hpath' hfar => ?_
        obtain rfl := hi.unique hi'
        obtain rfl := hpath.unique hpath'
        omega
      · obtain rfl := hres hins1
        rw [noneHidden_stuck_iff hn he hsh hkeys hzero]
        constructor
        · intro h _ i' e' hi' hpath' _
          obtain rfl := hi.unique hi'
          obtain rfl := hpath.unique hpath'
          exact h
        · exact fun h => h hnone i e hi hpath hfar
    · have hins1 : hopscotchInsert hash mem ht key (some d) = .ok (-1, ht) := by
        simp [hopscotchInsert, hopscotchLookup_spec hwf hm key, habs, hp]
      obtain rfl := hres hins1
      exact iff_of_true hn fun _ i e hi _ _ => absurd hi.2.2.1 (hall i hi.1 hi.2.1)
  · obtain rfl := hres (hopscotchInsert_present hwf hm habs (some d))
    obtain ⟨s, hs⟩ := (hm.holds_iff hwf _).mp habs
    exact iff_of_true hn fun h => absurd hs (h s)

end Step

/-! ## Runs of insertions -/

/-- The image flags the home of every stored key. -/
def HomesFlagged (hash : Hash) (ht : HashTable CStr CStr) (img : Bytes) : Prop :=
  ∀ s < 2 ^ tableSize, ∀ p, (ht.buckets s).key = some p → readFlag img (homeOf hash p) = true

section Run

variable {hash : Hash} {calls : List (CStr × CStr)} {ht : HashTable CStr CStr}

/-- The flags are right exactly when no bucket is hidden. -/
theorem homesFlagged_iff (h : Populated hash calls ht) {img : Bytes}
    (hrec : ∀ i < 2 ^ tableSize, RecordAt img (i * 64) (ht.buckets i)) :
    HomesFlagged hash ht img ↔ NoneHidden ht := by
  have hsz : ht.sz = 2 ^ tableSize := by rw [HashTable.sz, h.exponent]
  constructor
  · intro hflag b hb hk
    by_contra hne
    obtain ⟨i, hi, hbit⟩ := (Bitmap.ne_zero_iff_getLsbD _).mp hne
    obtain ⟨hlt, p, hp, hhome⟩ := (h.wf.bit_iff b hb i hi).mp hbit
    have := hflag (b + i) (by omega) p hp
    rw [← h.homeIdx_eq, hhome, readFlag_iff (hrec b (by omega))] at this
    exact this hk
  · intro hn s hs p hp
    obtain ⟨hle, hlt⟩ := h.wf.near s (by omega) p hp
    have hhome := homeIdx_lt hash strMem ht p
    have hbit := (h.wf.bit_iff _ hhome (s - homeIdx hash strMem ht p) (by omega)).mpr
      ⟨by omega, p, by rw [Nat.add_sub_cancel' hle]; exact hp, rfl⟩
    rw [← h.homeIdx_eq, readFlag_iff (hrec _ (by omega))]
    intro hk
    rw [hn _ hhome hk] at hbit
    simp at hbit

theorem insertAll_append (hash : Hash) : ∀ (as bs : List (CStr × CStr)) (ht : HashTable CStr CStr),
    insertAll hash ht (as ++ bs) = insertAll hash ht as >>= fun ht' => insertAll hash ht' bs
  | [], _, _ => rfl
  | a :: as, bs, ht => by
    simp only [List.cons_append, insertAll]
    cases hopscotchInsert hash strMem ht a.1 (some a.2) with
    | error f => rfl
    | ok r => exact insertAll_append hash as bs r.2

/-- One more insertion. -/
theorem populate_snoc {pre : List (CStr × CStr)} (hpop : populate hash pre = .ok ht)
    (c : CStr × CStr) {r : Int} {ht' : HashTable CStr CStr}
    (hins : hopscotchInsert hash strMem ht c.1 (some c.2) = .ok (r, ht')) :
    populate hash (pre ++ [c]) = .ok ht' := by
  unfold populate at hpop ⊢
  rw [insertAll_append, hpop, ok_bind, insertAll, hins]
  rfl

/-- What one more insertion does to a populated table without hidden buckets. -/
theorem noneHidden_snoc_iff {pre : List (CStr × CStr)} (hpop : populate hash pre = .ok ht)
    (hn : NoneHidden ht) (c : CStr × CStr) :
    ∃ ht', populate hash (pre ++ [c]) = .ok ht' ∧
      (NoneHidden ht' ↔ ChainEndsClean hash strMem ht c.1) := by
  obtain ⟨ht0, hpop0, h⟩ := populate_spec hash pre
  obtain rfl := Except.ok.inj (hpop0.symm.trans hpop)
  obtain ⟨m, hm⟩ := h.rep
  obtain ⟨ret, ht', hins, -⟩ := hopscotchInsert_spec h.wf hm c.1 c.2
  exact ⟨ht', populate_snoc hpop c hins, noneHidden_insert_iff h.wf hm hn hins⟩

theorem noneHidden_init : NoneHidden (hopscotchInit keyLen : HashTable CStr CStr) :=
  fun _ _ _ => rfl

/-- **Along a run of insertions every image flags the home of every stored key exactly when every
chain ends clean.** -/
theorem homes_flagged_iff (hash : Hash) (calls : List (CStr × CStr)) (img0 : Bytes) :
    (∀ pre, pre <+: calls → ∃ ht img, populate hash pre = .ok ht ∧ writehash ht img0 = .ok img ∧
      HomesFlagged hash ht img ∧ NoneHidden ht) ↔
    ∀ pre c, pre ++ [c] <+: calls → ∃ ht, populate hash pre = .ok ht ∧
      ChainEndsClean hash strMem ht c.1 := by
  have himage : ∀ pre ht, populate hash pre = .ok ht → NoneHidden ht → ∃ ht img,
      populate hash pre = .ok ht ∧ writehash ht img0 = .ok img ∧ HomesFlagged hash ht img ∧
        NoneHidden ht := by
    intro pre ht hpop hn
    obtain ⟨ht0, hpop0, h⟩ := populate_spec hash pre
    obtain rfl := Except.ok.inj (hpop0.symm.trans hpop)
    obtain ⟨img, himg, hrec⟩ := writehash_record h img0
    exact ⟨ht0, img, hpop, himg, (homesFlagged_iff h hrec).mpr hn, hn⟩
  constructor
  · intro hall pre c hpre
    obtain ⟨ht, -, hpop, -, -, hn⟩ := hall pre ((List.prefix_append _ _).trans hpre)
    obtain ⟨ht', hpop', hiff⟩ := noneHidden_snoc_iff hpop hn c
    obtain ⟨ht2, -, hpop2, -, -, hn2⟩ := hall (pre ++ [c]) hpre
    obtain rfl := Except.ok.inj (hpop'.symm.trans hpop2)
    exact ⟨ht, hpop, hiff.mp hn2⟩
  · intro hall pre
    -- by induction on the calls made so far
    induction pre using List.reverseRecOn with
    | nil => exact fun _ => himage [] _ rfl noneHidden_init
    | append_singleton pre c ih =>
      intro hpre
      obtain ⟨ht, -, hpop, -, -, hn⟩ := ih ((List.prefix_append _ _).trans hpre)
      obtain ⟨ht', hpop', hiff⟩ := noneHidden_snoc_iff hpop hn c
      obtain ⟨ht2, hpop2, hclean⟩ := hall pre c hpre
      obtain rfl := Except.ok.inj (hpop2.symm.trans hpop)
      exact himage _ ht' hpop' (hiff.mpr hclean)

/-- 32 keys of home 0, and one of home 32 in the bucket after them. -/
def awayTable : HashTable CStr CStr :=
  placed (clusterTable (clashKeys.take 32)) 32 32 awayKey (some awayKey)

theorem populate_away :
    populate jenkinsHash (selfCalls (clashKeys.take 32) ++ [(awayKey, awayKey)]) =
      .ok awayTable := by
  have hpop : populate jenkinsHash (selfCalls (clashKeys.take 32)) =
      .ok (clusterTable (clashKeys.take 32)) :=
    populate_cluster (by decide) (fun k hk => clashKeys_home k (List.mem_of_mem_take hk))
      (clashKeys_nodup.sublist ((List.take_sublist 32 _).map _))
  obtain ⟨ht0, hpop0, h⟩ := populate_spec jenkinsHash (selfCalls (clashKeys.take 32))
  obtain rfl := Except.ok.inj (hpop0.symm.trans hpop)
  obtain ⟨m, hm⟩ := h.rep
  have hidx : homeIdx jenkinsHash strMem (clusterTable (clashKeys.take 32)) awayKey = 32 :=
    (h.homeIdx_eq awayKey).trans awayKey_home
  have habs : ∀ s, ¬ Holds strMem (clusterTable (clashKeys.take 32))
      (keyBytes strMem keyLen awayKey) s := by
    rintro s ⟨-, p, hp, hb⟩
    have hp' := clashKeys_home p (List.mem_of_mem_take (List.mem_of_getElem? hp))
    rw [homeOf, show keyBytes strMem keyLen p = keyBytes strMem keyLen awayKey from hb] at hp'
    exact absurd (awayKey_home.symm.trans hp') (by decide)
  have hfirst : FirstEmpty (clusterTable (clashKeys.take 32))
      (homeIdx jenkinsHash strMem (clusterTable (clashKeys.take 32)) awayKey) 32 := by
    rw [hidx]
    exact ⟨Nat.le_refl _, by decide, rfl, fun t h1 h2 => absurd h2 (by omega)⟩
  have hins := hopscotchInsert_near h.wf hm (hm.eq_none_of_not_holds habs) hfirst
    (by rw [hidx]; decide) (some awayKey)
  rw [hidx] at hins
  exact populate_snoc hpop (awayKey, awayKey) hins

theorem awayTable_key (b : Nat) : (awayTable.buckets b).key =
    if b = 32 then some awayKey else (clashKeys.take 32)[b]? := rfl

theorem awayTable_hopinfo_away : (awayTable.buckets 32).hopinfo = 1#32 := by
  simp [awayTable, placed, clusterTable]

theorem awayTable_hopinfo {b : Nat} (h0 : b ≠ 0) (h32 : b ≠ 32) :
    (awayTable.buckets b).hopinfo = 0#32 := by
  simp [awayTable, placed, clusterTable, h0, h32]

theorem awayTable_key_eq_none_iff (b : Nat) : (awayTable.buckets b).key = none ↔ 33 ≤ b := by
  have hlen : (clashKeys.take 32).length = 32 := rfl
  rw [awayTable_key]
  by_cases hb : b = 32
  · simp [hb]
  · rw [if_neg hb, List.getElem?_eq_none_iff, hlen]
    omega

/-- The next key of home 0 moves the key at 32 away, and then has no place. -/
theorem holePath_away : HolePath awayTable 0 33 32 := by
  have hctz : ctz (1#32) = 0 := by decide +kernel
  have hsub : 33 - 1 = 32 := rfl
  have hbit : ∀ l, 1 ≤ l → l < hopNumber → (awayTable.buckets (32 - l)).hopinfo = 0#32 :=
    fun l h1 hl => awayTable_hopinfo (by unfold hopNumber at hl; omega) (by omega)
  have hstuck : HolePath awayTable 0 32 32 :=
    .stuck (Nat.le_refl 32) fun l h1 hl hr => hr.1 (hbit l h1 hl)
  refine .move (Nat.le_succ 32) (Nat.le_refl 1) (by decide) ?_
    (fun l h1 h2 => absurd h2 (by omega)) ?_
  · rw [Relocatable, hsub, awayTable_hopinfo_away, hctz]
    decide
  · rw [hsub, awayTable_hopinfo_away, hctz]
    exact hstuck

/-- 34 keys of the traces after which the home of a stored key is flagged empty. -/
theorem home_hidden_after_failed_insert :
    ∃ ht img, populate jenkinsHash (selfCalls (clashKeys.take 32 ++ [awayKey, lateKey])) = .ok ht ∧
      writehash ht (fun _ => 0) = .ok img ∧ ¬ HomesFlagged jenkinsHash ht img ∧
      ¬ NoneHidden ht := by
  have hn : NoneHidden awayTable := by
    intro b _ hk
    rw [awayTable_key_eq_none_iff] at hk
    exact awayTable_hopinfo (by omega) (by omega)
  obtain ⟨ht, hpop, hiff⟩ := noneHidden_snoc_iff populate_away hn
    (lateKey, lateKey)
  have hhidden : ¬ NoneHidden ht := by
    intro hht
    have hclean : ChainEndsClean jenkinsHash strMem awayTable lateKey := hiff.mp hht
    obtain ⟨ht1, hpop1, h1⟩ := populate_spec jenkinsHash
      (selfCalls (clashKeys.take 32) ++ [(awayKey, awayKey)])
    obtain rfl := Except.ok.inj (hpop1.symm.trans populate_away)
    have h0 : homeIdx jenkinsHash strMem awayTable lateKey = 0 :=
      (h1.homeIdx_eq _).trans (clashKeys_home _ (by rw [clashKeys, lateKey]; simp))
    have hother : ∀ p ∈ awayKey :: clashKeys.take 32,
        keyBytes strMem keyLen p ≠ keyBytes strMem keyLen lateKey := by
      decide +kernel
    rw [ChainEndsClean, h0, h1.keylen] at hclean
    have hzero := hclean ?_ 33 32 ?_ holePath_away (Nat.le_refl 32)
    · rw [awayTable_hopinfo_away] at hzero
      exact absurd hzero (by decide +kernel)
    · rintro s ⟨-, p, hp, hb⟩
      rw [h1.keylen] at hb
      refine hother p ?_ hb
      rw [awayTable_key] at hp
      split at hp
      · simp [(Option.some.inj hp).symm]
      · exact List.mem_cons_of_mem _ (List.mem_of_getElem? hp)
    · refine ⟨Nat.zero_le _, ?_, (awayTable_key_eq_none_iff 33).mpr (Nat.le_refl _),
        fun t _ ht => ?_⟩
      · show 33 < 2 ^ tableSize
        decide
      · rw [Ne, awayTable_key_eq_none_iff]
        omega
  obtain ⟨ht0, hpop0, h⟩ := populate_spec jenkinsHash _
  obtain rfl := Except.ok.inj (hpop0.symm.trans hpop)
  obtain ⟨img, himg, hrec⟩ := writehash_record h fun _ => 0
  refine ⟨ht0, img, ?_, himg, ?_, hhidden⟩
  · rw [← hpop]
    simp [selfCalls]
  · rwa [homesFlagged_iff h hrec]

end Run

end Rpma.Hopscotch
