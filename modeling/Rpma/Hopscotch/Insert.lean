import Rpma.Hopscotch.Buckets

/-!
# Insertion: the probe, the displacement loop and the placement

`hopscotch_insert` moves other keys, possibly many, before it stores its own, and on its failing
path it moves them and stores nothing. One round of the displacement moves one key into the hole
and repairs the bitmap of that key's home (`relocated`, the closed form of the assignments), so
it keeps `WF` and `Rep` whatever happens next.

* `displace_spec`: the loop ends, keeps the invariant and the map, and leaves the hole within
  reach of the home, or where no key can be moved into it.
* **`hopscotchInsert_spec`**: an insertion ends in one of the cases of `InsertOutcome` and does
  not fault.
-/

namespace Rpma.Hopscotch

open Rpma.Lib
open HashTable (get_ok modify_ok SameShape)

variable {P D : Type}

/-! ## Displacement -/

section Displace

variable {hash : Hash} {mem : Mem P} {ht : HashTable P D}

/-- The linear probe stops at the first empty bucket. -/
theorem probe_spec (ht : HashTable P D) : ∀ n i, i + n = ht.sz →
    (∃ s, probe ht n i = .ok (some s) ∧ i ≤ s ∧ s < ht.sz ∧ (ht.buckets s).key = none ∧
      ∀ t, i ≤ t → t < s → (ht.buckets t).key ≠ none) ∨
    (probe ht n i = .ok none ∧ ∀ t, i ≤ t → t < ht.sz → (ht.buckets t).key ≠ none)
  | 0, i, h => Or.inr ⟨rfl, fun t h1 h2 => absurd h2 (by omega)⟩
  | n + 1, i, h => by
    have hi : i < ht.sz := by omega
    cases hk : (ht.buckets i).key with
    | none =>
      refine Or.inl ⟨i, ?_, Nat.le_refl i, hi, hk, fun t h1 h2 => absurd h2 (by omega)⟩
      simp [probe, get_ok hi, hk]
    | some p =>
      have hstep : probe ht (n + 1) i = probe ht n (i + 1) := by simp [probe, get_ok hi, hk]
      rw [hstep]
      have hi' : (ht.buckets i).key ≠ none := by simp [hk]
      rcases probe_spec ht n (i + 1) (by omega) with ⟨s, hp, hle, hlt, hs, hall⟩ | ⟨hp, hall⟩
      · refine Or.inl ⟨s, hp, by omega, hlt, hs, fun t h1 h2 => ?_⟩
        rcases Nat.eq_or_lt_of_le h1 with rfl | h1
        · exact hi'
        · exact hall t h1 h2
      · refine Or.inr ⟨hp, fun t h1 h2 => ?_⟩
        rcases Nat.eq_or_lt_of_le h1 with rfl | h1
        · exact hi'
        · exact hall t h1 h2

/-- Bucket `i - j` can give up its first key to the hole `i`: its lowest bit lies below `j`. -/
def Relocatable (ht : HashTable P D) (i j : Nat) : Prop :=
  (ht.buckets (i - j)).hopinfo ≠ 0#32 ∧ ctz (ht.buckets (i - j)).hopinfo < j

/-- The inner displacement loop finds the nearest bucket that can give up a key. -/
theorem scanBack_spec {i : Nat} (hi : i < ht.sz) (hge : hopNumber ≤ i) :
    ∀ n j, 1 ≤ j → j + n = hopNumber →
      (∃ k, scanBack ht i n j = .ok (some (k, ctz (ht.buckets (i - k)).hopinfo)) ∧ j ≤ k ∧
        k < hopNumber ∧ Relocatable ht i k ∧ ∀ l, j ≤ l → l < k → ¬ Relocatable ht i l) ∨
      (scanBack ht i n j = .ok none ∧ ∀ l, j ≤ l → l < hopNumber → ¬ Relocatable ht i l)
  | 0, j, _, h => Or.inr ⟨rfl, fun l h1 h2 => absurd h2 (by omega)⟩
  | n + 1, j, h1, h => by
    have hget : ht.get (i - j) = .ok (ht.buckets (i - j)) := get_ok (by omega)
    have hsub : subSize i j = .ok (i - j) := subSize_ok (by omega)
    by_cases hr : Relocatable ht i j
    · refine Or.inl ⟨j, ?_, Nat.le_refl j, by omega, hr, fun l h1 h2 => absurd h2 (by omega)⟩
      obtain ⟨hne, hlt⟩ := hr
      simp [scanBack, hsub, hget, hne, Nat.not_le.mpr hlt]
    · have hstep : scanBack ht i (n + 1) j = scanBack ht i n (j + 1) := by
        by_cases hz : (ht.buckets (i - j)).hopinfo = 0#32
        · simp [scanBack, hsub, hget, hz]
        · have hle : j ≤ ctz (ht.buckets (i - j)).hopinfo := by
            by_contra hlt
            exact hr ⟨hz, by omega⟩
          simp [scanBack, hsub, hget, hle]
      rw [hstep]
      rcases scanBack_spec hi hge n (j + 1) (by omega) (by omega) with
        ⟨k, hs, hjk, hk, hrk, hall⟩ | ⟨hs, hall⟩
      · refine Or.inl ⟨k, hs, by omega, hk, hrk, fun l h2 h3 => ?_⟩
        rcases Nat.eq_or_lt_of_le h2 with rfl | h2
        · exact hr
        · exact hall l h2 h3
      · refine Or.inr ⟨hs, fun l h2 h3 => ?_⟩
        rcases Nat.eq_or_lt_of_le h2 with rfl | h2
        · exact hr
        · exact hall l h2 h3

/-- The table after the key at `h + off` moved to `h + j`, `h` being its home. -/
def relocated (ht : HashTable P D) (h j off : Nat) : HashTable P D :=
  { ht with buckets := fun b =>
      { key := if b = h + j then (ht.buckets (h + off)).key
          else if b = h + off then none else (ht.buckets b).key
        data := if b = h + j then (ht.buckets (h + off)).data
          else if b = h + off then none else (ht.buckets b).data
        hopinfo := if b = h then ((ht.buckets b).hopinfo &&& ~~~(1#32 <<< off)) ||| (1#32 <<< j)
          else (ht.buckets b).hopinfo } }

theorem relocated_sameShape (ht : HashTable P D) (h j off : Nat) :
    SameShape (relocated ht h j off) ht := ⟨rfl, rfl⟩

theorem relocated_sz (ht : HashTable P D) (h j off : Nat) :
    (relocated ht h j off).sz = ht.sz := rfl

/-- The assignments of a displacement, in their order, give `relocated`. -/
theorem moveHop_eq {h j off : Nat} (hi : h + j < ht.sz) (ho : off < j) :
    moveHop ht (h + j) j off = .ok (relocated ht h j off) := by
  have hsub : subSize (h + j) j = .ok h := by
    rw [subSize_ok (by omega), Nat.add_sub_cancel]
  have hsrc : h + off < ht.sz := by omega
  have hh : h < ht.sz := by omega
  unfold moveHop
  rw [hsub, ok_bind, get_ok hsrc, ok_bind, modify_ok hi, ok_bind, modify_ok (by exact hi), ok_bind,
    modify_ok (by exact hsrc), ok_bind, modify_ok (by exact hsrc), ok_bind,
    modify_ok (by exact hh), ok_bind, modify_ok (by exact hh)]
  unfold HashTable.upd relocated
  congr 2
  funext b
  simp only [Function.update_apply]
  by_cases h1 : b = h + j
  · simp [h1, show j ≠ off by omega, show j ≠ 0 by omega]
  · by_cases h2 : b = h + off
    · by_cases h3 : off = 0
      · subst h3
        simp [h2, show j ≠ 0 by omega]
      · simp [h2, h3, show off ≠ j by omega]
    · by_cases h3 : b = h
      · have h4 : off ≠ 0 := by omega
        have h5 : j ≠ 0 := by omega
        simp [h3, h4, h5]
      · simp [h1, h2, h3]

/-- A displacement erases the key and stores it again in the hole. -/
theorem relocated_eq_placed {h j off : Nat} {p : P} {d : D}
    (hp : (ht.buckets (h + off)).key = some p) (hd : (ht.buckets (h + off)).data = some d) :
    relocated ht h j off = placed (erased ht h off) h (h + j) p (some d) := by
  unfold relocated placed erased
  congr 1
  funext b
  by_cases hb : b = h
  · simp [hb, hp, hd]
  · simp [hb, hp, hd]

/-- The key that moves, and that it is nowhere once it is erased. -/
theorem erased_absent (hwf : WF hash mem ht) {h off : Nat} (hh : h < ht.sz) (ho : off < hopNumber)
    (hbit : (ht.buckets h).hopinfo.getLsbD off = true) :
    ∃ p d, (ht.buckets (h + off)).key = some p ∧ (ht.buckets (h + off)).data = some d ∧
      homeIdx hash mem (erased ht h off) p = h ∧
      Holds mem ht (keyBytes mem ht.keylen p) (h + off) ∧
      ∀ t, ¬ Holds mem (erased ht h off) (keyBytes mem ht.keylen p) t := by
  obtain ⟨hlt, p, hp, hhome⟩ := (hwf.bit_iff h hh off ho).mp hbit
  obtain ⟨d, hd⟩ := Option.ne_none_iff_exists'.mp (hwf.data_some (h + off) hlt (by simp [hp]))
  have hholds : Holds mem ht (keyBytes mem ht.keylen p) (h + off) := ⟨hlt, p, hp, rfl⟩
  have hhome' : homeIdx hash mem (erased ht h off) p = h :=
    (homeIdx_congr hash mem ⟨rfl, rfl⟩ p).trans hhome
  refine ⟨p, d, hp, hd, hhome', hholds, fun t ht' => ?_⟩
  obtain ⟨hne, ht'⟩ := holds_erased.mp ht'
  exact hne (hwf.distinct _ _ _ ht' hholds)

/-- The hole is still a hole. -/
theorem erased_hole {h j off : Nat} (hhole : (ht.buckets (h + j)).key = none) :
    ((erased ht h off).buckets (h + j)).key = none := by
  simp [erased, hhole]

/-- **A displacement keeps the invariant**: the key at `h + off` of home `h` moves into the hole
`h + j`, and the hole moves to `h + off`. -/
theorem WF.relocated (hwf : WF hash mem ht) {h j off : Nat} (hi : h + j < ht.sz)
    (ho : off < j) (hj : j < hopNumber) (hhole : (ht.buckets (h + j)).key = none)
    (hbit : (ht.buckets h).hopinfo.getLsbD off = true) :
    WF hash mem (relocated ht h j off) := by
  have hh : h < ht.sz := by omega
  have ho' : off < hopNumber := by omega
  obtain ⟨p, d, hp, hd, hhome, -, habs⟩ := erased_absent hwf hh ho' hbit
  have hplaced : WF hash mem (Hopscotch.placed (Hopscotch.erased ht h off)
      (homeIdx hash mem (Hopscotch.erased ht h off) p) (h + j) p (some d)) :=
    (hwf.erased hh ho' hbit).placed (by omega) (by omega) hi (erased_hole hhole) habs
  rwa [hhome, ← relocated_eq_placed hp hd] at hplaced

/-- A displacement keeps the map. -/
theorem Rep.relocated {m : List UInt8 → Option D} (hm : Rep mem ht m) (hwf : WF hash mem ht)
    {h j off : Nat} (hi : h + j < ht.sz) (ho : off < j) (hj : j < hopNumber)
    (hhole : (ht.buckets (h + j)).key = none)
    (hbit : (ht.buckets h).hopinfo.getLsbD off = true) : Rep mem (relocated ht h j off) m := by
  have hh : h < ht.sz := by omega
  obtain ⟨p, d, hp, hd, -, hholds, habs⟩ := erased_absent hwf hh (by omega) hbit
  have hmd : m (keyBytes mem ht.keylen p) = some d := (hm _ d).mpr ⟨h + off, hholds, hd⟩
  have hplaced : Rep mem (Hopscotch.placed (Hopscotch.erased ht h off) h (h + j) p (some d))
      (Function.update (Function.update m (keyBytes mem ht.keylen p) none)
        (keyBytes mem ht.keylen p) (some d)) :=
    (hm.erased hwf hholds).placed h hi (erased_hole hhole) habs
  rw [← relocated_eq_placed hp hd, Function.update_idem, ← hmd, Function.update_eq_self] at hplaced
  exact hplaced

/-- What one round of the displacement loop does from a hole `i` out of reach. -/
theorem displace_round {idx i : Nat} (hi : i < ht.sz) (hfar : idx + hopNumber ≤ i)
    (fuel : Nat) :
    (∃ h j off, i = h + j ∧ 1 ≤ j ∧ j < hopNumber ∧ off < j ∧
      (ht.buckets h).hopinfo.getLsbD off = true ∧
      (off = ctz (ht.buckets h).hopinfo ∧ Relocatable ht i j ∧
        ∀ l, 1 ≤ l → l < j → ¬ Relocatable ht i l) ∧
      displace idx (fuel + 1) ht i = displace idx fuel (relocated ht h j off) (h + off)) ∨
    (displace idx (fuel + 1) ht i = .ok (none, ht) ∧
      ∀ l, 1 ≤ l → l < hopNumber → ¬ Relocatable ht i l) := by
  have hnum : hopNumber = 32 := rfl
  have hsub : subSize i idx = .ok (i - idx) := subSize_ok (by omega)
  have hnot : ¬ i - idx < hopNumber := by omega
  rcases scanBack_spec hi (by omega) (hopNumber - 1) 1 (Nat.le_refl 1) (by omega) with
    ⟨j, hs, h1, hj, hr, hmin⟩ | ⟨hs, hall⟩
  · obtain ⟨h, rfl⟩ : ∃ h, i = h + j := ⟨i - j, by omega⟩
    obtain ⟨hne, hlt⟩ := id hr
    rw [Nat.add_sub_cancel] at hs hne hlt
    obtain ⟨-, hbit, -⟩ := Bitmap.ctz_spec _ hne
    refine Or.inl ⟨h, j, _, rfl, h1, hj, hlt, hbit, ⟨rfl, hr, hmin⟩, ?_⟩
    have hsub' : subSize (h + j) j = .ok h := by
      rw [subSize_ok (by omega), Nat.add_sub_cancel]
    simp only [displace, hsub, ok_bind, if_neg hnot, hs, moveHop_eq hi hlt, hsub']
  · refine Or.inr ⟨?_, hall⟩
    simp [displace, hsub, hnot, hs]

/-- **The displacement loop ends**, keeps the invariant and the map, and leaves either a hole
within reach of `idx` or a hole that no key can be moved into. -/
theorem displace_spec {m : List UInt8 → Option D} {idx : Nat} :
    ∀ (fuel : Nat) (ht : HashTable P D) (i : Nat), WF hash mem ht → Rep mem ht m → idx ≤ i →
      i < ht.sz → (ht.buckets i).key = none → i < fuel →
      ∃ r ht' e, displace idx fuel ht i = .ok (r, ht') ∧ WF hash mem ht' ∧ Rep mem ht' m ∧
        SameShape ht' ht ∧ idx ≤ e ∧ e < ht.sz ∧ (ht'.buckets e).key = none ∧
        ((r = some e ∧ e < idx + hopNumber) ∨
          (r = none ∧ idx + hopNumber ≤ e ∧ ∀ l, 1 ≤ l → l < hopNumber → ¬ Relocatable ht' e l))
  | 0, _, _, _, _, _, _, _, hf => absurd hf (by omega)
  | fuel + 1, ht, i, hwf, hm, hle, hi, hhole, hf => by
    by_cases hnear : i < idx + hopNumber
    · refine ⟨some i, ht, i, ?_, hwf, hm, ⟨rfl, rfl⟩, hle, hi, hhole, Or.inl ⟨rfl, hnear⟩⟩
      have : i - idx < hopNumber := by omega
      simp [displace, subSize_ok hle, this]
    · rcases displace_round hi (Nat.le_of_not_lt hnear) fuel with
        ⟨h, j, off, rfl, h1, hj, ho, hbit, -, hrec⟩ | ⟨hstop, hall⟩
      · have hne : ((relocated ht h j off).buckets (h + off)).key = none := by
          simp [relocated, show off ≠ j by omega]
        have hle' : idx ≤ h + off := by omega
        obtain ⟨r, ht', e, hd, hwf', hm', hsh, he⟩ := displace_spec fuel (relocated ht h j off)
          (h + off) (hwf.relocated hi ho hj hhole hbit) (hm.relocated hwf hi ho hj hhole hbit)
          hle' (by rw [relocated_sz]; omega) hne (by omega)
        exact ⟨r, ht', e, hrec.trans hd, hwf', hm', hsh.trans (relocated_sameShape ht h j off), he⟩
      · exact ⟨none, ht, i, hstop, hwf, hm, ⟨rfl, rfl⟩, hle, hi, hhole,
          Or.inr ⟨rfl, Nat.le_of_not_lt hnear, hall⟩⟩

end Displace

/-! ## Insertion -/

section Insert

variable {hash : Hash} {mem : Mem P} {ht : HashTable P D}

/-- The ways `hopscotch_insert(ht, key, d)` can end on a table standing for `m`. -/
inductive InsertOutcome (hash : Hash) (mem : Mem P) (ht : HashTable P D)
    (m : List UInt8 → Option D) (key : P) (d : D) : Int → HashTable P D → Prop
  /-- `-2`: the key is there. -/
  | present (h : m (keyBytes mem ht.keylen key) ≠ none) : InsertOutcome hash mem ht m key d (-2) ht
  /-- `-1`: no empty bucket from the home on. -/
  | full (h : m (keyBytes mem ht.keylen key) = none)
      (hall : ∀ t, homeIdx hash mem ht key ≤ t → t < ht.sz → (ht.buckets t).key ≠ none) :
      InsertOutcome hash mem ht m key d (-1) ht
  /-- `-3`: the hole `e` is out of reach and no key can be moved into it. -/
  | stuck (ht' : HashTable P D) (e : Nat) (h : m (keyBytes mem ht.keylen key) = none)
      (hwf : WF hash mem ht') (hm : Rep mem ht' m) (hsh : SameShape ht' ht)
      (he : homeIdx hash mem ht key + hopNumber ≤ e) (hlt : e < ht.sz)
      (hhole : (ht'.buckets e).key = none)
      (hno : ∀ l, 1 ≤ l → l < hopNumber → ¬ Relocatable ht' e l) :
      InsertOutcome hash mem ht m key d (-3) ht'
  /-- `0` or `-4`: the key is stored. -/
  | stored (ret : Int) (ht' : HashTable P D) (h : m (keyBytes mem ht.keylen key) = none)
      (hwf : WF hash mem ht')
      (hm : Rep mem ht' (Function.update m (keyBytes mem ht.keylen key) (some d)))
      (hsh : SameShape ht' ht) (hret : ret = 0 ∨ ret = -4) :
      InsertOutcome hash mem ht m key d ret ht'

/-- An insertion whose displacement leaves a hole `e` within reach stores the key there. -/
theorem hopscotchInsert_eq {key : P} {data : Option D} {ht1 : HashTable P D} {i e : Nat}
    (hlook : hopscotchLookup hash mem ht key = .ok none)
    (hp : probe ht (ht.sz - homeIdx hash mem ht key) (homeIdx hash mem ht key) = .ok (some i))
    (hd : displace (homeIdx hash mem ht key) (i + 1) ht i = .ok (some e, ht1))
    (hsh : SameShape ht1 ht) (hle : homeIdx hash mem ht key ≤ e) (hlt : e < ht.sz) :
    hopscotchInsert hash mem ht key data =
      .ok (if ((placed ht1 (homeIdx hash mem ht key) e key data).buckets
          (homeIdx hash mem ht key)).hopinfo.toNat > 32 then -4 else 0,
        placed ht1 (homeIdx hash mem ht key) e key data) := by
  have hsz := hsh.sz_eq
  have hidx : homeIdx hash mem ht key < ht1.sz := by rw [hsz]; exact homeIdx_lt hash mem ht key
  have he : e < ht1.sz := by rw [hsz]; exact hlt
  unfold hopscotchInsert
  simp only [hlook, ok_bind, Option.isSome_none, Bool.false_eq_true, if_false, hp, hd,
    subSize_ok hle]
  rw [modify_ok he, ok_bind, modify_ok (by exact he), ok_bind, modify_ok (by exact hidx), ok_bind,
    upd_placed, get_ok (by exact hidx), ok_bind]
  split <;> rfl

/-- The first empty bucket `i` from `idx` on. -/
def FirstEmpty (ht : HashTable P D) (idx i : Nat) : Prop :=
  idx ≤ i ∧ i < ht.sz ∧ (ht.buckets i).key = none ∧
    ∀ t, idx ≤ t → t < i → (ht.buckets t).key ≠ none

theorem FirstEmpty.unique {idx i i' : Nat} (h : FirstEmpty ht idx i) (h' : FirstEmpty ht idx i') :
    i = i' := by
  rcases Nat.lt_trichotomy i i' with hlt | heq | hlt
  · exact absurd h.2.2.1 (h'.2.2.2 i h.1 hlt)
  · exact heq
  · exact absurd h'.2.2.1 (h.2.2.2 i' h'.1 hlt)

theorem FirstEmpty.probe_eq {idx i : Nat} (h : FirstEmpty ht idx i) :
    probe ht (ht.sz - idx) idx = .ok (some i) := by
  obtain ⟨hle, hlt, hk, hall⟩ := id h
  rcases probe_spec ht (ht.sz - idx) idx (by omega) with ⟨s, hp, h1, h2, h3, h4⟩ | ⟨-, hfull⟩
  · rw [hp, h.unique ⟨h1, h2, h3, h4⟩]
  · exact absurd hk (hfull i hle hlt)

theorem exists_firstEmpty_or_full (ht : HashTable P D) {idx : Nat} (hidx : idx < ht.sz) :
    (∃ i, FirstEmpty ht idx i) ∨
      (probe ht (ht.sz - idx) idx = .ok none ∧
        ∀ t, idx ≤ t → t < ht.sz → (ht.buckets t).key ≠ none) := by
  rcases probe_spec ht (ht.sz - idx) idx (by omega) with ⟨s, -, h1, h2, h3, h4⟩ | hfull
  · exact Or.inl ⟨s, h1, h2, h3, h4⟩
  · exact Or.inr hfull

theorem hopscotchInsert_present (hwf : WF hash mem ht) {m : List UInt8 → Option D}
    (hm : Rep mem ht m) {key : P} (h : m (keyBytes mem ht.keylen key) ≠ none) (data : Option D) :
    hopscotchInsert hash mem ht key data = .ok (-2, ht) := by
  obtain ⟨d, hd⟩ := Option.ne_none_iff_exists'.mp h
  simp [hopscotchInsert, hopscotchLookup_spec hwf hm key, hd]

/-- An absent key whose first empty bucket is within reach is stored there, and nothing moves. -/
theorem hopscotchInsert_near (hwf : WF hash mem ht) {m : List UInt8 → Option D}
    (hm : Rep mem ht m) {key : P} {i : Nat} (habs : m (keyBytes mem ht.keylen key) = none)
    (hi : FirstEmpty ht (homeIdx hash mem ht key) i)
    (hnear : i < homeIdx hash mem ht key + hopNumber) (data : Option D) :
    hopscotchInsert hash mem ht key data =
      .ok (if ((placed ht (homeIdx hash mem ht key) i key data).buckets
          (homeIdx hash mem ht key)).hopinfo.toNat > 32 then -4 else 0,
        placed ht (homeIdx hash mem ht key) i key data) := by
  have hd : displace (homeIdx hash mem ht key) (i + 1) ht i = .ok (some i, ht) := by
    have hsub : i - homeIdx hash mem ht key < hopNumber := by
      have := hi.1
      omega
    simp [displace, subSize_ok hi.1, hsub]
  refine hopscotchInsert_eq ?_ hi.probe_eq hd ⟨rfl, rfl⟩ hi.1 hi.2.1
  rw [hopscotchLookup_spec hwf hm key, habs]

/-- **`hopscotch_insert` ends in one of its outcomes** and does not fault. -/
theorem hopscotchInsert_spec (hwf : WF hash mem ht) {m : List UInt8 → Option D}
    (hm : Rep mem ht m) (key : P) (d : D) :
    ∃ ret ht', hopscotchInsert hash mem ht key (some d) = .ok (ret, ht') ∧
      InsertOutcome hash mem ht m key d ret ht' := by
  have hlook := hopscotchLookup_spec hwf hm key
  cases hmk : m (keyBytes mem ht.keylen key) with
  | some d' =>
    have hne : m (keyBytes mem ht.keylen key) ≠ none := by simp [hmk]
    exact ⟨-2, ht, hopscotchInsert_present hwf hm hne _, .present hne⟩
  | none =>
    rw [hmk] at hlook
    rcases exists_firstEmpty_or_full ht (homeIdx_lt hash mem ht key) with ⟨i, hi⟩ | ⟨hp, hall⟩
    · have hp := hi.probe_eq
      obtain ⟨r, ht1, e, hd, hwf1, hm1, hsh, hle1, hlt1, hhole1, hr⟩ :=
        displace_spec (i + 1) ht i hwf hm hi.1 hi.2.1 hi.2.2.1 (by omega)
      rcases hr with ⟨rfl, hnear⟩ | ⟨rfl, hfar, hno⟩
      · have hsz := hsh.sz_eq
        have hbytes : keyBytes mem ht1.keylen key = keyBytes mem ht.keylen key := by rw [hsh.2]
        have hhome : homeIdx hash mem ht1 key = homeIdx hash mem ht key :=
          homeIdx_congr hash mem hsh key
        have habs1 : ∀ t, ¬ Holds mem ht1 (keyBytes mem ht1.keylen key) t := fun t h =>
          (hm1.eq_of_holds hwf1 h).2 (by rw [hbytes]; exact hmk)
        have hwf2 := hwf1.placed (d := d) (by rw [hhome]; exact hle1) (by rw [hhome]; exact hnear)
          (by rw [hsz]; exact hlt1) hhole1 habs1
        have hm2 := hm1.placed (d := d) (homeIdx hash mem ht key)
          (by rw [hsz]; exact hlt1) hhole1 habs1
        rw [hhome] at hwf2
        rw [hbytes] at hm2
        refine ⟨_, _, hopscotchInsert_eq hlook hp hd hsh hle1 hlt1,
          .stored _ _ hmk hwf2 hm2 hsh ?_⟩
        split
        · exact Or.inr rfl
        · exact Or.inl rfl
      · refine ⟨-3, ht1, ?_, .stuck ht1 e hmk hwf1 hm1 hsh hfar hlt1 hhole1 hno⟩
        simp [hopscotchInsert, hlook, hp, hd]
    · refine ⟨-1, ht, ?_, .full hmk hall⟩
      simp [hopscotchInsert, hlook, hp]

end Insert

end Rpma.Hopscotch
