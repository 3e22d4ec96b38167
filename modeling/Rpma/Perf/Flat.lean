import Rpma.Lib.Cartesian
import Rpma.Lib.PyVal

/-!
# Flattening figures and series: `__make_flat` of `flat.py`

A figure or a series may list several values under a key of its descriptor, and stands for one
figure or series per choice of values. `__make_flat` passes over the elements again and again; a
pass replaces every element by its copies for the items of its first list, and an item may be a
list in its turn. The keys under `fstrings` are left alone.

What an element stands for (`variants`) is said by the lists alone: one descriptor for every choice
of a leaf under every key, in lexicographic order.

* `expand_variants`: the copies made of an element stand for what the element stood for, and hold
  fewer lists.
* **`makeFlat_exact`**: the loop ends with exactly the variants of every element, in order
  (`FlatProduct`).
-/

namespace Rpma.Perf

open Rpma.Lib

/-! ## Elements -/

/-- A dict: no key comes twice. -/
structure PyDict extends Dict where
  nodup : keys.Nodup

namespace PyDict

theorem eq_of_toDict : ∀ {d d' : PyDict}, d.toDict = d'.toDict → d = d'
  | ⟨_, _⟩, ⟨_, _⟩, rfl => rfl

/-- `d[k] = v`. -/
def set (d : PyDict) (k : String) (v : PyVal) : PyDict where
  toDict := d.toDict.set k v
  nodup := by
    by_cases hk : k ∈ d.keys
    · rw [Dict.keys_set hk]
      exact d.nodup
    · simp only [Dict.set, hk, if_false, List.nodup_append, d.nodup, List.mem_singleton]
      refine ⟨trivial, by simp, ?_⟩
      rintro a ha b rfl rfl
      exact hk ha

/-- `{**a, **b}`. -/
def merge (a b : PyDict) : PyDict where
  toDict := a.toDict.merge b.toDict
  nodup := List.nodup_append.mpr ⟨a.nodup, b.nodup.filter _, by
    rintro x hx y hy rfl
    exact absurd hx (by simpa using (List.mem_filter.mp hy).2)⟩

variable {d : PyDict} {k k' : String} {v w : PyVal}

theorem set_set : (d.set k v).set k w = d.set k w := eq_of_toDict Dict.set_set

theorem set_self (h : k ∈ d.keys) : d.set k (d.val k) = d := eq_of_toDict (Dict.set_self h)

end PyDict

/-- `get` of `__make_flat`: the core descriptor of an element, how an element with another
descriptor looks, and how an element is prepended with the common part. -/
structure Getter (E : Type) where
  dict : E → PyDict
  get : E → PyDict
  put : E → PyDict → E
  merge : PyDict → E → E
  dict_merge : ∀ common e, dict (merge common e) = common.merge (dict e)
  get_put : ∀ e d, get (put e d) = d
  put_get : ∀ e, put e (get e) = e
  put_put : ∀ e d d', put (put e d) d' = put e d'

/-- A figure: a dict with a dict under `output`. -/
structure FigureDict where
  dict : PyDict
  output : PyDict
  get?_output : dict.get? "output" = some output.toVal

theorem FigureDict.eq_of_eq : ∀ {f f' : FigureDict}, f.dict = f'.dict → f.output = f'.output →
    f = f'
  | ⟨_, _, _⟩, ⟨_, _, _⟩, rfl, rfl => rfl

/-- `__get_series_desc`. -/
def seriesDesc : Getter PyDict where
  dict := id
  get := id
  put _ d := d
  merge := PyDict.merge
  dict_merge _ _ := rfl
  get_put _ _ := rfl
  put_get _ := rfl
  put_put _ _ _ := rfl

/-- `__get_figure_desc`. -/
def figureDesc : Getter FigureDict where
  dict := FigureDict.dict
  get := FigureDict.output
  put f d := ⟨f.dict.set "output" d.toVal, d, by
    show (f.dict.toDict.set "output" d.toVal).get? "output" = _
    rw [Dict.get?_set, if_pos rfl]⟩
  merge common f := ⟨common.merge f.dict, f.output, by
    show (common.toDict.merge f.dict.toDict).get? "output" = _
    rw [Dict.get?_merge, f.get?_output]
    rfl⟩
  dict_merge _ _ := rfl
  get_put _ _ := rfl
  put_get f := by
    have hout := f.get?_output
    unfold Dict.get? at hout
    split at hout
    · rename_i hk
      refine FigureDict.eq_of_eq ?_ rfl
      show f.dict.set "output" f.output.toVal = f.dict
      rw [← Option.some.inj hout]
      exact PyDict.set_self hk
    · cases hout
  put_put _ _ _ := FigureDict.eq_of_eq PyDict.set_set rfl

/-! ## The loop -/

section Loop

variable {E : Type} (g : Getter E)

/-- The loop over the items of `get(elem)`: the copies of `elem` for the items of its first list,
`none` if there is no list. -/
def expand (elem : E) : List String → Option (List E)
  | [] => none
  | k :: ks =>
    -- fstrings are processed separately
    if k = "fstrings" then expand elem ks
    else
      match (g.get elem).val k with
      | .list n item =>
        some ((List.range n).map fun i => g.put elem ((g.get elem).set k (item i)))
      | _ => expand elem ks

/-- One pass over the elements: `output` and `any_flatten`. -/
def flatPass : List E → List E × Bool
  | [] => ([], false)
  | elem :: elems =>
    let (output, anyFlatten) := flatPass elems
    match expand g elem (g.get elem).keys with
    | some copies => (copies ++ output, true)
    | none => (elem :: output, anyFlatten)

/-- `while True`, for `fuel` passes at most; `none` when they do not suffice. -/
def flatLoop : Nat → List E → Option (List E)
  | 0, _ => none
  | fuel + 1, elems =>
    let (output, anyFlatten) := flatPass g elems
    if anyFlatten = true then flatLoop fuel output else some output

/-- `__make_flat(elems, get, common)`. -/
def makeFlat (fuel : Nat) (elems : List E) (common : PyDict) : Option (List E) :=
  flatLoop g fuel (elems.map (g.merge common))

end Loop

/-! ## What an element stands for -/

/-- The values to choose from under a key: the leaves of a list, or the one value. -/
def PyDict.choices (d : PyDict) (k : String) : List PyVal :=
  if k = "fstrings" then [d.val k] else (d.val k).leaves

/-- The descriptor with the values `vs` under the keys `ks`. -/
def PyDict.fill (d : PyDict) : List String → List PyVal → PyDict
  | k :: ks, v :: vs => (d.set k v).fill ks vs
  | _, _ => d

/-- One descriptor for each choice of values, the first key the slowest. -/
def PyDict.variants (d : PyDict) : List PyDict :=
  (cartesian d.choices d.keys).map (d.fill d.keys)

/-- **The list `vs` is the Cartesian product of the descriptor `d`.** -/
structure FlatProduct (d : PyDict) (vs : List PyDict) : Prop where
  /-- One variant for each choice of positions in the lists, in lexicographic order. -/
  ordered : ∃ ps : List (List Nat), ps.Pairwise (List.Lex (· < ·)) ∧
    (∀ p, p ∈ ps ↔ List.Forall₂ (fun i k => i < (d.choices k).length) p d.keys) ∧
    List.Forall₂ (fun p v => v.keys = d.keys ∧
      List.Forall₂ (fun i k => (d.choices k)[i]? = some (v.val k)) p d.keys) ps vs
  /-- So many variants satisfy `p k` under every key as the listed values that do say. -/
  counted : ∀ p : String → PyVal → Bool, vs.countP (fun v => d.keys.all fun k => p k (v.val k)) =
    (d.keys.map fun k => (d.choices k).countP (p k)).prod
  /-- A variant agrees with the descriptor on the keys without a list, and on `fstrings`. -/
  kept : ∀ v ∈ vs, ∀ k w, d.get? k = some w → k = "fstrings" ∨ w.isList = false →
    v.get? k = some w
  /-- It has no list but `fstrings`. -/
  flat : ∀ v ∈ vs, ∀ k w, v.get? k = some w → k ≠ "fstrings" → w.isList = false

section Variants

variable {d : PyDict} {k k' : String} {v : PyVal} {ks : List String}

theorem PyDict.choices_of_not_isList (h : k = "fstrings" ∨ (d.val k).isList = false) :
    d.choices k = [d.val k] := by
  unfold PyDict.choices
  split
  · rfl
  · rename_i hk
    exact PyVal.leaves_of_not_isList (h.resolve_left hk)

theorem PyDict.val_set_of_ne (h : k' ≠ k) : (d.set k v).val k' = d.val k' :=
  Dict.val_set_of_ne h

theorem PyDict.choices_set_of_ne (h : k' ≠ k) : (d.set k v).choices k' = d.choices k' := by
  unfold PyDict.choices
  rw [PyDict.val_set_of_ne h]

theorem PyDict.keys_set (h : k ∈ d.keys) : (d.set k v).keys = d.keys := Dict.keys_set h

theorem PyDict.val_set_self : (d.set k v).val k = v := if_pos rfl

/-- The variants for the keys `ks`. -/
def PyDict.variantsOn (d : PyDict) (ks : List String) : List PyDict :=
  (cartesian d.choices ks).map (d.fill ks)

/-- The first key is chosen first. -/
theorem PyDict.variantsOn_cons (h : k ∉ ks) : d.variantsOn (k :: ks) =
    (d.choices k).flatMap fun v => (d.set k v).variantsOn ks := by
  unfold PyDict.variantsOn
  simp only [cartesian, List.map_flatMap, List.map_map]
  congr 1
  funext v
  have hchoices : ∀ k' ∈ ks, (d.set k v).choices k' = d.choices k' :=
    fun k' hk' => PyDict.choices_set_of_ne fun he => h (he ▸ hk')
  rw [cartesian_congr hchoices]
  rfl

/-- A key without a list leaves no choice. -/
theorem PyDict.variantsOn_cons_flat (h : k ∉ ks) (hk : k ∈ d.keys)
    (hflat : k = "fstrings" ∨ (d.val k).isList = false) :
    d.variantsOn (k :: ks) = d.variantsOn ks := by
  rw [PyDict.variantsOn_cons h, PyDict.choices_of_not_isList hflat]
  simp [PyDict.set_self hk]

/-- A list is chosen from item by item. -/
theorem PyDict.variantsOn_cons_list (h : k ∉ ks) (hk : k ≠ "fstrings") {n : Nat}
    {item : Nat → PyVal} (hval : d.val k = .list n item) : d.variantsOn (k :: ks) =
      (List.range n).flatMap fun i => (d.set k (item i)).variantsOn (k :: ks) := by
  have hitem : ∀ i, (d.set k (item i)).variantsOn (k :: ks) =
      (item i).leaves.flatMap fun v => (d.set k v).variantsOn ks := fun i => by
    rw [PyDict.variantsOn_cons h]
    unfold PyDict.choices
    rw [if_neg hk, PyDict.val_set_self]
    simp only [PyDict.set_set]
  rw [PyDict.variantsOn_cons h]
  unfold PyDict.choices
  rw [if_neg hk, hval, PyVal.leaves, List.flatMap_assoc]
  simp only [hitem]

end Variants

/-- What `fill` writes, and what it leaves. -/
theorem PyDict.fill_spec : ∀ {ks : List String} {vs : List PyVal} {d : PyDict}, ks.Nodup →
    ks ⊆ d.keys → vs.length = ks.length → (d.fill ks vs).keys = d.keys ∧
      List.Forall₂ (fun v k => (d.fill ks vs).val k = v) vs ks ∧
      ∀ k ∉ ks, (d.fill ks vs).val k = d.val k
  | [], [], _, _, _, _ => ⟨rfl, .nil, fun _ _ => rfl⟩
  | k :: ks, v :: vs, d, hnd, hsub, hlen => by
    obtain ⟨hk, hnd⟩ := List.nodup_cons.mp hnd
    obtain ⟨hmem, hsub⟩ := List.cons_subset.mp hsub
    have hkeys : (d.set k v).keys = d.keys := PyDict.keys_set hmem
    have ih : ((d.set k v).fill ks vs).keys = _ ∧ _ :=
      PyDict.fill_spec hnd (hkeys ▸ hsub) (Nat.succ.inj hlen)
    obtain ⟨ih1, ih2, ih3⟩ := ih
    unfold PyDict.fill
    refine ⟨ih1.trans hkeys, .cons ?_ ih2, fun k' hk' => ?_⟩
    · rw [ih3 k hk]
      exact PyDict.val_set_self
    · obtain ⟨hne, hk'⟩ := not_or.mp (mt List.mem_cons.mpr hk')
      rw [ih3 k' hk']
      exact PyDict.val_set_of_ne hne

/-- What is true of the values listed is true of the values under the keys. -/
theorem forall_of_forall₂ {q : PyVal → String → Prop} {val : String → PyVal} :
    ∀ {vs : List PyVal} {ks : List String}, List.Forall₂ q vs ks →
      List.Forall₂ (fun v k => val k = v) vs ks → ∀ k ∈ ks, q (val k) k
  | [], [], _, _, _, hk => by cases hk
  | v :: vs, k :: ks, hq, hval, k', hk' => by
    obtain ⟨hqv, hq⟩ := List.forall₂_cons.mp hq
    obtain ⟨hv, hval⟩ := List.forall₂_cons.mp hval
    rcases List.mem_cons.mp hk' with rfl | hk'
    · exact hv ▸ hqv
    · exact forall_of_forall₂ hq hval k' hk'

/-- A variant has the keys of the descriptor, and under each a value of its choices. -/
theorem PyDict.mem_variants {d v : PyDict} (h : v ∈ d.variants) :
    v.keys = d.keys ∧ ∀ k ∈ d.keys, v.val k ∈ d.choices k := by
  obtain ⟨vs, hvs, rfl⟩ := List.mem_map.mp h
  rw [mem_cartesian] at hvs
  obtain ⟨hkeys, hval, -⟩ := PyDict.fill_spec d.nodup (List.Subset.refl _) hvs.length_eq
  exact ⟨hkeys, forall_of_forall₂ hvs hval⟩

theorem all_of_forall₂ (p : String → PyVal → Bool) {val : String → PyVal} :
    ∀ {vs : List PyVal} {ks : List String}, List.Forall₂ (fun v k => val k = v) vs ks →
      (ks.all fun k => p k (val k)) = (vs.zip ks).all fun vk => p vk.2 vk.1
  | [], [], _ => rfl
  | v :: vs, k :: ks, h => by
    obtain ⟨hv, h⟩ := List.forall₂_cons.mp h
    rw [List.all_cons, List.zip_cons_cons, List.all_cons, all_of_forall₂ p h, hv]

/-- **The variants are the Cartesian product.** -/
theorem flatProduct_variants (d : PyDict) : FlatProduct d d.variants := by
  have hfill : ∀ {vs : List PyVal}, vs.length = d.keys.length →
      (d.fill d.keys vs).keys = d.keys ∧
        List.Forall₂ (fun v k => (d.fill d.keys vs).val k = v) vs d.keys := fun hlen =>
    (PyDict.fill_spec d.nodup (List.Subset.refl _) hlen).imp_right And.left
  constructor
  · -- the choices together with their positions
    let zs := cartesian (fun k => (d.choices k).zipIdx) d.keys
    have hvars : d.variants = zs.map fun z => d.fill d.keys (z.map Prod.fst) := by
      have hfst : zs.map (List.map Prod.fst) = cartesian d.choices d.keys := by
        rw [← cartesian_map]
        simp
      unfold PyDict.variants
      rw [← hfst, List.map_map]
      rfl
    have hpos : cartesian (fun k => List.range (d.choices k).length) d.keys =
        zs.map (List.map Prod.snd) := by
      rw [← cartesian_map]
      simp [List.range_eq_range']
    refine ⟨cartesian (fun k => List.range (d.choices k).length) d.keys,
      pairwise_cartesian fun k _ => List.pairwise_lt_range, fun p => ?_, ?_⟩
    · rw [mem_cartesian]
      simp only [List.mem_range]
    · rw [hpos, hvars, List.forall₂_map_left_iff, List.forall₂_map_right_iff, List.forall₂_same]
      intro z hz
      have hz := mem_cartesian.mp hz
      have hlen : (z.map Prod.fst).length = d.keys.length := by
        rw [List.length_map]
        exact hz.length_eq
      obtain ⟨hkeys, hval⟩ := hfill hlen
      refine ⟨hkeys, ?_⟩
      rw [List.forall₂_map_left_iff] at hval ⊢
      refine List.Forall₂.mp (fun v k hin he => ?_) hz hval
      rw [he]
      exact List.mem_zipIdx_iff_getElem?.mp hin
  · intro p
    unfold PyDict.variants
    rw [List.countP_map, ← countP_cartesian]
    apply List.countP_congr
    intro vs hvs
    rw [Function.comp_apply, all_of_forall₂ p (hfill (mem_cartesian.mp hvs).length_eq).2]
  · intro v hv k w hk hflat
    obtain ⟨hkeys, hval⟩ := PyDict.mem_variants hv
    unfold Dict.get? at hk ⊢
    split at hk
    · rename_i hmem
      have hw := Option.some.inj hk
      have hmem' := hval k hmem
      rw [PyDict.choices_of_not_isList (hw ▸ hflat), List.mem_singleton] at hmem'
      rw [hkeys, if_pos hmem, hmem', hw]
    · cases hk
  · intro v hv k w hk hf
    obtain ⟨hkeys, hval⟩ := PyDict.mem_variants hv
    unfold Dict.get? at hk
    split at hk
    · rename_i hmem
      have hmem' := hval k (hkeys ▸ hmem)
      unfold PyDict.choices at hmem'
      rw [if_neg hf] at hmem'
      rw [← Option.some.inj hk]
      exact PyVal.isList_of_mem_leaves hmem'
    · cases hk

/-! ## One pass -/

/-- How many lists there are under the keys `ks`, `fstrings` apart. -/
def PyDict.rankOn (d : PyDict) (ks : List String) : Nat :=
  (ks.map fun k => if k = "fstrings" then 0 else (d.val k).weight).sum

theorem PyDict.rankOn_cons {d : PyDict} {k : String} {ks : List String} :
    d.rankOn (k :: ks) = (if k = "fstrings" then 0 else (d.val k).weight) + d.rankOn ks := rfl

/-- The descriptors `ds` stand, for the keys `ks`, for what `d` stands for, and hold fewer lists. -/
structure Replace (ds : List PyDict) (d : PyDict) (ks : List String) : Prop where
  keys : ∀ d' ∈ ds, d'.keys = d.keys
  outside : ∀ d' ∈ ds, ∀ k ∉ ks, d'.val k = d.val k
  pos : 0 < d.rankOn ks
  rank : ∀ d' ∈ ds, d'.rankOn ks < d.rankOn ks
  variants : d.variantsOn ks = ds.flatMap fun d' => d'.variantsOn ks

section Replace

variable {d : PyDict} {k : String} {ks : List String}

/-- A key without a list makes no difference. -/
theorem Replace.cons_flat {ds : List PyDict} (h : Replace ds d ks) (hk : k ∉ ks)
    (hmem : k ∈ d.keys) (hflat : k = "fstrings" ∨ (d.val k).isList = false) :
    Replace ds d (k :: ks) where
  keys := h.keys
  outside d' hd' k' hk' := h.outside d' hd' k' fun hin => hk' (List.mem_cons_of_mem k hin)
  pos := Nat.lt_of_lt_of_le h.pos (Nat.le_add_left _ _)
  rank d' hd' := by
    rw [PyDict.rankOn_cons, PyDict.rankOn_cons, h.outside d' hd' k hk]
    exact Nat.add_lt_add_left (h.rank d' hd') _
  variants := by
    rw [PyDict.variantsOn_cons_flat hk hmem hflat, h.variants]
    apply List.flatMap_congr
    intro d' hd'
    refine (PyDict.variantsOn_cons_flat hk ?_ ?_).symm
    · rw [h.keys d' hd']
      exact hmem
    · rw [h.outside d' hd' k hk]
      exact hflat

/-- The items of a list stand for the list. -/
theorem Replace.cons_list (hk : k ∉ ks) (hmem : k ∈ d.keys) (hf : k ≠ "fstrings") {n : Nat}
    {item : Nat → PyVal} (hval : d.val k = .list n item) :
    Replace ((List.range n).map fun i => d.set k (item i)) d (k :: ks) where
  keys := by
    rintro _ hd'
    obtain ⟨i, -, rfl⟩ := List.mem_map.mp hd'
    exact PyDict.keys_set hmem
  outside := by
    rintro _ hd' k' hk'
    obtain ⟨i, -, rfl⟩ := List.mem_map.mp hd'
    exact PyDict.val_set_of_ne fun he => hk' (he ▸ List.mem_cons_self)
  pos := by
    rw [PyDict.rankOn_cons, if_neg hf, hval]
    exact Nat.lt_of_lt_of_le (Nat.lt_add_right _ Nat.one_pos) (Nat.le_add_right _ _)
  rank := by
    rintro _ hd'
    obtain ⟨i, hi, rfl⟩ := List.mem_map.mp hd'
    have hrest : (d.set k (item i)).rankOn ks = d.rankOn ks := by
      unfold PyDict.rankOn
      congr 1
      apply List.map_congr_left
      intro k' hk'
      have hne : k' ≠ k := fun he => hk (he ▸ hk')
      rw [PyDict.val_set_of_ne hne]
    rw [PyDict.rankOn_cons, PyDict.rankOn_cons, if_neg hf, if_neg hf, PyDict.val_set_self, hval,
      hrest]
    exact Nat.add_lt_add_right (PyVal.weight_item_lt (List.mem_range.mp hi)) _
  variants := by
    rw [PyDict.variantsOn_cons_list hk hf hval, List.flatMap_map]

end Replace

theorem isList_eq_false {v : PyVal} (h : ∀ n item, v ≠ .list n item) : v.isList = false := by
  cases v with
  | list n item => exact absurd rfl (h n item)
  | _ => rfl

section Pass

variable {E : Type} {g : Getter E} {elem : E} {ks : List String}

/-- An element that is flat stands for itself, and holds no list. -/
theorem expand_none (hnd : ks.Nodup) (hsub : ks ⊆ (g.get elem).keys)
    (h : expand g elem ks = none) :
    (g.get elem).variantsOn ks = [g.get elem] ∧ (g.get elem).rankOn ks = 0 := by
  induction ks with
  | nil => exact ⟨rfl, rfl⟩
  | cons k ks ih =>
    obtain ⟨hk, hnd⟩ := List.nodup_cons.mp hnd
    obtain ⟨hmem, hsub⟩ := List.cons_subset.mp hsub
    unfold expand at h
    by_cases hf : k = "fstrings"
    · rw [if_pos hf] at h
      rw [PyDict.variantsOn_cons_flat hk hmem (.inl hf), PyDict.rankOn_cons, if_pos hf,
        Nat.zero_add]
      exact ih hnd hsub h
    · rw [if_neg hf] at h
      split at h
      · cases h
      · rename_i hval
        have hflat := isList_eq_false hval
        rw [PyDict.variantsOn_cons_flat hk hmem (.inr hflat), PyDict.rankOn_cons, if_neg hf,
          PyVal.weight_of_not_isList hflat, Nat.zero_add]
        exact ih hnd hsub h

/-- **The copies made of an element stand for what it stood for**, and hold fewer lists. -/
theorem expand_variants (hnd : ks.Nodup) (hsub : ks ⊆ (g.get elem).keys) {copies : List E}
    (h : expand g elem ks = some copies) :
    ∃ ds, copies = ds.map (g.put elem) ∧ Replace ds (g.get elem) ks := by
  induction ks with
  | nil => cases h
  | cons k ks ih =>
    obtain ⟨hk, hnd⟩ := List.nodup_cons.mp hnd
    obtain ⟨hmem, hsub⟩ := List.cons_subset.mp hsub
    unfold expand at h
    by_cases hf : k = "fstrings"
    · rw [if_pos hf] at h
      obtain ⟨ds, hds, hrep⟩ := ih hnd hsub h
      exact ⟨ds, hds, hrep.cons_flat hk hmem (.inl hf)⟩
    · rw [if_neg hf] at h
      split at h
      · rename_i n item hval
        obtain rfl := Option.some.inj h
        exact ⟨_, List.map_map.symm, .cons_list hk hmem hf hval⟩
      · rename_i hval
        obtain ⟨ds, hds, hrep⟩ := ih hnd hsub h
        exact ⟨ds, hds, hrep.cons_flat hk hmem (.inr (isList_eq_false hval))⟩

/-- What an element stands for. -/
def elemVariants (g : Getter E) (elem : E) : List E := (g.get elem).variants.map (g.put elem)

/-- The lists in the descriptor of an element. -/
def flatRank (g : Getter E) (elem : E) : Nat := (g.get elem).rankOn (g.get elem).keys

/-- An element is passed on as it is, and stands for itself, or it is replaced by copies that stand
for what it stood for. -/
theorem expand_elem (g : Getter E) (elem : E) :
    (expand g elem (g.get elem).keys = none ∧ elemVariants g elem = [elem] ∧ flatRank g elem = 0) ∨
      ∃ copies, expand g elem (g.get elem).keys = some copies ∧
        elemVariants g elem = copies.flatMap (elemVariants g) ∧ 0 < flatRank g elem ∧
        ∀ c ∈ copies, flatRank g c < flatRank g elem := by
  cases h : expand g elem (g.get elem).keys with
  | none =>
    obtain ⟨hvar, hrank⟩ := expand_none (g.get elem).nodup (List.Subset.refl _) h
    refine .inl ⟨rfl, ?_, hrank⟩
    unfold elemVariants
    rw [show (g.get elem).variants = [g.get elem] from hvar, List.map_singleton, g.put_get]
  | some copies =>
    obtain ⟨ds, rfl, hrep⟩ := expand_variants (g.get elem).nodup (List.Subset.refl _) h
    refine .inr ⟨_, rfl, ?_, hrep.pos, ?_⟩
    · unfold elemVariants
      rw [show (g.get elem).variants = _ from hrep.variants, List.map_flatMap, List.flatMap_map]
      apply List.flatMap_congr
      intro d hd
      rw [g.get_put, show d.variants = d.variantsOn d.keys from rfl, hrep.keys d hd]
      apply List.map_congr_left
      intro v _
      exact (g.put_put elem d v).symm
    · intro c hc
      obtain ⟨d, hd, rfl⟩ := List.mem_map.mp hc
      unfold flatRank
      rw [g.get_put, hrep.keys d hd]
      exact hrep.rank d hd

/-- **One pass**: the elements stand for what they stood for; if nothing was replaced they are all
flat, and else every element that was left has fewer lists. -/
theorem flatPass_spec (g : Getter E) (elems : List E) :
    (flatPass g elems).1.flatMap (elemVariants g) = elems.flatMap (elemVariants g) ∧
      ((flatPass g elems).2 = false → (flatPass g elems).1 = elems.flatMap (elemVariants g)) ∧
      ∀ n, (∀ e ∈ elems, flatRank g e ≤ n + 1) →
        ∀ e ∈ (flatPass g elems).1, flatRank g e ≤ n := by
  induction elems with
  | nil => exact ⟨rfl, fun _ => rfl, fun _ _ e he => by cases he⟩
  | cons elem elems ih =>
    obtain ⟨hsame, hflat, hrank⟩ := ih
    unfold flatPass
    rcases expand_elem g elem with ⟨hnone, hself, hzero⟩ | ⟨copies, hsome, hvar, -, hless⟩
    · simp only [hnone, List.flatMap_cons, hself]
      refine ⟨by rw [hsame], fun h => ?_, fun n hn e he => ?_⟩
      · rw [hflat h]
        rfl
      · rcases List.mem_cons.mp he with rfl | he
        · omega
        · exact hrank n (fun e he => hn e (List.mem_cons_of_mem elem he)) e he
    · simp only [hsome, List.flatMap_cons, List.flatMap_append, hsame, hvar]
      refine ⟨trivial, nofun, fun n hn e he => ?_⟩
      rcases List.mem_append.mp he with he | he
      · have := hn elem List.mem_cons_self
        have := hless e he
        omega
      · exact hrank n (fun e he => hn e (List.mem_cons_of_mem elem he)) e he

/-- Elements without a list are passed on as they are. -/
theorem flatPass_of_rank_zero (g : Getter E) {elems : List E}
    (h : ∀ e ∈ elems, flatRank g e = 0) : (flatPass g elems).2 = false := by
  induction elems with
  | nil => rfl
  | cons elem elems ih =>
    unfold flatPass
    rcases expand_elem g elem with ⟨hnone, -, -⟩ | ⟨copies, -, -, hpos, -⟩
    · simp only [hnone, ih fun e he => h e (List.mem_cons_of_mem elem he)]
    · exact absurd (h elem List.mem_cons_self) (Nat.ne_of_gt hpos)

end Pass

/-! ## All passes -/

/-- The loop ends, after one pass more than there are lists in an element at most. -/
theorem flatLoop_eq {E : Type} (g : Getter E) {n fuel : Nat} {elems : List E} (hfuel : n < fuel)
    (hrank : ∀ e ∈ elems, flatRank g e ≤ n) :
    flatLoop g fuel elems = some (elems.flatMap (elemVariants g)) := by
  induction fuel generalizing n elems with
  | zero => exact absurd hfuel (Nat.not_lt_zero _)
  | succ fuel ih =>
    obtain ⟨hsame, hflat, hless⟩ := flatPass_spec g elems
    unfold flatLoop
    cases hany : (flatPass g elems).2 with
    | false => simp only [hany, Bool.false_eq_true, if_false, hflat hany]
    | true =>
      simp only [hany, if_true]
      cases n with
      | zero =>
        rw [flatPass_of_rank_zero g fun e he => Nat.le_zero.mp (hrank e he)] at hany
        cases hany
      | succ n => rw [ih (Nat.lt_of_succ_lt_succ hfuel) (hless n hrank), hsame]

/-- **`__make_flat` ends, with exactly the variants of every element**, in order: one variant for
each choice of values in the lists of its descriptor, `fstrings` apart. -/
theorem makeFlat_exact {E : Type} (g : Getter E) (elems : List E) (common : PyDict) :
    (∃ n, ∀ fuel, n < fuel → makeFlat g fuel elems common = some (elems.flatMap fun e =>
      (g.get (g.merge common e)).variants.map (g.put (g.merge common e)))) ∧
    ∀ e ∈ elems, FlatProduct (g.get (g.merge common e)) (g.get (g.merge common e)).variants := by
  constructor
  · let merged := elems.map (g.merge common)
    refine ⟨(merged.map (flatRank g)).sum, fun fuel hfuel => ?_⟩
    have hrank : ∀ e ∈ merged, flatRank g e ≤ (merged.map (flatRank g)).sum := fun e he =>
      List.le_sum_of_mem (List.mem_map_of_mem he)
    unfold makeFlat
    rw [flatLoop_eq g hfuel hrank, List.flatMap_map]
    rfl
  · exact fun e _ => flatProduct_variants _

/-- `{"threads": [1, [2, 3]], "bs": ["256", "4096"]}` and `{"bs": []}` with `{"threads": 4}`: six
series and none. -/
example : (makeFlat seriesDesc 4
    [⟨.ofList [("threads", .list 2 fun i => if i = 0 then .int 1 else
      .list 2 fun j => .int (j + 2)),
      ("bs", .list 2 fun i => .str (if i = 0 then "256" else "4096"))], by decide⟩,
      ⟨.ofList [("bs", .list 0 fun _ => .none)], by decide⟩]
    ⟨.ofList [("threads", .int 4)], by decide⟩).map (List.map fun d =>
      ((d.val "threads").scalar, (d.val "bs").scalar)) =
    some [(some (.num 1), some (.str "256")), (some (.num 1), some (.str "4096")),
      (some (.num 2), some (.str "256")), (some (.num 2), some (.str "4096")),
      (some (.num 3), some (.str "256")), (some (.num 3), some (.str "4096"))] := by
  decide +kernel

end Rpma.Perf
