import Mathlib.Algebra.Field.Rat
import Mathlib.Algebra.Order.BigOperators.Group.List
import Mathlib.Algebra.Order.Group.Nat

/-!
# Python values of a JSON file

What `json.load` gives and `==` compares: `None`, booleans, integers, finite floats, strings,
lists and dicts with string keys. JSON has no NaN, so `==` is an equivalence here (`EquivBEq`); it
is not the identity: `True == 1 == 1.0`, and a dict has no order.

* `Dict`: a dict with its keys in insertion order, with `get?`, `getD`, `set` and `pop`.
-/

namespace Rpma.Lib

/-- A value. A list is a family of `len` items; a dict is a family over its keys. -/
inductive PyVal where
  | none
  | bool (b : Bool)
  | int (n : Int)
  | float (q : ℚ)
  | str (s : String)
  | list (len : Nat) (item : Nat → PyVal)
  | dict (keys : List String) (val : String → PyVal)

namespace PyVal

/-- What `==` compares of a value that is no container. -/
inductive Scalar where
  | none
  | num (q : ℚ)
  | str (s : String)
  deriving DecidableEq

def scalar : PyVal → Option Scalar
  | .none => some .none
  | .bool b => some (.num (if b then 1 else 0))
  | .int n => some (.num n)
  | .float q => some (.num q)
  | .str s => some (.str s)
  | .list _ _ => Option.none
  | .dict _ _ => Option.none

/-- `x == y`. -/
def eq : PyVal → PyVal → Bool
  | .list m f, y =>
    match y with
    | .list n g => m == n && (List.range m).all fun i => (f i).eq (g i)
    | _ => false
  | .dict ks f, y =>
    match y with
    | .dict ls g => ks.all (· ∈ ls) && ls.all (· ∈ ks) && ks.all fun k => (f k).eq (g k)
    | _ => false
  | x, y => x.scalar.isSome && x.scalar == y.scalar

instance : BEq PyVal := ⟨eq⟩

theorem beq_eq (x y : PyVal) : (x == y) = x.eq y := rfl

theorem eq_scalar {x : PyVal} (h : x.scalar.isSome) (y : PyVal) :
    (x == y) = true ↔ x.scalar = y.scalar := by
  cases x <;> simp [beq_eq, eq, scalar] at h ⊢

theorem eq_list_iff {m : Nat} {f : Nat → PyVal} {y : PyVal} :
    (PyVal.list m f == y) = true ↔ ∃ g, y = .list m g ∧ ∀ i < m, (f i == g i) = true := by
  cases y with
  | list n g =>
    rw [beq_eq, eq, Bool.and_eq_true, beq_iff_eq, List.all_eq_true]
    constructor
    · rintro ⟨rfl, h⟩
      exact ⟨g, rfl, fun i hi => h i (List.mem_range.mpr hi)⟩
    · rintro ⟨g', he, h⟩
      obtain ⟨rfl, rfl⟩ := PyVal.list.inj he
      exact ⟨rfl, fun i hi => h i (List.mem_range.mp hi)⟩
  | _ => simp [beq_eq, eq]

theorem eq_dict {ks : List String} {f : String → PyVal} {y : PyVal} :
    (PyVal.dict ks f == y) = true ↔ ∃ ls g, y = .dict ls g ∧ (∀ k, k ∈ ks ↔ k ∈ ls) ∧
      ∀ k ∈ ks, (f k == g k) = true := by
  cases y with
  | dict ls g =>
    simp only [beq_eq, eq, Bool.and_eq_true, List.all_eq_true, decide_eq_true_eq]
    constructor
    · rintro ⟨⟨h1, h2⟩, h⟩
      exact ⟨ls, g, rfl, fun k => ⟨h1 k, h2 k⟩, h⟩
    · rintro ⟨ls', g', he, hk, h⟩
      obtain ⟨rfl, rfl⟩ := PyVal.dict.inj he
      exact ⟨⟨fun k hx => (hk k).mp hx, fun k hx => (hk k).mpr hx⟩, h⟩
  | _ => simp [beq_eq, eq]

theorem eq_refl (x : PyVal) : (x == x) = true := by
  induction x with
  | list m f ih => exact eq_list_iff.mpr ⟨f, rfl, fun i _ => ih i⟩
  | dict ks f ih => exact eq_dict.mpr ⟨ks, f, rfl, fun _ => Iff.rfl, fun k _ => ih k⟩
  | _ => exact (eq_scalar rfl _).mpr rfl

theorem eq_symm {x y : PyVal} (h : (x == y) = true) : (y == x) = true := by
  induction x generalizing y with
  | list m f ih =>
    obtain ⟨g, rfl, hg⟩ := eq_list_iff.mp h
    exact eq_list_iff.mpr ⟨f, rfl, fun i hi => ih i (hg i hi)⟩
  | dict ks f ih =>
    obtain ⟨ls, g, rfl, hk, hg⟩ := eq_dict.mp h
    exact eq_dict.mpr ⟨ks, f, rfl, fun k => (hk k).symm, fun k hl => ih k (hg k ((hk k).mpr hl))⟩
  | _ =>
    have hs := (eq_scalar rfl _).mp h
    exact (eq_scalar (by rw [← hs]; rfl) _).mpr hs.symm

theorem eq_trans {x y z : PyVal} (h : (x == y) = true) (h' : (y == z) = true) :
    (x == z) = true := by
  induction x generalizing y z with
  | list m f ih =>
    obtain ⟨g, rfl, hg⟩ := eq_list_iff.mp h
    obtain ⟨g', rfl, hg'⟩ := eq_list_iff.mp h'
    exact eq_list_iff.mpr ⟨g', rfl, fun i hi => ih i (hg i hi) (hg' i hi)⟩
  | dict ks f ih =>
    obtain ⟨ls, g, rfl, hk, hg⟩ := eq_dict.mp h
    obtain ⟨ls', g', rfl, hk', hg'⟩ := eq_dict.mp h'
    exact eq_dict.mpr ⟨ls', g', rfl, fun k => (hk k).trans (hk' k),
      fun k hkk => ih k (hg k hkk) (hg' k ((hk k).mp hkk))⟩
  | _ =>
    have hs := (eq_scalar rfl _).mp h
    have hs' := (eq_scalar (by rw [← hs]; rfl) _).mp h'
    exact (eq_scalar rfl _).mpr (hs.trans hs')

/-- Is the value a dict? -/
def isDict : PyVal → Bool
  | .dict _ _ => true
  | _ => false

theorem isDict_congr {x y : PyVal} (h : (x == y) = true) : x.isDict = y.isDict := by
  cases x with
  | dict ks f =>
    obtain ⟨ls, g, rfl, -⟩ := eq_dict.mp h
    rfl
  | list m f =>
    obtain ⟨g, rfl, -⟩ := eq_list_iff.mp h
    rfl
  | _ =>
    have hs := (eq_scalar rfl y).mp h
    cases y <;> simp [scalar] at hs <;> rfl

/-- `bool(x)`. -/
def truthy : PyVal → Bool
  | .none => false
  | .bool b => b
  | .int n => n ≠ 0
  | .float q => q ≠ 0
  | .str s => s ≠ ""
  | .list n _ => n ≠ 0
  | .dict ks _ => ks ≠ []

/-! ### Lists in lists -/

/-- `isinstance(x, list)`. -/
def isList : PyVal → Bool
  | .list _ _ => true
  | _ => false

/-- The values of a list that are no lists, those of the lists in it in their places. -/
def leaves : PyVal → List PyVal
  | .list n item => (List.range n).flatMap fun i => (item i).leaves
  | v => [v]

/-- How many lists there are in a value. -/
def weight : PyVal → Nat
  | .list n item => 1 + ((List.range n).map fun i => (item i).weight).sum
  | _ => 0

theorem leaves_of_not_isList {v : PyVal} (h : v.isList = false) : v.leaves = [v] := by
  cases v with
  | list n item => cases h
  | _ => rfl

theorem weight_of_not_isList {v : PyVal} (h : v.isList = false) : v.weight = 0 := by
  cases v with
  | list n item => cases h
  | _ => rfl

theorem isList_of_mem_leaves {v w : PyVal} (h : w ∈ v.leaves) : w.isList = false := by
  induction v with
  | list n item ih =>
    obtain ⟨i, -, hi⟩ := List.mem_flatMap.mp h
    exact ih i hi
  | _ => rw [List.mem_singleton.mp h]; rfl

theorem weight_item_lt {n i : Nat} {item : Nat → PyVal} (h : i < n) :
    (item i).weight < (PyVal.list n item).weight := by
  have hle := List.le_sum_of_mem (List.mem_map_of_mem (f := fun i => (item i).weight)
    (List.mem_range.mpr h))
  have hw : (PyVal.list n item).weight =
      1 + ((List.range n).map fun i => (item i).weight).sum := rfl
  omega

/-- `==` is an equivalence. -/
instance : EquivBEq PyVal where
  rfl := eq_refl _
  symm := eq_symm
  trans := eq_trans

end PyVal

/-! ## Dicts -/

/-- A dict: its keys in insertion order and the values under them. -/
structure Dict where
  keys : List String
  val : String → PyVal

namespace Dict

/-- `{}`. -/
def empty : Dict := ⟨[], fun _ => .none⟩

/-- The dict of a list of items whose keys differ. -/
def ofList (l : List (String × PyVal)) : Dict := ⟨l.map Prod.fst, fun k => (l.lookup k).getD .none⟩

/-- The dict as a value. -/
def toVal (d : Dict) : PyVal := .dict d.keys d.val

/-- `d[k]`, `none` for a missing key. -/
def get? (d : Dict) (k : String) : Option PyVal := if k ∈ d.keys then some (d.val k) else none

/-- `d.get(k, dflt)`. -/
def getD (d : Dict) (k : String) (dflt : PyVal) : PyVal := (d.get? k).getD dflt

/-- `d[k] = v`. -/
def set (d : Dict) (k : String) (v : PyVal) : Dict :=
  ⟨if k ∈ d.keys then d.keys else d.keys ++ [k], fun k' => if k' = k then v else d.val k'⟩

/-- `d.pop(k, _)`, without the value. -/
def pop (d : Dict) (k : String) : Dict := ⟨d.keys.filter (· ≠ k), d.val⟩

variable {d : Dict} {k k' : String} {v : PyVal}

@[simp] theorem get?_empty : empty.get? k = none := rfl

theorem get?_eq_none : d.get? k = none ↔ k ∉ d.keys := by
  unfold get?
  split <;> simp_all

@[simp] theorem get?_set : (d.set k v).get? k' = if k' = k then some v else d.get? k' := by
  by_cases hk : k' = k
  · subst hk
    by_cases hm : k' ∈ d.keys <;> simp [get?, set, hm]
  · by_cases hm : k ∈ d.keys <;> simp [get?, set, hm, hk]

/-- The last value stays. -/
theorem set_set {w : PyVal} : (d.set k v).set k w = d.set k w := by
  have hk : k ∈ (d.set k v).keys := by
    by_cases hm : k ∈ d.keys <;> simp [set, hm]
  have hval : (fun k' => if k' = k then w else (d.set k v).val k') = (d.set k w).val := by
    funext k'
    by_cases hk' : k' = k <;> simp [set, hk']
  calc (d.set k v).set k w
      = ⟨(d.set k v).keys, fun k' => if k' = k then w else (d.set k v).val k'⟩ := by
        rw [set, if_pos hk]
    _ = d.set k w := by rw [hval]; rfl

/-- Setting a key to its value changes nothing. -/
theorem set_self (h : k ∈ d.keys) : d.set k (d.val k) = d := by
  have hval : (fun k' => if k' = k then d.val k else d.val k') = d.val := by
    funext k'
    split
    · rename_i hk
      rw [hk]
    · rfl
  unfold set
  rw [if_pos h, hval]

theorem keys_set (h : k ∈ d.keys) : (d.set k v).keys = d.keys := if_pos h

theorem val_set_of_ne (h : k' ≠ k) : (d.set k v).val k' = d.val k' := if_neg h

/-- `{**a, **b}`. -/
def merge (a b : Dict) : Dict :=
  ⟨a.keys ++ b.keys.filter (· ∉ a.keys), fun k => if k ∈ b.keys then b.val k else a.val k⟩

/-- The keys of `b` win. -/
theorem get?_merge {a b : Dict} : (a.merge b).get? k = (b.get? k).or (a.get? k) := by
  by_cases hb : k ∈ b.keys
  · by_cases ha : k ∈ a.keys <;> simp [get?, merge, ha, hb]
  · by_cases ha : k ∈ a.keys <;> simp [get?, merge, ha, hb]

@[simp] theorem get?_pop : (d.pop k).get? k' = if k' = k then none else d.get? k' := by
  by_cases hk : k' = k <;> simp [get?, pop, hk]

theorem getD_eq_default {dflt : PyVal} (h : k ∉ d.keys) : d.getD k dflt = dflt := by
  rw [getD, get?_eq_none.mpr h, Option.getD_none]

/-- A comparison over the keys of two dicts, with `None` for a missing key, is one over all
strings. -/
theorem all_keys_iff {a b : Dict} (skip : String → Bool) :
    ((a.keys ++ b.keys).all fun k => skip k || a.getD k .none == b.getD k .none) = true ↔
      ∀ k, skip k = false → (a.getD k .none == b.getD k .none) = true := by
  rw [List.all_eq_true]
  constructor
  · intro h k hk
    by_cases hm : k ∈ a.keys ++ b.keys
    · simpa [hk] using h k hm
    · rw [List.mem_append, not_or] at hm
      rw [getD_eq_default hm.1, getD_eq_default hm.2]
      exact BEq.rfl
  · intro h k _
    cases hk : skip k with
    | true => rfl
    | false => exact h k hk

end Dict

end Rpma.Lib
