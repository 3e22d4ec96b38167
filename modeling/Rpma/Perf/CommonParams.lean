import Mathlib.Data.List.Perm.Basic
import Rpma.Perf.Plan

/-!
# The common parameters of a figure: `Figure.collect_results`

A figure collects the rows of its series. What all rows have in common under `threads`, `iodepth`
and `bs` goes into its title: `__get_common_params_from_rows` starts from the first row of the
first series that is not skipped, and drops, row by row and series by series, every key under which
a row has another value. A missing entry counts as the default of its key.

An exception is `none`: a `KeyError` or a `TypeError`. Values are compared with `==` of Python.

* `getCommonParamsFromRows_append`: series after series is row after row.
* **`commonParams_exact`**: what is kept is exactly what every row has (`CommonTo`), in whatever
  order the series and their rows come.
-/

namespace Rpma.Perf

open Rpma.Lib

/-! ## Rows -/

/-- The JSON file of a benchmark: a list of dicts or a list of lists of two dicts. -/
inductive ResultRows where
  | dicts (rows : List Dict)
  | pairs (rows : List (Dict × Dict))

/-- `not rows`. -/
def ResultRows.isEmpty : ResultRows → Bool
  | .dicts rows => rows.isEmpty
  | .pairs rows => rows.isEmpty

/-- The rows of the direction `rw_dir` of a series. -/
def ResultRows.select (s : Dict) : ResultRows → Option (List Dict)
  | .dicts rows => some rows
  | .pairs rows => do
    let rwDir ← s.get? "rw_dir"
    return if rwDir == .str "read" then rows.map Prod.fst else rows.map Prod.snd

/-- `v in row.keys()`; a list or a dict is not hashable. -/
def isColumn (v : PyVal) (row : Dict) : Option Bool :=
  match v with
  | .str k => some (decide (k ∈ row.keys))
  | .list _ _ | .dict _ _ => none
  | _ => some false

/-- `row[v]`. -/
def column (v : PyVal) (row : Dict) : Option PyVal :=
  match v with
  | .str k => row.get? k
  | _ => none

/-! ## Common parameters -/

/-- The keys of `__COMMON_PARAMS`. -/
def commonKeys : List String := ["threads", "iodepth", "bs"]

/-- `__COMMON_PARAMS[key]['default']`. -/
def commonDefault (key : String) : PyVal := if key = "bs" then .none else .int 1

/-- `row.get(key, default)`. -/
def paramOf (row : Dict) (key : String) : PyVal := row.getD key (commonDefault key)

/-- The parameters under which a row has the same value. -/
def narrow (params row : Dict) : Dict :=
  ⟨params.keys.filter fun key => params.val key == paramOf row key, params.val⟩

/-- `__get_common_params_from_rows`; the rows are not empty. -/
def getCommonParamsFromRows (params : Option Dict) (rows : List Dict) : Option Dict :=
  match params with
  | some params => some (rows.foldl narrow params)
  | none => rows.head?.map fun row => rows.foldl narrow ⟨commonKeys, paramOf row⟩

/-! ## `collect_results` -/

/-- A label and its points. -/
structure Curve where
  label : PyVal
  points : List (PyVal × PyVal)

/-- `output` of `collect_results`. -/
structure FigureOutput where
  title : PyVal
  x : PyVal
  y : PyVal
  commonParams : Dict
  series : List Curve

section Collect

variable (argx argy : PyVal) (results : PyVal → Option ResultRows)

/-- `[row[self.argx], row[self.argy]]`. -/
def point (row : Dict) : Option (PyVal × PyVal) := do
  let x ← column argx row
  let y ← column argy row
  return (x, y)

/-- The rows of a series, not empty: these rows and their curve, or `none` for a series that is
skipped. -/
def readRows (s : Dict) (rows : List Dict) : Option (Option (List Dict × Curve)) := do
  let row ← rows.head?
  -- SKIP_NO_AXIS_MSG
  if (← isColumn argx row) = false then return none
  else if (← isColumn argy row) = false then return none
  else
    let points ← rows.mapM (point argx argy)
    let label ← s.get? "label"
    return some (rows, ⟨label, points⟩)

/-- One series; `results` are the files of the benchmarks by their identifiers. -/
def readSeries (s : Dict) : Option (Option (List Dict × Curve)) := do
  let id ← s.get? "id"
  match results id with
  -- SKIP_NO_FILE_MSG
  | none => return none
  | some rows =>
    -- SKIP_NO_ROWS_MSG
    if rows.isEmpty then return none
    else readRows argx argy s (← rows.select s)

/-- The loop over the series, with `common`. -/
def collectSeries : List Dict → Option Dict → Option (Option Dict × List Curve)
  | [], common => some (common, [])
  | s :: ss, common => do
    match ← readSeries argx argy results s with
    | none => collectSeries ss common
    | some (rows, curve) =>
      let (common, curves) ← collectSeries ss (getCommonParamsFromRows common rows)
      return (common, curve :: curves)

end Collect

/-- `Figure.collect_results`, up to the file it writes. -/
def Figure.collectResults (f : Figure) (results : PyVal → Option ResultRows) :
    Option FigureOutput := do
  let title ← f.output.get? "title"
  let x ← f.output.get? "x"
  let y ← f.output.get? "y"
  let (common, curves) ← collectSeries x y results f.series none
  return ⟨title, x, y, common.getD .empty, curves⟩

/-! ## What is common -/

/-- **The parameters `params` are those that all the rows have in common.** -/
structure CommonTo (rows : List Dict) (params : Dict) : Prop where
  keys : ∀ key ∈ params.keys, key ∈ commonKeys
  exact : rows ≠ [] → ∀ key ∈ commonKeys, ∀ v,
    (∃ w, params.get? key = some w ∧ (w == v) = true) ↔ ∀ row ∈ rows, (paramOf row key == v) = true
  empty : rows = [] → params.keys = []

theorem foldl_narrow (rows : List Dict) : ∀ params : Dict, rows.foldl narrow params =
    ⟨params.keys.filter fun key => rows.all fun row => params.val key == paramOf row key,
      params.val⟩ := by
  induction rows with
  | nil => exact fun params => by simp
  | cons row rows ih =>
    intro params
    rw [List.foldl_cons, ih]
    simp only [narrow, List.filter_filter, List.all_cons]
    congr 2
    funext key
    exact Bool.and_comm _ _

/-- **Series after series is row after row.** -/
theorem getCommonParamsFromRows_append (params : Option Dict) (rows rows' : List Dict) :
    getCommonParamsFromRows (getCommonParamsFromRows params rows) rows' =
      getCommonParamsFromRows params (rows ++ rows') := by
  unfold getCommonParamsFromRows
  cases params with
  | some params => simp
  | none => cases rows <;> simp

/-- From the rows alone comes what they have in common. -/
theorem commonTo_rows (rows : List Dict) :
    CommonTo rows ((getCommonParamsFromRows none rows).getD .empty) := by
  unfold getCommonParamsFromRows
  cases rows with
  | nil => exact ⟨by simp [Dict.empty], fun h => absurd rfl h, fun _ => rfl⟩
  | cons row rows =>
    simp only [List.head?_cons, Option.map_some, Option.getD_some, foldl_narrow]
    refine ⟨fun key hkey => (List.mem_filter.mp hkey).1, fun _ key hkey v => ?_, nofun⟩
    unfold Dict.get?
    simp only [List.mem_filter, List.all_eq_true, hkey, true_and]
    constructor
    · rintro ⟨w, hw, hv⟩
      split at hw
      · rename_i hall
        obtain rfl := Option.some.inj hw
        exact fun row' hrow' => PyVal.eq_trans (PyVal.eq_symm (hall row' hrow')) hv
      · cases hw
    · intro hall
      have hfirst := hall row List.mem_cons_self
      refine ⟨_, if_pos fun row' hrow' => ?_, hfirst⟩
      exact PyVal.eq_trans hfirst (PyVal.eq_symm (hall row' hrow'))

/-- A parameter that rows have in common is one in any order of theirs. -/
theorem CommonTo.mem_of_mem {rows rows' : List Dict} {params params' : Dict} {key : String}
    (h : CommonTo rows params) (h' : CommonTo rows' params') (hperm : rows.Perm rows')
    (hkey : key ∈ params.keys) :
    key ∈ params'.keys ∧ (params.val key == params'.val key) = true := by
  have hne : rows ≠ [] := by
    intro hnil
    rw [h.empty hnil] at hkey
    cases hkey
  have hne' : rows' ≠ [] := fun hnil => hne (hnil ▸ hperm).eq_nil
  have hcommon := h.keys key hkey
  have hall := (h.exact hne key hcommon (params.val key)).mp ⟨_, if_pos hkey, PyVal.eq_refl _⟩
  obtain ⟨w, hw, heq⟩ := (h'.exact hne' key hcommon (params.val key)).mpr fun row hrow =>
    hall row (hperm.mem_iff.mpr hrow)
  unfold Dict.get? at hw
  split at hw
  · rename_i hmem
    obtain rfl := Option.some.inj hw
    exact ⟨hmem, PyVal.eq_symm heq⟩
  · cases hw

/-- What rows have in common does not depend on their order. -/
theorem CommonTo.eq_of_perm {rows rows' : List Dict} {params params' : Dict}
    (h : CommonTo rows params) (h' : CommonTo rows' params') (hperm : rows.Perm rows') :
    (params.toVal == params'.toVal) = true :=
  PyVal.eq_dict.mpr ⟨_, _, rfl,
    fun _ => ⟨fun hk => (h.mem_of_mem h' hperm hk).1, fun hk => (h'.mem_of_mem h hperm.symm hk).1⟩,
    fun _ hk => (h.mem_of_mem h' hperm hk).2⟩

/-! ## The loop over the series -/

section Collect

variable {argx argy : PyVal} {results results' : PyVal → Option ResultRows}

/-- The rows that a reading contributes: none if the series is skipped. -/
def rowsOf : Option (Option (List Dict × Curve)) → List Dict
  | some (some (rows, _)) => rows
  | _ => []

/-- The rows that a series contributes. -/
def contributed (argx argy : PyVal) (results : PyVal → Option ResultRows) (s : Dict) : List Dict :=
  rowsOf (readSeries argx argy results s)

variable (argx argy results) in
/-- The loop goes through if every series can be read, and is then a pass over the rows they
contribute. -/
theorem collectSeries_iff (ss : List Dict) (common common' : Option Dict) :
    (∃ curves, collectSeries argx argy results ss common = some (common', curves)) ↔
      (∀ s ∈ ss, readSeries argx argy results s ≠ none) ∧
        common' = getCommonParamsFromRows common (ss.flatMap (contributed argx argy results)) := by
  induction ss generalizing common with
  | nil =>
    have hid : getCommonParamsFromRows common [] = common := by cases common <;> rfl
    simp [collectSeries, hid, eq_comm]
  | cons s ss ih =>
    unfold collectSeries
    cases hs : readSeries argx argy results s with
    | none => simp [hs]
    | some r =>
      cases r with
      | none =>
        have hnil : contributed argx argy results s = [] := by simp [contributed, rowsOf, hs]
        simp [hs, hnil, ih common]
      | some c =>
        obtain ⟨rows, curve⟩ := c
        have hrows : contributed argx argy results s = rows := by simp [contributed, rowsOf, hs]
        have hrest := ih (getCommonParamsFromRows common rows)
        rw [getCommonParamsFromRows_append] at hrest
        simp only [List.forall_mem_cons, hs, ne_eq, reduceCtorEq, not_false_eq_true, true_and,
          List.flatMap_cons, hrows, ← hrest]
        constructor
        · rintro ⟨curves, h⟩
          replace h : ((collectSeries argx argy results ss
              (getCommonParamsFromRows common rows)).bind fun r => some (r.1, curve :: r.2)) =
            some (common', curves) := h
          obtain ⟨⟨common1, curves1⟩, hss, hout⟩ := Option.bind_eq_some_iff.mp h
          obtain ⟨rfl, -⟩ := Prod.mk.inj (Option.some.inj hout)
          exact ⟨curves1, hss⟩
        · rintro ⟨curves, hrest⟩
          exact ⟨curve :: curves, by simp [hrest]⟩

/-! ## Other orders -/

/-- The rows of a file have the same columns. -/
def ResultRows.SameColumns : ResultRows → Prop
  | .dicts rows => ∀ row ∈ rows, ∀ row' ∈ rows, ∀ k, k ∈ row.keys ↔ k ∈ row'.keys
  | .pairs rows => ∀ row ∈ rows, ∀ row' ∈ rows, ∀ k,
    (k ∈ row.1.keys ↔ k ∈ row'.1.keys) ∧ (k ∈ row.2.keys ↔ k ∈ row'.2.keys)

/-- The same rows in another order. -/
inductive ResultRows.Reordered : ResultRows → ResultRows → Prop
  | dicts {rows rows' : List Dict} (h : rows.Perm rows') : Reordered (.dicts rows) (.dicts rows')
  | pairs {rows rows' : List (Dict × Dict)} (h : rows.Perm rows') :
    Reordered (.pairs rows) (.pairs rows')

section Reordered

variable {s : Dict}

theorem isSome_mapM {α β : Type} {f : α → Option β} {l : List α} :
    (l.mapM f).isSome = true ↔ ∀ a ∈ l, (f a).isSome = true := by
  induction l with
  | nil => simp
  | cons a l ih =>
    rw [List.mapM_cons, List.forall_mem_cons, ← ih]
    cases f a with
    | none => simp
    | some b => cases l.mapM f <;> simp

theorem isColumn_congr (v : PyVal) {row row' : Dict} (h : ∀ k, k ∈ row.keys ↔ k ∈ row'.keys) :
    isColumn v row = isColumn v row' := by
  cases v <;> simp [isColumn, h]

/-- If the one reading goes through, the other does, and gives the same rows. -/
def ReadsAs (r r' : Option (Option (List Dict × Curve))) : Prop :=
  r ≠ none → r' ≠ none ∧ (rowsOf r).Perm (rowsOf r')

theorem ReadsAs.refl (r : Option (Option (List Dict × Curve))) : ReadsAs r r :=
  fun h => ⟨h, .refl _⟩

theorem readsAs_none (r : Option (Option (List Dict × Curve))) : ReadsAs none r :=
  fun h => absurd rfl h

theorem ReadsAs.bind {α : Type} {m : Option α} {k k' : α → Option (Option (List Dict × Curve))}
    (h : ∀ a, m = some a → ReadsAs (k a) (k' a)) : ReadsAs (m >>= k) (m >>= k') := by
  cases m with
  | none => exact readsAs_none _
  | some a => exact h a rfl

theorem ReadsAs.ite {p : Prop} [Decidable p] {r r' skip : Option (Option (List Dict × Curve))}
    (h : ¬ p → ReadsAs r r') : ReadsAs (if p then skip else r) (if p then skip else r') := by
  by_cases hp : p
  · rw [if_pos hp, if_pos hp]
    exact .refl skip
  · rw [if_neg hp, if_neg hp]
    exact h hp

/-- Rows with the same columns are read in any order. -/
theorem readRows_perm {rows rows' : List Dict} (hperm : rows.Perm rows')
    (hcols : ∀ row ∈ rows, ∀ row' ∈ rows, ∀ k, k ∈ row.keys ↔ k ∈ row'.keys) :
    ReadsAs (readRows argx argy s rows) (readRows argx argy s rows') := by
  cases rows with
  | nil => exact readsAs_none _
  | cons row rest =>
    cases rows' with
    | nil => exact absurd hperm.length_eq (by simp)
    | cons row' rest' =>
      have hmem : row' ∈ row :: rest := hperm.mem_iff.mpr List.mem_cons_self
      have hcol : ∀ v, isColumn v row' = isColumn v row := fun v =>
        isColumn_congr v (hcols row' hmem row List.mem_cons_self)
      unfold readRows
      simp only [List.head?_cons, Option.bind_eq_bind, Option.bind_some, hcol]
      refine .bind fun onX _ => .ite fun _ => .bind fun onY _ => .ite fun _ => ?_
      cases hp : (row :: rest).mapM (point argx argy) with
      | none => exact readsAs_none _
      | some points =>
        have hsome : ((row :: rest).mapM (point argx argy)).isSome = true := by simp [hp]
        have hall := isSome_mapM.mp hsome
        obtain ⟨points', hp'⟩ := Option.isSome_iff_exists.mp
          (isSome_mapM.mpr fun r hr => hall r (hperm.mem_iff.mpr hr))
        simp only [hp', Option.bind_some]
        exact .bind fun label _ _ => ⟨nofun, hperm⟩

/-- The rows that a series selects, in another order of its file. -/
theorem select_perm {rows rows' : ResultRows} {l : List Dict} (h : rows.Reordered rows')
    (hcols : rows.SameColumns) (hl : rows.select s = some l) :
    (∃ l', rows'.select s = some l' ∧ l.Perm l') ∧
      ∀ row ∈ l, ∀ row' ∈ l, ∀ k, k ∈ row.keys ↔ k ∈ row'.keys := by
  cases h with
  | dicts hperm =>
    obtain rfl := Option.some.inj hl
    exact ⟨⟨_, rfl, hperm⟩, hcols⟩
  | pairs hperm =>
    obtain ⟨rwDir, hdir, hl⟩ := Option.bind_eq_some_iff.mp hl
    unfold ResultRows.select
    simp only [hdir, Option.bind_eq_bind, Option.bind_some, Option.pure_def] at hl ⊢
    split at hl
    · obtain rfl := Option.some.inj hl
      refine ⟨⟨_, by rw [if_pos ‹_›], hperm.map _⟩, ?_⟩
      simp only [List.forall_mem_map]
      exact fun row hrow row' hrow' k => (hcols row hrow row' hrow' k).1
    · obtain rfl := Option.some.inj hl
      refine ⟨⟨_, by rw [if_neg ‹_›], hperm.map _⟩, ?_⟩
      simp only [List.forall_mem_map]
      exact fun row hrow row' hrow' k => (hcols row hrow row' hrow' k).2

theorem isEmpty_of_reordered {rows rows' : ResultRows} (h : rows.Reordered rows') :
    rows'.isEmpty = rows.isEmpty := by
  cases h with
  | dicts hperm => exact hperm.symm.isEmpty_eq
  | pairs hperm => exact hperm.symm.isEmpty_eq

/-- **A series contributes the same rows** in any order of its file. -/
theorem readSeries_reordered
    (hre : ∀ id, Option.Rel ResultRows.Reordered (results id) (results' id))
    (hcols : ∀ id rows, s.get? "id" = some id → results id = some rows → rows.SameColumns) :
    ReadsAs (readSeries argx argy results s) (readSeries argx argy results' s) := by
  unfold readSeries
  refine .bind fun id hid => ?_
  have hrel := hre id
  have hcols := fun rows => hcols id rows hid
  generalize results id = found, results' id = found' at hrel hcols
  cases hrel with
  | none => exact .refl _
  | @some rows rows' hrel =>
    simp only [isEmpty_of_reordered hrel]
    refine .ite fun _ => ?_
    cases hl : rows.select s with
    | none => exact readsAs_none _
    | some l =>
      obtain ⟨⟨l', hl', hperm⟩, hsame⟩ := select_perm hrel (hcols rows rfl) hl
      rw [hl']
      exact readRows_perm hperm hsame

end Reordered

end Collect

/-! ## The figure -/

/-- All rows of the series of a figure that are not skipped. -/
def Figure.rows (f : Figure) (results : PyVal → Option ResultRows) : List Dict :=
  match f.output.get? "x", f.output.get? "y" with
  | some x, some y => f.series.flatMap (contributed x y results)
  | _, _ => []

/-- The collection goes through if the output block has what it takes and every series can be
read. -/
theorem collectResults_iff {f : Figure} {results : PyVal → Option ResultRows} {params : Dict} :
    (∃ out, f.collectResults results = some out ∧ out.commonParams = params) ↔
      ∃ title x y, f.output.get? "title" = some title ∧ f.output.get? "x" = some x ∧
        f.output.get? "y" = some y ∧ (∀ s ∈ f.series, readSeries x y results s ≠ none) ∧
        params = (getCommonParamsFromRows none (f.rows results)).getD .empty := by
  unfold Figure.collectResults Figure.rows
  cases htitle : f.output.get? "title" with
  | none => simp
  | some title =>
    cases hx : f.output.get? "x" with
    | none => simp
    | some x =>
      cases hy : f.output.get? "y" with
      | none => simp
      | some y =>
        have hiff := collectSeries_iff x y results f.series none
        simp only [Option.bind_eq_bind, Option.bind_some, Option.some.injEq, exists_and_left,
          exists_eq_left']
        constructor
        · rintro ⟨out, hout, rfl⟩
          obtain ⟨⟨common, curves⟩, hc, hout⟩ := Option.bind_eq_some_iff.mp hout
          obtain ⟨hread, hcommon⟩ := (hiff common).mp ⟨curves, hc⟩
          rw [← Option.some.inj hout, ← hcommon]
          exact ⟨hread, rfl⟩
        · rintro ⟨hread, rfl⟩
          obtain ⟨curves, hc⟩ := (hiff _).mpr ⟨hread, rfl⟩
          rw [hc]
          exact ⟨_, rfl, rfl⟩

/-- **The common parameters are exactly what every row has**, in whatever order the series and
their rows come. -/
theorem commonParams_exact {f : Figure} {results : PyVal → Option ResultRows}
    (hcols : ∀ s ∈ f.series, ∀ id rows, s.get? "id" = some id → results id = some rows →
      rows.SameColumns)
    {out : FigureOutput} (h : f.collectResults results = some out) :
    CommonTo (f.rows results) out.commonParams ∧
      ∀ series' results', f.series.Perm series' →
        (∀ id, Option.Rel ResultRows.Reordered (results id) (results' id)) →
          ∃ out', Figure.collectResults ⟨f.output, series'⟩ results' = some out' ∧
            (out.commonParams.toVal == out'.commonParams.toVal) = true := by
  obtain ⟨title, x, y, htitle, hx, hy, hread, hparams⟩ := collectResults_iff.mp ⟨out, h, rfl⟩
  have hcommon := commonTo_rows (f.rows results)
  rw [← hparams] at hcommon
  refine ⟨hcommon, fun series' results' hperm hre => ?_⟩
  have hsame : ∀ s ∈ f.series, readSeries x y results' s ≠ none ∧
      (contributed x y results s).Perm (contributed x y results' s) :=
    fun s hs => readSeries_reordered hre (hcols s hs) (hread s hs)
  obtain ⟨out', hout', hparams'⟩ := (collectResults_iff (f := ⟨f.output, series'⟩)).mpr
    ⟨title, x, y, htitle, hx, hy, fun s hs => (hsame s (hperm.mem_iff.mpr hs)).1, rfl⟩
  refine ⟨out', hout', hcommon.eq_of_perm (hparams' ▸ commonTo_rows _) ?_⟩
  unfold Figure.rows
  simp only [hx, hy]
  exact (List.Perm.flatMap_left _ fun s hs => (hsame s hs).2).trans (hperm.flatMap_right _)

/-- Three series: one with two rows, one of a mixed workload, and one without a file. -/
def sampleFigure : Figure :=
  ⟨.ofList [("title", .str "Read"), ("x", .str "bs"), ("y", .str "lat_avg")],
    [.ofList [("id", .int 0), ("label", .str "apm")],
      .ofList [("id", .int 1), ("label", .str "gpspm"), ("rw_dir", .str "read")],
      .ofList [("id", .int 2), ("label", .str "ib")]]⟩

/-- A row with this block size and this depth. -/
def sampleRow (bs iodepth : Int) : Dict :=
  .ofList [("bs", .int bs), ("iodepth", .int iodepth), ("lat_avg", .float 2)]

def sampleResults : PyVal → Option ResultRows
  | .int 0 => some (.dicts [sampleRow 256 2, sampleRow 4096 2])
  | .int 1 => some (.pairs [(sampleRow 256 2, sampleRow 256 8)])
  | _ => none

/-- They have the default of `threads` and the depth in common. -/
theorem commonParams_exact_sample :
    ∃ out, sampleFigure.collectResults sampleResults = some out ∧
      out.commonParams.keys = ["threads", "iodepth"] ∧
      CommonTo (sampleFigure.rows sampleResults) out.commonParams := by
  have hkeys : (sampleFigure.collectResults sampleResults).map (·.commonParams.keys) =
      some ["threads", "iodepth"] := by decide +kernel
  obtain ⟨out, hout, hk⟩ := Option.map_eq_some_iff.mp hkeys
  refine ⟨out, hout, hk, (commonParams_exact ?_ hout).1⟩
  intro s _ id rows _ hrows
  unfold sampleResults at hrows
  split at hrows <;> cases hrows <;> simp [ResultRows.SameColumns, sampleRow, Dict.ofList]

end Rpma.Perf
