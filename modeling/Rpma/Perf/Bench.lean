import Mathlib.Data.List.Nodup
import Rpma.Perf.Runner

/-!
# Benches: `Bench.run`, `Bench.cache` and `Bench.carry_on`

`Bench.run` goes through the requirements, runs the benchmarks of those that are met and collects
the results of the figures. Progress is kept in three places: the rows of the result files, the
`done` flags of benchmarks and requirements in memory, and the copy of these flags in `bench.json`
that `Bench.cache` writes. An exception loses the memory; `Bench.carry_on` makes it again from
`bench.json`, where the identifiers have become strings. A `World` is all of it.

* `view`: what a requirement says about its benchmarks, in memory or restored.
* **`restore_views`**: what `Bench.cache` writes, `Bench.carry_on` reads. The keys and the jobs
  have to be as planning leaves them (`LayoutOk`, `layoutOk_plan`).
-/

namespace Rpma.Perf

open Rpma.Lib Attempt

/-! ## Flags -/

/-- `Benchmark.is_done`. -/
def Benchmark.isDone (b : Benchmark) : Bool := (b.oneseries.getD "done" (.bool false)).truthy

/-- The end of `Benchmark.run`, and `Benchmark.skip`. -/
def Benchmark.markDone (b : Benchmark) : Benchmark :=
  { b with oneseries := b.oneseries.set "done" (.bool true) }

/-- The flag of a requirement. -/
def Requirement.isMarked (r : Requirement) : Bool := (r.req.getD "done" (.bool false)).truthy

def Requirement.mark (r : Requirement) : Requirement :=
  { r with req := r.req.set "done" (.bool true) }

/-- `Figure.is_done`. -/
def Figure.isDone (f : Figure) : Bool := (f.output.getD "done" (.bool false)).truthy

def Figure.markDone (f : Figure) : Figure := { f with output := f.output.set "done" (.bool true) }

/-! ## `bench.json` -/

/-- A `Bench` object. -/
structure Bench where
  config : Dict
  figures : List Figure
  requirements : List (Key × Requirement)

/-- The content of `bench.json`. -/
structure Saved where
  config : Dict
  figures : List Figure
  requirements : List (String × PyVal)

/-- A key of a dict as JSON writes it. -/
def Key.json : Key → String
  | .int n => Perf.str n
  | .str s => s

/-- `Requirement.cache`. -/
def Requirement.cache (r : Requirement) : PyVal :=
  (r.req.set "benchmarks" (Dict.ofList
    (r.benchmarks.map fun b => (b.1.json, b.2.oneseries.toVal))).toVal).toVal

/-- What `Bench.cache` writes. -/
def Bench.save (b : Bench) : Saved where
  config := b.config
  figures := b.figures
  requirements := b.requirements.map fun r => (r.1.json, r.2.cache)

/-- The disk, and the object in memory. -/
structure World where
  lab : Lab
  saved : Saved
  /-- The figures whose results have been written: file and key. -/
  collected : List (String × String)
  bench : Bench

/-- `Figure.__init__` of a figure of `bench.json`, `none` when the results of a figure that is
done are missing. -/
def Figure.restore (collected : List (String × String)) (f : Figure) : Option Figure := do
  let f := { f with output := f.output.set "done" (f.output.getD "done" (.bool false)) }
  if f.isDone then
    let file ← strOf (f.output.get? "file")
    let key ← strOf (f.output.get? "key")
    if (file, key) ∈ collected then return f else none
  else return f

/-- `{id: Requirement(r) for id, r in cache['requirements'].items()}`. -/
def restoreRequirements : List (String × PyVal) → Option (List (Key × Requirement))
  | [] => some []
  | r :: rs => do
    let requirement ← Requirement.init r.2
    let rest ← restoreRequirements rs
    return (.str r.1, requirement) :: rest

/-- `Bench.carry_on(bench.json, skip_undone=False)`, `none` when it raises. -/
def carryOn (w : World) : Option World := do
  let config := w.saved.config.set "skip_undone" (.bool false)
  let figures ← w.saved.figures.mapM (Figure.restore w.collected)
  let requirements ← restoreRequirements w.saved.requirements
  return { w with bench := ⟨config, figures, requirements⟩ }

/-! ## `Bench.run` -/

/-- Run on the lab. -/
def onLab {α : Type} (m : Attempt Lab α) : Attempt World α :=
  zoom World.lab (fun w lab => { w with lab := lab }) m

/-- The requirement at `i`. -/
def World.requirement (w : World) (i : Nat) : Requirement :=
  (w.bench.requirements[i]?.map Prod.snd).getD ⟨Dict.empty, []⟩

/-- Write to the requirement at `i`. -/
def updateRequirement (i : Nat) (f : Requirement → Requirement) : Attempt World Unit :=
  modify fun w => { w with bench := { w.bench with
    requirements := w.bench.requirements.modify i fun r => (r.1, f r.2) } }

/-- Mark the benchmark at `j` of the requirement at `i` as done. -/
def markBenchmark (i j : Nat) : Attempt World Unit :=
  updateRequirement i fun r =>
    { r with benchmarks := r.benchmarks.modify j fun b => (b.1, b.2.markDone) }

section Run

variable (o : Oracle)

/-- `Bench.cache`. -/
def cache : Attempt World Unit := do
  let _ ← onLab (outside o)
  modify fun w => { w with saved := w.bench.save }

/-- `Requirement.is_done`. -/
def requirementIsDone (i : Nat) : Attempt World Bool := do
  let r ← gets fun w => w.requirement i
  if r.isMarked then return true
  else if r.benchmarks.all fun b => b.2.isDone then do
    updateRequirement i Requirement.mark
    return true
  else return false

/-- The loop of `Requirement.benchmarks_run`. -/
def benchmarksRunFrom (config : Dict) (i : Nat) : List Nat → Attempt World Unit
  | [] => return ()
  | j :: js => do
    let r ← gets fun w => w.requirement i
    match r.benchmarks[j]? with
    | none => benchmarksRunFrom config i js
    | some b =>
      if b.2.isDone then benchmarksRunFrom config i js
      else do
        onLab (benchmarkRun o config b.2)
        markBenchmark i j
        cache o
        benchmarksRunFrom config i js

/-- `Requirement.benchmarks_run`. -/
def benchmarksRun (config : Dict) (i : Nat) : Attempt World Unit := do
  let r ← gets fun w => w.requirement i
  benchmarksRunFrom o config i (List.range r.benchmarks.length)
  updateRequirement i Requirement.mark
  cache o

/-- `Requirement.benchmarks_skip`. -/
def benchmarksSkip (i : Nat) : Attempt World Unit := do
  updateRequirement i fun r => { r with
    benchmarks := r.benchmarks.map fun b => if b.2.isDone then b else (b.1, b.2.markDone) }
  updateRequirement i Requirement.mark
  cache o

/-- The loop of `Bench.run` over the requirements: is there one that is not met? -/
def runRequirements : List Nat → Bool → Attempt World Bool
  | [], skip => return skip
  | i :: is, skip => do
    let done ← requirementIsDone i
    if done then runRequirements is skip
    else do
      let config ← gets fun w => w.bench.config
      if (config.getD "skip_undone" (.bool false)).truthy then do
        benchmarksSkip o i
        runRequirements is skip
      else do
        let n ← onLab (outside o) -- Requirement.is_met
        if o.met n then do
          benchmarksRun o config i
          runRequirements is skip
        else runRequirements is true

/-- `Figure.collect_results`. -/
def collectResults (fi : Nat) (f : Figure) : Attempt World Unit := do
  let _ ← onLab (outside o)
  let file ← ofOption (strOf (f.output.get? "file"))
  let key ← ofOption (strOf (f.output.get? "key"))
  modify fun w => { w with
    collected := w.collected ++ [(file, key)]
    bench := { w.bench with figures := w.bench.figures.modify fi Figure.markDone } }

/-- The loop of `Bench.run` over the figures. -/
def collectFigures : List Nat → Attempt World Unit
  | [] => return ()
  | fi :: fis => do
    let f ← gets fun w => w.bench.figures[fi]?
    match f with
    | none => collectFigures fis
    | some f =>
      if f.isDone then collectFigures fis
      else do
        collectResults o fi f
        cache o
        collectFigures fis

/-- `Bench.run`. -/
def benchRun : Attempt World Bool := do
  let n ← gets fun w => w.bench.requirements.length
  let skip ← runRequirements o (List.range n) false
  if skip then return false
  else do
    let m ← gets fun w => w.bench.figures.length
    collectFigures o (List.range m)
    return true

end Run

/-! ## Attempts -/

/-- `Bench.new` in an empty directory, and the first `Bench.cache`; `none` when it raises. -/
def World.new (config : Dict) (figures : List Figure) : Option World := do
  let figures ← figures.mapM (Figure.restore [])
  let p ← plan figures
  let bench : Bench := ⟨config, p.figures, p.requirements.map fun r => (.int r.1, r.2)⟩
  return ⟨⟨0, fun _ => none, []⟩, bench.save, [], bench⟩

/-- One attempt after another: what the last one returned (`none` when it raised) and left. -/
inductive Attempts (o : Oracle) (w₀ : World) : Option Bool → World → Prop
  | first : Attempts o w₀ (benchRun o w₀).1 (benchRun o w₀).2
  | again {r : Option Bool} {w w' : World} (h : Attempts o w₀ r w) (hw : carryOn w = some w') :
      Attempts o w₀ (benchRun o w').1 (benchRun o w').2

/-! ## What a restoration sees -/

/-- A requirement, benchmark by benchmark: the key, what it asks, and whether it is flagged, by its
own flag or by that of the requirement. -/
def view (r : Requirement) : List (String × Job × Bool) :=
  r.benchmarks.map fun b => (b.1.json, b.2.job, b.2.isDone || r.isMarked)

def views (rs : List (Key × Requirement)) : List (List (String × Job × Bool)) :=
  rs.map fun r => view r.2

/-- The benchmarks without their flags: what no step changes. -/
def layout (vs : List (List (String × Job × Bool))) : List (List (String × Job)) :=
  vs.map fun l => l.map fun v => (v.1, v.2.1)

/-- The benchmarks of a layout. -/
def InLayout (L : List (List (String × Job))) (job : Job) : Prop := ∃ l ∈ L, ∃ v ∈ l, v.2 = job

/-- The benchmarks that are flagged. -/
def Flagged (vs : List (List (String × Job × Bool))) (job : Job) : Prop :=
  ∃ l ∈ vs, ∃ v ∈ l, v.2.1 = job ∧ v.2.2 = true

/-- The layout of a plan: the keys of a requirement differ, the keys that `Benchmark.__init__`
removes are gone, and no two benchmarks share a result file. -/
structure LayoutOk (L : List (List (String × Job))) : Prop where
  keys : ∀ l ∈ L, (l.map Prod.fst).Nodup
  bare : ∀ l ∈ L, ∀ v ∈ l, ∀ k ∈ ["label", "rw_dir", "requirements"], v.2 k = none
  own : OwnFiles (InLayout L)

theorem Flagged.inLayout {vs : List (List (String × Job × Bool))} {job : Job}
    (h : Flagged vs job) : InLayout (layout vs) job := by
  obtain ⟨l, hl, v, hv, rfl, -⟩ := h
  exact ⟨_, List.mem_map_of_mem hl, _, List.mem_map_of_mem hv, rfl⟩

/-! ### One benchmark -/

theorem isDone_init (b : Benchmark) (req : Dict) :
    (Benchmark.init b.oneseries (some req) none).isDone = b.isDone := by
  by_cases h : req.keys = [] <;> simp [Benchmark.init, Benchmark.isDone, Dict.getD, h]

theorem job_init {b : Benchmark} (req : Dict)
    (hbare : ∀ k ∈ ["label", "rw_dir", "requirements"], b.job k = none) :
    (Benchmark.init b.oneseries (some req) none).job = b.job := by
  have hnone : ∀ k ∈ ["label", "rw_dir", "requirements"], b.oneseries.get? k = none := by
    intro k hk
    rw [← b.job_of_ne (by rintro rfl; exact absurd hk (by decide))]
    exact hbare k hk
  funext k
  by_cases hd : k = "done"
  · simp [Benchmark.job, hd]
  · rw [Benchmark.job_of_ne _ hd, Benchmark.job_of_ne _ hd]
    by_cases hk : k ∈ ["label", "rw_dir", "requirements"]
    · rw [hnone k hk]
      have hreq : b.oneseries.get? "requirements" = none := hnone _ (by decide)
      simp only [List.mem_cons, List.not_mem_nil, or_false] at hk
      by_cases h : req.keys = [] <;> rcases hk with rfl | rfl | rfl <;>
        simp [Benchmark.init, h, hreq]
    · simp only [List.mem_cons, List.not_mem_nil, or_false, not_or] at hk
      by_cases h : req.keys = [] <;> simp [Benchmark.init, h, hd, hk]

/-! ### One requirement -/

theorem lookup_of_mem {l : List (String × PyVal)} (hl : (l.map Prod.fst).Nodup)
    {kv : String × PyVal} (h : kv ∈ l) : l.lookup kv.1 = some kv.2 := by
  induction l with
  | nil => exact absurd h (by simp)
  | cons x l ih =>
    rw [List.map_cons, List.nodup_cons] at hl
    rcases List.mem_cons.mp h with rfl | hmem
    · exact List.lookup_cons_self
    · have hne : (kv.1 == x.1) = false := by
        rw [beq_eq_false_iff_ne]
        rintro he
        exact hl.1 (he ▸ List.mem_map_of_mem hmem)
      rw [List.lookup_cons, hne]
      exact ih hl.2 hmem

theorem restoreBenchmarks_cached (req : Dict) (val : String → PyVal) :
    ∀ bs : List (Key × Benchmark), (∀ b ∈ bs, val b.1.json = b.2.oneseries.toVal) →
    Requirement.restoreBenchmarks req val (bs.map fun b => b.1.json) =
      some (bs.map fun b => (.str b.1.json, Benchmark.init b.2.oneseries (some req) none))
  | [], _ => rfl
  | b :: bs, h => by
    have ih := restoreBenchmarks_cached req val bs fun b' hb' => h b' (List.mem_cons_of_mem b hb')
    rw [List.map_cons, Requirement.restoreBenchmarks, h b List.mem_cons_self, Dict.toVal]
    simp only [ih, Option.bind_eq_bind, Option.bind_some, List.map_cons]
    rfl

/-- **What `Requirement.cache` writes, `Requirement.__init__` reads**: the keys have become
strings, the rest is as it was. -/
theorem init_cache {r : Requirement} (hkeys : (r.benchmarks.map fun b => b.1.json).Nodup)
    (hbare : ∀ b ∈ r.benchmarks, ∀ k ∈ ["label", "rw_dir", "requirements"], b.2.job k = none) :
    ∃ r', Requirement.init r.cache = some r' ∧ view r' = view r := by
  let items := r.benchmarks.map fun b => (b.1.json, b.2.oneseries.toVal)
  let saved := r.req.set "benchmarks" (Dict.ofList items).toVal
  have hval : ∀ b ∈ r.benchmarks, (Dict.ofList items).val b.1.json = b.2.oneseries.toVal := by
    intro b hb
    have hmem : (b.1.json, b.2.oneseries.toVal) ∈ items := List.mem_map_of_mem hb
    have hnd : (items.map Prod.fst).Nodup := by
      rw [List.map_map]
      exact hkeys
    show (items.lookup b.1.json).getD .none = _
    rw [lookup_of_mem hnd hmem]
    rfl
  have hrest := restoreBenchmarks_cached (saved.pop "benchmarks") _ r.benchmarks hval
  have hids : (Dict.ofList items).keys = r.benchmarks.map fun b => b.1.json := by
    simp [Dict.ofList, items]
  have hget : saved.get? "benchmarks" = some (.dict (Dict.ofList items).keys
      (Dict.ofList items).val) := by
    simp [saved, Dict.toVal]
  refine ⟨⟨(saved.pop "benchmarks").set "done" ((saved.pop "benchmarks").getD "done" (.bool false)),
    r.benchmarks.map fun b => (.str b.1.json, Benchmark.init b.2.oneseries
      (some (saved.pop "benchmarks")) none)⟩, ?_, ?_⟩
  · show Requirement.init (.dict saved.keys saved.val) = _
    have hsaved : (⟨saved.keys, saved.val⟩ : Dict) = saved := rfl
    simp only [Requirement.init, hsaved, hget, hids, hrest, Option.bind_eq_bind, Option.bind_some]
    rfl
  · have hmark : ∀ bs, Requirement.isMarked ⟨(saved.pop "benchmarks").set "done"
        ((saved.pop "benchmarks").getD "done" (.bool false)), bs⟩ = r.isMarked := by
      intro bs
      simp [Requirement.isMarked, Dict.getD, saved]
    unfold view
    rw [hmark, List.map_map]
    refine List.map_congr_left fun b hb => ?_
    show ((Key.str b.1.json).json, (Benchmark.init b.2.oneseries _ none).job,
      (Benchmark.init b.2.oneseries _ none).isDone || r.isMarked) = _
    rw [job_init _ (hbare b hb), isDone_init]
    rfl

theorem restoreRequirements_cached : ∀ rs : List (Key × Requirement),
    (∀ r ∈ rs, (r.2.benchmarks.map fun b => b.1.json).Nodup) →
    (∀ r ∈ rs, ∀ b ∈ r.2.benchmarks, ∀ k ∈ ["label", "rw_dir", "requirements"],
      b.2.job k = none) →
    ∃ rs', restoreRequirements (rs.map fun r => (r.1.json, r.2.cache)) = some rs' ∧
      views rs' = views rs
  | [], _, _ => ⟨[], rfl, rfl⟩
  | r :: rs, hkeys, hbare => by
    obtain ⟨r', hr', hview⟩ := init_cache (hkeys r List.mem_cons_self) (hbare r List.mem_cons_self)
    obtain ⟨rs', hrs', hviews⟩ := restoreRequirements_cached rs
      (fun q hq => hkeys q (List.mem_cons_of_mem r hq))
      fun q hq => hbare q (List.mem_cons_of_mem r hq)
    refine ⟨(.str r.1.json, r') :: rs', ?_, ?_⟩
    · rw [List.map_cons, restoreRequirements, hr', hrs']
      rfl
    · show view r' :: views rs' = view r.2 :: views rs
      rw [hview, hviews]

/-- **The restoration sees what was cached.** -/
theorem restore_views {rs : List (Key × Requirement)} (h : LayoutOk (layout (views rs))) :
    ∃ rs', restoreRequirements (rs.map fun r => (r.1.json, r.2.cache)) = some rs' ∧
      views rs' = views rs := by
  have hmem : ∀ r ∈ rs, ((view r.2).map fun v => (v.1, v.2.1)) ∈ layout (views rs) :=
    fun r hr => List.mem_map_of_mem (List.mem_map_of_mem hr)
  refine restoreRequirements_cached rs (fun r hr => ?_) fun r hr b hb k hk => ?_
  · have hnd := h.keys _ (hmem r hr)
    rw [List.map_map, view, List.map_map] at hnd
    exact hnd
  · exact h.bare _ (hmem r hr) (b.1.json, b.2.job)
      (List.mem_map_of_mem (List.mem_map_of_mem hb)) k hk

/-! ## The layout of a plan -/

/-- `str` tells numbers apart. -/
theorem str_inj {m n : Nat} (h : str m = str n) : m = n := by
  have hd : Nat.toDigits 10 m = Nat.toDigits 10 n := by
    rw [← Nat.toList_repr, ← Nat.toList_repr]
    exact congrArg String.toList h
  rw [← Nat.ofDigitChars_toDigits (b := 10) (n := m) (by decide) (by decide), hd,
    Nat.ofDigitChars_toDigits (by decide) (by decide)]

/-- The requirements of a plan have its benchmarks, each under its own number and at most once. -/
theorem plan_benchmarks {figures : List Figure} {p : Plan} (hp : plan figures = some p) :
    ∃ all : List Benchmark, (∀ b ∈ all, ∃ s origin, b = Benchmark.init s none origin) ∧
      p.benchmarks = numbered Benchmark.withId all ∧
      ∀ r ∈ p.requirements, r.2.benchmarks =
        (p.benchmarks.filter r.2.makes).map fun b => (.int b.1, b.2) := by
  obtain ⟨-, -, hbs, rs, -, hreqs⟩ := plan_eq_some hp
  rw [uniqBenchmarks_eq] at hbs
  refine ⟨_, fun b hb => ?_, hbs, fun r hr => ?_⟩
  · obtain ⟨fi, si, s, -, rfl⟩ := mem_ofFigures.mp (mem_of_mem_firsts hb)
    exact ⟨s, _, rfl⟩
  · rw [hreqs] at hr
    obtain ⟨q, -, rfl⟩ := List.mem_map.mp hr
    rfl

/-- **The layout of a plan.** -/
theorem layoutOk_plan {figures : List Figure} {p : Plan} (hp : plan figures = some p) :
    LayoutOk (layout (views (p.requirements.map fun r => (Key.int r.1, r.2)))) := by
  obtain ⟨all, hall, hbs, hbound⟩ := plan_benchmarks hp
  let L := layout (views (p.requirements.map fun r => (Key.int r.1, r.2)))
  -- a requirement lists benchmarks of the plan
  have hL : ∀ l ∈ L, ∃ r ∈ p.requirements,
      l = (p.benchmarks.filter r.2.makes).map fun b => (str b.1, b.2.job) := by
    intro l hl
    obtain ⟨v, hv, rfl⟩ := List.mem_map.mp hl
    obtain ⟨kr, hkr, rfl⟩ := List.mem_map.mp hv
    obtain ⟨r, hr, rfl⟩ := List.mem_map.mp hkr
    refine ⟨r, hr, ?_⟩
    rw [view, hbound r hr, List.map_map, List.map_map]
    rfl
  -- a benchmark of the plan has its number as its identifier
  have hmem : ∀ l ∈ L, ∀ v ∈ l, ∃ b ∈ p.benchmarks, v.2 = b.2.job ∧
      identifier b.2.job = some (b.1 : Int) ∧
      ∀ k ∈ ["label", "rw_dir", "requirements"], b.2.job k = none := by
    intro l hl v hv
    obtain ⟨r, -, rfl⟩ := hL l hl
    obtain ⟨b, hb, rfl⟩ := List.mem_map.mp hv
    have hb' := (List.mem_filter.mp hb).1
    refine ⟨b, hb', rfl, ?_⟩
    rw [hbs] at hb'
    obtain ⟨f, hf, hbf⟩ := mem_numbered.mp hb'
    obtain ⟨s, origin, rfl⟩ := hall f (List.mem_of_getElem? hf)
    rw [hbf]
    constructor
    · simp [identifier, Benchmark.job, Benchmark.withId]
    · simp [Benchmark.job, Benchmark.withId, Benchmark.init]
  refine ⟨fun l hl => ?_, fun l hl v hv k hk => ?_, ?_⟩
  · obtain ⟨r, -, rfl⟩ := hL l hl
    have hnd : (p.benchmarks.map Prod.fst).Nodup := by
      rw [hbs, numbered_keys]
      exact List.nodup_range
    have hsub : ((p.benchmarks.filter r.2.makes).map Prod.fst).Nodup :=
      (List.filter_sublist.map Prod.fst).nodup hnd
    have hstr := hsub.map (f := str) fun m n => str_inj
    rw [List.map_map] at hstr ⊢
    exact hstr
  · obtain ⟨b, -, hv', -, hbare⟩ := hmem l hl v hv
    rw [hv']
    exact hbare k hk
  · rintro job job' id ⟨l, hl, v, hv, rfl⟩ ⟨l', hl', v', hv', rfl⟩ hid hid'
    obtain ⟨b, hb, hvb, hbid, -⟩ := hmem l hl v hv
    obtain ⟨b', hb', hvb', hbid', -⟩ := hmem l' hl' v' hv'
    rw [hvb] at hid ⊢
    rw [hvb'] at hid' ⊢
    have hnum : b.1 = b'.1 := by
      have := hbid.symm.trans (hid.trans (hid'.symm.trans hbid'))
      simpa using this
    rw [hbs] at hb hb'
    rw [numbered_fst_inj hb hb' hnum]

end Rpma.Perf
