import Rpma.Lib.Firsts
import Rpma.Lib.PyVal

/-!
# Planning the benchmarks: `Benchmark.uniq` and `Requirement.uniq`

A figure orders series; a series is a dict of what to run. `Benchmark.uniq` makes one benchmark of
all series that are equal up to `label`, `rw_dir` and `id`, numbers the benchmarks in the order in
which they occur first and writes the number back into every series. `Requirement.uniq` groups the
benchmarks by what they require.

The two classes compare differently. Benchmarks compare their requirements as dicts and the rest
of the series key by key, with `None` for a missing key; requirements compare key by key, after
`done` has been given its default. Either is an equivalence, which is what `uniq` of `common.py`
needs (`uniq_eq`).

* **`plan_loses_nothing`**: planning returns unless a series requires something that is no
  requirement, and then nothing is lost or duplicated (`Planned`).
-/

namespace Rpma.Perf

open Rpma.Lib

/-! ## `uniq` of `common.py` -/

section Uniq

variable {α σ : Type} (eq : α → α → Bool) (setId : α → Nat → σ → α × σ)

/-- The loop of `uniq`: `out` are the objects kept so far under their identifiers, `n` is the next
identifier. The setter of `identifier` may write elsewhere (`σ`). -/
def uniqFrom : List (Nat × α) → Nat → List α → σ → List (Nat × α) × σ
  | out, _, [], s => (out, s)
  | out, n, e :: es, s =>
    match out.find? fun o => eq e o.2 with
    | some o => uniqFrom out n es (setId e o.1 s).2
    | none => uniqFrom (out ++ [(n, (setId e n s).1)]) (n + 1) es (setId e n s).2

/-- `uniq(elems)`. -/
def uniq (elems : List α) (s : σ) : List (Nat × α) × σ := uniqFrom eq setId [] 0 elems s

end Uniq

/-! ## Figures and benchmarks -/

/-- A figure: its `output` block and its flattened series. -/
structure Figure where
  output : Dict
  series : List Dict

/-- `Figure.set_series_identifier`. -/
def Figure.setSeriesIdentifier (f : Figure) (i id : Nat) : Figure :=
  { f with series := f.series.modify i fun s => s.set "id" (.int id) }

/-- A benchmark, with the figure and the series it was made for. -/
structure Benchmark where
  origin : Option (Nat × Nat)
  oneseries : Dict
  req : PyVal

namespace Benchmark

/-- `Benchmark.__init__`. -/
def init (oneseries : Dict) (req : Option Dict) (origin : Option (Nat × Nat)) : Benchmark :=
  let oneseries := oneseries.pop "label"
  let oneseries := oneseries.pop "rw_dir"
  let oneseries := oneseries.set "done" (oneseries.getD "done" (.bool false))
  let own : Benchmark := ⟨origin, oneseries.pop "requirements",
    oneseries.getD "requirements" Dict.empty.toVal⟩
  match req with
  | some req => if req.keys ≠ [] then ⟨origin, oneseries, req.toVal⟩ else own
  | none => own

/-- `Benchmark.__eq__`. -/
def eq (self other : Benchmark) : Bool :=
  self.req == other.req && (self.oneseries.keys ++ other.oneseries.keys).all fun k =>
    k = "id" || self.oneseries.getD k .none == other.oneseries.getD k .none

/-- The series with its identifier. -/
def withId (b : Benchmark) (id : Nat) : Benchmark :=
  { b with oneseries := b.oneseries.set "id" (.int id) }

/-- The setter of `Benchmark.identifier`: it also writes into the figure. -/
def setIdentifier (b : Benchmark) (id : Nat) (figures : List Figure) : Benchmark × List Figure :=
  (b.withId id, match b.origin with
    | some (fi, si) => figures.modify fi fun f => f.setSeriesIdentifier si id
    | none => figures)

/-- One benchmark for every series of every figure. -/
def ofFigures (figures : List Figure) : List Benchmark :=
  figures.zipIdx.flatMap fun f => f.1.series.zipIdx.map fun s => init s.1 none (some (f.2, s.2))

end Benchmark

/-- `Benchmark.uniq`. -/
def uniqBenchmarks (figures : List Figure) : List (Nat × Benchmark) × List Figure :=
  uniq Benchmark.eq Benchmark.setIdentifier (Benchmark.ofFigures figures) figures

/-! ## Requirements -/

/-- A key of a dict of objects: an integer until the dict has been through JSON. -/
inductive Key where
  | int (n : Nat)
  | str (s : String)
  deriving DecidableEq

/-- A requirement and the benchmarks that make it. -/
structure Requirement where
  req : Dict
  benchmarks : List (Key × Benchmark)

namespace Requirement

/-- `{id: Benchmark(b, req) for id, b in benchmarks.items()}`, `none` when a `b` is no dict. -/
def restoreBenchmarks (req : Dict) (val : String → PyVal) :
    List String → Option (List (Key × Benchmark))
  | [] => some []
  | id :: ids =>
    match val id with
    | .dict ks f => do
      let rest ← restoreBenchmarks req val ids
      return (.str id, Benchmark.init ⟨ks, f⟩ (some req) none) :: rest
    | _ => none

/-- `Requirement.__init__`, `none` when it raises. -/
def init : PyVal → Option Requirement
  | .dict ks f => do
    let req : Dict := ⟨ks, f⟩
    match req.get? "benchmarks" with
    | none => return ⟨req.set "done" (req.getD "done" (.bool false)), []⟩
    | some (.dict ids val) =>
      let req := req.pop "benchmarks"
      let benchmarks ← restoreBenchmarks req val ids
      return ⟨req.set "done" (req.getD "done" (.bool false)), benchmarks⟩
    | some _ => none
  | _ => none

/-- `Requirement.__eq__`. -/
def eq (self other : Requirement) : Bool :=
  (self.req.keys ++ other.req.keys).all fun k =>
    self.req.getD k .none == other.req.getD k .none

/-- The setter of `Requirement.identifier` does nothing. -/
def setIdentifier (r : Requirement) (_ : Nat) (_ : Unit) : Requirement × Unit := (r, ())

/-- The requirements of the benchmarks. -/
def ofBenchmarks : List (Nat × Benchmark) → Option (List Requirement)
  | [] => some []
  | b :: bs => do
    let r ← init b.2.req
    let rs ← ofBenchmarks bs
    return r :: rs

/-- The loop of `Requirement.__bind`. -/
def bindFrom (self : Requirement) : List (Nat × Benchmark) → Option (List (Key × Benchmark))
  | [] => some []
  | b :: bs => do
    let other ← init b.2.req
    let rest ← bindFrom self bs
    return if self.eq other then (.int b.1, b.2) :: rest else rest

/-- `Requirement.__bind` of every requirement. -/
def bindAll (benchmarks : List (Nat × Benchmark)) :
    List (Nat × Requirement) → Option (List (Nat × Requirement))
  | [] => some []
  | r :: rs => do
    let bound ← r.2.bindFrom benchmarks
    let rest ← bindAll benchmarks rs
    return (r.1, { r.2 with benchmarks := bound }) :: rest

end Requirement

/-- `Requirement.uniq`. -/
def uniqRequirements (benchmarks : List (Nat × Benchmark)) :
    Option (List (Nat × Requirement)) := do
  let reqs ← Requirement.ofBenchmarks benchmarks
  Requirement.bindAll benchmarks (uniq Requirement.eq Requirement.setIdentifier reqs ()).1

/-- The figures, the benchmarks and the requirements of a `Bench`. -/
structure Plan where
  figures : List Figure
  benchmarks : List (Nat × Benchmark)
  requirements : List (Nat × Requirement)

/-- The planning of `Bench.new`, `none` when it raises. -/
def plan (figures : List Figure) : Option Plan := do
  let (benchmarks, figures) := uniqBenchmarks figures
  let requirements ← uniqRequirements benchmarks
  return ⟨figures, benchmarks, requirements⟩

/-! ## What `uniq` keeps -/

section Uniq

variable {α σ : Type} {eq : α → α → Bool} {setId : α → Nat → σ → α × σ} {withId : α → Nat → α}

/-- Objects under their identifiers. -/
def numbered (withId : α → Nat → α) (fs : List α) : List (Nat × α) :=
  fs.zipIdx.map fun e => (e.2, withId e.1 e.2)

theorem mem_numbered {fs : List α} {o : Nat × α} :
    o ∈ numbered withId fs ↔ ∃ f, fs[o.1]? = some f ∧ o.2 = withId f o.1 := by
  unfold numbered
  simp only [List.mem_map, List.mem_zipIdx_iff_getElem?]
  constructor
  · rintro ⟨e, he, rfl⟩
    exact ⟨e.1, he, rfl⟩
  · rintro ⟨f, hf, ho⟩
    exact ⟨(f, o.1), hf, by rw [← ho]⟩

/-- The search for a duplicate. -/
theorem find?_numbered (hwith : ∀ x e n, eq x (withId e n) = eq x e) (fs : List α) (e : α) :
    ((numbered withId fs).find? fun o => eq e o.2).map Prod.fst = fs.findIdx? (eq e) := by
  have hcomp : ((fun o : Nat × α => eq e o.2) ∘ fun e : α × Nat => (e.2, withId e.1 e.2)) =
      fun x : α × Nat => eq e x.1 := funext fun x => hwith e x.1 x.2
  rw [numbered, List.find?_map, hcomp, Option.map_map, List.findIdx?_eq_fst_find?_zipIdx]
  rfl

theorem uniqFrom_eq (heq : IsEquiv eq) (hset : ∀ e n s, (setId e n s).1 = withId e n)
    (hwith : ∀ x e n, eq x (withId e n) = eq x e) : ∀ (es fs : List α) (s : σ),
    uniqFrom eq setId (numbered withId fs) fs.length es s =
      (numbered withId (keepFrom eq fs es),
        es.foldl (fun s e => (setId e ((keepFrom eq fs es).findIdx (eq e)) s).2) s)
  | [], fs, s => rfl
  | e :: es, fs, s => by
    have hfind := find?_numbered hwith fs e
    have hrank := findIdx_keepFrom heq fs es e
    rw [uniqFrom, List.foldl_cons, hrank]
    cases ho : (numbered withId fs).find? fun o => eq e o.2 with
    | some o =>
      rw [ho, Option.map_some] at hfind
      obtain ⟨hlt, hidx⟩ := List.findIdx?_eq_some_iff_findIdx_eq.mp hfind.symm
      have hany : fs.any (eq e) = true := by
        rw [List.any_eq_true, ← List.findIdx_lt_length, hidx]
        exact hlt
      have hkeep : keepFrom eq fs (e :: es) = keepFrom eq fs es := by rw [keepFrom, if_pos hany]
      show uniqFrom eq setId (numbered withId fs) fs.length es (setId e o.1 s).2 = _
      rw [uniqFrom_eq heq hset hwith es fs, hkeep, hidx]
    | none =>
      rw [ho, Option.map_none] at hfind
      have hnone := List.findIdx?_eq_none_iff.mp hfind.symm
      have hany : ¬ fs.any (eq e) = true := by
        rw [List.any_eq_true]
        rintro ⟨x, hx, hex⟩
        rw [hnone x hx] at hex
        exact absurd hex (by simp)
      have hkeep : keepFrom eq fs (e :: es) = keepFrom eq (fs ++ [e]) es := by
        rw [keepFrom, if_neg hany]
      have hnum : numbered withId fs ++ [(fs.length, (setId e fs.length s).1)] =
          numbered withId (fs ++ [e]) := by
        simp [numbered, List.zipIdx_append, hset]
      have hlen : fs.length + 1 = (fs ++ [e]).length := by simp
      show uniqFrom eq setId (numbered withId fs ++ [(fs.length, (setId e fs.length s).1)])
        (fs.length + 1) es (setId e fs.length s).2 = _
      rw [hnum, hlen, uniqFrom_eq heq hset hwith es (fs ++ [e]), hkeep,
        List.findIdx_eq_length.mpr hnone]

/-- **`uniq` keeps the first occurrences under their numbers** and sets every object's identifier
to the number of its class. -/
theorem uniq_eq (withId : α → Nat → α) (heq : IsEquiv eq)
    (hset : ∀ e n s, (setId e n s).1 = withId e n)
    (hwith : ∀ x e n, eq x (withId e n) = eq x e) (es : List α) (s : σ) :
    uniq eq setId es s = (numbered withId (firsts eq es),
      es.foldl (fun s e => (setId e (rank eq es e) s).2) s) := by
  have h := uniqFrom_eq heq hset hwith es [] s
  rw [keepFrom_eq heq] at h
  exact h

end Uniq

/-! ## The two equalities -/

theorem Benchmark.eq_iff {a b : Benchmark} : a.eq b = true ↔ (a.req == b.req) = true ∧
    ∀ k, k ≠ "id" → (a.oneseries.getD k .none == b.oneseries.getD k .none) = true := by
  unfold Benchmark.eq
  rw [Bool.and_eq_true, Dict.all_keys_iff]
  simp only [decide_eq_false_iff_not, ne_eq]

theorem Benchmark.eq_equiv : IsEquiv Benchmark.eq := by
  refine ⟨fun a => ?_, fun {a b} h => ?_, fun {a b c} h h' => ?_⟩
  · exact Benchmark.eq_iff.mpr ⟨BEq.rfl, fun _ _ => BEq.rfl⟩
  · rw [Benchmark.eq_iff] at h ⊢
    exact ⟨BEq.symm h.1, fun k hk => BEq.symm (h.2 k hk)⟩
  · rw [Benchmark.eq_iff] at h h' ⊢
    exact ⟨BEq.trans h.1 h'.1, fun k hk => BEq.trans (h.2 k hk) (h'.2 k hk)⟩

/-- The identifier is not compared. -/
theorem Benchmark.eq_withId (a b : Benchmark) (id : Nat) : a.eq (b.withId id) = a.eq b := by
  rw [Bool.eq_iff_iff, Benchmark.eq_iff, Benchmark.eq_iff]
  refine and_congr_right fun _ => forall_congr' fun k => imp_congr_right fun hk => ?_
  simp [Benchmark.withId, Dict.getD, hk]

theorem Requirement.eq_iff {a b : Requirement} : a.eq b = true ↔
    ∀ k, (a.req.getD k .none == b.req.getD k .none) = true := by
  refine (Dict.all_keys_iff fun _ => false).trans ?_
  simp

theorem Requirement.eq_equiv : IsEquiv Requirement.eq := by
  refine ⟨fun a => ?_, fun {a b} h => ?_, fun {a b c} h h' => ?_⟩
  · exact Requirement.eq_iff.mpr fun _ => BEq.rfl
  · rw [Requirement.eq_iff] at h ⊢
    exact fun k => BEq.symm (h k)
  · rw [Requirement.eq_iff] at h h' ⊢
    exact fun k => BEq.trans (h k) (h' k)

/-- What a series asks under a key: nothing asked is `None`, and not `done`. -/
def asks (s : Dict) (k : String) : PyVal :=
  s.getD k (if k = "done" then .bool false else .none)

/-- What a series requires. -/
def requires (s : Dict) : PyVal := s.getD "requirements" Dict.empty.toVal

/-- Two series ask for the same and require the same; `label`, `rw_dir` and `id` do not count. -/
def SameSeries (a b : Dict) : Prop :=
  (requires a == requires b) = true ∧
    ∀ k, k ∉ ["label", "rw_dir", "id", "requirements"] → (asks a k == asks b k) = true

/-- The benchmark of a series, wherever the series stands. -/
def benchmarkOf (s : Dict) : Benchmark := Benchmark.init s none none

theorem benchmarkOf_asks (s : Dict) (k : String) : (benchmarkOf s).oneseries.getD k .none =
    if k ∈ ["label", "rw_dir", "requirements"] then .none else asks s k := by
  by_cases h : k ∈ ["label", "rw_dir", "requirements"]
  · have hnone : (benchmarkOf s).oneseries.get? k = none := by
      simp only [List.mem_cons, List.not_mem_nil, or_false] at h
      rcases h with rfl | rfl | rfl <;> simp [benchmarkOf, Benchmark.init]
    rw [if_pos h, Dict.getD, hnone]
    rfl
  · rw [if_neg h]
    simp only [List.mem_cons, List.not_mem_nil, or_false, not_or] at h
    by_cases hd : k = "done"
    · simp [benchmarkOf, Benchmark.init, Dict.getD, asks, hd]
    · simp [benchmarkOf, Benchmark.init, Dict.getD, asks, h, hd]

theorem benchmarkOf_req (s : Dict) : (benchmarkOf s).req = requires s := by
  simp [benchmarkOf, Benchmark.init, requires, Dict.getD]

/-- Benchmarks are equal iff their series are the same. -/
theorem benchmarkOf_eq_iff {a b : Dict} :
    (benchmarkOf a).eq (benchmarkOf b) = true ↔ SameSeries a b := by
  rw [Benchmark.eq_iff, benchmarkOf_req, benchmarkOf_req]
  refine and_congr_right fun _ => forall_congr' fun k => ?_
  rw [benchmarkOf_asks, benchmarkOf_asks]
  by_cases h : k ∈ ["label", "rw_dir", "requirements"]
  · simp only [if_pos h, BEq.rfl, implies_true, true_iff]
    intro hk
    simp only [List.mem_cons, List.not_mem_nil, or_false] at h hk
    exact absurd h (by tauto)
  · simp only [if_neg h]
    simp only [List.mem_cons, List.not_mem_nil, or_false] at h ⊢
    tauto

/-! ## The identifiers in the figures -/

/-- The series `si` of the figure `fi`. -/
def seriesAt (figures : List Figure) (fi si : Nat) : Option Dict :=
  figures[fi]?.bind fun f => f.series[si]?

/-- One benchmark for every series. -/
theorem mem_ofFigures {figures : List Figure} {b : Benchmark} :
    b ∈ Benchmark.ofFigures figures ↔ ∃ fi si s, seriesAt figures fi si = some s ∧
      b = Benchmark.init s none (some (fi, si)) := by
  simp only [Benchmark.ofFigures, List.mem_flatMap, List.mem_map, seriesAt]
  constructor
  · rintro ⟨f, hf, s, hs, rfl⟩
    rw [List.mem_zipIdx_iff_getElem?] at hf hs
    exact ⟨f.2, s.2, s.1, by rw [hf]; exact hs, rfl⟩
  · rintro ⟨fi, si, s, hs, rfl⟩
    obtain ⟨f, hf, hs⟩ := Option.bind_eq_some_iff.mp hs
    exact ⟨(f, fi), List.mem_zipIdx_iff_getElem?.mpr hf, (s, si),
      List.mem_zipIdx_iff_getElem?.mpr hs, rfl⟩

/-- One setter writes into the series it was made for, and nowhere else. -/
theorem seriesAt_setIdentifier (b : Benchmark) (id : Nat) (figures : List Figure) (fi si : Nat) :
    seriesAt (b.setIdentifier id figures).2 fi si = if b.origin = some (fi, si)
      then (seriesAt figures fi si).map fun s => s.set "id" (.int id)
      else seriesAt figures fi si := by
  cases ho : b.origin with
  | none => simp [Benchmark.setIdentifier, ho]
  | some o =>
    obtain ⟨fj, sj⟩ := o
    have hstep : (b.setIdentifier id figures).2 =
        figures.modify fj fun f => f.setSeriesIdentifier sj id := by
      simp [Benchmark.setIdentifier, ho]
    rw [hstep, seriesAt, seriesAt, List.getElem?_modify]
    cases hf : figures[fi]? with
    | none => simp
    | some f =>
      by_cases hfi : fj = fi
      · subst hfi
        by_cases hsi : sj = si
        · subst hsi
          cases hs : f.series[sj]? <;> simp [Figure.setSeriesIdentifier, hs]
        · cases hs : f.series[si]? <;> simp [Figure.setSeriesIdentifier, hs, hsi]
      · simp [hfi]

theorem shape_setIdentifier (b : Benchmark) (id : Nat) (figures : List Figure) :
    (b.setIdentifier id figures).2.map (fun f => (f.output, f.series.length)) =
      figures.map fun f => (f.output, f.series.length) := by
  cases ho : b.origin with
  | none => simp [Benchmark.setIdentifier, ho]
  | some o =>
    refine List.ext_getElem? fun i => ?_
    simp only [Benchmark.setIdentifier, ho, List.getElem?_map, List.getElem?_modify]
    cases figures[i]? with
    | none => rfl
    | some f =>
      by_cases h : o.1 = i <;> simp [h, Figure.setSeriesIdentifier]

/-- All setters: a series some benchmark was made for gets the number of that benchmark. -/
theorem seriesAt_foldl {number : Benchmark → Nat} {fi si n : Nat} : ∀ (bs : List Benchmark)
    (figures : List Figure), (∀ b ∈ bs, b.origin = some (fi, si) → number b = n) →
    seriesAt (bs.foldl (fun figures b => (b.setIdentifier (number b) figures).2) figures) fi si =
      if ∃ b ∈ bs, b.origin = some (fi, si)
        then (seriesAt figures fi si).map fun s => s.set "id" (.int n)
        else seriesAt figures fi si
  | [], figures, _ => by simp
  | b :: bs, figures, h => by
    rw [List.foldl_cons, seriesAt_foldl bs _ fun b' hb' => h b' (List.mem_cons_of_mem b hb'),
      seriesAt_setIdentifier]
    by_cases hb : b.origin = some (fi, si)
    · have hn := h b List.mem_cons_self hb
      have hset : ((fun s : Dict => s.set "id" (.int n)) ∘ fun s : Dict => s.set "id" (.int n)) =
          fun s : Dict => s.set "id" (.int n) := funext fun s => Dict.set_set
      simp [hb, hn, Option.map_map, hset]
    · simp [hb]

theorem shape_foldl {number : Benchmark → Nat} : ∀ (bs : List Benchmark) (figures : List Figure),
    (bs.foldl (fun figures b => (b.setIdentifier (number b) figures).2) figures).map
        (fun f => (f.output, f.series.length)) =
      figures.map fun f => (f.output, f.series.length)
  | [], _ => rfl
  | b :: bs, figures => by
    rw [List.foldl_cons, shape_foldl bs, shape_setIdentifier]

/-! ## Requirements that can be made -/

namespace Requirement

theorem restoreBenchmarks_isSome (req : Dict) (val : String → PyVal) : ∀ ids : List String,
    (restoreBenchmarks req val ids).isSome ↔ ∀ id ∈ ids, (val id).isDict = true
  | [] => by simp [restoreBenchmarks]
  | id :: ids => by
    have ih := restoreBenchmarks_isSome req val ids
    rw [List.forall_mem_cons, ← ih, restoreBenchmarks]
    cases hv : val id with
    | dict ks f => cases hr : restoreBenchmarks req val ids <;> simp [PyVal.isDict]
    | _ => simp [PyVal.isDict]

/-- What can be required: a dict that has no `benchmarks`, or has a dict of dicts there. -/
def Restorable (v : PyVal) : Prop :=
  ∃ ks f, v = .dict ks f ∧ ("benchmarks" ∈ ks → ∃ ids val, f "benchmarks" = .dict ids val ∧
    ∀ id ∈ ids, (val id).isDict = true)

theorem init_isSome_iff (v : PyVal) : (init v).isSome ↔ Restorable v := by
  cases v with
  | dict ks f =>
    have hval : Restorable (.dict ks f) ↔ ("benchmarks" ∈ ks → ∃ ids val,
        f "benchmarks" = .dict ids val ∧ ∀ id ∈ ids, (val id).isDict = true) :=
      ⟨fun ⟨ks', f', he, h⟩ => by obtain ⟨rfl, rfl⟩ := PyVal.dict.inj he; exact h,
        fun h => ⟨ks, f, rfl, h⟩⟩
    rw [hval, init]
    by_cases hm : "benchmarks" ∈ ks
    · cases hb : f "benchmarks" with
      | dict ids val =>
        have hr := restoreBenchmarks_isSome (Dict.pop ⟨ks, f⟩ "benchmarks") val ids
        simp [Dict.get?, hm, hb, ← hr, Option.isSome_bind]
      | _ => simp [Dict.get?, hm, hb]
    · simp [Dict.get?, hm]
  | _ => simp [init, Restorable]

/-- Equal values can be required alike. -/
theorem restorable_congr {x y : PyVal} (h : (x == y) = true) (hx : Restorable x) :
    Restorable y := by
  obtain ⟨ks, f, rfl, hb⟩ := hx
  obtain ⟨ls, g, rfl, hk, hg⟩ := PyVal.eq_dict.mp h
  refine ⟨ls, g, rfl, fun hm => ?_⟩
  obtain ⟨ids, val, he, hids⟩ := hb ((hk _).mpr hm)
  have hv := hg _ ((hk _).mpr hm)
  rw [he] at hv
  obtain ⟨ids', val', he', hk', hval⟩ := PyVal.eq_dict.mp hv
  refine ⟨ids', val', he', fun id hid => ?_⟩
  have hid' := (hk' id).mpr hid
  rw [← PyVal.isDict_congr (hval id hid')]
  exact hids id hid'

/-! ## What binding binds -/

/-- Does `b` make the requirement `self`? -/
def makes (self : Requirement) (b : Nat × Benchmark) : Bool := (init b.2.req).any self.eq

theorem bindFrom_eq (self : Requirement) : ∀ (bs : List (Nat × Benchmark)),
    (∀ b ∈ bs, (init b.2.req).isSome) → self.bindFrom bs =
      some ((bs.filter self.makes).map fun b => (.int b.1, b.2))
  | [], _ => rfl
  | b :: bs, h => by
    obtain ⟨other, ho⟩ := Option.isSome_iff_exists.mp (h b List.mem_cons_self)
    have ih := bindFrom_eq self bs fun b' hb' => h b' (List.mem_cons_of_mem b hb')
    have hmakes : self.makes b = self.eq other := by rw [makes, ho, Option.any_some]
    rw [bindFrom, ho, ih, List.filter_cons, hmakes]
    cases he : self.eq other <;> simp [he]

theorem bindAll_eq {bs : List (Nat × Benchmark)} (h : ∀ b ∈ bs, (init b.2.req).isSome) :
    ∀ rs : List (Nat × Requirement), bindAll bs rs = some (rs.map fun r =>
      (r.1, { r.2 with benchmarks := (bs.filter r.2.makes).map fun b => (.int b.1, b.2) }))
  | [] => rfl
  | r :: rs => by
    rw [bindAll, bindFrom_eq r.2 bs h, bindAll_eq h rs]
    rfl

/-- The requirements of the benchmarks, one each. -/
theorem ofBenchmarks_eq : ∀ bs : List (Nat × Benchmark), (∀ b ∈ bs, (init b.2.req).isSome) →
    ∃ rs, ofBenchmarks bs = some rs ∧ (∀ b ∈ bs, ∃ r ∈ rs, init b.2.req = some r) ∧
      ∀ r ∈ rs, ∃ b ∈ bs, init b.2.req = some r
  | [], _ => ⟨[], rfl, by simp, by simp⟩
  | b :: bs, h => by
    obtain ⟨r, hr⟩ := Option.isSome_iff_exists.mp (h b List.mem_cons_self)
    obtain ⟨rs, hrs, hto, hfrom⟩ :=
      ofBenchmarks_eq bs fun b' hb' => h b' (List.mem_cons_of_mem b hb')
    refine ⟨r :: rs, by rw [ofBenchmarks, hr, hrs]; rfl, ?_, ?_⟩
    · rw [List.forall_mem_cons]
      refine ⟨⟨r, List.mem_cons_self, hr⟩, fun b' hb' => ?_⟩
      obtain ⟨r', hr', he⟩ := hto b' hb'
      exact ⟨r', List.mem_cons_of_mem r hr', he⟩
    · rw [List.forall_mem_cons]
      refine ⟨⟨b, List.mem_cons_self, hr⟩, fun r' hr' => ?_⟩
      obtain ⟨b', hb', he⟩ := hfrom r' hr'
      exact ⟨b', List.mem_cons_of_mem b hb', he⟩

/-- A benchmark that requires what cannot be required stops the planning. -/
theorem ofBenchmarks_none : ∀ {bs : List (Nat × Benchmark)} {b : Nat × Benchmark}, b ∈ bs →
    init b.2.req = none → ofBenchmarks bs = none
  | b' :: bs, b, hb, hnone => by
    rw [ofBenchmarks]
    rcases List.mem_cons.mp hb with rfl | hb
    · rw [hnone]
      rfl
    · rw [ofBenchmarks_none hb hnone]
      cases init b'.2.req <;> rfl

end Requirement

/-! ## The plan -/

/-- **Nothing is lost and nothing is duplicated.** -/
structure Planned (figures : List Figure) (p : Plan) : Prop where
  /-- The benchmarks are those of the series that equal none before them, in that order. -/
  benchmarks_eq : p.benchmarks =
    numbered Benchmark.withId (firsts Benchmark.eq (Benchmark.ofFigures figures))
  benchmark_keys : p.benchmarks.map Prod.fst = List.range p.benchmarks.length
  benchmarks_distinct : ∀ a ∈ p.benchmarks, ∀ b ∈ p.benchmarks, a.2.eq b.2 = true → a = b
  /-- Every series carries the identifier of the one benchmark that equals it, and is otherwise
  as it was. -/
  series_id : ∀ fi si s, seriesAt figures fi si = some s → ∃ b ∈ p.benchmarks,
    b.2.oneseries.get? "id" = some (.int b.1) ∧
    seriesAt p.figures fi si = some (s.set "id" (.int b.1)) ∧
    (benchmarkOf s).eq b.2 = true ∧
    ∀ c ∈ p.benchmarks, (benchmarkOf s).eq c.2 = true → c = b
  same_id_iff : ∀ fi si s fj sj t, seriesAt figures fi si = some s →
    seriesAt figures fj sj = some t →
    ((seriesAt p.figures fi si).map (·.get? "id") = (seriesAt p.figures fj sj).map (·.get? "id") ↔
      SameSeries s t)
  figures_kept : p.figures.map (fun f => (f.output, f.series.length)) =
    figures.map fun f => (f.output, f.series.length)
  requirement_keys : p.requirements.map Prod.fst = List.range p.requirements.length
  requirements_distinct : ∀ r ∈ p.requirements, ∀ r' ∈ p.requirements, r.2.eq r'.2 = true → r = r'
  /-- A requirement has the benchmarks of the plan that make it, each under its identifier. -/
  bound_eq : ∀ r ∈ p.requirements,
    r.2.benchmarks = (p.benchmarks.filter r.2.makes).map fun b => (.int b.1, b.2)
  /-- Every benchmark is bound to the one requirement that equals its own. -/
  bound_once : ∀ b ∈ p.benchmarks, ∃ r ∈ p.requirements, (.int b.1, b.2) ∈ r.2.benchmarks ∧
    (∃ own, Requirement.init b.2.req = some own ∧ r.2.eq own = true) ∧
    ∀ r' ∈ p.requirements, (.int b.1, b.2) ∈ r'.2.benchmarks → r' = r

theorem numbered_keys {α : Type} (withId : α → Nat → α) (fs : List α) :
    (numbered withId fs).map Prod.fst = List.range (numbered withId fs).length := by
  refine List.ext_getElem (by simp) fun i h1 h2 => ?_
  simp [numbered]

theorem numbered_fst_inj {α : Type} {withId : α → Nat → α} {fs : List α} {a b : Nat × α}
    (ha : a ∈ numbered withId fs) (hb : b ∈ numbered withId fs) (hab : a.1 = b.1) : a = b := by
  obtain ⟨f, hf, haf⟩ := mem_numbered.mp ha
  obtain ⟨g, hg, hbg⟩ := mem_numbered.mp hb
  rw [hab, hg] at hf
  obtain rfl := Option.some.inj hf
  exact Prod.ext hab (by rw [haf, hbg, hab])

/-- Equal objects of a numbering are one. -/
theorem numbered_inj {α : Type} {eq : α → α → Bool} {withId : α → Nat → α} (heq : IsEquiv eq)
    (hwith : ∀ x e n, eq x (withId e n) = eq x e) {l : List α} {a b : Nat × α}
    (ha : a ∈ numbered withId (firsts eq l)) (hb : b ∈ numbered withId (firsts eq l))
    (hab : eq a.2 b.2 = true) : a = b := by
  obtain ⟨f, hf, haf⟩ := mem_numbered.mp ha
  obtain ⟨g, hg, hbg⟩ := mem_numbered.mp hb
  have hfg : eq f g = true := by
    rw [haf, hbg, hwith] at hab
    have hba := heq.symm hab
    rw [hwith] at hba
    exact heq.symm hba
  exact numbered_fst_inj ha hb (firsts_inj heq hf hg hfg)

section Planning

variable (figures : List Figure)

/-- The benchmarks and the figures after `Benchmark.uniq`. -/
theorem uniqBenchmarks_eq : uniqBenchmarks figures =
    (numbered Benchmark.withId (firsts Benchmark.eq (Benchmark.ofFigures figures)),
      (Benchmark.ofFigures figures).foldl (fun figs b =>
        (b.setIdentifier (rank Benchmark.eq (Benchmark.ofFigures figures) b) figs).2) figures) := by
  have hset : ∀ (b : Benchmark) n figs, (b.setIdentifier n figs).1 = b.withId n :=
    fun _ _ _ => rfl
  exact uniq_eq Benchmark.withId Benchmark.eq_equiv hset Benchmark.eq_withId _ _

variable {figures}

/-- The number `uniq` gives to a series and what it does with it. -/
theorem series_number {fi si : Nat} {s : Dict} (hs : seriesAt figures fi si = some s) :
    ∃ b ∈ (uniqBenchmarks figures).1, b.2.oneseries.get? "id" = some (.int b.1) ∧
      seriesAt (uniqBenchmarks figures).2 fi si = some (s.set "id" (.int b.1)) ∧
      (benchmarkOf s).eq b.2 = true := by
  let all := Benchmark.ofFigures figures
  let own := Benchmark.init s none (some (fi, si))
  have hown : own ∈ all := mem_ofFigures.mpr ⟨fi, si, s, hs, rfl⟩
  obtain ⟨f, hf, hef⟩ := firsts_rank Benchmark.eq_equiv hown
  rw [uniqBenchmarks_eq]
  refine ⟨(rank Benchmark.eq all own, f.withId (rank Benchmark.eq all own)),
    mem_numbered.mpr ⟨f, hf, rfl⟩, by simp [Benchmark.withId], ?_, ?_⟩
  · -- only the series' own benchmark has its origin
    have honly : ∀ b ∈ all, b.origin = some (fi, si) →
        rank Benchmark.eq all b = rank Benchmark.eq all own := by
      intro b hb ho
      obtain ⟨fj, sj, t, ht, rfl⟩ := mem_ofFigures.mp hb
      obtain ⟨rfl, rfl⟩ : fj = fi ∧ sj = si := by simpa [Benchmark.init] using ho
      obtain rfl := Option.some.inj (ht.symm.trans hs)
      rfl
    rw [seriesAt_foldl all figures honly, if_pos ⟨own, hown, rfl⟩, hs]
    rfl
  · show (benchmarkOf s).eq (f.withId _) = true
    rw [Benchmark.eq_withId]
    exact hef

/-- The requirements of a benchmark of the plan are those of a series. -/
theorem req_of_mem {b : Nat × Benchmark} (hb : b ∈ (uniqBenchmarks figures).1) :
    ∃ fi si s, seriesAt figures fi si = some s ∧ b.2.req = requires s := by
  rw [uniqBenchmarks_eq] at hb
  obtain ⟨f, hf, hbf⟩ := mem_numbered.mp hb
  obtain ⟨fi, si, s, hs, rfl⟩ :=
    mem_ofFigures.mp (mem_of_mem_firsts (List.mem_of_getElem? hf))
  refine ⟨fi, si, s, hs, ?_⟩
  rw [hbf]
  exact benchmarkOf_req s

/-- Every benchmark's requirements can be made iff every series' can. -/
theorem restorable_iff : (∀ b ∈ (uniqBenchmarks figures).1, (Requirement.init b.2.req).isSome) ↔
    ∀ fi si s, seriesAt figures fi si = some s → Requirement.Restorable (requires s) := by
  constructor
  · intro h fi si s hs
    obtain ⟨b, hb, -, -, heq⟩ := series_number hs
    have hreq := (Benchmark.eq_iff.mp heq).1
    rw [benchmarkOf_req] at hreq
    exact Requirement.restorable_congr (BEq.symm hreq)
      ((Requirement.init_isSome_iff _).mp (h b hb))
  · intro h b hb
    obtain ⟨fi, si, s, hs, hreq⟩ := req_of_mem hb
    rw [Requirement.init_isSome_iff, hreq]
    exact h fi si s hs

/-- Planning raises iff some series requires what cannot be required. -/
theorem plan_isSome_iff : (plan figures).isSome ↔ ∀ fi si s, seriesAt figures fi si = some s →
    Requirement.Restorable (requires s) := by
  rw [← restorable_iff]
  constructor
  · intro h b hb
    by_contra hnone
    have hreqs : Requirement.ofBenchmarks (uniqBenchmarks figures).1 = none :=
      Requirement.ofBenchmarks_none hb (by simpa using hnone)
    simp [plan, uniqRequirements, hreqs] at h
  · intro h
    obtain ⟨rs, hrs, -⟩ := Requirement.ofBenchmarks_eq _ h
    simp [plan, uniqRequirements, hrs, Requirement.bindAll_eq h]

/-- The requirements of a plan: the first occurrences, each with the benchmarks that make it. -/
theorem plan_eq_some {p : Plan} (hp : plan figures = some p) :
    (∀ b ∈ p.benchmarks, (Requirement.init b.2.req).isSome) ∧
    p.figures = (uniqBenchmarks figures).2 ∧ p.benchmarks = (uniqBenchmarks figures).1 ∧
    ∃ rs, (∀ b ∈ p.benchmarks, ∃ r ∈ rs, Requirement.init b.2.req = some r) ∧
      p.requirements = (numbered (fun r _ => r) (firsts Requirement.eq rs)).map fun r =>
        (r.1, { r.2 with
          benchmarks := (p.benchmarks.filter r.2.makes).map fun b => (.int b.1, b.2) }) := by
  have hsome := restorable_iff.mpr (plan_isSome_iff.mp (by rw [hp]; rfl))
  obtain ⟨rs, hrs, hto, -⟩ := Requirement.ofBenchmarks_eq _ hsome
  have hset : ∀ (r : Requirement) n u, (r.setIdentifier n u).1 = r := fun _ _ _ => rfl
  have huniq := uniq_eq (fun r _ => r) Requirement.eq_equiv hset (fun _ _ _ => rfl) rs ()
  simp only [plan, uniqRequirements, hrs, Option.bind_eq_bind, Option.bind_some, huniq,
    Requirement.bindAll_eq hsome] at hp
  obtain rfl := Option.some.inj hp
  exact ⟨hsome, rfl, rfl, rs, hto, rfl⟩

/-- Bound requirements: numbered, distinct, and each benchmark in the one that equals its own. -/
theorem bound_requirements {bs : List (Nat × Benchmark)} {rs : List Requirement}
    {bound : List (Nat × Requirement)}
    (hto : ∀ b ∈ bs, ∃ r ∈ rs, Requirement.init b.2.req = some r)
    (hbound : bound = (numbered (fun r _ => r) (firsts Requirement.eq rs)).map fun r =>
      (r.1, { r.2 with benchmarks := (bs.filter r.2.makes).map fun b => (.int b.1, b.2) })) :
    (∀ r ∈ bound, ∀ r' ∈ bound, r.2.eq r'.2 = true → r = r') ∧
    ∀ b ∈ bs, ∃ r ∈ bound, (.int b.1, b.2) ∈ r.2.benchmarks ∧
      (∃ own, Requirement.init b.2.req = some own ∧ r.2.eq own = true) ∧
      ∀ r' ∈ bound, (.int b.1, b.2) ∈ r'.2.benchmarks → r' = r := by
  have hdistinct : ∀ r ∈ bound, ∀ r' ∈ bound, r.2.eq r'.2 = true → r = r' := by
    intro r hr r' hr' heq
    rw [hbound] at hr hr'
    obtain ⟨q, hq, rfl⟩ := List.mem_map.mp hr
    obtain ⟨q', hq', rfl⟩ := List.mem_map.mp hr'
    rw [numbered_inj Requirement.eq_equiv (fun _ _ _ => rfl) hq hq' heq]
  -- being bound to a requirement is making it
  have hmem : ∀ r ∈ bound, ∀ b ∈ bs, ∀ own, Requirement.init b.2.req = some own →
      ((.int b.1, b.2) ∈ r.2.benchmarks ↔ r.2.eq own = true) := by
    intro r hr b hb own hown
    rw [hbound] at hr
    obtain ⟨q, -, rfl⟩ := List.mem_map.mp hr
    have hmakes : ∀ c : Nat × Benchmark, q.2.makes c = (Requirement.init c.2.req).any q.2.eq :=
      fun _ => rfl
    simp only [List.mem_map, List.mem_filter, hmakes]
    constructor
    · rintro ⟨c, ⟨-, hc⟩, he⟩
      obtain ⟨h1, h2⟩ := Prod.mk.inj he
      rw [h2, hown] at hc
      exact hc
    · exact fun he => ⟨b, ⟨hb, by rw [hown]; exact he⟩, rfl⟩
  refine ⟨hdistinct, fun b hb => ?_⟩
  obtain ⟨own, hown, hinit⟩ := hto b hb
  obtain ⟨f, hf, hef⟩ := firsts_rank Requirement.eq_equiv hown
  have hr : ∃ r ∈ bound, r.2.eq own = true := by
    rw [hbound]
    refine ⟨_, List.mem_map_of_mem (mem_numbered.mpr ⟨f, hf, rfl⟩ :
      (rank Requirement.eq rs own, f) ∈ numbered (fun r _ => r) (firsts Requirement.eq rs)), ?_⟩
    exact Requirement.eq_equiv.symm hef
  obtain ⟨r, hr, hro⟩ := hr
  refine ⟨r, hr, (hmem r hr b hb own hinit).mpr hro, ⟨own, hinit, hro⟩, fun r' hr' hb' => ?_⟩
  have hro' := (hmem r' hr' b hb own hinit).mp hb'
  exact hdistinct r' hr' r hr (Requirement.eq_equiv.trans hro' (Requirement.eq_equiv.symm hro))

/-- **Planning loses and duplicates nothing**, for every list of flattened figures; it raises iff
some series requires what is no requirement. -/
theorem plan_loses_nothing (figures : List Figure) :
    (∀ p, plan figures = some p → Planned figures p) ∧
    ((plan figures).isSome ↔ ∀ fi si s, seriesAt figures fi si = some s →
      Requirement.Restorable (requires s)) := by
  refine ⟨fun p hp => ?_, plan_isSome_iff⟩
  obtain ⟨-, hfigs, hbs, rs, hto, hreqs⟩ := plan_eq_some hp
  have hbs' : p.benchmarks =
      numbered Benchmark.withId (firsts Benchmark.eq (Benchmark.ofFigures figures)) := by
    rw [hbs, uniqBenchmarks_eq]
  have hdistinct : ∀ a ∈ p.benchmarks, ∀ b ∈ p.benchmarks, a.2.eq b.2 = true → a = b := by
    rw [hbs']
    exact fun a ha b hb => numbered_inj Benchmark.eq_equiv Benchmark.eq_withId ha hb
  have hseries : ∀ fi si s, seriesAt figures fi si = some s → ∃ b ∈ p.benchmarks,
      b.2.oneseries.get? "id" = some (.int b.1) ∧
      seriesAt p.figures fi si = some (s.set "id" (.int b.1)) ∧
      (benchmarkOf s).eq b.2 = true ∧
      ∀ c ∈ p.benchmarks, (benchmarkOf s).eq c.2 = true → c = b := by
    intro fi si s hs
    obtain ⟨b, hb, hid, hset, heq⟩ := series_number hs
    rw [← hbs] at hb
    rw [← hfigs] at hset
    exact ⟨b, hb, hid, hset, heq, fun c hc hce => hdistinct c hc b hb
      (Benchmark.eq_equiv.trans (Benchmark.eq_equiv.symm hce) heq)⟩
  obtain ⟨hreqDistinct, hboundOnce⟩ := bound_requirements hto hreqs
  refine ⟨hbs', ?_, hdistinct, hseries, ?_, ?_, ?_, hreqDistinct, ?_, hboundOnce⟩
  · rw [hbs']
    exact numbered_keys _ _
  · intro fi si s fj sj t hs ht
    obtain ⟨b, hb, -, hbset, hbeq, hbonly⟩ := hseries fi si s hs
    obtain ⟨c, hc, -, hcset, hceq, hconly⟩ := hseries fj sj t ht
    rw [hbset, hcset, ← benchmarkOf_eq_iff]
    simp only [Option.map_some, Dict.get?_set, if_true, Option.some.injEq, PyVal.int.injEq,
      Nat.cast_inj]
    constructor
    · intro hbc
      rw [hbs'] at hb hc
      rw [numbered_fst_inj hb hc hbc] at hbeq
      exact Benchmark.eq_equiv.trans hbeq (Benchmark.eq_equiv.symm hceq)
    · intro hst
      rw [hbonly c hc (Benchmark.eq_equiv.trans hst hceq)]
  · rw [hfigs, uniqBenchmarks_eq]
    exact shape_foldl _ _
  · rw [hreqs, List.map_map, List.length_map]
    exact numbered_keys _ _
  · intro r hr
    rw [hreqs] at hr
    obtain ⟨q, -, rfl⟩ := List.mem_map.mp hr
    rfl

end Planning

/-- Three series, two of which differ in their labels only. -/
example : ((plan [⟨Dict.empty, [Dict.ofList [("label", .str "a"), ("bs", .int 1)],
      Dict.ofList [("bs", .int 2)], Dict.ofList [("bs", .int 1), ("label", .str "b")]]⟩]).map
    fun p => (p.benchmarks.map Prod.fst, p.requirements.map Prod.fst,
      p.figures.flatMap fun f => f.series.map fun s => s.getD "id" .none == .int 0)) =
    some ([0, 1], [0], [true, false, true]) := by decide

end Rpma.Perf
