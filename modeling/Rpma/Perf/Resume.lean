import Rpma.Perf.Bench

/-!
# Resumable benchmarking

Attempts of `Bench.run`, each ended by an exception at any step or by returning, and carried on
from what is on the disk.

`Sound` says how the rows, the flags in memory and the flags in `bench.json` fit: every flag is
about a benchmark whose rows are all there. Each step keeps it, raised or not, and so does the
restoration (`carryOn_sound`). A fact about one benchmark outlives the steps after it because the
rest of a run is taken with that benchmark among those to be recorded (`remember`).

* **`attempts_record_once`**: over any number of attempts no x value is measured once its row is
  recorded, nothing is marked as done before all its rows are there, and when `Bench.run` returns
  `True` every result file has exactly one row for each x value and every figure is done.
-/

namespace Rpma.Perf

open Rpma.Lib Attempt

/-- What a list holds after one element has been changed. -/
theorem getElem?_modify_some {α : Type} {l : List α} {f : α → α} {i j : Nat} {y : α}
    (h : (l.modify i f)[j]? = some y) :
    (∃ x, i = j ∧ l[j]? = some x ∧ y = f x) ∨ i ≠ j ∧ l[j]? = some y := by
  rw [List.getElem?_modify] at h
  obtain ⟨x, hx, hxy⟩ := Option.map_eq_some_iff.mp h
  by_cases hij : i = j
  · rw [if_pos hij] at hxy
    exact Or.inl ⟨x, hij, hx, hxy.symm⟩
  · rw [if_neg hij] at hxy
    exact Or.inr ⟨hij, hxy ▸ hx⟩

/-! ## The invariant -/

/-- A benchmark that counts as done: it is recorded, or it has been given as done (`D`). -/
def Settled (D : Job → Prop) (lab : Lab) (job : Job) : Prop := ¬ D job → Recorded lab job

/-- The benchmarks that have to be recorded: some given ones, those flagged in memory, and those
flagged in `bench.json`. -/
def Marked (D S : Job → Prop) (w : World) (job : Job) : Prop :=
  ¬ D job ∧ (S job ∨ Flagged (views w.bench.requirements) job ∨
    ∃ rs, restoreRequirements w.saved.requirements = some rs ∧ Flagged (views rs) job)

/-- The results of a figure that is done have been written. -/
def Stored (collected : List (String × String)) (f : Figure) : Prop := f.isDone = true →
  ∃ file key, strOf (f.output.get? "file") = some file ∧
    strOf (f.output.get? "key") = some key ∧ (file, key) ∈ collected

/-- **How the three places fit.** -/
structure Sound (L : List (List (String × Job))) (D S : Job → Prop) (w : World) : Prop where
  good : Good (InLayout L) (Marked D S w) w.lab
  memory : layout (views w.bench.requirements) = L
  saved : ∃ rs, restoreRequirements w.saved.requirements = some rs ∧ layout (views rs) = L
  noskip : (w.bench.config.getD "skip_undone" (.bool false)).truthy = false
  stored : ∀ f, f ∈ w.bench.figures ∨ f ∈ w.saved.figures → Stored w.collected f

section Sound

variable {L : List (List (String × Job))} {D S T : Job → Prop} {w : World}

theorem Marked.inLayout (h : Sound L D S w) (hS : ∀ job, S job → InLayout L job) {job : Job}
    (hm : Marked D S w job) : InLayout L job := by
  rcases hm with ⟨-, hs | hf | ⟨rs, hrs, hf⟩⟩
  · exact hS job hs
  · rw [← h.memory]
    exact hf.inLayout
  · obtain ⟨rs', hrs', hlay⟩ := h.saved
    obtain rfl := Option.some.inj (hrs.symm.trans hrs')
    rw [← hlay]
    exact hf.inLayout

theorem Good.mono {J S T : Job → Prop} {lab : Lab} (h : Good J T lab)
    (hST : ∀ job, S job → Recorded lab job) : Good J S lab :=
  ⟨h.rows, hST, h.fresh⟩

theorem Sound.settled (h : Sound L D S w) {job : Job} (hs : S job) : Settled D w.lab job :=
  fun hd => h.good.recorded job ⟨hd, Or.inl hs⟩

/-- What is settled may be asked for. -/
theorem Sound.change (h : Sound L D S w) (hT : ∀ job, T job → Settled D w.lab job) :
    Sound L D T w :=
  ⟨h.good.mono fun job hm => hm.2.elim (fun ht => hT job ht hm.1)
    fun hf => h.good.recorded job ⟨hm.1, Or.inr hf⟩, h.memory, h.saved, h.noskip, h.stored⟩

/-- A step on the lab. -/
theorem Sound.onLab {α : Type} {m : Attempt Lab α} {R : α → Lab → Prop}
    (hm : ∀ w, Sound L D S w → Spec (Good (InLayout L) (Marked D S w))
      (Good (InLayout L) (Marked D S w)) m
      fun a lab => Good (InLayout L) (Marked D S w) lab ∧ R a lab) :
    Spec (Sound L D S) (Sound L D S) (onLab m) fun a w => Sound L D S w ∧ R a w.lab := by
  have hkeep : ∀ w lab, Sound L D S w → Good (InLayout L) (Marked D S w) lab →
      Sound L D S { w with lab := lab } :=
    fun w lab h hg => ⟨hg, h.memory, h.saved, h.noskip, h.stored⟩
  refine Spec.zoom fun w h => ?_
  have hspec := (hm w h).raise_imp fun lab hg => hkeep w lab h hg
  exact hspec.conseq (fun lab he => he ▸ h.good) fun a lab hq => ⟨hkeep w lab h hq.1, hq.2⟩

theorem outside_sound (o : Oracle) :
    Spec (Sound L D S) (Sound L D S) (Perf.onLab (outside o)) fun _ => Sound L D S := by
  refine (Sound.onLab (R := fun _ _ => True) fun w h => ?_).conseq (fun _ h => h) fun _ _ h => h.1
  refine (outside_spec (fun _ h => h) fun lab n h => ?_).conseq (fun _ h => h)
    fun _ _ h => ⟨h, trivial⟩
  exact ⟨h.rows, h.recorded, h.fresh⟩

/-- A write to a requirement that keeps its benchmarks and flags only what is settled. -/
theorem Sound.update (h : Sound L D S w) (i : Nat) {f : Requirement → Requirement}
    (hlay : ((view (f (w.requirement i))).map fun v => (v.1, v.2.1)) =
      (view (w.requirement i)).map fun v => (v.1, v.2.1))
    (hset : ∀ v ∈ view (f (w.requirement i)), v.2.2 = true → Settled D w.lab v.2.1) :
    Sound L D S { w with bench := { w.bench with
      requirements := w.bench.requirements.modify i fun r => (r.1, f r.2) } } := by
  have hat : ∀ r, w.bench.requirements[i]? = some r → w.requirement i = r.2 := by
    intro r hr
    simp [World.requirement, hr]
  refine ⟨h.good.mono fun job hm => ?_, ?_, h.saved, h.noskip, h.stored⟩
  · rcases hm with ⟨hd, hs | ⟨l, hl, v, hv, rfl, hflag⟩ | hf⟩
    · exact h.good.recorded job ⟨hd, Or.inl hs⟩
    · obtain ⟨q, hq, rfl⟩ := List.mem_map.mp hl
      obtain ⟨j, hj⟩ := List.mem_iff_getElem?.mp hq
      rcases getElem?_modify_some hj with ⟨r, rfl, hr, rfl⟩ | ⟨-, hr⟩
      · rw [← hat r hr] at hv
        exact hset v hv hflag hd
      · exact h.good.recorded _ ⟨hd, Or.inr (Or.inl ⟨view q.2,
          List.mem_map_of_mem (List.mem_of_getElem? hr), v, hv, rfl, hflag⟩)⟩
    · exact h.good.recorded job ⟨hd, Or.inr (Or.inr hf)⟩
  · rw [← h.memory]
    refine List.ext_getElem? fun j => ?_
    simp only [layout, views, List.getElem?_map, List.getElem?_modify]
    cases hr : w.bench.requirements[j]? with
    | none => rfl
    | some r =>
      by_cases hij : i = j
      · subst hij
        rw [hat r hr] at hlay
        simp only [Option.map_some, if_true]
        exact congrArg some hlay
      · simp [hij]

/-- What is settled before a program stays settled: the program is run with it in mind. -/
theorem remember {α : Type} {m : Attempt World α} {R : α → World → Prop} {X : Job → Prop}
    (hm : Spec (Sound L D fun job => S job ∨ X job) (Sound L D fun job => S job ∨ X job) m
      fun a w => Sound L D (fun job => S job ∨ X job) w ∧ R a w) :
    Spec (Sound L D S) (fun w => Sound L D S w ∧ ∀ job, X job → Settled D w.lab job) m
      fun a w => Sound L D S w ∧ R a w ∧ ∀ job, X job → Settled D w.lab job := by
  have hdrop : ∀ w, Sound L D (fun job => S job ∨ X job) w → Sound L D S w :=
    fun w h => h.change fun job hs => h.settled (Or.inl hs)
  refine (hm.raise_imp hdrop).conseq (fun w h => h.1.change fun job hs => ?_)
    fun a w h => ⟨hdrop w h.1, h.2, fun job hx => h.1.settled (Or.inr hx)⟩
  exact hs.elim h.1.settled (h.2 job)

/-- The benchmarks of the requirement at `i`. -/
def jobsAt (L : List (List (String × Job))) (i : Nat) : List (String × Job) := L[i]?.getD []

/-- A benchmark of the requirement at `i`. -/
def InAt (L : List (List (String × Job))) (i : Nat) (job : Job) : Prop :=
  ∃ v ∈ jobsAt L i, v.2 = job

theorem inLayout_of_jobsAt {i : Nat} {v : String × Job} (hv : v ∈ jobsAt L i) :
    InLayout L v.2 := by
  unfold jobsAt at hv
  cases hl : L[i]? with
  | none =>
    rw [hl] at hv
    exact absurd hv (by simp)
  | some l =>
    rw [hl] at hv
    exact ⟨l, List.mem_of_getElem? hl, v, hv, rfl⟩

theorem InAt.inLayout {i : Nat} {job : Job} (h : InAt L i job) : InLayout L job := by
  obtain ⟨v, hv, rfl⟩ := h
  exact inLayout_of_jobsAt hv

theorem Sound.jobsAt (h : Sound L D S w) (i : Nat) :
    ((view (w.requirement i)).map fun v => (v.1, v.2.1)) = jobsAt L i := by
  rw [← h.memory, Perf.jobsAt, layout, views, List.getElem?_map, List.getElem?_map]
  cases hr : w.bench.requirements[i]? with
  | none => simp [World.requirement, hr, view]
  | some r => simp [World.requirement, hr]

/-- The benchmark at `j` of the requirement at `i`. -/
theorem Sound.jobsAt_getElem? (h : Sound L D S w) (i j : Nat) :
    (Perf.jobsAt L i)[j]? =
      (w.requirement i).benchmarks[j]?.map fun b => (b.1.json, b.2.job) := by
  rw [← h.jobsAt i, view, List.getElem?_map, List.getElem?_map, Option.map_map]
  rfl

/-- What is flagged at `i` is settled. -/
theorem Sound.settled_at (h : Sound L D S w) {i : Nat} {v : String × Job × Bool}
    (hv : v ∈ view (w.requirement i)) (hflag : v.2.2 = true) : Settled D w.lab v.2.1 := by
  cases hr : w.bench.requirements[i]? with
  | none => simp [World.requirement, hr, view] at hv
  | some r =>
    have hreq : w.requirement i = r.2 := by simp [World.requirement, hr]
    rw [hreq] at hv
    exact fun hd => h.good.recorded _ ⟨hd, Or.inr (Or.inl ⟨view r.2,
      List.mem_map_of_mem (List.mem_of_getElem? hr), v, hv, rfl, hflag⟩)⟩

theorem mark_layout (r : Requirement) : ((view r.mark).map fun v => (v.1, v.2.1)) =
    (view r).map fun v => (v.1, v.2.1) := by
  simp [view, Requirement.mark]

/-- Marking a requirement whose benchmarks are all settled. -/
theorem mark_sound (i : Nat) : Spec (Sound L D S)
    (fun w => Sound L D S w ∧ ∀ job, InAt L i job → Settled D w.lab job)
    (updateRequirement i Requirement.mark) fun _ => Sound L D S := by
  refine Spec.modify fun w h => h.1.update i (mark_layout _) fun v hv _ => ?_
  have hmem : (v.1, v.2.1) ∈ jobsAt L i := by
    rw [← h.1.jobsAt i, ← mark_layout]
    exact List.mem_map_of_mem hv
  exact h.2 _ ⟨_, hmem, rfl⟩

theorem markDone_job (b : Benchmark) : b.markDone.job = b.job := by
  funext k
  by_cases hk : k = "done" <;> simp [Benchmark.job, Benchmark.markDone, hk]

/-- Marking a benchmark that is settled. -/
theorem markBenchmark_sound (i j : Nat) : Spec (Sound L D S)
    (fun w => Sound L D S w ∧ ∀ v, (jobsAt L i)[j]? = some v → Settled D w.lab v.2)
    (markBenchmark i j) fun _ => Sound L D S := by
  refine Spec.modify fun w h => h.1.update i (f := fun r =>
    { r with benchmarks := r.benchmarks.modify j fun b => (b.1, b.2.markDone) }) ?_
    fun v hv hflag => ?_
  · refine List.ext_getElem? fun n => ?_
    simp only [view, List.getElem?_map, List.getElem?_modify]
    cases (w.requirement i).benchmarks[n]? with
    | none => rfl
    | some b =>
      by_cases hj : j = n <;> simp [hj, markDone_job]
  · obtain ⟨b, hb, rfl⟩ := List.mem_map.mp hv
    obtain ⟨n, hn⟩ := List.mem_iff_getElem?.mp hb
    rcases getElem?_modify_some hn with ⟨c, rfl, hc, rfl⟩ | ⟨-, hc⟩
    · have hset := h.2 (c.1.json, c.2.job) (by rw [h.1.jobsAt_getElem?, hc]; rfl)
      show Settled D w.lab c.2.markDone.job
      rw [markDone_job]
      exact hset
    · exact h.1.settled_at (v := (b.1.json, b.2.job, b.2.isDone || (w.requirement i).isMarked))
        (List.mem_map_of_mem (List.mem_of_getElem? hc)) hflag

/-- Marking a requirement, with its benchmarks in mind. -/
theorem mark_at_sound (i : Nat) : Spec (Sound L D fun job => S job ∨ InAt L i job)
    (Sound L D fun job => S job ∨ InAt L i job) (updateRequirement i Requirement.mark)
    fun _ => Sound L D fun job => S job ∨ InAt L i job :=
  (mark_sound i).conseq (fun _ h => ⟨h, fun _ hjob => h.settled (Or.inr hjob)⟩) fun _ _ h => h

/-- `Requirement.is_done` says so only when all is settled. -/
theorem requirementIsDone_sound (i : Nat) : Spec (Sound L D S) (Sound L D S) (requirementIsDone i)
    fun done w => Sound L D S w ∧ (done = true → ∀ job, InAt L i job → Settled D w.lab job) := by
  -- a flag on every benchmark, or one on the requirement
  have hall : ∀ w, Sound L D S w → ((w.requirement i).isMarked = true ∨
      ((w.requirement i).benchmarks.all fun b => b.2.isDone) = true) →
      ∀ job, InAt L i job → Settled D w.lab job := by
    rintro w h hdone job ⟨v, hv, rfl⟩
    rw [← h.jobsAt i] at hv
    obtain ⟨u, hu, rfl⟩ := List.mem_map.mp hv
    refine h.settled_at hu ?_
    obtain ⟨b, hb, rfl⟩ := List.mem_map.mp hu
    show (b.2.isDone || (w.requirement i).isMarked) = true
    rcases hdone with hm | hd
    · rw [hm, Bool.or_true]
    · rw [List.all_eq_true.mp hd b hb, Bool.true_or]
  refine Spec.bind (Q := fun r w => Sound L D S w ∧ r = w.requirement i)
    (Spec.gets fun w h => ⟨h, rfl⟩) fun r => ?_
  refine Spec.ite (fun hm => Spec.pure fun w h => ⟨h.1, fun _ => hall w h.1 (Or.inl ?_)⟩)
    fun _ => Spec.ite (fun hd => ?_) fun _ => Spec.pure fun w h => ⟨h.1, fun hf => ?_⟩
  · rw [← h.2]
    exact hm
  · have hmark : Spec (Sound L D fun job => S job ∨ InAt L i job)
        (Sound L D fun job => S job ∨ InAt L i job)
        (do
          updateRequirement i Requirement.mark
          return true)
        fun done w => Sound L D (fun job => S job ∨ InAt L i job) w ∧ done = true :=
      Spec.bind (mark_at_sound i) fun _ => Spec.pure fun w h => ⟨h, rfl⟩
    refine (remember hmark).conseq (fun w h => ⟨h.1, ?_⟩) fun done w h => ⟨h.1, fun _ => h.2.2⟩
    exact hall w h.1 (Or.inr (by rw [← h.2]; exact hd))
  · exact absurd hf (by simp)

/-! ### One figure -/

/-- The figures with an index in `N` are done, and there are `m`. -/
def Collected (N : Nat → Prop) (m : Nat) (figures : List Figure) : Prop :=
  figures.length = m ∧ ∀ n, N n → ∀ f, figures[n]? = some f → f.isDone = true

theorem outside_keeps (o : Oracle) : Keeps (fun w => w.bench.figures) (Perf.onLab (outside o)) :=
  Keeps.zoom fun _ _ => rfl

theorem cache_keeps (o : Oracle) : Keeps (fun w => w.bench.figures) (cache o) :=
  Keeps.bind (outside_keeps o) fun _ => Keeps.modify fun _ => rfl

theorem Stored.mono {collected more : List (String × String)} {f : Figure}
    (h : Stored collected f) : Stored (collected ++ more) f := by
  intro hdone
  obtain ⟨file, key, hfile, hkey, hmem⟩ := h hdone
  exact ⟨file, key, hfile, hkey, List.mem_append_left _ hmem⟩

/-- `Figure.collect_results` writes the results before it marks the figure. -/
theorem collectResults_sound (o : Oracle) {N : Nat → Prop} {m fi : Nat} {f : Figure} :
    Spec (Sound L D S) (fun w => Sound L D S w ∧
      (w.bench.figures[fi]? = some f ∧ Collected N m w.bench.figures))
      (collectResults o fi f)
      fun _ w => Sound L D S w ∧ Collected (fun n => n = fi ∨ N n) m w.bench.figures := by
  refine Spec.bind ((outside_sound o).frame (outside_keeps o) fun figures =>
    figures[fi]? = some f ∧ Collected N m figures) fun _ => ?_
  refine Spec.bind (Spec.ofOption (fun _ h => h.1) fun file hfile w h => ⟨h, hfile⟩)
    fun file => Spec.and_pure fun hfile => ?_
  refine Spec.bind (Spec.ofOption (fun _ h => h.1) fun key hkey w h => ⟨h, hkey⟩)
    fun key => Spec.and_pure fun hkey => ?_
  refine Spec.modify fun w ⟨h, hf, hlen, hcol⟩ =>
    ⟨⟨h.good, h.memory, h.saved, h.noskip, ?_⟩, ?_, ?_⟩
  · rintro f' (hmem | hmem)
    · obtain ⟨n, hn⟩ := List.mem_iff_getElem?.mp hmem
      rcases getElem?_modify_some hn with ⟨q, rfl, hq, rfl⟩ | ⟨-, hq⟩
      · obtain rfl := Option.some.inj (hq.symm.trans hf)
        exact fun _ => ⟨file, key, by simp [Figure.markDone, hfile],
          by simp [Figure.markDone, hkey], by simp⟩
      · exact (h.stored f' (Or.inl (List.mem_of_getElem? hq))).mono
    · exact (h.stored f' (Or.inr hmem)).mono
  · rw [List.length_modify]
    exact hlen
  · intro n hn f' hf'
    rcases getElem?_modify_some hf' with ⟨q, rfl, hq, rfl⟩ | ⟨hne, hq⟩
    · simp [Figure.isDone, Figure.markDone, Dict.getD, PyVal.truthy]
    · exact hcol n (hn.resolve_left hne.symm) f' hq

/-! ### The loops over benchmarks and requirements -/

variable (hL : LayoutOk L) (o : Oracle)

include hL

/-- **Caching.** -/
theorem cache_sound : Spec (Sound L D S) (Sound L D S) (cache o) fun _ => Sound L D S := by
  refine Spec.bind (outside_sound o) fun _ => Spec.modify fun w h => ?_
  have hlay : LayoutOk (layout (views w.bench.requirements)) := by
    rw [h.memory]
    exact hL
  obtain ⟨rs, hrs, hviews⟩ := restore_views hlay
  refine ⟨h.good.mono fun job hm => ?_, h.memory, ⟨rs, hrs, by rw [hviews, h.memory]⟩, h.noskip,
    fun f hf => h.stored f (Or.inl (hf.elim id id))⟩
  rcases hm with ⟨hd, hs | hf | ⟨rs', hrs', hf⟩⟩
  · exact h.good.recorded job ⟨hd, Or.inl hs⟩
  · exact h.good.recorded job ⟨hd, Or.inr (Or.inl hf)⟩
  · obtain rfl := Option.some.inj (hrs.symm.trans hrs')
    rw [hviews] at hf
    exact h.good.recorded job ⟨hd, Or.inr (Or.inl hf)⟩

/-- Marking and caching what is settled. -/
theorem markBenchmark_cache_sound {i j : Nat} {v : String × Job} (hv : (jobsAt L i)[j]? = some v)
    {rest : Attempt World Unit} {Q : Unit → World → Prop}
    (hrest : Spec (Sound L D fun job => S job ∨ v.2 = job) (Sound L D fun job => S job ∨ v.2 = job)
      rest Q) :
    Spec (Sound L D fun job => S job ∨ v.2 = job) (Sound L D fun job => S job ∨ v.2 = job)
      (do
        markBenchmark i j
        cache o
        rest) Q := by
  refine Spec.bind ((markBenchmark_sound i j).conseq (fun w h => ⟨h, fun u hu => ?_⟩)
    fun _ _ h => h) fun _ => Spec.bind (cache_sound hL o) fun _ => hrest
  rw [← Option.some.inj (hv.symm.trans hu)]
  exact h.settled (Or.inr rfl)

/-- **The benchmarks of a requirement**: the loop returns only when those it goes through are
settled. -/
theorem benchmarksRunFrom_sound (ho : o.Reports) (config : Dict) (i : Nat) : ∀ (js : List Nat)
    (S : Job → Prop), (∀ job, S job → InLayout L job) →
    Spec (Sound L D S) (Sound L D S) (benchmarksRunFrom o config i js) fun _ w =>
      Sound L D S w ∧ ∀ j ∈ js, ∀ v, (jobsAt L i)[j]? = some v → Settled D w.lab v.2
  | [], S, _ => Spec.pure fun w h => ⟨h, by simp⟩
  | j :: js, S, hS => by
    -- the rest of the loop, with the benchmark at `j` settled
    have hrest : ∀ v, (jobsAt L i)[j]? = some v →
        Spec (Sound L D fun job => S job ∨ v.2 = job) (Sound L D fun job => S job ∨ v.2 = job)
          (benchmarksRunFrom o config i js) fun _ w =>
          Sound L D (fun job => S job ∨ v.2 = job) w ∧
            ∀ j ∈ js, ∀ v, (jobsAt L i)[j]? = some v → Settled D w.lab v.2 := by
      intro v hv
      refine benchmarksRunFrom_sound ho config i js _ fun job hjob => ?_
      rcases hjob with hs | rfl
      · exact hS job hs
      · exact inLayout_of_jobsAt (List.mem_of_getElem? hv)
    have hcons : ∀ v, (jobsAt L i)[j]? = some v → ∀ w : World, Settled D w.lab v.2 →
        (∀ j ∈ js, ∀ v, (jobsAt L i)[j]? = some v → Settled D w.lab v.2) →
        ∀ n ∈ j :: js, ∀ u, (jobsAt L i)[n]? = some u → Settled D w.lab u.2 := by
      intro v hv w hset hjs n hn u hu
      rcases List.mem_cons.mp hn with rfl | hn
      · rw [← Option.some.inj (hv.symm.trans hu)]
        exact hset
      · exact hjs n hn u hu
    -- what the loop reads: the benchmark at `j`, settled if it is flagged
    refine Spec.bind (Q := fun r w => (Sound L D S w ∧ ∀ b, r.benchmarks[j]? = some b →
        b.2.isDone = true → Settled D w.lab b.2.job) ∧
        (jobsAt L i)[j]? = r.benchmarks[j]?.map fun b => (b.1.json, b.2.job))
      (Spec.gets fun w h => ⟨⟨h, fun b hb hdone => ?_⟩, h.jobsAt_getElem? i j⟩)
      fun r => Spec.and_pure fun hr => ?_
    · refine h.settled_at (i := i)
        (v := (b.1.json, b.2.job, b.2.isDone || (w.requirement i).isMarked))
        (List.mem_map_of_mem (List.mem_of_getElem? hb)) ?_
      rw [hdone]
      rfl
    split
    · rename_i hnone
      rw [hnone, Option.map_none] at hr
      refine (benchmarksRunFrom_sound ho config i js S hS).conseq (fun _ h => h.1)
        fun _ w h => ⟨h.1, fun n hn u hu => ?_⟩
      rcases List.mem_cons.mp hn with rfl | hn
      · rw [hr] at hu
        exact absurd hu (by simp)
      · exact h.2 n hn u hu
    · rename_i b hb
      rw [hb, Option.map_some] at hr
      refine Spec.ite (fun hdone => ?_) fun _ => ?_
      · refine (remember (hrest _ hr)).conseq (fun w h => ⟨h.1, ?_⟩)
          fun _ w h => ⟨h.1, hcons _ hr w (h.2.2 _ rfl) h.2.1⟩
        rintro job rfl
        exact h.2 b hb hdone
      · have hjob : InLayout L b.2.job := inLayout_of_jobsAt (List.mem_of_getElem? hr)
        refine Spec.bind (Q := fun _ w => Sound L D S w ∧ Recorded w.lab b.2.job)
          ((Sound.onLab fun w h => benchmarkRun_spec ho hL.own (fun job hm => hm.inLayout h hS)
            hjob config).conseq (fun _ h => h.1) fun _ _ h => h) fun _ => ?_
        have hkeep := remember (markBenchmark_cache_sound hL o hr (hrest _ hr))
        refine hkeep.conseq (fun w h => ⟨h.1, ?_⟩)
          fun _ w h => ⟨h.1, hcons _ hr w (h.2.2 _ rfl) h.2.1⟩
        rintro job rfl
        exact fun _ => h.2

/-- **A requirement that is met**: it is marked after all its benchmarks are settled. -/
theorem benchmarksRun_sound (ho : o.Reports) (config : Dict) (i : Nat)
    (hS : ∀ job, S job → InLayout L job) :
    Spec (Sound L D S) (Sound L D S) (benchmarksRun o config i) fun _ w =>
      Sound L D S w ∧ ∀ job, InAt L i job → Settled D w.lab job := by
  refine Spec.bind (Q := fun r w => Sound L D S w ∧ r.benchmarks.length = (jobsAt L i).length)
    (Spec.gets fun w h => ⟨h, ?_⟩) fun r => Spec.and_pure fun hlen => ?_
  · rw [← h.jobsAt i, List.length_map, view, List.length_map]
  refine Spec.bind (Q := fun _ w => Sound L D S w ∧ ∀ job, InAt L i job → Settled D w.lab job)
    ((benchmarksRunFrom_sound hL o ho config i _ S hS).conseq (fun _ h => h)
      fun _ w h => ⟨h.1, ?_⟩) fun _ => ?_
  · rintro job ⟨v, hv, rfl⟩
    obtain ⟨j, hj⟩ := List.mem_iff_getElem?.mp hv
    have hlt := (List.getElem?_eq_some_iff.mp hj).1
    exact h.2 j (List.mem_range.mpr (by omega)) v hj
  · have hend := remember (D := D) (R := fun _ _ => True)
      (Spec.bind (mark_at_sound (S := S) i) fun _ =>
        (cache_sound hL o).conseq (fun _ h => h) fun _ _ h => ⟨h, trivial⟩)
    exact hend.conseq (fun _ h => h) fun _ w h => ⟨h.1, h.2.2⟩

/-- **The loop over the requirements**: when none has been skipped, all are settled. -/
theorem runRequirements_sound (ho : o.Reports) : ∀ (is : List Nat) (skip : Bool) (S : Job → Prop),
    (∀ job, S job → InLayout L job) →
    Spec (Sound L D S) (Sound L D S) (runRequirements o is skip) fun skip' w =>
      Sound L D S w ∧ (skip' = false → skip = false ∧
        ∀ i ∈ is, ∀ job, InAt L i job → Settled D w.lab job)
  | [], skip, S, _ => Spec.pure fun w h => ⟨h, fun hs => ⟨hs, by simp⟩⟩
  | i :: is, skip, S, hS => by
    -- the rest of the loop, with the requirement at `i` settled
    have hrest : Spec (Sound L D S)
        (fun w => Sound L D S w ∧ ∀ job, InAt L i job → Settled D w.lab job)
        (runRequirements o is skip) fun skip' w => Sound L D S w ∧ (skip' = false → skip = false ∧
          ∀ n ∈ i :: is, ∀ job, InAt L n job → Settled D w.lab job) := by
      have ih := runRequirements_sound ho is skip (fun job => S job ∨ InAt L i job)
        fun job hjob => hjob.elim (hS job) InAt.inLayout
      refine (remember ih).conseq (fun _ h => h) fun skip' w h => ⟨h.1, fun hs => ?_⟩
      refine ⟨(h.2.1 hs).1, fun n hn => ?_⟩
      rcases List.mem_cons.mp hn with rfl | hn
      · exact h.2.2
      · exact (h.2.1 hs).2 n hn
    refine Spec.bind (requirementIsDone_sound i) fun done => ?_
    refine Spec.ite (fun hdone => hrest.conseq (fun w h => ⟨h.1, h.2 hdone⟩) fun _ _ h => h)
      fun _ => ?_
    refine Spec.bind (Q := fun config w => Sound L D S w ∧
        (config.getD "skip_undone" (.bool false)).truthy = false)
      (Spec.gets fun w h => ⟨h.1, h.1.noskip⟩) fun config => Spec.and_pure fun hconfig => ?_
    refine Spec.ite (fun hskip => absurd (hskip.symm.trans hconfig) (by simp)) fun _ => ?_
    refine Spec.bind (outside_sound o) fun n => Spec.ite (fun _ => ?_) fun _ => ?_
    · exact Spec.bind (benchmarksRun_sound hL o ho config i hS) fun _ => hrest
    · refine (runRequirements_sound ho is true S hS).conseq (fun _ h => h)
        fun skip' w h => ⟨h.1, fun hs => ?_⟩
      exact absurd (h.2 hs).1 (by simp)

/-! ### The loop over the figures -/
/-- **The loop over the figures**: it returns only when those it goes through are done. -/
theorem collectFigures_sound : ∀ (fis : List Nat) (N : Nat → Prop) (m : Nat),
    Spec (Sound L D S) (fun w => Sound L D S w ∧ Collected N m w.bench.figures)
      (collectFigures o fis)
      fun _ w => Sound L D S w ∧ Collected (fun n => N n ∨ n ∈ fis) m w.bench.figures
  | [], N, m => Spec.pure fun w h => ⟨h.1, h.2.1, fun n hn => h.2.2 n (hn.resolve_right (by simp))⟩
  | fi :: fis, N, m => by
    have hrest : Spec (Sound L D S)
        (fun w => Sound L D S w ∧ Collected (fun n => n = fi ∨ N n) m w.bench.figures)
        (collectFigures o fis)
        fun _ w => Sound L D S w ∧ Collected (fun n => N n ∨ n ∈ fi :: fis) m w.bench.figures := by
      refine (collectFigures_sound fis _ m).conseq (fun _ h => h)
        fun _ w h => ⟨h.1, h.2.1, fun n hn => h.2.2 n ?_⟩
      rcases hn with hn | hn
      · exact Or.inl (Or.inr hn)
      · exact (List.mem_cons.mp hn).elim (fun he => Or.inl (Or.inl he)) Or.inr
    refine Spec.bind (Q := fun f w => Sound L D S w ∧
        (w.bench.figures[fi]? = f ∧ Collected N m w.bench.figures))
      (Spec.gets fun w h => ⟨h.1, rfl, h.2⟩) fun f => ?_
    -- a figure that needs nothing is done, or is not there
    have hskip : (∀ f', f = some f' → f'.isDone = true) →
        Spec (Sound L D S) (fun w => Sound L D S w ∧
          (w.bench.figures[fi]? = f ∧ Collected N m w.bench.figures)) (collectFigures o fis)
          fun _ w => Sound L D S w ∧
            Collected (fun n => N n ∨ n ∈ fi :: fis) m w.bench.figures := by
      intro hdone
      refine hrest.conseq (fun w ⟨h, hf, hlen, hcol⟩ => ⟨h, hlen, ?_⟩) fun _ _ h => h
      rintro n (rfl | hn) f' hf'
      · exact hdone f' (hf.symm.trans hf')
      · exact hcol n hn f' hf'
    split
    · exact hskip fun _ he => absurd he (by simp)
    · rename_i f
      refine Spec.ite (fun hdone => hskip fun f' he => ?_) fun _ => ?_
      · rw [← Option.some.inj he]
        exact hdone
      · refine Spec.bind (collectResults_sound o) fun _ => ?_
        exact Spec.bind ((cache_sound hL o).frame (cache_keeps o) _) fun _ => hrest

/-- **One attempt**: whatever raises, the world stays sound; when it returns `True`, all
benchmarks are settled and all figures are done. -/
theorem benchRun_sound (ho : o.Reports) : Spec (Sound L D fun _ => False)
    (Sound L D fun _ => False) (benchRun o) fun ret w => Sound L D (fun _ => False) w ∧
      (ret = true → (∀ job, InLayout L job → Settled D w.lab job) ∧
        ∀ f ∈ w.bench.figures, f.isDone = true) := by
  refine Spec.bind (Q := fun n w => Sound L D (fun _ => False) w ∧ n = L.length)
    (Spec.gets fun w h => ⟨h, ?_⟩) fun n => Spec.and_pure fun hn => ?_
  · rw [← h.memory, layout, views, List.length_map, List.length_map]
  refine Spec.bind (runRequirements_sound hL o ho _ false _ fun _ h => h.elim) fun skip => ?_
  refine Spec.ite (fun _ => Spec.pure fun w h => ⟨h.1, fun hf => absurd hf (by simp)⟩)
    fun hskip => ?_
  -- all requirements have been gone through, and stay settled while the figures are collected
  have hfigures : Spec (Sound L D fun job => False ∨ InLayout L job)
      (Sound L D fun job => False ∨ InLayout L job)
      (do
        let m ← gets fun w => w.bench.figures.length
        collectFigures o (List.range m)
        return true)
      fun _ w => Sound L D (fun job => False ∨ InLayout L job) w ∧
        ∀ f ∈ w.bench.figures, f.isDone = true := by
    refine Spec.bind (Q := fun m w => Sound L D (fun job => False ∨ InLayout L job) w ∧
      Collected (fun _ => False) m w.bench.figures)
      (Spec.gets fun w h => ⟨h, rfl, fun _ hn => hn.elim⟩) fun m => ?_
    refine Spec.bind (collectFigures_sound hL o _ _ m) fun _ =>
      Spec.pure fun w ⟨h, hlen, hcol⟩ => ⟨h, fun f hf => ?_⟩
    obtain ⟨n, hlt, hn⟩ := List.mem_iff_getElem.mp hf
    have hget : w.bench.figures[n]? = some f := List.getElem?_eq_some_iff.mpr ⟨hlt, hn⟩
    exact hcol n (Or.inr (List.mem_range.mpr (by omega))) f hget
  refine (remember hfigures).conseq (fun w h => ⟨h.1, ?_⟩)
    fun _ w h => ⟨h.1, fun _ => ⟨h.2.2, h.2.1⟩⟩
  rintro job ⟨l, hl, v, hv, rfl⟩
  obtain ⟨i, hi⟩ := List.mem_iff_getElem?.mp hl
  have hlt := (List.getElem?_eq_some_iff.mp hi).1
  refine (h.2 (by simpa using hskip)).2 i (List.mem_range.mpr (by omega)) _ ⟨v, ?_, rfl⟩
  rw [jobsAt, hi]
  exact hv

end Sound

/-! ## Restoring -/

section Restore

variable {collected : List (String × String)}

/-- A figure is restored with its `done` set, unless its results are missing. -/
theorem restore_eq_some {f f' : Figure} : Figure.restore collected f = some f' ↔
    f' = { f with output := f.output.set "done" (f.output.getD "done" (.bool false)) } ∧
      Stored collected f' := by
  let g : Figure := { f with output := f.output.set "done" (f.output.getD "done" (.bool false)) }
  have hrestore : Figure.restore collected f = some g ∧ Stored collected g ∨
      Figure.restore collected f = none ∧ ¬ Stored collected g := by
    show (if g.isDone then _ else _ : Option Figure) = some g ∧ _ ∨
      (if g.isDone then _ else _ : Option Figure) = none ∧ _
    by_cases hd : g.isDone = true
    · rw [if_pos hd]
      unfold Stored
      cases hfile : strOf (g.output.get? "file") with
      | none => exact Or.inr ⟨rfl, by simp [hd]⟩
      | some file =>
        cases hkey : strOf (g.output.get? "key") with
        | none => exact Or.inr ⟨rfl, by simp [hd]⟩
        | some key => by_cases hmem : (file, key) ∈ collected <;> simp [hd, hmem, g]
    · rw [if_neg hd]
      exact Or.inl ⟨rfl, fun h => absurd h hd⟩
  rcases hrestore with ⟨hr, hs⟩ | ⟨hr, hs⟩
  · rw [hr, Option.some.injEq]
    exact ⟨fun h => ⟨h.symm, h ▸ hs⟩, fun h => h.1.symm⟩
  · rw [hr]
    refine ⟨fun h => absurd h (by simp), ?_⟩
    rintro ⟨rfl, h⟩
    exact absurd h hs

theorem mapM_restore {figures : List Figure} (h : ∀ f ∈ figures, Stored collected f) :
    ∃ figures', figures.mapM (Figure.restore collected) = some figures' := by
  induction figures with
  | nil => exact ⟨[], rfl⟩
  | cons f figures ih =>
    obtain ⟨figures', hfigures⟩ := ih fun f' hf' => h f' (List.mem_cons_of_mem f hf')
    have hstored : Stored collected
        { f with output := f.output.set "done" (f.output.getD "done" (.bool false)) } := by
      have hs := h f List.mem_cons_self
      simpa [Stored, Figure.isDone, Dict.getD] using hs
    rw [List.mapM_cons, restore_eq_some.mpr ⟨rfl, hstored⟩, hfigures]
    exact ⟨_, rfl⟩

theorem mapM_restore_stored {figures figures' : List Figure}
    (h : figures.mapM (Figure.restore collected) = some figures') :
    ∀ f ∈ figures', Stored collected f := by
  induction figures generalizing figures' with
  | nil =>
    obtain rfl : [] = figures' := Option.some.inj h
    simp
  | cons f figures ih =>
    simp only [List.mapM_cons, Option.bind_eq_bind, Option.bind_eq_some_iff] at h
    obtain ⟨g, hg, gs, hgs, hout⟩ := h
    obtain rfl : g :: gs = figures' := Option.some.inj hout
    rw [List.forall_mem_cons]
    exact ⟨(restore_eq_some.mp hg).2, ih hgs⟩

end Restore

section Attempts

variable {L : List (List (String × Job))} {D S : Job → Prop} {w w₀ : World}

/-- **Carrying on never raises**, and what it restores fits. -/
theorem carryOn_sound (h : Sound L D S w) :
    ∃ w', carryOn w = some w' ∧ w'.lab = w.lab ∧ Sound L D S w' := by
  obtain ⟨figures, hfigures⟩ := mapM_restore fun f hf => h.stored f (Or.inr hf)
  obtain ⟨rs, hrs, hlay⟩ := h.saved
  let bench : Bench := ⟨w.saved.config.set "skip_undone" (.bool false), figures, rs⟩
  refine ⟨{ w with bench := bench }, by simp [carryOn, hfigures, hrs, bench], rfl, ?_, hlay,
    h.saved, ?_, ?_⟩
  · refine h.good.mono fun job hm => ?_
    rcases hm with ⟨hd, hs | hf | hf⟩
    · exact h.good.recorded job ⟨hd, Or.inl hs⟩
    · exact h.good.recorded job ⟨hd, Or.inr (Or.inr ⟨rs, hrs, hf⟩)⟩
    · exact h.good.recorded job ⟨hd, Or.inr (Or.inr hf)⟩
  · simp [bench, Dict.getD, PyVal.truthy]
  · exact fun f hf => hf.elim (mapM_restore_stored hfigures f) fun hs => h.stored f (Or.inr hs)

/-- The benchmarks that are given as done. -/
def Given (w₀ : World) (job : Job) : Prop := Flagged (views w₀.bench.requirements) job

/-- **A new `Bench` is sound.** -/
theorem new_sound {config : Dict} {figures : List Figure}
    (hnew : World.new config figures = some w₀)
    (hskip : (config.getD "skip_undone" (.bool false)).truthy = false) :
    ∃ L, LayoutOk L ∧ layout (views w₀.bench.requirements) = L ∧
      Sound L (Given w₀) (fun _ => False) w₀ := by
  simp only [World.new, Option.bind_eq_bind, Option.bind_eq_some_iff] at hnew
  obtain ⟨figs, hfigs, p, hp, hw⟩ := hnew
  obtain rfl := Option.some.inj hw
  have hlay := layoutOk_plan hp
  obtain ⟨rs, hrs, hviews⟩ := restore_views hlay
  refine ⟨_, hlay, rfl, ⟨fun job _ key xs id _ _ => ⟨0, rfl⟩, ?_, by simp⟩, rfl,
    ⟨rs, hrs, by rw [hviews]⟩, hskip, ?_⟩
  · rintro job ⟨hd, hs | hf | ⟨rs', hrs', hf⟩⟩
    · exact hs.elim
    · exact absurd hf hd
    · obtain rfl := Option.some.inj (hrs.symm.trans hrs')
      rw [hviews] at hf
      exact absurd hf hd
  · -- planning writes into the series, not into `output`
    intro f hf hdone
    have hf' : f ∈ p.figures := hf.elim id id
    have hshape : p.figures.map (fun f => (f.output, f.series.length)) =
        figs.map fun f => (f.output, f.series.length) := by
      rw [(plan_eq_some hp).2.1, uniqBenchmarks_eq]
      exact shape_foldl _ _
    have hmem : (f.output, f.series.length) ∈ figs.map fun f => (f.output, f.series.length) := by
      rw [← hshape]
      exact List.mem_map_of_mem hf'
    obtain ⟨g, hg, hgf⟩ := List.mem_map.mp hmem
    have hout : g.output = f.output := (Prod.mk.inj hgf).1
    have hstored := mapM_restore_stored hfigs g hg
    unfold Stored Figure.isDone at hstored
    rw [hout] at hstored
    exact hstored hdone

/-- After any number of attempts. -/
theorem attempts_sound {o : Oracle} (ho : o.Reports) (hL : LayoutOk L)
    (h₀ : Sound L D (fun _ => False) w₀) {r : Option Bool} (h : Attempts o w₀ r w) :
    Sound L D (fun _ => False) w ∧ (r = some true →
      (∀ job, InLayout L job → Settled D w.lab job) ∧ ∀ f ∈ w.bench.figures, f.isDone = true) := by
  have hone : ∀ w, Sound L D (fun _ => False) w → Sound L D (fun _ => False) (benchRun o w).2 ∧
      ((benchRun o w).1 = some true → (∀ job, InLayout L job → Settled D (benchRun o w).2.lab job) ∧
        ∀ f ∈ (benchRun o w).2.bench.figures, f.isDone = true) := by
    intro w hw
    obtain ⟨hraised, hret⟩ := (benchRun_sound hL o ho).run hw
    cases hr : (benchRun o w).1 with
    | none => exact ⟨hraised hr, fun hf => absurd hf (by simp)⟩
    | some ret => exact ⟨(hret ret hr).1, fun ht => (hret ret hr).2 (Option.some.inj ht)⟩
  induction h with
  | first => exact hone w₀ h₀
  | again h hw ih =>
    obtain ⟨w', hw', -, hs⟩ := carryOn_sound ih.1
    obtain rfl := Option.some.inj (hw.symm.trans hw')
    exact hone _ hs

/-- The result file of a recorded benchmark: it is there, with exactly one row for each x value. -/
theorem Recorded.file {lab : Lab} {job : Job} (h : Recorded lab job) :
    ∃ key xs id rows, axis job = some (key, xs) ∧ identifier job = some id ∧
      lab.files id = some rows ∧ texts key rows = asked xs ∧ (asked xs).Nodup := by
  obtain ⟨key, xs, id, hxs, hid, hrows⟩ := h
  obtain ⟨hnodup, hne⟩ := axis_values hxs
  cases hf : lab.files id with
  | none =>
    rw [Lab.rows, hf] at hrows
    exact absurd (List.map_eq_nil_iff.mp hrows.symm) hne
  | some rows =>
    rw [Lab.rows, hf] at hrows
    exact ⟨key, xs, id, rows, hxs, hid, hf, hrows, hnodup⟩

/-- **Attempts record every x value once**, whatever raises and however often: no x value is
measured whose row is recorded; a benchmark or requirement is flagged, in memory or after a
restoration, only when all its rows are there; and when `Bench.run` returns `True` each result
file has exactly one row for each x value of its mode and every figure is done. A benchmark that is
given as done is left alone. -/
theorem attempts_record_once {o : Oracle} (ho : o.Reports) {config : Dict} {figures : List Figure}
    {r : Option Bool} (hnew : World.new config figures = some w₀)
    (hskip : (config.getD "skip_undone" (.bool false)).truthy = false) (h : Attempts o w₀ r w) :
    (∀ e ∈ w.lab.log, e.Fresh) ∧
    (∀ job, Flagged (views w.bench.requirements) job → Settled (Given w₀) w.lab job) ∧
    (∃ w', carryOn w = some w' ∧ w'.lab = w.lab ∧
      ∀ job, Flagged (views w'.bench.requirements) job → Settled (Given w₀) w.lab job) ∧
    (r = some true →
      (∀ q ∈ w₀.bench.requirements, ∀ b ∈ q.2.benchmarks, ¬ Given w₀ b.2.job →
        ∃ key xs id rows, axis b.2.job = some (key, xs) ∧ identifier b.2.job = some id ∧
          w.lab.files id = some rows ∧ texts key rows = asked xs ∧ (asked xs).Nodup) ∧
      ∀ f ∈ w.bench.figures, f.isDone = true) := by
  obtain ⟨L, hL, hlay, h₀⟩ := new_sound hnew hskip
  obtain ⟨hsound, htrue⟩ := attempts_sound ho hL h₀ h
  have hflagged : ∀ {w : World}, Sound L (Given w₀) (fun _ => False) w → ∀ job,
      Flagged (views w.bench.requirements) job → Settled (Given w₀) w.lab job :=
    fun hs job hf hd => hs.good.recorded job ⟨hd, Or.inr (Or.inl hf)⟩
  obtain ⟨w', hw', hlab, hs'⟩ := carryOn_sound hsound
  refine ⟨hsound.good.fresh, hflagged hsound, ⟨w', hw', hlab, ?_⟩, fun hr => ?_⟩
  · rw [← hlab]
    exact hflagged hs'
  · obtain ⟨hset, hfigures⟩ := htrue hr
    refine ⟨fun q hq b hb hd => (hset b.2.job ?_ hd).file, hfigures⟩
    rw [← hlay]
    exact ⟨_, List.mem_map_of_mem (List.mem_map_of_mem hq), (b.1.json, b.2.job),
      List.mem_map_of_mem (List.mem_map_of_mem hb), rfl⟩

/-- A figure with one latency series of ib_read. -/
def latFigure : Figure where
  output := Dict.ofList [("file", .str "lat"), ("key", .str "lat")]
  series := [Dict.ofList [("label", .str "lat"), ("tool", .str "ib_read"),
    ("tool_mode", .str "lat"), ("mode", .str "lat"), ("rw", .str "read"),
    ("filetype", .str "malloc")]]

def latConfig : Dict := Dict.ofList [("SERVER_IP", .str "192.168.0.1")]

/-- Tools that report what they are asked; step 24, the run of the tool for the fifth x value,
raises. -/
def latOracle : Oracle where
  raises n := n = 24
  met _ := true
  fio _ key x := (fun k => if k = key then some (str x) else none,
    fun k => if k = key then some (str x) else none)
  ib _ key x := fun k => if k = key then some (str x) else none

/-- The attempt that raises and the one that carries on and returns `True`. -/
theorem attempts_record_once_lat : ∃ w₀ w, World.new latConfig [latFigure] = some w₀ ∧
    Attempts latOracle w₀ (some true) w ∧ (∀ e ∈ w.lab.log, e.Fresh) ∧
    (∀ q ∈ w₀.bench.requirements, ∀ b ∈ q.2.benchmarks, ¬ Given w₀ b.2.job →
      ∃ key xs id rows, axis b.2.job = some (key, xs) ∧ identifier b.2.job = some id ∧
        w.lab.files id = some rows ∧ texts key rows = asked xs ∧ (asked xs).Nodup) ∧
    ∀ f ∈ w.bench.figures, f.isDone = true := by
  have hrun : ((World.new latConfig [latFigure]).any fun w₀ =>
      (carryOn (benchRun latOracle w₀).2).any fun w =>
        (benchRun latOracle w).1 = some true) = true := by decide +kernel
  obtain ⟨w₀, hnew, hrun⟩ := (Option.any_eq_true _ _).mp hrun
  obtain ⟨w, hw, hret⟩ := (Option.any_eq_true _ _).mp hrun
  have hatt : Attempts latOracle w₀ (some true) (benchRun latOracle w).2 :=
    of_decide_eq_true hret ▸ Attempts.again Attempts.first hw
  have hreports : latOracle.Reports := fun n key x => by simp [latOracle]
  have h := attempts_record_once hreports hnew rfl hatt
  exact ⟨w₀, _, hnew, hatt, h.1, h.2.2.2 rfl⟩

end Attempts

end Rpma.Perf
