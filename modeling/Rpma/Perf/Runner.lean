import Rpma.Lib.Attempt
import Rpma.Perf.Plan

/-!
# Running one benchmark: the fio and the ib_read runner

A runner measures a series at the x values of its mode, one after the other, and writes the rows
it has after each. It starts from the rows of the result file and passes over the x values they
report, so an exception at any step costs at most the measurement under way.

What the runner reaches outside (the tools, the remote side, the environment) is an `Oracle`: its
`n`-th answer may be an exception. `Lab` is what an exception leaves behind: the result files, and
for the statements a log of the measurements with the rows recorded before each.

* `Rows`: the rows of a result file report a prefix of the x values, in their order.
* **`benchmarkRun_spec`**: a runner keeps this for every benchmark of a plan, never measures an
  x value that is recorded, and returns only when all are.
-/

namespace Rpma.Perf

open Rpma.Lib Attempt

/-! ## Settings -/

/-- What a benchmark asks, key by key. -/
abbrev Job := String → Option PyVal

/-- A setting of a mode: one value, or the values of the x-axis. -/
inductive Setting where
  | one (n : Nat)
  | many (ns : List Nat)

/-- `BS_VALUES`. -/
def bsValues : List Nat := [256, 1024, 4096, 8192, 16384, 32768, 65536, 131072, 262144]

/-- `__CPU_LOAD_RANGE`. -/
def cpuLoadRange : PyVal → Option (List Nat)
  | .str "00_99" => some [0, 25, 50, 75, 99]
  | .str "75_99" => some [75, 80, 85, 90, 95, 99]
  | _ => none

/-- `'cpu' in mode`, for the modes there are. -/
def isCpuMode (mode : String) : Bool := mode ∈ ["lat-cpu", "bw-cpu", "bw-cpu-mt"]

/-- `__SETTINGS_BY_MODE` of the fio runner, with the CPU loads of `__set_settings_by_mode`. The
number of threads of `bw-cpu-mt` is that of the machine, and one number in any case. -/
def fioSettings (cpuload : List Nat) : String → Option (List (String × Setting))
  | "bw-bs" => some [("threads", .one 1), ("bs", .many bsValues), ("iodepth", .one 2)]
  | "bw-dp-exp" => some [("threads", .one 1), ("bs", .one 4096),
      ("iodepth", .many [1, 2, 4, 8, 16, 32, 64, 128])]
  | "bw-dp-lin" => some [("threads", .one 1), ("bs", .one 4096),
      ("iodepth", .many [1, 2, 3, 4, 5, 6, 7, 8, 9, 10])]
  | "bw-th" => some [("threads", .many [1, 2, 4, 8, 12, 16, 32, 64]), ("bs", .one 4096),
      ("iodepth", .one 2)]
  | "bw-cpu" => some [("threads", .one 1), ("bs", .one 65536), ("iodepth", .one 2),
      ("cpuload", .many cpuload)]
  | "bw-cpu-mt" => some [("threads", .one 0), ("bs", .one 4096), ("iodepth", .one 2),
      ("cpuload", .many cpuload)]
  | "lat" => some [("threads", .one 1), ("bs", .many bsValues), ("iodepth", .one 1)]
  | "lat-cpu" => some [("threads", .one 1), ("bs", .one 4096), ("iodepth", .one 1),
      ("cpuload", .many cpuload)]
  | _ => none

/-- `__SETTINGS_BY_MODE` of the ib_read runner. -/
def ibSettings : String → Option (List (String × Setting))
  | "bw-bs" => some [("threads", .one 1), ("bs", .many bsValues), ("iodepth", .one 2)]
  | "bw-dp-exp" => some [("threads", .one 1), ("bs", .one 4096),
      ("iodepth", .many [1, 2, 4, 8, 16, 32, 64, 128])]
  | "bw-dp-lin" => some [("threads", .one 1), ("bs", .one 4096),
      ("iodepth", .many [1, 2, 3, 4, 5, 6, 7, 8, 9, 10])]
  | "bw-th" => some [("threads", .many [1, 2, 4, 8, 12]), ("bs", .one 4096), ("iodepth", .one 2)]
  | "lat" => some [("threads", .one 1), ("bs", .many bsValues), ("iodepth", .one 1)]
  | _ => none

/-- The x values for which `settings['iterations']` of the ib_read runner has an entry. -/
def ibIterations : String → List Nat
  | "bw-bs" => [256, 1024, 4096, 8192, 16384, 32768, 65536, 131072, 262144]
  | "bw-dp-exp" => [1, 2, 4, 8, 16, 32, 64, 128]
  | "bw-dp-lin" => [1, 2, 3, 4, 5, 6, 7, 8, 9, 10]
  | "bw-th" => [1, 2, 4, 8, 12]
  | "lat" => [256, 1024, 4096, 8192, 16384, 32768, 65536, 131072, 262144]
  | _ => []

/-- The first of the `__X_KEYS` that is set to a list. -/
def xAxis (xKeys : List String) (settings : List (String × Setting)) : Option (String × List Nat) :=
  xKeys.findSome? fun k =>
    match settings.lookup k with
    | some (.many xs) => some (k, xs)
    | _ => none

/-- A value that has to be a string. -/
def strOf : Option PyVal → Option String
  | some (.str s) => some s
  | _ => none

/-- The CPU loads that `__set_settings_by_mode` sets. -/
def cpuLoads (job : Job) (mode : String) : Option (List Nat) :=
  if isCpuMode mode then cpuLoadRange ((job "cpu_load_range").getD (.str "00_99")) else some []

/-- The x-axis of the fio runner. -/
def fioAxis (job : Job) : Option (String × List Nat) := do
  let mode ← strOf (job "mode")
  let cpuload ← cpuLoads job mode
  let settings ← fioSettings cpuload mode
  xAxis ["threads", "bs", "iodepth", "cpuload"] settings

/-- The x-axis of the ib_read runner. -/
def ibAxis (job : Job) : Option (String × List Nat) := do
  let mode ← strOf (job "mode")
  let settings ← ibSettings mode
  xAxis ["threads", "bs", "iodepth"] settings

/-- The x-axis of a benchmark: its key and its values. -/
def axis (job : Job) : Option (String × List Nat) :=
  match strOf (job "tool") with
  | some "fio" => fioAxis job
  | some "ib_read" => ibAxis job
  | _ => none

/-- The identifier in the name of the result file. -/
def identifier (job : Job) : Option Int :=
  match job "id" with
  | some (.int n) => some n
  | _ => none

/-- `verify_oneseries`. -/
def verifyOneseries (job : Job) (required : List (String × List String)) : Bool :=
  required.all fun kv =>
    match job kv.1 with
    | some v => kv.2.any fun s => v == .str s
    | none => false

/-- `__ONESERIES_REQUIRED` of the fio runner. -/
def fioRequired : List (String × List String) :=
  [("tool", ["fio"]), ("tool_mode", ["apm", "gpspm"]),
    ("mode", ["lat", "lat-cpu", "bw-bs", "bw-dp-exp", "bw-dp-lin", "bw-th", "bw-cpu", "bw-cpu-mt"]),
    ("rw", ["read", "write", "rw", "randread", "randwrite", "randrw"]),
    ("filetype", ["malloc", "pmem"])]

/-- `__ONESERIES_REQUIRED` of the ib_read runner. -/
def ibRequired : List (String × List String) :=
  [("tool", ["ib_read"]), ("tool_mode", ["lat", "bw"]),
    ("mode", ["lat", "bw-bs", "bw-dp-exp", "bw-dp-lin", "bw-th"]), ("rw", ["read"]),
    ("filetype", ["malloc"])]

/-! ## Rows and result files -/

/-- `str(x)`. -/
def str (x : Nat) : String := toString x

/-- The columns of a result, each as `str` prints it. -/
abbrev Cols := String → Option String

/-- A row: a result, or the two results of a mixed workload. -/
inductive Row where
  | one (cols : Cols)
  | two (read write : Cols)

/-- The result that `result_is_done` looks at. -/
def Row.head : Row → Cols
  | .one cols => cols
  | .two read _ => read

/-- `result_is_done`, `none` when a row lacks the key. -/
def resultIsDone (key : String) (x : Nat) : List Row → Option Bool
  | [] => some false
  | r :: rs =>
    match r.head key with
    | none => none
    | some text => if text = str x then some true else resultIsDone key x rs

/-- A run of a tool: the benchmark, the x value, and the rows recorded by then. -/
structure Measured where
  id : Int
  key : String
  x : Nat
  before : List Row

/-- What an exception leaves behind. -/
structure Lab where
  /-- How often the outside has been reached. -/
  steps : Nat
  /-- The content of `benchmark_{id}.json`. -/
  files : Int → Option (List Row)
  log : List Measured

/-- The rows of a result file; a missing file has none. -/
def Lab.rows (lab : Lab) (id : Int) : List Row := (lab.files id).getD []

/-- The outside: whether the `n`-th step raises, whether a requirement is met, and what a tool
reports when it is run for an x value. -/
structure Oracle where
  raises : Nat → Bool
  met : Nat → Bool
  fio : Nat → String → Nat → Cols × Cols
  ib : Nat → String → Nat → Cols

/-- The tools report the x value they were asked for. -/
def Oracle.Reports (o : Oracle) : Prop := ∀ n key x,
  (o.fio n key x).1 key = some (str x) ∧ (o.fio n key x).2 key = some (str x) ∧
    o.ib n key x key = some (str x)

/-! ## The runners -/

section Runner

variable (o : Oracle)

/-- A step outside: it returns its number, or raises. -/
def outside : Attempt Lab Nat := do
  let n ← gets Lab.steps
  modify fun lab => { lab with steps := n + 1 }
  if o.raises n then raise else return n

/-- `result_append`. -/
def resultAppend (id : Int) (data : List Row) (row : Row) : Attempt Lab (List Row) := do
  let data := data ++ [row]
  modify fun lab => { lab with files := fun i => if i = id then some data else lab.files i }
  return data

/-- The tool is run. -/
def logMeasured (id : Int) (key : String) (x : Nat) : Attempt Lab Unit :=
  modify fun lab => { lab with log := lab.log ++ [⟨id, key, x, lab.rows id⟩] }

/-- `cols['cpuload'] = x`. -/
def setCpuload (cols : Cols) (x : Nat) : Cols := fun k =>
  if k = "cpuload" then some (str x) else cols k

/-- The row of a fio result, by `rw`: `__result_keys`. -/
def fioRow (rw : String) (result : Cols × Cols) : Row :=
  if rw = "read" ∨ rw = "randread" then .one result.1
  else if rw = "write" ∨ rw = "randwrite" then .one result.2
  else .two result.1 result.2

/-- `__client_run` of the fio runner. The CPU load is in the settings when it is the x-axis. -/
def fioClientRun (rw : String) (id : Int) (key : String) (x : Nat) : Attempt Lab Row := do
  logMeasured id key x
  let n ← outside o
  let result := o.fio n key x
  if key = "cpuload" then return fioRow rw (setCpuload result.1 x, setCpuload result.2 x)
  else return fioRow rw result

/-- `__client_run` of the ib_read runner. -/
def ibClientRun (id : Int) (key : String) (x : Nat) : Attempt Lab Row := do
  logMeasured id key x
  let n ← outside o
  return .one (o.ib n key x)

/-- The loop of `run`: `iterations` are the x values the runner has settings for, `clientRun` is
the runner's own. -/
def measureAll (id : Int) (key : String) (iterations : Nat → Bool)
    (clientRun : Nat → Attempt Lab Row) : List Nat → List Row → Attempt Lab Unit
  | [], _ => return ()
  | x :: xs, data => do
    let done ← ofOption (resultIsDone key x data)
    if done then measureAll id key iterations clientRun xs data
    else if iterations x then do
      let _ ← outside o -- run_pre_command
      let _ ← outside o -- __server_start
      let row ← clientRun x
      let _ ← outside o -- __server_stop
      let _ ← outside o -- run_post_command
      let data ← resultAppend id data row
      measureAll id key iterations clientRun xs data
    else raise

/-- `FioRunner(benchmark, config, idfile).run()`. -/
def fioRun (id : Int) (b : Benchmark) : Attempt Lab Unit := do
  let job := b.oneseries.get?
  if verifyOneseries job fioRequired then
    match b.req with
    | .dict ks _ =>
      if "direct_write_to_pmem" ∈ ks then
        let (key, xs) ← ofOption (fioAxis job)
        let data ← gets fun lab => lab.rows id
        let _ ← outside o -- __validate
        let rw ← ofOption (strOf (job "rw"))
        measureAll o id key (fun _ => true) (fioClientRun o rw id key) xs data
      else raise
    | _ => raise
  else raise

/-- `IbReadRunner(benchmark, config, idfile).run()`. -/
def ibRun (id : Int) (b : Benchmark) : Attempt Lab Unit := do
  let job := b.oneseries.get?
  if verifyOneseries job ibRequired then
    let (key, xs) ← ofOption (ibAxis job)
    let data ← gets fun lab => lab.rows id
    let _ ← outside o -- __validate
    let mode ← ofOption (strOf (job "mode"))
    measureAll o id key (fun x => x ∈ ibIterations mode) (ibClientRun o id key) xs data
  else raise

/-- `Executor.run`. -/
def executorRun (id : Int) (b : Benchmark) : Attempt Lab Unit :=
  match strOf (b.oneseries.get? "tool") with
  | some "fio" => fioRun o id b
  | some "ib_read" => ibRun o id b
  | _ => raise

/-- `Benchmark.run`, before it marks the benchmark as done. -/
def benchmarkRun (config : Dict) (b : Benchmark) : Attempt Lab Unit :=
  if ["filetype", "id", "tool", "mode"].all (fun k => (b.oneseries.get? k).isSome) ∧
      (config.get? "SERVER_IP").isSome then do
    let id ← ofOption (identifier b.oneseries.get?)
    executorRun o id b
  else raise

end Runner

/-! ## What the rows report -/

/-- What the rows report under `key`. -/
def texts (key : String) (rows : List Row) : List (Option String) := rows.map fun r => r.head key

/-- What rows for the x values `xs` report. -/
def asked (xs : List Nat) : List (Option String) := xs.map fun x => some (str x)

/-- The rows of the result file report a prefix of the x values, in their order. -/
def Rows (lab : Lab) (job : Job) : Prop := ∀ key xs id, axis job = some (key, xs) →
  identifier job = some id → ∃ m, texts key (lab.rows id) = asked (xs.take m)

/-- The result file has one row for each x value, in their order. -/
def Recorded (lab : Lab) (job : Job) : Prop := ∃ key xs id, axis job = some (key, xs) ∧
  identifier job = some id ∧ texts key (lab.rows id) = asked xs

/-- A measurement of an x value that no row recorded by then reports. -/
def Measured.Fresh (e : Measured) : Prop := some (str e.x) ∉ texts e.key e.before

/-- What holds of the lab at every step: `J` are the benchmarks of the plan, `S` some that are
recorded. -/
structure Good (J S : Job → Prop) (lab : Lab) : Prop where
  rows : ∀ job, J job → Rows lab job
  recorded : ∀ job, S job → Recorded lab job
  fresh : ∀ e ∈ lab.log, e.Fresh

/-- The lists of x values there are. -/
def valueLists : List (List Nat) :=
  [bsValues, [1, 2, 4, 8, 16, 32, 64, 128], [1, 2, 3, 4, 5, 6, 7, 8, 9, 10],
    [1, 2, 4, 8, 12, 16, 32, 64], [1, 2, 4, 8, 12], [0, 25, 50, 75, 99], [75, 80, 85, 90, 95, 99]]

theorem valueLists_nodup : ∀ xs ∈ valueLists, (asked xs).Nodup ∧ xs ≠ [] := by
  decide

theorem xAxis_mem {xKeys : List String} {settings : List (String × Setting)} {key : String}
    {xs : List Nat} (h : xAxis xKeys settings = some (key, xs)) :
    ∃ kv ∈ settings, kv.2 = .many xs := by
  obtain ⟨k, -, hk⟩ := List.exists_of_findSome?_eq_some h
  split at hk
  · rename_i ys hys
    obtain ⟨rfl, rfl⟩ := Prod.mk.inj (Option.some.inj hk)
    obtain ⟨l₁, l₂, hset, -⟩ := List.lookup_eq_some_iff.mp hys
    exact ⟨(k, .many ys), by rw [hset]; simp, rfl⟩
  · exact absurd hk (by simp)

theorem fioSettings_values {cpuload : List Nat} {mode : String}
    {settings : List (String × Setting)} (h : fioSettings cpuload mode = some settings)
    (hcpu : isCpuMode mode = true → cpuload ∈ valueLists) :
    ∀ kv ∈ settings, ∀ xs, kv.2 = .many xs → xs ∈ valueLists := by
  unfold fioSettings at h
  split at h
  case h_9 => exact absurd h (by simp)
  all_goals
    obtain rfl := Option.some.inj h
    simp [isCpuMode, valueLists] at hcpu ⊢
  all_goals exact hcpu

theorem ibSettings_values {mode : String} {settings : List (String × Setting)}
    (h : ibSettings mode = some settings) :
    ∀ kv ∈ settings, ∀ xs, kv.2 = .many xs → xs ∈ valueLists := by
  unfold ibSettings at h
  split at h
  case h_6 => exact absurd h (by simp)
  all_goals
    obtain rfl := Option.some.inj h
    simp [valueLists]

theorem cpuLoadRange_values {v : PyVal} {xs : List Nat} (h : cpuLoadRange v = some xs) :
    xs ∈ valueLists := by
  unfold cpuLoadRange at h
  split at h
  · obtain rfl := Option.some.inj h
    decide
  · obtain rfl := Option.some.inj h
    decide
  · exact absurd h (by simp)

/-- The x values of an axis differ as texts, and there is one. -/
theorem axis_values {job : Job} {key : String} {xs : List Nat} (h : axis job = some (key, xs)) :
    (asked xs).Nodup ∧ xs ≠ [] := by
  refine valueLists_nodup xs ?_
  unfold axis at h
  split at h
  · simp only [fioAxis, Option.bind_eq_bind, Option.bind_eq_some_iff] at h
    obtain ⟨mode, -, cpuload, hcpu, settings, hset, hx⟩ := h
    obtain ⟨kv, hkv, hmany⟩ := xAxis_mem hx
    refine fioSettings_values hset (fun hmode => ?_) kv hkv xs hmany
    rw [cpuLoads, if_pos hmode] at hcpu
    exact cpuLoadRange_values hcpu
  · simp only [ibAxis, Option.bind_eq_bind, Option.bind_eq_some_iff] at h
    obtain ⟨mode, -, settings, hset, hx⟩ := h
    obtain ⟨kv, hkv, hmany⟩ := xAxis_mem hx
    exact ibSettings_values hset kv hkv xs hmany
  · exact absurd h (by simp)

theorem resultIsDone_eq {key : String} (x : Nat) : ∀ {rows : List Row} {ys : List Nat},
    texts key rows = asked ys →
    resultIsDone key x rows = some (decide (some (str x) ∈ asked ys))
  | [], [], _ => by simp [resultIsDone, asked]
  | [], y :: ys, h => by simp [texts, asked] at h
  | r :: rs, [], h => by simp [texts, asked] at h
  | r :: rs, y :: ys, h => by
    obtain ⟨hhead, htail⟩ := List.cons.inj (show r.head key :: texts key rs =
      some (str y) :: asked ys from h)
    have ih := resultIsDone_eq x htail
    rw [resultIsDone, hhead]
    show (if str y = str x then some true else resultIsDone key x rs) = _
    by_cases hyx : str y = str x
    · simp [asked, hyx]
    · rw [if_neg hyx, ih]
      have hyx' : ¬ str x = str y := fun he => hyx he.symm
      simp [asked, hyx']

/-! ## What a runner does to the lab -/

/-- Two benchmarks of the plan do not share a result file. -/
def OwnFiles (J : Job → Prop) : Prop := ∀ job job' id, J job → J job' →
  identifier job = some id → identifier job' = some id → job = job'

section Steps

variable {o : Oracle} {J S : Job → Prop} {id : Int} {data : List Row}

/-- The lab is good, and the runner holds what its result file holds. -/
def At (J S : Job → Prop) (id : Int) (data : List Row) (lab : Lab) : Prop :=
  Good J S lab ∧ lab.rows id = data

theorem outside_spec {E P : Lab → Prop} (hE : ∀ lab, P lab → E lab)
    (hP : ∀ lab n, P lab → P { lab with steps := n }) : Spec E P (outside o) fun _ => P := by
  refine Spec.bind (Q := fun _ => P) (Spec.gets fun _ hp => hp) fun n => ?_
  refine Spec.bind (Q := fun _ => P) (Spec.modify fun lab hp => hP lab (n + 1) hp) fun _ => ?_
  exact Spec.ite (fun _ => Spec.raise hE) fun _ => Spec.pure fun _ hp => hp

theorem At.steps {lab : Lab} (h : At J S id data lab) (n : Nat) :
    At J S id data { lab with steps := n } :=
  ⟨⟨h.1.rows, h.1.recorded, h.1.fresh⟩, h.2⟩

theorem outside_at : Spec (Good J S) (At J S id data) (outside o) fun _ => At J S id data :=
  outside_spec (fun _ h => h.1) fun _ n h => h.steps n

theorem logMeasured_at {key : String} {x : Nat} (hx : some (str x) ∉ texts key data) :
    Spec (Good J S) (At J S id data) (logMeasured id key x) fun _ => At J S id data := by
  refine Spec.modify fun lab h => ⟨⟨h.1.rows, h.1.recorded, ?_⟩, h.2⟩
  intro e he
  rcases List.mem_append.mp he with he | he
  · exact h.1.fresh e he
  · rw [List.mem_singleton.mp he, Measured.Fresh, h.2]
    exact hx

/-- What the client of a runner does: it measures and returns a row for its x value. -/
def Measures (J S : Job → Prop) (id : Int) (key : String) (client : Nat → Attempt Lab Row) :
    Prop := ∀ data x, some (str x) ∉ texts key data →
  Spec (Good J S) (At J S id data) (client x) fun row lab =>
    At J S id data lab ∧ row.head key = some (str x)

theorem fioClientRun_measures (ho : o.Reports) (rw : String) (key : String) :
    Measures J S id key (fioClientRun o rw id key) := by
  intro data x hx
  have hrow : ∀ result : Cols × Cols, result.1 key = some (str x) → result.2 key = some (str x) →
      (fioRow rw result).head key = some (str x) := by
    intro result h1 h2
    unfold fioRow
    split
    · exact h1
    · split
      · exact h2
      · exact h1
  refine Spec.bind (logMeasured_at hx) fun _ => Spec.bind outside_at fun n => ?_
  refine Spec.ite (fun hk => Spec.pure fun lab h => ⟨h, hrow _ ?_ ?_⟩) fun _ =>
    Spec.pure fun lab h => ⟨h, hrow _ (ho n key x).1 (ho n key x).2.1⟩
  · simp [setCpuload, hk]
  · simp [setCpuload, hk]

theorem ibClientRun_measures (ho : o.Reports) (key : String) :
    Measures J S id key (ibClientRun o id key) := by
  intro data x hx
  refine Spec.bind (logMeasured_at hx) fun _ => Spec.bind outside_at fun n => ?_
  exact Spec.pure fun lab h => ⟨h, (ho n key x).2.2⟩

/-- Writing the next row: one more x value of this benchmark is recorded, and no other result
file is touched. -/
theorem resultAppend_at {job : Job} {key : String} {xs ys : List Nat} {x : Nat} {row : Row}
    (hJ : OwnFiles J) (hS : ∀ job, S job → J job) (hjob : J job)
    (hid : identifier job = some id) (hxs : axis job = some (key, xs ++ x :: ys))
    (hdata : texts key data = asked xs) (hrow : row.head key = some (str x)) :
    Spec (Good J S) (At J S id data) (resultAppend id data row) fun data' lab =>
      At J S id data' lab ∧ data' = data ++ [row] := by
  have hnew : texts key (data ++ [row]) = asked (xs ++ [x]) := by
    have happ : texts key (data ++ [row]) = texts key data ++ [row.head key] := by simp [texts]
    rw [happ, hdata, hrow]
    simp [asked]
  refine Spec.bind (Spec.modify fun lab h => ?_) fun _ => Spec.pure fun lab h => ⟨h, rfl⟩
  let lab' : Lab :=
    { lab with files := fun i => if i = id then some (data ++ [row]) else lab.files i }
  have hown : lab'.rows id = data ++ [row] := by simp [lab', Lab.rows]
  have hother : ∀ i, i ≠ id → lab'.rows i = lab.rows i := fun i hi => by simp [lab', Lab.rows, hi]
  show At J S id (data ++ [row]) lab'
  refine ⟨⟨fun job' hjob' key' xs' id' hx' hid' => ?_, fun job' hjob' => ?_, h.1.fresh⟩, hown⟩
  · by_cases hi : id' = id
    · subst hi
      obtain rfl := hJ job job' id' hjob hjob' hid hid'
      obtain ⟨rfl, rfl⟩ := Prod.mk.inj (Option.some.inj (hxs.symm.trans hx'))
      have htake : (xs ++ x :: ys).take (xs.length + 1) = xs ++ [x] := by
        rw [List.append_cons, List.take_append_of_le_length (by simp),
          List.take_of_length_le (by simp)]
      exact ⟨xs.length + 1, by rw [hown, hnew, htake]⟩
    · rw [hother id' hi]
      exact h.1.rows job' hjob' key' xs' id' hx' hid'
  · obtain ⟨key', xs', id', hx', hid', hrec⟩ := h.1.recorded job' hjob'
    by_cases hi : id' = id
    · -- the benchmark at hand is not recorded yet
      subst hi
      obtain rfl := hJ job job' id' hjob (hS job' hjob') hid hid'
      obtain ⟨rfl, rfl⟩ := Prod.mk.inj (Option.some.inj (hxs.symm.trans hx'))
      rw [h.2, hdata] at hrec
      have hlen := congrArg List.length hrec
      simp [asked] at hlen
    · exact ⟨key', xs', id', hx', hid', by rw [hother id' hi]; exact hrec⟩

/-- **The loop of a runner**: with the x values before `ys` recorded, it returns only when all
are. -/
theorem measureAll_spec {job : Job} {key : String} {xs : List Nat} {iterations : Nat → Bool}
    {client : Nat → Attempt Lab Row} (hJ : OwnFiles J) (hS : ∀ job, S job → J job)
    (hjob : J job) (hid : identifier job = some id) (hxs : axis job = some (key, xs))
    (hclient : Measures J S id key client) : ∀ (ys pre : List Nat) (data : List Row) (m : Nat),
    xs = pre ++ ys → pre.length ≤ m → m ≤ xs.length → texts key data = asked (xs.take m) →
    Spec (Good J S) (At J S id data) (measureAll o id key iterations client ys data)
      fun _ lab => Good J S lab ∧ Recorded lab job
  | [], pre, data, m, hpre, hm, hle, hdata => by
    refine Spec.pure fun lab h => ⟨h.1, key, xs, id, hxs, hid, ?_⟩
    rw [List.append_nil] at hpre
    rw [h.2, hdata, List.take_of_length_le (by rw [hpre]; exact hm)]
  | x :: ys, pre, data, m, hpre, hm, hle, hdata => by
    have hnodup := (axis_values hxs).1
    have hlen : xs.length = pre.length + (ys.length + 1) := by rw [hpre]; simp
    have hnext : xs = (pre ++ [x]) ++ ys := by rw [hpre]; simp
    rw [measureAll]
    refine Spec.bind (Spec.ofOption (fun _ h => h.1) (Q := fun done lab => At J S id data lab ∧
      done = decide (some (str x) ∈ asked (xs.take m))) fun done hdone lab h => ⟨h, ?_⟩)
      fun done => Spec.and_pure fun hdone => ?_
    · rw [resultIsDone_eq x hdata] at hdone
      exact (Option.some.inj hdone).symm
    rcases Nat.lt_or_ge pre.length m with hlt | hge
    · -- the row is there
      have hmem : x ∈ xs.take m := by
        rw [hpre, List.take_append, List.mem_append]
        right
        obtain ⟨j, hj⟩ := Nat.exists_eq_add_of_lt hlt
        rw [show m - pre.length = j + 1 by omega]
        simp
      have htrue : done = true := by
        rw [hdone, decide_eq_true_iff]
        exact List.mem_map_of_mem hmem
      rw [if_pos htrue]
      exact measureAll_spec hJ hS hjob hid hxs hclient ys (pre ++ [x]) data m hnext
        (by simp; omega) hle hdata
    · -- the row is not there: measure and write it
      have hmeq : m = pre.length := Nat.le_antisymm hge hm
      have htake : xs.take m = pre := by rw [hpre, hmeq]; simp
      rw [htake] at hdata hdone
      have hfresh : some (str x) ∉ asked pre := by
        intro hmem
        rw [hpre, asked, List.map_append, List.nodup_append] at hnodup
        exact hnodup.2.2 _ hmem _ (by simp) rfl
      have hfalse : ¬ done = true := by
        rw [hdone, decide_eq_true_iff]
        exact hfresh
      rw [if_neg hfalse]
      refine Spec.ite (fun _ => ?_) fun _ => Spec.raise fun _ h => h.1
      refine Spec.bind outside_at fun _ => Spec.bind outside_at fun _ => ?_
      refine Spec.bind (hclient data x (by rw [hdata]; exact hfresh)) fun row => ?_
      refine Spec.and_pure fun hrow => ?_
      refine Spec.bind outside_at fun _ => Spec.bind outside_at fun _ => ?_
      refine Spec.bind (resultAppend_at hJ hS hjob hid (by rw [hxs, hpre]) hdata hrow)
        fun data' => Spec.and_pure fun hdata' => ?_
      refine measureAll_spec hJ hS hjob hid hxs hclient ys (pre ++ [x]) data' (m + 1) hnext
        (by simp; omega) (by omega) ?_
      rw [hdata', hnext, List.take_append_of_le_length (by simp; omega),
        List.take_of_length_le (by simp; omega)]
      simp only [texts, asked, List.map_append] at hdata ⊢
      rw [hdata]
      simp [hrow]

/-- Loading the rows: the loop starts from a prefix of the x values. -/
theorem load_spec {job : Job} {key : String} {xs : List Nat} {rest : List Row → Attempt Lab Unit}
    {Q : Unit → Lab → Prop} (hjob : J job) (hid : identifier job = some id)
    (hxs : axis job = some (key, xs))
    (hrest : ∀ data m, m ≤ xs.length → texts key data = asked (xs.take m) →
      Spec (Good J S) (At J S id data) (rest data) Q) :
    Spec (Good J S) (Good J S) (do
      let data ← gets fun lab => lab.rows id
      let _ ← outside o
      rest data) Q := by
  refine Spec.bind (Q := fun data lab => At J S id data lab ∧
    ∃ m, texts key data = asked (xs.take m)) (Spec.gets fun lab h => ⟨⟨h, rfl⟩, ?_⟩) fun data => ?_
  · exact h.rows job hjob key xs id hxs hid
  · refine Spec.and_pure fun hdata => Spec.bind outside_at fun _ => ?_
    obtain ⟨m, hm⟩ := hdata
    refine hrest data (min m xs.length) (Nat.min_le_right _ _) ?_
    rw [hm, ← List.take_eq_take_min]

end Steps

/-! ## One benchmark -/

/-- What a benchmark asks; whether it is done does not count. -/
def Benchmark.job (b : Benchmark) : Job := fun k =>
  if k = "done" then none else b.oneseries.get? k

theorem Benchmark.job_of_ne (b : Benchmark) {k : String} (h : k ≠ "done") :
    b.job k = b.oneseries.get? k := if_neg h

/-- The x-axis does not depend on `done`. -/
theorem axis_congr {f g : Job} (h : ∀ k, k ≠ "done" → f k = g k) : axis f = axis g := by
  simp [axis, fioAxis, ibAxis, cpuLoads, h "tool" (by decide), h "mode" (by decide),
    h "cpu_load_range" (by decide)]

theorem identifier_congr {f g : Job} (h : ∀ k, k ≠ "done" → f k = g k) :
    identifier f = identifier g := by
  simp [identifier, h "id" (by decide)]

section Run

variable {o : Oracle} {J S : Job → Prop} {b : Benchmark} {id : Int}

/-- What both runners do once the benchmark is verified: find the x-axis, load the rows, read a
field `arg` and measure. -/
theorem measure_spec {ax : Option (String × List Nat)} {arg : Option String}
    {iterations : String → Nat → Bool} {client : String → String → Nat → Attempt Lab Row}
    (hJ : OwnFiles J) (hS : ∀ job, S job → J job) (hjob : J b.job)
    (hid : identifier b.job = some id) (haxis : axis b.job = ax)
    (hclient : ∀ a key, Measures J S id key (client a key)) :
    Spec (Good J S) (Good J S) (do
      let (key, xs) ← ofOption ax
      let data ← gets fun lab => lab.rows id
      let _ ← outside o
      let a ← ofOption arg
      measureAll o id key (iterations a) (client a key) xs data)
      fun _ lab => Good J S lab ∧ Recorded lab b.job := by
  refine Spec.bind (Spec.ofOption (fun _ h => h) (Q := fun kx lab => Good J S lab ∧
    axis b.job = some kx) fun kx hkx lab h => ⟨h, haxis.trans hkx⟩) fun kx => ?_
  refine Spec.and_pure fun hxs => load_spec hjob hid hxs fun data m hm hdata => ?_
  refine Spec.bind (Spec.ofOption (fun _ h => h.1) (Q := fun _ => At J S id data)
    fun _ _ _ h => h) fun a => ?_
  exact measureAll_spec hJ hS hjob hid hxs (hclient a kx.1) kx.2 [] data m rfl
    (Nat.zero_le _) hm hdata

theorem fioRun_spec (ho : o.Reports) (hJ : OwnFiles J) (hS : ∀ job, S job → J job)
    (hjob : J b.job) (hid : identifier b.job = some id)
    (htool : strOf (b.oneseries.get? "tool") = some "fio") :
    Spec (Good J S) (Good J S) (fioRun o id b) fun _ lab => Good J S lab ∧ Recorded lab b.job := by
  have haxis : axis b.job = fioAxis b.oneseries.get? := by
    rw [axis_congr fun k hk => b.job_of_ne hk, axis, htool]
    rfl
  unfold fioRun
  refine Spec.ite (fun _ => ?_) fun _ => Spec.raise fun _ h => h
  split
  · refine Spec.ite (fun _ => ?_) fun _ => Spec.raise fun _ h => h
    exact measure_spec hJ hS hjob hid haxis
      fun rw key => fioClientRun_measures ho rw key
  · exact Spec.raise fun _ h => h

theorem ibRun_spec (ho : o.Reports) (hJ : OwnFiles J) (hS : ∀ job, S job → J job)
    (hjob : J b.job) (hid : identifier b.job = some id)
    (htool : strOf (b.oneseries.get? "tool") = some "ib_read") :
    Spec (Good J S) (Good J S) (ibRun o id b) fun _ lab => Good J S lab ∧ Recorded lab b.job := by
  have haxis : axis b.job = ibAxis b.oneseries.get? := by
    rw [axis_congr fun k hk => b.job_of_ne hk, axis, htool]
    rfl
  unfold ibRun
  refine Spec.ite (fun _ => ?_) fun _ => Spec.raise fun _ h => h
  exact measure_spec hJ hS hjob hid haxis fun _ key => ibClientRun_measures ho key

/-- **Running a benchmark of the plan**: whatever raises, the lab stays good; if nothing does, the
benchmark is recorded. -/
theorem benchmarkRun_spec (ho : o.Reports) (hJ : OwnFiles J) (hS : ∀ job, S job → J job)
    (hjob : J b.job) (config : Dict) :
    Spec (Good J S) (Good J S) (benchmarkRun o config b)
      fun _ lab => Good J S lab ∧ Recorded lab b.job := by
  unfold benchmarkRun
  refine Spec.ite (fun _ => ?_) fun _ => Spec.raise fun _ h => h
  refine Spec.bind (Spec.ofOption (fun _ h => h) (Q := fun id lab => Good J S lab ∧
    identifier b.job = some id) fun id hid lab h => ⟨h, ?_⟩) fun id => Spec.and_pure fun hid => ?_
  · rw [identifier_congr fun k hk => b.job_of_ne hk]
    exact hid
  · unfold executorRun
    split
    · exact fioRun_spec ho hJ hS hjob hid ‹_›
    · exact ibRun_spec ho hJ hS hjob hid ‹_›
    · exact Spec.raise fun _ h => h

end Run

end Rpma.Perf
