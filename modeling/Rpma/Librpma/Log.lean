import Rpma.Lib.Cas
import Rpma.Librpma.Provider
import Mathlib.Logic.Relation

/-!
# The logging function and the thresholds under any interleaving

`log.c` keeps a pointer to the logging function and two thresholds. Threads set them with
compare-and-swap, and every message reads a threshold once and the pointer twice. The steps of the
model are the reads and writes of these three cells.

## What is modelled

* `rpma_log_set_function` (log.c 86): the load of `Rpma_log_function`, and the compare-and-swap that
  stores the new function or answers `RPMA_E_AGAIN`. `rpma_log_init` (log.c 46) repeats the call
  with the default function until it returns 0.
* `rpma_log_set_threshold` (log.c 114): the checks of the threshold and of the level, the load, the
  compare-and-swap.
* `rpma_log_get_threshold` (log.c 143): the checks and the load. It never answers `RPMA_E_AGAIN`, so
  the loop around its call is one load.
* `RPMA_LOG` (log_internal.h 26): the read of the threshold, the comparison of the pointer with
  `NULL`, and the second read of the pointer, which is the function that is called.
* `rpma_log_fini` (log.c 59): the store of `NULL`.

Each read and each write of a cell is a step of its own, so that every order of the threads' accesses
is a run. An event is recorded with the access that it is about: `given` with the swap by which
`rpma_log_set_function` stores the function, `called` with the second read of `RPMA_LOG`.

**Out of scope**: what a logging function does with the message (`rpma_log_default_function`, the
time stamp, `stderr` and `syslog`) and the `rpma_log_default_init` and `rpma_log_default_fini` around
it; `RPMA_LOG_ALWAYS`, which reads none of the cells; a memory weaker than one where each access is
atomic and seen by all threads.

## Results

* **`again_bound`**: of `n` threads, at most `n - 1` calls per write of a cell have to be repeated
  because of it.
* **`logging_safe`**: the thresholds are levels, and a message goes to the default function or to one
  that `rpma_log_set_function` has stored; the pointer is `NULL` there only after `rpma_log_fini`.
-/

namespace Rpma.Librpma.Log

open Rpma.Lib Relation

/-! ## The model -/

/-- `RPMA_E_AGAIN`. -/
def rpmaEAgain : Int := -100007

/-- `RPMA_LOG_DISABLED`, the least `enum rpma_log_level`. -/
def rpmaLogDisabled : Int := -1

/-- `RPMA_LOG_LEVEL_WARNING`. -/
def rpmaLogLevelWarning : Int := 2

/-- `RPMA_LOG_LEVEL_DEBUG`, the greatest one. -/
def rpmaLogLevelDebug : Int := 5

/-- `enum rpma_log_threshold`. -/
inductive Threshold where
  | threshold | aux
  deriving DecidableEq, Repr

def Threshold.ofInt (i : Int) : Option Threshold :=
  if i = 0 then some .threshold else if i = 1 then some .aux else none

/-- `RPMA_LOG_THRESHOLD_DEFAULT` and `RPMA_LOG_THRESHOLD_AUX_DEFAULT`, with or without `DEBUG`. -/
def Threshold.default (debug : Bool) : Threshold → Int
  | .threshold => if debug then rpmaLogLevelDebug else rpmaLogLevelWarning
  | .aux => if debug then rpmaLogLevelWarning else rpmaLogDisabled

/-- `Rpma_log_function` and the elements of `Rpma_log_threshold`. -/
inductive Var where
  | function
  | threshold (th : Threshold)
  deriving DecidableEq, Repr

/-- A call of `log.c`, or a message by `RPMA_LOG`. A logging function is some `f : F`, `none` is
`NULL`. -/
inductive Call (F : Type) where
  | init
  | setFunction (logFunction : Option F)
  | setThreshold (threshold level : Int)
  | getThreshold (threshold : Int) (wanted : Bool)
  | log (level : Int)
  | fini
  deriving DecidableEq, Repr

/-- Where a thread is: at the load or at the compare-and-swap of a call that sets, at a read of
`RPMA_LOG`, at the store of `rpma_log_fini`, or in no call, with what the last one returned. In
`rpma_log_init` the call is repeated. -/
inductive Pc (F : Type) where
  | returned (ret : Int) (level : Option Int)
  | setFunction (f : F) (init : Bool)
  | swapFunction (old : Option F) (f : F) (init : Bool)
  | setThreshold (th : Threshold) (level : Int)
  | swapThreshold (th : Threshold) (old level : Int)
  | log (level : Int)
  | logCheck (level : Int)
  | logCall (level : Int)
  | fini
  deriving DecidableEq, Repr

/-- What has happened: a cell was written, a swap of it was lost, `rpma_log_fini` has run,
`rpma_log_set_function` has stored `f`, a message has gone to `f`. -/
inductive Event (F : Type) where
  | wrote (v : Var)
  | again (v : Var)
  | finished
  | given (f : F)
  | called (f : Option F) (level : Int)
  deriving DecidableEq, Repr

structure State (T F : Type) where
  function : Option F
  threshold : Threshold → Int
  pc : T → Pc F
  events : List (Event F)

section Steps

variable {T F : Type}

def State.start (debug : Bool) : State T F where
  function := none
  threshold := Threshold.default debug
  pc _ := .returned 0 none
  events := []

/-- `rpma_log_get_threshold`: what it returns and what it stores at `level`, which may be `NULL`. -/
def State.getThreshold (s : State T F) (threshold : Int) (wanted : Bool) : Int × Option Int :=
  match Threshold.ofInt threshold with
  | none => (rpmaEInval, none)
  | some th => if wanted then (0, some (s.threshold th)) else (rpmaEInval, none)

variable [DecidableEq T] [DecidableEq F]

def State.goto (s : State T F) (t : T) (pc : Pc F) : State T F :=
  { s with pc := Function.update s.pc t pc }

variable (dflt : F)

/-- The thread `t` begins a call. `dflt` is `rpma_log_default_function`. -/
def State.call (s : State T F) (t : T) (c : Call F) : Option (State T F) :=
  match s.pc t with
  | .returned _ _ =>
    match c with
    | .init => some (s.goto t (.setFunction dflt true))
    | .setFunction logFunction => some (s.goto t (.setFunction (logFunction.getD dflt) false))
    | .setThreshold threshold level =>
      match Threshold.ofInt threshold with
      | none => some (s.goto t (.returned rpmaEInval none))
      | some th =>
        if level < rpmaLogDisabled ∨ level > rpmaLogLevelDebug then
          some (s.goto t (.returned rpmaEInval none))
        else some (s.goto t (.setThreshold th level))
    | .getThreshold threshold wanted =>
      let (ret, level) := s.getThreshold threshold wanted
      some (s.goto t (.returned ret level))
    | .log level => some (s.goto t (.log level))
    | .fini => some (s.goto t .fini)
  | _ => none

/-- The thread `t` goes on with its call. -/
def State.step (s : State T F) (t : T) : Option (State T F) :=
  match s.pc t with
  | .returned _ _ => none
  | .setFunction f init => some (s.goto t (.swapFunction s.function f init))
  | .swapFunction old f init =>
    if s.function = old then
      some { s.goto t (.returned 0 none) with
        function := some f
        events := s.events ++ .wrote .function :: if init then [] else [.given f] }
    else
      some { s.goto t (if init then .setFunction f true else .returned rpmaEAgain none) with
        events := s.events ++ [.again .function] }
  -- the loop around `rpma_log_get_threshold` runs once: it never returns `RPMA_E_AGAIN`
  | .setThreshold th level => some (s.goto t (.swapThreshold th (s.threshold th) level))
  | .swapThreshold th old level =>
    if s.threshold th = old then
      some { s.goto t (.returned 0 none) with
        threshold := fun th' => if th' = th then level else s.threshold th'
        events := s.events ++ [.wrote (.threshold th)] }
    else
      some { s.goto t (.returned rpmaEAgain none) with
        events := s.events ++ [.again (.threshold th)] }
  | .log level =>
    some (s.goto t (if level ≤ s.threshold .threshold then .logCheck level else .returned 0 none))
  | .logCheck level =>
    some (s.goto t (if s.function.isSome then .logCall level else .returned 0 none))
  | .logCall level =>
    some { s.goto t (.returned 0 none) with events := s.events ++ [.called s.function level] }
  | .fini =>
    some { s.goto t (.returned 0 none) with
      function := none, events := s.events ++ [.wrote .function, .finished] }

/-- A thread begins a call or goes on with it. -/
def Step (s s' : State T F) : Prop := ∃ t, s.step t = some s' ∨ ∃ c, s.call dflt t c = some s'

def Reachable (debug : Bool) : State T F → Prop := ReflTransGen (Step dflt) (State.start debug)

/-- A run: which thread goes on, or begins a call. -/
def State.run (s : State T F) : List (T × Option (Call F)) → Option (State T F)
  | [] => some s
  | (t, none) :: acts => (s.step t).bind fun s' => s'.run acts
  | (t, some c) :: acts => (s.call dflt t c).bind fun s' => s'.run acts

theorem State.reachable_of_run {debug : Bool} {s s' : State T F} {acts : List (T × Option (Call F))}
    (hs : Reachable dflt debug s) (h : s.run dflt acts = some s') : Reachable dflt debug s' := by
  induction acts generalizing s with
  | nil => exact Option.some.inj h ▸ hs
  | cons act acts ih =>
    obtain ⟨t, c⟩ := act
    cases c with
    | none =>
      obtain ⟨u, hu, hrun⟩ := Option.bind_eq_some_iff.mp h
      exact ih (hs.tail ⟨t, Or.inl hu⟩) hrun
    | some c =>
      obtain ⟨u, hu, hrun⟩ := Option.bind_eq_some_iff.mp h
      exact ih (hs.tail ⟨t, Or.inr ⟨c, hu⟩⟩) hrun

end Steps

/-! ## Lost swaps -/

section Bound

variable {T F : Type}

def Pc.loadedFunction : Pc F → Option (Option F)
  | .swapFunction old _ _ => some old
  | _ => none

def Pc.loadedThreshold (th : Threshold) : Pc F → Option Int
  | .swapThreshold th' old _ => if th' = th then some old else none
  | _ => none

/-- The pointer, with what the threads have loaded of it. -/
def State.functionCell (s : State T F) : Cell T (Option F) where
  value := s.function
  loaded t := (s.pc t).loadedFunction

/-- A threshold, with what the threads have loaded of it. -/
def State.thresholdCell (s : State T F) (th : Threshold) : Cell T Int where
  value := s.threshold th
  loaded t := (s.pc t).loadedThreshold th

variable {s : State T F} {t : T}

theorem stale_function {old : Option F} {f : F} {init : Bool}
    (hpc : s.pc t = .swapFunction old f init) (hold : s.function ≠ old) :
    s.functionCell.Stale t := by
  simp [Cell.Stale, State.functionCell, hpc, Pc.loadedFunction, Ne.symm hold]

theorem stale_threshold {th : Threshold} {old level : Int}
    (hpc : s.pc t = .swapThreshold th old level) (hold : s.threshold th ≠ old) :
    (s.thresholdCell th).Stale t := by
  simp [Cell.Stale, State.thresholdCell, hpc, Pc.loadedThreshold, Ne.symm hold]

variable [DecidableEq T] {dflt : F} {s' : State T F} {w l : Nat}

theorem functionCell_eq {pc : Pc F} (h : s'.pc = Function.update s.pc t pc) :
    s'.functionCell = ⟨s'.function, Function.update s.functionCell.loaded t pc.loadedFunction⟩ := by
  have hloaded : (fun u => (s'.pc u).loadedFunction) =
      Function.update s.functionCell.loaded t pc.loadedFunction := by
    funext u
    rw [h]
    by_cases hu : u = t
    · rw [hu, Function.update_self, Function.update_self]
    · rw [Function.update_of_ne hu, Function.update_of_ne hu]
      rfl
  rw [← hloaded]
  rfl

theorem thresholdCell_eq {pc : Pc F} (th : Threshold) (h : s'.pc = Function.update s.pc t pc) :
    s'.thresholdCell th =
      ⟨s'.threshold th, Function.update (s.thresholdCell th).loaded t (pc.loadedThreshold th)⟩ := by
  have hloaded : (fun u => (s'.pc u).loadedThreshold th) =
      Function.update (s.thresholdCell th).loaded t (pc.loadedThreshold th) := by
    funext u
    rw [h]
    by_cases hu : u = t
    · rw [hu, Function.update_self, Function.update_self]
    · rw [Function.update_of_ne hu, Function.update_of_ne hu]
      rfl
  rw [← hloaded]
  rfl

theorem function_moved {pc : Pc F} (hpc : s'.pc = Function.update s.pc t pc)
    (h : s.functionCell.Moved
      ⟨s'.function, Function.update s.functionCell.loaded t pc.loadedFunction⟩ w l) :
    s.functionCell.Moved s'.functionCell w l := by
  rwa [functionCell_eq hpc]

theorem threshold_moved {pc : Pc F} {th : Threshold} (hpc : s'.pc = Function.update s.pc t pc)
    (h : (s.thresholdCell th).Moved
      ⟨s'.threshold th, Function.update (s.thresholdCell th).loaded t (pc.loadedThreshold th)⟩
      w l) : (s.thresholdCell th).Moved (s'.thresholdCell th) w l := by
  rwa [thresholdCell_eq th hpc]

theorem function_idle {pc : Pc F} (h : (s.pc t).loadedFunction = none)
    (hpc : s'.pc = Function.update s.pc t pc) (hnone : pc.loadedFunction = none)
    (hf : s'.function = s.function) : s.functionCell.Moved s'.functionCell 0 0 := by
  refine function_moved hpc ?_
  rw [hnone, hf]
  exact .idle h

theorem threshold_idle {pc : Pc F} {th : Threshold} (h : (s.pc t).loadedThreshold th = none)
    (hpc : s'.pc = Function.update s.pc t pc) (hnone : pc.loadedThreshold th = none)
    (hf : s'.threshold th = s.threshold th) :
    (s.thresholdCell th).Moved (s'.thresholdCell th) 0 0 := by
  refine threshold_moved hpc ?_
  rw [hnone, hf]
  exact .idle h

variable [DecidableEq F]

/-- What a step does to the three cells. -/
structure Moves (s s' : State T F) (e : List (Event F)) : Prop where
  events : s'.events = s.events ++ e
  function : s.functionCell.Moved s'.functionCell (e.count (.wrote .function))
    (e.count (.again .function))
  threshold : ∀ th, (s.thresholdCell th).Moved (s'.thresholdCell th)
    (e.count (.wrote (.threshold th))) (e.count (.again (.threshold th)))

/-- Nothing is loaded or written. -/
theorem Moves.idle {pc pc' : Pc F} {e : List (Event F)} (hpc : s.pc t = pc)
    (hf : pc.loadedFunction = none) (ht : ∀ th, pc.loadedThreshold th = none)
    (hf' : pc'.loadedFunction = none) (ht' : ∀ th, pc'.loadedThreshold th = none)
    (he : ∀ v, e.count (.wrote v) = 0 ∧ e.count (.again v) = 0) :
    Moves s { s.goto t pc' with events := s.events ++ e } e := by
  subst hpc
  refine ⟨rfl, ?_, fun th => ?_⟩
  · rw [(he _).1, (he _).2]
    exact function_idle hf rfl hf' rfl
  · rw [(he _).1, (he _).2]
    exact threshold_idle (ht th) rfl (ht' th) rfl

theorem Moves.quiet {pc pc' : Pc F} (hpc : s.pc t = pc)
    (hf : pc.loadedFunction = none) (ht : ∀ th, pc.loadedThreshold th = none)
    (hf' : pc'.loadedFunction = none) (ht' : ∀ th, pc'.loadedThreshold th = none) :
    Moves s (s.goto t pc') [] := by
  have hidle := Moves.idle (e := []) hpc hf ht hf' ht' fun v => ⟨rfl, rfl⟩
  rwa [List.append_nil] at hidle

theorem call_moves {c : Call F} (h : s.call dflt t c = some s') : ∃ e, Moves s s' e := by
  unfold State.call at h
  split at h
  case h_2 => cases h
  case h_1 ret level hpc =>
    have hidle : ∀ {pc : Pc F}, pc.loadedFunction = none → (∀ th, pc.loadedThreshold th = none) →
        Moves s (s.goto t pc) [] := Moves.quiet hpc rfl fun _ => rfl
    cases c with
    | init => exact Option.some.inj h ▸ ⟨[], hidle rfl fun _ => rfl⟩
    | setFunction f => exact Option.some.inj h ▸ ⟨[], hidle rfl fun _ => rfl⟩
    | setThreshold threshold level =>
      dsimp only at h
      split at h
      · exact Option.some.inj h ▸ ⟨[], hidle rfl fun _ => rfl⟩
      · split at h
        · exact Option.some.inj h ▸ ⟨[], hidle rfl fun _ => rfl⟩
        · exact Option.some.inj h ▸ ⟨[], hidle rfl fun _ => rfl⟩
    | getThreshold threshold wanted => exact Option.some.inj h ▸ ⟨[], hidle rfl fun _ => rfl⟩
    | log level => exact Option.some.inj h ▸ ⟨[], hidle rfl fun _ => rfl⟩
    | fini => exact Option.some.inj h ▸ ⟨[], hidle rfl fun _ => rfl⟩

theorem step_moves (h : s.step t = some s') : ∃ e, Moves s s' e := by
  unfold State.step at h
  split at h
  case h_1 => cases h
  case h_2 f init hpc =>
    obtain rfl := Option.some.inj h
    refine ⟨[], (List.append_nil _).symm, function_moved rfl (.load t), fun th => ?_⟩
    exact threshold_idle (congrArg (Pc.loadedThreshold th) hpc) rfl rfl rfl
  case h_3 old f init hpc =>
    split at h
    · obtain rfl := Option.some.inj h
      refine ⟨_, rfl, function_moved rfl ?_, fun th => ?_⟩
      · have hwrite := Cell.Moved.write (c := s.functionCell) t (some f)
        cases init with
        | false => exact hwrite
        | true => exact hwrite
      · cases init with
        | false => exact threshold_idle (congrArg (Pc.loadedThreshold th) hpc) rfl rfl rfl
        | true => exact threshold_idle (congrArg (Pc.loadedThreshold th) hpc) rfl rfl rfl
    · rename_i hold
      obtain rfl := Option.some.inj h
      refine ⟨_, rfl, function_moved rfl ?_, fun th => ?_⟩
      · have hlose := Cell.Moved.lose (stale_function hpc hold)
        cases init with
        | false => exact hlose
        | true => exact hlose
      · cases init with
        | false => exact threshold_idle (congrArg (Pc.loadedThreshold th) hpc) rfl rfl rfl
        | true => exact threshold_idle (congrArg (Pc.loadedThreshold th) hpc) rfl rfl rfl
  case h_4 th level hpc =>
    obtain rfl := Option.some.inj h
    refine ⟨[], (List.append_nil _).symm, ?_, fun th' => threshold_moved rfl ?_⟩
    · exact function_idle (congrArg Pc.loadedFunction hpc) rfl rfl rfl
    · by_cases hth : th = th'
      · subst hth
        simp only [Pc.loadedThreshold, if_true]
        exact .load t
      · simp only [Pc.loadedThreshold, if_neg hth]
        exact .idle (by simp [State.thresholdCell, hpc, Pc.loadedThreshold])
  case h_5 th old level hpc =>
    have hf := congrArg Pc.loadedFunction hpc
    split at h
    · obtain rfl := Option.some.inj h
      refine ⟨_, rfl, function_idle hf rfl rfl rfl, fun th' => ?_⟩
      by_cases hth : th = th'
      · subst hth
        refine threshold_moved rfl ?_
        simp only [if_true, List.count_singleton_self]
        exact .write t level
      · have hcount : [(.wrote (.threshold th) : Event F)].count (.wrote (.threshold th')) = 0 := by
          simp [hth]
        rw [hcount]
        refine threshold_idle ?_ rfl rfl (if_neg (Ne.symm hth))
        rw [hpc]
        exact if_neg hth
    · rename_i hold
      obtain rfl := Option.some.inj h
      refine ⟨_, rfl, function_idle hf rfl rfl rfl, fun th' => ?_⟩
      by_cases hth : th = th'
      · subst hth
        refine threshold_moved rfl ?_
        simp only [List.count_singleton_self]
        exact .lose (stale_threshold hpc hold)
      · have hcount : [(.again (.threshold th) : Event F)].count (.again (.threshold th')) = 0 := by
          simp [hth]
        rw [hcount]
        refine threshold_idle ?_ rfl rfl rfl
        rw [hpc]
        exact if_neg hth
  case h_6 level hpc =>
    obtain rfl := Option.some.inj h
    refine ⟨[], .quiet hpc rfl (fun _ => rfl) ?_ fun th => ?_⟩
    · split <;> rfl
    · split <;> rfl
  case h_7 level hpc =>
    obtain rfl := Option.some.inj h
    refine ⟨[], .quiet hpc rfl (fun _ => rfl) ?_ fun th => ?_⟩
    · split <;> rfl
    · split <;> rfl
  case h_8 level hpc =>
    obtain rfl := Option.some.inj h
    exact ⟨_, .idle hpc rfl (fun _ => rfl) rfl (fun _ => rfl) fun v => ⟨rfl, rfl⟩⟩
  case h_9 hpc =>
    obtain rfl := Option.some.inj h
    refine ⟨_, rfl, function_moved rfl (.write t none), fun th => ?_⟩
    exact threshold_idle (congrArg (Pc.loadedThreshold th) hpc) rfl rfl rfl

/-! ### Runs -/

theorem Step.moves (h : Step dflt s s') : ∃ e, Moves s s' e := by
  obtain ⟨t, h | ⟨c, h⟩⟩ := h
  · exact step_moves h
  · exact call_moves h

/-- A bound on the lost swaps of one of the cells. -/
theorem bound_of_moves {α : Type} [DecidableEq α] [Fintype T] (cell : State T F → Cell T α) (v : Var)
    (hstart : ∀ debug, (cell (.start debug)).stale = ∅)
    (hmoves : ∀ s s' e, Moves s s' e →
      (cell s).Moved (cell s') (e.count (.wrote v)) (e.count (.again v)))
    {debug : Bool} (h : Reachable dflt debug s) :
    s.events.count (.again v) + (cell s).stale.card ≤
      (Fintype.card T - 1) * s.events.count (.wrote v) := by
  induction h with
  | refl =>
    rw [hstart debug]
    simp [State.start]
  | tail _ hstep ih =>
    obtain ⟨e, hm⟩ := hstep.moves
    have hbound := (hmoves _ _ e hm).bound ih
    rwa [hm.events, List.count_append, List.count_append]

/-- **Of `n` threads, at most `n - 1` calls per write of a cell are lost to it.** -/
theorem again_bound [Fintype T] (debug : Bool) (s : State T F) (h : Reachable dflt debug s)
    (v : Var) :
    s.events.count (.again v) ≤ (Fintype.card T - 1) * s.events.count (.wrote v) := by
  have hle : ∀ {n m k : Nat}, n + m ≤ k → n ≤ k := fun h => by omega
  cases v with
  | function =>
    refine hle (bound_of_moves State.functionCell .function (fun debug => ?_)
      (fun s s' e hm => hm.function) h)
    exact Finset.filter_eq_empty_iff.mpr fun t _ hstale => hstale.1 rfl
  | threshold th =>
    refine hle (bound_of_moves (fun s => s.thresholdCell th) (.threshold th) (fun debug => ?_)
      (fun s s' e hm => hm.threshold th) h)
    exact Finset.filter_eq_empty_iff.mpr fun t _ hstale => hstale.1 rfl

/-- Two threads set one threshold at the same time. -/
def bothSet : List (Bool × Option (Call Unit)) :=
  [(true, some (.setThreshold 1 3)), (false, some (.setThreshold 1 4)), (true, none),
    (false, none), (true, none), (false, none)]

theorem again_bound_two : ∃ s : State Bool Unit, Reachable () false s ∧
    s.events.count (.again (.threshold .aux)) = 1 ∧ 1 ≤ (2 - 1) * 1 := by
  have hrun : ((State.start false).run () bothSet).map
      (fun s => (s.events.count (.again (.threshold .aux)),
        s.events.count (.wrote (.threshold .aux)))) = some (1, 1) := by decide +kernel
  obtain ⟨s, hs, heq⟩ := Option.map_eq_some_iff.mp hrun
  obtain ⟨hagain, hwrote⟩ := Prod.mk.inj heq
  have hreach : Reachable () false s := State.reachable_of_run () .refl hs
  have hbound := again_bound false s hreach (.threshold .aux)
  rw [hagain, hwrote] at hbound
  exact ⟨s, hreach, hagain, hbound⟩

end Bound

/-! ## What messages do -/

section Safe

variable {T F : Type} {dflt f : F} {e e' : List (Event F)} {s s' : State T F} {t : T} {pc : Pc F}
  {level : Int}

/-- The default function, or one that `rpma_log_set_function` has stored. -/
def Known (dflt : F) (e : List (Event F)) (f : F) : Prop := f = dflt ∨ .given f ∈ e

def IsLevel (level : Int) : Prop := rpmaLogDisabled ≤ level ∧ level ≤ rpmaLogLevelDebug

/-- A message has gone to a function. -/
def CalledSafe (dflt : F) (e : List (Event F)) (f : Option F) (level : Int) : Prop :=
  level ≤ rpmaLogLevelDebug ∧ (f = none → .finished ∈ e) ∧ ∀ g, f = some g → Known dflt e g

def PcSafe (dflt : F) (s : State T F) : Pc F → Prop
  | .setFunction f init | .swapFunction _ f init => init = true → f = dflt
  | .setThreshold _ level | .swapThreshold _ _ level => IsLevel level
  | .logCheck level => level ≤ rpmaLogLevelDebug
  | .logCall level =>
    level ≤ rpmaLogLevelDebug ∧ (s.function = none → .finished ∈ s.events)
  | _ => True

/-- What holds in every reachable state. -/
structure Safe (dflt : F) (s : State T F) : Prop where
  threshold : ∀ th, IsLevel (s.threshold th)
  function : ∀ f, s.function = some f → Known dflt s.events f
  pc : ∀ t, PcSafe dflt s (s.pc t)
  called : ∀ f level, .called f level ∈ s.events → CalledSafe dflt s.events f level

theorem Known.mono (h : Known dflt e f) (he : e ⊆ e') : Known dflt e' f := h.imp_right fun h => he h

theorem CalledSafe.mono {f : Option F} (h : CalledSafe dflt e f level) (he : e ⊆ e') :
    CalledSafe dflt e' f level :=
  ⟨h.1, fun hn => he (h.2.1 hn), fun g hg => (h.2.2 g hg).mono he⟩

theorem PcSafe.mono (h : PcSafe dflt s pc) (he : s.events ⊆ s'.events)
    (hn : s'.function = none → s.function = none ∨ .finished ∈ s'.events) :
    PcSafe dflt s' pc := by
  cases pc with
  | setFunction f init => exact h
  | swapFunction old f init => exact h
  | logCall level =>
    refine ⟨h.1, fun hnone => ?_⟩
    rcases hn hnone with hold | hfin
    · exact he (h.2 hold)
    · exact hfin
  | returned ret level => trivial
  | setThreshold th level => exact h
  | swapThreshold th old level => exact h
  | log level => trivial
  | logCheck level => exact h
  | fini => trivial

theorem isLevel_default (debug : Bool) (th : Threshold) : IsLevel (Threshold.default debug th) := by
  cases debug <;> cases th <;> exact ⟨by decide, by decide⟩

theorem Safe.start (debug : Bool) : Safe dflt (.start debug : State T F) where
  threshold := isLevel_default debug
  function f h := by cases h
  pc t := trivial
  called f level h := by cases h

variable [DecidableEq T]

/-- A step of the thread `t` keeps it if what is new is safe. -/
theorem Safe.next (h : Safe dflt s) (hpc : s'.pc = Function.update s.pc t pc)
    (hevents : s'.events = s.events ++ e) (hthreshold : ∀ th, IsLevel (s'.threshold th))
    (hfunction : ∀ f, s'.function = some f → Known dflt s'.events f)
    (hn : s'.function = none → s.function = none ∨ .finished ∈ s'.events)
    (hnew : PcSafe dflt s' pc)
    (hcalled : ∀ f level, .called f level ∈ e → CalledSafe dflt s'.events f level) :
    Safe dflt s' := by
  have hsub : s.events ⊆ s'.events := hevents ▸ List.subset_append_left ..
  refine ⟨hthreshold, hfunction, fun u => ?_, fun f level hmem => ?_⟩
  · rw [hpc]
    by_cases hu : u = t
    · rw [hu, Function.update_self]
      exact hnew
    · rw [Function.update_of_ne hu]
      exact (h.pc u).mono hsub hn
  · rw [hevents] at hmem
    rcases List.mem_append.mp hmem with hmem | hmem
    · exact (h.called f level hmem).mono hsub
    · exact hcalled f level hmem

/-- The cells stay, and no function is called. -/
theorem Safe.goto (h : Safe dflt s) (hnew : PcSafe dflt (s.goto t pc) pc) :
    Safe dflt (s.goto t pc) :=
  h.next (e := []) rfl (List.append_nil _).symm h.threshold h.function Or.inl hnew
    fun _ _ hmem => by cases hmem

theorem Safe.call {c : Call F} (h : Safe dflt s) (hs : s.call dflt t c = some s') :
    Safe dflt s' := by
  unfold State.call at hs
  split at hs
  case h_2 => cases hs
  case h_1 ret level hpc =>
    cases c with
    | init => exact Option.some.inj hs ▸ h.goto fun _ => rfl
    | setFunction f => exact Option.some.inj hs ▸ h.goto fun hinit => by cases hinit
    | setThreshold threshold level =>
      dsimp only at hs
      split at hs
      · exact Option.some.inj hs ▸ h.goto trivial
      · split at hs
        · exact Option.some.inj hs ▸ h.goto trivial
        · rename_i hlevel
          obtain rfl := Option.some.inj hs
          exact h.goto ⟨by omega, by omega⟩
    | getThreshold threshold wanted => exact Option.some.inj hs ▸ h.goto trivial
    | log level => exact Option.some.inj hs ▸ h.goto trivial
    | fini => exact Option.some.inj hs ▸ h.goto trivial

theorem Safe.step [DecidableEq F] (h : Safe dflt s) (hs : s.step t = some s') :
    Safe dflt s' := by
  have hold := h.pc t
  unfold State.step at hs
  split at hs
  case h_1 => cases hs
  case h_2 f init hpc =>
    rw [hpc] at hold
    exact Option.some.inj hs ▸ h.goto hold
  case h_3 old f init hpc =>
    rw [hpc] at hold
    have hdflt : init = true → f = dflt := hold
    split at hs
    · obtain rfl := Option.some.inj hs
      refine h.next rfl rfl h.threshold (fun g hg => ?_) (fun hnone => by cases hnone) trivial
        fun g level hmem => ?_
      · obtain rfl := Option.some.inj hg
        cases init with
        | true => exact Or.inl (hdflt rfl)
        | false => exact Or.inr (by simp)
      · cases init with
        | true => simp at hmem
        | false => simp at hmem
    · obtain rfl := Option.some.inj hs
      refine h.next rfl rfl h.threshold (fun g hg => ?_) Or.inl ?_ fun g level hmem => by
        simp at hmem
      · exact (h.function g hg).mono (List.subset_append_left ..)
      · split
        · rename_i hinit
          exact fun _ => hdflt hinit
        · trivial
  case h_4 th level hpc =>
    rw [hpc] at hold
    exact Option.some.inj hs ▸ h.goto hold
  case h_5 th old level hpc =>
    rw [hpc] at hold
    have hlevel : IsLevel level := hold
    split at hs
    · obtain rfl := Option.some.inj hs
      refine h.next rfl rfl (fun th' => ?_) (fun g hg => ?_) Or.inl trivial fun g level hmem => by
        simp at hmem
      · dsimp only
        split
        · exact hlevel
        · exact h.threshold th'
      · exact (h.function g hg).mono (List.subset_append_left ..)
    · obtain rfl := Option.some.inj hs
      refine h.next rfl rfl h.threshold (fun g hg => ?_) Or.inl trivial fun g level hmem => by
        simp at hmem
      exact (h.function g hg).mono (List.subset_append_left ..)
  case h_6 level hpc =>
    obtain rfl := Option.some.inj hs
    refine h.goto ?_
    split
    · rename_i hle
      exact Int.le_trans hle (h.threshold .threshold).2
    · trivial
  case h_7 level hpc =>
    rw [hpc] at hold
    obtain rfl := Option.some.inj hs
    refine h.goto ?_
    split
    · rename_i hsome
      exact ⟨hold, fun hnone => absurd hnone (Option.isSome_iff_ne_none.mp hsome)⟩
    · trivial
  case h_8 level hpc =>
    rw [hpc] at hold
    obtain rfl := Option.some.inj hs
    obtain ⟨hlevel, hnull⟩ := hold
    have hsub : s.events ⊆ s.events ++ [.called s.function level] := List.subset_append_left ..
    refine h.next rfl rfl h.threshold (fun g hg => (h.function g hg).mono hsub) Or.inl trivial
      fun g level' hmem => ?_
    obtain ⟨rfl, rfl⟩ := Event.called.inj (List.mem_singleton.mp hmem)
    exact ⟨hlevel, fun hnone => hsub (hnull hnone), fun g hg => (h.function g hg).mono hsub⟩
  case h_9 hpc =>
    obtain rfl := Option.some.inj hs
    refine h.next rfl rfl h.threshold (fun g hg => by cases hg) (fun _ => Or.inr ?_) trivial
      fun g level hmem => by simp at hmem
    simp

/-- **Messages stay safe**: the thresholds are levels. A message goes to the default function or to
one that `rpma_log_set_function` has stored before; it goes to `NULL` only if `rpma_log_fini` has
run. -/
theorem logging_safe [DecidableEq F] (debug : Bool) (s : State T F) (h : Reachable dflt debug s) :
    (∀ th, IsLevel (s.threshold th)) ∧
      ∀ f level, .called f level ∈ s.events →
        level ≤ rpmaLogLevelDebug ∧ (f = none → .finished ∈ s.events) ∧
          ∀ g, f = some g → g = dflt ∨ .given g ∈ s.events := by
  have hsafe : Safe dflt s := by
    induction h with
    | refl => exact .start debug
    | tail _ hstep ih =>
      obtain ⟨t, hs | ⟨c, hs⟩⟩ := hstep
      · exact ih.step hs
      · exact ih.call hs
  exact ⟨hsafe.threshold, hsafe.called⟩

/-- A thread sets the function `true`, and a message goes to it. -/
def oneMessage : List (Unit × Option (Call Bool)) :=
  [((), some .init), ((), none), ((), none), ((), some (.setFunction (some true))), ((), none),
    ((), none), ((), some (.log 0)), ((), none), ((), none), ((), none)]

theorem logging_safe_set : ∃ s : State Unit Bool, Reachable false false s ∧
    .called (some true) 0 ∈ s.events ∧ (true = false ∨ .given true ∈ s.events) := by
  have hrun : ((State.start false).run false oneMessage).map
      (fun s => decide (.called (some true) 0 ∈ s.events)) = some true := by decide +kernel
  obtain ⟨s, hs, hcalled⟩ := Option.map_eq_some_iff.mp hrun
  have hreach : Reachable false false s := State.reachable_of_run false .refl hs
  have hmem := of_decide_eq_true hcalled
  exact ⟨s, hreach, hmem, ((logging_safe false s hreach).2 _ _ hmem).2.2 true rfl⟩

end Safe

end Rpma.Librpma.Log
