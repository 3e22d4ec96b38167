import Mathlib.Tactic.Common

/-!
# Programs over calls to the outside, and triples over their logs

A `Prog C R α` issues calls `c : C`, gets an answer of type `R c` for each, and returns an `α`. A
run against a given world (`answer n c` is the answer to the call `c`, the `n`-th of the run)
appends every call with its answer to a log. A property for every `answer` is a property for every
pattern of answers, because the `n`-th call is made once.

* `run_prefix`: a run only appends to the log.
* `Triple P m Q`: from a log satisfying `P`, `m` ends with a value and a log satisfying `Q`. The
  rules are one per constructor and one per way of combining programs.
* `Only q m`: every call `m` can make satisfies `q`, so that `m` keeps what those calls keep
  (`Only.triple`).
* `Returns Q m`: `m` returns something in `Q`.
* `AllSince q base φ`: the events after `base` all satisfy `q` iff `φ`. Once one does not, nothing
  undoes it (`allSince_false`).
-/

namespace Rpma.Lib

/-- A program over the calls `C` with answers `R`. -/
inductive Prog (C : Type) (R : C → Type) (α : Type) : Type where
  | pure (a : α)
  | call (c : C) (k : R c → Prog C R α)

/-- The calls made so far, each with its answer. -/
abbrev Log (C : Type) (R : C → Type) := List (Σ c, R c)

namespace Prog

variable {C : Type} {R : C → Type} {α β γ : Type}

protected def bind : Prog C R α → (α → Prog C R β) → Prog C R β
  | .pure a, f => f a
  | .call c k, f => .call c fun r => (k r).bind f

instance : Monad (Prog C R) where
  pure := .pure
  bind := .bind

/-- Issue one call. -/
def issue (c : C) : Prog C R (R c) := .call c .pure

/-- Run against a world. -/
def run (answer : Nat → (c : C) → R c) : Prog C R α → Log C R → α × Log C R
  | .pure a, log => (a, log)
  | .call c k, log => (k (answer log.length c)).run answer (log ++ [⟨c, answer log.length c⟩])

variable {answer : Nat → (c : C) → R c}

@[simp] theorem run_pure (a : α) (log : Log C R) :
    (Pure.pure a : Prog C R α).run answer log = (a, log) := rfl

@[simp] theorem run_issue (c : C) (log : Log C R) : (issue c).run answer log =
    (answer log.length c, log ++ [⟨c, answer log.length c⟩]) := rfl

@[simp] theorem run_bind (m : Prog C R α) (f : α → Prog C R β) (log : Log C R) :
    (m >>= f).run answer log = (f (m.run answer log).1).run answer (m.run answer log).2 := by
  induction m generalizing log with
  | pure a => rfl
  | call c k ih => exact ih _ _

/-- A run only appends to the log. -/
theorem run_prefix (m : Prog C R α) (log : Log C R) : log <+: (m.run answer log).2 := by
  induction m generalizing log with
  | pure a => exact List.prefix_rfl
  | call c k ih => exact (List.prefix_append _ _).trans (ih _ _)

/-! ## Triples -/

/-- From a log satisfying `P` the program ends in `Q`. -/
def Triple (answer : Nat → (c : C) → R c) (P : Log C R → Prop) (m : Prog C R α)
    (Q : α → Log C R → Prop) : Prop :=
  ∀ log, P log → Q (m.run answer log).1 (m.run answer log).2

variable {P P' : Log C R → Prop} {m : Prog C R α} {f : α → Prog C R β}
  {Q Q' : α → Log C R → Prop} {S : β → Log C R → Prop}

theorem Triple.pure {a : α} (h : ∀ log, P log → Q a log) :
    Triple answer P (Pure.pure a) Q := fun log hp => h log hp

theorem Triple.issue {c : C} {Q : R c → Log C R → Prop}
    (h : ∀ log, P log → Q (answer log.length c) (log ++ [⟨c, answer log.length c⟩])) :
    Triple answer P (issue c) Q := fun log hp => h log hp

theorem Triple.bind (hm : Triple answer P m Q) (hf : ∀ a, Triple answer (Q a) (f a) S) :
    Triple answer P (m >>= f) S := by
  intro log hp
  rw [run_bind]
  exact hf _ _ (hm log hp)

/-- What a triple says of a run. -/
theorem Triple.of_run (h : Triple answer P m Q) {log log' : Log C R} {a : α}
    (hrun : m.run answer log = (a, log')) (hp : P log) : Q a log' := by
  have hq := h log hp
  rwa [hrun] at hq

/-- A fact about values in the precondition is a hypothesis. -/
theorem Triple.and_pure {φ : Prop} (h : φ → Triple answer P m Q) :
    Triple answer (fun log => P log ∧ φ) m Q := fun log hp => h hp.2 log hp.1

theorem Triple.conseq (hm : Triple answer P m Q) (hp : ∀ log, P' log → P log)
    (hq : ∀ a log, Q a log → Q' a log) : Triple answer P' m Q' :=
  fun log h => hq _ _ (hm log (hp log h))

/-! ## Which calls a program can make -/

/-- Every call the program can make satisfies `q`, whatever the answers. -/
def Only (q : C → Prop) : Prog C R α → Prop
  | .pure _ => True
  | .call c k => q c ∧ ∀ r, (k r).Only q

variable {q : C → Prop}

@[simp] theorem only_pure (a : α) : (Pure.pure a : Prog C R α).Only q := trivial

@[simp] theorem only_issue (c : C) : (issue c : Prog C R (R c)).Only q ↔ q c :=
  ⟨fun h => h.1, fun h => ⟨h, fun _ => trivial⟩⟩

theorem Only.bind (hm : m.Only q) (hf : ∀ a, (f a).Only q) : (m >>= f).Only q := by
  induction m with
  | pure a => exact hf a
  | call c k ih => exact ⟨hm.1, fun r => ih r (hm.2 r)⟩

/-- What the calls a program can make keep, the program keeps. -/
theorem Only.triple (hm : m.Only q)
    (h : ∀ log c, q c → P log → P (log ++ [⟨c, answer log.length c⟩])) :
    Triple answer P m fun _ => P := by
  induction m with
  | pure a => exact .pure fun _ hp => hp
  | call c k ih => exact fun log hp => ih _ (hm.2 _) _ (h log c hm.1 hp)

/-! ## What a program can return -/

/-- The program returns something in `Q`, whatever the answers. -/
def Returns (Q : α → Prop) : Prog C R α → Prop
  | .pure a => Q a
  | .call _ k => ∀ r, (k r).Returns Q

variable {V : α → Prop} {W : β → Prop}

theorem Returns.run (hm : m.Returns V) (answer : Nat → (c : C) → R c) (log : Log C R) :
    V (m.run answer log).1 := by
  induction m generalizing log with
  | pure a => exact hm
  | call c k ih => exact ih _ (hm _) _

theorem Returns.bind (hm : m.Returns V) (hf : ∀ a, V a → (f a).Returns W) :
    (m >>= f).Returns W := by
  induction m with
  | pure a => exact hf a hm
  | call c k ih => exact fun r => ih r (hm r)

theorem Returns.imp {V' : α → Prop} (hm : m.Returns V) (h : ∀ a, V a → V' a) : m.Returns V' := by
  induction m with
  | pure a => exact h a hm
  | call c k ih => exact fun r => ih r (hm r)

/-- Nothing need be known of what the first part returns. -/
theorem returns_after (hf : ∀ a, (f a).Returns W) : (m >>= f).Returns W := by
  induction m with
  | pure a => exact hf a
  | call c k ih => exact fun r => ih r

/-! ## Events since a point of the run -/

/-- The events after `base` all satisfy `q` iff `φ`. -/
def AllSince (q : (Σ c, R c) → Prop) (base : Log C R) (φ : Prop) (log : Log C R) : Prop :=
  ∃ calls, log = base ++ calls ∧ ((∀ e ∈ calls, q e) ↔ φ)

variable {q : (Σ c, R c) → Prop} {base log : Log C R} {φ ψ : Prop}

theorem AllSince.refl : AllSince q base True base := ⟨[], by simp, by simp⟩

theorem AllSince.snoc (h : AllSince q base φ log) (e : Σ c, R c) :
    AllSince q base (φ ∧ q e) (log ++ [e]) := by
  obtain ⟨calls, rfl, hφ⟩ := h
  refine ⟨calls ++ [e], by simp, ?_⟩
  simp only [List.forall_mem_append, hφ, List.forall_mem_singleton]

theorem AllSince.congr (h : AllSince q base φ log) (hψ : φ ↔ ψ) : AllSince q base ψ log := by
  obtain ⟨calls, hlog, hφ⟩ := h
  exact ⟨calls, hlog, hφ.trans hψ⟩

/-- Once an event has failed `q`, nothing undoes it. -/
theorem allSince_false (m : Prog C R α) :
    Triple answer (AllSince q base False) m fun _ => AllSince q base False := by
  rintro log ⟨calls, rfl, hφ⟩
  have hpre : base ++ calls <+: (m.run answer (base ++ calls)).2 := run_prefix m _
  obtain ⟨rest, hrest⟩ := hpre
  refine ⟨calls ++ rest, by simp [← hrest], ?_⟩
  simp only [List.forall_mem_append, hφ, false_and]

end Prog

end Rpma.Lib
