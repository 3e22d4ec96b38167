import Rpma.Lib.Prog

/-!
# What a program returns and what it emits

Some of the events of a run matter to the outside: `sel` says which, and as what. `Yields W sel m Q`
says that in every world that satisfies `W` the program `m` returns some `a` and emits some `ts` with
`Q a ts`, whatever the log it starts from. The rules are one for each way of combining programs; a
sequence emits what its parts emit, one after the other (`Yields.bind`).
-/

namespace Rpma.Lib.Prog

variable {C T : Type} {R : C → Type} {α β : Type}

/-- What has been emitted since `log`. -/
def emitted (sel : (Σ c, R c) → Option T) (log log' : Log C R) : List T :=
  (log'.drop log.length).filterMap sel

/-- In the worlds of `W`, `m` returns some `a` and emits some `ts` with `Q a ts`. -/
def Yields (W : (Nat → (c : C) → R c) → Prop) (sel : (Σ c, R c) → Option T) (m : Prog C R α)
    (Q : α → List T → Prop) : Prop :=
  ∀ answer, W answer → ∀ log, Q (m.run answer log).1 (emitted sel log (m.run answer log).2)

variable {W : (Nat → (c : C) → R c) → Prop} {sel : (Σ c, R c) → Option T} {m : Prog C R α}
  {f : α → Prog C R β} {Q V : α → List T → Prop} {U : β → List T → Prop}

theorem emitted_self (sel : (Σ c, R c) → Option T) (log : Log C R) : emitted sel log log = [] := by
  simp [emitted]

theorem emitted_trans {log log' log'' : Log C R} (h : log <+: log') (h' : log' <+: log'') :
    emitted sel log log'' = emitted sel log log' ++ emitted sel log' log'' := by
  obtain ⟨rest, rfl⟩ := h
  obtain ⟨rest', rfl⟩ := h'
  simp [emitted, List.append_assoc]

theorem Yields.pure {a : α} (h : Q a []) : Yields W sel (Pure.pure a) Q := by
  intro answer _ log
  rw [run_pure, emitted_self]
  exact h

theorem Yields.imp (hm : Yields W sel m V) (h : ∀ a ts, V a ts → Q a ts) : Yields W sel m Q :=
  fun answer hW log => h _ _ (hm answer hW log)

theorem Yields.bind (hm : Yields W sel m V)
    (hf : ∀ a ts, V a ts → Yields W sel (f a) fun b us => U b (ts ++ us)) :
    Yields W sel (m >>= f) U := by
  intro answer hW log
  have hpre : log <+: (m.run answer log).2 := run_prefix m log
  have hpre' : (m.run answer log).2 <+: ((f (m.run answer log).1).run answer _).2 := run_prefix _ _
  rw [run_bind, emitted_trans hpre hpre']
  exact hf _ _ (hm answer hW log) answer hW _

/-- The first part emits nothing. -/
theorem Yields.bind_quiet {V : α → Prop} (hm : Yields W sel m fun a ts => V a ∧ ts = [])
    (hf : ∀ a, V a → Yields W sel (f a) U) : Yields W sel (m >>= f) U := by
  refine hm.bind fun a ts h => ?_
  obtain ⟨ha, rfl⟩ := h
  exact hf a ha

/-- A call that is not emitted; its answer is one that a world of `W` gives. -/
theorem Yields.call {c : C} {k : R c → Prog C R α} (hsel : ∀ r, sel ⟨c, r⟩ = none)
    (hk : ∀ answer n, W answer → Yields W sel (k (answer n c)) Q) : Yields W sel (.call c k) Q := by
  intro answer hW log
  have hpre : log <+: log ++ [⟨c, answer log.length c⟩] := List.prefix_append _ _
  have hnone : emitted sel log (log ++ [⟨c, answer log.length c⟩]) = [] := by
    simp [emitted, hsel]
  have hrest := hk answer log.length hW answer hW (log ++ [⟨c, answer log.length c⟩])
  have hpre' : log ++ [⟨c, answer log.length c⟩] <+: ((k (answer log.length c)).run answer _).2 :=
    run_prefix _ _
  rw [run, emitted_trans hpre hpre', hnone, List.nil_append]
  exact hrest

/-- A call that is emitted. -/
theorem Yields.issue {c : C} {t : T} {Q : R c → List T → Prop} (hsel : ∀ r, sel ⟨c, r⟩ = some t)
    (h : ∀ r, Q r [t]) : Yields W sel (Prog.issue c) Q := by
  intro answer _ log
  simpa [emitted, hsel] using h (answer log.length c)

/-- A program that makes only calls that are not emitted. -/
theorem Yields.of_only {q : C → Prop} {V : α → Prop} (hm : m.Returns V) (ho : m.Only q)
    (hq : ∀ c r, q c → sel ⟨c, r⟩ = none) : Yields W sel m fun a ts => V a ∧ ts = [] := by
  induction m with
  | pure a => exact .pure ⟨hm, rfl⟩
  | call c k ih => exact .call (fun r => hq c r ho.1) fun answer n _ => ih _ (hm _) (ho.2 _)

end Rpma.Lib.Prog
