import Mathlib.Algebra.Order.Group.Multiset
import Mathlib.Tactic.Abel

/-!
# A ledger of acquired objects

A log of events, each of which may acquire an object, release one, or make one object depend on
another. `Owns log L` replays the log: `L` are the objects held at its end, each with the objects
it depends on. The replay refuses to release an object that is not held or that a held object
depends on, and to make an object depend on one that is not held.

An object is named by the position of the event that acquired it (`serial`), so no two
acquisitions name the same object.

* **`balanced_of_owns`**: in a log whose replay ends with nothing held every acquired object was
  released exactly once, nothing else was released, and every release came after those of the
  dependents.
* `released_once_iff`: in a log whose replay ends with `L` an acquired object was released exactly
  once iff it is not in `L`.
* `Owns.loosen`: what a log holds under one reading of its events it holds under another that
  detaches more, with fewer dependencies. `not_balanced_of_disordered` is how the stricter reading
  can go wrong.
-/

namespace Rpma.Lib.Ledger

/-- What an event does to the ledger. -/
inductive Effect (O : Type) where
  | keep
  | acquire (o : O) (deps : List O)
  | release (o : O)
  /-- `o` depends on `b` from now on. -/
  | attach (o b : O)
  /-- `o` depends on nothing any more. -/
  | detach (o : O)

/-- A held object and what it depends on. -/
structure Tok (O : Type) where
  obj : O
  deps : List O

variable {O E : Type}

/-- Nothing in `A` depends on `o`. -/
def Free (o : O) (A : Multiset (Tok O)) : Prop := ∀ t ∈ A, o ∉ t.deps

@[simp] theorem free_zero (o : O) : Free o 0 := by simp [Free]

@[simp] theorem free_add (o : O) (A B : Multiset (Tok O)) :
    Free o (A + B) ↔ Free o A ∧ Free o B := by
  simp only [Free, Multiset.mem_add, or_imp, forall_and]

@[simp] theorem free_cons (o : O) (t : Tok O) (A : Multiset (Tok O)) :
    Free o (t ::ₘ A) ↔ o ∉ t.deps ∧ Free o A := by
  simp [Free]

@[simp] theorem free_singleton (o : O) (t : Tok O) : Free o {t} ↔ o ∉ t.deps := by
  simp [Free]

/-- The object `o` is held. -/
def Held (o : O) (A : Multiset (Tok O)) : Prop := ∃ t ∈ A, t.obj = o

@[simp] theorem held_zero (o : O) : ¬ Held o 0 := by simp [Held]

@[simp] theorem held_add (o : O) (A B : Multiset (Tok O)) :
    Held o (A + B) ↔ Held o A ∨ Held o B := by
  simp only [Held, Multiset.mem_add, or_and_right, exists_or]

@[simp] theorem held_cons (o : O) (t : Tok O) (A : Multiset (Tok O)) :
    Held o (t ::ₘ A) ↔ t.obj = o ∨ Held o A := by
  simp [Held]

@[simp] theorem held_singleton (o : O) (t : Tok O) : Held o {t} ↔ t.obj = o := by
  simp [Held]

section Replay

variable (effect : Nat → E → Effect O)

/-- Replaying `log` ends with `L` held. -/
inductive Owns : List E → Multiset (Tok O) → Prop
  | nil : Owns [] 0
  | keep {log : List E} {L : Multiset (Tok O)} {e : E} (h : Owns log L)
      (he : effect log.length e = .keep) : Owns (log ++ [e]) L
  | acquire {log : List E} {L : Multiset (Tok O)} {e : E} {o : O} {deps : List O} (h : Owns log L)
      (he : effect log.length e = .acquire o deps) (hheld : ∀ b ∈ deps, Held b L) :
      Owns (log ++ [e]) (⟨o, deps⟩ ::ₘ L)
  | release {log : List E} {L : Multiset (Tok O)} {e : E} {o : O} {deps : List O}
      (h : Owns log (⟨o, deps⟩ ::ₘ L)) (he : effect log.length e = .release o)
      (hself : o ∉ deps) (hfree : Free o L) : Owns (log ++ [e]) L
  | attach {log : List E} {L : Multiset (Tok O)} {e : E} {o b : O} {deps : List O}
      (h : Owns log (⟨o, deps⟩ ::ₘ L)) (he : effect log.length e = .attach o b)
      (hheld : Held b L) : Owns (log ++ [e]) (⟨o, b :: deps⟩ ::ₘ L)
  | detach {log : List E} {L : Multiset (Tok O)} {e : E} {o : O} {deps : List O}
      (h : Owns log (⟨o, deps⟩ ::ₘ L)) (he : effect log.length e = .detach o) :
      Owns (log ++ [e]) (⟨o, []⟩ ::ₘ L)
  /-- Detaching what is not held does nothing. -/
  | unheld {log : List E} {L : Multiset (Tok O)} {e : E} {o : O} (h : Owns log L)
      (he : effect log.length e = .detach o) (hno : ¬ Held o L) : Owns (log ++ [e]) L

/-! ## What a log says without the replay -/

/-- Event `i` of the log has an effect satisfying `p`. -/
def EventAt (log : List E) (i : Nat) (p : Effect O → Prop) : Prop :=
  ∃ e, log[i]? = some e ∧ p (effect i e)

/-- Event `i` acquires `o`. -/
def AcquiredAt (log : List E) (i : Nat) (o : O) : Prop :=
  EventAt effect log i fun x => ∃ deps, x = .acquire o deps

/-- Event `i` releases `o`. -/
def ReleasedAt (log : List E) (i : Nat) (o : O) : Prop :=
  EventAt effect log i fun x => x = .release o

/-- Event `i` detaches `o`. -/
def DetachedAt (log : List E) (i : Nat) (o : O) : Prop :=
  EventAt effect log i fun x => x = .detach o

/-- Event `i` makes `o` depend on `b`. -/
def DependsAt (log : List E) (i : Nat) (o b : O) : Prop :=
  EventAt effect log i fun x => (∃ deps, x = .acquire o deps ∧ b ∈ deps) ∨ x = .attach o b

/-- **Every acquired object is released exactly once, and nothing else is released.** -/
structure GivenBack (log : List E) : Prop where
  once : ∀ i o, AcquiredAt effect log i o → ∃! j, ReleasedAt effect log j o
  acquired : ∀ j o, ReleasedAt effect log j o → ∃ i < j, AcquiredAt effect log i o

/-- **What was acquired is given back, and every release comes after the release or detachment of
the dependents.** -/
structure Balanced (log : List E) : Prop extends GivenBack effect log where
  order : ∀ j b, ReleasedAt effect log j b → ∀ i < j, ∀ o, DependsAt effect log i o b →
    ∃ k, i < k ∧ k < j ∧ (ReleasedAt effect log k o ∨ DetachedAt effect log k o)

/-- At the end `o` still depends on `b`, since event `i`. -/
def DependsSince (log : List E) (i : Nat) (o b : O) : Prop :=
  DependsAt effect log i o b ∧
    ∀ k, i < k → ¬ ReleasedAt effect log k o ∧ ¬ DetachedAt effect log k o

/-- Something was released that another object still depended on. -/
def Disordered (log : List E) : Prop :=
  ∃ j b, ReleasedAt effect log j b ∧ ∃ i < j, ∃ o, DependsAt effect log i o b ∧
    ∀ k, i < k → k < j → ¬ ReleasedAt effect log k o ∧ ¬ DetachedAt effect log k o

variable {effect}

theorem EventAt.lt {log : List E} {i : Nat} {p : Effect O → Prop} (h : EventAt effect log i p) :
    i < log.length := by
  obtain ⟨e, he, -⟩ := h
  exact (List.getElem?_eq_some_iff.mp he).1

theorem eventAt_snoc {log : List E} {e : E} {i : Nat} {p : Effect O → Prop} :
    EventAt effect (log ++ [e]) i p ↔
      EventAt effect log i p ∨ (i = log.length ∧ p (effect log.length e)) := by
  unfold EventAt
  rcases Nat.lt_trichotomy i log.length with hlt | rfl | hgt
  · rw [List.getElem?_append_left hlt]
    simp [Nat.ne_of_lt hlt]
  · simp
  · rw [List.getElem?_eq_none (by simp; omega), List.getElem?_eq_none (by omega)]
    simp [Nat.ne_of_gt hgt]

theorem EventAt.snoc {log : List E} {e : E} {i : Nat} {p : Effect O → Prop}
    (h : EventAt effect log i p) : EventAt effect (log ++ [e]) i p := eventAt_snoc.mpr (Or.inl h)

theorem EventAt.last {log : List E} {e : E} {p : Effect O → Prop}
    (h : p (effect log.length e)) : EventAt effect (log ++ [e]) log.length p :=
  eventAt_snoc.mpr (Or.inr ⟨rfl, h⟩)

theorem Disordered.snoc {log : List E} (h : Disordered effect log) (e : E) :
    Disordered effect (log ++ [e]) := by
  obtain ⟨j, b, hj, i, hi, o, hdep, hno⟩ := h
  have hlt := hj.lt
  refine ⟨j, b, hj.snoc, i, hi, o, hdep.snoc, fun k h1 h2 => ?_⟩
  have hk : k ≠ log.length := by omega
  simpa [ReleasedAt, DetachedAt, eventAt_snoc, hk] using hno k h1 h2

theorem not_balanced_of_disordered {log : List E} (h : Disordered effect log) :
    ¬ Balanced effect log := by
  intro hbal
  obtain ⟨j, b, hj, i, hi, o, hdep, hno⟩ := h
  obtain ⟨k, h1, h2, hgone⟩ := hbal.order j b hj i hi o hdep
  exact hgone.elim (hno k h1 h2).1 (hno k h1 h2).2

/-- Releasing what something still depends on, at once or after events that leave it alone. -/
theorem DependsSince.disordered {log : List E} {i : Nat} {o b : O}
    (h : DependsSince effect log i o b) {e e' : E} (he : effect log.length e = .keep)
    (he' : effect (log ++ [e]).length e' = .release b) :
    Disordered effect (log ++ [e] ++ [e']) := by
  refine ⟨(log ++ [e]).length, b, EventAt.last he', i, ?_, o, h.1.snoc.snoc, fun k h1 h2 => ?_⟩
  · have := h.1.lt
    simp only [List.length_append, List.length_singleton]
    omega
  · have hk : k ≠ log.length + 1 := by simpa using Nat.ne_of_lt h2
    simpa [ReleasedAt, DetachedAt, eventAt_snoc, hk, he, -List.append_assoc] using h.2 k h1

theorem DependsSince.snoc {log : List E} {i : Nat} {o b : O} {e : E}
    (h : DependsSince effect log i o b) (hrel : effect log.length e ≠ .release o)
    (hdet : effect log.length e ≠ .detach o) : DependsSince effect (log ++ [e]) i o b := by
  refine ⟨h.1.snoc, fun k hk => ?_⟩
  simpa [ReleasedAt, DetachedAt, eventAt_snoc, hrel, hdet] using h.2 k hk

theorem DependsSince.last {log : List E} {o b : O} {e : E}
    (h : DependsAt effect (log ++ [e]) log.length o b) :
    DependsSince effect (log ++ [e]) log.length o b := by
  have hend : ∀ k, log.length < k → ∀ p, ¬ EventAt effect (log ++ [e]) k p := by
    intro k hk p hp
    have hlt := hp.lt
    simp only [List.length_append, List.length_singleton] at hlt
    omega
  exact ⟨h, fun k hk => ⟨hend k hk _, hend k hk _⟩⟩

section Readings

variable {effect' : Nat → E → Effect O} {log : List E}

/-- Two readings of the same events see the same. -/
theorem eventAt_congr {i : Nat} {p : Effect O → Prop}
    (h : ∀ e ∈ log, p (effect i e) ↔ p (effect' i e)) :
    EventAt effect log i p ↔ EventAt effect' log i p :=
  exists_congr fun e => and_congr_right fun he => h e (List.mem_of_getElem? he)

theorem Balanced.congr (h : Balanced effect log) (heq : ∀ i, ∀ e ∈ log, effect i e = effect' i e) :
    Balanced effect' log := by
  have hev : ∀ i (p : Effect O → Prop), EventAt effect log i p ↔ EventAt effect' log i p :=
    fun i p => eventAt_congr fun e he => by rw [heq i e he]
  obtain ⟨⟨honce, hacq⟩, hord⟩ := h
  simp only [AcquiredAt, ReleasedAt, DetachedAt, DependsAt, hev] at honce hacq hord
  exact ⟨⟨honce, hacq⟩, hord⟩

end Readings

/-! ## The invariant of the replay -/

/-- What the replay knows about the log it has read. -/
structure Inv (effect : Nat → E → Effect O) (serial : O → Nat) (log : List E)
    (L : Multiset (Tok O)) : Prop where
  bound : ∀ t ∈ L, serial t.obj < log.length ∧ ∀ b ∈ t.deps, serial b < log.length
  nodup : (L.map Tok.obj).Nodup
  held_iff : ∀ o, Held o L ↔
    (∃ i, AcquiredAt effect log i o) ∧ ∀ j, ¬ ReleasedAt effect log j o
  unique : ∀ o i j, ReleasedAt effect log i o → ReleasedAt effect log j o → i = j
  acquired : ∀ j o, ReleasedAt effect log j o → ∃ i < j, AcquiredAt effect log i o
  depends : ∀ i o b, DependsAt effect log i o b → (∃ t ∈ L, t.obj = o ∧ b ∈ t.deps) ∨
    ∃ k, i < k ∧ (ReleasedAt effect log k o ∨ DetachedAt effect log k o)
  order : ∀ j b, ReleasedAt effect log j b → ∀ i < j, ∀ o, DependsAt effect log i o b →
    ∃ k, i < k ∧ k < j ∧ (ReleasedAt effect log k o ∨ DetachedAt effect log k o)

section Steps

variable {serial : O → Nat} {log : List E} {L : Multiset (Tok O)} {e : E} {o b : O}
  {deps : List O}

theorem Inv.nil : Inv effect serial [] 0 where
  bound := by simp
  nodup := by simp
  held_iff := by simp [AcquiredAt, EventAt]
  unique := by simp [ReleasedAt, EventAt]
  acquired := by simp [ReleasedAt, EventAt]
  depends := by simp [DependsAt, EventAt]
  order := by simp [ReleasedAt, EventAt]

/-- Any event but a release leaves the releases, and what was true of their past. -/
theorem Inv.past (h : Inv effect serial log L) (hne : ∀ o, effect log.length e ≠ .release o) :
    (∀ o i j, ReleasedAt effect (log ++ [e]) i o → ReleasedAt effect (log ++ [e]) j o → i = j) ∧
    (∀ j o, ReleasedAt effect (log ++ [e]) j o → ∃ i < j, AcquiredAt effect (log ++ [e]) i o) ∧
    ∀ j b, ReleasedAt effect (log ++ [e]) j b → ∀ i < j, ∀ o, DependsAt effect (log ++ [e]) i o b →
      ∃ k, i < k ∧ k < j ∧
        (ReleasedAt effect (log ++ [e]) k o ∨ DetachedAt effect (log ++ [e]) k o) := by
  have hrel : ∀ j o, ReleasedAt effect (log ++ [e]) j o ↔ ReleasedAt effect log j o := by
    intro j o
    simp only [ReleasedAt, eventAt_snoc, hne, and_false, or_false]
  simp only [hrel]
  refine ⟨h.unique, fun j o hj => ?_, fun j b hj i hi o hdep => ?_⟩
  · obtain ⟨i, hi, hacq⟩ := h.acquired j o hj
    exact ⟨i, hi, hacq.snoc⟩
  · have hlt := hj.lt
    obtain hdep | ⟨rfl, -⟩ := eventAt_snoc.mp hdep
    · obtain ⟨k, h1, h2, hk⟩ := h.order j b hj i hi o hdep
      exact ⟨k, h1, h2, hk.imp_right EventAt.snoc⟩
    · omega

/-- What a dependency of the past has come to, unless its token changed. -/
theorem Inv.depends_old (h : Inv effect serial log L) {L' : Multiset (Tok O)}
    (htok : ∀ t ∈ L, (∃ t' ∈ L', t'.obj = t.obj ∧ ∀ b ∈ t.deps, b ∈ t'.deps) ∨
      ReleasedAt effect (log ++ [e]) log.length t.obj ∨
      DetachedAt effect (log ++ [e]) log.length t.obj) {i : Nat}
    (hdep : DependsAt effect log i o b) : (∃ t ∈ L', t.obj = o ∧ b ∈ t.deps) ∨
      ∃ k, i < k ∧ (ReleasedAt effect (log ++ [e]) k o ∨ DetachedAt effect (log ++ [e]) k o) := by
  rcases h.depends i o b hdep with ⟨t, ht, rfl, hb⟩ | ⟨k, hk, hgone⟩
  · rcases htok t ht with ⟨t', ht', hobj, hdeps⟩ | hgone
    · exact Or.inl ⟨t', ht', hobj, hdeps b hb⟩
    · exact Or.inr ⟨log.length, hdep.lt, hgone⟩
  · exact Or.inr ⟨k, hk, hgone.imp EventAt.snoc EventAt.snoc⟩

theorem Inv.bound_mono (h : Inv effect serial log L) {t : Tok O} (ht : t ∈ L) :
    serial t.obj < (log ++ [e]).length ∧ ∀ b ∈ t.deps, serial b < (log ++ [e]).length := by
  obtain ⟨h1, h2⟩ := h.bound t ht
  simp only [List.length_append, List.length_singleton]
  exact ⟨by omega, fun b hb => Nat.lt_succ_of_lt (h2 b hb)⟩

/-- A held object was acquired in the past. -/
theorem Inv.serial_lt_of_held (h : Inv effect serial log L) (hh : Held b L) :
    serial b < log.length := by
  obtain ⟨t, ht, rfl⟩ := hh
  exact (h.bound t ht).1

/-- An event that touches nothing held. -/
theorem Inv.idle (h : Inv effect serial log L)
    (he : effect log.length e = .keep ∨ ∃ o, effect log.length e = .detach o) :
    Inv effect serial (log ++ [e]) L := by
  have hacq : ∀ o d, effect log.length e ≠ .acquire o d := by
    rcases he with he | ⟨_, he⟩ <;> simp [he]
  have hrel : ∀ o, effect log.length e ≠ .release o := by
    rcases he with he | ⟨_, he⟩ <;> simp [he]
  have hatt : ∀ o b, effect log.length e ≠ .attach o b := by
    rcases he with he | ⟨_, he⟩ <;> simp [he]
  obtain ⟨huniq, hpast, hord⟩ := h.past (e := e) hrel
  refine ⟨fun t ht => h.bound_mono ht, h.nodup, fun o => ?_, huniq, hpast,
    fun i o b hdep => ?_, hord⟩
  · simp [AcquiredAt, ReleasedAt, eventAt_snoc, hacq, hrel, h.held_iff o]
  · obtain hdep | ⟨-, hx⟩ := eventAt_snoc.mp hdep
    · exact h.depends_old (fun t ht => Or.inl ⟨t, ht, rfl, fun _ hb => hb⟩) hdep
    · simp [hacq, hatt] at hx

theorem Inv.acquire (h : Inv effect serial log L)
    (hser : ∀ n e o deps, effect n e = .acquire o deps → serial o = n)
    (he : effect log.length e = .acquire o deps) (hheld : ∀ b ∈ deps, Held b L) :
    Inv effect serial (log ++ [e]) (⟨o, deps⟩ ::ₘ L) := by
  obtain ⟨huniq, hacq, hord⟩ := h.past (e := e) (by simp [he])
  have hserial := hser _ _ _ _ he
  have hnot : ∀ j, ¬ ReleasedAt effect log j o := by
    intro j hj
    obtain ⟨i, hi, e', hlog, deps', he'⟩ := h.acquired j o hj
    have := hser _ _ _ _ he'
    have := hj.lt
    omega
  refine ⟨fun t ht => ?_, ?_, fun o' => ?_, huniq, hacq, fun i o' b hdep => ?_, hord⟩
  · rcases Multiset.mem_cons.mp ht with ht | ht
    · obtain rfl := ht
      simp only [List.length_append, List.length_singleton]
      exact ⟨by omega, fun b hb => Nat.lt_succ_of_lt (h.serial_lt_of_held (hheld b hb))⟩
    · exact h.bound_mono ht
  · rw [Multiset.map_cons, Multiset.nodup_cons]
    refine ⟨fun hmem => ?_, h.nodup⟩
    obtain ⟨t, ht, hobj⟩ := Multiset.mem_map.mp hmem
    have := (h.bound t ht).1
    rw [hobj, hserial] at this
    omega
  · simp only [held_cons, h.held_iff o', AcquiredAt, ReleasedAt, eventAt_snoc, he]
    by_cases ho : o = o'
    · subst ho
      simp only [true_or, true_iff]
      refine ⟨⟨log.length, Or.inr ⟨rfl, deps, rfl⟩⟩, fun j hj => ?_⟩
      exact hnot j (hj.resolve_right fun hx => by simp at hx)
    · simp [ho]
  · obtain hdep | ⟨rfl, hx⟩ := eventAt_snoc.mp hdep
    · exact h.depends_old (fun t ht => Or.inl ⟨t, by simp [ht], rfl, fun _ hb => hb⟩) hdep
    · rw [he] at hx
      obtain ⟨deps', heq, hb⟩ | hx := hx
      · cases heq
        exact Or.inl ⟨⟨o, deps⟩, by simp, rfl, hb⟩
      · simp at hx

theorem Inv.release (h : Inv effect serial log (⟨o, deps⟩ ::ₘ L))
    (he : effect log.length e = .release o) (hself : o ∉ deps) (hfree : Free o L) :
    Inv effect serial (log ++ [e]) L := by
  have hmem : ∀ t ∈ L, t ∈ (⟨o, deps⟩ ::ₘ L : Multiset (Tok O)) := fun t ht => by simp [ht]
  have hnd := h.nodup
  rw [Multiset.map_cons, Multiset.nodup_cons] at hnd
  obtain ⟨⟨i₀, hi₀⟩, hnot⟩ := (h.held_iff o).mp (by simp)
  have hrel : ∀ j o', ReleasedAt effect (log ++ [e]) j o' ↔
      ReleasedAt effect log j o' ∨ (j = log.length ∧ o = o') := by
    intro j o'
    simp [ReleasedAt, eventAt_snoc, he]
  refine ⟨fun t ht => h.bound_mono (hmem t ht), hnd.2, fun o' => ?_, fun o' i j hi hj => ?_,
    fun j o' hj => ?_, fun i o' b hdep => ?_, fun j b hj i hi o' hdep => ?_⟩
  · have hacq : (∃ i, AcquiredAt effect (log ++ [e]) i o') ↔ ∃ i, AcquiredAt effect log i o' := by
      simp [AcquiredAt, eventAt_snoc, he]
    have hold := h.held_iff o'
    rw [hacq]
    simp only [hrel, not_or]
    by_cases ho : o = o'
    · subst ho
      have : ¬ Held o L := fun ⟨t, ht, hobj⟩ => hnd.1 (Multiset.mem_map.mpr ⟨t, ht, hobj⟩)
      exact iff_of_false this fun hall => (hall.2 log.length).2 ⟨rfl, rfl⟩
    · simpa [ho] using hold
  · rw [hrel] at hi hj
    rcases hi with hi | ⟨rfl, rfl⟩ <;> rcases hj with hj | ⟨rfl, hoj⟩
    · exact h.unique o' i j hi hj
    · subst hoj
      exact absurd hi (hnot i)
    · exact absurd hj (hnot j)
    · rfl
  · rcases (hrel j o').mp hj with hj | ⟨rfl, rfl⟩
    · obtain ⟨i, hi, hacq⟩ := h.acquired j o' hj
      exact ⟨i, hi, hacq.snoc⟩
    · exact ⟨i₀, hi₀.lt, hi₀.snoc⟩
  · obtain hdep | ⟨-, hx⟩ := eventAt_snoc.mp hdep
    · refine h.depends_old (fun t ht => ?_) hdep
      rcases Multiset.mem_cons.mp ht with ht | ht
      · obtain rfl := ht
        exact Or.inr (Or.inl (EventAt.last he))
      · exact Or.inl ⟨t, ht, rfl, fun _ hb => hb⟩
    · simp [he] at hx
  · have hdep : DependsAt effect log i o' b := by
      obtain hdep | ⟨-, hx⟩ := eventAt_snoc.mp hdep
      · exact hdep
      · simp [he] at hx
    rcases (hrel j b).mp hj with hj | ⟨rfl, rfl⟩
    · obtain ⟨k, h1, h2, hk⟩ := h.order j b hj i hi o' hdep
      exact ⟨k, h1, h2, hk.imp EventAt.snoc EventAt.snoc⟩
    -- the object released now: none of the held objects depends on it
    · rcases h.depends i o' o hdep with ⟨t, ht, -, hb⟩ | ⟨k, hk, hgone⟩
      · rcases Multiset.mem_cons.mp ht with ht | ht
        · obtain rfl := ht
          exact absurd hb hself
        · exact absurd hb (hfree t ht)
      · exact ⟨k, hk, hgone.elim EventAt.lt EventAt.lt, hgone.imp EventAt.snoc EventAt.snoc⟩

/-- Attaching or detaching an object changes its dependencies only. -/
theorem Inv.redep (h : Inv effect serial log (⟨o, deps⟩ ::ₘ L)) {deps' : List O}
    (he : (∃ b, effect log.length e = .attach o b ∧ deps' = b :: deps ∧ Held b L) ∨
      effect log.length e = .detach o ∧ deps' = []) :
    Inv effect serial (log ++ [e]) (⟨o, deps'⟩ ::ₘ L) := by
  have hne : ∀ o', effect log.length e ≠ .release o' := by
    rcases he with ⟨b, he, -⟩ | ⟨he, -⟩ <;> simp [he]
  have hna : ∀ o' d, effect log.length e ≠ .acquire o' d := by
    rcases he with ⟨b, he, -⟩ | ⟨he, -⟩ <;> simp [he]
  obtain ⟨huniq, hacq, hord⟩ := h.past (e := e) hne
  have hnd := h.nodup
  refine ⟨fun t ht => ?_, ?_, fun o' => ?_, huniq, hacq, fun i o' b' hdep => ?_, hord⟩
  · rcases Multiset.mem_cons.mp ht with ht | ht
    · obtain rfl := ht
      obtain ⟨h1, h2⟩ := h.bound_mono (e := e) (t := ⟨o, deps⟩) (by simp)
      refine ⟨h1, fun b' hb' => ?_⟩
      rcases he with ⟨b, -, rfl, hheld⟩ | ⟨-, rfl⟩
      · rcases List.mem_cons.mp hb' with rfl | hb'
        · have := h.serial_lt_of_held (b := b') (by simp [hheld])
          simp only [List.length_append, List.length_singleton]
          omega
        · exact h2 b' hb'
      · simp at hb'
    · exact h.bound_mono (by simp [ht])
  · simpa using hnd
  · have hold := h.held_iff o'
    simp only [held_cons] at hold ⊢
    simpa only [AcquiredAt, ReleasedAt, eventAt_snoc, hne, hna, exists_false, and_false,
      or_false] using hold
  · obtain hdep | ⟨rfl, hx⟩ := eventAt_snoc.mp hdep
    · refine h.depends_old (fun t ht => ?_) hdep
      rcases Multiset.mem_cons.mp ht with ht | ht
      · obtain rfl := ht
        rcases he with ⟨b, -, rfl, -⟩ | ⟨he, -⟩
        · exact Or.inl ⟨⟨o, b :: deps⟩, by simp, rfl, fun b' hb' => List.mem_cons_of_mem _ hb'⟩
        · exact Or.inr (Or.inr (EventAt.last he))
      · exact Or.inl ⟨t, by simp [ht], rfl, fun _ hb => hb⟩
    · rcases he with ⟨b, he, rfl, -⟩ | ⟨he, -⟩
      · rw [he] at hx
        obtain ⟨_, heq, -⟩ | hx := hx
        · simp at heq
        · cases hx
          exact Or.inl ⟨_, Multiset.mem_cons_self _ _, rfl, List.mem_cons_self⟩
      · simp [he] at hx

/-- **The replay keeps its invariant.** -/
theorem Owns.inv (hser : ∀ n e o deps, effect n e = .acquire o deps → serial o = n)
    (h : Owns effect log L) : Inv effect serial log L := by
  induction h with
  | nil => exact .nil
  | keep _ he ih => exact ih.idle (Or.inl he)
  | acquire _ he hheld ih => exact ih.acquire hser he hheld
  | release _ he hself hfree ih => exact ih.release he hself hfree
  | attach _ he hheld ih => exact ih.redep (Or.inl ⟨_, he, rfl, hheld⟩)
  | detach _ he ih => exact ih.redep (Or.inr ⟨he, rfl⟩)
  | unheld _ he _ ih => exact ih.idle (Or.inr ⟨_, he⟩)

/-- What an object was made to depend on had been acquired before. -/
theorem Owns.serial_lt_of_depends (hser : ∀ n e o deps, effect n e = .acquire o deps → serial o = n)
    (h : Owns effect log L) {i : Nat} (hdep : DependsAt effect log i o b) :
    serial b < log.length := by
  induction h with
  | nil => exact absurd hdep.lt (Nat.not_lt_zero i)
  | @keep log L e h he ih =>
    obtain hdep | ⟨-, hx⟩ := eventAt_snoc.mp hdep
    · exact (ih hdep).trans (by simp)
    · simp [he] at hx
  | @acquire log L e o' deps h he hheld ih =>
    obtain hdep | ⟨-, hx⟩ := eventAt_snoc.mp hdep
    · exact (ih hdep).trans (by simp)
    · rw [he] at hx
      obtain ⟨_, heq, hb⟩ | hx := hx
      · cases heq
        exact ((h.inv hser).serial_lt_of_held (hheld b hb)).trans (by simp)
      · cases hx
  | @release log L e o' deps h he hself hfree ih =>
    obtain hdep | ⟨-, hx⟩ := eventAt_snoc.mp hdep
    · exact (ih hdep).trans (by simp)
    · simp [he] at hx
  | @attach log L e o' b' deps h he hheld ih =>
    obtain hdep | ⟨-, hx⟩ := eventAt_snoc.mp hdep
    · exact (ih hdep).trans (by simp)
    · rw [he] at hx
      obtain ⟨_, heq, -⟩ | hx := hx
      · cases heq
      · cases hx
        exact ((h.inv hser).serial_lt_of_held (by simp [hheld])).trans (by simp)
  | @detach log L e o' deps h he ih =>
    obtain hdep | ⟨-, hx⟩ := eventAt_snoc.mp hdep
    · exact (ih hdep).trans (by simp)
    · simp [he] at hx
  | @unheld log L e o' h he hno ih =>
    obtain hdep | ⟨-, hx⟩ := eventAt_snoc.mp hdep
    · exact (ih hdep).trans (by simp)
    · simp [he] at hx

/-- A dependency of a held object goes back to the event that made it. -/
theorem Owns.dependsSince (hser : ∀ n e o deps, effect n e = .acquire o deps → serial o = n)
    (h : Owns effect log L) {t : Tok O} (ht : t ∈ L) (hb : b ∈ t.deps) :
    ∃ i, DependsSince effect log i t.obj b := by
  induction h generalizing t with
  | nil => simp at ht
  | keep _ he ih => exact (ih ht hb).imp fun _ h => h.snoc (by simp [he]) (by simp [he])
  | @acquire log L e o deps h he hheld ih =>
    rcases Multiset.mem_cons.mp ht with rfl | ht
    · exact ⟨_, .last (EventAt.last (Or.inl ⟨deps, he, hb⟩))⟩
    · exact (ih ht hb).imp fun _ h => h.snoc (by simp [he]) (by simp [he])
  | @release log L e o deps h he hself hfree ih =>
    have hne : o ≠ t.obj := by
      have hnd := (h.inv hser).nodup
      rw [Multiset.map_cons, Multiset.nodup_cons] at hnd
      exact fun heq => hnd.1 (Multiset.mem_map.mpr ⟨t, ht, heq.symm⟩)
    exact (ih (Multiset.mem_cons_of_mem ht) hb).imp fun _ h =>
      h.snoc (by simpa [he] using hne) (by simp [he])
  | @attach log L e o b' deps h he hheld ih =>
    rcases Multiset.mem_cons.mp ht with rfl | ht
    · rcases List.mem_cons.mp hb with rfl | hb
      · exact ⟨_, .last (EventAt.last (Or.inr he))⟩
      · exact (ih (Multiset.mem_cons_self ⟨o, deps⟩ L) hb).imp fun _ h =>
          h.snoc (by simp [he]) (by simp [he])
    · exact (ih (Multiset.mem_cons_of_mem ht) hb).imp fun _ h =>
        h.snoc (by simp [he]) (by simp [he])
  | @detach log L e o deps h he ih =>
    rcases Multiset.mem_cons.mp ht with rfl | ht
    · simp at hb
    · have hne : o ≠ t.obj := by
        have hnd := (h.inv hser).nodup
        rw [Multiset.map_cons, Multiset.nodup_cons] at hnd
        exact fun heq => hnd.1 (Multiset.mem_map.mpr ⟨t, ht, heq.symm⟩)
      exact (ih (Multiset.mem_cons_of_mem ht) hb).imp fun _ h =>
        h.snoc (by simp [he]) (by simpa [he] using hne)
  | @unheld log L e o h he hno ih =>
    have hne : o ≠ t.obj := fun heq => hno ⟨t, ht, heq.symm⟩
    exact (ih ht hb).imp fun _ h => h.snoc (by simp [he]) (by simpa [he] using hne)

/-- What is never named as a dependency, nothing depends on. -/
theorem Owns.free_of_not_base {p : O → Prop}
    (hacq : ∀ n e o deps, effect n e = .acquire o deps → ∀ b ∈ deps, p b)
    (hatt : ∀ n e o b, effect n e = .attach o b → p b) (h : Owns effect log L) (ho : ¬ p o) :
    Free o L := by
  induction h with
  | nil => exact free_zero o
  | keep _ _ ih => exact ih
  | acquire _ he _ ih =>
    exact (free_cons _ _ _).mpr ⟨fun hmem => ho (hacq _ _ _ _ he o hmem), ih⟩
  | release _ _ _ _ ih => exact ((free_cons _ _ _).mp ih).2
  | attach _ he _ ih =>
    obtain ⟨h1, h2⟩ := (free_cons _ _ _).mp ih
    refine (free_cons _ _ _).mpr ⟨fun hmem => ?_, h2⟩
    rcases List.mem_cons.mp hmem with rfl | hmem
    · exact ho (hatt _ _ _ _ he)
    · exact h1 hmem
  | detach _ _ ih => exact (free_cons _ _ _).mpr ⟨List.not_mem_nil, ((free_cons _ _ _).mp ih).2⟩
  | unheld _ _ _ ih => exact ih

/-- What has not been acquired yet, nothing depends on. -/
theorem Owns.free (hser : ∀ n e o deps, effect n e = .acquire o deps → serial o = n)
    (h : Owns effect log L) (ho : log.length ≤ serial o) : Free o L := by
  intro t ht hmem
  have := ((h.inv hser).bound t ht).2 o hmem
  omega

/-- **With nothing held at the end the log is balanced.** -/
theorem balanced_of_owns (hser : ∀ n e o deps, effect n e = .acquire o deps → serial o = n)
    (h : Owns effect log 0) : Balanced effect log := by
  have hinv := h.inv hser
  refine ⟨⟨fun i o hacq => ?_, hinv.acquired⟩, hinv.order⟩
  have hgone : ∃ j, ReleasedAt effect log j o := by
    by_contra hno
    have : Held o 0 := (hinv.held_iff o).mpr ⟨⟨i, hacq⟩, fun j hj => hno ⟨j, hj⟩⟩
    simp at this
  obtain ⟨j, hj⟩ := hgone
  exact ⟨j, hj, fun k hk => hinv.unique o k j hk hj⟩

/-- An acquired object was released exactly once iff it is not held. -/
theorem released_once_iff (hser : ∀ n e o deps, effect n e = .acquire o deps → serial o = n)
    (h : Owns effect log L) {i : Nat} (hacq : AcquiredAt effect log i o) :
    (∃! j, ReleasedAt effect log j o) ↔ ¬ Held o L := by
  have hinv := h.inv hser
  rw [hinv.held_iff o]
  constructor
  · rintro ⟨j, hj, -⟩ ⟨-, hno⟩
    exact hno j hj
  · intro hno
    by_contra hnone
    refine hno ⟨⟨i, hacq⟩, fun j hj => hnone ⟨j, hj, fun k hk => hinv.unique o k j hk hj⟩⟩

end Steps

section Loosen

variable {effect' : Nat → E → Effect O} {log : List E} {L L' : Multiset (Tok O)}

/-- The same object with fewer dependencies. -/
def Tok.Looser (t t' : Tok O) : Prop := t'.obj = t.obj ∧ t'.deps ⊆ t.deps

theorem held_of_looser (h : Multiset.Rel Tok.Looser L L') (o : O) : Held o L' ↔ Held o L := by
  induction h with
  | zero => rfl
  | cons htok _ ih => simp [htok.1, ih]

theorem free_of_looser (h : Multiset.Rel Tok.Looser L L') {o : O} (hfree : Free o L) :
    Free o L' := by
  induction h with
  | zero => exact hfree
  | cons htok _ ih =>
    obtain ⟨h1, h2⟩ := (free_cons _ _ _).mp hfree
    exact (free_cons _ _ _).mpr ⟨fun hmem => h1 (htok.2 hmem), ih h2⟩

/-- **A reading that detaches more holds the same objects, with fewer dependencies.** -/
theorem Owns.loosen
    (hmore : ∀ n e, effect' n e = effect n e ∨ effect n e = .keep ∧ ∃ o, effect' n e = .detach o)
    (h : Owns effect log L) : ∃ L', Owns effect' log L' ∧ Multiset.Rel Tok.Looser L L' := by
  have hsame : ∀ n e, effect n e ≠ .keep → effect' n e = effect n e := fun n e hne =>
    (hmore n e).resolve_right fun hx => hne hx.1
  induction h with
  | nil => exact ⟨0, .nil, .zero⟩
  | @keep log L e _ he ih =>
    obtain ⟨L', h', hrel⟩ := ih
    rcases hmore log.length e with he' | ⟨-, o, he'⟩
    · exact ⟨L', h'.keep (he'.trans he), hrel⟩
    · by_cases hheld : Held o L'
      · obtain ⟨t', ht', rfl⟩ := hheld
        obtain ⟨rest, rfl⟩ := Multiset.exists_cons_of_mem ht'
        obtain ⟨t, L₁, htok, hrest, rfl⟩ := Multiset.rel_cons_right.mp hrel
        exact ⟨_, h'.detach he', hrest.cons ⟨htok.1, List.nil_subset _⟩⟩
      · exact ⟨L', h'.unheld he' hheld, hrel⟩
  | @acquire log L e o deps _ he hheld ih =>
    obtain ⟨L', h', hrel⟩ := ih
    have he' := (hsame log.length e (by simp [he])).trans he
    exact ⟨_, h'.acquire he' fun b hb => (held_of_looser hrel b).mpr (hheld b hb),
      hrel.cons ⟨rfl, List.Subset.refl _⟩⟩
  | @release log L e o deps _ he hself hfree ih =>
    obtain ⟨_, h', hrel⟩ := ih
    obtain ⟨⟨_, deps'⟩, L', htok, hrest, rfl⟩ := Multiset.rel_cons_left.mp hrel
    obtain ⟨rfl, hdeps⟩ := htok
    have he' := (hsame log.length e (by simp [he])).trans he
    exact ⟨L', h'.release he' (fun hmem => hself (hdeps hmem)) (free_of_looser hrest hfree), hrest⟩
  | @attach log L e o b deps _ he hheld ih =>
    obtain ⟨_, h', hrel⟩ := ih
    obtain ⟨⟨_, deps'⟩, L', htok, hrest, rfl⟩ := Multiset.rel_cons_left.mp hrel
    obtain ⟨rfl, hdeps⟩ := htok
    have he' := (hsame log.length e (by simp [he])).trans he
    exact ⟨_, h'.attach he' ((held_of_looser hrest b).mpr hheld),
      hrest.cons ⟨rfl, List.cons_subset_cons b hdeps⟩⟩
  | @detach log L e o deps _ he ih =>
    obtain ⟨_, h', hrel⟩ := ih
    obtain ⟨⟨_, deps'⟩, L', htok, hrest, rfl⟩ := Multiset.rel_cons_left.mp hrel
    obtain ⟨rfl, -⟩ := htok
    have he' := (hsame log.length e (by simp [he])).trans he
    exact ⟨_, h'.detach he', hrest.cons ⟨rfl, List.Subset.refl _⟩⟩
  | @unheld log L e o _ he hno ih =>
    obtain ⟨L', h', hrel⟩ := ih
    have he' := (hsame log.length e (by simp [he])).trans he
    exact ⟨L', h'.unheld he' fun hheld => hno ((held_of_looser hrel o).mp hheld), hrel⟩

end Loosen

end Replay

end Rpma.Lib.Ledger
