import Mathlib.Tactic.Common

/-!
# Leases: one object at a time, taken, used and given back

A log of events in which an event may take an object (named by its position), touch one, or give
one back. `Held log h` replays the log: `h` is the object held at its end, if any. The replay
refuses to take an object while one is held, and to touch or give back any but the held one.

* **`returned_once`**: in a log whose replay ends with nothing held every object taken was given
  back exactly once, and never touched after that.
* `given_since`: what is given back after a point with nothing held was taken after it.
-/

namespace Rpma.Lib.Lease

/-- What an event does to the object. -/
inductive Act where
  | idle
  /-- Takes an object, named by the position of the event. -/
  | take
  | touch (n : Nat)
  | give (n : Nat)
  deriving DecidableEq, Repr

variable {E : Type} (act : E → Act)

/-- Replaying `log` ends with `h` held. -/
inductive Held : List E → Option Nat → Prop
  | nil : Held [] none
  | idle {log : List E} {h : Option Nat} {e : E} (hl : Held log h) (he : act e = .idle) :
    Held (log ++ [e]) h
  | take {log : List E} {e : E} (hl : Held log none) (he : act e = .take) :
    Held (log ++ [e]) (some log.length)
  | touch {log : List E} {n : Nat} {e : E} (hl : Held log (some n)) (he : act e = .touch n) :
    Held (log ++ [e]) (some n)
  | give {log : List E} {n : Nat} {e : E} (hl : Held log (some n)) (he : act e = .give n) :
    Held (log ++ [e]) none

/-- The `i`-th event does `x`. -/
def ActAt (log : List E) (i : Nat) (x : Act) : Prop := ∃ e, log[i]? = some e ∧ act e = x

variable {act} {log log' : List E} {i j k n : Nat} {x : Act} {h : Option Nat}

theorem ActAt.lt (hx : ActAt act log i x) : i < log.length := by
  obtain ⟨e, he, -⟩ := hx
  exact (List.getElem?_eq_some_iff.mp he).1

theorem actAt_snoc {e : E} :
    ActAt act (log ++ [e]) i x ↔ ActAt act log i x ∨ (i = log.length ∧ act e = x) := by
  unfold ActAt
  rcases Nat.lt_trichotomy i log.length with hi | rfl | hi
  · rw [List.getElem?_append_left hi]
    simp [Nat.ne_of_lt hi]
  · simp
  · rw [List.getElem?_eq_none (by simp; omega), List.getElem?_eq_none (by omega)]
    simp [Nat.ne_of_gt hi]

theorem ActAt.append (hx : ActAt act log i x) (rest : List E) : ActAt act (log ++ rest) i x := by
  obtain ⟨e, he, hact⟩ := hx
  refine ⟨e, ?_, hact⟩
  rw [List.getElem?_append_left (List.getElem?_eq_some_iff.mp he).1, he]

theorem ActAt.of_append {rest : List E} (hx : ActAt act (log ++ rest) i x)
    (hi : i < log.length) : ActAt act log i x := by
  obtain ⟨e, he, hact⟩ := hx
  refine ⟨e, ?_, hact⟩
  rwa [List.getElem?_append_left hi] at he

/-- What the replay knows of the objects taken so far. -/
structure Inv (act : E → Act) (log : List E) (h : Option Nat) : Prop where
  held : ∀ n ∈ h, ActAt act log n .take ∧ ∀ j, ¬ ActAt act log j (.give n)
  given : ∀ n, ActAt act log n .take → n ∉ h → ∃ j, n < j ∧ ActAt act log j (.give n)
  taken : ∀ j n, ActAt act log j (.give n) → ActAt act log n .take ∧ n < j
  once : ∀ j k n, ActAt act log j (.give n) → ActAt act log k (.give n) → j = k
  touched : ∀ k n, ActAt act log k (.touch n) →
    n < k ∧ ActAt act log n .take ∧ ∀ j, ActAt act log j (.give n) → k < j

theorem Inv.nil : Inv act ([] : List E) none := by
  constructor <;> simp [ActAt]

/-- An event that gives nothing back and takes nothing. -/
theorem Inv.snoc {e : E} (hi : Inv act log h) (htake : act e ≠ .take)
    (hgive : ∀ n, act e ≠ .give n) (htouch : ∀ n, act e = .touch n → h = some n) :
    Inv act (log ++ [e]) h := by
  have htaken : ∀ n, ActAt act (log ++ [e]) n .take ↔ ActAt act log n .take := fun n => by
    rw [actAt_snoc, or_iff_left fun hc => htake hc.2]
  have hgiven : ∀ j n, ActAt act (log ++ [e]) j (.give n) ↔ ActAt act log j (.give n) :=
    fun j n => by rw [actAt_snoc, or_iff_left fun hc => hgive n hc.2]
  constructor <;> simp only [htaken, hgiven]
  · exact hi.held
  · exact hi.given
  · exact hi.taken
  · exact hi.once
  · intro k n hk
    rcases actAt_snoc.mp hk with hk | ⟨rfl, he⟩
    · exact hi.touched k n hk
    · obtain ⟨ht, hng⟩ := hi.held n (htouch n he)
      exact ⟨ht.lt, ht, fun j hj => absurd hj (hng j)⟩

theorem Inv.take {e : E} (hi : Inv act log none) (he : act e = .take) :
    Inv act (log ++ [e]) (some log.length) := by
  have htaken : ∀ n, ActAt act (log ++ [e]) n .take ↔ ActAt act log n .take ∨ n = log.length :=
    fun n => by rw [actAt_snoc, he, and_iff_left rfl]
  have hold : ∀ j x, x ≠ .take → (ActAt act (log ++ [e]) j x ↔ ActAt act log j x) :=
    fun j x hx => by rw [actAt_snoc, he, or_iff_left fun hc => hx hc.2.symm]
  have hgiven : ∀ j n, ActAt act (log ++ [e]) j (.give n) ↔ ActAt act log j (.give n) :=
    fun j n => hold j _ (by simp)
  constructor <;> simp only [htaken, hgiven]
  · rintro n ⟨⟩
    exact ⟨.inr rfl, fun j hj => absurd (hi.taken j _ hj).1.lt (Nat.lt_irrefl _)⟩
  · intro n hn hne
    rcases hn with hn | rfl
    · exact hi.given n hn (by simp)
    · simp at hne
  · exact fun j n hj => ⟨.inl (hi.taken j n hj).1, (hi.taken j n hj).2⟩
  · exact hi.once
  · intro k n hk
    obtain ⟨hlt, ht, hj⟩ := hi.touched k n ((hold k _ (by simp)).mp hk)
    exact ⟨hlt, .inl ht, hj⟩

theorem Inv.give {e : E} (hi : Inv act log (some n)) (he : act e = .give n) :
    Inv act (log ++ [e]) none := by
  obtain ⟨hn, hng⟩ := hi.held n rfl
  have hold : ∀ j x, x ≠ .give n → (ActAt act (log ++ [e]) j x ↔ ActAt act log j x) :=
    fun j x hx => by rw [actAt_snoc, he, or_iff_left fun hc => hx hc.2.symm]
  have htaken : ∀ m, ActAt act (log ++ [e]) m .take ↔ ActAt act log m .take :=
    fun m => hold m _ (by simp)
  have hgiven : ∀ j m, ActAt act (log ++ [e]) j (.give m) ↔
      ActAt act log j (.give m) ∨ (j = log.length ∧ n = m) := fun j m => by
    rw [actAt_snoc, he, Act.give.injEq]
  constructor <;> simp only [htaken, hgiven]
  · rintro m ⟨⟩
  · intro m hm _
    by_cases hmn : n = m
    · exact ⟨log.length, hm.lt, .inr ⟨rfl, hmn⟩⟩
    · obtain ⟨j, hlt, hj⟩ := hi.given m hm (by simpa using hmn)
      exact ⟨j, hlt, .inl hj⟩
  · rintro j m (hj | ⟨rfl, rfl⟩)
    · exact hi.taken j m hj
    · exact ⟨hn, hn.lt⟩
  · rintro j k m (hj | ⟨rfl, rfl⟩) (hk | ⟨rfl, hm⟩)
    · exact hi.once j k m hj hk
    · exact absurd (hm ▸ hj) (hng j)
    · exact absurd hk (hng k)
    · rfl
  · intro k m hk
    obtain ⟨hlt, ht, hj⟩ := hi.touched k m ((hold k _ (by simp)).mp hk)
    refine ⟨hlt, ht, fun j hj' => ?_⟩
    rcases hj' with hj' | ⟨rfl, rfl⟩
    · exact hj j hj'
    · exact ((hold k _ (by simp)).mp hk).lt

theorem Held.inv (hl : Held act log h) : Inv act log h := by
  induction hl with
  | nil => exact .nil
  | idle _ he ih => exact ih.snoc (by simp [he]) (by simp [he]) (by simp [he])
  | take _ he ih => exact ih.take he
  | touch _ he ih => exact ih.snoc (by simp [he]) (by simp [he]) (by simp [he])
  | give _ he ih => exact ih.give he

/-- Every object taken before a point with nothing held was given back before that point, once in
the whole log, and never touched after that. -/
theorem returned_once (hl : Held act log none) {rest : List E} (hl' : Held act (log ++ rest) h)
    (ht : ActAt act (log ++ rest) i .take) (hi : i < log.length) :
    ∃ j, i < j ∧ j < log.length ∧ ActAt act (log ++ rest) j (.give i) ∧
      (∀ k, ActAt act (log ++ rest) k (.give i) → k = j) ∧
      ∀ k, ActAt act (log ++ rest) k (.touch i) → i < k ∧ k < j := by
  obtain ⟨j, hij, hj⟩ := hl.inv.given i (ht.of_append hi) (by simp)
  refine ⟨j, hij, hj.lt, hj.append rest, fun k hk => ?_, fun k hk => ?_⟩
  · exact hl'.inv.once k j i hk (hj.append rest)
  · obtain ⟨hlt, -, hbefore⟩ := hl'.inv.touched k i hk
    exact ⟨hlt, hbefore j (hj.append rest)⟩

/-- What is given back after a point with nothing held was taken after it. -/
theorem given_since (hl : Held act log none) {rest : List E} (hl' : Held act (log ++ rest) h)
    (hg : ActAt act (log ++ rest) j (.give i)) (hj : log.length ≤ j) : log.length ≤ i := by
  by_contra hi
  obtain ⟨j', -, hlt, -, honce, -⟩ :=
    returned_once hl hl' (hl'.inv.taken j i hg).1 (Nat.lt_of_not_le hi)
  have hjj : j = j' := honce j hg
  omega

end Rpma.Lib.Lease
