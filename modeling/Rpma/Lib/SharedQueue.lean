import Rpma.Lib.Reliable

/-!
# One completion queue for the sends and the receives of an end

With more than one completion under way, a completion can come between arming the queue and polling
it. It is taken by that poll, but its event is not: the next poll may find nothing.

* `CompQueue.Woken late c q`: of the queue `q` with its consumer at `c`, when `late` says whether a
  completion has ever come so. **`Woken.poll`**: only then a poll finds nothing. **`Woken.blocked`**:
  a consumer that is blocked has an empty queue, so no wake-up is lost.
* `Qp.pending`: the messages that have been posted and not been delivered, as they are now.
-/

namespace Rpma.Lib

variable {A M W : Type}

/-! ## Waking up -/

/-- The consumer polls. -/
def Consumer.polls : Consumer → Bool
  | .poll => true
  | _ => false

namespace CompQueue

/-- Where the consumer is, and what it finds then: it sleeps, it has been woken, it has got the
event, it has armed the queue, or a completion has come since. -/
inductive Woken (late : Bool) : Consumer → CompQueue W → Prop
  | asleep : Woken late .getEvent .idle
  | woken {ws : List W} (h : ws = [] → late = true) : Woken late .getEvent ⟨ws, false, 1⟩
  | got {ws : List W} (h : ws = [] → late = true) : Woken late .notify ⟨ws, false, 0⟩
  | armed {ws : List W} (h : ws = [] → late = true) : Woken late .poll ⟨ws, true, 0⟩
  | overtaken {ws : List W} (h : late = true) : Woken late .poll ⟨ws, false, 1⟩

variable {late late' : Bool} {c : Consumer} {q q' : CompQueue W}

theorem add_ne (q : CompQueue W) (wc : W) : q.add wc ≠ q := by
  intro h
  have hlen := congrArg (fun q => q.cqes.length) h
  simp [add] at hlen

theorem Woken.add (h : Woken late c q) (wc : W) : Woken (late || c.polls) c (q.add wc) := by
  have hne : ∀ ws : List W, ws ++ [wc] = [] → (late || c.polls) = true := fun ws h => by
    simp at h
  cases h with
  | asleep => exact .woken (hne [])
  | woken _ => exact .woken (hne _)
  | got _ => exact .got (hne _)
  | armed _ => exact .overtaken (Bool.or_true late)
  | overtaken h => exact .overtaken (by simp [h])

/-- An event is there, and it is got. -/
theorem Woken.getEvent (h : Woken late .getEvent q) (hq : q.getEvent = some q') :
    Woken late .notify q' ∧ q'.cqes = q.cqes := by
  cases h with
  | asleep => simp [CompQueue.getEvent, idle] at hq
  | woken h =>
    simp only [CompQueue.getEvent, Nat.one_ne_zero, if_false, Option.some.injEq] at hq
    exact ⟨hq ▸ .got h, hq ▸ rfl⟩

theorem Woken.notify (h : Woken late .notify q) : Woken late .poll q.notify := by
  cases h with
  | got h => exact .armed h

/-- **A poll that finds nothing has been overtaken.** It takes everything, if there is room. -/
theorem Woken.poll (h : Woken late .poll q) {k : Nat} (hk : q.cqes.length ≤ k) :
    (q.poll k).1 = q.cqes ∧ (q.poll k).2.cqes = [] ∧ Woken late .getEvent (q.poll k).2 ∧
      (q.cqes = [] → late = true) := by
  refine ⟨List.take_of_length_le hk, List.drop_of_length_le hk, ?_, ?_⟩
  · cases h with
    | armed h =>
      simp only [CompQueue.poll, List.drop_of_length_le hk]
      exact .asleep
    | overtaken h => exact .woken fun _ => h
  · cases h with
    | armed h => exact h
    | overtaken h => exact fun _ => h

/-- **No wake-up is lost.** -/
theorem Woken.blocked (h : Woken late .getEvent q) (hq : q.getEvent = none) : q.cqes = [] := by
  cases h with
  | asleep => rfl
  | woken h => simp [CompQueue.getEvent] at hq

end CompQueue

namespace Qp

variable {p p' : Qp A M W}

/-! ## Messages under way -/

/-- The messages on their way, and those that are still to be read from the memory. -/
def pending (p : Qp A M W) : List M := p.wire.map Prod.fst ++ p.sq.map fun wr => p.mem wr.addr

/-- The number of sends without a completion. -/
def unfinished (p : Qp A M W) : Nat := p.sq.length + p.wire.length + p.unacked.length

theorem Moves.pending (h : p.Moves p') : p'.pending = p.pending := by
  rcases h with h | h
  · obtain ⟨wr, sq, hsq, rfl⟩ := transmit_cases h
    simp [Qp.pending, hsq]
  · obtain ⟨unacked, -, rfl⟩ | ⟨wc, unacked, -, rfl⟩ := ack_cases h <;> rfl

theorem pending_sent {m : M × Option W} {wire : List (M × Option W)} (h : p.wire = m :: wire) :
    p.pending = m.1 :: p.sent.pending := by
  simp [Qp.pending, sent, h]

theorem pending_postSend (p : Qp A M W) (wr : SendWr A W) :
    (p.postSend wr).pending = p.pending ++ [p.mem wr.addr] := by
  simp [Qp.pending, postSend]

theorem pending_congr (hwire : p'.wire = p.wire) (hsq : p'.sq = p.sq)
    (hmem : ∀ wr ∈ p.sq, p'.mem wr.addr = p.mem wr.addr) : p'.pending = p.pending := by
  unfold Qp.pending
  rw [hwire, hsq]
  exact congrArg _ (List.map_congr_left hmem)

theorem pending_flush (h : p.flush = some p') : p'.pending = [] := by
  obtain ⟨-, rfl⟩ := flush_cases h
  rfl

theorem pending_eq_nil (h : p.pending = []) : p.wire = [] ∧ p.sq = [] := by
  simpa [Qp.pending] using h

end Qp

end Rpma.Lib
