import Mathlib.Data.List.ReduceOption
import Mathlib.Logic.Function.Basic
import Mathlib.Logic.Relation

/-!
# Reliable connections and their completion queues

A completion queue (`CompQueue`) holds completions; if it is armed, the next one raises an event. A
consumer waits for an event, arms the queue again and polls it (`Consumer`).

A `Qp` is one end of a reliable connection that sends messages of type `M` from and receives them
into its memory `A → M`. The connection moves on its own: it takes the next message to be sent out
of the memory (`transmit`), delivers a message into the next posted receive of the other end
(`Qp.sent`, `Qp.received`), and acknowledges it (`ack`). A message that finds no receive is not
delivered until there is one.

An end whose process is at its end goes to the error state: what it has posted is dropped
(`Qp.flush`). A message to it is not delivered any more. The sender gives up after some time
(`Qp.abortSend`) and is in the error state itself then, in which its receives are aborted
(`Qp.abortRecv`).

* `Expects c ws q`: of the queue `q` with its consumer at `c`, when `ws` are the completions that
  are still to come and there is at most one completion at a time. The lemmas of `Expects` say that
  it is kept by every step of the consumer and by every completion, and **`Expects.poll`** that the
  consumer never polls an empty queue.
* `Qp.Serves`: of an end with two queues, each consumed so. The moves of the connection keep it.
-/

namespace Rpma.Lib

variable {A M W : Type}

/-! ## Completion queues -/

/-- The completions, the oldest first, whether the next one raises an event, and the number of
events that no consumer has got yet. -/
structure CompQueue (W : Type) where
  cqes : List W
  armed : Bool
  events : Nat
  deriving DecidableEq, Repr

namespace CompQueue

/-- Armed, without completions and events. -/
def idle : CompQueue W := ⟨[], true, 0⟩

/-- A completion arrives. -/
def add (q : CompQueue W) (wc : W) : CompQueue W :=
  ⟨q.cqes ++ [wc], false, if q.armed then q.events + 1 else q.events⟩

/-- An event is got; this blocks until there is one. -/
def getEvent (q : CompQueue W) : Option (CompQueue W) :=
  if q.events = 0 then none else some { q with events := q.events - 1 }

def notify (q : CompQueue W) : CompQueue W := { q with armed := true }

/-- At most `k` completions are taken. -/
def poll (q : CompQueue W) (k : Nat) : List W × CompQueue W :=
  (q.cqes.take k, { q with cqes := q.cqes.drop k })

end CompQueue

/-- Where the consumer of a queue is: it waits for an event, arms the queue, polls it. -/
inductive Consumer where
  | getEvent | notify | poll
  deriving DecidableEq, Repr

/-- The number of steps until the consumer has its completion. -/
def Consumer.left : Consumer → Nat
  | .getEvent => 3
  | .notify => 2
  | .poll => 1

/-! ## One completion at a time -/

/-- The queue `q` when its consumer is at `c` (`none`: it expects nothing), and the completions `ws`
are still to come; each completion is `w`. -/
def Expects (w : W) (c : Option Consumer) (ws : List W) (q : CompQueue W) : Prop :=
  match c with
  | none => ws = [] ∧ q = .idle
  | some .getEvent => ws = [w] ∧ q = .idle ∨ ws = [] ∧ q = ⟨[w], false, 1⟩
  | some .notify => ws = [] ∧ q = ⟨[w], false, 0⟩
  | some .poll => ws = [] ∧ q = ⟨[w], true, 0⟩

section Expects

variable {c : Option Consumer} {c' : Consumer} {w w' : W} {ws : List W} {q q' : CompQueue W}

theorem Expects.idle : Expects w none [] .idle := ⟨rfl, rfl⟩

/-- Something with a completion is begun. -/
theorem Expects.post (h : Expects w none ws q) : Expects w (some .getEvent) (ws ++ [w]) q := by
  obtain ⟨rfl, rfl⟩ := h
  exact Or.inl ⟨rfl, rfl⟩

/-- The expected completion arrives. -/
theorem Expects.complete (h : Expects w c (w' :: ws) q) : Expects w c ws (q.add w') := by
  cases c with
  | none => exact absurd h.1 (List.cons_ne_nil w' ws)
  | some c =>
    cases c with
    | getEvent =>
      rcases h with ⟨hws, rfl⟩ | ⟨hws, -⟩
      · obtain ⟨rfl, rfl⟩ := List.cons.inj hws
        exact Or.inr ⟨rfl, rfl⟩
      · exact absurd hws (List.cons_ne_nil w' ws)
    | notify => exact absurd h.1 (List.cons_ne_nil w' ws)
    | poll => exact absurd h.1 (List.cons_ne_nil w' ws)

theorem Expects.getEvent (h : Expects w (some .getEvent) ws q) (hq : q.getEvent = some q') :
    Expects w (some .notify) ws q' ∧ q'.cqes = q.cqes := by
  rcases h with ⟨-, rfl⟩ | ⟨rfl, rfl⟩
  · simp [CompQueue.getEvent, CompQueue.idle] at hq
  · simp only [CompQueue.getEvent, Nat.one_ne_zero, if_false, Option.some.injEq] at hq
    exact ⟨⟨rfl, hq.symm⟩, hq ▸ rfl⟩

theorem Expects.notify (h : Expects w (some .notify) ws q) :
    Expects w (some .poll) ws q.notify := by
  obtain ⟨rfl, rfl⟩ := h
  exact ⟨rfl, rfl⟩

/-- **The poll finds the one completion.** -/
theorem Expects.poll (h : Expects w (some .poll) ws q) :
    q.cqes = [w] ∧ q.poll 1 = ([w], .idle) ∧ ws = [] := by
  obtain ⟨rfl, rfl⟩ := h
  exact ⟨rfl, rfl, rfl⟩

/-- Every completion in the queue is `w`. -/
theorem Expects.mem (h : Expects w c ws q) (hq : w' ∈ q.cqes) : w' = w := by
  cases c with
  | none =>
    obtain ⟨-, rfl⟩ := h
    exact absurd hq List.not_mem_nil
  | some c =>
    cases c with
    | getEvent =>
      rcases h with ⟨-, rfl⟩ | ⟨-, rfl⟩
      · exact absurd hq List.not_mem_nil
      · exact List.mem_singleton.mp hq
    | notify =>
      obtain ⟨-, rfl⟩ := h
      exact List.mem_singleton.mp hq
    | poll =>
      obtain ⟨-, rfl⟩ := h
      exact List.mem_singleton.mp hq

/-- As long as nothing has arrived, the completion is to come. -/
theorem Expects.to_come (h : Expects w (some c') ws q) (hq : q.cqes = []) :
    c' = .getEvent ∧ ws = [w] := by
  cases c' with
  | getEvent =>
    rcases h with ⟨hws, -⟩ | ⟨-, rfl⟩
    · exact ⟨rfl, hws⟩
    · exact absurd hq (List.cons_ne_nil w [])
  | notify =>
    obtain ⟨-, rfl⟩ := h
    exact absurd hq (List.cons_ne_nil w [])
  | poll =>
    obtain ⟨-, rfl⟩ := h
    exact absurd hq (List.cons_ne_nil w [])

end Expects

/-! ## Ends of a connection -/

/-- A message to be sent, with the completion it gets, if it gets one. -/
structure SendWr (A W : Type) where
  addr : A
  completion : Option W
  deriving DecidableEq, Repr

/-- A posted receive. -/
structure RecvWr (A W : Type) where
  addr : A
  completion : W
  deriving DecidableEq, Repr

/-- One end of a connection: its memory, the sends that have been posted and not been sent, the
messages on their way, the completions of the delivered ones that are not acknowledged, the posted
receives, and the two queues. -/
structure Qp (A M W : Type) where
  mem : A → M
  sq : List (SendWr A W)
  wire : List (M × Option W)
  unacked : List (Option W)
  rq : List (RecvWr A W)
  cq : CompQueue W
  rcq : CompQueue W

namespace Qp

/-- With nothing posted. -/
def fresh (mem : A → M) : Qp A M W := ⟨mem, [], [], [], [], .idle, .idle⟩

def postSend (p : Qp A M W) (wr : SendWr A W) : Qp A M W := { p with sq := p.sq ++ [wr] }

def postRecv (p : Qp A M W) (wr : RecvWr A W) : Qp A M W := { p with rq := p.rq ++ [wr] }

/-- The next message goes out. -/
def transmit (p : Qp A M W) : Option (Qp A M W) :=
  match p.sq with
  | [] => none
  | wr :: sq => some { p with sq := sq, wire := p.wire ++ [(p.mem wr.addr, wr.completion)] }

/-- The first message on its way has been delivered. -/
def sent (p : Qp A M W) : Qp A M W :=
  { p with wire := p.wire.tail, unacked := p.unacked ++ p.wire.head?.toList.map Prod.snd }

/-- A delivered message is acknowledged. -/
def ack (p : Qp A M W) : Option (Qp A M W) :=
  match p.unacked with
  | [] => none
  | none :: unacked => some { p with unacked := unacked }
  | some wc :: unacked => some { p with unacked := unacked, cq := p.cq.add wc }

/-- The completions of the messages that are still to come, in order. -/
def sending (p : Qp A M W) : List W :=
  (p.unacked ++ p.wire.map Prod.snd ++ p.sq.map SendWr.completion).reduceOption

/-- The completions of the posted receives. -/
def receiving (p : Qp A M W) : List W := p.rq.map RecvWr.completion

/-- The number of messages that have been posted and not been delivered. -/
def outgoing (p : Qp A M W) : Nat := p.sq.length + p.wire.length

/-- The number of messages that have been received and not been taken. -/
def landed (p : Qp A M W) : Nat := p.rcq.cqes.length

theorem transmit_eq_none {p : Qp A M W} (h : p.transmit = none) : p.sq = [] := by
  unfold transmit at h
  split at h
  · assumption
  · cases h

theorem ack_eq_none {p : Qp A M W} (h : p.ack = none) : p.unacked = [] := by
  unfold ack at h
  split at h
  · assumption
  · cases h
  · cases h

theorem transmit_cases {p p' : Qp A M W} (h : p.transmit = some p') :
    ∃ wr sq, p.sq = wr :: sq ∧
      p' = { p with sq := sq, wire := p.wire ++ [(p.mem wr.addr, wr.completion)] } := by
  unfold transmit at h
  split at h
  · cases h
  · rename_i wr sq hsq
    exact ⟨wr, sq, hsq, (Option.some.inj h).symm⟩

theorem ack_cases {p p' : Qp A M W} (h : p.ack = some p') :
    (∃ unacked, p.unacked = none :: unacked ∧ p' = { p with unacked := unacked }) ∨
      ∃ wc unacked, p.unacked = some wc :: unacked ∧
        p' = { p with unacked := unacked, cq := p.cq.add wc } := by
  unfold ack at h
  split at h
  · cases h
  · rename_i unacked hu
    exact Or.inl ⟨unacked, hu, (Option.some.inj h).symm⟩
  · rename_i wc unacked hu
    exact Or.inr ⟨wc, unacked, hu, (Option.some.inj h).symm⟩

section Deliver

variable [DecidableEq A]

def store (p : Qp A M W) (a : A) (m : M) : Qp A M W :=
  { p with mem := Function.update p.mem a m }

@[simp] theorem store_mem (p : Qp A M W) (a : A) (m : M) : (p.store a m).mem a = m :=
  Function.update_self ..

theorem store_mem_of_ne (p : Qp A M W) {a b : A} (h : b ≠ a) (m : M) :
    (p.store a m).mem b = p.mem b := Function.update_of_ne h ..

/-- The message `m` arrives in the first posted receive. Its completion goes to the queue for
receives, if the connection has one of its `own`. -/
def received (own : Bool) (p : Qp A M W) (wr : RecvWr A W) (m : M) : Qp A M W :=
  { p with
    mem := Function.update p.mem wr.addr m
    rq := p.rq.tail
    cq := if own then p.cq else p.cq.add wr.completion
    rcq := if own then p.rcq.add wr.completion else p.rcq }

/-- A message from `p` is delivered to `o`. -/
def deliver (own : Bool) (p o : Qp A M W) : Option (Qp A M W × Qp A M W) :=
  match p.wire, o.rq with
  | m :: _, wr :: _ => some (p.sent, o.received own wr m.1)
  | _, _ => none

theorem deliver_eq_none {p o : Qp A M W} {own : Bool} (h : p.deliver own o = none)
    (hrq : p.wire ≠ [] → o.rq ≠ []) : p.wire = [] := by
  unfold deliver at h
  split at h
  · cases h
  · rename_i hnone
    by_contra hwire
    obtain ⟨m, wire, hw⟩ := List.exists_cons_of_ne_nil hwire
    obtain ⟨wr, rq, hr⟩ := List.exists_cons_of_ne_nil (hrq hwire)
    exact hnone m wire wr rq hw hr

theorem received_mem {own : Bool} {p : Qp A M W} {wr : RecvWr A W} {b : A} (h : wr.addr = b)
    (m : M) : (p.received own wr m).mem b = m := by
  subst h
  exact Function.update_self ..

theorem received_mem_of_ne {own : Bool} {p : Qp A M W} {wr : RecvWr A W} {a : A}
    (h : a ≠ wr.addr) (m : M) : (p.received own wr m).mem a = p.mem a :=
  Function.update_of_ne h ..

theorem deliver_cases {p p' o o' : Qp A M W} {own : Bool} (h : p.deliver own o = some (p', o')) :
    ∃ m wire wr rq, p.wire = m :: wire ∧ o.rq = wr :: rq ∧ p' = p.sent ∧
      o' = o.received own wr m.1 := by
  unfold deliver at h
  split at h
  · rename_i m wire wr rq hwire hrq
    obtain ⟨rfl, rfl⟩ := Prod.mk.inj (Option.some.inj h)
    exact ⟨m, wire, wr, rq, hwire, hrq, rfl, rfl⟩
  · cases h

end Deliver

/-! ### Requests that are not carried out -/

section Aborts

variable {p p' : Qp A M W} {wc : W} {own : Bool}

/-- What has been posted and not been carried out is dropped, if there is anything. -/
def flush (p : Qp A M W) : Option (Qp A M W) :=
  match p.sq, p.wire, p.rq with
  | [], [], [] => none
  | _, _, _ => some { p with sq := [], wire := [], rq := [] }

/-- The first message that has not been delivered is completed with `wc`. Those that have been
delivered are acknowledged before. -/
def abortSend (p : Qp A M W) (wc : W) : Option (Qp A M W) :=
  match p.unacked, p.wire, p.sq with
  | [], _ :: wire, _ => some { p with wire := wire, cq := p.cq.add wc }
  | [], [], _ :: sq => some { p with sq := sq, cq := p.cq.add wc }
  | _, _, _ => none

/-- The first posted receive is completed with `wc`. -/
def abortRecv (own : Bool) (p : Qp A M W) (wc : W) : Option (Qp A M W) :=
  match p.rq with
  | [] => none
  | _ :: rq => some { p with
      rq := rq
      cq := if own then p.cq else p.cq.add wc
      rcq := if own then p.rcq.add wc else p.rcq }

theorem flush_cases (h : p.flush = some p') :
    (p.sq ≠ [] ∨ p.wire ≠ [] ∨ p.rq ≠ []) ∧ p' = { p with sq := [], wire := [], rq := [] } := by
  unfold flush at h
  split at h
  · cases h
  · rename_i hne
    refine ⟨?_, (Option.some.inj h).symm⟩
    by_contra hall
    obtain ⟨hsq, hwire, hrq⟩ : p.sq = [] ∧ p.wire = [] ∧ p.rq = [] := by
      simpa only [not_or, ne_eq, not_not] using hall
    exact hne hsq hwire hrq

/-- What is left of the sends. -/
theorem abortSend_cases (h : p.abortSend wc = some p') :
    p.unacked = [] ∧ ∃ sq wire, p' = { p with sq := sq, wire := wire, cq := p.cq.add wc } ∧
      sq <:+ p.sq ∧ wire <:+ p.wire ∧ sq.length + wire.length + 1 = p.outgoing := by
  unfold abortSend at h
  split at h
  · rename_i m wire hu hw
    refine ⟨hu, p.sq, wire, (Option.some.inj h).symm, List.suffix_rfl, hw ▸ List.suffix_cons m wire,
      ?_⟩
    simp only [outgoing, hw, List.length_cons]
    omega
  · rename_i wr sq hu hw hsq
    refine ⟨hu, sq, p.wire, (Option.some.inj h).symm, hsq ▸ List.suffix_cons wr sq, List.suffix_rfl,
      ?_⟩
    simp [outgoing, hw, hsq]
  · cases h

theorem abortSend_eq_none (hu : p.unacked = []) (h : p.abortSend wc = none) : p.outgoing = 0 := by
  unfold abortSend at h
  split at h
  · cases h
  · cases h
  · rename_i hwire hsq
    cases hw : p.wire with
    | cons m wire => exact absurd hw (hwire m wire hu)
    | nil =>
      cases hs : p.sq with
      | cons wr sq => exact absurd hs (hsq wr sq hu hw)
      | nil => simp [outgoing, hw, hs]

theorem abortRecv_cases (h : p.abortRecv own wc = some p') :
    ∃ wr rq, p.rq = wr :: rq ∧ p' = { p with
      rq := rq
      cq := if own then p.cq else p.cq.add wc
      rcq := if own then p.rcq.add wc else p.rcq } := by
  unfold abortRecv at h
  split at h
  · cases h
  · rename_i wr rq hrq
    exact ⟨wr, rq, hrq, (Option.some.inj h).symm⟩

end Aborts

/-! ### The number of messages -/

section Counts

variable {p p' : Qp A M W}

theorem sent_outgoing {m : M × Option W} {wire : List (M × Option W)} (h : p.wire = m :: wire) :
    p.sent.outgoing + 1 = p.outgoing := by
  simp only [outgoing, sent, h, List.tail_cons, List.length_cons]
  omega

@[simp] theorem sent_landed (p : Qp A M W) : p.sent.landed = p.landed := rfl

@[simp] theorem received_outgoing [DecidableEq A] (p : Qp A M W) (wr : RecvWr A W) (m : M)
    (own : Bool) : (p.received own wr m).outgoing = p.outgoing := rfl

@[simp] theorem received_landed [DecidableEq A] (p : Qp A M W) (wr : RecvWr A W) (m : M) :
    (p.received true wr m).landed = p.landed + 1 := by
  simp [landed, received, CompQueue.add]

/-- An end moves on its own: a message goes out or is acknowledged. -/
def Moves (p p' : Qp A M W) : Prop := p.transmit = some p' ∨ p.ack = some p'

theorem Moves.frame (h : p.Moves p') : p'.mem = p.mem ∧ p'.rq = p.rq ∧ p'.rcq = p.rcq := by
  rcases h with h | h
  · obtain ⟨wr, sq, -, rfl⟩ := transmit_cases h
    exact ⟨rfl, rfl, rfl⟩
  · obtain ⟨unacked, -, rfl⟩ | ⟨wc, unacked, -, rfl⟩ := ack_cases h <;> exact ⟨rfl, rfl, rfl⟩

theorem Moves.outgoing (h : p.Moves p') : p'.outgoing = p.outgoing := by
  rcases h with h | h
  · obtain ⟨wr, sq, hsq, rfl⟩ := transmit_cases h
    simp only [Qp.outgoing, hsq, List.length_append, List.length_cons, List.length_nil]
    omega
  · obtain ⟨unacked, -, rfl⟩ | ⟨wc, unacked, -, rfl⟩ := ack_cases h <;> rfl

theorem Moves.landed (h : p.Moves p') : p'.landed = p.landed := by
  rw [Qp.landed, h.frame.2.2, Qp.landed]

/-- The moves of the connection until every message of this end is delivered and acknowledged. -/
def left (p : Qp A M W) : Nat := 3 * p.sq.length + 2 * p.wire.length + p.unacked.length

theorem Moves.left (h : p.Moves p') : p'.left + 1 = p.left := by
  rcases h with h | h
  · obtain ⟨wr, sq, hsq, rfl⟩ := transmit_cases h
    simp only [Qp.left, hsq, List.length_append, List.length_cons, List.length_nil]
    omega
  · obtain ⟨unacked, hu, rfl⟩ | ⟨wc, unacked, hu, rfl⟩ := ack_cases h <;>
      simp only [Qp.left, hu, List.length_cons] <;> omega

theorem sent_left {m : M × Option W} {wire : List (M × Option W)} (h : p.wire = m :: wire) :
    p.sent.left + 1 = p.left := by
  simp only [left, sent, h, List.tail_cons, List.head?_cons, Option.toList_some, List.map_cons,
    List.map_nil, List.length_append, List.length_cons, List.length_nil]
  omega

@[simp] theorem received_left [DecidableEq A] (p : Qp A M W) (wr : RecvWr A W) (m : M)
    (own : Bool) : (p.received own wr m).left = p.left := rfl

end Counts

/-! ### What an end carries -/

/-- Every message that has not been delivered is `v`: what is not sent is still to be read from the
address `a`. -/
structure Carries (a : A) (v : M) (p : Qp A M W) : Prop where
  from_addr : ∀ wr ∈ p.sq, wr.addr = a
  queued : p.sq ≠ [] → p.mem a = v
  flying : ∀ m ∈ p.wire, m.1 = v

section Carries

variable {a b : A} {v : M} {p p' : Qp A M W}

theorem Carries.of_outgoing (h : p.outgoing = 0) : p.Carries a v := by
  have hsq : p.sq = [] := List.length_eq_zero_iff.mp (by unfold outgoing at h; omega)
  have hwire : p.wire = [] := List.length_eq_zero_iff.mp (by unfold outgoing at h; omega)
  exact ⟨by simp [hsq], by simp [hsq], by simp [hwire]⟩

/-- The one message is posted. -/
theorem Carries.post (h : p.outgoing = 0) (hmem : p.mem a = v) (c : Option W) :
    (p.postSend ⟨a, c⟩).Carries a v := by
  have hsq : p.sq = [] := List.length_eq_zero_iff.mp (by unfold outgoing at h; omega)
  have hwire : p.wire = [] := List.length_eq_zero_iff.mp (by unfold outgoing at h; omega)
  exact ⟨by simp [postSend, hsq], fun _ => hmem, by simp [postSend, hwire]⟩

theorem Carries.transmit (h : p.Carries a v) (ht : p.transmit = some p') : p'.Carries a v := by
  obtain ⟨wr, sq, hsq, rfl⟩ := transmit_cases ht
  have hne : p.sq ≠ [] := by simp [hsq]
  refine ⟨fun wr' hwr' => h.from_addr wr' (by simp [hsq, hwr']), fun _ => h.queued hne,
    fun m hm => ?_⟩
  rcases List.mem_append.mp hm with hm | hm
  · exact h.flying m hm
  · rw [List.mem_singleton.mp hm, h.from_addr wr (by simp [hsq])]
    exact h.queued hne

theorem Carries.sent (h : p.Carries a v) : p.sent.Carries a v :=
  ⟨h.from_addr, h.queued, fun m hm => h.flying m (List.mem_of_mem_tail hm)⟩

theorem Carries.moves (h : p.Carries a v) (hm : p.Moves p') : p'.Carries a v := by
  rcases hm with hm | hm
  · exact h.transmit hm
  · obtain ⟨unacked, -, rfl⟩ | ⟨wc, unacked, -, rfl⟩ := ack_cases hm
    · exact ⟨h.from_addr, h.queued, h.flying⟩
    · exact ⟨h.from_addr, h.queued, h.flying⟩

theorem Carries.received [DecidableEq A] {own : Bool} {wr : RecvWr A W} {m : M}
    (h : p.Carries a v) (hne : a ≠ wr.addr) : (p.received own wr m).Carries a v :=
  ⟨h.from_addr, fun hq => (received_mem_of_ne hne m).trans (h.queued hq), h.flying⟩

end Carries

/-! ### Ends with two queues -/

/-- The consumer of the queue for sends is at `cs`, that of the queue for receives at `cr`; sends
complete with `sw` and receives with `rw`. Messages are received into `b`. -/
structure Serves (b : A) (sw rw : W) (cs cr : Option Consumer) (p : Qp A M W) : Prop where
  sends : Expects sw cs p.sending p.cq
  receives : Expects rw cr p.receiving p.rcq
  into : ∀ wr ∈ p.rq, wr.addr = b

section Serves

variable {b : A} {sw rw : W} {cs cr : Option Consumer} {p p' : Qp A M W}

theorem transmit_sending (h : p.transmit = some p') : p'.sending = p.sending := by
  obtain ⟨wr, sq, hsq, rfl⟩ := transmit_cases h
  simp [sending, hsq]

theorem sent_sending (p : Qp A M W) : p.sent.sending = p.sending := by
  unfold sending sent
  cases p.wire <;> simp

theorem Serves.transmit (h : p.Serves b sw rw cs cr) (ht : p.transmit = some p') :
    p'.Serves b sw rw cs cr := by
  have hsending := transmit_sending ht
  obtain ⟨wr, sq, -, rfl⟩ := transmit_cases ht
  exact ⟨hsending.symm ▸ h.sends, h.receives, h.into⟩

theorem Serves.sent (h : p.Serves b sw rw cs cr) : p.sent.Serves b sw rw cs cr :=
  ⟨(sent_sending p).symm ▸ h.sends, h.receives, h.into⟩

theorem Serves.ack (h : p.Serves b sw rw cs cr) (ha : p.ack = some p') :
    p'.Serves b sw rw cs cr := by
  have hsends := h.sends
  obtain ⟨unacked, hu, rfl⟩ | ⟨wc, unacked, hu, rfl⟩ := ack_cases ha
  · simp only [sending, hu, List.cons_append, List.reduceOption_cons_of_none] at hsends
    exact ⟨hsends, h.receives, h.into⟩
  · simp only [sending, hu, List.cons_append, List.reduceOption_cons_of_some] at hsends
    exact ⟨hsends.complete, h.receives, h.into⟩

theorem Serves.moves (h : p.Serves b sw rw cs cr) (hm : p.Moves p') :
    p'.Serves b sw rw cs cr := hm.elim h.transmit h.ack

theorem Serves.received [DecidableEq A] {wr : RecvWr A W} {rq : List (RecvWr A W)} {m : M}
    (h : p.Serves b sw rw cs cr) (hrq : p.rq = wr :: rq) :
    (p.received true wr m).Serves b sw rw cs cr := by
  have hreceives := h.receives
  simp only [receiving, hrq, List.map_cons] at hreceives
  refine ⟨h.sends, ?_, fun wr' hwr' => h.into wr' (List.mem_of_mem_tail hwr')⟩
  simp only [Qp.received, receiving, hrq, List.tail_cons]
  exact hreceives.complete

theorem Serves.postRecv (h : p.Serves b sw rw cs none) :
    (p.postRecv ⟨b, rw⟩).Serves b sw rw cs (some .getEvent) := by
  refine ⟨h.sends, ?_, fun wr hwr => ?_⟩
  · simpa [receiving, Qp.postRecv] using h.receives.post
  · rcases List.mem_append.mp hwr with hwr | hwr
    · exact h.into wr hwr
    · rw [List.mem_singleton.mp hwr]

theorem Serves.postSend (h : p.Serves b sw rw none cr) (a : A) :
    (p.postSend ⟨a, some sw⟩).Serves b sw rw (some .getEvent) cr := by
  refine ⟨?_, h.receives, h.into⟩
  simpa [sending, Qp.postSend, List.reduceOption_append] using h.sends.post

/-- A send without a completion. -/
theorem Serves.postUnsignaled (h : p.Serves b sw rw cs cr) (a : A) :
    (p.postSend ⟨a, none⟩).Serves b sw rw cs cr := by
  refine ⟨?_, h.receives, h.into⟩
  simpa [sending, Qp.postSend, List.reduceOption_append] using h.sends

theorem Serves.store [DecidableEq A] (h : p.Serves b sw rw cs cr) (a : A) (m : M) :
    (p.store a m).Serves b sw rw cs cr := ⟨h.sends, h.receives, h.into⟩

/-- Nobody waits for what is dropped. -/
theorem Serves.flush (h : p.Serves b sw rw none none) (hp : p.flush = some p') :
    p'.Serves b sw rw none none := by
  obtain ⟨-, rfl⟩ := flush_cases hp
  obtain ⟨hsending, hcq⟩ := h.sends
  have hunacked : p.unacked.reduceOption = [] := by
    simp only [sending, List.reduceOption_append, List.append_eq_nil_iff] at hsending
    exact hsending.1.1
  refine ⟨⟨?_, hcq⟩, ⟨rfl, h.receives.2⟩, fun wr hwr => absurd hwr List.not_mem_nil⟩
  simpa [sending] using hunacked

/-- While nothing has arrived, the end waits with a receive posted. -/
theorem Serves.receive_posted {c : Consumer} (h : p.Serves b sw rw cs (some c))
    (hl : p.landed = 0) : c = .getEvent ∧ p.rq ≠ [] := by
  obtain ⟨hc, hw⟩ := h.receives.to_come (List.length_eq_zero_iff.mp hl)
  refine ⟨hc, fun hrq => ?_⟩
  simp [receiving, hrq] at hw

end Serves

end Qp

end Rpma.Lib
