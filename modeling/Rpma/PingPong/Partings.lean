import Mathlib.Data.List.Infix
import Rpma.PingPong.Attending
import Rpma.PingPong.Finish

/-!
# What is under way between two processes that may leave

A process that has left its loop says nothing more, but what it has posted is still under way, until
its disconnect flushes it. The client then overwrites `send`, which a request that is not sent yet is
still to be read from.

* `Flow`: what is under way in each direction, and what has been printed, after `n` rounds and in the
  `Stage` of the next one.
* `Reasons`: why a process has left.
* **`Flow.clientMove`**, **`Flow.serverMove`**, **`Flow.link`**: every step keeps both, perhaps in the
  next stage.
-/

namespace Rpma.PingPong.Shared

open Rpma.Lib Rpma.Librpma Relation

/-! ## What is under way -/

/-- The values that are on their way from the end `o` to the end `p`, whose process has taken `taken`
completions of receives without having looked at the value. -/
def inbound (taken : Nat) (p o : End) : List UInt64 :=
  List.replicate (arrived p + taken) (p.mem .recv) ++ o.pending

section Inbound

variable {t : Nat} {d : Duty} {late : Bool} {gone : Prop} {p p' o o' : End} {v : UInt64}
  {m : UInt64 × Option Wc} {wire : List (UInt64 × Option Wc)} {wr : RecvWr Buf Wc}
  {rq : List (RecvWr Buf Wc)}

theorem inbound_congr {t' : Nat} (hcount : arrived p' + t' = arrived p + t)
    (hmem : p'.mem .recv = p.mem .recv) (hpending : o'.pending = o.pending) :
    inbound t' p' o' = inbound t p o := by
  unfold inbound
  rw [hcount, hmem, hpending]

theorem arrived_add {wc : Wc} (hcq : p'.cq = p.cq.add wc) (h : wc ≠ recvCmpl) :
    arrived p' = arrived p := by
  simp [arrived, hcq, CompQueue.add, List.count_append, h]

theorem Attends.arrived_moves (h : Attends d late gone p) (hm : p.Moves p') :
    arrived p' = arrived p := by
  rcases hm with hm | hm
  · obtain ⟨wr, sq, -, rfl⟩ := Qp.transmit_cases hm
    rfl
  · obtain ⟨unacked, -, rfl⟩ | ⟨wc, unacked, hu, rfl⟩ := Qp.ack_cases hm
    · rfl
    · have hwc : wc = sendCmpl := Option.some.inj (h.unacked _ (by simp [hu]))
      exact arrived_add rfl (by rw [hwc]; decide)

theorem arrived_abort (h : p.abortSend (failed .send none) = some p') :
    arrived p' = arrived p ∧ p'.mem = p.mem := by
  obtain ⟨-, sq, wire, rfl, -, -, -⟩ := Qp.abortSend_cases h
  exact ⟨arrived_add rfl (by decide), rfl⟩

theorem arrived_abortRecv (h : p.abortRecv false (failed .recv (some .recv)) = some p') :
    arrived p' = arrived p ∧ p'.mem = p.mem ∧ p'.pending = p.pending := by
  obtain ⟨wr, rq, -, rfl⟩ := Qp.abortRecv_cases h
  exact ⟨arrived_add rfl (by decide), rfl, rfl⟩

/-- A message that is delivered is the first one that is under way. -/
theorem Attends.inbound_delivered (h : Attends d late gone p) (haim : Aimed p)
    (ht : d.recvs + t ≤ 1) (hwire : o.wire = m :: wire) (hrq : p.rq = wr :: rq) :
    inbound t (p.received false wr m.1) o.sent = inbound t p o := by
  have hwr : wr.addr = .recv := haim.rq wr (by simp [hrq])
  have hwc : wr.completion = recvCmpl := h.rq wr (by simp [hrq])
  have hrecvs := h.recvs
  rw [hrq, List.length_cons] at hrecvs
  have hzero : arrived p = 0 := by omega
  have ht : t = 0 := by omega
  have hone : arrived (p.received false wr m.1) = 1 := by
    have hcount : arrived (p.received false wr m.1) = arrived p + 1 := by
      simp [arrived, Qp.received, CompQueue.add, hwc]
    rw [hcount, hzero]
  rw [inbound, inbound, hone, hzero, ht, Qp.received_mem hwr, Qp.pending_sent hwire]
  rfl

/-- What an end receives does not change what it has under way. -/
theorem Aimed.pending_received (h : Aimed o) (hrq : o.rq = wr :: rq) (v : UInt64) :
    (o.received false wr v).pending = o.pending := by
  refine Qp.pending_congr rfl rfl fun wr' hwr' => Qp.received_mem_of_ne ?_ v
  rw [h.sq wr' hwr', h.rq wr (by simp [hrq])]
  decide

theorem inbound_post (always : Bool) :
    inbound t p (rpmaSend o always) = inbound t p o ++ [o.mem .send] := by
  simp [inbound, rpmaSend, Qp.pending_postSend]

/-- What has arrived is not flushed. -/
theorem inbound_flush (h : o.flush = some o') :
    inbound t p o' = List.replicate (arrived p + t) (p.mem .recv) := by
  rw [inbound, Qp.pending_flush h, List.append_nil]

theorem pending_store (h : o.pending = []) : (o.store .send v).pending = [] := by
  obtain ⟨hwire, hsq⟩ := Qp.pending_eq_nil h
  simp [Qp.pending, Qp.store, hwire, hsq]

theorem inbound_eq_nil (h : inbound t p o = []) : arrived p + t = 0 ∧ o.pending = [] := by
  simpa [inbound] using h

/-- A value is sent when nothing is under way. -/
theorem inbound_send (h : inbound t p o = []) :
    inbound t p (rpmaSend (o.store .send v) true) = [v] := by
  obtain ⟨hcount, hpending⟩ := inbound_eq_nil h
  rw [inbound_post, inbound, hcount, pending_store hpending, Qp.store_mem]
  rfl

/-- `I_M_DONE` is sent, perhaps in place of what is still to be sent. -/
theorem Aimed.inbound_last (h : Aimed o) {c : UInt64} {asked : Prop} [Decidable asked]
    (hin : inbound t p o = if asked then [c] else []) :
    ∃ k, inbound t p (rpmaSend (o.store .send iMDone) false) = List.replicate k iMDone ∨
      asked ∧
        inbound t p (rpmaSend (o.store .send iMDone) false) = c :: List.replicate k iMDone := by
  have hsq : ∀ mem : Buf → UInt64, (o.sq.map fun wr => mem wr.addr) =
      List.replicate o.sq.length (mem .send) := fun mem => by
    rw [← List.map_const']
    exact List.map_congr_left fun wr hwr => congrArg mem (h.sq wr hwr)
  -- what is not read from the memory any more
  let read := List.replicate (arrived p + t) (p.mem .recv) ++ o.wire.map Prod.fst
  have hbefore : inbound t p o = read ++ List.replicate o.sq.length (o.mem .send) := by
    rw [inbound, Qp.pending, hsq o.mem, List.append_assoc]
  have hafter : inbound t p (rpmaSend (o.store .send iMDone) false) =
      read ++ List.replicate (o.sq.length + 1) iMDone := by
    have hstored : (o.store .send iMDone).pending =
        o.wire.map Prod.fst ++ List.replicate o.sq.length iMDone := by
      rw [Qp.pending]
      exact congrArg _ ((hsq _).trans (by rw [Qp.store_mem]))
    rw [inbound_post, inbound, hstored, Qp.store_mem, List.replicate_succ', ← List.append_assoc,
      ← List.append_assoc]
  refine ⟨o.sq.length + 1, ?_⟩
  rw [hafter]
  rw [hbefore] at hin
  cases hread : read with
  | nil => exact Or.inl rfl
  | cons a rest =>
    rw [hread] at hin
    split at hin
    · rename_i hasked
      obtain ⟨rfl, hrest⟩ := List.cons.inj hin
      rw [(List.append_eq_nil_iff.mp hrest).1]
      exact Or.inr ⟨hasked, rfl⟩
    · cases hin

/-- Some of the values that are under way are flushed. -/
theorem last_of_prefix {l l' : List UInt64} {c x : UInt64} {asked : Prop} (hl : l' <+: l)
    (h : ∃ k, l = List.replicate k x ∨ asked ∧ l = c :: List.replicate k x) :
    ∃ k, l' = List.replicate k x ∨ asked ∧ l' = c :: List.replicate k x := by
  obtain ⟨k, rfl | ⟨hasked, rfl⟩⟩ := h
  · exact ⟨_, Or.inl (List.prefix_replicate_iff.mp hl).2⟩
  · cases l' with
    | nil => exact ⟨0, Or.inl rfl⟩
    | cons a rest =>
      obtain ⟨rfl, hrest⟩ := List.cons_prefix_cons.mp hl
      exact ⟨_, Or.inr ⟨hasked, congrArg _ (List.prefix_replicate_iff.mp hrest).2⟩⟩

end Inbound

/-! ## The course of a ping-pong -/

/-- The client runs its loop. -/
def ClientPc.active : ClientPc → Prop
  | .final | .done => False
  | _ => True

/-- The client has taken the completion of its receive, and not looked at the value. -/
def ClientPc.taken : ClientPc → Nat
  | .wait _ cmpl => cmpl.recv.toNat
  | .value => 1
  | _ => 0

/-- The client has sent the value of the round. -/
def ClientPc.asked : ClientPc → Bool
  | .wait _ _ | .value => true
  | _ => false

def ServerPc.taken : ServerPc → Nat
  | .wait _ cmpl => cmpl.recv.toNat
  | .handle => 1
  | _ => 0

/-- It has printed the value it received, and not its answer. -/
def ServerPc.answering : ServerPc → Bool
  | .recv | .send => true
  | _ => false

/-- The rounds that are still to be completed. -/
def Client.left (c : Client) : Nat :=
  match c.pc with
  | .loop => (c.rounds - 1).toNat
  | _ => c.rounds.toNat

def State.toServer (s : State) : List UInt64 := inbound s.server.pc.taken s.server.qp s.client.qp

def State.toClient (s : State) : List UInt64 := inbound s.client.pc.taken s.client.qp s.server.qp

/-- The values `l` are under way to the client, or the server's disconnect has flushed them. -/
def State.Replied (s : State) (l : List UInt64) : Prop :=
  s.toClient = l ∨ s.server.pc = .done ∧ s.toClient = []

theorem State.Replied.congr {s s' : State} {l : List UInt64} (h : s.Replied l)
    (hto : s'.toClient = s.toClient) (hpc : s'.server.pc = s.server.pc) : s'.Replied l :=
  h.imp hto.trans (And.imp hpc.trans hto.trans)

/-- Before the server has left. -/
theorem State.Replied.eq {s : State} {l : List UInt64} (h : s.Replied l)
    (hd : s.server.pc ≠ .done) : s.toClient = l :=
  h.resolve_right fun hgone => hd hgone.1

/-- A value is under way. -/
theorem State.Replied.cons {s : State} {l rest : List UInt64} {v : UInt64} (h : s.Replied l)
    (hto : s.toClient = v :: rest) : v :: rest = l := by
  rcases h with h | ⟨-, h⟩
  · exact hto.symm.trans h
  · rw [hto] at h
    cases h

/-- How far a round is: it is the client's turn, it has sent the value, the server has printed that it
received the value, and that it sent the answer. -/
inductive Stage where
  | turn | asked | answering | answered
  deriving DecidableEq, Repr

/-- The rounds the client has begun, beside the complete ones. -/
def Stage.begun : Stage → Nat
  | .turn => 0
  | _ => 1

/-- The rounds the server has answered, beside the complete ones. -/
def Stage.replied : Stage → Nat
  | .answered => 1
  | _ => 0

/-- **What is under way and what has been printed** in the round number `n` of `total`. What is under
way to a process that has left does not matter. -/
structure Flow (seed : UInt64) (total n : Nat) (st : Stage) (s : State) : Prop where
  clientLines : s.client.printed = (List.range n).flatMap (clientRound seed) ++
    if st = .turn then [] else [.sent (seed + .ofNat n)]
  serverLines : s.server.printed = (List.range (n + st.replied)).flatMap (serverRound seed) ++
    if st = .answering then [.received (seed + .ofNat n)] else []
  within : n + st.begun ≤ total
  cntr : s.client.pc.active → s.client.cntr = seed + .ofNat n
  left : s.client.pc.active → n + s.client.left = total
  more : s.client.pc.active → s.client.pc ≠ .loop → s.client.rounds ≠ 0
  asks : s.client.pc.active → (st = .turn ↔ s.client.pc.asked = false)
  answers : st = .answering ↔ s.server.pc.answering = true
  answer : st = .answering → s.server.qp.mem .send = seed + .ofNat n + 1
  toServer : s.server.pc ≠ .done → s.client.pc ≠ .done →
    s.toServer = if st = .asked then [seed + .ofNat n] else []
  toServerLast : s.server.pc ≠ .done → s.client.pc = .done →
    ∃ k, s.toServer = List.replicate k iMDone ∨
      st = .asked ∧ s.toServer = (seed + .ofNat n) :: List.replicate k iMDone
  toClient : s.client.pc.active →
    s.Replied (if st = .answered then [seed + .ofNat n + 1] else [])

/-- **Why a process has left its loop.** -/
structure Reasons (seed : UInt64) (total n : Nat) (st : Stage) (s : State) : Prop where
  clientRuns : s.client.pc.active → s.client.ret = 0
  serverRuns : s.server.pc ≠ .done → s.server.ret = 0
  clientLeft : ¬ s.client.pc.active →
    s.client.ret = 0 ∧ st = .turn ∧ n = total ∨
    s.client.ret = rpmaENoCompletion ∧ s.client.late = true ∨
    s.client.ret = -1 ∧ s.server.pc = .done ∧
      (s.server.ret = rpmaENoCompletion ∧ s.server.late = true ∨
        ∃ i < total, seed + .ofNat i = iMDone)
  serverLeft : s.server.pc = .done →
    s.server.ret = 0 ∧ (s.client.pc = .done ∨ st = .asked ∧ seed + .ofNat n = iMDone) ∨
    s.server.ret = rpmaENoCompletion ∧ s.server.late = true ∨
    s.server.ret = -1 ∧ s.client.pc = .done

theorem Flow.start (seed rounds : UInt64) :
    Flow seed (rounds - 1).toNat 0 .turn (State.start seed rounds) where
  clientLines := rfl
  serverLines := rfl
  within := Nat.zero_le _
  cntr _ := by simp [State.start]
  left _ := by simp [State.start, Client.left]
  more _ h := absurd rfl h
  asks _ := by simp [State.start, ClientPc.asked]
  answers := by simp [State.start, ServerPc.answering]
  answer h := by cases h
  toServer _ _ := rfl
  toServerLast _ h := by cases h
  toClient _ := Or.inl rfl

theorem Reasons.start (seed rounds : UInt64) :
    Reasons seed (rounds - 1).toNat 0 .turn (State.start seed rounds) where
  clientRuns _ := rfl
  serverRuns _ := rfl
  clientLeft h := absurd trivial h
  serverLeft h := by cases h

/-! ### The connection -/

section Steps

variable {seed : UInt64} {total n : Nat} {st : Stage} {s s' : State} {act : Act} {p o : End}

theorem ServerPc.exists_duty {pc : ServerPc} (h : pc ≠ .done) :
    ∃ d, pc.duty = some d ∧ d.recvs + pc.taken ≤ 1 := by
  cases pc with
  | wait g cmpl =>
    refine ⟨_, rfl, ?_⟩
    simp only [Cmpl.duty, taken]
    cases cmpl.recv <;> decide
  | handle | recv | send => exact ⟨_, rfl, by decide⟩
  | done => exact absurd rfl h

theorem ClientPc.exists_duty {pc : ClientPc} (h : pc.active) :
    ∃ d, pc.duty = some d ∧ d.recvs + pc.taken ≤ 1 := by
  cases pc with
  | wait g cmpl =>
    refine ⟨_, rfl, ?_⟩
    simp only [Cmpl.duty, taken]
    cases cmpl.recv <;> decide
  | loop | recv | send | value => exact ⟨_, rfl, by decide⟩
  | final | done => exact h.elim

theorem ClientPc.not_done {pc : ClientPc} (h : pc.active) : pc ≠ .done := by
  rintro rfl
  exact h

/-- The connection changes nothing of what is under way to the server, if it is not flushed. -/
theorem Sound.toServer_link (hs : Sound s) (hl : Link s act p o) (hact : act ≠ .link .client .flush)
    (hd : s.server.pc ≠ .done) : (s.moved p o).toServer = s.toServer := by
  obtain ⟨d, hduty, ht⟩ := ServerPc.exists_duty hd
  have hserver := hs.server d hduty
  have hmoves : ∀ {o : End}, s.server.qp.Moves o →
      inbound s.server.pc.taken o s.client.qp = s.toServer := fun hm =>
    inbound_congr (congrArg (· + _) (hserver.arrived_moves hm)) (congrFun hm.frame.1 _) rfl
  cases hl with
  | ofClient h =>
    cases h with
    | transmit h => exact inbound_congr rfl rfl (Qp.Moves.pending (Or.inl h))
    | deliver hwire hrq => exact hserver.inbound_delivered hs.serverAim ht hwire hrq
    | ack h => exact inbound_congr rfl rfl (Qp.Moves.pending (Or.inr h))
    | flush _ _ => exact absurd rfl hact
    | abort hgone _ => exact absurd (of_decide_eq_true hgone) hd
    | abortRecv _ h => exact inbound_congr rfl rfl (arrived_abortRecv h).2.2
  | ofServer h =>
    cases h with
    | transmit h => exact hmoves (Or.inl h)
    | deliver hwire hrq => exact inbound_congr rfl rfl (hs.clientAim.pending_received hrq _)
    | ack h => exact hmoves (Or.inr h)
    | flush hleft _ => exact absurd (of_decide_eq_true hleft) hd
    | abort _ h =>
      obtain ⟨harrived, hmem⟩ := arrived_abort h
      exact inbound_congr (congrArg (· + _) harrived) (congrFun hmem _) rfl
    | abortRecv _ h =>
      obtain ⟨harrived, hmem, -⟩ := arrived_abortRecv h
      exact inbound_congr (congrArg (· + _) harrived) (congrFun hmem _) rfl

/-- The connection changes nothing of what is under way to the client, if it is not flushed. -/
theorem Sound.toClient_link (hs : Sound s) (hl : Link s act p o) (hact : act ≠ .link .server .flush)
    (ha : s.client.pc.active) : (s.moved p o).toClient = s.toClient := by
  obtain ⟨d, hduty, ht⟩ := ClientPc.exists_duty ha
  have hclient := hs.client d hduty
  have hd := ClientPc.not_done ha
  have hmoves : ∀ {p : End}, s.client.qp.Moves p →
      inbound s.client.pc.taken p s.server.qp = s.toClient := fun hm =>
    inbound_congr (congrArg (· + _) (hclient.arrived_moves hm)) (congrFun hm.frame.1 _) rfl
  cases hl with
  | ofClient h =>
    cases h with
    | transmit h => exact hmoves (Or.inl h)
    | deliver hwire hrq => exact inbound_congr rfl rfl (hs.serverAim.pending_received hrq _)
    | ack h => exact hmoves (Or.inr h)
    | flush hleft _ => exact absurd (of_decide_eq_true hleft) hd
    | abort _ h =>
      obtain ⟨harrived, hmem⟩ := arrived_abort h
      exact inbound_congr (congrArg (· + _) harrived) (congrFun hmem _) rfl
    | abortRecv _ h =>
      obtain ⟨harrived, hmem, -⟩ := arrived_abortRecv h
      exact inbound_congr (congrArg (· + _) harrived) (congrFun hmem _) rfl
  | ofServer h =>
    cases h with
    | transmit h => exact inbound_congr rfl rfl (Qp.Moves.pending (Or.inl h))
    | deliver hwire hrq => exact hclient.inbound_delivered hs.clientAim ht hwire hrq
    | ack h => exact inbound_congr rfl rfl (Qp.Moves.pending (Or.inr h))
    | flush _ _ => exact absurd rfl hact
    | abort hgone _ => exact absurd (of_decide_eq_true hgone) hd
    | abortRecv _ h => exact inbound_congr rfl rfl (arrived_abortRecv h).2.2

/-- A connection writes nothing to `send`. -/
theorem Aimed.mem_touched {l g : Prop} {p' : End} (h : Aimed p) (ht : Touched l g p p') :
    p'.mem .send = p.mem .send := by
  cases ht with
  | same | sent _ => rfl
  | moves hm => exact congrFun hm.frame.1 .send
  | @received wr rq hrq m =>
    refine Qp.received_mem_of_ne ?_ m
    rw [h.rq wr (by simp [hrq])]
    decide
  | flush _ hf =>
    obtain ⟨-, rfl⟩ := Qp.flush_cases hf
    rfl
  | abort _ ha => exact congrFun (arrived_abort ha).2 .send
  | abortRecv _ ha => exact congrFun (arrived_abortRecv ha).2.1 .send

/-- The client's disconnect flushes what is under way to the server. -/
theorem Sound.toServer_prefix (hs : Sound s) (hl : Link s act p o) (hd : s.server.pc ≠ .done) :
    (s.moved p o).toServer <+: s.toServer := by
  by_cases hact : act = .link .client .flush
  · subst hact
    cases hl with
    | ofClient h =>
      cases h with
      | flush _ hf =>
        have hafter : (s.moved p s.server.qp).toServer = _ := inbound_flush hf
        rw [hafter]
        exact List.prefix_append ..
  · rw [hs.toServer_link hl hact hd]

/-- The server's disconnect flushes what is under way to the client. -/
theorem Sound.replied_link (hs : Sound s) {v : UInt64} {asked : Prop} [Decidable asked]
    (h : s.Replied (if asked then [v] else [])) (hl : Link s act p o) (ha : s.client.pc.active) :
    (s.moved p o).Replied (if asked then [v] else []) := by
  by_cases hact : act = .link .server .flush
  · subst hact
    cases hl with
    | ofServer h' =>
      cases h' with
      | flush hleft hf =>
        have hd : s.server.pc = .done := of_decide_eq_true hleft
        have hafter : (s.moved s.client.qp o).toClient = List.replicate
            (arrived s.client.qp + s.client.pc.taken) (s.client.qp.mem .recv) := inbound_flush hf
        have hbefore : s.toClient = List.replicate
            (arrived s.client.qp + s.client.pc.taken) (s.client.qp.mem .recv) ++
              s.server.qp.pending := rfl
        cases hcount : arrived s.client.qp + s.client.pc.taken with
        | zero =>
          rw [hcount] at hafter
          exact Or.inr ⟨hd, hafter⟩
        | succ k =>
          -- the one value has arrived, so it is not flushed
          rw [hcount, List.replicate_succ] at hafter
          rw [hcount, List.replicate_succ, List.cons_append] at hbefore
          have hvalue := h.cons hbefore
          split at hvalue
          · obtain ⟨rfl, hrest⟩ := List.cons.inj hvalue
            rw [(List.append_eq_nil_iff.mp hrest).1] at hafter
            rw [if_pos ‹_›]
            exact Or.inl hafter
          · cases hvalue
  · exact h.congr (hs.toClient_link hl hact ha) rfl

theorem Flow.link (hs : Sound s) (h : Flow seed total n st s) (hl : Link s act p o) :
    Flow seed total n st (s.moved p o) :=
  { h with
    answer := fun hst => (hs.serverAim.mem_touched hl.server).trans (h.answer hst)
    toServer := fun hd hc => by
      have hact : act ≠ .link .client .flush := by
        rintro rfl
        cases hl with
        | ofClient h' =>
          cases h' with
          | flush hleft _ => exact hc (of_decide_eq_true hleft)
      exact (hs.toServer_link hl hact hd).trans (h.toServer hd hc)
    toServerLast := fun hd hc => last_of_prefix (hs.toServer_prefix hl hd) (h.toServerLast hd hc)
    toClient := fun ha => hs.replied_link (h.toClient ha) hl ha }

theorem Reasons.link (h : Reasons seed total n st s) (p o : End) :
    Reasons seed total n st (s.moved p o) := by
  have hlate : ∀ {l b : Bool}, l = true → (l || b) = true := fun h => by simp [h]
  refine ⟨h.clientRuns, h.serverRuns, fun hc => ?_, fun hd => ?_⟩
  · rcases h.clientLeft hc with hend | ⟨hret, hl⟩ | ⟨hret, hd, ⟨hret', hl⟩ | hv⟩
    · exact Or.inl hend
    · exact Or.inr (Or.inl ⟨hret, hlate hl⟩)
    · exact Or.inr (Or.inr ⟨hret, hd, Or.inl ⟨hret', hlate hl⟩⟩)
    · exact Or.inr (Or.inr ⟨hret, hd, Or.inr hv⟩)
  · rcases h.serverLeft hd with hend | ⟨hret, hl⟩ | hend
    · exact Or.inl hend
    · exact Or.inr (Or.inl ⟨hret, hlate hl⟩)
    · exact Or.inr (Or.inr hend)

/-! ### The client -/

/-- Why the server has left while the client has not. -/
theorem Reasons.server_gone (h : Reasons seed total n st s) (hc : s.client.pc ≠ .done)
    (hd : s.server.pc = .done) :
    s.server.ret = 0 ∧ st = .asked ∧ seed + .ofNat n = iMDone ∨
      s.server.ret = rpmaENoCompletion ∧ s.server.late = true := by
  rcases h.serverLeft hd with ⟨hret, hc' | hv⟩ | hlate | ⟨-, hc'⟩
  · exact absurd hc' hc
  · exact Or.inl ⟨hret, hv⟩
  · exact Or.inr hlate
  · exact absurd hc' hc

/-- The client goes on with its loop. -/
theorem Reasons.active (h : Reasons seed total n st s) {c : Client} {n' : Nat} {st' : Stage}
    (hc : s.client.pc ≠ .done) (ha : c.pc.active) (hret : c.ret = 0)
    (hst : st = .asked → st' = .asked ∧ n' = n) :
    Reasons seed total n' st' { s with client := c } := by
  refine ⟨fun _ => hret, h.serverRuns, fun hna => absurd ha hna, fun hd => ?_⟩
  rcases h.server_gone hc hd with ⟨hret, hasked, hv⟩ | hlate
  · obtain ⟨hst', rfl⟩ := hst hasked
    exact Or.inl ⟨hret, Or.inr ⟨hst', hv⟩⟩
  · exact Or.inr (Or.inl hlate)

/-- The client leaves its loop. -/
theorem Reasons.leave (h : Reasons seed total n st s) {c : Client} (hc : s.client.pc ≠ .done)
    (hpc : c.pc = .final)
    (hleft : c.ret = 0 ∧ st = .turn ∧ n = total ∨ GaveUp c.late (s.server.pc = .done) c.ret)
    (hwithin : n + st.begun ≤ total) : Reasons seed total n st { s with client := c } := by
  have hna : ¬ c.pc.active := by
    rw [hpc]
    exact id
  refine ⟨fun ha => absurd ha hna, h.serverRuns, fun _ => ?_, fun hd => ?_⟩
  · rcases hleft with hend | hlate | ⟨hret, hgone⟩
    · exact Or.inl hend
    · exact Or.inr (Or.inl hlate)
    · refine Or.inr (Or.inr ⟨hret, hgone, ?_⟩)
      rcases h.server_gone hc hgone with ⟨-, rfl, hv⟩ | hlate
      · exact Or.inr ⟨n, hwithin, hv⟩
      · exact Or.inl hlate
  · rcases h.server_gone hc hd with ⟨hret, hv⟩ | hlate
    · exact Or.inl ⟨hret, Or.inr hv⟩
    · exact Or.inr (Or.inl hlate)

/-- In some round and some stage of it. -/
def Course (seed : UInt64) (total : Nat) (s : State) : Prop :=
  ∃ n st, Flow seed total n st s ∧ Reasons seed total n st s

theorem Flow.clientMove (hs : Sound s) (h : Flow seed total n st s)
    (hr : Reasons seed total n st s) {c : Client}
    (hm : ClientMove (s.server.pc = .done) s.client c) :
    Course seed total { s with client := c } := by
  obtain ⟨⟨pc, cntr, rounds, ret, printed, qp, late⟩, v⟩ := s
  cases hm with
  | loop hpc hrounds =>
    obtain rfl : pc = _ := hpc
    refine ⟨n, st, { h with
      more := fun _ _ => hrounds
      toServer := fun hd _ => h.toServer hd (by simp)
      toServerLast := fun _ hc => by simp at hc },
      hr.active (by simp) trivial (hr.clientRuns trivial) fun hst => ⟨hst, rfl⟩⟩
  | leave hpc hrounds =>
    obtain rfl : pc = _ := hpc
    obtain rfl : st = .turn := (h.asks trivial).mpr rfl
    have hleft : n + (rounds - 1).toNat = total := h.left trivial
    have htotal : n = total := by simpa [hrounds] using hleft
    refine ⟨n, .turn, { h with
      cntr := False.elim
      left := False.elim
      more := False.elim
      asks := False.elim
      toServer := fun hd _ => h.toServer hd (by simp)
      toServerLast := fun _ hc => by simp at hc
      toClient := False.elim }, hr.leave (by simp) rfl (Or.inl ⟨hr.clientRuns trivial, rfl, htotal⟩)
        h.within⟩
  | recv hpc =>
    obtain rfl : pc = _ := hpc
    refine ⟨n, st, { h with
      more := fun _ _ => h.more trivial (by simp)
      toServer := fun hd _ => h.toServer hd (by simp)
      toServerLast := fun _ hc => by simp at hc },
      hr.active (by simp) trivial (hr.clientRuns trivial) fun hst => ⟨hst, rfl⟩⟩
  | send hpc =>
    obtain rfl : pc = _ := hpc
    obtain rfl : st = .turn := (h.asks trivial).mpr rfl
    have hcntr : cntr = seed + .ofNat n := h.cntr trivial
    have hrounds : rounds ≠ 0 := h.more trivial (by simp)
    have hpos := toNat_pred hrounds
    have hleft : n + rounds.toNat = total := h.left trivial
    have hlines := h.clientLines
    rw [if_pos rfl, List.append_nil] at hlines
    refine ⟨n, .asked, {
      clientLines := ?_
      serverLines := h.serverLines
      within := ?_
      cntr := h.cntr
      left := h.left
      more := fun _ _ => hrounds
      asks := fun _ => by simp [ClientPc.asked]
      answers := by simpa using h.answers
      answer := by simp
      toServer := fun hd _ => ?_
      toServerLast := fun _ hc => by simp at hc
      toClient := fun _ => ?_ }, hr.active (by simp) trivial (hr.clientRuns trivial) (by simp)⟩
    · exact congrArg₂ (· ++ ·) hlines (congrArg (fun v => [Line.sent v]) hcntr)
    · change n + 1 ≤ total
      omega
    · rw [if_pos rfl]
      exact hcntr ▸ inbound_send (h.toServer hd (by simp))
    · have hne : Buf.recv ≠ .send := by decide
      have hmem : (rpmaSend (qp.store .send cntr) true).mem .recv = qp.mem .recv :=
        Qp.store_mem_of_ne qp hne cntr
      exact (h.toClient trivial).congr (inbound_congr rfl hmem rfl) rfl
  | @wait g g' cmpl cmpl' q hpc _ hrecv _ =>
    obtain rfl : pc = _ := hpc
    refine ⟨n, st, { h with
      more := fun _ _ => h.more trivial (by simp)
      toServer := fun hd _ => h.toServer hd (by simp)
      toServerLast := fun _ hc => by simp at hc
      toClient := fun _ => (h.toClient trivial).congr (inbound_congr hrecv rfl rfl) rfl },
      hr.active (by simp) trivial (hr.clientRuns trivial) fun hst => ⟨hst, rfl⟩⟩
  | @got g cmpl q hpc _ hnone hrecv =>
    obtain rfl : pc = _ := hpc
    have hcount : arrived { qp with cq := q } + 1 = arrived qp + cmpl.recv.toNat := by
      rw [hnone, hrecv]
    refine ⟨n, st, { h with
      more := fun _ _ => h.more trivial (by simp)
      toServer := fun hd _ => h.toServer hd (by simp)
      toServerLast := fun _ hc => by simp at hc
      toClient := fun _ => (h.toClient trivial).congr (inbound_congr hcount rfl rfl) rfl },
      hr.active (by simp) trivial rfl fun hst => ⟨hst, rfl⟩⟩
  | giveUp hpc hret =>
    obtain rfl : pc = _ := hpc
    refine ⟨n, st, { h with
      cntr := False.elim
      left := False.elim
      more := False.elim
      asks := False.elim
      toServer := fun hd _ => h.toServer hd (by simp)
      toServerLast := fun _ hc => by simp at hc
      toClient := False.elim }, hr.leave (by simp) rfl (Or.inr hret) h.within⟩
  | value hpc =>
    obtain rfl : pc = _ := hpc
    have hcons : State.toClient ⟨⟨.value, cntr, rounds, ret, printed, qp, late⟩, v⟩ =
        qp.mem .recv :: (List.replicate (arrived qp) (qp.mem .recv) ++ v.qp.pending) := by
      simp [State.toClient, inbound, ClientPc.taken, List.replicate_succ]
    have hin := (h.toClient trivial).cons hcons
    -- the value is the answer, and nothing else is under way
    obtain rfl : st = .answered := by
      by_contra hst
      rw [if_neg hst] at hin
      cases hin
    rw [if_pos rfl] at hin
    obtain ⟨hv, hrest⟩ := List.cons.inj hin
    have hcntr : cntr = seed + .ofNat n := h.cntr trivial
    have hnext : qp.mem .recv = seed + .ofNat (n + 1) := by
      rw [hv, UInt64.ofNat_add, UInt64.add_assoc]
      rfl
    have hrounds : rounds ≠ 0 := h.more trivial (by simp)
    have hpos := toNat_pred hrounds
    have hleft : n + rounds.toNat = total := h.left trivial
    refine ⟨n + 1, .turn, {
      clientLines := ?_
      serverLines := h.serverLines
      within := h.within
      cntr := fun _ => hnext
      left := fun _ => ?_
      more := fun _ hc => absurd rfl hc
      asks := fun _ => by simp [ClientPc.asked]
      answers := by simpa using h.answers
      answer := by simp
      toServer := fun hd _ => h.toServer hd (by simp)
      toServerLast := fun _ hc => by simp at hc
      toClient := fun _ => ?_ }, hr.active (by simp) trivial (hr.clientRuns trivial) (by simp)⟩
    · have hlines : printed = (List.range n).flatMap (clientRound seed) ++
          [.sent (seed + .ofNat n)] := h.clientLines
      change printed ++ [Line.received (qp.mem .recv)] = _
      rw [hlines, hv, List.range_succ, List.flatMap_append]
      simp [clientRound]
    · change n + 1 + (rounds - 1).toNat = total
      omega
    · refine Or.inl ?_
      change inbound 0 qp v.qp = []
      rw [inbound, Nat.add_zero, hrest]
  | final hpc =>
    obtain rfl : pc = _ := hpc
    refine ⟨n, st, { h with
      cntr := False.elim
      left := False.elim
      more := False.elim
      asks := False.elim
      toServer := fun _ hc => absurd rfl hc
      toServerLast := fun hd _ => hs.clientAim.inbound_last (h.toServer hd (by simp))
      toClient := False.elim },
      ⟨False.elim, hr.serverRuns, fun _ => hr.clientLeft id, fun hd => ?_⟩⟩
    rcases hr.server_gone (by simp) hd with ⟨hret, -⟩ | hlate
    · exact Or.inl ⟨hret, Or.inl rfl⟩
    · exact Or.inr (Or.inl hlate)

/-! ### The server -/

/-- Why the client has left while the server has not. -/
theorem Reasons.client_gone (h : Reasons seed total n st s) (hd : s.server.pc ≠ .done)
    (hc : ¬ s.client.pc.active) :
    s.client.ret = 0 ∧ st = .turn ∧ n = total ∨
      s.client.ret = rpmaENoCompletion ∧ s.client.late = true := by
  rcases h.clientLeft hc with hend | hlate | ⟨-, hd', -⟩
  · exact Or.inl hend
  · exact Or.inr hlate
  · exact absurd hd' hd

/-- The server goes on with its loop. -/
theorem Reasons.serve (h : Reasons seed total n st s) {v : Server} {st' : Stage}
    (hd : s.server.pc ≠ .done) (hd' : v.pc ≠ .done) (hret : v.ret = 0)
    (hst : st = .turn → st' = .turn) : Reasons seed total n st' { s with server := v } := by
  refine ⟨h.clientRuns, fun _ => hret, fun hc => ?_, fun hdone => absurd hdone hd'⟩
  rcases h.client_gone hd hc with ⟨hret, hturn, htotal⟩ | hlate
  · exact Or.inl ⟨hret, hst hturn, htotal⟩
  · exact Or.inr (Or.inl hlate)

/-- The server leaves its loop. -/
theorem Reasons.retire (h : Reasons seed total n st s) {v : Server} (hd : s.server.pc ≠ .done)
    (hleft : v.ret = 0 ∧ (s.client.pc = .done ∨ st = .asked ∧ seed + .ofNat n = iMDone) ∨
      GaveUp v.late (s.client.pc = .done) v.ret) (hpc : v.pc = .done) :
    Reasons seed total n st { s with server := v } := by
  refine ⟨h.clientRuns, fun hd' => absurd hpc hd', fun hc => ?_, fun _ => hleft⟩
  rcases h.client_gone hd hc with hend | hlate
  · exact Or.inl hend
  · exact Or.inr (Or.inl hlate)

/-- The server prints nothing, and takes nothing that is under way. -/
theorem Flow.keep (h : Flow seed total n st s) {v : Server} (hd : s.server.pc ≠ .done)
    (hprinted : v.printed = s.server.printed)
    (hanswering : v.pc.answering = s.server.pc.answering) (hmem : v.qp.mem = s.server.qp.mem)
    (hpending : v.qp.pending = s.server.qp.pending)
    (hin : v.pc ≠ .done → inbound v.pc.taken v.qp s.client.qp = s.toServer) :
    Flow seed total n st { s with server := v } :=
  { h with
    serverLines := hprinted.trans h.serverLines
    answers := hanswering ▸ h.answers
    answer := fun hst => (congrFun hmem .send).trans (h.answer hst)
    toServer := fun hd' hc => (hin hd').trans (h.toServer hd hc)
    toServerLast := fun hd' hc => by
      have hsame : State.toServer { s with server := v } = s.toServer := hin hd'
      rw [hsame]
      exact h.toServerLast hd hc
    toClient := fun ha => Or.inl ((inbound_congr rfl rfl hpending).trans ((h.toClient ha).eq hd)) }

/-- The value that the server looks at is the first one under way. -/
theorem Sound.toServer_handle (hs : Sound s) (hpc : s.server.pc = .handle) :
    s.toServer = s.server.qp.mem .recv :: s.client.qp.pending ∧ arrived s.server.qp = 0 := by
  have hrecvs := (hs.server _ (congrArg ServerPc.duty hpc)).recvs
  have hnone : arrived s.server.qp = 0 := Nat.eq_zero_of_le_zero (Nat.le_of_add_left_le hrecvs)
  exact ⟨by simp [State.toServer, inbound, hpc, hnone, ServerPc.taken], hnone⟩

/-- The value that the server looks at is the one that the client has sent, or `I_M_DONE`. -/
theorem Flow.handled (hs : Sound s) (h : Flow seed total n st s) (hpc : s.server.pc = .handle) :
    st = .asked ∧ s.server.qp.mem .recv = seed + .ofNat n ∧
        (s.client.pc ≠ .done → s.client.qp.pending = []) ∧
        (s.client.pc = .done → ∃ k, s.client.qp.pending = List.replicate k iMDone) ∨
      s.client.pc = .done ∧ s.server.qp.mem .recv = iMDone := by
  have hd : s.server.pc ≠ .done := by
    rw [hpc]
    nofun
  have hcons := (hs.toServer_handle hpc).1
  by_cases hc : s.client.pc = .done
  · obtain ⟨k, hlast | ⟨hst, hlast⟩⟩ := h.toServerLast hd hc
    · rw [hcons] at hlast
      exact Or.inr ⟨hc, List.eq_of_mem_replicate (hlast ▸ List.mem_cons_self)⟩
    · rw [hcons] at hlast
      obtain ⟨hv, hrest⟩ := List.cons.inj hlast
      exact Or.inl ⟨hst, hv, fun hc' => absurd hc hc', fun _ => ⟨k, hrest⟩⟩
  · have hin := h.toServer hd hc
    rw [hcons] at hin
    split at hin
    · rename_i hst
      obtain ⟨hv, hrest⟩ := List.cons.inj hin
      exact Or.inl ⟨hst, hv, fun _ => hrest, fun hc' => absurd hc' hc⟩
    · cases hin

theorem Flow.serverMove (hs : Sound s) (h : Flow seed total n st s)
    (hr : Reasons seed total n st s) {v : Server}
    (hm : ServerMove (s.client.pc = .done) s.server v) :
    Course seed total { s with server := v } := by
  have hhandled := h.handled hs
  obtain ⟨c, ⟨pc, ret, printed, qp, late⟩⟩ := s
  cases hm with
  | wait hpc _ hrecv _ =>
    obtain rfl : pc = _ := hpc
    exact ⟨n, st, h.keep nofun rfl rfl rfl rfl fun _ => inbound_congr hrecv rfl rfl,
      hr.serve nofun nofun (hr.serverRuns nofun) id⟩
  | @got g cmpl q hpc _ hnone hrecv =>
    obtain rfl : pc = _ := hpc
    have hcount : arrived { qp with cq := q } + 1 = arrived qp + cmpl.recv.toNat := by
      rw [hnone, hrecv]
    exact ⟨n, st, h.keep nofun rfl rfl rfl rfl fun _ => inbound_congr hcount rfl rfl,
      hr.serve nofun nofun rfl id⟩
  | giveUp hpc hret =>
    obtain rfl : pc = _ := hpc
    exact ⟨n, st, h.keep nofun rfl rfl rfl rfl fun hd => absurd rfl hd,
      hr.retire nofun (Or.inr hret) rfl⟩
  | stop hpc hv =>
    obtain rfl : pc = _ := hpc
    refine ⟨n, st, h.keep nofun rfl rfl rfl rfl fun hd => absurd rfl hd,
      hr.retire nofun (Or.inl ⟨hr.serverRuns nofun, ?_⟩) rfl⟩
    obtain ⟨hst, hvalue, -⟩ | ⟨hc, -⟩ := hhandled rfl
    · exact Or.inr ⟨hst, hvalue.symm.trans hv⟩
    · exact Or.inl hc
  | handle hpc hv =>
    obtain rfl : pc = _ := hpc
    obtain ⟨rfl, hvalue, hrest, hrest'⟩ | ⟨-, hdone⟩ := hhandled rfl
    · have hvalue : qp.mem .recv = seed + .ofNat n := hvalue
      have hnone : arrived qp = 0 := (hs.toServer_handle rfl).2
      have hin : ∀ v : UInt64, inbound 0 (qp.store .send v) c.qp = c.qp.pending := fun v => by
        rw [inbound, show arrived (qp.store .send v) = 0 from hnone]
        rfl
      refine ⟨n, .answering, { h with
        clientLines := h.clientLines
        serverLines := ?_
        within := h.within
        asks := fun ha => by simpa using h.asks ha
        answers := by simp [ServerPc.answering]
        answer := fun _ => ?_
        toServer := fun _ hc => (hin _).trans (hrest hc)
        toServerLast := fun _ hc => ?_
        toClient := fun ha => ?_ }, hr.serve nofun nofun (hr.serverRuns nofun) nofun⟩
      · have hlines : printed = (List.range n).flatMap (serverRound seed) ++ [] := h.serverLines
        rw [List.append_nil] at hlines
        exact congrArg₂ (· ++ ·) hlines (congrArg (fun v => [Line.received v]) hvalue)
      · exact (Qp.store_mem ..).trans (congrArg (· + 1) hvalue)
      · obtain ⟨k, hk⟩ := hrest' hc
        exact ⟨k, Or.inl ((hin _).trans hk)⟩
      · have hnothing : inbound c.pc.taken c.qp qp = [] := (h.toClient ha).eq nofun
        obtain ⟨hcount, hpending⟩ := inbound_eq_nil hnothing
        refine Or.inl ?_
        exact (inbound_congr rfl rfl ((pending_store hpending).trans hpending.symm)).trans hnothing
    · exact absurd hdone hv
  | recv hpc =>
    obtain rfl : pc = _ := hpc
    exact ⟨n, st, h.keep nofun rfl rfl rfl rfl fun _ => rfl,
      hr.serve nofun nofun (hr.serverRuns nofun) id⟩
  | send hpc =>
    obtain rfl : pc = _ := hpc
    obtain rfl : st = .answering := h.answers.mpr rfl
    have hanswer : qp.mem .send = seed + .ofNat n + 1 := h.answer rfl
    refine ⟨n, .answered, { h with
      clientLines := h.clientLines
      serverLines := ?_
      within := h.within
      asks := fun ha => by simpa using h.asks ha
      answers := by simp [ServerPc.answering]
      answer := nofun
      toServer := fun _ hc => h.toServer nofun hc
      toServerLast := fun _ hc => ?_
      toClient := fun ha => ?_ }, hr.serve nofun nofun (hr.serverRuns nofun) nofun⟩
    · have hlines : printed = (List.range n).flatMap (serverRound seed) ++
          [.received (seed + .ofNat n)] := h.serverLines
      change printed ++ [Line.sent (qp.mem .send)] = _
      rw [hlines, hanswer, Stage.replied, List.range_succ, List.flatMap_append]
      simp [serverRound]
    · obtain ⟨k, hlast | ⟨hst, -⟩⟩ := h.toServerLast nofun hc
      · exact ⟨k, Or.inl hlast⟩
      · cases hst
    · have hnothing : inbound c.pc.taken c.qp qp = [] := (h.toClient ha).eq nofun
      refine Or.inl ?_
      rw [if_pos rfl, ← hanswer]
      exact (inbound_post true).trans (by rw [hnothing]; rfl)

end Steps

end Rpma.PingPong.Shared
