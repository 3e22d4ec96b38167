import Mathlib.Data.List.Basic
import Rpma.Lib.Reliable
import Rpma.Librpma.Provider

/-!
# Ping-pong over a receive completion queue

The programs `12-receive-completion-queue/client.c` and `server.c`. The client sends a counter and
the server answers with the next value, as long as `--rounds` is not zero; then the client sends
`I_M_DONE`. Both ends have a CQ for their sends and an RCQ for their receives, and wait for each
completion with `get_wc_and_validate`.

## The system

The two processes take turns in any order with each other and with the connection (`Act`).

* **The programs** (`Client.step`, `Server.step`): `main` from the loop to `err_conn_disconnect`.
  Every call of librpma is a step, and `rpma_cq_wait` two: a completion can arrive between the event
  and `ibv_req_notify_cq`.
* **The connection** (`linkStep`): it reads the next message out of `send` when it transmits it, and
  delivers it into the receive that is posted first. A message that finds no receive waits for one
  (`rnr_retry_count` is 7, which has no limit), and one that is delivered is acknowledged.
* **`rdma_disconnect`**, which each process calls at `err_conn_disconnect`, moves the caller's QP to
  the error state, and nothing else: what it has posted and what is not delivered is flushed
  (`LinkAct.flush`), also the `I_M_DONE` that the client does not wait for. The peer gets no
  completion from that. Only a message that it still has under way fails, as nobody acknowledges it
  (`LinkAct.abort`), and then its own QP is in the error state (`LinkAct.abortRecv`). A process takes
  no completion any more when it has come so far, so those of the flushed requests are left out.

Posting a request succeeds. Out of scope: what comes before the loop and after the disconnect, and
`usleep`.

## Results

* `Client.moves`, `Server.moves`: the steps of the processes while each queue is served as `Expects`
  says. A wait then always finds its completion.
* `State.moves`: those of the system. No message fails while nothing is under way to a process that
  has left.
-/

namespace Rpma.PingPong

open Rpma.Lib Rpma.Librpma Relation

/-! ## The two processes -/

/-- `MSG_SIZE`. -/
def msgSize : Nat := 8

/-- `I_M_DONE`. -/
def iMDone : UInt64 := 0xFFFFFFFFFFFFFFFF

/-- The buffers `recv` and `send` of a process. -/
inductive Buf where
  | recv | send
  deriving DecidableEq, Repr

/-- `IBV_WC_SEND` and `IBV_WC_RECV`. -/
inductive Opcode where
  | send | recv
  deriving DecidableEq, Repr

/-- `struct ibv_wc`; `wrId` is the pointer to a buffer that `op_context` was. -/
structure Wc where
  success : Bool
  opcode : Opcode
  wrId : Option Buf
  byteLen : Nat
  deriving DecidableEq, Repr

/-- The completion of a send. -/
def sendCmpl : Wc := ⟨true, .send, none, msgSize⟩

/-- The completion of a receive. -/
def recvCmpl : Wc := ⟨true, .recv, some .recv, msgSize⟩

abbrev End := Qp Buf UInt64 Wc

/-- `rpma_recv(conn, recv_mr, 0, MSG_SIZE, recv)`. -/
def rpmaRecv (p : End) : End := p.postRecv ⟨.recv, recvCmpl⟩

/-- `rpma_send(conn, send_mr, 0, MSG_SIZE, flags, NULL)`, with `RPMA_F_COMPLETION_ALWAYS` or with
`RPMA_F_COMPLETION_ON_ERROR`. -/
def rpmaSend (p : End) (always : Bool) : End :=
  p.postSend ⟨.send, if always then some sendCmpl else none⟩

/-- A line that is printed. -/
inductive Line where
  | sent (v : UInt64)
  | received (v : UInt64)
  deriving DecidableEq, Repr

/-- `get_wc_and_validate`, a call at a time: it goes on, or it returns. -/
def getWcAndValidate (opcode : Opcode) (c : Consumer) (q : CompQueue Wc) :
    Option (CompQueue Wc × (Consumer ⊕ Int)) :=
  match c with
  | .getEvent => q.getEvent.map fun q => (q, .inl .notify)
  | .notify => some (q.notify, .inl .poll)
  | .poll =>
    match q.poll 1 with
    | ([], q) => some (q, .inr rpmaENoCompletion)
    | (wc :: _, q) =>
      if wc.success = false then some (q, .inr (-1))
      else if wc.opcode ≠ opcode then some (q, .inr (-1))
      else some (q, .inr 0)

/-- Where the client is: at `while (--rounds)`, at the calls in the loop, at `counter = *recv`,
behind the loop, or at `err_conn_disconnect`. -/
inductive ClientPc where
  | loop | recv | send
  | sendWc (c : Consumer)
  | recvWc (c : Consumer)
  | value | final | done
  deriving DecidableEq, Repr

structure Client where
  pc : ClientPc
  counter : UInt64
  rounds : UInt64
  ret : Int
  printed : List Line
  qp : End

/-- `main` of client.c from the loop on. -/
def Client.step (c : Client) : Option Client :=
  match c.pc with
  | .loop =>
    let rounds := c.rounds - 1
    some { c with rounds := rounds, pc := if rounds ≠ 0 then .recv else .final }
  | .recv => some { c with qp := rpmaRecv c.qp, pc := .send }
  | .send =>
    some { c with
      printed := c.printed ++ [.sent c.counter]
      qp := rpmaSend (c.qp.store .send c.counter) true
      pc := .sendWc .getEvent }
  | .sendWc g =>
    (getWcAndValidate .send g c.qp.cq).map fun (q, r) =>
      let c := { c with qp := { c.qp with cq := q } }
      match r with
      | .inl g => { c with pc := .sendWc g }
      | .inr ret => { c with ret := ret, pc := if ret ≠ 0 then .final else .recvWc .getEvent }
  | .recvWc g =>
    (getWcAndValidate .recv g c.qp.rcq).map fun (q, r) =>
      let c := { c with qp := { c.qp with rcq := q } }
      match r with
      | .inl g => { c with pc := .recvWc g }
      | .inr ret => { c with ret := ret, pc := if ret ≠ 0 then .final else .value }
  | .value =>
    some { c with
      counter := c.qp.mem .recv
      printed := c.printed ++ [.received (c.qp.mem .recv)]
      pc := .loop }
  | .final => some { c with qp := rpmaSend (c.qp.store .send iMDone) false, pc := .done }
  | .done => none

/-- Where the server is: at the calls in the loop, at the received value, or at
`err_conn_disconnect`. -/
inductive ServerPc where
  | recvWc (c : Consumer)
  | handle | recv | send
  | sendWc (c : Consumer)
  | done
  deriving DecidableEq, Repr

structure Server where
  pc : ServerPc
  ret : Int
  printed : List Line
  qp : End

/-- `main` of server.c from the loop on. -/
def Server.step (s : Server) : Option Server :=
  match s.pc with
  | .recvWc g =>
    (getWcAndValidate .recv g s.qp.rcq).map fun (q, r) =>
      let s := { s with qp := { s.qp with rcq := q } }
      match r with
      | .inl g => { s with pc := .recvWc g }
      | .inr ret => { s with ret := ret, pc := if ret ≠ 0 then .done else .handle }
  | .handle =>
    if s.qp.mem .recv = iMDone then some { s with pc := .done }
    else
      some { s with
        printed := s.printed ++ [.received (s.qp.mem .recv)]
        qp := s.qp.store .send (s.qp.mem .recv + 1)
        pc := .recv }
  | .recv => some { s with qp := rpmaRecv s.qp, pc := .send }
  | .send =>
    some { s with
      printed := s.printed ++ [.sent (s.qp.mem .send)]
      qp := rpmaSend s.qp true
      pc := .sendWc .getEvent }
  | .sendWc g =>
    (getWcAndValidate .send g s.qp.cq).map fun (q, r) =>
      let s := { s with qp := { s.qp with cq := q } }
      match r with
      | .inl g => { s with pc := .sendWc g }
      | .inr ret => { s with ret := ret, pc := if ret ≠ 0 then .done else .recvWc .getEvent }
  | .done => none

/-! ## The system -/

structure State where
  client : Client
  server : Server

/-- The connection has been made: the buffers are zeroed, and the server has posted its first
receive with the connection request. -/
def State.start (seed rounds : UInt64) : State where
  client := ⟨.loop, seed, rounds, 0, [], .fresh fun _ => 0⟩
  server := ⟨.recvWc .getEvent, 0, [], rpmaRecv (.fresh fun _ => 0)⟩

/-- The two ends. -/
inductive Side where
  | client | server
  deriving DecidableEq, Repr

/-- What the connection can do with one end. -/
inductive LinkAct where
  | transmit | deliver | ack | flush | abort | abortRecv
  deriving DecidableEq, Repr

/-- A completion with an error. -/
def failed (opcode : Opcode) (wrId : Option Buf) : Wc := ⟨false, opcode, wrId, 0⟩

/-- The connection does something with the end `p`, and with the other end `o` where it delivers a
message. The process at `p` has come to its disconnect if `left`, and the one at `o` if `gone`. -/
def linkStep (own left gone : Bool) (p o : End) : LinkAct → Option (End × End)
  | .transmit => p.transmit.map fun p => (p, o)
  | .deliver => p.deliver own o
  | .ack => p.ack.map fun p => (p, o)
  | .flush => if left then p.flush.map fun p => (p, o) else none
  | .abort => if gone then (p.abortSend (failed .send none)).map fun p => (p, o) else none
  | .abortRecv =>
    -- a send has failed, and its completion has not been taken
    if failed .send none ∈ p.cq.cqes then
      (p.abortRecv own (failed .recv (some .recv))).map fun p => (p, o)
    else none

/-- Who takes the next step: a process, or the connection with the end of one side. -/
inductive Act where
  | client | server
  | link (side : Side) (act : LinkAct)
  deriving DecidableEq, Repr

def State.withQps (s : State) (c v : End) : State :=
  ⟨{ s.client with qp := c }, { s.server with qp := v }⟩

@[simp] theorem State.withQps_client_pc (s : State) (c v : End) :
    (s.withQps c v).client.pc = s.client.pc := rfl

@[simp] theorem State.withQps_server_pc (s : State) (c v : End) :
    (s.withQps c v).server.pc = s.server.pc := rfl

@[simp] theorem State.withQps_client_qp (s : State) (c v : End) :
    (s.withQps c v).client.qp = c := rfl

@[simp] theorem State.withQps_server_qp (s : State) (c v : End) :
    (s.withQps c v).server.qp = v := rfl

def State.step (s : State) : Act → Option State
  | .client => s.client.step.map fun c => { s with client := c }
  | .server => s.server.step.map fun v => { s with server := v }
  | .link .client act =>
    (linkStep true (s.client.pc = .done) (s.server.pc = .done) s.client.qp s.server.qp act).map
      fun (p, o) => s.withQps p o
  | .link .server act =>
    (linkStep true (s.server.pc = .done) (s.client.pc = .done) s.server.qp s.client.qp act).map
      fun (p, o) => s.withQps o p

/-- Someone takes a step. -/
def Steps (s s' : State) : Prop := ∃ act, s.step act = some s'

/-- After any number of steps. -/
def Reachable (seed rounds : UInt64) : State → Prop :=
  ReflTransGen Steps (State.start seed rounds)

/-- The steps of `acts`, one after the other. -/
def State.run (s : State) (acts : List Act) : Option State := acts.foldlM State.step s

theorem State.run_append (s : State) (acts acts' : List Act) :
    s.run (acts ++ acts') = (s.run acts).bind fun t => t.run acts' := List.foldlM_append ..

theorem State.reachable_of_run {s s' : State} {acts : List Act} (h : s.run acts = some s') :
    ReflTransGen Steps s s' := by
  induction acts generalizing s with
  | nil => exact Option.some.inj h ▸ .refl
  | cons act acts ih =>
    obtain ⟨t, ht, h⟩ := Option.bind_eq_some_iff.mp h
    exact .head ⟨act, ht⟩ (ih h)

/-! ## What the processes do

Under the invariant a wait always finds its completion, so these are all their steps. -/

/-- The queue of `wc` is polled, or waited for. -/
theorem getWc_cases {wc : Wc} {ws : List Wc} {g : Consumer} {q q' : CompQueue Wc}
    {r : Consumer ⊕ Int} (hwc : wc.success = true) (h : Expects wc (some g) ws q)
    (hr : getWcAndValidate wc.opcode g q = some (q', r)) :
    (∃ g', r = .inl g' ∧ Expects wc (some g') ws q' ∧ q'.cqes = q.cqes ∧ g'.left + 1 = g.left) ∨
      g = .poll ∧ r = .inr 0 ∧ ws = [] ∧ q.cqes = [wc] ∧ q' = .idle := by
  cases g with
  | getEvent =>
    simp only [getWcAndValidate, Option.map_eq_some_iff, Prod.mk.injEq] at hr
    obtain ⟨q₁, hq₁, rfl, rfl⟩ := hr
    obtain ⟨hnext, hcqes⟩ := h.getEvent hq₁
    exact Or.inl ⟨_, rfl, hnext, hcqes, rfl⟩
  | notify =>
    obtain ⟨rfl, rfl⟩ := Prod.mk.inj (Option.some.inj hr)
    exact Or.inl ⟨_, rfl, h.notify, rfl, rfl⟩
  | poll =>
    obtain ⟨hcqes, hpoll, hws⟩ := h.poll
    simp only [getWcAndValidate, hpoll, hwc, Bool.true_eq_false, ne_eq, not_true, if_false,
      Option.some.injEq, Prod.mk.injEq] at hr
    obtain ⟨rfl, rfl⟩ := hr
    exact Or.inr ⟨rfl, rfl, hws, hcqes, rfl⟩

/-- What the client waits for. -/
def ClientPc.sends : ClientPc → Option Consumer
  | .sendWc g => some g
  | _ => none

def ClientPc.receives : ClientPc → Option Consumer
  | .send | .sendWc _ => some .getEvent
  | .recvWc g => some g
  | _ => none

/-- What the server waits for. -/
def ServerPc.sends : ServerPc → Option Consumer
  | .sendWc g => some g
  | _ => none

def ServerPc.receives : ServerPc → Option Consumer
  | .send | .sendWc _ => some .getEvent
  | .recvWc g => some g
  | _ => none

/-- The queues of an end are served. -/
abbrev Served (sends receives : Option Consumer) (p : End) : Prop :=
  p.Serves .recv sendCmpl recvCmpl sends receives

/-- The steps of the client. -/
inductive ClientMove (c : Client) : Client → Prop
  | loop (hpc : c.pc = .loop) (hrounds : c.rounds - 1 ≠ 0) :
      ClientMove c { c with rounds := c.rounds - 1, pc := .recv }
  | leave (hpc : c.pc = .loop) (hrounds : c.rounds - 1 = 0) :
      ClientMove c { c with rounds := c.rounds - 1, pc := .final }
  | recv (hpc : c.pc = .recv) : ClientMove c { c with qp := rpmaRecv c.qp, pc := .send }
  | send (hpc : c.pc = .send) :
      ClientMove c { c with
        printed := c.printed ++ [.sent c.counter]
        qp := rpmaSend (c.qp.store .send c.counter) true
        pc := .sendWc .getEvent }
  | sendWait {g g' : Consumer} {q : CompQueue Wc} (hpc : c.pc = .sendWc g)
      (hq : Expects sendCmpl (some g') c.qp.sending q) (hg : g'.left + 1 = g.left) :
      ClientMove c { c with qp := { c.qp with cq := q }, pc := .sendWc g' }
  | sendGot (hpc : c.pc = .sendWc .poll) (hsending : c.qp.sending = []) :
      ClientMove c { c with qp := { c.qp with cq := .idle }, ret := 0, pc := .recvWc .getEvent }
  | recvWait {g g' : Consumer} {q : CompQueue Wc} (hpc : c.pc = .recvWc g)
      (hq : Expects recvCmpl (some g') c.qp.receiving q) (hcqes : q.cqes = c.qp.rcq.cqes)
      (hg : g'.left + 1 = g.left) :
      ClientMove c { c with qp := { c.qp with rcq := q }, pc := .recvWc g' }
  | recvGot (hpc : c.pc = .recvWc .poll) (hreceiving : c.qp.receiving = [])
      (hcqes : c.qp.rcq.cqes = [recvCmpl]) :
      ClientMove c { c with qp := { c.qp with rcq := .idle }, ret := 0, pc := .value }
  | value (hpc : c.pc = .value) :
      ClientMove c { c with
        counter := c.qp.mem .recv
        printed := c.printed ++ [.received (c.qp.mem .recv)]
        pc := .loop }
  | final (hpc : c.pc = .final) :
      ClientMove c { c with qp := rpmaSend (c.qp.store .send iMDone) false, pc := .done }

theorem Client.moves {c c' : Client} (h : Served c.pc.sends c.pc.receives c.qp)
    (hs : c.step = some c') : ClientMove c c' := by
  unfold step at hs
  split at hs
  · rename_i hpc
    obtain rfl := Option.some.inj hs
    by_cases hrounds : c.rounds - 1 = 0
    · simpa [hrounds] using ClientMove.leave hpc hrounds
    · simpa [hrounds] using ClientMove.loop hpc hrounds
  · rename_i hpc
    exact Option.some.inj hs ▸ .recv hpc
  · rename_i hpc
    exact Option.some.inj hs ▸ .send hpc
  · rename_i g hpc
    obtain ⟨⟨q, r⟩, hr, rfl⟩ := Option.map_eq_some_iff.mp hs
    have hsends := h.sends
    rw [hpc] at hsends
    obtain ⟨g', rfl, hq, -, hg⟩ | ⟨rfl, rfl, hsending, -, rfl⟩ := getWc_cases rfl hsends hr
    · exact .sendWait hpc hq hg
    · exact .sendGot hpc hsending
  · rename_i g hpc
    obtain ⟨⟨q, r⟩, hr, rfl⟩ := Option.map_eq_some_iff.mp hs
    have hreceives := h.receives
    rw [hpc] at hreceives
    obtain ⟨g', rfl, hq, hcqes, hg⟩ | ⟨rfl, rfl, hreceiving, hcqes, rfl⟩ :=
      getWc_cases rfl hreceives hr
    · exact .recvWait hpc hq hcqes hg
    · exact .recvGot hpc hreceiving hcqes
  · rename_i hpc
    exact Option.some.inj hs ▸ .value hpc
  · rename_i hpc
    exact Option.some.inj hs ▸ .final hpc
  · cases hs

/-- The steps of the server. -/
inductive ServerMove (s : Server) : Server → Prop
  | recvWait {g g' : Consumer} {q : CompQueue Wc} (hpc : s.pc = .recvWc g)
      (hq : Expects recvCmpl (some g') s.qp.receiving q) (hcqes : q.cqes = s.qp.rcq.cqes)
      (hg : g'.left + 1 = g.left) :
      ServerMove s { s with qp := { s.qp with rcq := q }, pc := .recvWc g' }
  | recvGot (hpc : s.pc = .recvWc .poll) (hreceiving : s.qp.receiving = [])
      (hcqes : s.qp.rcq.cqes = [recvCmpl]) :
      ServerMove s { s with qp := { s.qp with rcq := .idle }, ret := 0, pc := .handle }
  | stop (hpc : s.pc = .handle) (hv : s.qp.mem .recv = iMDone) :
      ServerMove s { s with pc := .done }
  | handle (hpc : s.pc = .handle) (hv : s.qp.mem .recv ≠ iMDone) :
      ServerMove s { s with
        printed := s.printed ++ [.received (s.qp.mem .recv)]
        qp := s.qp.store .send (s.qp.mem .recv + 1)
        pc := .recv }
  | recv (hpc : s.pc = .recv) : ServerMove s { s with qp := rpmaRecv s.qp, pc := .send }
  | send (hpc : s.pc = .send) :
      ServerMove s { s with
        printed := s.printed ++ [.sent (s.qp.mem .send)]
        qp := rpmaSend s.qp true
        pc := .sendWc .getEvent }
  | sendWait {g g' : Consumer} {q : CompQueue Wc} (hpc : s.pc = .sendWc g)
      (hq : Expects sendCmpl (some g') s.qp.sending q) (hg : g'.left + 1 = g.left) :
      ServerMove s { s with qp := { s.qp with cq := q }, pc := .sendWc g' }
  | sendGot (hpc : s.pc = .sendWc .poll) (hsending : s.qp.sending = []) :
      ServerMove s { s with qp := { s.qp with cq := .idle }, ret := 0, pc := .recvWc .getEvent }

theorem Server.moves {s s' : Server} (h : Served s.pc.sends s.pc.receives s.qp)
    (hs : s.step = some s') : ServerMove s s' := by
  unfold step at hs
  split at hs
  · rename_i g hpc
    obtain ⟨⟨q, r⟩, hr, rfl⟩ := Option.map_eq_some_iff.mp hs
    have hreceives := h.receives
    rw [hpc] at hreceives
    obtain ⟨g', rfl, hq, hcqes, hg⟩ | ⟨rfl, rfl, hreceiving, hcqes, rfl⟩ :=
      getWc_cases rfl hreceives hr
    · exact .recvWait hpc hq hcqes hg
    · exact .recvGot hpc hreceiving hcqes
  · rename_i hpc
    split at hs
    · rename_i hv
      exact Option.some.inj hs ▸ .stop hpc hv
    · rename_i hv
      exact Option.some.inj hs ▸ .handle hpc hv
  · rename_i hpc
    exact Option.some.inj hs ▸ .recv hpc
  · rename_i hpc
    exact Option.some.inj hs ▸ .send hpc
  · rename_i g hpc
    obtain ⟨⟨q, r⟩, hr, rfl⟩ := Option.map_eq_some_iff.mp hs
    have hsends := h.sends
    rw [hpc] at hsends
    obtain ⟨g', rfl, hq, -, hg⟩ | ⟨rfl, rfl, hsending, -, rfl⟩ := getWc_cases rfl hsends hr
    · exact .sendWait hpc hq hg
    · exact .sendGot hpc hsending
  · cases hs

/-! ## What the connection does -/

/-- What the connection makes of the two ends. -/
inductive Linked (own left gone : Bool) (p o : End) : LinkAct → End → End → Prop
  | transmit {p' : End} (h : p.transmit = some p') : Linked own left gone p o .transmit p' o
  | deliver {m : UInt64 × Option Wc} {wire : List (UInt64 × Option Wc)} {wr : RecvWr Buf Wc}
      {rq : List (RecvWr Buf Wc)} (hwire : p.wire = m :: wire) (hrq : o.rq = wr :: rq) :
      Linked own left gone p o .deliver p.sent (o.received own wr m.1)
  | ack {p' : End} (h : p.ack = some p') : Linked own left gone p o .ack p' o
  | flush {p' : End} (hleft : left = true) (h : p.flush = some p') :
      Linked own left gone p o .flush p' o
  | abort {p' : End} (hgone : gone = true) (h : p.abortSend (failed .send none) = some p') :
      Linked own left gone p o .abort p' o
  | abortRecv {p' : End} (hfailed : failed .send none ∈ p.cq.cqes)
      (h : p.abortRecv own (failed .recv (some .recv)) = some p') :
      Linked own left gone p o .abortRecv p' o

theorem linkStep_cases {own left gone : Bool} {p o p' o' : End} {act : LinkAct}
    (h : linkStep own left gone p o act = some (p', o')) : Linked own left gone p o act p' o' := by
  cases act with
  | transmit =>
    obtain ⟨q, hq, heq⟩ := Option.map_eq_some_iff.mp h
    obtain ⟨rfl, rfl⟩ := Prod.mk.inj heq
    exact .transmit hq
  | deliver =>
    obtain ⟨m, wire, wr, rq, hwire, hrq, rfl, rfl⟩ := Qp.deliver_cases h
    exact .deliver hwire hrq
  | ack =>
    obtain ⟨q, hq, heq⟩ := Option.map_eq_some_iff.mp h
    obtain ⟨rfl, rfl⟩ := Prod.mk.inj heq
    exact .ack hq
  | flush =>
    obtain ⟨hleft, h⟩ := Option.ite_none_right_eq_some.mp h
    obtain ⟨q, hq, heq⟩ := Option.map_eq_some_iff.mp h
    obtain ⟨rfl, rfl⟩ := Prod.mk.inj heq
    exact .flush hleft hq
  | abort =>
    obtain ⟨hgone, h⟩ := Option.ite_none_right_eq_some.mp h
    obtain ⟨q, hq, heq⟩ := Option.map_eq_some_iff.mp h
    obtain ⟨rfl, rfl⟩ := Prod.mk.inj heq
    exact .abort hgone hq
  | abortRecv =>
    obtain ⟨hfailed, h⟩ := Option.ite_none_right_eq_some.mp h
    obtain ⟨q, hq, heq⟩ := Option.map_eq_some_iff.mp h
    obtain ⟨rfl, rfl⟩ := Prod.mk.inj heq
    exact .abortRecv hfailed hq

/-! ## What the system does -/

/-- The steps of the system. -/
inductive Move (s : State) : State → Prop
  | client {c : Client} (h : ClientMove s.client c) : Move s { s with client := c }
  | server {v : Server} (h : ServerMove s.server v) : Move s { s with server := v }
  | atClient {p : End} (h : s.client.qp.Moves p) : Move s (s.withQps p s.server.qp)
  | atServer {p : End} (h : s.server.qp.Moves p) : Move s (s.withQps s.client.qp p)
  | toServer {m : UInt64 × Option Wc} {wire : List (UInt64 × Option Wc)} {wr : RecvWr Buf Wc}
      {rq : List (RecvWr Buf Wc)} (hwire : s.client.qp.wire = m :: wire)
      (hrq : s.server.qp.rq = wr :: rq) :
      Move s (s.withQps s.client.qp.sent (s.server.qp.received true wr m.1))
  | toClient {m : UInt64 × Option Wc} {wire : List (UInt64 × Option Wc)} {wr : RecvWr Buf Wc}
      {rq : List (RecvWr Buf Wc)} (hwire : s.server.qp.wire = m :: wire)
      (hrq : s.client.qp.rq = wr :: rq) :
      Move s (s.withQps (s.client.qp.received true wr m.1) s.server.qp.sent)

/-- An end whose process has left. -/
theorem Served.flush_eq_none {p : End} (h : Served none none p) (hout : p.outgoing = 0) :
    p.flush = none := by
  cases hflush : p.flush with
  | none => rfl
  | some p' =>
    obtain ⟨hsome, -⟩ := Qp.flush_cases hflush
    have hrq : p.rq = [] := List.map_eq_nil_iff.mp h.receives.1
    rcases hsome with hsq | hwire | hrq'
    · exact absurd (List.length_eq_zero_iff.mp (Nat.eq_zero_of_add_eq_zero_right hout)) hsq
    · exact absurd (List.length_eq_zero_iff.mp (Nat.eq_zero_of_add_eq_zero_left hout)) hwire
    · exact absurd hrq hrq'

theorem Served.not_failed {sends receives : Option Consumer} {p : End}
    (h : Served sends receives p) : failed .send none ∉ p.cq.cqes := fun hfailed =>
  absurd (h.sends.mem hfailed) (by decide)

/-- **While nothing is under way to a process that has left, nothing fails**, and only the client's
last message can be flushed. -/
theorem State.moves {s s' : State} {act : Act}
    (hclient : Served s.client.pc.sends s.client.pc.receives s.client.qp)
    (hserver : Served s.server.pc.sends s.server.pc.receives s.server.qp)
    (hgone : s.client.pc = .done → s.server.qp.outgoing = 0)
    (hgone' : s.server.pc = .done → s.client.qp.outgoing = 0 ∧ s.server.qp.outgoing = 0)
    (hs : s.step act = some s') :
    act ≠ .link .client .flush ∧ Move s s' ∨
      act = .link .client .flush ∧ s.client.pc = .done ∧
        ∃ p, s.client.qp.flush = some p ∧ s' = s.withQps p s.server.qp := by
  have hnone : ∀ {p p' : End}, p.abortSend (failed .send none) = some p' → p.outgoing ≠ 0 :=
    fun h => by
      obtain ⟨-, sq, wire, -, -, -, hlen⟩ := Qp.abortSend_cases h
      omega
  cases act with
  | client =>
    obtain ⟨c, hc, rfl⟩ := Option.map_eq_some_iff.mp hs
    exact Or.inl ⟨by simp, .client (Client.moves hclient hc)⟩
  | server =>
    obtain ⟨v, hv, rfl⟩ := Option.map_eq_some_iff.mp hs
    exact Or.inl ⟨by simp, .server (Server.moves hserver hv)⟩
  | link side act =>
    cases side with
    | client =>
      obtain ⟨⟨p, o⟩, hl, rfl⟩ := Option.map_eq_some_iff.mp hs
      cases linkStep_cases hl with
      | transmit h => exact Or.inl ⟨by simp, .atClient (Or.inl h)⟩
      | deliver hwire hrq => exact Or.inl ⟨by simp, .toServer hwire hrq⟩
      | ack h => exact Or.inl ⟨by simp, .atClient (Or.inr h)⟩
      | flush hleft h => exact Or.inr ⟨rfl, of_decide_eq_true hleft, p, h, rfl⟩
      | abort hdone h => exact absurd (hgone' (of_decide_eq_true hdone)).1 (hnone h)
      | abortRecv hfailed _ => exact absurd hfailed hclient.not_failed
    | server =>
      obtain ⟨⟨p, o⟩, hl, rfl⟩ := Option.map_eq_some_iff.mp hs
      cases linkStep_cases hl with
      | transmit h => exact Or.inl ⟨by simp, .atServer (Or.inl h)⟩
      | deliver hwire hrq => exact Or.inl ⟨by simp, .toClient hwire hrq⟩
      | ack h => exact Or.inl ⟨by simp, .atServer (Or.inr h)⟩
      | flush hleft h =>
        have hdone := of_decide_eq_true hleft
        rw [hdone] at hserver
        have hflush := hserver.flush_eq_none (hgone' hdone).2
        exact absurd (hflush.symm.trans h) (by simp)
      | abort hdone h => exact absurd (hgone (of_decide_eq_true hdone)) (hnone h)
      | abortRecv hfailed _ => exact absurd hfailed hserver.not_failed

end Rpma.PingPong
