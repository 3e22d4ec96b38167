import Rpma.Lib.SharedQueue
import Rpma.PingPong.Rounds

/-!
# Ping-pong over one completion queue

The programs `08-messages-ping-pong/client.c` and `server.c`. They exchange a counter as those of
the receive completion queue do, but each has one CQ, and `wait_and_process_completions` waits for a
send and a receive at once. `rpma_cq_wait` and `rpma_cq_get_wc` say that there may be an event
without a completion, and the two programs leave their loops when there is.

## The system

* **The programs** (`Client.step`, `Server.step`): `main` from the loop to `err_conn_disconnect`,
  a call of librpma at a time, `rpma_cq_wait` in two steps.
* **The connection** is the one of `Rounds.lean` (`linkStep`), with every completion in the CQ. So a
  process that disconnects flushes what it has posted itself. A process that is left over is told
  nothing: only a message of its own can fail, and then its receive is aborted too.
* `Client.late` and `Server.late` are not variables of the programs. They say whether a completion
  has ever come between `ibv_req_notify_cq` and `ibv_poll_cq`.

Posting succeeds, and every message between two processes that have not disconnected is delivered.
Out of scope: what comes before the loop and after the disconnect, and `usleep`.

The results are in `Endings.lean`: what is printed, why a process leaves early, and where the system
comes to rest.
-/

namespace Rpma.PingPong.Shared

open Rpma.Lib Rpma.Librpma Relation

/-! ## Waiting for both completions -/

/-- `MAX_N_WC`. -/
def maxNWc : Nat := 2

/-- `send_cmpl` and `recv_cmpl`. -/
structure Cmpl where
  send : Bool
  recv : Bool
  deriving DecidableEq, Repr

/-- `validate_wc`: the result, and the variables after it. -/
def validateWc (wc : Wc) (cmpl : Cmpl) : Int × Cmpl :=
  if wc.success = false then (-1, cmpl)
  else
    match wc.opcode with
    | .send => (0, { cmpl with send := true })
    | .recv =>
      if wc.wrId ≠ some .recv ∨ wc.byteLen ≠ msgSize then (-1, cmpl)
      else (0, { cmpl with recv := true })

/-- The completions that were got, one after the other. -/
def validate : List Wc → Cmpl → Int × Cmpl
  | [], cmpl => (0, cmpl)
  | wc :: wcs, cmpl =>
    let (ret, cmpl) := validateWc wc cmpl
    if ret ≠ 0 then (ret, cmpl) else validate wcs cmpl

/-- `wait_and_process_completions`, a call at a time: it goes on, or it returns. -/
def waitAndProcessCompletions (c : Consumer) (cmpl : Cmpl) (q : CompQueue Wc) :
    Option (CompQueue Wc × (Consumer × Cmpl ⊕ Int)) :=
  match c with
  | .getEvent => q.getEvent.map fun q => (q, .inl (.notify, cmpl))
  | .notify => some (q.notify, .inl (.poll, cmpl))
  | .poll =>
    match q.poll maxNWc with
    | ([], q) => some (q, .inr rpmaENoCompletion)
    | (wcs, q) =>
      let (ret, cmpl) := validate wcs cmpl
      if ret ≠ 0 then some (q, .inr ret)
      else if cmpl.send = false ∨ cmpl.recv = false then some (q, .inl (.getEvent, cmpl))
      else some (q, .inr 0)

/-! ## The two processes -/

/-- Where the client is: at `while (--rounds)`, at the calls in the loop, at `cntr = *recv`, behind
the loop, or at `err_conn_disconnect`. -/
inductive ClientPc where
  | loop | recv | send
  | wait (c : Consumer) (cmpl : Cmpl)
  | value | final | done
  deriving DecidableEq, Repr

structure Client where
  pc : ClientPc
  cntr : UInt64
  rounds : UInt64
  ret : Int
  printed : List Line
  qp : End
  late : Bool

/-- `main` of client.c from the loop on. -/
def Client.step (c : Client) : Option Client :=
  match c.pc with
  | .loop =>
    let rounds := c.rounds - 1
    some { c with rounds := rounds, pc := if rounds ≠ 0 then .recv else .final }
  | .recv => some { c with qp := rpmaRecv c.qp, pc := .send }
  | .send =>
    some { c with
      printed := c.printed ++ [.sent c.cntr]
      qp := rpmaSend (c.qp.store .send c.cntr) true
      pc := .wait .getEvent ⟨false, false⟩ }
  | .wait g cmpl =>
    (waitAndProcessCompletions g cmpl c.qp.cq).map fun (q, r) =>
      let c := { c with qp := { c.qp with cq := q } }
      match r with
      | .inl (g, cmpl) => { c with pc := .wait g cmpl }
      | .inr ret => { c with ret := ret, pc := if ret ≠ 0 then .final else .value }
  | .value =>
    some { c with
      cntr := c.qp.mem .recv
      printed := c.printed ++ [.received (c.qp.mem .recv)]
      pc := .loop }
  | .final => some { c with qp := rpmaSend (c.qp.store .send iMDone) false, pc := .done }
  | .done => none

/-- Where the server is: in `wait_and_process_completions`, at the received value, at the calls in the
loop, or at `err_conn_disconnect`. -/
inductive ServerPc where
  | wait (c : Consumer) (cmpl : Cmpl)
  | handle | recv | send | done
  deriving DecidableEq, Repr

structure Server where
  pc : ServerPc
  ret : Int
  printed : List Line
  qp : End
  late : Bool

/-- `main` of server.c from the loop on. -/
def Server.step (v : Server) : Option Server :=
  match v.pc with
  | .wait g cmpl =>
    (waitAndProcessCompletions g cmpl v.qp.cq).map fun (q, r) =>
      let v := { v with qp := { v.qp with cq := q } }
      match r with
      | .inl (g, cmpl) => { v with pc := .wait g cmpl }
      | .inr ret => { v with ret := ret, pc := if ret ≠ 0 then .done else .handle }
  | .handle =>
    if v.qp.mem .recv = iMDone then some { v with pc := .done }
    else
      some { v with
        printed := v.printed ++ [.received (v.qp.mem .recv)]
        qp := v.qp.store .send (v.qp.mem .recv + 1)
        pc := .recv }
  | .recv => some { v with qp := rpmaRecv v.qp, pc := .send }
  | .send =>
    some { v with
      printed := v.printed ++ [.sent (v.qp.mem .send)]
      qp := rpmaSend v.qp true
      pc := .wait .getEvent ⟨false, false⟩ }
  | .done => none

/-! ## The system -/

structure State where
  client : Client
  server : Server

/-- The connection has been made: the buffers are zeroed, and the server has posted its first
receive with the connection request. There is no send in its first round. -/
def State.start (seed rounds : UInt64) : State where
  client := ⟨.loop, seed, rounds, 0, [], .fresh fun _ => 0, false⟩
  server := ⟨.wait .getEvent ⟨true, false⟩, 0, [], rpmaRecv (.fresh fun _ => 0), false⟩

def ClientPc.polls : ClientPc → Bool
  | .wait g _ => g.polls
  | _ => false

def ServerPc.polls : ServerPc → Bool
  | .wait g _ => g.polls
  | _ => false

/-- The connection has changed the end of the client. -/
def Client.moved (c : Client) (p : End) : Client :=
  { c with qp := p, late := c.late || (c.pc.polls && decide (p.cq ≠ c.qp.cq)) }

/-- The connection has changed the end of the server. -/
def Server.moved (v : Server) (p : End) : Server :=
  { v with qp := p, late := v.late || (v.pc.polls && decide (p.cq ≠ v.qp.cq)) }

def State.moved (s : State) (c v : End) : State := ⟨s.client.moved c, s.server.moved v⟩

def State.step (s : State) : Act → Option State
  | .client => s.client.step.map fun c => { s with client := c }
  | .server => s.server.step.map fun v => { s with server := v }
  | .link .client act =>
    (linkStep false (s.client.pc = .done) (s.server.pc = .done) s.client.qp s.server.qp act).map
      fun (p, o) => s.moved p o
  | .link .server act =>
    (linkStep false (s.server.pc = .done) (s.client.pc = .done) s.server.qp s.client.qp act).map
      fun (p, o) => s.moved o p

/-- Someone takes a step. -/
def Steps (s s' : State) : Prop := ∃ act, s.step act = some s'

/-- After any number of steps. -/
def Reachable (seed rounds : UInt64) : State → Prop :=
  ReflTransGen Steps (State.start seed rounds)

/-- The steps of `acts`, one after the other. -/
def State.run (s : State) (acts : List Act) : Option State := acts.foldlM State.step s

theorem State.reachable_of_run {s s' : State} {acts : List Act} (h : s.run acts = some s') :
    ReflTransGen Steps s s' := by
  induction acts generalizing s with
  | nil => exact Option.some.inj h ▸ .refl
  | cons act acts ih =>
    obtain ⟨t, ht, h⟩ := Option.bind_eq_some_iff.mp h
    exact .head ⟨act, ht⟩ (ih h)

end Rpma.PingPong.Shared
