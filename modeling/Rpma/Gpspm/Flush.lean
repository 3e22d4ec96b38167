import Mathlib.Logic.Relation
import Rpma.Gpspm.MapFile

/-!
# The general purpose server persistency method

The client of `09-flush-to-persistent-GPSPM` writes its greeting into the mapped file of the server
and sends a request to make it persistent. The server unpacks the request, calls `persist` on the
range in it and sends a response with the context of the request, which the client checks.

## The system

* **The server** (`State.serverStep`): `main` of server.c, with the check of the signature and each
  store and persist of a new file (`MapFile.lean`), then the exchange from the first receive to the
  end of the connection. It starts again after it has been killed, with the file.
* **The client** (`State.clientStep`): `main` of client.c from the `rpma_write` on. Each client has a
  greeting of its own, of `HELLO_STR_SIZE` bytes.
* **The queue pairs** (`State.nicServer`, `State.nicClient`) execute what was posted in its order: a
  write is in the memory of the server, and not yet durable, before the message behind it is
  delivered. A message needs a posted receive.
* **`Step`**: the client may leave at any point (a call that fails makes it leave too), the server may
  be killed at any point, and the power may fail at any time (`Pmem.Crash`).

Four variables are not kept by the programs: `told` and `since`, the greeting whose confirmation was
delivered last since the file was made and those whose write was posted after that; `loose`, whether
a server was killed between the last store of a new file and its `persist` since the last power
failure; and `newValue`, what the server has printed at the end. The client is told when it takes the
confirmation, which can be after the server was killed. As `told` has it from the delivery on, a
client whose connection is down can be left out.

The packing of the messages is a parameter (`Codec`): protobuf-c is not part of the repository. Out of
scope: a server without persistent memory, the registration of the memory, and how the connection is
made; the client knows `data_offset` and the region from its private data.
-/

namespace Rpma.Gpspm.Flush

open Rpma.Lib Rpma.Lib.CText Relation

/-! ## Messages -/

/-- `GPSPMFlushRequest`. -/
structure FlushRequest where
  offset : UInt64
  length : UInt64
  opContext : UInt64
  deriving DecidableEq, Repr

/-- `GPSPMFlushResponse`. -/
structure FlushResponse where
  opContext : UInt64
  deriving DecidableEq, Repr

/-- How messages of a kind are packed and unpacked. -/
structure Codec (M : Type) where
  pack : M → List UInt8
  unpack : List UInt8 → Option M
  unpack_pack : ∀ m, unpack (pack m) = some m

/-- `MSG_SIZE_MAX`. -/
def msgSizeMax : Nat := 512

/-- `FLUSH_ID`. -/
def flushId : UInt64 := 0xF01D

/-- `enum ibv_wc_opcode`. -/
inductive Opcode where
  | send | recv
  deriving DecidableEq, Repr

/-- A completion, for a receive with the message in its buffer. -/
structure Wc where
  opcode : Opcode
  msg : List UInt8
  deriving DecidableEq, Repr

/-- What the client posts. -/
inductive Wr where
  | write (off : UInt64) (bs : List UInt8)
  | send (msg : List UInt8)
  deriving DecidableEq, Repr

/-! ## The processes -/

/-- Where the server is: not running, at the check of the signature, at an operation of a new file,
waiting for a client, at a call of the exchange, or behind it. -/
inductive ServerPc where
  | off | check
  | map (todo : List MemOp)
  | listen | recvWait
  | persist (req : FlushRequest)
  | respond (req : FlushRequest)
  | sendWait | closeWait | closed
  deriving DecidableEq, Repr

/-- Where the client is: at a call of the exchange, behind it with the confirmation, or at its
disconnect. -/
inductive ClientPc where
  | write | recv | send | sendWait | recvWait | confirmed | closed
  deriving DecidableEq, Repr

/-- The client, with the `str` of its greeting, the receives it has posted, and its completions. -/
structure Client where
  pc : ClientPc
  str : List UInt8
  recvs : Nat
  cq : List Wc
  rcq : List Wc
  deriving DecidableEq, Repr

structure State where
  /-- `mr_size` of the file. -/
  size : Nat
  pmem : Pmem
  server : ServerPc
  /-- The receives that the server has posted. -/
  recvs : Nat
  cq : List Wc
  rcq : List Wc
  client : Option Client
  /-- What has been posted and not been executed. -/
  toServer : List Wr
  toClient : List (List UInt8)
  told : Option (List UInt8)
  since : List (List UInt8)
  loose : Bool
  newValue : Option (List UInt8)

/-- The last store of a new file is done, and its `persist` is not. -/
def ServerPc.unsaved : ServerPc → Bool
  | .map todo => Gpspm.unsaved todo
  | _ => false

variable (request : Codec FlushRequest) (response : Codec FlushResponse)

/-- `flush_req`. -/
def flushReq : FlushRequest := ⟨.ofNat signatureLen, .ofNat kilobyte, flushId⟩

/-- The client will accept the response: it can be unpacked, and has the context of the request. -/
def confirms (msg : List UInt8) : Bool :=
  match response.unpack msg with
  | none => false
  | some resp => resp.opContext == flushId

namespace State

/-- A file with the content `img`. -/
def start (size : Nat) (img : Image) : State where
  size := size
  pmem := .ofImage img
  server := .off
  recvs := 0
  cq := []
  rcq := []
  client := none
  toServer := []
  toClient := []
  told := none
  since := []
  loose := false
  newValue := none

/-- `main` of server.c. -/
def serverStep (s : State) : Option State :=
  match s.server with
  | .off => if s.size < mapSize kilobyte then none else some { s with server := .check }
  | .check =>
    some { s with server := if signed s.pmem.read then .listen else .map (mapOps kilobyte) }
  | .map (op :: todo) => some { s with pmem := op.exec s.pmem, server := .map todo }
  | .map [] => some { s with server := .listen }
  | .listen => none
  | .recvWait =>
    match s.rcq with
    | [] => none
    | wc :: rcq =>
      if wc.opcode = .recv then
        match request.unpack wc.msg with
        | none => some { s with rcq := rcq, server := .closed }
        | some req => some { s with rcq := rcq, server := .persist req }
      else some { s with rcq := rcq, server := .closed }
  | .persist req =>
    some { s with
      pmem := s.pmem.persist req.offset.toNat req.length.toNat
      server := .respond req }
  | .respond req =>
    let msg := response.pack ⟨req.opContext⟩
    if msg.length > msgSizeMax then some { s with server := .closed }
    else some { s with server := .sendWait, toClient := s.toClient ++ [msg] }
  | .sendWait =>
    match s.cq with
    | [] => none
    | wc :: cq =>
      some { s with cq := cq, server := if wc.opcode = .send then .closeWait else .closed }
  | .closeWait =>
    -- the end of the connection
    if s.client.all (·.pc = .closed) then
      some { s with
        server := .closed
        newValue := some ((bytesAt s.pmem.read signatureLen (s.size - signatureLen)).takeWhile
          (· ≠ 0)) }
    else none
  | .closed => none

/-- `main` of client.c from the `rpma_write` on. -/
def clientStep (s : State) : Option State :=
  match s.client with
  | none => none
  | some cl =>
    match cl.pc with
    | .write =>
      if s.size < kilobyte then some { s with client := some { cl with pc := .closed } }
      else
        some { s with
          client := some { cl with pc := .recv }
          toServer := s.toServer ++ [.write (.ofNat signatureLen) cl.str]
          since := s.since ++ [cl.str] }
    | .recv => some { s with client := some { cl with pc := .send, recvs := cl.recvs + 1 } }
    | .send =>
      let msg := request.pack flushReq
      if msg.length > msgSizeMax then some { s with client := some { cl with pc := .closed } }
      else
        some { s with
          client := some { cl with pc := .sendWait }
          toServer := s.toServer ++ [.send msg] }
    | .sendWait =>
      match cl.cq with
      | [] => none
      | wc :: cq =>
        let pc := if wc.opcode = .send then .recvWait else .closed
        some { s with client := some { cl with pc := pc, cq := cq } }
    | .recvWait =>
      match cl.rcq with
      | [] => none
      | wc :: rcq =>
        let closed := { s with client := some { cl with pc := .closed, rcq := rcq } }
        if wc.opcode = .recv then
          match response.unpack wc.msg with
          | none => some closed
          | some resp =>
            if resp.opContext ≠ flushId then some closed
            else some { s with client := some { cl with pc := .confirmed, rcq := rcq } }
        else some closed
    | .confirmed => some { s with client := some { cl with pc := .closed } }
    | .closed => none

/-- The next request of the client is executed. A message needs a posted receive. -/
def nicServer (s : State) : Option State :=
  match s.toServer with
  | [] => none
  | .write off bs :: wrs =>
    if s.size < off.toNat + bs.length then none
    else some { s with toServer := wrs, pmem := s.pmem.storeBytes off.toNat bs }
  | .send msg :: wrs =>
    if s.recvs = 0 then none
    else
      some { s with
        toServer := wrs
        recvs := s.recvs - 1
        rcq := s.rcq ++ [⟨.recv, msg⟩]
        client := s.client.map fun cl => { cl with cq := cl.cq ++ [⟨.send, []⟩] } }

/-- The next message of the server is delivered. -/
def nicClient (s : State) : Option State :=
  match s.toClient, s.client with
  | msg :: msgs, some cl =>
    if cl.recvs = 0 then none
    else
      some { s with
        toClient := msgs
        client := some { cl with recvs := cl.recvs - 1, rcq := cl.rcq ++ [⟨.recv, msg⟩] }
        cq := s.cq ++ [⟨.send, []⟩]
        told := if confirms response msg then some cl.str else s.told
        since := if confirms response msg then [] else s.since }
  | _, _ => none

/-- A client connects; the server has posted a receive before it accepts. -/
def connected (s : State) (str : List UInt8) : State :=
  { s with server := .recvWait, recvs := 1, client := some ⟨.write, str, 0, [], []⟩ }

/-- The client leaves. -/
def left (s : State) : State :=
  { s with client := s.client.map fun cl => { cl with pc := .closed } }

/-- The server is killed, and with it the connection ends. -/
def killed (s : State) : State :=
  { start s.size fun _ => 0 with
    pmem := s.pmem
    told := s.told
    since := s.since
    loose := s.loose || s.server.unsaved }

/-- The power fails and leaves `img`. -/
def failed (s : State) (img : Image) : State :=
  { start s.size img with
    told := if signed img then s.told else none
    since := if signed img then s.since else [] }

end State

/-- A step of the system. -/
inductive Step (s : State) : State → Prop
  | server {s' : State} (h : s.serverStep request response = some s') : Step s s'
  | client {s' : State} (h : s.clientStep request response = some s') : Step s s'
  | nicServer {s' : State} (h : s.nicServer = some s') : Step s s'
  | nicClient {s' : State} (h : s.nicClient response = some s') : Step s s'
  | connect {str : List UInt8} (hserver : s.server = .listen) (hstr : str.length = helloStrSize) :
      Step s (s.connected str)
  | leave : Step s s.left
  | kill : Step s s.killed
  | powerFail {img : Image} (h : s.pmem.Crash img) : Step s (s.failed img)

/-- After any number of steps, from a file with the content `img`. -/
def Reachable (size : Nat) (img : Image) : State → Prop :=
  ReflTransGen (Step request response) (State.start size img)

/-! ## Runs without a power failure -/

inductive Act where
  | server | client | nicServer | nicClient | kill
  | connect (str : List UInt8)
  deriving DecidableEq, Repr

namespace State

def act (s : State) : Act → Option State
  | .server => s.serverStep request response
  | .client => s.clientStep request response
  | .nicServer => s.nicServer
  | .nicClient => s.nicClient response
  | .kill => some s.killed
  | .connect str =>
    if s.server = .listen ∧ str.length = helloStrSize then some (s.connected str) else none

def run (s : State) (acts : List Act) : Option State := acts.foldlM (State.act request response) s

variable {request response}

theorem step_of_act {s s' : State} {a : Act} (h : s.act request response a = some s') :
    Step request response s s' := by
  cases a with
  | server => exact .server h
  | client => exact .client h
  | nicServer => exact .nicServer h
  | nicClient => exact .nicClient h
  | kill => exact Option.some.inj h ▸ .kill
  | connect str =>
    simp only [act] at h
    split at h
    · rename_i hconn
      exact Option.some.inj h ▸ .connect hconn.1 hconn.2
    · cases h

theorem reachable_of_run {size : Nat} {img : Image} {s : State} {acts : List Act}
    (h : (start size img).run request response acts = some s) :
    Reachable request response size img s := by
  suffices hall : ∀ t : State, t.run request response acts = some s →
      ReflTransGen (Step request response) t s from hall _ h
  clear h
  induction acts with
  | nil => exact fun t h => Option.some.inj h ▸ .refl
  | cons a acts ih =>
    intro t h
    obtain ⟨u, hu, hs⟩ := Option.bind_eq_some_iff.mp h
    exact .head (step_of_act hu) (ih u hs)

end State

/-! ## `fixed64` fields on the wire -/

/-- The fields from the number `k` on, each behind its tag. -/
def packFields : Nat → List UInt64 → List UInt8
  | _, [] => []
  | k, v :: vs => .ofNat (8 * k + 1) :: leBytes 8 v.toNat ++ packFields (k + 1) vs

def unpackFields : Nat → Nat → List UInt8 → Option (List UInt64)
  | _, 0, bs => if bs = [] then some [] else none
  | _, _ + 1, [] => none
  | k, n + 1, tag :: bs =>
    if tag = .ofNat (8 * k + 1) ∧ 8 ≤ bs.length then
      (unpackFields (k + 1) n (bs.drop 8)).map (.ofNat (ofLeBytes (bs.take 8)) :: ·)
    else none

theorem unpackFields_packFields (k : Nat) (vs : List UInt64) :
    unpackFields k vs.length (packFields k vs) = some vs := by
  induction vs generalizing k with
  | nil => rfl
  | cons v vs ih =>
    have hlen : (leBytes 8 v.toNat).length = 8 := length_leBytes ..
    have hlt : v.toNat < 256 ^ 8 := v.toNat_lt
    simp only [packFields, List.cons_append, List.length_cons, unpackFields, true_and]
    rw [if_pos (by rw [List.length_append, hlen]; omega), List.drop_left' hlen,
      List.take_left' hlen, ih, ofLeBytes_leBytes hlt, UInt64.ofNat_toNat]
    rfl

/-- The wire format of the requests and of the responses. -/
def requestCodec : Codec FlushRequest where
  pack req := packFields 1 [req.offset, req.length, req.opContext]
  unpack bs := match unpackFields 1 3 bs with
    | some [offset, length, opContext] => some ⟨offset, length, opContext⟩
    | _ => none
  unpack_pack req := by
    have h := unpackFields_packFields 1 [req.offset, req.length, req.opContext]
    simp only [List.length_cons, List.length_nil] at h
    rw [h]

def responseCodec : Codec FlushResponse where
  pack resp := packFields 1 [resp.opContext]
  unpack bs := match unpackFields 1 1 bs with
    | some [opContext] => some ⟨opContext⟩
    | _ => none
  unpack_pack resp := by
    have h := unpackFields_packFields 1 [resp.opContext]
    simp only [List.length_cons, List.length_nil] at h
    rw [h]

end Rpma.Gpspm.Flush
