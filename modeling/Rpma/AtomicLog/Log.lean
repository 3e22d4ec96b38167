import Rpma.Lib.Durable
import Rpma.Lib.Endian
import Rpma.Lib.CText

/-!
# The remote log of the atomic-write example

The server maps a file of persistent memory that holds a signature, the offset `used` and the words
of the log. A client appends words: it writes a word behind the last one, flushes it, writes the new
`used` with `rpma_atomic_write` and flushes that, and waits for the completion of the last flush.

## What is modelled

* `State.serverStep`: `main` of 07-atomic-write/server.c up to the listening endpoint: the checks of
  the file's size, the check of the signature, and the two stores and two `pmem_persist` calls of the
  initialisation, each a step. `printLog` is the loop at its end.
* `State.clientStep`: `main` of 07-atomic-write/client.c from the read of `used` on: the check of the
  region's size, and for each word the four requests and the wait, each a step.
* `State.nicStep`: the queue pair. It executes the posted requests in their order, at any time after
  they were posted. A request that leaves the memory region fails, a flush too, which is a read of
  `RAW_SIZE` bytes (`rpma_flush_apm_do` in flush.c); then the queue pair has failed, and so does every
  request behind.
* `Step`: the steps of the system. A client may leave at any point. The server may end or be killed
  at any point but one, between the store of the signature and its `pmem_persist`: the next server
  would take a signature for durable that is not. The power may fail at any time; which of the words
  that were stored and not persisted it loses is open (`Pmem.Crash`). Then the server starts again.

When a connection is down, its client can still poll the completions that are there, and its other
requests fail.

`told` and `given` are not kept by the programs. `told` has the words whose last flush has completed
with success: a client is told of it when it polls that completion (`State.polled`), at once or after
the server has ended. `given` has the words that a client has begun to write. With this a client whose
connection is down can be forgotten when the next one connects.

**Out of scope**: hosts that are not little-endian; a server without persistent memory; a second
client at a time (server.c accepts one connection); calls of librpma that fail without an effect,
which are a client or a server that leaves.
-/

namespace Rpma.AtomicLog

open Rpma.Lib Rpma.Lib.CText Relation

/-! ## The log -/

/-- `KILOBYTE`. -/
def kilobyte : Nat := 1024

/-- `RAW_SIZE` of flush.c. -/
def rawSize : Nat := 8

/-- `MAX_WORD_LENGTH`. -/
def maxWordLength : Nat := kilobyte - 1

/-- `LOG_HDR_SIGNATURE`. -/
def logHdrSignature : List UInt8 := [76, 79, 71]

/-- `LOG_SIGNATURE_SIZE`. -/
def logSignatureSize : Nat := 8

/-- `offsetof(struct log, used)`. -/
def usedOffset : Nat := 8

/-- `offsetof(struct log, data)`. -/
def dataOffset : Nat := 16

/-- The buffer of the client with a word. -/
def wordBuffer (arg : List UInt8) : List UInt8 := strncpy arg maxWordLength ++ [0]

/-- `word_size` bytes of it. -/
def wordBytes (arg : List UInt8) : List UInt8 :=
  (wordBuffer arg).take (strlen (wordBuffer arg) + 1)

/-- A `uint64_t` in a word of memory. -/
def usedWord (v : UInt64) : Word := fun j => (leBytes 8 v.toNat).getD j 0

def loadUsed (w : Word) : UInt64 := .ofNat (ofLeBytes (List.ofFn w))

@[simp] theorem loadUsed_usedWord (v : UInt64) : loadUsed (usedWord v) = v := by
  have hbytes : List.ofFn (usedWord v) = leBytes 8 v.toNat := by
    refine List.ext_getElem (by simp) fun i h₁ h₂ => ?_
    rw [List.getElem_ofFn, usedWord, List.getD_eq_getElem?_getD, List.getElem?_eq_getElem h₂]
    rfl
  have hlt : v.toNat < 256 ^ 8 := v.toNat_lt
  rw [loadUsed, hbytes, ofLeBytes_leBytes hlt, UInt64.ofNat_toNat]

/-- The file has the signature. -/
def signed (mem : Image) : Bool := strncmpEq mem 0 logHdrSignature logSignatureSize

/-! ## Requests -/

/-- What the client posts: `rpma_write`, `rpma_flush` (the last one with `FLUSH_ID`), and
`rpma_atomic_write`. -/
inductive Wr where
  | write (off : UInt64) (bs : List UInt8)
  | flush (off : UInt64) (len : Nat) (flushId : Bool)
  | atomicWrite (off : UInt64) (bs : List UInt8)
  deriving DecidableEq, Repr

namespace Wr

/-- The end of the range in the memory region. A flush reads `RAW_SIZE` bytes, whatever its length. -/
def stop : Wr → Nat
  | write off bs => off.toNat + bs.length
  | flush off _ _ => off.toNat + rawSize
  | atomicWrite off bs => off.toNat + bs.length

def flushId : Wr → Bool
  | flush _ _ id => id
  | _ => false

def exec (p : Pmem) : Wr → Pmem
  | write off bs => p.storeBytes off.toNat bs
  | flush off len _ => p.persist off.toNat len
  | atomicWrite off bs => p.storeWord (off.toNat / 8) fun j => bs.getD j 0

end Wr

/-- A completion: whether its `wr_id` is `FLUSH_ID`, and whether its status is success. -/
structure Cmpl where
  flushId : Bool
  success : Bool
  deriving DecidableEq, Repr

/-! ## The processes -/

/-- Where the server is: not running, at the check of the signature, at the stores and
`pmem_persist` calls of the initialisation, waiting for a client, or behind its arrival. -/
inductive ServerPc where
  | off | check | storeUsed | persistUsed | storeSignature | persistSignature | listening | serving
  deriving DecidableEq, Repr

/-- Where the client is: at `rpma_read` of `used`, at the calls in the loop, or behind it. -/
inductive ClientPc where
  | open | write | flush | atomicWrite | flushUsed | wait | closed
  deriving DecidableEq, Repr

/-- The words it still has, the present one first, and its `used`. -/
structure Client where
  pc : ClientPc
  args : List (List UInt8)
  used : UInt64
  ret : Int
  deriving DecidableEq, Repr

def Client.word (cl : Client) : List UInt8 := wordBytes (cl.args.headD [])

/-- The client fails. -/
def Client.fail (cl : Client) : Client := { cl with pc := .closed, ret := -1 }

/-- `mr_size`, the persistent memory, the server, the last client that connected, the requests it has
posted that have not been executed, whether its connection is down or its queue pair has failed, and
its completions. -/
structure State where
  size : UInt64
  pmem : Pmem
  server : ServerPc
  client : Option Client
  queue : List Wr
  broken : Bool
  cmpls : List Cmpl
  told : List (List UInt8)
  given : List (List UInt8)

namespace State

/-- A file with the content `img`. -/
def start (size : UInt64) (img : Image) : State where
  size := size
  pmem := .ofImage img
  server := .off
  client := none
  queue := []
  broken := true
  cmpls := []
  told := []
  given := []

/-- `main` of server.c up to the listening endpoint. -/
def serverStep (s : State) : Option State :=
  match s.server with
  | .off =>
    if s.size.toNat < logSignatureSize then none
    else if s.size.toNat - logSignatureSize < kilobyte then none
    else some { s with server := .check }
  | .check => some { s with server := if signed s.pmem.read then .listening else .storeUsed }
  | .storeUsed =>
    some { s with
      pmem := s.pmem.storeWord (usedOffset / 8) (usedWord (.ofNat dataOffset))
      server := .persistUsed }
  | .persistUsed =>
    some { s with pmem := s.pmem.persist usedOffset 8, server := .storeSignature }
  | .storeSignature =>
    some { s with
      pmem := s.pmem.storeBytes 0 (strncpy logHdrSignature logSignatureSize)
      server := .persistSignature }
  | .persistSignature =>
    some { s with pmem := s.pmem.persist 0 logSignatureSize, server := .listening }
  | .listening | .serving => none

/-- The client goes on with `cl` and has posted `wr`. -/
def posted (s : State) (cl : Client) (wr : Wr) : State :=
  { s with client := some cl, queue := s.queue ++ [wr] }

/-- `main` of client.c from the read of `used` on. -/
def clientStep (s : State) : Option State :=
  match s.client with
  | none => none
  | some cl =>
    match cl.pc with
    | .open =>
      let used := loadUsed (s.pmem.last (usedOffset / 8))
      if s.broken then some { s with client := some cl.fail }
      else if s.size ≤ used then some { s with client := some cl.fail }
      else some { s with client := some { cl with pc := .write, used := used } }
    | .write =>
      match cl.args with
      | [] => some { s with client := some { cl with pc := .closed } }
      | arg :: _ =>
        some { s.posted { cl with pc := .flush } (.write cl.used (wordBytes arg)) with
          given := s.given ++ [arg] }
    | .flush =>
      some (s.posted { cl with pc := .atomicWrite } (.flush cl.used cl.word.length false))
    | .atomicWrite =>
      let used := cl.used + .ofNat cl.word.length
      some (s.posted { cl with pc := .flushUsed, used := used }
        (.atomicWrite (.ofNat usedOffset) (leBytes 8 used.toNat)))
    | .flushUsed => some (s.posted { cl with pc := .wait } (.flush (.ofNat usedOffset) 8 true))
    | .wait =>
      match s.cmpls with
      | [] => none
      | wc :: cmpls =>
        if wc.flushId = false then some { s with client := some cl.fail, cmpls := cmpls }
        else if wc.success = false then some { s with client := some cl.fail, cmpls := cmpls }
        else
          some { s with
            client := some { cl with pc := .write, args := cl.args.tail }
            cmpls := cmpls }
    | .closed => none

/-- The word that the client is told of if it polls the next completion. -/
def polled (s : State) : Option (List UInt8) :=
  match s.client with
  | none => none
  | some cl =>
    if cl.pc = .wait ∧ s.cmpls.head? = some ⟨true, true⟩ then cl.args.head? else none

/-- The queue pair executes the next request. When the last flush for a word is done, this word is
the one that was begun last. -/
def nicStep (s : State) : Option State :=
  match s.queue with
  | [] => none
  | wr :: queue =>
    if s.broken ∨ s.size.toNat < wr.stop then
      some { s with queue := queue, broken := true, cmpls := s.cmpls ++ [⟨wr.flushId, false⟩] }
    else
      some { s with
        queue := queue
        pmem := wr.exec s.pmem
        cmpls := if wr.flushId then s.cmpls ++ [⟨true, true⟩] else s.cmpls
        told := if wr.flushId then s.told ++ s.given.getLast?.toList else s.told }

/-- The server has ended, and with it the connection. The client is left with the completions it has;
its other requests fail. -/
def down (s : State) (pmem : Pmem) : State :=
  { s with pmem := pmem, server := .off, broken := true }

/-- A client connects and registers its memory. -/
def connected (s : State) (args : List (List UInt8)) : State :=
  { s with
    server := .serving
    client := some ⟨.open, args, 0, 0⟩
    queue := []
    broken := false
    cmpls := [] }

end State

/-- A step of the system. -/
inductive Step (s : State) : State → Prop
  | server {s' : State} (h : s.serverStep = some s') : Step s s'
  | client {s' : State} (h : s.clientStep = some s') : Step s s'
  | nic {s' : State} (h : s.nicStep = some s') : Step s s'
  | connect (args : List (List UInt8)) (hserver : s.server = .listening) :
      Step s (s.connected args)
  /-- A call fails or the client is killed. -/
  | quit {cl : Client} (h : s.client = some cl) : Step s { s with client := some cl.fail }
  /-- The server ends or is killed. -/
  | exit (hserver : s.server ≠ .persistSignature) : Step s (s.down s.pmem)
  | powerFail {img : Image} (h : s.pmem.Crash img) : Step s (s.down (.ofImage img))

/-- After any number of steps, from a file with the content `img`. -/
def Reachable (size : UInt64) (img : Image) : State → Prop :=
  ReflTransGen Step (State.start size img)

/-- The steps of a run without a power failure in which no call fails. -/
inductive Act where
  | server | client | nic | exit
  | connect (args : List (List UInt8))
  deriving DecidableEq, Repr

namespace State

def act (s : State) : Act → Option State
  | .server => s.serverStep
  | .client => s.clientStep
  | .nic => s.nicStep
  | .exit => if s.server = .persistSignature then none else some (s.down s.pmem)
  | .connect args => if s.server = .listening then some (s.connected args) else none

def run (s : State) (acts : List Act) : Option State := acts.foldlM act s

theorem step_of_act {s s' : State} {a : Act} (h : s.act a = some s') : Step s s' := by
  cases a with
  | server => exact .server h
  | client => exact .client h
  | nic => exact .nic h
  | exit =>
    simp only [act] at h
    split at h
    · cases h
    · rename_i hserver
      exact Option.some.inj h ▸ .exit hserver
  | connect args =>
    simp only [act] at h
    split at h
    · rename_i hserver
      exact Option.some.inj h ▸ .connect args hserver
    · cases h

theorem reachable_of_run {size : UInt64} {img : Image} {s : State} {acts : List Act}
    (h : (start size img).run acts = some s) : Reachable size img s := by
  suffices hall : ∀ t, t.run acts = some s → ReflTransGen Step t s from hall _ h
  clear h
  induction acts with
  | nil => exact fun t h => Option.some.inj h ▸ .refl
  | cons a acts ih =>
    intro t h
    obtain ⟨u, hu, hs⟩ := Option.bind_eq_some_iff.mp h
    exact .head (step_of_act hu) (ih u hs)

end State

/-- What the server prints at the end: the bytes of the log, with a new line for each zero. -/
def printLog (p : Pmem) : List UInt8 :=
  (List.range ((loadUsed (p.last (usedOffset / 8))).toNat - dataOffset)).map fun i =>
    if p.read (dataOffset + i) ≠ 0 then p.read (dataOffset + i) else 10

end Rpma.AtomicLog
