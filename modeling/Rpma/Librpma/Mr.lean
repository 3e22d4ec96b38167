import Rpma.Lib.CText
import Rpma.Lib.Endian
import Rpma.Lib.Prog
import Rpma.Librpma.Provider

/-!
# Memory regions and their descriptors: `mr.c`

The data path of librpma, with the numbers it moves: addresses and lengths are `uint64_t`, keys
`uint32_t`, a usage is an `int`. A function is a program over `DataCall`, the calls of the data
path with all their arguments; the world answers them.

A local region is described to the other side by 21 bytes, written by `mrGetDescriptor` on one host
and read by `mrRemoteFromDescriptor` on another. Both are translated with their running pointers
and byte order conversions. `descriptor` is the abstract encoding: the fields in little-endian
order. What a host writes is `descriptor` of the region (`mrGetDescriptor_run`), and what a host
reads is what `descriptor` encodes (`mrRemoteFromDescriptor_run`), whatever its byte order.

* **`descriptor_exchange`**: what one host writes any other host decodes to the same region, a
  buffer is accepted exactly if it is long enough and has a usage, the decoded region encodes to
  the bytes it came from, and nothing but those bytes is written.
-/

namespace Rpma.Librpma.Data

open Rpma.Lib Rpma.Lib.CText

/-! ## Regions -/

/-- `struct ibv_mr`. -/
structure IbvMr where
  addr : UInt64
  length : UInt64
  lkey : UInt32
  rkey : UInt32
  deriving DecidableEq, Repr

/-- `struct rpma_mr_local`. -/
structure MrLocal where
  ibvMr : IbvMr
  usage : BitVec 32
  deriving DecidableEq, Repr

/-- `struct rpma_mr_remote`. -/
structure MrRemote where
  raddr : UInt64
  size : UInt64
  rkey : UInt32
  usage : BitVec 32
  deriving DecidableEq, Repr

/-! ## Work requests -/

/-- `struct ibv_sge`. -/
structure Sge where
  addr : UInt64
  length : UInt32
  lkey : UInt32
  deriving DecidableEq, Repr

/-- `enum ibv_wr_opcode`, as far as librpma uses it. -/
inductive Opcode where
  | rdmaRead | rdmaWrite | rdmaWriteWithImm | send | sendWithImm
  deriving DecidableEq, Repr

/-- `struct ibv_send_wr`; `none` where the code leaves a member unset. -/
structure SendWr where
  wrId : UInt64
  sgList : List Sge
  opcode : Opcode
  /-- `IBV_SEND_SIGNALED`. -/
  signaled : Bool
  immData : Option UInt32
  /-- `wr.rdma.remote_addr` and `wr.rdma.rkey`. -/
  rdma : Option (UInt64 × UInt32)
  deriving DecidableEq, Repr

/-- `struct ibv_recv_wr`. -/
structure RecvWr where
  wrId : UInt64
  sgList : List Sge
  deriving DecidableEq, Repr

/-! ## Calls -/

/-- The calls of the data path. A registration has the address and length it was asked for. -/
inductive DataCall where
  | faultInjection
  | malloc
  | free
  | sysconfPagesize
  | mmap (size : UInt64)
  | munmap (addr size : UInt64)
  | ibvRegMr (addr length : UInt64) (access : BitVec 32)
  | ibvDeregMr (mr : IbvMr)
  | ibvPostSend (qp : Nat) (wr : SendWr)
  | ibvPostRecv (qp : Nat) (wr : RecvWr)
  | ibvAdviseMr (mr : IbvMr) (advice : Int) (flags : UInt32) (sgList : List Sge)
  deriving DecidableEq, Repr

/-- What a call answers: whether a fault is injected, whether memory was allocated, the keys of a
registration or the `errno` of its failure, the return value of the others. -/
abbrev DataCall.Ans : DataCall → Type
  | .faultInjection | .malloc => Bool
  | .free => Unit
  | .mmap _ => Option UInt64
  | .ibvRegMr _ _ _ => Except Errno (UInt32 × UInt32)
  | _ => Int

/-- A program of the data path. -/
abbrev D := Prog DataCall DataCall.Ans

abbrev DataLog := Log DataCall DataCall.Ans

/-- What the world answers to the `n`-th call. -/
abbrev DataWorld := Nat → (c : DataCall) → c.Ans

/-- A build without `DEBUG_FAULT_INJECTION`. -/
def DataWorld.NoFaults (world : DataWorld) : Prop := ∀ n, world n .faultInjection = false

/-- `malloc` succeeds. -/
def DataWorld.Allocates (world : DataWorld) : Prop := ∀ n, world n .malloc = true

/-- Issue a call of the data path. -/
def issue (c : DataCall) : D c.Ans := Prog.issue (R := DataCall.Ans) c

/-- `RPMA_FAULT_INJECTION`. -/
def faultInjection {α : Type} (onFault rest : D α) : D α :=
  .call .faultInjection fun fault => if fault = true then onFault else rest

/-- `malloc`: leave through `onNull`, or go on. -/
def allocate {α : Type} (onNull rest : D α) : D α :=
  .call .malloc fun ok => if ok = true then rest else onNull

theorem run_faultInjection {α : Type} {world : DataWorld} (hnf : world.NoFaults)
    (onFault rest : D α) (log : DataLog) :
    (faultInjection onFault rest).run world log =
      rest.run world (log ++ [⟨.faultInjection, world log.length .faultInjection⟩]) := by
  simp only [faultInjection, Prog.run, hnf log.length, Bool.false_eq_true, if_false]

theorem run_allocate {α : Type} {world : DataWorld} (halloc : world.Allocates)
    (onNull rest : D α) (log : DataLog) : (allocate onNull rest).run world log =
      rest.run world (log ++ [⟨.malloc, world log.length .malloc⟩]) := by
  simp only [allocate, Prog.run, halloc log.length, if_true]

theorem faultInjection_bind {α β : Type} (onFault rest : D α) (f : α → D β) :
    faultInjection onFault rest >>= f = faultInjection (onFault >>= f) (rest >>= f) := by
  refine congrArg (Prog.call _) (funext fun fault => ?_)
  dsimp only
  split <;> rfl

/-! ## Registering a region -/

def usageReadSrc : BitVec 32 := 1 <<< 0
def usageReadDst : BitVec 32 := 1 <<< 1
def usageWriteSrc : BitVec 32 := 1 <<< 2
def usageWriteDst : BitVec 32 := 1 <<< 3
def usageFlushTypeVisibility : BitVec 32 := 1 <<< 4
def usageFlushTypePersistent : BitVec 32 := 1 <<< 5
def usageSend : BitVec 32 := 1 <<< 6
def usageRecv : BitVec 32 := 1 <<< 7

/-- `USAGE_ALL_ALLOWED`. -/
def usageAllAllowed : BitVec 32 :=
  usageReadSrc ||| usageReadDst ||| usageWriteSrc ||| usageWriteDst ||| usageSend ||| usageRecv |||
    usageFlushTypeVisibility ||| usageFlushTypePersistent

/-- `!(usage == 0 || (usage & ~USAGE_ALL_ALLOWED))`, the check of `rpma_mr_reg`. -/
def usageAccepted (usage : BitVec 32) : Bool :=
  !(usage == 0 || usage &&& ~~~usageAllAllowed != 0)

def ibvAccessLocalWrite : BitVec 32 := 1
def ibvAccessRemoteWrite : BitVec 32 := 1 <<< 1
def ibvAccessRemoteRead : BitVec 32 := 1 <<< 2
def ibvAccessOnDemand : BitVec 32 := 1 <<< 6

/-- `struct rpma_peer`, the transport of its device, and whether the build supports On-Demand
Paging. -/
structure Peer where
  isOdpSupported : Bool
  isIwarp : Bool
  onDemandPagingSupported : Bool

/-- `rpma_peer_usage_to_access`. -/
def peerUsageToAccess (peer : Peer) (usage : BitVec 32) : BitVec 32 :=
  let has (u : BitVec 32) : Bool := usage &&& u != 0
  let access := if has (usageReadSrc ||| usageFlushTypeVisibility ||| usageFlushTypePersistent)
    then ibvAccessRemoteRead else 0
  let access := if has usageReadDst
    then access ||| ibvAccessLocalWrite ||| (if peer.isIwarp then ibvAccessRemoteWrite else 0)
    else access
  let access := if has usageWriteSrc then access ||| ibvAccessLocalWrite else access
  let access := if has usageWriteDst
    then access ||| ibvAccessRemoteWrite ||| ibvAccessLocalWrite else access
  if has usageRecv then access ||| ibvAccessLocalWrite else access

/-- `rpma_peer_mr_reg`. -/
def peerMrReg (peer : Peer) (addr length : UInt64) (usage : BitVec 32) : D (Except Int IbvMr) :=
  faultInjection (pure (.error rpmaEProvider)) do
    let access := peerUsageToAccess peer usage
    match ← issue (.ibvRegMr addr length access) with
    | .ok (lkey, rkey) => return .ok ⟨addr, length, lkey, rkey⟩
    | .error errno =>
      if peer.onDemandPagingSupported ∧ errno = .eopnotsupp ∧ peer.isOdpSupported then
        faultInjection (pure (.error rpmaEProvider)) do
          match ← issue (.ibvRegMr addr length (access ||| ibvAccessOnDemand)) with
          | .ok (lkey, rkey) => return .ok ⟨addr, length, lkey, rkey⟩
          | .error _ => return .error rpmaEProvider
      else return .error rpmaEProvider

/-- `rpma_mr_reg`; `none` is `NULL`. -/
def mrReg (peer : Option Peer) (ptr : Option UInt64) (size : UInt64) (usage : BitVec 32)
    (mrPtr : Bool) : D (Except Int MrLocal) :=
  faultInjection (pure (.error rpmaENomem)) do
    match peer, ptr with
    | some peer, some ptr =>
      if size = 0 ∨ mrPtr = false then return .error rpmaEInval
      else if usageAccepted usage = false then return .error rpmaEInval
      else
        allocate (pure (.error rpmaENomem)) do
          match ← peerMrReg peer ptr size usage with
          | .error ret =>
            issue .free
            return .error ret
          | .ok ibvMr => return .ok ⟨ibvMr, usage⟩
    | _, _ => return .error rpmaEInval

section Returns

variable {α : Type} {m rest : D α} {Q : α → Prop}

theorem returns_faultInjection (hm : m.Returns Q) (hr : rest.Returns Q) :
    (faultInjection m rest).Returns Q := by
  intro fault
  dsimp only
  split
  · exact hm
  · exact hr

theorem returns_allocate (hm : m.Returns Q) (hr : rest.Returns Q) :
    (allocate m rest).Returns Q := by
  intro ok
  dsimp only
  split
  · exact hr
  · exact hm

end Returns

/-- A registration is of the bytes asked for. -/
theorem peerMrReg_range (peer : Peer) (addr length : UInt64) (usage : BitVec 32) :
    (peerMrReg peer addr length usage).Returns fun r =>
      ∀ mr, r = .ok mr → mr.addr = addr ∧ mr.length = length := by
  have hok : ∀ lkey rkey mr, (.ok ⟨addr, length, lkey, rkey⟩ : Except Int IbvMr) = .ok mr →
      mr.addr = addr ∧ mr.length = length := by
    rintro lkey rkey mr ⟨⟩
    exact ⟨rfl, rfl⟩
  refine returns_faultInjection nofun (Prog.returns_after fun r => ?_)
  match r with
  | .ok (lkey, rkey) => exact hok lkey rkey
  | .error errno =>
    dsimp only
    split
    · refine returns_faultInjection nofun (Prog.returns_after fun r => ?_)
      match r with
      | .ok (lkey, rkey) => exact hok lkey rkey
      | .error _ => exact nofun
    · exact nofun

/-- A registered region is what was asked for, with an accepted usage. -/
theorem mrReg_range (peer : Option Peer) (ptr : Option UInt64) (size : UInt64)
    (usage : BitVec 32) (mrPtr : Bool) :
    (mrReg peer ptr size usage mrPtr).Returns fun r => ∀ mr, r = .ok mr →
      ptr = some mr.ibvMr.addr ∧ mr.ibvMr.length = size ∧ mr.usage = usage ∧
        usageAccepted usage = true := by
  refine returns_faultInjection nofun ?_
  match peer, ptr with
  | none, _ => exact nofun
  | some _, none => exact nofun
  | some peer, some ptr =>
    dsimp only
    split
    · exact nofun
    · split
      · exact nofun
      · rename_i husage
        refine returns_allocate nofun
          ((peerMrReg_range peer ptr size usage).bind fun r hr => ?_)
        cases r with
        | error ret => exact Prog.returns_after fun _ => nofun
        | ok ibvMr =>
          obtain ⟨haddr, hlen⟩ := hr ibvMr rfl
          rintro mr ⟨⟩
          exact ⟨congrArg some haddr.symm, hlen, rfl, by simpa using husage⟩

/-! ## Descriptors -/

/-- `RPMA_MR_DESC_SIZE`. -/
def mrDescSize : Nat := 2 * 8 + 4 + 1

/-- `rpma_mr_get_descriptor` on a host, into the memory `mem`: the result and the memory after
it. -/
def mrGetDescriptor (host : Endian) (mem : Bytes) (mr : Option MrLocal) (desc : Option Nat) :
    D (Int × Bytes) :=
  faultInjection (pure (rpmaEInval, mem)) <|
    match mr, desc with
    | some mr, some desc =>
      let buff := desc
      let addr := host.htole 8 mr.ibvMr.addr.toNat
      let mem := blit mem buff (host.store 8 addr)
      let buff := buff + 8
      let length := host.htole 8 mr.ibvMr.length.toNat
      let mem := blit mem buff (host.store 8 length)
      let buff := buff + 8
      let rkey := host.htole 4 mr.ibvMr.rkey.toNat
      let mem := blit mem buff (host.store 4 rkey)
      let buff := buff + 4
      let mem := blit mem buff [UInt8.ofNat mr.usage.toNat]
      return (0, mem)
    | _, _ => return (rpmaEInval, mem)

/-- `rpma_mr_remote_from_descriptor` on a host, from the memory `mem`. -/
def mrRemoteFromDescriptor (host : Endian) (mem : Bytes) (desc : Option Nat) (descSize : Nat)
    (mrPtr : Bool) : D (Except Int MrRemote) :=
  faultInjection (pure (.error rpmaEInval)) do
    match desc, mrPtr with
    | some desc, true =>
      if descSize < mrDescSize then return .error rpmaEInval
      else
        let buff := desc
        let raddr := host.load (bytesAt mem buff 8)
        let buff := buff + 8
        let size := host.load (bytesAt mem buff 8)
        let buff := buff + 8
        let rkey := host.load (bytesAt mem buff 4)
        let buff := buff + 4
        let usage := mem buff
        if usage = 0 then return .error rpmaEInval
        else
          allocate (pure (.error rpmaENomem)) <|
            return .ok ⟨UInt64.ofNat (host.htole 8 raddr), UInt64.ofNat (host.htole 8 size),
              UInt32.ofNat (host.htole 4 rkey), BitVec.ofNat 32 usage.toNat⟩
    | _, _ => return .error rpmaEInval

/-- The bytes that describe a region: address, length, key and usage, little-endian. -/
def descriptor (addr length : UInt64) (rkey : UInt32) (usage : BitVec 32) : List UInt8 :=
  leBytes 8 addr.toNat ++ leBytes 8 length.toNat ++ leBytes 4 rkey.toNat ++
    [UInt8.ofNat usage.toNat]

/-- The bytes that describe a local region. -/
def MrLocal.descriptor (mr : MrLocal) : List UInt8 :=
  Data.descriptor mr.ibvMr.addr mr.ibvMr.length mr.ibvMr.rkey mr.usage

/-- The region on the other side that describes `mr`. -/
def MrLocal.asRemote (mr : MrLocal) : MrRemote :=
  ⟨mr.ibvMr.addr, mr.ibvMr.length, mr.ibvMr.rkey, mr.usage⟩

@[simp] theorem length_descriptor (addr length : UInt64) (rkey : UInt32) (usage : BitVec 32) :
    (descriptor addr length rkey usage).length = mrDescSize := by
  simp [descriptor, mrDescSize]

/-- The region that the 21 bytes at `desc` describe. -/
def describedAt (mem : Bytes) (desc : Nat) : MrRemote :=
  ⟨UInt64.ofNat (ofLeBytes (bytesAt mem desc 8)),
    UInt64.ofNat (ofLeBytes (bytesAt mem (desc + 8) 8)),
    UInt32.ofNat (ofLeBytes (bytesAt mem (desc + 16) 4)), BitVec.ofNat 32 (mem (desc + 20)).toNat⟩

section Descriptor

variable {world : DataWorld} {mem : Bytes} {desc : Nat}

/-- The byte order of the host does not show in what it writes. -/
theorem mrGetDescriptor_run (hnf : world.NoFaults) (host : Endian) (mr : MrLocal)
    (log : DataLog) :
    ((mrGetDescriptor host mem (some mr) (some desc)).run world log).1 =
      (0, blit mem desc mr.descriptor) := by
  unfold mrGetDescriptor
  rw [run_faultInjection hnf, Prog.run_pure]
  simp only [Endian.store_htole]
  have h8 : ∀ v, (leBytes 8 v).length = 8 := length_leBytes 8
  have h4 : ∀ v, (leBytes 4 v).length = 4 := length_leBytes 4
  have h1 := blit_append mem desc (leBytes 8 mr.ibvMr.addr.toNat)
    (leBytes 8 mr.ibvMr.length.toNat)
  have h2 := blit_append mem desc
    (leBytes 8 mr.ibvMr.addr.toNat ++ leBytes 8 mr.ibvMr.length.toNat)
    (leBytes 4 mr.ibvMr.rkey.toNat)
  have h3 := blit_append mem desc (leBytes 8 mr.ibvMr.addr.toNat ++
    leBytes 8 mr.ibvMr.length.toNat ++ leBytes 4 mr.ibvMr.rkey.toNat)
    [UInt8.ofNat mr.usage.toNat]
  simp only [List.length_append, h8, h4] at h1 h2 h3
  rw [h1, show desc + 8 + 8 = desc + (8 + 8) by omega, h2,
    show desc + (8 + 8) + 4 = desc + (8 + 8 + 4) by omega, h3]
  rfl

/-- Nor in what it reads. -/
theorem mrRemoteFromDescriptor_run (hnf : world.NoFaults) (halloc : world.Allocates)
    (host : Endian) (descSize : Nat) (log : DataLog) :
    ((mrRemoteFromDescriptor host mem (some desc) descSize true).run world log).1 =
      if descSize < mrDescSize ∨ mem (desc + 20) = 0 then .error rpmaEInval
      else .ok (describedAt mem desc) := by
  unfold mrRemoteFromDescriptor
  rw [run_faultInjection hnf]
  by_cases hsize : descSize < mrDescSize
  · simp only [hsize, if_true, true_or, Prog.run_pure]
  · by_cases husage : mem (desc + 20) = 0
    · simp only [hsize, husage, if_true, if_false, or_true, Prog.run_pure]
    · simp only [hsize, husage, if_false, or_self, run_allocate halloc, Prog.run_pure, describedAt,
        Endian.letoh_load host, length_bytesAt, Nat.add_assoc, Nat.reduceAdd]

theorem usage_lt_of_accepted {usage : BitVec 32} (h : usageAccepted usage = true) :
    0 < usage.toNat ∧ usage.toNat < 2 ^ 8 := by
  have hall : usageAllAllowed = 255#32 := by decide
  simp only [usageAccepted, hall, Bool.not_eq_true', Bool.or_eq_false_iff, beq_eq_false_iff_ne,
    bne_eq_false_iff_eq] at h
  refine ⟨Nat.pos_of_ne_zero fun h0 => h.1 (BitVec.eq_of_toNat_eq h0), ?_⟩
  apply Nat.lt_pow_two_of_testBit
  intro i hi
  have hpow : ∀ {x k : Nat}, x < 2 ^ k → k ≤ i → x.testBit i = false := fun hx hk =>
    Nat.testBit_lt_two_pow (lt_of_lt_of_le hx (Nat.pow_le_pow_right (by decide) hk))
  by_cases hlt : i < 32
  · have h255 : Nat.testBit 255 i = false := hpow (by decide : 255 < 2 ^ 8) hi
    have hbit := congrArg (·.getLsbD i) h.2
    simp only [BitVec.getLsbD_and, BitVec.getLsbD_not, hlt, decide_true, Bool.true_and] at hbit
    rw [BitVec.getLsbD_ofNat, h255] at hbit
    simpa [BitVec.getLsbD] using hbit
  · exact hpow usage.isLt (Nat.le_of_not_lt hlt)

theorem bytesAt_fields (mem : Bytes) (desc : Nat) : bytesAt mem desc mrDescSize =
    bytesAt mem desc 8 ++ bytesAt mem (desc + 8) 8 ++ bytesAt mem (desc + 16) 4 ++
      [mem (desc + 20)] := by
  have h1 := bytesAt_add mem desc 20 1
  have h2 := bytesAt_add mem desc 16 4
  have h3 := bytesAt_add mem desc 8 8
  rw [show mrDescSize = 20 + 1 from rfl, h1, h2, h3]
  rfl

/-- **Decoding undoes encoding** for every usage that a byte can hold. -/
theorem describedAt_of_descriptor {mr : MrLocal} (hu : mr.usage.toNat < 2 ^ 8)
    (h : bytesAt mem desc mrDescSize = mr.descriptor) : describedAt mem desc = mr.asRemote := by
  rw [bytesAt_fields] at h
  obtain ⟨h, hlast⟩ := List.append_inj h (by simp)
  obtain ⟨h, hkey⟩ := List.append_inj h (by simp)
  obtain ⟨haddr, hlen⟩ := List.append_inj h (by simp)
  have haddr_lt : mr.ibvMr.addr.toNat < 256 ^ 8 := mr.ibvMr.addr.toNat_lt
  have hlen_lt : mr.ibvMr.length.toNat < 256 ^ 8 := mr.ibvMr.length.toNat_lt
  have hkey_lt : mr.ibvMr.rkey.toNat < 256 ^ 4 := mr.ibvMr.rkey.toNat_lt
  have husage : (mem (desc + 20)).toNat = mr.usage.toNat := by
    rw [List.singleton_inj.mp hlast, UInt8.toNat_ofNat', Nat.mod_eq_of_lt hu]
  unfold describedAt MrLocal.asRemote
  rw [haddr, hlen, hkey, husage, ofLeBytes_leBytes haddr_lt, ofLeBytes_leBytes hlen_lt,
    ofLeBytes_leBytes hkey_lt]
  simp

/-- A host decodes the descriptor of a region that was registered. -/
theorem mrRemoteFromDescriptor_of_descriptor (hnf : world.NoFaults) (halloc : world.Allocates)
    (host : Endian) {mr : MrLocal} {descSize : Nat} (husage : usageAccepted mr.usage = true)
    (hbytes : bytesAt mem desc mrDescSize = mr.descriptor) (hsize : mrDescSize ≤ descSize)
    (log : DataLog) :
    ((mrRemoteFromDescriptor host mem (some desc) descSize true).run world log).1 =
      .ok mr.asRemote := by
  obtain ⟨hpos, hlt⟩ := usage_lt_of_accepted husage
  have hdesc := describedAt_of_descriptor hlt hbytes
  have hne : mem (desc + 20) ≠ 0 := by
    intro h0
    have hu : BitVec.ofNat 32 (mem (desc + 20)).toNat = mr.usage := congrArg MrRemote.usage hdesc
    rw [← hu, h0] at hpos
    exact absurd hpos (by decide)
  rw [mrRemoteFromDescriptor_run hnf halloc, if_neg (not_or.mpr ⟨by omega, hne⟩), hdesc]

/-- **Encoding undoes decoding.** -/
theorem descriptor_of_describedAt {mr : MrLocal} (h : mr.asRemote = describedAt mem desc) :
    mr.descriptor = bytesAt mem desc mrDescSize := by
  obtain ⟨haddr, hlen, hkey, husage⟩ := MrRemote.mk.inj h
  have haddr_lt : ofLeBytes (bytesAt mem desc 8) < 2 ^ 64 := by
    simpa using ofLeBytes_lt (bytesAt mem desc 8)
  have hlen_lt : ofLeBytes (bytesAt mem (desc + 8) 8) < 2 ^ 64 := by
    simpa using ofLeBytes_lt (bytesAt mem (desc + 8) 8)
  have hkey_lt : ofLeBytes (bytesAt mem (desc + 16) 4) < 2 ^ 32 := by
    simpa using ofLeBytes_lt (bytesAt mem (desc + 16) 4)
  have h8 : ∀ src, leBytes 8 (ofLeBytes (bytesAt mem src 8)) = bytesAt mem src 8 := fun src => by
    simpa using leBytes_ofLeBytes (bytesAt mem src 8)
  have h4 : ∀ src, leBytes 4 (ofLeBytes (bytesAt mem src 4)) = bytesAt mem src 4 := fun src => by
    simpa using leBytes_ofLeBytes (bytesAt mem src 4)
  unfold MrLocal.descriptor descriptor
  rw [haddr, hlen, hkey, husage, UInt64.toNat_ofNat', UInt64.toNat_ofNat', UInt32.toNat_ofNat',
    Nat.mod_eq_of_lt haddr_lt, Nat.mod_eq_of_lt hlen_lt, Nat.mod_eq_of_lt hkey_lt, h8, h8, h4,
    bytesAt_fields]
  simp

/-- **Descriptors exchanged between hosts of any byte orders.** -/
theorem descriptor_exchange (hnf : world.NoFaults) (halloc : world.Allocates) (log : DataLog) :
    -- what `host` writes at `desc`, copied to `desc'` of `host'` and followed by anything
    (∀ (host host' : Endian) (mr : MrLocal) (mem mem' : Bytes) (desc desc' descSize : Nat),
      usageAccepted mr.usage = true → mrDescSize ≤ descSize →
      (∀ i < mrDescSize, mem' (desc' + i) =
        ((mrGetDescriptor host mem (some mr) (some desc)).run world log).1.2 (desc + i)) →
      ((mrRemoteFromDescriptor host' mem' (some desc') descSize true).run world log).1 =
        .ok mr.asRemote) ∧
    -- what is accepted
    (∀ (host : Endian) (mem : Bytes) (desc descSize : Nat),
      (∃ mr, ((mrRemoteFromDescriptor host mem (some desc) descSize true).run world log).1 =
        .ok mr) ↔ mrDescSize ≤ descSize ∧ mem (desc + 20) ≠ 0) ∧
    -- encoding again what was decoded
    (∀ (host host' : Endian) (mem mem' : Bytes) (desc desc' descSize : Nat) (mr : MrLocal),
      ((mrRemoteFromDescriptor host mem (some desc) descSize true).run world log).1 =
        .ok mr.asRemote → ∀ i < mrDescSize,
      ((mrGetDescriptor host' mem' (some mr) (some desc')).run world log).1.2 (desc' + i) =
        mem (desc + i)) ∧
    -- nothing else is written
    ∀ (host : Endian) (mem : Bytes) (mr : MrLocal) (desc a : Nat),
      a < desc ∨ desc + mrDescSize ≤ a →
      ((mrGetDescriptor host mem (some mr) (some desc)).run world log).1.2 a = mem a := by
  refine ⟨?_, ?_, ?_, ?_⟩
  · intro host host' mr mem mem' desc desc' descSize husage hsize hcopy
    refine mrRemoteFromDescriptor_of_descriptor hnf halloc host' husage ?_ hsize log
    rw [bytesAt_congr hcopy, mrGetDescriptor_run hnf]
    exact length_descriptor .. ▸ bytesAt_blit mem desc mr.descriptor
  · intro host mem desc descSize
    rw [mrRemoteFromDescriptor_run hnf halloc, ← Nat.not_lt, ← not_or]
    split
    · rename_i h
      simp [h]
    · rename_i h
      simp [h]
  · intro host host' mem mem' desc desc' descSize mr hdec i hi
    rw [mrRemoteFromDescriptor_run hnf halloc] at hdec
    split at hdec
    · cases hdec
    · have hmr := descriptor_of_describedAt (Except.ok.inj hdec).symm
      have hlen : i < mr.descriptor.length := by rwa [hmr, length_bytesAt]
      rw [mrGetDescriptor_run hnf]
      refine (blit_inside mem' hlen).trans ?_
      simp [hmr, bytesAt]
  · intro host mem mr desc a ha
    rw [mrGetDescriptor_run hnf]
    exact blit_outside mem (by rwa [MrLocal.descriptor, length_descriptor])

end Descriptor

/-- A world in which every call succeeds. -/
def calmWorld : DataWorld := fun _ c =>
  match c with
  | .faultInjection => false
  | .malloc => true
  | .free => ()
  | .mmap _ => some 4096
  | .ibvRegMr _ _ _ => .ok (7, 9)
  | .sysconfPagesize => (4096 : Int)
  | .munmap _ _ | .ibvDeregMr _ | .ibvPostSend _ _ | .ibvPostRecv _ _ | .ibvAdviseMr _ _ _ _ =>
    (0 : Int)

theorem calmWorld_noFaults : calmWorld.NoFaults := fun _ => rfl

theorem calmWorld_allocates : calmWorld.Allocates := fun _ => rfl

/-- A region of 4 GiB and one byte, encoded by a big-endian host and decoded by a little-endian
one. -/
theorem descriptor_exchange_mixed :
    let mr : MrLocal := ⟨⟨0x1122334455667788, 0x100000001, 7, 0xdeadbeef⟩, 0xff⟩
    let mem := ((mrGetDescriptor .big (fun _ => 0) (some mr) (some 3)).run calmWorld []).1.2
    bytesAt mem 3 mrDescSize = [0x88, 0x77, 0x66, 0x55, 0x44, 0x33, 0x22, 0x11, 1, 0, 0, 0, 1, 0, 0,
      0, 0xef, 0xbe, 0xad, 0xde, 0xff] ∧
    ((mrRemoteFromDescriptor .little mem (some 3) 64 true).run calmWorld []).1 =
      .ok ⟨0x1122334455667788, 0x100000001, 0xdeadbeef, 0xff⟩ := by
  refine ⟨by decide +kernel, ?_⟩
  exact (descriptor_exchange calmWorld_noFaults calmWorld_allocates []).1 .big .little
    ⟨⟨0x1122334455667788, 0x100000001, 7, 0xdeadbeef⟩, 0xff⟩ (fun _ => 0) _ 3 3 64 (by decide)
    (by decide) fun _ _ => rfl

end Rpma.Librpma.Data
