import Rpma.Librpma.Mr

/-!
# Posting work requests: the data path of `conn.c`, `conn_req.c` and `mr.c`

`rpma_read`, `rpma_write`, `rpma_send`, `rpma_recv` and their variants check their arguments and
hand them to a function of `mr.c`, which fills in a work request and posts it. All of them take the
length as a `size_t` and put it into the 32 bits of `sge.length`.

`Request` is a call of one of the eight entry points and `Request.prog` the code it runs.
`Request.transfer` says what the caller asked for, in its own terms: a number of bytes is a natural
number there. `transferOf` reads a posted work request the same way.

* `request_posts`: a call that returns 0 has posted exactly one request, `Request.posted`.
* **`request_exact_iff`**: it is the transfer asked for iff the length is below 4 GiB, unless the
  call is refused.
-/

namespace Rpma.Librpma.Data

open Rpma.Lib

def rpmaENosupp : Int := -100001

/-! ## `mr.c` -/

def completionOnError : BitVec 32 := 1 <<< 0
def completionAlways : BitVec 32 := 1 <<< 1 ||| completionOnError

/-- `flags & RPMA_F_COMPLETION_ON_SUCCESS`. -/
def completionOnSuccess (flags : BitVec 32) : Bool :=
  flags &&& (completionAlways &&& ~~~completionOnError) != 0

/-- The element of a transfer from or to a local region: the length is cut to 32 bits. -/
def sgeOf (mr : MrLocal) (offset len : UInt64) : Sge :=
  ⟨mr.ibvMr.addr + offset, len.toUInt32, mr.ibvMr.lkey⟩

/-- `ibv_post_send`, a failure of which is reported as `RPMA_E_PROVIDER`. -/
def postSend (qp : Nat) (wr : SendWr) : D Int := do
  let ret ← issue (.ibvPostSend qp wr)
  return if ret ≠ (0 : Int) then rpmaEProvider else 0

/-- `rpma_mr_read`; the callers pass both regions or none. -/
def mrRead (qp : Nat) (dst : Option MrLocal) (dstOffset : UInt64) (src : Option MrRemote)
    (srcOffset len : UInt64) (flags : BitVec 32) (opContext : UInt64) : D Int :=
  let (rdma, sgList) : (UInt64 × UInt32) × List Sge := match src, dst with
    | some src, some dst => ((src.raddr + srcOffset, src.rkey), [sgeOf dst dstOffset len])
    | _, _ => ((0, 0), [])
  faultInjection (pure rpmaEProvider) <|
    postSend qp ⟨opContext, sgList, .rdmaRead, completionOnSuccess flags, none, some rdma⟩

/-- `rpma_mr_write`; the callers pass both regions or none. -/
def mrWrite (host : Endian) (qp : Nat) (dst : Option MrRemote) (dstOffset : UInt64)
    (src : Option MrLocal) (srcOffset len : UInt64) (flags : BitVec 32) (operation : Opcode)
    (imm : UInt32) (opContext : UInt64) : D Int :=
  let (rdma, sgList) : (UInt64 × UInt32) × List Sge := match src, dst with
    | some src, some dst => ((dst.raddr + dstOffset, dst.rkey), [sgeOf src srcOffset len])
    | _, _ => ((0, 0), [])
  let post (immData : Option UInt32) : D Int :=
    faultInjection (pure rpmaENosupp) <| faultInjection (pure rpmaEProvider) <|
      postSend qp ⟨opContext, sgList, operation, completionOnSuccess flags, immData, some rdma⟩
  match operation with
  | .rdmaWrite => post none
  | .rdmaWriteWithImm => post (some (UInt32.ofNat (host.htobe 4 imm.toNat)))
  | _ => return rpmaENosupp

/-- `rpma_mr_send`. -/
def mrSend (host : Endian) (qp : Nat) (src : Option MrLocal) (offset len : UInt64)
    (flags : BitVec 32) (operation : Opcode) (imm : UInt32) (opContext : UInt64) : D Int :=
  let sgList := match src with
    | some src => [sgeOf src offset len]
    | none => []
  let post (immData : Option UInt32) : D Int :=
    faultInjection (pure rpmaENosupp) <| faultInjection (pure rpmaEProvider) <|
      postSend qp ⟨opContext, sgList, operation, completionOnSuccess flags, immData, none⟩
  match operation with
  | .send => post none
  | .sendWithImm => post (some (UInt32.ofNat (host.htobe 4 imm.toNat)))
  | _ => return rpmaENosupp

/-- `rpma_mr_recv`. -/
def mrRecv (qp : Nat) (dst : Option MrLocal) (offset len opContext : UInt64) : D Int :=
  let sgList := match dst with
    | some dst => [sgeOf dst offset len]
    | none => []
  faultInjection (pure rpmaEProvider) do
    let ret ← issue (.ibvPostRecv qp ⟨opContext, sgList⟩)
    return if ret ≠ (0 : Int) then rpmaEProvider else 0

/-- The error of a failed `ibv_advise_mr`, from the `errno` values of Linux: `EOPNOTSUPP` (which
`ENOTSUP` is another name of), `EFAULT` and `EINVAL`. -/
def adviseError (ret : Int) : Int :=
  if ret = 95 then rpmaENosupp
  else if ret = 14 ∨ ret = 22 then rpmaEInval
  else rpmaEProvider

/-- `rpma_mr_advise`; `supported` is `IBV_ADVISE_MR_SUPPORTED`. -/
def mrAdvise (supported : Bool) (mr : MrLocal) (offset len : UInt64) (advice : Int)
    (flags : UInt32) : D Int :=
  faultInjection (pure rpmaEProvider) <|
    if supported = true then do
      let ret ← issue (.ibvAdviseMr mr.ibvMr advice flags [sgeOf mr offset len])
      return if ret ≠ (0 : Int) then adviseError ret else 0
    else return rpmaENosupp

/-! ## `conn.c` and `conn_req.c` -/

/-- `(src == NULL || dst == NULL) && (src != NULL || dst != NULL || dst_offset != 0 ||
src_offset != 0 || len != 0)`. -/
def regionsInvalid {α β : Type} (dst : Option α) (dstOffset : UInt64) (src : Option β)
    (srcOffset len : UInt64) : Bool :=
  (src.isNone || dst.isNone) &&
    (src.isSome || dst.isSome || dstOffset != 0 || srcOffset != 0 || len != 0)

/-- `src == NULL && (offset != 0 || len != 0)`. -/
def regionInvalid (mr : Option MrLocal) (offset len : UInt64) : Bool :=
  mr.isNone && (offset != 0 || len != 0)

/-- The check of the arguments: leave with `RPMA_E_INVAL`, or go on with the QP. -/
def checked (conn : Option Nat) (invalid : Bool) (rest : Nat → D Int) : D Int :=
  faultInjection (pure rpmaEInval) <|
    match conn, invalid with
    | some qp, false => rest qp
    | _, _ => return rpmaEInval

/-- `rpma_read`; a connection is the QP it posts to. -/
def rpmaRead (conn : Option Nat) (dst : Option MrLocal) (dstOffset : UInt64)
    (src : Option MrRemote) (srcOffset len : UInt64) (flags : BitVec 32) (opContext : UInt64) :
    D Int :=
  checked conn (flags == 0 || regionsInvalid dst dstOffset src srcOffset len) fun qp =>
    mrRead qp dst dstOffset src srcOffset len flags opContext

/-- `rpma_write`. -/
def rpmaWrite (host : Endian) (conn : Option Nat) (dst : Option MrRemote) (dstOffset : UInt64)
    (src : Option MrLocal) (srcOffset len : UInt64) (flags : BitVec 32) (opContext : UInt64) :
    D Int :=
  checked conn (flags == 0 || regionsInvalid dst dstOffset src srcOffset len) fun qp =>
    mrWrite host qp dst dstOffset src srcOffset len flags .rdmaWrite 0 opContext

/-- `rpma_write_with_imm`. -/
def rpmaWriteWithImm (host : Endian) (conn : Option Nat) (dst : Option MrRemote)
    (dstOffset : UInt64) (src : Option MrLocal) (srcOffset len : UInt64) (flags : BitVec 32)
    (imm : UInt32) (opContext : UInt64) : D Int :=
  checked conn (flags == 0 || regionsInvalid dst dstOffset src srcOffset len) fun qp =>
    mrWrite host qp dst dstOffset src srcOffset len flags .rdmaWriteWithImm imm opContext

/-- `rpma_send`. -/
def rpmaSend (host : Endian) (conn : Option Nat) (src : Option MrLocal) (offset len : UInt64)
    (flags : BitVec 32) (opContext : UInt64) : D Int :=
  checked conn (flags == 0 || regionInvalid src offset len) fun qp =>
    mrSend host qp src offset len flags .send 0 opContext

/-- `rpma_send_with_imm`. -/
def rpmaSendWithImm (host : Endian) (conn : Option Nat) (src : Option MrLocal)
    (offset len : UInt64) (flags : BitVec 32) (imm : UInt32) (opContext : UInt64) : D Int :=
  checked conn (flags == 0 || regionInvalid src offset len) fun qp =>
    mrSend host qp src offset len flags .sendWithImm imm opContext

/-- `rpma_recv`. -/
def rpmaRecv (conn : Option Nat) (dst : Option MrLocal) (offset len opContext : UInt64) : D Int :=
  checked conn (regionInvalid dst offset len) fun qp => mrRecv qp dst offset len opContext

/-- `rpma_conn_req_recv`, which has no form without a region. -/
def rpmaConnReqRecv (req : Option Nat) (dst : Option MrLocal) (offset len opContext : UInt64) :
    D Int :=
  checked req dst.isNone fun qp => mrRecv qp dst offset len opContext

/-! ## Calls and transfers -/

/-- A call of one of the entry points. -/
inductive Request where
  | read (conn : Option Nat) (dst : Option MrLocal) (dstOffset : UInt64) (src : Option MrRemote)
      (srcOffset len : UInt64) (flags : BitVec 32) (opContext : UInt64)
  | write (conn : Option Nat) (dst : Option MrRemote) (dstOffset : UInt64) (src : Option MrLocal)
      (srcOffset len : UInt64) (flags : BitVec 32) (opContext : UInt64)
  | writeWithImm (conn : Option Nat) (dst : Option MrRemote) (dstOffset : UInt64)
      (src : Option MrLocal) (srcOffset len : UInt64) (flags : BitVec 32) (imm : UInt32)
      (opContext : UInt64)
  | send (conn : Option Nat) (src : Option MrLocal) (offset len : UInt64) (flags : BitVec 32)
      (opContext : UInt64)
  | sendWithImm (conn : Option Nat) (src : Option MrLocal) (offset len : UInt64)
      (flags : BitVec 32) (imm : UInt32) (opContext : UInt64)
  | recv (conn : Option Nat) (dst : Option MrLocal) (offset len opContext : UInt64)
  | connReqRecv (req : Option Nat) (dst : Option MrLocal) (offset len opContext : UInt64)
  | advise (mr : MrLocal) (offset len : UInt64) (advice : Int) (flags : UInt32)

/-- The code of a call, on a host and in a build. -/
def Request.prog (host : Endian) (supported : Bool) : Request → D Int
  | .read conn dst dstOffset src srcOffset len flags opContext =>
    rpmaRead conn dst dstOffset src srcOffset len flags opContext
  | .write conn dst dstOffset src srcOffset len flags opContext =>
    rpmaWrite host conn dst dstOffset src srcOffset len flags opContext
  | .writeWithImm conn dst dstOffset src srcOffset len flags imm opContext =>
    rpmaWriteWithImm host conn dst dstOffset src srcOffset len flags imm opContext
  | .send conn src offset len flags opContext => rpmaSend host conn src offset len flags opContext
  | .sendWithImm conn src offset len flags imm opContext =>
    rpmaSendWithImm host conn src offset len flags imm opContext
  | .recv conn dst offset len opContext => rpmaRecv conn dst offset len opContext
  | .connReqRecv req dst offset len opContext => rpmaConnReqRecv req dst offset len opContext
  | .advise mr offset len advice flags => mrAdvise supported mr offset len advice flags

/-- The arguments are refused, or the build cannot do it. -/
def Request.refused (supported : Bool) : Request → Bool
  | .read conn dst dstOffset src srcOffset len flags _ =>
    conn.isNone || (flags == 0 || regionsInvalid dst dstOffset src srcOffset len)
  | .write conn dst dstOffset src srcOffset len flags _
  | .writeWithImm conn dst dstOffset src srcOffset len flags _ _ =>
    conn.isNone || (flags == 0 || regionsInvalid dst dstOffset src srcOffset len)
  | .send conn src offset len flags _ | .sendWithImm conn src offset len flags _ _ =>
    conn.isNone || (flags == 0 || regionInvalid src offset len)
  | .recv conn dst offset len _ => conn.isNone || regionInvalid dst offset len
  | .connReqRecv req dst _ _ _ => req.isNone || dst.isNone
  | .advise _ _ _ _ _ => !supported

/-- The length asked for. -/
def Request.len : Request → UInt64
  | .read _ _ _ _ _ len _ _ | .write _ _ _ _ _ len _ _ | .writeWithImm _ _ _ _ _ len _ _ _
  | .send _ _ _ len _ _ | .sendWithImm _ _ _ len _ _ _ | .recv _ _ _ len _
  | .connReqRecv _ _ _ len _ | .advise _ _ len _ _ => len

/-- What a request asks of the provider. -/
inductive Action where
  | post (opcode : Opcode)
  | recv
  | advise (advice : Int) (flags : UInt32)
  deriving DecidableEq, Repr

/-- A transfer: what it does on which QP, for whom it completes, the local bytes as address, number
and key, the remote address and key, and the immediate value as it goes over the wire. A transfer
of nothing has neither local nor remote bytes. -/
structure Transfer where
  action : Action
  qp : Option Nat
  wrId : Option UInt64
  bytes : List (UInt64 × Nat × UInt32)
  remote : Option (UInt64 × UInt32)
  imm : Option (List UInt8)
  deriving DecidableEq, Repr

/-- The bytes of a local region that a call names. -/
def localBytes (mr : Option MrLocal) (offset len : UInt64) : List (UInt64 × Nat × UInt32) :=
  mr.toList.map fun mr => (mr.ibvMr.addr + offset, len.toNat, mr.ibvMr.lkey)

/-- The place in a remote region that a call names. -/
def remotePlace (mr : Option MrRemote) (offset : UInt64) : Option (UInt64 × UInt32) :=
  mr.map fun mr => (mr.raddr + offset, mr.rkey)

/-- An immediate value in network byte order. -/
def wireImm (imm : UInt32) : List UInt8 := (leBytes 4 imm.toNat).reverse

/-- The transfer a call asks for. -/
def Request.transfer : Request → Transfer
  | .read conn dst dstOffset src srcOffset len _ opContext =>
    ⟨.post .rdmaRead, conn, some opContext, localBytes dst dstOffset len,
      remotePlace src srcOffset, none⟩
  | .write conn dst dstOffset src srcOffset len _ opContext =>
    ⟨.post .rdmaWrite, conn, some opContext, localBytes src srcOffset len,
      remotePlace dst dstOffset, none⟩
  | .writeWithImm conn dst dstOffset src srcOffset len _ imm opContext =>
    ⟨.post .rdmaWriteWithImm, conn, some opContext, localBytes src srcOffset len,
      remotePlace dst dstOffset, some (wireImm imm)⟩
  | .send conn src offset len _ opContext =>
    ⟨.post .send, conn, some opContext, localBytes src offset len, none, none⟩
  | .sendWithImm conn src offset len _ imm opContext =>
    ⟨.post .sendWithImm, conn, some opContext, localBytes src offset len, none,
      some (wireImm imm)⟩
  | .recv conn dst offset len opContext | .connReqRecv conn dst offset len opContext =>
    ⟨.recv, conn, some opContext, localBytes dst offset len, none, none⟩
  | .advise mr offset len advice flags =>
    ⟨.advise advice flags, none, none, localBytes (some mr) offset len, none, none⟩

/-- The local bytes of a list of elements. -/
def sgBytes (sgList : List Sge) : List (UInt64 × Nat × UInt32) :=
  sgList.map fun sge => (sge.addr, sge.length.toNat, sge.lkey)

/-- The transfer that a call to the provider describes, if it is a request. -/
def transferOf (host : Endian) : DataCall → Option Transfer
  | .ibvPostSend qp wr => some ⟨.post wr.opcode, some qp, some wr.wrId, sgBytes wr.sgList,
      if wr.sgList = [] then none else wr.rdma, wr.immData.map fun imm => host.store 4 imm.toNat⟩
  | .ibvPostRecv qp wr => some ⟨.recv, some qp, some wr.wrId, sgBytes wr.sgList, none, none⟩
  | .ibvAdviseMr _ advice flags sgList =>
    some ⟨.advise advice flags, none, none, sgBytes sgList, none, none⟩
  | _ => none

/-- The transfers requested from the provider after `log`. -/
def transfersSince (host : Endian) (log log' : DataLog) : List Transfer :=
  (log'.drop log.length).filterMap fun e => transferOf host e.1

/-- The call returns 0 only with exactly the transfer asked for requested from the provider. -/
def Exact (host : Endian) (supported : Bool) (r : Request) (world : DataWorld) (log : DataLog) :
    Prop :=
  ((r.prog host supported).run world log).1 = 0 →
    transfersSince host log ((r.prog host supported).run world log).2 = [r.transfer]

/-! ## What a call posts -/

section Posts

variable {host : Endian} {supported : Bool} {m : D Int} {t : Transfer}

/-- A return of 0 means that exactly the transfer `t` was requested, and it does happen. -/
structure Posts (host : Endian) (m : D Int) (t : Transfer) : Prop where
  once : ∀ world log, (m.run world log).1 = 0 → transfersSince host log (m.run world log).2 = [t]
  calm : ∀ log, (m.run calmWorld log).1 = 0

/-- A call that requests nothing does not count. -/
theorem transfersSince_snoc {log log' : DataLog} {c : DataCall} {a : c.Ans}
    (hc : transferOf host c = none) (hpre : log ++ [⟨c, a⟩] <+: log') :
    transfersSince host log log' = transfersSince host (log ++ [⟨c, a⟩]) log' := by
  obtain ⟨rest, rfl⟩ := hpre
  simp [transfersSince, hc]

/-- A fault that makes the call fail. -/
theorem Posts.fault {onFault : D Int} (h : ∀ world log, (onFault.run world log).1 ≠ 0)
    (hm : Posts host m t) : Posts host (faultInjection onFault m) t := by
  refine ⟨fun world log hret => ?_, fun log => ?_⟩
  · unfold Data.faultInjection at hret ⊢
    simp only [Prog.run] at hret ⊢
    split at hret
    · exact absurd hret (h _ _)
    · rename_i hf
      rw [if_neg hf, transfersSince_snoc rfl (Prog.run_prefix _ _)]
      exact hm.once _ _ hret
  · rw [run_faultInjection calmWorld_noFaults]
    exact hm.calm _

theorem Posts.faultInjection {ret : Int} (h : ret ≠ 0) (hm : Posts host m t) :
    Posts host (faultInjection (pure ret) m) t := hm.fault fun _ _ => h

/-- The request itself: a fault may come before it, and only its result is looked at after it. -/
theorem posts_issue {c : DataCall} {f : c.Ans → Int} (hc : transferOf host c = some t)
    (hf : ∀ n, f (calmWorld n c) = 0) : Posts host
      (Data.faultInjection (pure rpmaEProvider) (issue c >>= fun ret => pure (f ret))) t := by
  refine Posts.faultInjection (by decide) ⟨fun world log _ => ?_, fun log => ?_⟩
  · simp only [issue, Prog.run_bind, Prog.run_issue, Prog.run_pure]
    simp [transfersSince, hc]
  · simp only [issue, Prog.run_bind, Prog.run_issue, Prog.run_pure]
    exact hf _

theorem posts_checked {conn : Option Nat} {qp : Nat} {invalid : Bool} {rest : Nat → D Int}
    (hconn : conn = some qp) (hvalid : invalid = false) (h : Posts host (rest qp) t) :
    Posts host (checked conn invalid rest) t := by
  subst hconn hvalid
  exact Posts.faultInjection (by decide) h

theorem faultInjection_ne {ret : Int} (h : ret ≠ 0) {world : DataWorld}
    (hm : ∀ log, (m.run world log).1 ≠ 0) (log : DataLog) :
    ((faultInjection (pure ret) m).run world log).1 ≠ 0 := by
  unfold Data.faultInjection
  simp only [Prog.run]
  split
  · exact h
  · exact hm _

theorem checked_refused {conn : Option Nat} {invalid : Bool} (rest : Nat → D Int)
    (h : (conn.isNone || invalid) = true) (world : DataWorld) (log : DataLog) :
    ((checked conn invalid rest).run world log).1 ≠ 0 := by
  refine faultInjection_ne (by decide) (fun log => ?_) log
  have hinval : rpmaEInval ≠ 0 := by decide
  match conn, invalid with
  | none, _ => exact hinval
  | some _, true => exact hinval
  | some _, false => cases h

/-- The transfer with the number of bytes cut to 32 bits. -/
def Transfer.cut (t : Transfer) : Transfer :=
  { t with bytes := t.bytes.map fun b => (b.1, b.2.1 % 2 ^ 32, b.2.2) }

theorem sgBytes_sgeOf (mr : MrLocal) (offset len : UInt64) : sgBytes [sgeOf mr offset len] =
    (localBytes (some mr) offset len).map fun b => (b.1, b.2.1 % 2 ^ 32, b.2.2) := by
  simp [sgBytes, sgeOf, localBytes]

theorem store_imm (host : Endian) (imm : UInt32) :
    host.store 4 (host.htobe 4 imm.toNat % 4294967296) = wireImm imm := by
  have hlt : host.htobe 4 imm.toNat < 4294967296 := by
    cases host with
    | little => exact Endian.swap_lt 4 imm.toNat
    | big => exact imm.toNat_lt
  rw [Nat.mod_eq_of_lt hlt, Endian.store_htobe, wireImm]

/-- The regions of a call that is not refused. -/
theorem regions_of_valid {α β : Type} {dst : Option α} {src : Option β}
    {dstOffset srcOffset len : UInt64}
    (h : regionsInvalid dst dstOffset src srcOffset len = false) :
    (∃ d s, dst = some d ∧ src = some s) ∨ (dst = none ∧ src = none ∧ len = 0) := by
  cases dst <;> cases src <;> simp_all [regionsInvalid]

variable {qp : Nat} {flags : BitVec 32} {imm : UInt32} {opContext offset len : UInt64}

theorem mrRead_posts {dst : Option MrLocal} {src : Option MrRemote} {dstOffset srcOffset : UInt64}
    (h : regionsInvalid dst dstOffset src srcOffset len = false) :
    Posts host (mrRead qp dst dstOffset src srcOffset len flags opContext)
      (Transfer.cut ⟨.post .rdmaRead, some qp, some opContext, localBytes dst dstOffset len,
        remotePlace src srcOffset, none⟩) := by
  obtain ⟨dst, src, rfl, rfl⟩ | ⟨rfl, rfl, -⟩ := regions_of_valid h
  · refine posts_issue ?_ fun _ => rfl
    simp [transferOf, Transfer.cut, sgBytes_sgeOf, remotePlace]
  · exact posts_issue rfl fun _ => rfl

theorem mrWrite_posts {dst : Option MrRemote} {src : Option MrLocal} {dstOffset srcOffset : UInt64}
    (h : regionsInvalid dst dstOffset src srcOffset len = false) :
    Posts host (mrWrite host qp dst dstOffset src srcOffset len flags .rdmaWrite 0 opContext)
      (Transfer.cut ⟨.post .rdmaWrite, some qp, some opContext, localBytes src srcOffset len,
        remotePlace dst dstOffset, none⟩) := by
  obtain ⟨dst, src, rfl, rfl⟩ | ⟨rfl, rfl, -⟩ := regions_of_valid h
  · refine Posts.faultInjection (by decide) (posts_issue ?_ fun _ => rfl)
    simp [transferOf, Transfer.cut, sgBytes_sgeOf, remotePlace]
  · exact Posts.faultInjection (by decide) (posts_issue rfl fun _ => rfl)

theorem mrWriteWithImm_posts {dst : Option MrRemote} {src : Option MrLocal}
    {dstOffset srcOffset : UInt64}
    (h : regionsInvalid dst dstOffset src srcOffset len = false) :
    Posts host
      (mrWrite host qp dst dstOffset src srcOffset len flags .rdmaWriteWithImm imm opContext)
      (Transfer.cut ⟨.post .rdmaWriteWithImm, some qp, some opContext,
        localBytes src srcOffset len, remotePlace dst dstOffset, some (wireImm imm)⟩) := by
  obtain ⟨dst, src, rfl, rfl⟩ | ⟨rfl, rfl, -⟩ := regions_of_valid h
  · refine Posts.faultInjection (by decide) (posts_issue ?_ fun _ => rfl)
    simp [transferOf, Transfer.cut, sgBytes_sgeOf, remotePlace, store_imm]
  · refine Posts.faultInjection (by decide) (posts_issue ?_ fun _ => rfl)
    simp [transferOf, Transfer.cut, sgBytes, localBytes, remotePlace, store_imm]

theorem mrSend_posts {src : Option MrLocal} :
    Posts host (mrSend host qp src offset len flags .send 0 opContext)
      (Transfer.cut ⟨.post .send, some qp, some opContext, localBytes src offset len, none,
        none⟩) := by
  refine Posts.faultInjection (by decide) (posts_issue ?_ fun _ => rfl)
  cases src with
  | none => rfl
  | some src => simp [transferOf, Transfer.cut, sgBytes_sgeOf]

theorem mrSendWithImm_posts {src : Option MrLocal} :
    Posts host (mrSend host qp src offset len flags .sendWithImm imm opContext)
      (Transfer.cut ⟨.post .sendWithImm, some qp, some opContext, localBytes src offset len, none,
        some (wireImm imm)⟩) := by
  refine Posts.faultInjection (by decide) (posts_issue ?_ fun _ => rfl)
  cases src with
  | none => simp [transferOf, Transfer.cut, sgBytes, localBytes, store_imm]
  | some src => simp [transferOf, Transfer.cut, sgBytes_sgeOf, store_imm]

theorem mrRecv_posts {dst : Option MrLocal} :
    Posts host (mrRecv qp dst offset len opContext)
      (Transfer.cut ⟨.recv, some qp, some opContext, localBytes dst offset len, none, none⟩) := by
  refine posts_issue ?_ fun _ => rfl
  cases dst with
  | none => rfl
  | some dst => simp [transferOf, Transfer.cut, sgBytes_sgeOf]

theorem mrAdvise_posts {mr : MrLocal} {advice : Int} {flags : UInt32} :
    Posts host (mrAdvise true mr offset len advice flags) (Transfer.cut
      ⟨.advise advice flags, none, none, localBytes (some mr) offset len, none, none⟩) := by
  refine posts_issue ?_ fun _ => rfl
  simp [transferOf, Transfer.cut, sgBytes_sgeOf]

theorem qp_of_not_refused {conn : Option Nat} {invalid : Bool}
    (h : (conn.isNone || invalid) = false) : (∃ qp, conn = some qp) ∧ invalid = false := by
  cases conn with
  | none => cases h
  | some qp => exact ⟨⟨qp, rfl⟩, h⟩

/-- **A call that returns 0 has requested the transfer asked for, cut to 32 bits.** -/
theorem request_posts {r : Request} (h : r.refused supported = false) :
    Posts host (r.prog host supported) r.transfer.cut := by
  cases r with
  | read conn dst dstOffset src srcOffset len flags opContext =>
    obtain ⟨⟨qp, rfl⟩, hvalid⟩ := qp_of_not_refused h
    exact posts_checked rfl hvalid (mrRead_posts (Bool.or_eq_false_iff.mp hvalid).2)
  | write conn dst dstOffset src srcOffset len flags opContext =>
    obtain ⟨⟨qp, rfl⟩, hvalid⟩ := qp_of_not_refused h
    exact posts_checked rfl hvalid (mrWrite_posts (Bool.or_eq_false_iff.mp hvalid).2)
  | writeWithImm conn dst dstOffset src srcOffset len flags imm opContext =>
    obtain ⟨⟨qp, rfl⟩, hvalid⟩ := qp_of_not_refused h
    exact posts_checked rfl hvalid (mrWriteWithImm_posts (Bool.or_eq_false_iff.mp hvalid).2)
  | send conn src offset len flags opContext =>
    obtain ⟨⟨qp, rfl⟩, hvalid⟩ := qp_of_not_refused h
    exact posts_checked rfl hvalid mrSend_posts
  | sendWithImm conn src offset len flags imm opContext =>
    obtain ⟨⟨qp, rfl⟩, hvalid⟩ := qp_of_not_refused h
    exact posts_checked rfl hvalid mrSendWithImm_posts
  | recv conn dst offset len opContext =>
    obtain ⟨⟨qp, rfl⟩, hvalid⟩ := qp_of_not_refused h
    exact posts_checked rfl hvalid mrRecv_posts
  | connReqRecv req dst offset len opContext =>
    obtain ⟨⟨qp, rfl⟩, hvalid⟩ := qp_of_not_refused h
    exact posts_checked rfl hvalid mrRecv_posts
  | advise mr offset len advice flags =>
    obtain rfl : supported = true := by simpa [Request.refused] using h
    exact mrAdvise_posts

/-- A call that is refused never returns 0. -/
theorem request_refused {r : Request} (h : r.refused supported = true) (world : DataWorld)
    (log : DataLog) : ((r.prog host supported).run world log).1 ≠ 0 := by
  cases r with
  | advise mr offset len advice flags =>
    obtain rfl : supported = false := by simpa [Request.refused] using h
    have hnosupp : rpmaENosupp ≠ 0 := by decide
    refine faultInjection_ne (by decide) (fun _ => ?_) log
    exact hnosupp
  | _ => exact checked_refused _ h world log

theorem cut_localBytes {mr : Option MrLocal} (h : mr = none → len = 0) :
    ((localBytes mr offset len).map fun b => (b.1, b.2.1 % 2 ^ 32, b.2.2)) =
      localBytes mr offset len ↔ len.toNat < 2 ^ 32 := by
  cases mr with
  | none => simp [localBytes, h rfl]
  | some mr => simp [localBytes]

theorem Transfer.cut_eq_iff {action : Action} {qp : Option Nat} {wrId : Option UInt64}
    {bytes : List (UInt64 × Nat × UInt32)} {remote : Option (UInt64 × UInt32)}
    {imm : Option (List UInt8)} :
    Transfer.cut ⟨action, qp, wrId, bytes, remote, imm⟩ = ⟨action, qp, wrId, bytes, remote, imm⟩ ↔
      (bytes.map fun b => (b.1, b.2.1 % 2 ^ 32, b.2.2)) = bytes := by
  simp [Transfer.cut]

theorem len_of_valid {mr : Option MrLocal} (h : regionInvalid mr offset len = false) :
    mr = none → len = 0 := by
  rintro rfl
  simp_all [regionInvalid]

theorem len_of_regions_valid {α β : Type} {dst : Option α} {src : Option β}
    {dstOffset srcOffset : UInt64}
    (h : regionsInvalid dst dstOffset src srcOffset len = false) :
    (dst = none → len = 0) ∧ (src = none → len = 0) := by
  obtain ⟨d, s, rfl, rfl⟩ | ⟨rfl, rfl, rfl⟩ := regions_of_valid h <;> simp

/-- Nothing is cut off below 4 GiB, and something is from there on. -/
theorem cut_transfer_iff {r : Request} (h : r.refused supported = false) :
    r.transfer.cut = r.transfer ↔ r.len.toNat < 2 ^ 32 := by
  cases r with
  | read conn dst dstOffset src srcOffset len flags opContext =>
    simp only [Request.refused, Bool.or_eq_false_iff] at h
    exact Transfer.cut_eq_iff.trans (cut_localBytes (len_of_regions_valid h.2.2).1)
  | write conn dst dstOffset src srcOffset len flags opContext =>
    simp only [Request.refused, Bool.or_eq_false_iff] at h
    exact Transfer.cut_eq_iff.trans (cut_localBytes (len_of_regions_valid h.2.2).2)
  | writeWithImm conn dst dstOffset src srcOffset len flags imm opContext =>
    simp only [Request.refused, Bool.or_eq_false_iff] at h
    exact Transfer.cut_eq_iff.trans (cut_localBytes (len_of_regions_valid h.2.2).2)
  | send conn src offset len flags opContext =>
    simp only [Request.refused, Bool.or_eq_false_iff] at h
    exact Transfer.cut_eq_iff.trans (cut_localBytes (len_of_valid h.2.2))
  | sendWithImm conn src offset len flags imm opContext =>
    simp only [Request.refused, Bool.or_eq_false_iff] at h
    exact Transfer.cut_eq_iff.trans (cut_localBytes (len_of_valid h.2.2))
  | recv conn dst offset len opContext =>
    simp only [Request.refused, Bool.or_eq_false_iff] at h
    exact Transfer.cut_eq_iff.trans (cut_localBytes (len_of_valid h.2))
  | connReqRecv req dst offset len opContext =>
    simp only [Request.refused, Bool.or_eq_false_iff] at h
    refine Transfer.cut_eq_iff.trans (cut_localBytes ?_)
    rintro rfl
    simp at h
  | advise mr offset len advice flags =>
    exact Transfer.cut_eq_iff.trans (cut_localBytes (by simp))

end Posts

/-- **What is requested is what was asked for, for lengths below 4 GiB and no others.** -/
theorem request_exact_iff (host : Endian) (supported : Bool) (r : Request) :
    (∀ world log, Exact host supported r world log) ↔
      r.len.toNat < 2 ^ 32 ∨ r.refused supported = true := by
  constructor
  · intro h
    by_contra hcon
    obtain ⟨hlen, haccepted⟩ := not_or.mp hcon
    rw [Bool.not_eq_true] at haccepted
    have hposts : Posts host (r.prog host supported) r.transfer.cut := request_posts haccepted
    have hexact := h calmWorld [] (hposts.calm [])
    rw [hposts.once _ _ (hposts.calm [])] at hexact
    exact hlen ((cut_transfer_iff haccepted).mp (List.singleton_inj.mp hexact))
  · intro h world log hret
    cases haccepted : r.refused supported with
    | true => exact absurd hret (request_refused haccepted world log)
    | false =>
      have hlen : r.len.toNat < 2 ^ 32 := h.resolve_right (by simp [haccepted])
      rw [(request_posts haccepted).once _ _ hret, (cut_transfer_iff haccepted).mpr hlen]

/-- Write the whole of a region of 4 GiB and one byte: one byte is sent, and the call returns 0. -/
def writeWholeRegion : Request :=
  .write (some 1) (some ⟨0x100000, 0x100000001, 9, 0xff⟩) 0
    (some ⟨⟨0x1000, 0x100000001, 7, 8⟩, 0xff⟩) 0 0x100000001 completionAlways 5

theorem write_cut_to_one_byte :
    let run := (writeWholeRegion.prog .little true).run calmWorld []
    run.1 = 0 ∧ (transfersSince .little [] run.2).map (·.bytes) = [[(0x1000, 1, 7)]] ∧
    writeWholeRegion.transfer.bytes = [(0x1000, 0x100000001, 7)] ∧
    ¬ Exact .little true writeWholeRegion calmWorld [] := by
  have hrun : ((writeWholeRegion.prog .little true).run calmWorld []).1 = 0 := by decide +kernel
  have hbytes : (transfersSince .little []
      ((writeWholeRegion.prog .little true).run calmWorld []).2).map (·.bytes) =
      [[(0x1000, 1, 7)]] := by decide +kernel
  refine ⟨hrun, hbytes, by decide, fun hexact => ?_⟩
  rw [hexact hrun] at hbytes
  exact absurd hbytes (by decide)

end Rpma.Librpma.Data
