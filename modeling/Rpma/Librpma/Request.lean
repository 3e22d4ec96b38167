import Rpma.Librpma.Objects

/-!
# Requests, connections and endpoints: `conn_req.c`, `conn.c`, `ep.c`, `private_data.c`

The life of a connection as the code runs it. On the active side `connReqNew` resolves an address
and builds a request, which `connReqDelete` or `connReqConnect` consumes; the latter turns it into
a connection, which `connDelete` destroys. On the passive side `epNextConnReq` builds the request
from an event.

Both sides share `connReqFromId`, which gives a CM ID its completion channel, CQs and QP, and
`connNew`, which gives it an event channel and a flushing object. Each `goto` chain of these
functions is a chain of definitions named after its labels.

The formatting of GIDs for the log, and the fault injection points that change no value a caller
sees (in `rpma_conn_cfg_get_cq_size` and `rpma_snprintf_gid`), are left out.
-/

namespace Rpma.Librpma

open Rpma.Lib Rpma.Lib.Ledger

/-! ## Configuration (`conn_cfg.c`) -/

/-- `struct rpma_conn_cfg`, the sizes of the QP aside. -/
structure Cfg where
  timeoutMs : Int
  cqSize : UInt32
  rcqSize : UInt32
  sharedCompChannel : Bool

/-- `rpma_conn_cfg_default`. -/
def connCfgDefault : Cfg := ⟨1000, 10, 0, false⟩

/-- `CLIP_TO_INT`. -/
def clipToInt (size : UInt32) : Int :=
  if size.toNat > 2147483647 then 2147483647 else size.toNat

/-- `rpma_conn_cfg_get_cqe`. -/
def connCfgGetCqe (cfg : Cfg) : Int := clipToInt cfg.cqSize

/-- `rpma_conn_cfg_get_rcqe`. -/
def connCfgGetRcqe (cfg : Cfg) : Int := clipToInt cfg.rcqSize

/-- `rpma_conn_cfg_get_compl_channel` into a variable that is `false`; the callers ignore the
result. -/
def connCfgGetComplChannel (cfg : Cfg) : P Bool :=
  faultInjection (pure false) (pure cfg.sharedCompChannel)

/-- `rpma_conn_cfg_get_timeout` into a variable that is 0; the callers ignore the result. -/
def connCfgGetTimeout (cfg : Cfg) : P Int :=
  faultInjection (pure 0) (pure cfg.timeoutMs)

/-! ## Private data (`private_data.c`) -/

/-- `struct rpma_conn_private_data`: a heap copy and its bytes. -/
structure PrivateData where
  ptr : Option Nat
  bytes : List UInt8
  deriving DecidableEq, Repr

/-- `{NULL, 0}`. -/
def PrivateData.empty : PrivateData := ⟨none, []⟩

/-- `rpma_private_data_store`. -/
def privateDataStore (edata : CmEvent) (pdata : PrivateData) : P (Except Int PrivateData) :=
  faultInjection (pure (.error rpmaENomem)) do
    match edata.privateData with
    | none | some [] => return .ok pdata
    | some bytes =>
      match ← create (.malloc .privateData) with
      | none => return .error rpmaENomem
      | some ptr => return .ok ⟨some ptr, bytes⟩

/-- `rpma_private_data_discard`. -/
def privateDataDiscard (pdata : PrivateData) : P PrivateData := do
  exec (.free pdata.ptr)
  return .empty

/-! ## Building a request from a CM ID (`conn_req.c`) -/

/-- `struct rpma_conn_req`; `qp` is `id->qp`. -/
structure Req where
  ptr : Nat
  isPassive : Bool
  id : Nat
  qp : Nat
  cq : Cq
  rcq : Option Cq
  channel : Option Nat
  data : PrivateData
  peer : Peer

/-- `rpma_peer_create_qp`. -/
def peerCreateQp (id : Nat) (cq : Cq) (rcq : Option Cq) : P (Except Int Nat) :=
  faultInjection (pure (.error rpmaEProvider)) do
    match ← create (.rdmaCreateQp id cq.cq (rcq.getD cq).cq) with
    | none => return .error rpmaEProvider
    | some qp => return .ok qp

/-- `if (channel) (void) ibv_destroy_comp_channel(channel)`. -/
def destroyCompChannel (channel : Option Nat) : P Unit :=
  match channel with
  | some channel => exec (.ibvDestroyCompChannel channel)
  | none => pure ()

/-- `err_comp_channel_destroy` of `rpma_conn_req_from_id`. -/
def fromIdErrCompChannelDestroy (channel : Option Nat) (ret : Int) : P (Except Int Req) := do
  destroyCompChannel channel
  return .error ret

/-- `err_rpma_cq_delete`. -/
def fromIdErrCqDelete (channel : Option Nat) (cq : Cq) (ret : Int) : P (Except Int Req) := do
  let _ ← cqDelete (some cq)
  fromIdErrCompChannelDestroy channel ret

/-- `err_rpma_rcq_delete`. -/
def fromIdErrRcqDelete (channel : Option Nat) (cq : Cq) (rcq : Option Cq) (ret : Int) :
    P (Except Int Req) := do
  let _ ← cqDelete rcq
  fromIdErrCqDelete channel cq ret

/-- `rpma_conn_req_from_id` from the creation of the QP on; `err_destroy_qp` is its only label. -/
def fromIdQp (peer : Peer) (id : Nat) (channel : Option Nat) (cq : Cq) (rcq : Option Cq) :
    P (Except Int Req) := do
  match ← peerCreateQp id cq rcq with
  | .error ret => fromIdErrRcqDelete channel cq rcq ret
  | .ok qp =>
    match ← create (.malloc .req) with
    | none =>
      exec (.rdmaDestroyQp id qp)
      fromIdErrRcqDelete channel cq rcq rpmaENomem
    | some ptr => return .ok ⟨ptr, false, id, qp, cq, rcq, channel, .empty, peer⟩

/-- `rpma_conn_req_from_id` from the creation of the CQs on. -/
def fromIdCqs (peer : Peer) (id : Nat) (cfg : Cfg) (channel : Option Nat) : P (Except Int Req) := do
  match ← cqNew (connCfgGetCqe cfg) channel with
  | .error ret => fromIdErrCompChannelDestroy channel ret
  | .ok cq =>
    if connCfgGetRcqe cfg ≠ 0 then
      match ← cqNew (connCfgGetRcqe cfg) channel with
      | .error ret => fromIdErrCqDelete channel cq ret
      | .ok rcq => fromIdQp peer id channel cq (some rcq)
    else fromIdQp peer id channel cq none

/-- `rpma_conn_req_from_id`. -/
def connReqFromId (peer : Peer) (id : Nat) (cfg : Cfg) : P (Except Int Req) :=
  faultInjection (pure (.error rpmaEProvider)) do
    let shared ← connCfgGetComplChannel cfg
    if shared then
      match ← create .ibvCreateCompChannel with
      | none => return .error rpmaEProvider
      | some channel => fromIdCqs peer id cfg (some channel)
    else fromIdCqs peer id cfg none

/-! ## Deleting a request -/

/-- `rpma_conn_req_reject`. -/
def connReqReject (req : Req) : P Int := do
  if ← check (.rdmaReject req.id) then faultInjection (pure rpmaEProvider) (pure 0)
  else return rpmaEProvider

/-- `rpma_conn_req_destroy`. -/
def connReqDestroy (req : Req) : P Int := do
  if ← check (.rdmaDestroyId req.id) then faultInjection (pure rpmaEProvider) (pure 0)
  else return rpmaEProvider

/-- `if (!ret && ret2) ret = ret2`. -/
def firstError (ret ret2 : Int) : Int := if ret = 0 ∧ ret2 ≠ 0 then ret2 else ret

/-- Destroy the shared completion channel and report a failure. -/
def checkDestroyCompChannel (channel : Option Nat) : P Int :=
  match channel with
  | none => pure 0
  | some channel => do
    if ← check (.ibvDestroyCompChannel channel) then return 0 else return rpmaEProvider

/-- `if (req->is_passive) ... else ...` of `rpma_conn_req_delete`. -/
def rejectOrDestroy (req : Req) : P Int :=
  if req.isPassive then connReqReject req else connReqDestroy req

/-- `rpma_conn_req_delete`. -/
def connReqDelete (req : Req) : P Int := do
  exec (.rdmaDestroyQp req.id req.qp)
  let ret ← cqDelete req.rcq
  let ret2 ← cqDelete (some req.cq)
  let ret := firstError ret ret2
  let ret2 ← rejectOrDestroy req
  let ret := firstError ret ret2
  let ret2 ← checkDestroyCompChannel req.channel
  let ret := firstError ret ret2
  let _ ← privateDataDiscard req.data
  exec (.free (some req.ptr))
  faultInjection (pure rpmaEProvider) (pure ret)

/-! ## Connections (`conn.c`) -/

/-- `struct rpma_conn`; `qp` is `id->qp`. -/
structure Conn where
  ptr : Nat
  id : Nat
  qp : Nat
  evch : Nat
  cq : Cq
  rcq : Option Cq
  channel : Option Nat
  data : PrivateData
  flush : Flush
  directWriteToPmem : Bool
  deriving DecidableEq, Repr

/-- `err_destroy_evch` of `rpma_conn_new`. -/
def connNewErrDestroyEvch (evch : Nat) (ret : Int) : P (Except Int Conn) := do
  exec (.rdmaDestroyEventChannel evch)
  return .error ret

/-- `err_migrate_id_NULL`. -/
def connNewErrMigrateIdNull (id evch : Nat) (ret : Int) : P (Except Int Conn) := do
  exec (.rdmaMigrateId id none)
  connNewErrDestroyEvch evch ret

/-- `rpma_conn_new`; `err_flush_delete` is the label of its last branch. -/
def connNew (req : Req) : P (Except Int Conn) :=
  faultInjection (pure (.error rpmaEProvider)) do
    match ← create .rdmaCreateEventChannel with
    | none => return .error rpmaEProvider
    | some evch =>
      faultInjection (connNewErrDestroyEvch evch rpmaEProvider) do
        if ← check (.rdmaMigrateId req.id (some evch)) then
          match ← flushNew req.peer with
          | .error ret => connNewErrMigrateIdNull req.id evch ret
          | .ok flush =>
            match ← create (.malloc .conn) with
            | none =>
              let _ ← flushDelete flush
              connNewErrMigrateIdNull req.id evch rpmaENomem
            | some ptr => return .ok ⟨ptr, req.id, req.qp, evch, req.cq, req.rcq, req.channel,
                .empty, flush, false⟩
        else connNewErrDestroyEvch evch rpmaEProvider

/-- The end of `rpma_conn_delete`, reached with 0 or through `err_destroy_event_channel`. -/
def connDeleteEventChannel (conn : Conn) (ret : Int) : P Int := do
  exec (.rdmaDestroyEventChannel conn.evch)
  let _ ← privateDataDiscard conn.data
  exec (.free (some conn.ptr))
  return ret

/-- `err_destroy_comp_channel` of `rpma_conn_delete`. -/
def connDeleteErrCompChannel (conn : Conn) (ret : Int) : P Int := do
  destroyCompChannel conn.channel
  connDeleteEventChannel conn ret

/-- `err_destroy_id`. -/
def connDeleteErrDestroyId (conn : Conn) (ret : Int) : P Int := do
  exec (.rdmaDestroyId conn.id)
  connDeleteErrCompChannel conn ret

/-- `err_rpma_cq_delete`. -/
def connDeleteErrCqDelete (conn : Conn) (ret : Int) : P Int := do
  let _ ← cqDelete (some conn.cq)
  connDeleteErrDestroyId conn ret

/-- `err_destroy_qp`. -/
def connDeleteErrDestroyQp (conn : Conn) (ret : Int) : P Int := do
  exec (.rdmaDestroyQp conn.id conn.qp)
  let _ ← cqDelete conn.rcq
  connDeleteErrCqDelete conn ret

/-- `rpma_conn_delete` from the shared completion channel on. -/
def connDeleteCompChannel (conn : Conn) : P Int :=
  match conn.channel with
  | none => connDeleteEventChannel conn 0
  | some channel => do
    if ← check (.ibvDestroyCompChannel channel) then
      faultInjection (connDeleteEventChannel conn rpmaEProvider) (connDeleteEventChannel conn 0)
    else connDeleteEventChannel conn rpmaEProvider

/-- `rpma_conn_delete`. -/
def connDelete (conn : Conn) : P Int := do
  let ret ← flushDelete conn.flush
  if ret ≠ 0 then connDeleteErrDestroyQp conn ret
  else
    exec (.rdmaDestroyQp conn.id conn.qp)
    let ret ← cqDelete conn.rcq
    if ret ≠ 0 then connDeleteErrCqDelete conn ret
    else
      let ret ← cqDelete (some conn.cq)
      if ret ≠ 0 then connDeleteErrDestroyId conn ret
      else if ← check (.rdmaDestroyId conn.id) then
        faultInjection (connDeleteErrCompChannel conn rpmaEProvider) (connDeleteCompChannel conn)
      else connDeleteErrCompChannel conn rpmaEProvider

/-- `rpma_conn_transfer_private_data`: the connection takes over the copy. -/
def connTransferPrivateData (conn : Conn) (pdata : PrivateData) : Conn × PrivateData :=
  ({ conn with data := pdata }, .empty)

/-- `enum rpma_conn_event`. -/
inductive ConnEvent where
  | established | closed | lost | rejected | unreachable
  deriving DecidableEq, Repr

/-- `err_private_data_discard` of `rpma_conn_next_event`. -/
def nextEventErrDiscard (conn : Conn) (ret : Int) : P (Int × Conn × Option ConnEvent) := do
  let data ← privateDataDiscard conn.data
  return (ret, { conn with data := data }, none)

/-- The `switch` of `rpma_conn_next_event`: the value of `*event`, if it is set. -/
def connEventOf : CmEventType → Option ConnEvent
  | .established => some .established
  | .connectError | .deviceRemoval => some .lost
  | .disconnected | .timewaitExit => some .closed
  | .rejected => some .rejected
  | .unreachable => some .unreachable
  | .connectRequest | .other => none

/-- `rpma_conn_next_event` from the acknowledgement on. -/
def nextEventAck (conn : Conn) (event : Nat) (edata : CmEvent) :
    P (Int × Conn × Option ConnEvent) := do
  if ← check (.rdmaAckCmEvent event) then
    faultInjection (nextEventErrDiscard conn rpmaEUnknown) <|
      match connEventOf edata.event with
      | some event => return (0, conn, some event)
      | none => return (rpmaEUnknown, conn, none)
  else nextEventErrDiscard conn rpmaEProvider

/-- `rpma_conn_next_event`: the result, the connection after it, and `*event` if it was set. -/
def connNextEvent (conn : Conn) : P (Int × Conn × Option ConnEvent) :=
  faultInjection (pure (rpmaEProvider, conn, none)) <|
  faultInjection (pure (rpmaENoEvent, conn, none)) do
    let a ← Prog.issue (.rdmaGetCmEvent conn.evch false)
    if a.ok then
      if a.event.event = .established ∧ conn.data.ptr = none then
        match ← privateDataStore a.event conn.data with
        | .error ret =>
          exec (.rdmaAckCmEvent a.handle)
          return (ret, conn, none)
        | .ok data => nextEventAck { conn with data := data } a.handle a.event
      else nextEventAck conn a.handle a.event
    else return (if a.errno = .enodata then rpmaENoEvent else rpmaEProvider, conn, none)

/-! ## Connecting a request (`conn_req.c`) -/

/-- `err_conn_req_delete` of `rpma_conn_req_accept`. -/
def acceptErrConnReqDelete (req : Req) (ret : Int) : P (Except Int Conn) := do
  exec (.rdmaDestroyQp req.id req.qp)
  let _ ← cqDelete req.rcq
  let _ ← cqDelete (some req.cq)
  let _ ← privateDataDiscard req.data
  destroyCompChannel req.channel
  return .error ret

/-- `rpma_conn_req_accept`; `err_conn_disconnect` is the label of its middle branch. -/
def connReqAccept (req : Req) : P (Except Int Conn) :=
  faultInjection (acceptErrConnReqDelete req rpmaEProvider) do
    if ← check (.rdmaAccept req.id) then
      match ← connNew req with
      | .error ret =>
        exec (.rdmaDisconnect req.id)
        acceptErrConnReqDelete req ret
      | .ok conn => return .ok (connTransferPrivateData conn req.data).1
    else acceptErrConnReqDelete req rpmaEProvider

/-- `err_conn_new` of `rpma_conn_req_connect_active`. -/
def connectErrConnNew (req : Req) (ret : Int) : P (Except Int Conn) := do
  exec (.rdmaDestroyQp req.id req.qp)
  let _ ← cqDelete req.rcq
  let _ ← cqDelete (some req.cq)
  exec (.rdmaDestroyId req.id)
  destroyCompChannel req.channel
  return .error ret

/-- `rpma_conn_req_connect_active`. -/
def connReqConnectActive (req : Req) : P (Except Int Conn) :=
  faultInjection (connectErrConnNew req rpmaEProvider) do
    match ← connNew req with
    | .error ret => connectErrConnNew req ret
    | .ok conn =>
      faultInjection (do let _ ← connDelete conn; return .error rpmaEProvider) do
        if ← check (.rdmaConnect req.id) then return .ok conn
        else
          let _ ← connDelete conn
          return .error rpmaEProvider

/-- The arguments of `rpma_conn_req_connect` besides the request: whether `conn_ptr` is given, and
the private data, `none` for a `NULL` pointer. -/
structure ConnectArgs where
  connPtr : Bool
  pdata : Option PrivateData

/-- `conn_ptr == NULL || (pdata != NULL && (pdata->ptr == NULL || pdata->len == 0))`. -/
def ConnectArgs.invalid (args : ConnectArgs) : Bool :=
  !args.connPtr || match args.pdata with
    | none => false
    | some pdata => pdata.ptr.isNone || pdata.bytes.isEmpty

/-- `if ((*req_ptr)->is_passive) ... else ...` of `rpma_conn_req_connect`. -/
def acceptOrConnect (req : Req) : P (Except Int Conn) :=
  if req.isPassive then connReqAccept req else connReqConnectActive req

/-- `rpma_conn_req_connect` on a request. -/
def connReqConnect (req : Req) (args : ConnectArgs) : P (Except Int Conn) :=
  faultInjection (do let _ ← connReqDelete req; return .error rpmaEInval) do
    if args.invalid then
      let _ ← connReqDelete req
      return .error rpmaEInval
    else
      let ret ← acceptOrConnect req
      exec (.free (some req.ptr))
      return ret

/-! ## The active side -/

/-- `err_info_delete` of `rpma_conn_req_new`. -/
def reqNewErrInfoDelete (info : Info) (ret : Int) : P (Except Int Req) := do
  let _ ← infoDelete info
  return .error ret

/-- `err_destroy_id`. -/
def reqNewErrDestroyId (info : Info) (id : Nat) (ret : Int) : P (Except Int Req) := do
  exec (.rdmaDestroyId id)
  reqNewErrInfoDelete info ret

/-- `rpma_conn_req_new` with an address resolved into `info` and a CM ID. -/
def reqNewWithId (peer : Peer) (cfg : Cfg) (timeoutMs : Int) (info : Info) (id : Nat) :
    P (Except Int Req) := do
  let ret ← infoResolveAddr id timeoutMs
  if ret ≠ 0 then reqNewErrDestroyId info id ret
  else
    faultInjection (reqNewErrDestroyId info id rpmaEProvider) do
      if ← check (.rdmaResolveRoute id timeoutMs) then
        match ← connReqFromId peer id cfg with
        | .error ret => reqNewErrDestroyId info id ret
        | .ok req =>
          let _ ← infoDelete info
          return .ok req
      else reqNewErrDestroyId info id rpmaEProvider

/-- `rpma_conn_req_new`; `none` is `NULL`. -/
def connReqNew (peer : Option Peer) (addr port : Option String) (cfg : Option Cfg) :
    P (Except Int Req) :=
  faultInjection (pure (.error rpmaEInval)) do
    match peer, addr, port with
    | some peer, some addr, some port =>
      let cfg := cfg.getD connCfgDefault
      let timeoutMs ← connCfgGetTimeout cfg
      match ← infoNew addr port with
      | .error ret => return .error ret
      | .ok info =>
        faultInjection (reqNewErrInfoDelete info rpmaEProvider) do
          match ← create .rdmaCreateId with
          | none => reqNewErrInfoDelete info rpmaEProvider
          | some id => reqNewWithId peer cfg timeoutMs info id
    | _, _, _ => return .error rpmaEInval

/-! ## The passive side (`conn_req.c`, `ep.c`) -/

/-- `rpma_conn_req_from_cm_event`, for the event with the CM ID `id`. -/
def connReqFromCmEvent (peer : Peer) (id : Nat) (edata : CmEvent) (cfg : Cfg) :
    P (Except Int Req) :=
  faultInjection (pure (.error rpmaEInval)) do
    if edata.event = .connectRequest then
      match ← connReqFromId peer id cfg with
      | .error ret => return .error ret
      | .ok req =>
        match ← privateDataStore edata req.data with
        | .error ret =>
          let _ ← connReqDelete req
          return .error ret
        | .ok data => return .ok { req with data := data, isPassive := true }
    else return .error rpmaEInval

/-- What a call leaves behind an out-parameter `struct rpma_conn_req **`. -/
inductive ReqPtr where
  | untouched
  | null
  | obj (req : Req)

/-- `struct rpma_ep`, as far as its events are concerned. -/
structure Ep where
  peer : Peer
  evch : Nat

/-- `err_ack` of `rpma_ep_next_conn_req`. -/
def epErrAck (event : Nat) (ret : Int) (out : ReqPtr) : P (Int × ReqPtr) := do
  exec (.rdmaAckCmEvent event)
  return (ret, out)

/-- `rpma_ep_next_conn_req` from the check of the event on. -/
def epTakeEvent (ep : Ep) (cfg : Cfg) (event : Nat) (edata : CmEvent) : P (Int × ReqPtr) :=
  faultInjection (epErrAck event rpmaEInval .untouched) do
    if edata.event = .connectRequest then
      match ← connReqFromCmEvent ep.peer event edata cfg with
      | .error ret => epErrAck event ret .untouched
      | .ok req =>
        faultInjection (do let _ ← connReqDelete req; epErrAck event 0 .null) do
          if ← check (.rdmaAckCmEvent event) then return (0, .obj req)
          else
            let _ ← connReqDelete req
            return (rpmaEProvider, .null)
    else epErrAck event rpmaEInval .untouched

/-- `rpma_ep_next_conn_req`: the result and what is in `*req_ptr` after it. -/
def epNextConnReq (ep : Ep) (cfg : Option Cfg) : P (Int × ReqPtr) :=
  faultInjection (pure (rpmaEProvider, .untouched)) <|
  faultInjection (pure (rpmaENoEvent, .untouched)) do
    let a ← Prog.issue (.rdmaGetCmEvent ep.evch true)
    if a.ok then epTakeEvent ep (cfg.getD connCfgDefault) a.handle a.event
    else return (if a.errno = .enodata then rpmaENoEvent else rpmaEProvider, .untouched)

end Rpma.Librpma
