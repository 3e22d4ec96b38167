import Rpma.Lib.Lease
import Rpma.Librpma.Request

/-!
# CM events: obtained, read, acknowledged once

`rdma_get_cm_event` lends an event to the library until `rdma_ack_cm_event`. The functions of
`Request.lean` take its fields as arguments; here the same functions read them one by one, through
the pointer, so that a run shows when the event was last looked at. `resolve` answers the reads
with the event obtained and gives back the functions of `Request.lean`
(`resolve_connNextEvent`, `resolve_epNextConnReq`).

An event is a lease: `rdma_get_cm_event` takes it, a read touches it, `rdma_ack_cm_event` gives it
back. `leased_connNextEvent` and `leased_epNextConnReq` replay both functions along all their
exits.

* **`cm_events_acked_once`**: over any run of the two functions, whatever fails, every event
  obtained is acknowledged exactly once and within the call that obtained it, it is not read after
  that, and a call that obtains no event acknowledges none.
-/

namespace Rpma.Librpma

open Rpma.Lib Rpma.Lib.Lease

/-! ## Reading an event -/

/-- The fields of `struct rdma_cm_event` the library reads, and the buffer behind
`param.conn.private_data`. -/
inductive EventField where
  | event | id | privateData | privateDataLen | buffer
  deriving DecidableEq, Repr

/-- What reading a field gives; of `private_data` the library only asks whether it is `NULL`. -/
abbrev EventField.Val : EventField → Type
  | .event => CmEventType
  | .id => Nat
  | .privateData => Bool
  | .privateDataLen => Nat
  | .buffer => List UInt8

/-- The field of the event obtained by the `n`-th call. -/
def EventField.of (n : Nat) (edata : CmEvent) : (field : EventField) → field.Val
  | .event => edata.event
  | .id => n
  | .privateData => edata.privateData.isSome
  | .privateDataLen => (edata.privateData.getD []).length
  | .buffer => edata.privateData.getD []

/-- What `rdma_get_cm_event` gives: a pointer. -/
structure Got where
  ok : Bool
  errno : Errno
  event : Nat

/-- A call, or a look at an event. -/
inductive Access where
  | call (c : Call)
  | getCmEvent (evch : Nat) (listening : Bool)
  | read (event : Nat) (field : EventField)

abbrev Access.Ans : Access → Type
  | .call _ => Answer
  | .getCmEvent _ _ => Got
  | .read _ field => field.Val

/-- A program that looks at events through pointers. -/
abbrev R := Prog Access Access.Ans

abbrev AccessLog := Log Access Access.Ans

/-- A program that gets no event of its own. -/
def lift {α : Type} : P α → R α
  | .pure a => .pure a
  | .call c k => .call (.call c) fun a => lift (k a)

/-- Answer every read with the event it is about. -/
def resolve {α : Type} : R α → (Nat → CmEvent) → P α
  | .pure a, _ => .pure a
  | .call (.call c) k, env => .call c fun a => resolve (k a) env
  | .call (.getCmEvent evch listening) k, env =>
    .call (.rdmaGetCmEvent evch listening) fun a =>
      resolve (k ⟨a.ok, a.errno, a.handle⟩) (Function.update env a.handle a.event)
  | .call (.read event field) k, env => resolve (k (field.of event (env event))) env

/-- `edata->field`. -/
def readField (event : Nat) (field : EventField) : R field.Val :=
  Prog.issue (R := Access.Ans) (Access.read event field)

/-- `rdma_get_cm_event`. -/
def getCmEvent (evch : Nat) (listening : Bool) : R Got :=
  Prog.issue (R := Access.Ans) (Access.getCmEvent evch listening)

/-- `RPMA_FAULT_INJECTION`. -/
def faultInjectionR {α : Type} (onFault rest : R α) : R α := do
  let a ← lift (Prog.issue .faultInjection)
  if a.fault then onFault else rest

/-! ## The functions that look at an event -/

/-- `rpma_private_data_store`. -/
def privateDataStoreR (edata : Nat) (pdata : PrivateData) : R (Except Int PrivateData) :=
  faultInjectionR (pure (.error rpmaENomem)) do
    let ptr ← readField edata .privateData
    let len ← readField edata .privateDataLen
    if ptr = false ∨ len = 0 then return .ok pdata
    else
      match ← lift (create (.malloc .privateData)) with
      | none => return .error rpmaENomem
      | some ptrCopy =>
        let bytes ← readField edata .buffer
        return .ok ⟨some ptrCopy, bytes⟩

/-- `rpma_conn_next_event` from the acknowledgement on, with the type read before it. -/
def nextEventAckR (conn : Conn) (edata : Nat) : R (Int × Conn × Option ConnEvent) := do
  let cmEvent ← readField edata .event
  if ← lift (check (.rdmaAckCmEvent edata)) then
    faultInjectionR (lift (nextEventErrDiscard conn rpmaEUnknown)) <|
      match connEventOf cmEvent with
      | some event => return (0, conn, some event)
      | none => return (rpmaEUnknown, conn, none)
  else lift (nextEventErrDiscard conn rpmaEProvider)

/-- `rpma_conn_next_event` with an event obtained. -/
def nextEventTakeR (conn : Conn) (edata : Nat) : R (Int × Conn × Option ConnEvent) := do
  let event ← readField edata .event
  if event = .established ∧ conn.data.ptr = none then
    match ← privateDataStoreR edata conn.data with
    | .error ret =>
      lift (exec (.rdmaAckCmEvent edata))
      return (ret, conn, none)
    | .ok data => nextEventAckR { conn with data := data } edata
  else nextEventAckR conn edata

/-- `rpma_conn_next_event`. -/
def connNextEventR (conn : Conn) : R (Int × Conn × Option ConnEvent) :=
  faultInjectionR (pure (rpmaEProvider, conn, none)) <|
  faultInjectionR (pure (rpmaENoEvent, conn, none)) do
    let got ← getCmEvent conn.evch false
    if got.ok then nextEventTakeR conn got.event
    else return (if got.errno = .enodata then rpmaENoEvent else rpmaEProvider, conn, none)

/-- `rpma_conn_req_from_cm_event`. -/
def connReqFromCmEventR (peer : Peer) (event : Nat) (cfg : Cfg) : R (Except Int Req) :=
  faultInjectionR (pure (.error rpmaEInval)) do
    let type ← readField event .event
    if type = .connectRequest then
      let id ← readField event .id
      match ← lift (connReqFromId peer id cfg) with
      | .error ret => return .error ret
      | .ok req =>
        match ← privateDataStoreR event req.data with
        | .error ret =>
          let _ ← lift (connReqDelete req)
          return .error ret
        | .ok data => return .ok { req with data := data, isPassive := true }
    else return .error rpmaEInval

/-- `rpma_ep_next_conn_req` from the check of the event on. The type is read once more for the
log when it is not the expected one. -/
def epTakeEventR (ep : Ep) (cfg : Cfg) (event : Nat) : R (Int × ReqPtr) :=
  faultInjectionR (lift (epErrAck event rpmaEInval .untouched)) do
    let type ← readField event .event
    if type = .connectRequest then
      match ← connReqFromCmEventR ep.peer event cfg with
      | .error ret => lift (epErrAck event ret .untouched)
      | .ok req =>
        faultInjectionR (do let _ ← lift (connReqDelete req); lift (epErrAck event 0 .null)) do
          if ← lift (check (.rdmaAckCmEvent event)) then return (0, .obj req)
          else
            let _ ← lift (connReqDelete req)
            return (rpmaEProvider, .null)
    else
      let _ ← readField event .event
      lift (epErrAck event rpmaEInval .untouched)

/-- `rpma_ep_next_conn_req`. -/
def epNextConnReqR (ep : Ep) (cfg : Option Cfg) : R (Int × ReqPtr) :=
  faultInjectionR (pure (rpmaEProvider, .untouched)) <|
  faultInjectionR (pure (rpmaENoEvent, .untouched)) do
    let got ← getCmEvent ep.evch true
    if got.ok then epTakeEventR ep (cfg.getD connCfgDefault) got.event
    else return (if got.errno = .enodata then rpmaENoEvent else rpmaEProvider, .untouched)

/-! ## The constructors that events are handed to -/

/-- A call that neither gets nor acknowledges a CM event. -/
def Call.Quiet : Call → Prop
  | .rdmaGetCmEvent _ _ | .rdmaAckCmEvent _ => False
  | _ => True

section Quiet

variable {α : Type} {q : Call → Prop} {c : Call}

theorem only_create (hc : q c) : (create c).Only q :=
  .bind ((Prog.only_issue c).mpr hc) fun _ => Prog.only_pure _

theorem only_check (hc : q c) : (check c).Only q :=
  .bind ((Prog.only_issue c).mpr hc) fun _ => Prog.only_pure _

theorem only_exec (hc : q c) : (exec c).Only q :=
  .bind ((Prog.only_issue c).mpr hc) fun _ => Prog.only_pure _

theorem only_faultInjection {onFault rest : P α} (hq : q .faultInjection) (hf : onFault.Only q)
    (hr : rest.Only q) : (faultInjection onFault rest).Only q := by
  refine .bind ((Prog.only_issue _).mpr hq) fun a => ?_
  split
  · exact hf
  · exact hr

theorem quiet_cqDelete (cq : Option Cq) : (cqDelete cq).Only Call.Quiet := by
  cases cq with
  | none => trivial
  | some cq =>
    have hfree : ∀ ret, (exec (.free (some cq.ptr)) >>= fun _ =>
        faultInjection (pure rpmaEProvider) (pure ret) : P Int).Only Call.Quiet := fun ret =>
      .bind (only_exec trivial) fun _ => only_faultInjection trivial trivial trivial
    refine .bind (only_check trivial) fun ok => ?_
    dsimp only
    split
    · exact hfree _
    · exact .bind (only_check trivial) fun _ => hfree _

theorem quiet_destroyCompChannel (channel : Option Nat) :
    (destroyCompChannel channel).Only Call.Quiet := by
  cases channel with
  | none => trivial
  | some channel => exact only_exec trivial

theorem quiet_cqNewErrDestroyCompChannel (shared : Option Nat) (channel : Nat) (ret : Int) :
    (cqNewErrDestroyCompChannel shared channel ret).Only Call.Quiet := by
  cases shared with
  | none => exact .bind (only_exec trivial) fun _ => trivial
  | some _ => trivial

theorem quiet_cqNewErrDestroyCq (shared : Option Nat) (channel cq : Nat) (ret : Int) :
    (cqNewErrDestroyCq shared channel cq ret).Only Call.Quiet :=
  .bind (only_exec trivial) fun _ => quiet_cqNewErrDestroyCompChannel shared channel ret

theorem quiet_cqNewOn (cqe : Int) (shared : Option Nat) (channel : Nat) :
    (cqNewOn cqe shared channel).Only Call.Quiet := by
  refine only_faultInjection trivial (quiet_cqNewErrDestroyCompChannel _ _ _) ?_
  refine .bind (only_create trivial) fun made => ?_
  cases made with
  | none => exact quiet_cqNewErrDestroyCompChannel _ _ _
  | some cq =>
    refine only_faultInjection trivial (quiet_cqNewErrDestroyCq _ _ _ _) ?_
    refine .bind (only_check trivial) fun ok => ?_
    split
    · refine .bind (only_create trivial) fun ptr => ?_
      cases ptr with
      | none => exact quiet_cqNewErrDestroyCq _ _ _ _
      | some ptr => trivial
    · exact quiet_cqNewErrDestroyCq _ _ _ _

theorem quiet_cqNew (cqe : Int) (shared : Option Nat) : (cqNew cqe shared).Only Call.Quiet := by
  cases shared with
  | some channel => exact quiet_cqNewOn _ _ _
  | none =>
    refine only_faultInjection trivial trivial (.bind (only_create trivial) fun made => ?_)
    cases made with
    | none => trivial
    | some channel => exact quiet_cqNewOn _ _ _

theorem quiet_peerCreateQp (id : Nat) (cq : Cq) (rcq : Option Cq) :
    (peerCreateQp id cq rcq).Only Call.Quiet := by
  refine only_faultInjection trivial trivial (.bind (only_create trivial) fun made => ?_)
  cases made <;> trivial

theorem quiet_fromIdErrCompChannelDestroy (channel : Option Nat) (ret : Int) :
    (fromIdErrCompChannelDestroy channel ret).Only Call.Quiet :=
  .bind (quiet_destroyCompChannel channel) fun _ => trivial

theorem quiet_fromIdErrCqDelete (channel : Option Nat) (cq : Cq) (ret : Int) :
    (fromIdErrCqDelete channel cq ret).Only Call.Quiet :=
  .bind (quiet_cqDelete _) fun _ => quiet_fromIdErrCompChannelDestroy channel ret

theorem quiet_fromIdErrRcqDelete (channel : Option Nat) (cq : Cq) (rcq : Option Cq) (ret : Int) :
    (fromIdErrRcqDelete channel cq rcq ret).Only Call.Quiet :=
  .bind (quiet_cqDelete _) fun _ => quiet_fromIdErrCqDelete channel cq ret

theorem quiet_fromIdQp (peer : Peer) (id : Nat) (channel : Option Nat) (cq : Cq)
    (rcq : Option Cq) : (fromIdQp peer id channel cq rcq).Only Call.Quiet := by
  refine .bind (quiet_peerCreateQp id cq rcq) fun made => ?_
  cases made with
  | error ret => exact quiet_fromIdErrRcqDelete _ _ _ _
  | ok qp =>
    refine .bind (only_create trivial) fun ptr => ?_
    cases ptr with
    | none => exact .bind (only_exec trivial) fun _ => quiet_fromIdErrRcqDelete _ _ _ _
    | some ptr => trivial

theorem quiet_fromIdCqs (peer : Peer) (id : Nat) (cfg : Cfg) (channel : Option Nat) :
    (fromIdCqs peer id cfg channel).Only Call.Quiet := by
  refine .bind (quiet_cqNew _ _) fun made => ?_
  cases made with
  | error ret => exact quiet_fromIdErrCompChannelDestroy _ _
  | ok cq =>
    dsimp only
    split
    · refine .bind (quiet_cqNew _ _) fun made => ?_
      cases made with
      | error ret => exact quiet_fromIdErrCqDelete _ _ _
      | ok rcq => exact quiet_fromIdQp _ _ _ _ _
    · exact quiet_fromIdQp _ _ _ _ _

theorem quiet_connReqFromId (peer : Peer) (id : Nat) (cfg : Cfg) :
    (connReqFromId peer id cfg).Only Call.Quiet := by
  refine only_faultInjection trivial trivial (.bind ?_ fun shared => ?_)
  · exact only_faultInjection trivial trivial trivial
  · split
    · refine .bind (only_create trivial) fun made => ?_
      cases made with
      | none => trivial
      | some channel => exact quiet_fromIdCqs _ _ _ _
    · exact quiet_fromIdCqs _ _ _ _

theorem quiet_rejectOrDestroy (req : Req) : (rejectOrDestroy req).Only Call.Quiet := by
  unfold rejectOrDestroy
  split
  · refine .bind (only_check trivial) fun ok => ?_
    split
    · exact only_faultInjection trivial trivial trivial
    · trivial
  · refine .bind (only_check trivial) fun ok => ?_
    split
    · exact only_faultInjection trivial trivial trivial
    · trivial

theorem quiet_checkDestroyCompChannel (channel : Option Nat) :
    (checkDestroyCompChannel channel).Only Call.Quiet := by
  cases channel with
  | none => trivial
  | some channel =>
    refine .bind (only_check trivial) fun ok => ?_
    split <;> trivial

theorem quiet_privateDataDiscard (pdata : PrivateData) :
    (privateDataDiscard pdata).Only Call.Quiet := .bind (only_exec trivial) fun _ => trivial

theorem quiet_connReqDelete (req : Req) : (connReqDelete req).Only Call.Quiet := by
  refine .bind (only_exec trivial) fun _ => .bind (quiet_cqDelete _) fun _ =>
    .bind (quiet_cqDelete _) fun _ => .bind (quiet_rejectOrDestroy _) fun _ =>
    .bind (quiet_checkDestroyCompChannel _) fun _ => .bind (quiet_privateDataDiscard _) fun _ =>
    .bind (only_exec trivial) fun _ => ?_
  exact only_faultInjection trivial trivial trivial

end Quiet

/-- An access that leaves the lease of `n` alone: a quiet call, or a read of `n` itself. -/
def Access.Keeps (n : Nat) : Access → Prop
  | .call c => c.Quiet
  | .getCmEvent _ _ => False
  | .read m _ => m = n

section Keeps

variable {α : Type} {n : Nat}

theorem keeps_lift {m : P α} (hm : m.Only Call.Quiet) : (lift m).Only (Access.Keeps n) := by
  induction m with
  | pure a => trivial
  | call c k ih => exact ⟨hm.1, fun a => ih a (hm.2 a)⟩

theorem keeps_readField (field : EventField) : (readField n field).Only (Access.Keeps n) :=
  ⟨rfl, fun _ => trivial⟩

theorem keeps_faultInjection {onFault rest : R α} (hf : onFault.Only (Access.Keeps n))
    (hr : rest.Only (Access.Keeps n)) : (faultInjectionR onFault rest).Only (Access.Keeps n) := by
  refine .bind (keeps_lift ((Prog.only_issue _).mpr trivial)) fun a => ?_
  split
  · exact hf
  · exact hr

theorem keeps_privateDataStore (pdata : PrivateData) :
    (privateDataStoreR n pdata).Only (Access.Keeps n) := by
  refine keeps_faultInjection trivial (.bind (keeps_readField _) fun ptr =>
    .bind (keeps_readField _) fun len => ?_)
  split
  · trivial
  · refine .bind (keeps_lift (only_create trivial)) fun made => ?_
    cases made with
    | none => trivial
    | some ptrCopy => exact .bind (keeps_readField _) fun _ => trivial

theorem keeps_connReqFromCmEvent (peer : Peer) (cfg : Cfg) :
    (connReqFromCmEventR peer n cfg).Only (Access.Keeps n) := by
  refine keeps_faultInjection trivial (.bind (keeps_readField _) fun type => ?_)
  split
  · refine .bind (keeps_readField _) fun id => ?_
    refine .bind (keeps_lift (quiet_connReqFromId peer id cfg)) fun made => ?_
    cases made with
    | error ret => trivial
    | ok req =>
      refine .bind (keeps_privateDataStore _) fun stored => ?_
      cases stored with
      | error ret => exact .bind (keeps_lift (quiet_connReqDelete req)) fun _ => trivial
      | ok data => trivial
  · trivial

end Keeps

/-! ## The same functions as those of `Request.lean` -/

section Resolve

variable {α β : Type} {env : Nat → CmEvent}

theorem resolve_lift_bind (m : P α) (f : α → R β) :
    resolve (lift m >>= f) env = m >>= fun a => resolve (f a) env := by
  induction m with
  | pure a => rfl
  | call c k ih =>
    have hk : (fun a => resolve (lift (k a) >>= f) env) =
        fun a => k a >>= fun b => resolve (f b) env := funext ih
    exact congrArg (Prog.call c) hk

theorem resolve_lift (m : P α) : resolve (lift m) env = m := by
  induction m with
  | pure a => rfl
  | call c k ih => exact congrArg (Prog.call c) (funext ih)

theorem resolve_read_bind (event : Nat) (field : EventField) (f : field.Val → R α) :
    resolve (readField event field >>= f) env = resolve (f (field.of event (env event))) env := rfl

/-- A program that gets no event resolves its reads with the events already obtained. -/
theorem resolve_bind {n : Nat} {m : R α} (hm : m.Only (Access.Keeps n)) (f : α → R β) :
    resolve (m >>= f) env = resolve m env >>= fun a => resolve (f a) env := by
  induction m with
  | pure a => rfl
  | call c k ih =>
    cases c with
    | call c => exact congrArg (Prog.call c) (funext fun a => ih a (hm.2 a))
    | getCmEvent evch listening => exact hm.1.elim
    | read event field => exact ih _ (hm.2 _)

theorem resolve_faultInjection (onFault rest : R α) :
    resolve (faultInjectionR onFault rest) env =
      faultInjection (resolve onFault env) (resolve rest env) := by
  unfold faultInjectionR faultInjection
  rw [resolve_lift_bind]
  congr
  funext a
  split <;> rfl

theorem resolve_ite (φ : Prop) [Decidable φ] (m m' : R α) :
    resolve (if φ then m else m') env = if φ then resolve m env else resolve m' env := by
  split <;> rfl

theorem resolve_privateDataStore (edata : Nat) (pdata : PrivateData) :
    resolve (privateDataStoreR edata pdata) env = privateDataStore (env edata) pdata := by
  unfold privateDataStoreR privateDataStore
  rw [resolve_faultInjection]
  congr 1
  rw [resolve_read_bind, resolve_read_bind, resolve_ite]
  have hread : resolve (pure (.ok pdata) : R (Except Int PrivateData)) env = pure (.ok pdata) := rfl
  rcases hp : (env edata).privateData with _ | _ | ⟨b, bytes⟩
  · rw [if_pos (.inl (by simp [EventField.of, hp])), hread]
  · rw [if_pos (.inr (by simp [EventField.of, hp])), hread]
  · rw [if_neg (by simp [EventField.of, hp]), resolve_lift_bind]
    refine congrArg (create (.malloc .privateData) >>= ·) (funext fun made => ?_)
    cases made with
    | none => rfl
    | some ptr =>
      rw [resolve_read_bind]
      simp only [EventField.of, hp, Option.getD_some]
      rfl

theorem resolve_nextEventAck (conn : Conn) (edata : Nat) :
    resolve (nextEventAckR conn edata) env = nextEventAck conn edata (env edata) := by
  unfold nextEventAckR nextEventAck
  rw [resolve_read_bind, resolve_lift_bind]
  congr
  funext ok
  rw [resolve_ite, resolve_faultInjection, resolve_lift, resolve_lift]
  simp only [EventField.of]
  cases connEventOf (env edata).event <;> rfl

/-- **`connNextEvent` with its reads resolved.** -/
theorem resolve_connNextEvent (conn : Conn) :
    resolve (connNextEventR conn) env = connNextEvent conn := by
  unfold connNextEventR connNextEvent
  rw [resolve_faultInjection, resolve_faultInjection]
  refine congrArg (faultInjection _) (congrArg (faultInjection _) ?_)
  refine congrArg (Prog.call _) (funext fun a => ?_)
  refine (resolve_ite _ _ _).trans (ite_congr rfl (fun _ => ?_) fun _ => rfl)
  have hev : Function.update env a.handle a.event a.handle = a.event := Function.update_self ..
  unfold nextEventTakeR
  rw [resolve_read_bind, resolve_ite, resolve_bind (keeps_privateDataStore _),
    resolve_privateDataStore, resolve_nextEventAck, hev]
  refine ite_congr (by simp only [EventField.of]) (fun _ =>
    congrArg (privateDataStore _ _ >>= ·) (funext fun stored => ?_)) fun _ => rfl
  cases stored with
  | error ret => exact resolve_lift_bind _ _
  | ok data => rw [resolve_nextEventAck, hev]

theorem resolve_connReqFromCmEvent (peer : Peer) (event : Nat) (cfg : Cfg) :
    resolve (connReqFromCmEventR peer event cfg) env =
      connReqFromCmEvent peer event (env event) cfg := by
  unfold connReqFromCmEventR connReqFromCmEvent
  rw [resolve_faultInjection, resolve_read_bind, resolve_ite, resolve_read_bind,
    resolve_lift_bind]
  refine congrArg (faultInjection _) (ite_congr rfl (fun _ => ?_) fun _ => rfl)
  refine congrArg (connReqFromId peer event cfg >>= ·) (funext fun made => ?_)
  cases made with
  | error ret => rfl
  | ok req =>
    dsimp only
    rw [resolve_bind (keeps_privateDataStore _), resolve_privateDataStore]
    refine congrArg (privateDataStore _ _ >>= ·) (funext fun stored => ?_)
    cases stored with
    | error ret => exact resolve_lift_bind _ _
    | ok data => rfl

/-- **`epNextConnReq` with its reads resolved.** -/
theorem resolve_epNextConnReq (ep : Ep) (cfg : Option Cfg) :
    resolve (epNextConnReqR ep cfg) env = epNextConnReq ep cfg := by
  unfold epNextConnReqR epNextConnReq
  rw [resolve_faultInjection, resolve_faultInjection]
  refine congrArg (faultInjection _) (congrArg (faultInjection _) ?_)
  refine congrArg (Prog.call _) (funext fun a => ?_)
  refine (resolve_ite _ _ _).trans (ite_congr rfl (fun _ => ?_) fun _ => rfl)
  have hev : Function.update env a.handle a.event a.handle = a.event := Function.update_self ..
  unfold epTakeEventR epTakeEvent
  rw [resolve_faultInjection, resolve_lift, resolve_read_bind, resolve_ite,
    resolve_bind (keeps_connReqFromCmEvent _ _), resolve_connReqFromCmEvent, resolve_read_bind,
    resolve_lift, hev]
  refine congrArg (faultInjection _) (ite_congr (by simp only [EventField.of]) (fun _ => ?_)
    fun _ => rfl)
  refine congrArg (connReqFromCmEvent _ _ _ _ >>= ·) (funext fun made => ?_)
  cases made with
  | error ret => exact resolve_lift _
  | ok req =>
    dsimp only
    rw [resolve_faultInjection, resolve_lift_bind, resolve_lift_bind]
    refine congrArg₂ faultInjection ?_ ?_
    · exact congrArg (connReqDelete req >>= ·) (funext fun _ => resolve_lift _)
    · refine congrArg (check _ >>= ·) (funext fun ok => ?_)
      rw [resolve_ite, resolve_lift_bind]
      rfl

end Resolve

/-! ## Replaying the two functions -/

/-- What an access does to the event it is about. -/
def leaseAct : (Σ a : Access, a.Ans) → Act
  | ⟨.getCmEvent _ _, got⟩ => if got.ok then .take else .idle
  | ⟨.call (.rdmaGetCmEvent _ _), a⟩ => if a.ok then .take else .idle
  | ⟨.call (.rdmaAckCmEvent event), _⟩ => .give event
  | ⟨.call _, _⟩ => .idle
  | ⟨.read event _, _⟩ => .touch event

/-- A `rdma_get_cm_event` that failed. -/
def GetFailed : (Σ a : Access, a.Ans) → Prop
  | ⟨.getCmEvent _ _, got⟩ => got.ok = false
  | ⟨.call (.rdmaGetCmEvent _ _), a⟩ => a.ok = false
  | _ => False

/-- The answers of a world; `reads n` is what a read finds if the `n`-th access is one. -/
def accessAnswer (world : World) (reads : Nat → (field : EventField) → field.Val) (n : Nat) :
    (a : Access) → a.Ans
  | .call c => world.answer n c
  | .getCmEvent _ _ => ⟨(world n).ok, (world n).errno, n⟩
  | .read _ field => reads n field

/-- Since `base` no `rdma_get_cm_event` has failed, and `h` is the event held. -/
def Leased (base : AccessLog) (h : Option Nat) (log : AccessLog) : Prop :=
  Held leaseAct log h ∧ Prog.AllSince (fun e => ¬ GetFailed e) base True log

/-- What a call leaves: no event held, and if a `rdma_get_cm_event` failed then no event was
obtained since `base`. -/
def Returned (base log : AccessLog) : Prop :=
  Held leaseAct log none ∧ ∃ calls, log = base ++ calls ∧
    ((∃ e ∈ calls, GetFailed e) → ∀ e ∈ calls, leaseAct e ≠ .take)

section Leases

variable {world : World} {reads : Nat → (field : EventField) → field.Val} {base : AccessLog}
  {α : Type} {n : Nat} {h : Option Nat}

theorem leaseAct_of_quiet {c : Call} (hc : c.Quiet) (a : Answer) :
    leaseAct ⟨.call c, a⟩ = .idle ∧ ¬ GetFailed ⟨.call c, a⟩ := by
  cases c <;> first
    | exact hc.elim
    | exact ⟨rfl, id⟩

theorem Leased.snoc {h' : Option Nat} {log : AccessLog} {e : Σ a : Access, a.Ans}
    (hl : Leased base h log) (hh : Held leaseAct (log ++ [e]) h') (he : ¬ GetFailed e) :
    Leased base h' (log ++ [e]) :=
  ⟨hh, (hl.2.snoc e).congr (by simpa using he)⟩

theorem leased_quiet {m : P α} (hm : m.Only Call.Quiet) :
    Prog.Triple (accessAnswer world reads) (Leased base h) (lift m) fun _ => Leased base h := by
  have hlift : (lift m).Only fun a => ∃ c : Call, a = .call c ∧ c.Quiet := by
    induction m with
    | pure a => trivial
    | call c k ih => exact ⟨⟨c, rfl, hm.1⟩, fun a => ih a (hm.2 a)⟩
  refine hlift.triple fun log a ha hl => ?_
  obtain ⟨c, rfl, hc⟩ := ha
  obtain ⟨hidle, hget⟩ := leaseAct_of_quiet hc (accessAnswer world reads log.length (.call c))
  exact hl.snoc (hl.1.idle hidle) hget

theorem leased_keeps {m : R α} (hm : m.Only (Access.Keeps n)) :
    Prog.Triple (accessAnswer world reads) (Leased base (some n)) m
      fun _ => Leased base (some n) := by
  refine hm.triple fun log a ha hl => ?_
  cases a with
  | call c =>
    obtain ⟨hidle, hget⟩ := leaseAct_of_quiet ha (accessAnswer world reads log.length (.call c))
    exact hl.snoc (hl.1.idle hidle) hget
  | getCmEvent evch listening => exact ha.elim
  | read m field => exact hl.snoc (hl.1.touch (by rw [← show m = n from ha]; rfl)) id

theorem faultInjectionR_triple {I : AccessLog → Prop} {onFault rest : R α}
    {Q : α → AccessLog → Prop}
    (hI : ∀ log a, I log → I (log ++ [⟨.call .faultInjection, a⟩]))
    (hf : Prog.Triple (accessAnswer world reads) I onFault Q)
    (hr : Prog.Triple (accessAnswer world reads) I rest Q) :
    Prog.Triple (accessAnswer world reads) I (faultInjectionR onFault rest) Q := by
  intro log hl
  unfold faultInjectionR
  rw [Prog.run_bind]
  split
  · exact hf _ (hI _ _ hl)
  · exact hr _ (hI _ _ hl)

theorem leased_faultInjection {onFault rest : R α} {Q : α → AccessLog → Prop}
    (hf : Prog.Triple (accessAnswer world reads) (Leased base h) onFault Q)
    (hr : Prog.Triple (accessAnswer world reads) (Leased base h) rest Q) :
    Prog.Triple (accessAnswer world reads) (Leased base h) (faultInjectionR onFault rest) Q :=
  faultInjectionR_triple (fun _ _ hl => hl.snoc (hl.1.idle rfl) id) hf hr

/-- `rdma_ack_cm_event` on the event held gives it back, even if it fails. -/
theorem leased_ack : Prog.Triple (accessAnswer world reads) (Leased base (some n))
    (lift (check (.rdmaAckCmEvent n))) fun _ => Leased base none :=
  fun _ hl => hl.snoc (hl.1.give rfl) id

theorem Leased.returned {log : AccessLog} (hl : Leased base none log) : Returned base log := by
  obtain ⟨hh, calls, rfl, hnone⟩ := hl
  refine ⟨hh, calls, rfl, fun ⟨e, he, hfail⟩ => absurd hfail ?_⟩
  exact hnone.mpr trivial e he

/-- Since `base` nothing has happened to events. -/
def Untouched (base log : AccessLog) : Prop :=
  Held leaseAct log none ∧
    Prog.AllSince (fun e => leaseAct e = .idle ∧ ¬ GetFailed e) base True log

theorem Untouched.leased {log : AccessLog} (hl : Untouched base log) : Leased base none log := by
  obtain ⟨hh, calls, hlog, hq⟩ := hl
  exact ⟨hh, calls, hlog, iff_of_true (fun e he => (hq.mpr trivial e he).2) trivial⟩

/-- A failed `rdma_get_cm_event` as the first thing that happens to events. -/
theorem Untouched.returned_failed {log : AccessLog} (hl : Untouched base log) {evch : Nat}
    {listening : Bool} {got : Got} (hfail : got.ok = false) :
    Returned base (log ++ [⟨.getCmEvent evch listening, got⟩]) := by
  have hidle : leaseAct ⟨.getCmEvent evch listening, got⟩ = .idle := if_neg (by simp [hfail])
  obtain ⟨hh, calls, rfl, hq⟩ := hl
  refine ⟨hh.idle hidle, calls ++ [_], List.append_assoc .., fun _ e he => ?_⟩
  rcases List.mem_append.mp he with he | he
  · rw [(hq.mpr trivial e he).1]
    simp
  · rw [List.mem_singleton.mp he, hidle]
    simp

/-- Both functions: nothing happens to events before `rdma_get_cm_event`, and nothing more if it
fails. -/
theorem returned_get {evch : Nat} {listening : Bool} {onFault onFault' : α} {taken : Nat → R α}
    {onFail : Got → α}
    (ht : ∀ n, Prog.Triple (accessAnswer world reads) (Leased base (some n)) (taken n)
      fun _ => Leased base none) :
    Prog.Triple (accessAnswer world reads) (fun log => Held leaseAct log none ∧ log = base)
      (faultInjectionR (pure onFault) <| faultInjectionR (pure onFault') do
        let got ← getCmEvent evch listening
        if got.ok then taken got.event else return onFail got)
      fun _ => Returned base := by
  have hstart : ∀ log : AccessLog, Held leaseAct log none ∧ log = base → Untouched base log := by
    rintro log ⟨hh, rfl⟩
    exact ⟨hh, .refl⟩
  have hkeep : ∀ (log : AccessLog) a, Untouched base log →
      Untouched base (log ++ [⟨.call .faultInjection, a⟩]) :=
    fun log a hl => ⟨hl.1.idle rfl, (hl.2.snoc _).congr (by simp [leaseAct, GetFailed])⟩
  have hreturn : ∀ a : α, Prog.Triple (accessAnswer world reads) (Untouched base) (pure a)
      fun _ => Returned base := fun a => .pure fun log hl => hl.leased.returned
  have hget : Prog.Triple (accessAnswer world reads) (Untouched base)
      (do let got ← getCmEvent evch listening
          if got.ok then taken got.event else return onFail got) fun _ => Returned base := by
    intro log hl
    rw [Prog.run_bind]
    change Returned base (Prog.run _ (if (world log.length).ok then _ else _) _).2
    split
    · rename_i hok
      refine (ht log.length _ (hl.leased.snoc (hl.1.take ?_) ?_)).returned
      · exact if_pos hok
      · exact fun hfail => Bool.false_ne_true (Eq.trans (Eq.symm hfail) hok)
    · rename_i hok
      exact hl.returned_failed (Bool.eq_false_iff.mpr hok)
  exact (faultInjectionR_triple hkeep (hreturn _) (faultInjectionR_triple hkeep (hreturn _)
    hget)).conseq hstart fun _ _ hr => hr

theorem leased_nextEventErrDiscard (conn : Conn) (ret : Int) :
    Prog.Triple (accessAnswer world reads) (Leased base none) (lift (nextEventErrDiscard conn ret))
      fun _ => Leased base none :=
  leased_quiet (.bind (quiet_privateDataDiscard _) fun _ => trivial)

theorem leased_nextEventAck (conn : Conn) :
    Prog.Triple (accessAnswer world reads) (Leased base (some n)) (nextEventAckR conn n)
      fun _ => Leased base none := by
  refine (leased_keeps (keeps_readField _)).bind fun cmEvent => leased_ack.bind fun ok => ?_
  split
  · refine leased_faultInjection (leased_nextEventErrDiscard conn _) ?_
    split <;> exact .pure fun _ hl => hl
  · exact leased_nextEventErrDiscard conn _

theorem leased_nextEventTake (conn : Conn) :
    Prog.Triple (accessAnswer world reads) (Leased base (some n)) (nextEventTakeR conn n)
      fun _ => Leased base none := by
  refine (leased_keeps (keeps_readField _)).bind fun event => ?_
  split
  · refine (leased_keeps (keeps_privateDataStore _)).bind fun stored => ?_
    cases stored with
    | error ret => exact leased_ack.bind fun _ => .pure fun _ hl => hl
    | ok data => exact leased_nextEventAck _
  · exact leased_nextEventAck _

theorem leased_epErrAck (ret : Int) (out : ReqPtr) :
    Prog.Triple (accessAnswer world reads) (Leased base (some n)) (lift (epErrAck n ret out))
      fun _ => Leased base none := leased_ack.bind fun _ => .pure fun _ hl => hl

theorem leased_epTakeEvent (ep : Ep) (cfg : Cfg) :
    Prog.Triple (accessAnswer world reads) (Leased base (some n)) (epTakeEventR ep cfg n)
      fun _ => Leased base none := by
  refine leased_faultInjection (leased_epErrAck _ _) ?_
  refine (leased_keeps (keeps_readField _)).bind fun type => ?_
  split
  · refine (leased_keeps (keeps_connReqFromCmEvent _ _)).bind fun made => ?_
    cases made with
    | error ret => exact leased_epErrAck _ _
    | ok req =>
      refine leased_faultInjection ?_ (leased_ack.bind fun ok => ?_)
      · exact (leased_quiet (quiet_connReqDelete req)).bind fun _ => leased_epErrAck _ _
      · split
        · exact .pure fun _ hl => hl
        · exact (leased_quiet (quiet_connReqDelete req)).bind fun _ => .pure fun _ hl => hl
  · exact (leased_keeps (keeps_readField _)).bind fun _ => leased_epErrAck _ _

theorem returned_connNextEvent (conn : Conn) :
    Prog.Triple (accessAnswer world reads) (fun log => Held leaseAct log none ∧ log = base)
      (connNextEventR conn) fun _ => Returned base :=
  returned_get fun _ => leased_nextEventTake conn

theorem returned_epNextConnReq (ep : Ep) (cfg : Option Cfg) :
    Prog.Triple (accessAnswer world reads) (fun log => Held leaseAct log none ∧ log = base)
      (epNextConnReqR ep cfg) fun _ => Returned base :=
  returned_get fun _ => leased_epTakeEvent ep _

end Leases

/-! ## Runs -/

/-- A call of one of the two functions, on any endpoint or on a connection in any state; a `NULL`
pointer is `none`, or `false` for an out-parameter. -/
inductive CmCall where
  | epNextConnReq (ep : Option Ep) (cfg : Option Cfg) (reqPtr : Bool)
  | connNextEvent (conn : Option Conn) (event : Bool)

/-- Both functions with a `NULL` argument. -/
def nullArgumentR : R Int :=
  faultInjectionR (pure rpmaEProvider) <| faultInjectionR (pure rpmaENoEvent) (pure rpmaEInval)

def CmCall.prog : CmCall → R Unit
  | .epNextConnReq (some ep) cfg true => do let _ ← epNextConnReqR ep cfg; return ()
  | .connNextEvent (some conn) true => do let _ ← connNextEventR conn; return ()
  | _ => do let _ ← nullArgumentR; return ()

/-- The calls of a run, one after another. -/
def cmCalls : List CmCall → R Unit
  | [] => pure ()
  | c :: cs => do
    c.prog
    cmCalls cs

/-- The accesses of a run of calls. -/
def cmRun (world : World) (reads : Nat → (field : EventField) → field.Val) (calls : List CmCall)
    (log : AccessLog) : AccessLog :=
  ((cmCalls calls).run (accessAnswer world reads) log).2

section Runs

variable (world : World) (reads : Nat → (field : EventField) → field.Val)

theorem cmRun_append (before after : List CmCall) (log : AccessLog) :
    cmRun world reads (before ++ after) log =
      cmRun world reads after (cmRun world reads before log) := by
  induction before generalizing log with
  | nil => rfl
  | cons c cs ih => simpa only [cmRun, List.cons_append, cmCalls, Prog.run_bind] using ih _

theorem returned_nullArgument {log : AccessLog} (hl : Held leaseAct log none) :
    Returned log (nullArgumentR.run (accessAnswer world reads) log).2 := by
  have hpure : ∀ a : Int, Prog.Triple (accessAnswer world reads) (Leased log none) (pure a)
      fun _ => Leased log none := fun a => .pure fun _ hl => hl
  have hspec : Prog.Triple (accessAnswer world reads) (Leased log none) nullArgumentR
      fun _ => Leased log none :=
    leased_faultInjection (hpure _) (leased_faultInjection (hpure _) (hpure _))
  exact (hspec log ⟨hl, .refl⟩).returned

theorem cmRun_one {log : AccessLog} (call : CmCall) (hl : Held leaseAct log none) :
    Returned log (cmRun world reads [call] log) := by
  have hone : cmRun world reads [call] log =
      (call.prog.run (accessAnswer world reads) log).2 := by
    simp only [cmRun, cmCalls, Prog.run_bind, Prog.run_pure]
  rw [hone]
  unfold CmCall.prog
  split <;> rw [Prog.run_bind]
  · exact returned_epNextConnReq _ _ log ⟨hl, rfl⟩
  · exact returned_connNextEvent _ log ⟨hl, rfl⟩
  · exact returned_nullArgument world reads hl

theorem cmRun_held (calls : List CmCall) {log : AccessLog} (hl : Held leaseAct log none) :
    Held leaseAct (cmRun world reads calls log) none := by
  induction calls generalizing log with
  | nil => exact hl
  | cons c cs ih =>
    have happ := cmRun_append world reads [c] cs log
    rw [List.singleton_append] at happ
    rw [happ]
    exact ih (cmRun_one world reads c hl).1

/-- A `rdma_get_cm_event` obtained an event in the `i`-th access of a run. -/
abbrev ObtainedAt (log : AccessLog) (i : Nat) : Prop := ActAt leaseAct log i .take

/-- A `rdma_get_cm_event` failed in the `i`-th access. -/
def GetFailedAt (log : AccessLog) (i : Nat) : Prop := ∃ e, log[i]? = some e ∧ GetFailed e

/-- The `j`-th access acknowledges the event that the `i`-th obtained. -/
abbrev AckedAt (log : AccessLog) (j i : Nat) : Prop := ActAt leaseAct log j (.give i)

/-- The `k`-th access reads a field, or the private data, of the event that the `i`-th obtained. -/
abbrev ReadAt (log : AccessLog) (k i : Nat) : Prop := ActAt leaseAct log k (.touch i)

/-- **Every event is acknowledged once, by the call that obtained it, and not read afterwards.**
The run is cut before and after any one of its calls. -/
theorem cm_events_acked_once (before : List CmCall) (call : CmCall) (after : List CmCall) :
    let start := cmRun world reads before []
    let stop := cmRun world reads (before ++ [call]) []
    let log := cmRun world reads (before ++ call :: after) []
    (∀ i, ObtainedAt log i → start.length ≤ i → i < stop.length →
      ∃ j, i < j ∧ j < stop.length ∧ AckedAt log j i ∧ (∀ k, AckedAt log k i → k = j) ∧
        ∀ k, ReadAt log k i → i < k ∧ k < j) ∧
    (∀ i, GetFailedAt log i → start.length ≤ i → i < stop.length →
      ∀ j n, AckedAt log j n → ¬ (start.length ≤ j ∧ j < stop.length)) ∧
    (∀ j i, AckedAt log j i → ObtainedAt log i ∧ i < j) ∧
    (∀ k i, ReadAt log k i → ObtainedAt log i ∧ i < k) := by
  intro start stop log
  have hstart : Held leaseAct start none := cmRun_held world reads before .nil
  have hstop : stop = cmRun world reads [call] start := cmRun_append world reads before [call] []
  have hlog : log = cmRun world reads after stop := by
    rw [← cmRun_append, List.append_assoc, List.singleton_append]
  obtain ⟨hstop0, calls, hcalls, hfail⟩ := cmRun_one world reads call hstart
  rw [← hstop] at hstop0 hcalls
  have hlog0 : Held leaseAct log none := hlog ▸ cmRun_held world reads after hstop0
  have hpre : stop <+: log := hlog ▸ Prog.run_prefix _ _
  obtain ⟨rest, hrest⟩ := hpre
  have hlog1 : Held leaseAct (stop ++ rest) none := hrest.symm ▸ hlog0
  refine ⟨fun i hi _ hlt => ?_, fun i hi hge hlt j n hj ⟨hjge, hjlt⟩ => ?_, fun j i hj => ?_,
    fun k i hk => ?_⟩
  · rw [← hrest] at hi ⊢
    exact returned_once hstop0 hlog1 hi hlt
  · -- the acknowledgement is of an event obtained by this very call, whose only get failed
    have hmem : ∀ m e, log[m]? = some e → start.length ≤ m → m < stop.length → e ∈ calls := by
      intro m e hm hmge hmlt
      rw [← hrest, List.getElem?_append_left hmlt, hcalls, List.getElem?_append_right hmge] at hm
      exact List.mem_of_getElem? hm
    have hj' : ActAt leaseAct (start ++ calls) j (.give n) :=
      hcalls ▸ (hrest.symm ▸ hj : ActAt leaseAct (stop ++ rest) j (.give n)).of_append hjlt
    have hn : start.length ≤ n := given_since hstart (hcalls ▸ hstop0) hj' hjge
    obtain ⟨⟨e, he, htake⟩, hnj⟩ := hlog0.inv.taken j n hj
    obtain ⟨e', he', hfail'⟩ := hi
    exact hfail ⟨e', hmem i e' he' hge hlt, hfail'⟩ e (hmem n e he hn (by omega)) htake
  · exact hlog0.inv.taken j i hj
  · obtain ⟨hlt, ht, -⟩ := hlog0.inv.touched k i hk
    exact ⟨ht, hlt⟩

end Runs

/-- A world in which every call succeeds and every event reports an established connection. -/
def everyEventEstablished : World := fun _ =>
  { ok := true, errno := .other, handle := 0, fault := false, event := ⟨.established, some [1]⟩,
    evCq := 0, polled := 1 }

/-- A connection without private data on the event channel 20. -/
def connOn20 : Conn :=
  { ptr := 33, id := 0, qp := 15, evch := 20, cq := ⟨8, 3, true, 5⟩, rcq := none, channel := some 3,
    data := .empty, flush := ⟨24, ⟨32, 27, ⟨29, 31⟩⟩⟩, directWriteToPmem := false }

/-- The connection takes an event, copies its private data and acknowledges it; an endpoint is given
an event that is no connection request, and acknowledges it. -/
example : ((cmRun everyEventEstablished (fun n field => field.of n (everyEventEstablished n).event)
      [.connNextEvent (some connOn20) true, .epNextConnReq (some ⟨⟨true, true⟩, 0⟩) none true]
      []).map leaseAct).filter (· != .idle) =
    [.take, .touch 2, .touch 2, .touch 2, .touch 2, .touch 2, .give 2,
      .take, .touch 14, .touch 14, .give 14] := by
  decide +kernel

end Rpma.Librpma
