import Rpma.Librpma.Request

/-!
# What requests and connections own

`Req.toks` and `Conn.toks` are the tokens of a request and of a connection, the latter in the order
in which `rpma_conn_delete` gives them back: each stage is what is left at one of its labels. The
CM ID of a request is not among its tokens, since the two sides part ways over it.

`Wired` says how the CQs are tied to completion channels. It holds of everything that
`rpma_conn_req_from_id` builds (`connReqFromId_spec`), and it is why the channels can be destroyed
where the code destroys them.

* `connReqFromId_spec`, `connNew_spec`: a constructor that fails leaves nothing behind.
* `connReqDelete_spec`, `connDelete_spec`: a destructor leaves nothing behind, but for the CM ID of
  an incoming request.
-/

namespace Rpma.Librpma

open Rpma.Lib Rpma.Lib.Ledger

/-! ## Tokens -/

def rcqToks : Option Cq → Multiset (Tok Obj)
  | none => 0
  | some rcq => rcq.toks

/-- The completion channel shared by the CQs. -/
def sharedToks : Option Nat → Multiset (Tok Obj)
  | none => 0
  | some channel => {tok .compChannel channel []}

def PrivateData.toks (pdata : PrivateData) : Multiset (Tok Obj) :=
  match pdata.ptr with
  | none => 0
  | some ptr => {tok .heap ptr []}

def qpTok (id qp : Nat) (cq : Cq) (rcq : Option Cq) : Tok Obj :=
  tok .qp qp [⟨.cmId, id⟩, ⟨.cq, cq.cq⟩, ⟨.cq, (rcq.getD cq).cq⟩]

def Req.toks (req : Req) : Multiset (Tok Obj) :=
  qpTok req.id req.qp req.cq req.rcq ::ₘ (rcqToks req.rcq + (req.cq.toks +
    (sharedToks req.channel + (req.data.toks + {tok .heap req.ptr []}))))

/-- What is left of a connection at `err_destroy_event_channel`. -/
def Conn.evchStage (conn : Conn) : Multiset (Tok Obj) :=
  tok .eventChannel conn.evch [] ::ₘ (conn.data.toks + {tok .heap conn.ptr []})

/-- What is left at `err_destroy_comp_channel`. -/
def Conn.channelStage (conn : Conn) : Multiset (Tok Obj) :=
  sharedToks conn.channel + conn.evchStage

/-- What is left at `err_destroy_id`. -/
def Conn.idStage (conn : Conn) : Multiset (Tok Obj) :=
  tok .cmId conn.id [⟨.eventChannel, conn.evch⟩] ::ₘ conn.channelStage

/-- What is left at `err_rpma_cq_delete`. -/
def Conn.cqStage (conn : Conn) : Multiset (Tok Obj) := conn.cq.toks + conn.idStage

/-- What is left at `err_destroy_qp`. -/
def Conn.qpStage (conn : Conn) : Multiset (Tok Obj) :=
  qpTok conn.id conn.qp conn.cq conn.rcq ::ₘ (rcqToks conn.rcq + conn.cqStage)

def Conn.toks (conn : Conn) : Multiset (Tok Obj) := conn.flush.toks + conn.qpStage

@[simp] theorem free_cqToks (o : Obj) (cq : Cq) :
    Free o cq.toks ↔ o ≠ ⟨.compChannel, cq.channel⟩ := by
  simp [Cq.toks, tok, free_channelToks]

@[simp] theorem free_rcqToks (o : Obj) (rcq : Option Cq) :
    Free o (rcqToks rcq) ↔ ∀ r ∈ rcq, o ≠ ⟨.compChannel, r.channel⟩ := by
  cases rcq <;> simp [rcqToks]

@[simp] theorem free_sharedToks (o : Obj) (channel : Option Nat) : Free o (sharedToks channel) := by
  cases channel <;> simp [sharedToks, tok]

@[simp] theorem free_dataToks (o : Obj) (pdata : PrivateData) : Free o pdata.toks := by
  unfold PrivateData.toks
  split <;> simp [tok]

@[simp] theorem free_evchStage (o : Obj) (conn : Conn) : Free o conn.evchStage := by
  simp [Conn.evchStage, tok]

@[simp] theorem free_channelStage (o : Obj) (conn : Conn) : Free o conn.channelStage := by
  simp [Conn.channelStage]

@[simp] theorem free_idStage (o : Obj) (conn : Conn) :
    Free o conn.idStage ↔ o ≠ ⟨.eventChannel, conn.evch⟩ := by
  simp [Conn.idStage, tok]

/-! ## Wiring -/

/-- **How CQs are tied to completion channels**: all to the shared one, or each to its own. -/
structure Wired (channel : Option Nat) (cq : Cq) (rcq : Option Cq) : Prop where
  shared : cq.sharedCompChannel = channel.isSome ∧ ∀ r ∈ rcq, r.sharedCompChannel = channel.isSome
  same : ∀ c ∈ channel, cq.channel = c ∧ ∀ r ∈ rcq, r.channel = c
  own : channel = none → ∀ r ∈ rcq, r.channel ≠ cq.channel

section Specs

variable {world : World} {I : CallLog → Prop} [Stable I] {A L : Multiset (Tok Obj)}

theorem destroyQp_spec (id qp : Nat) (cq : Cq) (rcq : Option Cq) :
    Prog.Triple world.answer (Owned I (qpTok id qp cq rcq ::ₘ A) L) (exec (.rdmaDestroyQp id qp))
      fun _ => Owned I A L :=
  exec_release_leaf A _ (fun _ _ => rfl) rfl rfl

/-- Deleting the receive CQ, which may be missing, before the other one. -/
theorem rcqDelete_spec {channel : Option Nat} {cq : Cq} {rcq : Option Cq}
    (hw : Wired channel cq rcq) (hA : ∀ n, Free ⟨.cq, n⟩ A ∧ Free ⟨.compChannel, n⟩ A) :
    Prog.Triple world.answer (Owned I (rcqToks rcq + (cq.toks + A)) L) (cqDelete rcq)
      fun _ => Owned I (cq.toks + A) L := by
  cases rcq with
  | none => exact .pure fun _ h => h.congr (by simp [rcqToks])
  | some r =>
    refine cqDelete_spec r ?_ fun hs => ?_
    · simp [(hA _).1]
    · have hnone : channel = none := by simpa [hw.shared.2 r rfl] using hs
      simp [(hA _).2, hw.own hnone r rfl]

theorem cqDelete_last_spec (cq : Cq) (hA : ∀ n, Free ⟨.cq, n⟩ A ∧ Free ⟨.compChannel, n⟩ A) :
    Prog.Triple world.answer (Owned I (cq.toks + A) L) (cqDelete (some cq)) fun _ => Owned I A L :=
  cqDelete_spec cq (hA _).1 fun _ => (hA _).2

theorem destroyCompChannel_spec (channel : Option Nat) (hA : ∀ n, Free ⟨.compChannel, n⟩ A) :
    Prog.Triple world.answer (Owned I (sharedToks channel + A) L) (destroyCompChannel channel)
      fun _ => Owned I A L := by
  cases channel with
  | none => exact .pure fun _ h => h.congr (by simp [sharedToks])
  | some c =>
    refine exec_release A [] (fun _ _ => rfl) ?_ List.not_mem_nil (hA c)
    simp [sharedToks, tok]

theorem checkDestroyCompChannel_spec (channel : Option Nat) (hA : ∀ n, Free ⟨.compChannel, n⟩ A) :
    Prog.Triple world.answer (Owned I (sharedToks channel + A) L) (checkDestroyCompChannel channel)
      fun _ => Owned I A L := by
  cases channel with
  | none => exact .pure fun _ h => h.congr (by simp [sharedToks])
  | some c =>
    refine (check_release A [] (fun _ _ => rfl) ?_ List.not_mem_nil (hA c)).bind fun ok => ?_
    · simp [sharedToks, tok]
    · split <;> exact .pure fun _ h => h

theorem privateDataDiscard_spec (pdata : PrivateData) :
    Prog.Triple world.answer (Owned I (pdata.toks + A) L) (privateDataDiscard pdata)
      fun r log => Owned I A L log ∧ r = .empty := by
  unfold privateDataDiscard PrivateData.toks
  cases pdata.ptr with
  | none =>
    exact (exec_keep fun _ _ => rfl).bind fun _ => .pure fun _ h => ⟨h.congr (by simp), rfl⟩
  | some ptr =>
    refine (exec_release_leaf A [] (fun _ _ => rfl) ?_ rfl).bind fun _ => .pure fun _ h => ⟨h, rfl⟩
    simp [tok]

/-- The private data was copied, or it was not and what is known of the run became `K`. -/
def Stored (I K : CallLog → Prop) (A L : Multiset (Tok Obj)) :
    Except Int PrivateData → CallLog → Prop
  | .error _, log => Owned K A L log
  | .ok data, log => Owned I (data.toks + A) L log

/-- **`rpma_private_data_store`** into an empty private data. A failure may change what is known of
the run from `I` to `K`. -/
theorem privateDataStore_spec {K : CallLog → Prop} (edata : CmEvent) {pdata : PrivateData}
    (hp : pdata.ptr = none)
    (hfault : ∀ log a, (world log.length).fault = true → I log → K (log ++ [⟨.faultInjection, a⟩]))
    (hok : ∀ log a, a.ok = true → I log → I (log ++ [⟨.malloc .privateData, a⟩]))
    (hfail : ∀ log a, a.ok = false → I log → K (log ++ [⟨.malloc .privateData, a⟩])) :
    Prog.Triple world.answer (Owned I A L) (privateDataStore edata pdata) (Stored I K A L) := by
  have hissue : Prog.Triple world.answer (Owned I A L) (Prog.issue .faultInjection) fun a log =>
      if a.fault then Owned K A L log else Owned I A L log := by
    refine .issue fun log h => ?_
    split
    · rename_i hf
      exact ⟨h.owns.keep rfl, h.free, hfault _ _ hf h.inv⟩
    · exact ⟨h.owns.keep rfl, h.free, h.stable rfl⟩
  have hkeep : Prog.Triple world.answer (Owned I A L) (pure (.ok pdata)) (Stored I K A L) :=
    .pure fun _ h => h.congr (by simp [PrivateData.toks, hp])
  refine hissue.bind fun a => ?_
  split
  · exact .pure fun _ h => h
  · split
    · exact hkeep
    · exact hkeep
    · refine (create_triple (fun _ _ => rfl) (by simp) hok hfail).bind fun r => ?_
      cases r with
      | none => exact .pure fun _ h => h
      | some ptr => exact .pure fun _ h => h.1.congr (by simp [PrivateData.toks, tok])

/-! ## `rpma_conn_req_from_id` -/

/-- What `rpma_conn_req_from_id` promises of the request it returns. -/
structure Req.Built (peer : Peer) (id : Nat) (req : Req) : Prop where
  peer_eq : req.peer = peer
  id_eq : req.id = id
  active : req.isPassive = false
  data_eq : req.data = .empty
  wired : Wired req.channel req.cq req.rcq

section FromId

variable {peer : Peer} {id : Nat} {channel : Option Nat} {cq : Cq} {rcq : Option Cq}

theorem fromIdErrCompChannelDestroy_spec (ret : Int) :
    Prog.Triple world.answer (Owned I (sharedToks channel) L)
      (fromIdErrCompChannelDestroy channel ret) (Made I 0 L Req.toks (Req.Built peer id)) := by
  refine Prog.Triple.bind (Q := fun _ => Owned I 0 L) ?_ fun _ => .pure fun _ h => h
  exact (destroyCompChannel_spec channel (by simp)).conseq (fun _ h => h.congr (by simp))
    fun _ _ h => h

theorem fromIdErrCqDelete_spec (ret : Int) :
    Prog.Triple world.answer (Owned I (cq.toks + sharedToks channel) L)
      (fromIdErrCqDelete channel cq ret) (Made I 0 L Req.toks (Req.Built peer id)) :=
  (cqDelete_last_spec cq (by simp)).bind fun _ => fromIdErrCompChannelDestroy_spec ret

theorem fromIdErrRcqDelete_spec (hw : Wired channel cq rcq) (ret : Int) :
    Prog.Triple world.answer (Owned I (rcqToks rcq + (cq.toks + sharedToks channel)) L)
      (fromIdErrRcqDelete channel cq rcq ret) (Made I 0 L Req.toks (Req.Built peer id)) :=
  (rcqDelete_spec hw (by simp)).bind fun _ => fromIdErrCqDelete_spec ret

theorem peerCreateQp_spec (hid : Held ⟨.cmId, id⟩ (A + L)) (hcq : Held ⟨.cq, cq.cq⟩ (A + L))
    (hrcq : Held ⟨.cq, (rcq.getD cq).cq⟩ (A + L)) :
    Prog.Triple world.answer (Owned I A L) (peerCreateQp id cq rcq)
      (Made I A L (fun qp => {qpTok id qp cq rcq}) fun _ => True) := by
  refine faultInjection_triple (.pure fun _ h => h) ?_
  refine (create_acquire (fun _ _ => rfl) (by simp_all)).bind fun r => ?_
  cases r with
  | none => exact .pure fun _ h => h
  | some qp => exact .pure fun _ h => ⟨h.1.congr (by simp [qpTok, tok]), trivial⟩

theorem held_cqToks (cq : Cq) : Held ⟨.cq, cq.cq⟩ cq.toks := by
  simp [Cq.toks, tok]

theorem fromIdQp_spec (rcq : Option Cq) (hw : Wired channel cq rcq) (hid : Held ⟨.cmId, id⟩ L) :
    Prog.Triple world.answer (Owned I (rcqToks rcq + (cq.toks + sharedToks channel)) L)
      (fromIdQp peer id channel cq rcq) (Made I 0 L Req.toks (Req.Built peer id)) := by
  have hcq := held_cqToks cq
  have hrcq : Held ⟨.cq, (rcq.getD cq).cq⟩ (rcqToks rcq + (cq.toks + sharedToks channel) + L) := by
    cases rcq with
    | none => simp [hcq]
    | some r => simp [rcqToks, held_cqToks r]
  refine (peerCreateQp_spec (by simp [hid]) (by simp [hcq]) hrcq).bind fun r => ?_
  cases r with
  | error ret => exact fromIdErrRcqDelete_spec hw ret
  | ok qp =>
    refine .and_pure fun _ => (create_acquire (fun _ _ => rfl) (by simp)).bind fun r => ?_
    cases r with
    | none => exact (destroyQp_spec id qp cq rcq).bind fun _ => fromIdErrRcqDelete_spec hw _
    | some ptr =>
      refine .and_pure fun _ => .pure fun _ h => ⟨h.congr ?_, rfl, rfl, rfl, rfl, hw⟩
      simp only [Req.toks, PrivateData.toks, PrivateData.empty, tok, ← Multiset.singleton_add]
      abel

theorem fromIdCqs_spec {I : CallLog → Prop} [StableCq I] (channel : Option Nat) (cfg : Cfg)
    (hid : Held ⟨.cmId, id⟩ L) :
    Prog.Triple world.answer (Owned I (sharedToks channel) L) (fromIdCqs peer id cfg channel)
      (Made I 0 L Req.toks (Req.Built peer id)) := by
  have hch : ∀ c, channel = some c → Held ⟨.compChannel, c⟩ (sharedToks channel) := by
    rintro c rfl
    simp [sharedToks, tok]
  refine (cqNew_spec _ channel fun c hc => by simp [hch c hc]).bind fun r => ?_
  cases r with
  | error ret => exact fromIdErrCompChannelDestroy_spec ret
  | ok cq =>
    refine .and_pure fun hcq => ?_
    dsimp only
    split
    · refine (cqNew_spec _ channel fun c hc => by simp [hch c hc]).bind fun r => ?_
      cases r with
      | error ret => exact fromIdErrCqDelete_spec ret
      | ok rcq =>
        refine .and_pure fun hrcq => ?_
        refine fromIdQp_spec (some rcq) ⟨?_, ?_, ?_⟩ hid
        · simp [hcq.shared, hrcq.shared]
        · intro c hc
          simp [hcq.channel c hc, hrcq.channel c hc]
        · intro hnone
          have hne := hrcq.free_channel hnone
          simpa using hne
    · refine (fromIdQp_spec none ⟨?_, ?_, by simp⟩ hid).conseq
        (fun _ h => h.congr (by simp [rcqToks])) fun _ _ h => h
      · simp [hcq.shared]
      · intro c hc
        simp [hcq.channel c hc]

/-- **`rpma_conn_req_from_id`** gives a CM ID its QP and CQs, or leaves nothing behind. -/
theorem connReqFromId_spec {I : CallLog → Prop} [StableCq I] (cfg : Cfg)
    (hid : Held ⟨.cmId, id⟩ L) :
    Prog.Triple world.answer (Owned I 0 L) (connReqFromId peer id cfg)
      (Made I 0 L Req.toks (Req.Built peer id)) := by
  refine faultInjection_triple (.pure fun _ h => h) ?_
  refine Prog.Triple.bind (Q := fun _ => Owned I 0 L) ?_ fun shared => ?_
  · exact faultInjection_triple (.pure fun _ h => h) (.pure fun _ h => h)
  split
  · refine (create_acquire (fun _ _ => rfl) (by simp)).bind fun r => ?_
    cases r with
    | none => exact .pure fun _ h => h
    | some channel =>
      refine .and_pure fun _ => (fromIdCqs_spec (some channel) cfg hid).conseq
        (fun _ h => h.congr ?_) fun _ _ h => h
      simp [sharedToks, tok]
  · refine (fromIdCqs_spec none cfg hid).conseq (fun _ h => h.congr ?_) fun _ _ h => h
    simp [sharedToks]

/-- `rpma_conn_req_from_id` next to what is already held, the CM ID included. -/
theorem connReqFromId_frame_spec {I : CallLog → Prop} [StableCq I] (cfg : Cfg)
    (hid : Held ⟨.cmId, id⟩ A) :
    Prog.Triple world.answer (Owned I A L) (connReqFromId peer id cfg)
      (Made I A L Req.toks (Req.Built peer id)) := by
  have hfrom : Prog.Triple world.answer (Owned I 0 (A + L)) (connReqFromId peer id cfg)
      (Made I 0 (A + L) Req.toks (Req.Built peer id)) := connReqFromId_spec cfg (by simp [hid])
  have hframe : Prog.Triple world.answer (Owned I (0 + A) L) (connReqFromId peer id cfg)
      (Made I A L Req.toks (Req.Built peer id)) := by
    refine frame_triple A hfrom (by simp) fun hL r log h => ?_
    cases r with
    | error ret => exact (h.unframe hL).congr (zero_add A)
    | ok req => exact ⟨(h.1.unframe hL).congr (by simp), h.2⟩
  exact hframe.conseq (fun _ h => h.congr (zero_add A).symm) fun _ _ h => h

end FromId

/-! ## `rpma_conn_req_delete` -/

/-- What a deleted request leaves of its CM ID. -/
def Req.idLeft (req : Req) : Multiset (Tok Obj) :=
  if req.isPassive then {tok .cmId req.id []} else 0

/-- A request with its CM ID, in the order in which it is deleted. -/
theorem Req.toks_id (req : Req) : tok .cmId req.id [] ::ₘ req.toks =
    qpTok req.id req.qp req.cq req.rcq ::ₘ (rcqToks req.rcq + (req.cq.toks +
      (tok .cmId req.id [] ::ₘ (sharedToks req.channel +
        (req.data.toks + {tok .heap req.ptr []}))))) := by
  simp only [Req.toks, ← Multiset.singleton_add]
  abel

theorem connReqReject_spec (req : Req) : Prog.Triple world.answer (Owned I A L) (connReqReject req)
    fun _ => Owned I A L := by
  refine (check_keep fun _ _ => rfl).bind fun ok => ?_
  split
  · exact faultInjection_triple (.pure fun _ h => h) (.pure fun _ h => h)
  · exact .pure fun _ h => h

theorem connReqDestroy_spec (req : Req) (hA : Free ⟨.cmId, req.id⟩ A) :
    Prog.Triple world.answer (Owned I (tok .cmId req.id [] ::ₘ A) L) (connReqDestroy req)
      fun _ => Owned I A L := by
  refine (check_release A [] (fun _ _ => rfl) rfl List.not_mem_nil hA).bind fun ok => ?_
  split
  · exact faultInjection_triple (.pure fun _ h => h) (.pure fun _ h => h)
  · exact .pure fun _ h => h

/-- Rejecting an incoming request keeps its CM ID, destroying an outgoing one does not. -/
theorem rejectOrDestroy_spec (req : Req) (hA : Free ⟨.cmId, req.id⟩ A) :
    Prog.Triple world.answer (Owned I (tok .cmId req.id [] ::ₘ A) L)
      (rejectOrDestroy req) fun _ => Owned I (A + req.idLeft) L := by
  unfold rejectOrDestroy
  cases hp : req.isPassive with
  | true =>
    refine (connReqReject_spec req).conseq (fun _ h => h.congr ?_) fun _ _ h => h
    simp only [Req.idLeft, hp, if_true, ← Multiset.singleton_add]
    abel
  | false =>
    refine (connReqDestroy_spec req hA).conseq (fun _ h => h) fun _ _ h => h.congr ?_
    simp [Req.idLeft, hp]

/-- **`rpma_conn_req_delete`** gives back everything but the CM ID of an incoming request. -/
theorem connReqDelete_spec (req : Req) (hw : Wired req.channel req.cq req.rcq) :
    Prog.Triple world.answer (Owned I (tok .cmId req.id [] ::ₘ req.toks) L) (connReqDelete req)
      fun _ => Owned I req.idLeft L := by
  rw [Req.toks_id]
  have hleft : ∀ o, Free o req.idLeft := by
    intro o
    unfold Req.idLeft
    split <;> simp [tok]
  refine (destroyQp_spec _ _ _ _).bind fun _ => ?_
  refine (rcqDelete_spec hw (by simp [tok])).bind fun ret => ?_
  refine (cqDelete_last_spec _ (by simp [tok])).bind fun ret2 => ?_
  refine (rejectOrDestroy_spec req (by simp [tok])).bind fun ret2 => ?_
  refine Prog.Triple.bind
    (Q := fun _ => Owned I (req.data.toks + ({tok .heap req.ptr []} + req.idLeft)) L)
    ((checkDestroyCompChannel_spec req.channel ?_).conseq (fun _ h => h.congr ?_) fun _ _ h => h)
    fun ret2 => ?_
  · simp [tok, hleft]
  · abel
  refine (privateDataDiscard_spec _).bind fun _ => .and_pure fun _ => ?_
  refine (exec_release_leaf req.idLeft [] (fun _ _ => rfl) ?_ rfl).bind fun _ => ?_
  · simp [tok]
  · exact faultInjection_triple (.pure fun _ h => h) (.pure fun _ h => h)

/-! ## `rpma_conn_new` -/

/-- What `rpma_conn_new` makes, on top of what the request already has. -/
def Conn.newToks (conn : Conn) : Multiset (Tok Obj) :=
  conn.flush.toks + (tok .cmId conn.id [⟨.eventChannel, conn.evch⟩] ::ₘ
    tok .eventChannel conn.evch [] ::ₘ {tok .heap conn.ptr []})

/-- The connection has the CQs of the request. -/
structure Conn.Over (req : Req) (conn : Conn) : Prop where
  cq_eq : conn.cq = req.cq
  rcq_eq : conn.rcq = req.rcq
  channel_eq : conn.channel = req.channel

theorem Conn.Over.wired {req : Req} {conn : Conn} (ho : Conn.Over req conn)
    (hw : Wired req.channel req.cq req.rcq) : Wired conn.channel conn.cq conn.rcq := by
  rw [ho.channel_eq, ho.cq_eq, ho.rcq_eq]
  exact hw

/-- The connection takes over what the request has. -/
structure Conn.TakesOver (req : Req) (conn : Conn) : Prop extends Conn.Over req conn where
  id_eq : conn.id = req.id
  qp_eq : conn.qp = req.qp
  data_eq : conn.data = .empty

theorem connNewErrDestroyEvch_spec (id evch : Nat) (ret : Int) (Q : Conn → CallLog → Prop)
    (hA : Free ⟨.eventChannel, evch⟩ A) :
    Prog.Triple world.answer (Owned I (tok .eventChannel evch [] ::ₘ tok .cmId id [] ::ₘ A) L)
      (connNewErrDestroyEvch evch ret) fun r log => match r with
        | .error _ => Owned I (tok .cmId id [] ::ₘ A) L log
        | .ok conn => Q conn log := by
  refine (exec_release _ [] (fun _ _ => rfl) rfl List.not_mem_nil ?_).bind fun _ => ?_
  · simp [tok, hA]
  · exact .pure fun _ h => h

theorem connNewErrMigrateIdNull_spec {I : CallLog → Prop} [StableAway I] (id evch : Nat)
    (ret : Int) (Q : Conn → CallLog → Prop) (hA : Free ⟨.eventChannel, evch⟩ A) :
    Prog.Triple world.answer (Owned I (tok .cmId id [⟨.eventChannel, evch⟩] ::ₘ
        tok .eventChannel evch [] ::ₘ A) L)
      (connNewErrMigrateIdNull id evch ret) fun r log => match r with
        | .error _ => Owned I (tok .cmId id [] ::ₘ A) L log
        | .ok conn => Q conn log := by
  have heq : connNewErrMigrateIdNull id evch ret =
      (do exec (.rdmaMigrateId id none); exec (.rdmaDestroyEventChannel evch)) >>= fun _ =>
        pure (.error ret) := rfl
  rw [heq]
  exact (exec_migrate_away hA).bind fun _ => .pure fun _ h => h

/-- **`rpma_conn_new`** moves the CM ID of a request to an event channel of its own, or leaves
things as they were. A success may change what is known of the run from `I` to `J`. -/
theorem connNew_spec {I J : CallLog → Prop} [StableAway I] (req : Req)
    (hok : ∀ log a, a.ok = true → I log → J (log ++ [⟨.malloc .conn, a⟩]))
    (hfail : ∀ log a, a.ok = false → I log → I (log ++ [⟨.malloc .conn, a⟩])) :
    Prog.Triple world.answer (Owned I (tok .cmId req.id [] ::ₘ A) L) (connNew req) fun r log =>
      match r with
      | .error _ => Owned I (tok .cmId req.id [] ::ₘ A) L log
      | .ok conn => Owned J (conn.newToks + A) L log ∧ Conn.TakesOver req conn := by
  refine faultInjection_triple (.pure fun _ h => h) ?_
  refine (create_acquire (fun _ _ => rfl) (by simp)).bind fun r => ?_
  cases r with
  | none => exact .pure fun _ h => h
  | some evch =>
    refine .and_pure fun hevch => ?_
    have hfree : Free ⟨.eventChannel, evch⟩ A := ((free_cons _ _ _).mp hevch).2
    refine faultInjection_triple (connNewErrDestroyEvch_spec req.id evch _ _ hfree) ?_
    refine Prog.Triple.bind (Q := fun ok log => if ok = true then
        Owned I (tok .cmId req.id [⟨.eventChannel, evch⟩] ::ₘ tok .eventChannel evch [] ::ₘ A) L log
      else Owned I (tok .eventChannel evch [] ::ₘ tok .cmId req.id [] ::ₘ A) L log)
      (((check_migrate (A := tok .eventChannel evch [] ::ₘ A) ?_ rfl).conseq
        (fun _ h => h.congr (Multiset.cons_swap _ _ _))) fun ok log h => ?_) fun ok => ?_
    · simp [tok]
    · cases ok with
      | true => exact h
      | false => exact h.congr (Multiset.cons_swap _ _ _)
    cases ok with
    | false => exact connNewErrDestroyEvch_spec req.id evch _ _ hfree
    | true =>
      refine (flushNew_spec req.peer).bind fun r => ?_
      cases r with
      | error ret => exact connNewErrMigrateIdNull_spec req.id evch ret _ hfree
      | ok flush =>
        refine .and_pure fun hraw => ?_
        refine (create_triple (fun _ _ => rfl) (by simp) hok hfail).bind fun r => ?_
        cases r with
        | none =>
          refine (flushDelete_spec flush hraw).bind fun _ => ?_
          exact connNewErrMigrateIdNull_spec req.id evch _ _ hfree
        | some ptr =>
          refine .pure fun _ h => ⟨h.1.congr ?_, ⟨rfl, rfl, rfl⟩, rfl, rfl, rfl⟩
          simp only [Conn.newToks, tok, ← Multiset.singleton_add]
          abel

/-! ## `rpma_conn_delete` -/

section Delete

variable {conn : Conn}

theorem connDeleteEventChannel_spec (ret : Int) :
    Prog.Triple world.answer (Owned I conn.evchStage L) (connDeleteEventChannel conn ret)
      fun _ => Owned I 0 L := by
  refine (exec_release _ [] (fun _ _ => rfl) rfl List.not_mem_nil (by simp [tok])).bind fun _ => ?_
  refine (privateDataDiscard_spec _).bind fun _ => .and_pure fun _ => ?_
  exact (exec_release_leaf 0 [] (fun _ _ => rfl) rfl rfl).bind fun _ => .pure fun _ h => h

theorem connDeleteErrCompChannel_spec (ret : Int) :
    Prog.Triple world.answer (Owned I conn.channelStage L) (connDeleteErrCompChannel conn ret)
      fun _ => Owned I 0 L :=
  (destroyCompChannel_spec conn.channel (by simp)).bind fun _ => connDeleteEventChannel_spec ret

theorem connDeleteErrDestroyId_spec (ret : Int) :
    Prog.Triple world.answer (Owned I conn.idStage L) (connDeleteErrDestroyId conn ret)
      fun _ => Owned I 0 L :=
  (exec_release _ _ (fun _ _ => rfl) rfl (by simp) (by simp)).bind fun _ =>
    connDeleteErrCompChannel_spec ret

theorem connDeleteErrCqDelete_spec (ret : Int) :
    Prog.Triple world.answer (Owned I conn.cqStage L) (connDeleteErrCqDelete conn ret)
      fun _ => Owned I 0 L :=
  (cqDelete_last_spec conn.cq (by simp)).bind fun _ => connDeleteErrDestroyId_spec ret

theorem connDeleteErrDestroyQp_spec (hw : Wired conn.channel conn.cq conn.rcq) (ret : Int) :
    Prog.Triple world.answer (Owned I conn.qpStage L) (connDeleteErrDestroyQp conn ret)
      fun _ => Owned I 0 L :=
  (destroyQp_spec _ _ _ _).bind fun _ => (rcqDelete_spec hw (by simp)).bind fun _ =>
    connDeleteErrCqDelete_spec ret

theorem connDeleteCompChannel_spec :
    Prog.Triple world.answer (Owned I conn.channelStage L) (connDeleteCompChannel conn)
      fun _ => Owned I 0 L := by
  unfold connDeleteCompChannel Conn.channelStage
  cases conn.channel with
  | none =>
    refine (connDeleteEventChannel_spec 0).conseq (fun _ h => h.congr ?_) fun _ _ h => h
    simp [sharedToks]
  | some channel =>
    refine (check_release conn.evchStage [] (fun _ _ => rfl) ?_ List.not_mem_nil
      (by simp)).bind fun ok => ?_
    · simp [sharedToks, tok]
    split
    · exact faultInjection_triple (connDeleteEventChannel_spec _) (connDeleteEventChannel_spec _)
    · exact connDeleteEventChannel_spec _

/-- **`rpma_conn_delete`** gives back everything, whatever the provider answers. -/
theorem connDelete_spec (hw : Wired conn.channel conn.cq conn.rcq) :
    Prog.Triple world.answer (Owned I conn.toks L) (connDelete conn) fun _ => Owned I 0 L := by
  refine (flushDelete_spec conn.flush ?_).bind fun ret => ?_
  · simp [Conn.qpStage, Conn.cqStage, qpTok, tok]
  split
  · exact connDeleteErrDestroyQp_spec hw _
  refine (destroyQp_spec _ _ _ _).bind fun _ => (rcqDelete_spec hw (by simp)).bind fun ret => ?_
  split
  · exact connDeleteErrCqDelete_spec _
  refine (cqDelete_last_spec conn.cq (by simp)).bind fun ret => ?_
  split
  · exact connDeleteErrDestroyId_spec _
  refine (check_release _ _ (fun _ _ => rfl) rfl (by simp) (by simp)).bind fun ok => ?_
  split
  · exact faultInjection_triple (connDeleteErrCompChannel_spec _) connDeleteCompChannel_spec
  · exact connDeleteErrCompChannel_spec _

end Delete

end Specs

end Rpma.Librpma
