import Rpma.Librpma.Active

/-!
# The passive side and the CM ID of an incoming request

The CM ID that comes with a connection request belongs to the application, which has to destroy it.
`passiveHistory` is the life of one incoming request: `rpma_ep_next_conn_req`, and then what the
application does with the request it got, if any.

Two of its paths destroy the CM ID: the one on which the copy of the private data cannot be
allocated (the request is deleted before it is marked as passive), and the one on which a
connection was made, whose `rpma_conn_delete` destroys it. `Saves` picks out these two by the
answers of two allocations. On every other path the CM ID is left behind: `rpma_conn_req_reject`
and the error path of `rpma_conn_req_accept` do not destroy it, nor does anyone when
`rpma_conn_req_from_id` fails.

* **`id_destroyed_iff`**: the CM ID is destroyed exactly once iff one of the two answers was given.
* `id_lost_by_delete`: it is not when all goes well and the application deletes the request.
-/

namespace Rpma.Librpma

open Rpma.Lib Rpma.Lib.Ledger

/-! ## What decides the fate of the CM ID -/

/-- The copy of the private data could not be allocated, or the connection object could. -/
def Saves : (Σ _ : Call, Answer) → Prop
  | ⟨.malloc .privateData, a⟩ => a.ok = false
  | ⟨.malloc .conn, a⟩ => a.ok = true
  | _ => False

/-- No such answer was given since `base`. -/
abbrev Doomed (base : CallLog) : CallLog → Prop := Prog.AllSince (fun e => ¬ Saves e) base True

/-- Such an answer was given. -/
abbrev Saved (base : CallLog) : CallLog → Prop := Prog.AllSince (fun e => ¬ Saves e) base False

theorem not_saves_of_ordinary {c : Call} (a : Answer) (hc : c.ordinary = true) :
    ¬ Saves ⟨c, a⟩ := by
  unfold Call.ordinary at hc
  unfold Saves
  split at hc
  · cases hc
  · cases hc
  · cases hc
  · cases hc
  · split <;> simp_all

instance (base : CallLog) : StableCq (Doomed base) where
  keep _ _ a hc h := (h.snoc _).congr (by simp [not_saves_of_ordinary a hc])
  keep_cq _ _ _ _ h := (h.snoc _).congr (by simp [Saves])

instance (base : CallLog) : StableAway (Doomed base) where
  keep_away _ _ _ _ _ _ _ h := ((h.snoc _).snoc _).congr (by simp [Saves])

instance (base : CallLog) : Lasting (Saved base) where
  keep _ _ h := (h.snoc _).congr (by simp)

section Specs

variable {world : World} {I J : CallLog → Prop} [Stable I] {L : Multiset (Tok Obj)}

/-! ## Connecting -/

def Req.idTok (req : Req) : Tok Obj := tok .cmId req.id []

/-- An incoming request. -/
structure Req.Incoming (req : Req) : Prop where
  passive : req.isPassive = true
  wired : Wired req.channel req.cq req.rcq

/-- An incoming request was turned into a connection, or its CM ID is left, next to `B`. -/
def Accepted (I J : CallLog → Prop) (req : Req) (B L : Multiset (Tok Obj)) :
    Except Int Conn → CallLog → Prop
  | .error _, log => Owned I (req.idTok ::ₘ B) L log
  | .ok conn, log => Owned J (conn.toks + B) L log ∧ Conn.Over req conn

theorem acceptErrConnReqDelete_spec {req : Req} (hw : Wired req.channel req.cq req.rcq)
    (ret : Int) : Prog.Triple world.answer (Owned I req.withId L) (acceptErrConnReqDelete req ret)
      (Accepted I J req req.shell L) := by
  rw [Req.withId, Req.toks_id]
  refine (destroyQp_spec _ _ _ _).bind fun _ => ?_
  refine (rcqDelete_spec hw (by simp [tok])).bind fun _ => ?_
  refine (cqDelete_last_spec _ (by simp [tok])).bind fun _ => ?_
  refine Prog.Triple.bind (Q := fun _ log =>
    Owned I (sharedToks req.channel + (req.idTok ::ₘ req.shell)) L log ∧ True)
    ((privateDataDiscard_spec req.data).conseq (fun _ h => h.congr ?_) fun _ _ h => ⟨h.1, trivial⟩)
    fun _ => .and_pure fun _ => ?_
  · simp only [Req.shell, Req.idTok, ← Multiset.singleton_add]
    abel
  refine (destroyCompChannel_spec _ ?_).bind fun _ => .pure fun _ h => h
  simp [Req.shell, Req.idTok, tok]

/-- **`rpma_conn_req_accept`** turns a request into a connection, or keeps its CM ID. -/
theorem connReqAccept_spec {I : CallLog → Prop} [StableAway I] {req : Req}
    (hw : Wired req.channel req.cq req.rcq)
    (hok : ∀ log a, a.ok = true → I log → J (log ++ [⟨.malloc .conn, a⟩]))
    (hfail : ∀ log a, a.ok = false → I log → I (log ++ [⟨.malloc .conn, a⟩])) :
    Prog.Triple world.answer (Owned I req.withId L) (connReqAccept req)
      (Accepted I J req req.shell L) := by
  refine faultInjection_triple (acceptErrConnReqDelete_spec hw _) ?_
  refine (check_keep fun _ _ => rfl).bind fun ok => ?_
  split
  · refine (connNew_spec req hok hfail).bind fun r => ?_
    cases r with
    | error ret =>
      exact (exec_keep fun _ _ => rfl).bind fun _ => acceptErrConnReqDelete_spec hw ret
    | ok conn =>
      refine .and_pure fun ht => .pure fun _ h => ⟨h.congr ?_, ?_⟩
      · have hdata := conn.toks_data req.data
        rw [conn.toks_no_data (by rw [ht.data_eq]; rfl)] at hdata
        rw [toks_takesOver ht, connTransferPrivateData, hdata, add_assoc]
      · exact ⟨ht.cq_eq, ht.rcq_eq, ht.channel_eq⟩
  · exact acceptErrConnReqDelete_spec hw _

/-- **`rpma_conn_req_connect`** of an incoming request. -/
theorem connReqConnect_incoming_spec {I : CallLog → Prop} [StableAway I] [Stable J] {req : Req}
    (hreq : req.Incoming) (args : ConnectArgs)
    (hok : ∀ log a, a.ok = true → I log → J (log ++ [⟨.malloc .conn, a⟩]))
    (hfail : ∀ log a, a.ok = false → I log → I (log ++ [⟨.malloc .conn, a⟩])) :
    Prog.Triple world.answer (Owned I req.withId L) (connReqConnect req args)
      (Accepted I J req 0 L) := by
  have hdel : Prog.Triple world.answer (Owned I req.withId L)
      (do let _ ← connReqDelete req; return .error rpmaEInval) (Accepted I J req 0 L) := by
    refine (connReqDelete_spec req hreq.wired).bind fun _ => .pure fun _ h => h.congr ?_
    simp [Req.idLeft, hreq.passive, Req.idTok]
  refine faultInjection_triple hdel ?_
  split
  · exact hdel
  · refine Prog.Triple.bind (Q := Accepted I J req req.shell L) ?_ fun r => ?_
    · unfold acceptOrConnect
      rw [if_pos hreq.passive]
      exact connReqAccept_spec hreq.wired hok hfail
    cases r with
    | error ret =>
      refine (exec_release_leaf {req.idTok} [] (fun _ _ => rfl) ?_ rfl).bind fun _ => ?_
      · simp only [Req.shell, tok, ← Multiset.singleton_add]
        abel
      · exact .pure fun _ h => h
    | ok conn =>
      refine .and_pure fun ho => ?_
      refine (exec_release_leaf conn.toks [] (fun _ _ => rfl) ?_ rfl).bind fun _ => ?_
      · simp [Req.shell, tok, ← Multiset.singleton_add, add_comm]
      · exact .pure fun _ h => ⟨h.congr (add_zero _).symm, ho⟩

/-- The CM ID is all that is left, or nothing is. -/
def Settled (I J : CallLog → Prop) (id : Tok Obj) (L : Multiset (Tok Obj)) (log : CallLog) : Prop :=
  Owned I {id} L log ∨ Owned J 0 L log

theorem conclude_incoming_spec {I : CallLog → Prop} [StableAway I] [Lasting J] {req : Req}
    (hreq : req.Incoming) (plan : Plan)
    (hok : ∀ log a, a.ok = true → I log → J (log ++ [⟨.malloc .conn, a⟩]))
    (hfail : ∀ log a, a.ok = false → I log → I (log ++ [⟨.malloc .conn, a⟩])) :
    Prog.Triple world.answer (Owned I req.withId L) (conclude req plan)
      fun _ => Settled I J req.idTok L := by
  cases plan with
  | delete =>
    refine (connReqDelete_spec req hreq.wired).bind fun _ => .pure fun _ h => Or.inl (h.congr ?_)
    simp [Req.idLeft, hreq.passive, Req.idTok]
  | connect args events =>
    refine (connReqConnect_incoming_spec hreq args hok hfail).bind fun r => ?_
    cases r with
    | error ret => exact .pure fun _ h => Or.inl h
    | ok conn =>
      refine .and_pure fun ho => ?_
      rw [add_zero]
      exact (concludeConn_spec events conn (ho.wired hreq.wired)).conseq (fun _ h => h)
        fun _ _ h => Or.inr h

/-! ## Taking a request -/

/-- An incoming request was made, or its CM ID is left or destroyed. -/
def Taken (I J : CallLog → Prop) (id : Nat) (L : Multiset (Tok Obj)) : ReqPtr → CallLog → Prop
  | .obj req, log => Owned I req.withId L log ∧ req.Incoming ∧ req.id = id
  | _, log => Settled I J (tok .cmId id []) L log

/-- **`rpma_conn_req_from_cm_event`** makes a request, or leaves the CM ID behind, unless the copy
of the private data fails. -/
theorem connReqFromCmEvent_spec {I : CallLog → Prop} [StableCq I] [Stable J] (peer : Peer)
    (id : Nat) (edata : CmEvent) (cfg : Cfg)
    (hfault : ∀ log a, (world log.length).fault = true → I log → J (log ++ [⟨.faultInjection, a⟩]))
    (hok : ∀ log a, a.ok = true → I log → I (log ++ [⟨.malloc .privateData, a⟩]))
    (hfail : ∀ log a, a.ok = false → I log → J (log ++ [⟨.malloc .privateData, a⟩])) :
    Prog.Triple world.answer (Owned I {tok .cmId id []} L) (connReqFromCmEvent peer id edata cfg)
      fun r log => match r with
        | .error _ => Settled I J (tok .cmId id []) L log
        | .ok req => Owned I req.withId L log ∧ req.Incoming ∧ req.id = id := by
  refine faultInjection_triple (.pure fun _ h => Or.inl h) ?_
  split
  · refine (connReqFromId_frame_spec cfg (by simp [tok])).bind fun r => ?_
    cases r with
    | error ret => exact .pure fun _ h => Or.inl h
    | ok req =>
      refine .and_pure fun hb => ?_
      have hid : req.toks + {tok .cmId id []} = req.withId := by
        simp [Req.withId, hb.id_eq, ← Multiset.singleton_add, add_comm]
      have hdata : req.data.ptr = none := by rw [hb.data_eq]; rfl
      rw [hid]
      refine (privateDataStore_spec edata hdata hfault hok hfail).bind fun r => ?_
      cases r with
      | error ret =>
        refine (connReqDelete_spec req hb.wired).bind fun _ => .pure fun _ h => Or.inr (h.congr ?_)
        simp [Req.idLeft, hb.active]
      | ok data =>
        refine .pure fun _ h => ⟨h.congr ?_, ⟨rfl, hb.wired⟩, hb.id_eq⟩
        have hno : req.data.toks = 0 := by simp [PrivateData.toks, hdata]
        simp only [Req.withId, Req.toks, hno, ← Multiset.singleton_add]
        abel
  · exact .pure fun _ h => Or.inl h

theorem epErrAck_spec [Stable J] (event : Nat) (ret : Int) (id : Nat) {out : ReqPtr}
    (hout : ∀ req, out ≠ .obj req) :
    Prog.Triple world.answer (Settled I J (tok .cmId id []) L) (epErrAck event ret out)
      fun r => Taken I J id L r.2 := by
  refine Prog.Triple.bind (Q := fun _ => Settled I J (tok .cmId id []) L) ?_ fun _ =>
    .pure fun _ h => ?_
  · exact fun log h => h.imp (exec_keep (fun _ _ => rfl) log) (exec_keep (fun _ _ => rfl) log)
  · cases out with
    | obj req => exact absurd rfl (hout req)
    | untouched => exact h
    | null => exact h

/-- **`rpma_ep_next_conn_req`** from the event on. -/
theorem epTakeEvent_spec {I : CallLog → Prop} [StableCq I] [Stable J] (ep : Ep) (cfg : Cfg)
    (id : Nat) (edata : CmEvent)
    (hfault : ∀ log a, (world log.length).fault = true → I log → J (log ++ [⟨.faultInjection, a⟩]))
    (hok : ∀ log a, a.ok = true → I log → I (log ++ [⟨.malloc .privateData, a⟩]))
    (hfail : ∀ log a, a.ok = false → I log → J (log ++ [⟨.malloc .privateData, a⟩])) :
    Prog.Triple world.answer (Owned I {tok .cmId id []} L) (epTakeEvent ep cfg id edata)
      fun r => Taken I J id L r.2 := by
  have hack : ∀ ret, Prog.Triple world.answer (Owned I {tok .cmId id []} L)
      (epErrAck id ret .untouched) fun r => Taken I J id L r.2 := fun ret =>
    (epErrAck_spec id ret id (by simp)).conseq (fun _ h => Or.inl h) fun _ _ h => h
  refine faultInjection_triple (hack _) ?_
  split
  · refine (connReqFromCmEvent_spec ep.peer id edata cfg hfault hok hfail).bind fun r => ?_
    cases r with
    | error ret => exact epErrAck_spec id ret id (by simp)
    | ok req =>
      refine .and_pure fun ⟨hreq, hid⟩ => ?_
      have hdel : Prog.Triple world.answer (Owned I req.withId L) (connReqDelete req)
          fun _ => Settled I J (tok .cmId id []) L := by
        refine (connReqDelete_spec req hreq.wired).conseq (fun _ h => h) fun _ _ h =>
          Or.inl (h.congr ?_)
        simp [Req.idLeft, hreq.passive, hid]
      refine faultInjection_triple (hdel.bind fun _ => epErrAck_spec id 0 id (by simp)) ?_
      refine (check_keep fun _ _ => rfl).bind fun ok => ?_
      split
      · exact .pure fun _ h => ⟨h, hreq, hid⟩
      · exact hdel.bind fun _ => .pure fun _ h => h
  · exact hack _

/-- What the application does with what `rpma_ep_next_conn_req` left in `*req_ptr`. -/
def concludePtr (plan : Plan) : ReqPtr → P Unit
  | .obj req => conclude req plan
  | _ => pure ()

/-- The life of an incoming request. -/
def passiveHistory (ep : Ep) (cfg : Option Cfg) (plan : Plan) : P Unit := do
  let r ← epNextConnReq ep cfg
  concludePtr plan r.2

/-- From the event on, the CM ID is left iff nothing saved it. -/
theorem takeAndConclude_spec (hnf : NoFaults world) (base : CallLog) (ep : Ep) (cfg : Cfg)
    (id : Nat) (edata : CmEvent) (plan : Plan) :
    Prog.Triple world.answer (Owned (Doomed base) {tok .cmId id []} L)
      (do let r ← epTakeEvent ep cfg id edata; concludePtr plan r.2)
      fun _ => Settled (Doomed base) (Saved base) (tok .cmId id []) L := by
  refine Prog.Triple.bind (Q := fun r => Taken (Doomed base) (Saved base) id L r.2)
    (epTakeEvent_spec ep cfg id edata ?_ ?_ ?_) fun r => ?_
  · exact fun log a hf _ => absurd hf (by simp [hnf log.length])
  · exact fun log a ha h => (h.snoc _).congr (by simp [Saves, ha])
  · exact fun log a ha h => (h.snoc _).congr (by simp [Saves, ha])
  cases r.2 with
  | untouched => exact .pure fun _ h => h
  | null => exact .pure fun _ h => h
  | obj req =>
    refine .and_pure fun ⟨hreq, hid⟩ => ?_
    subst hid
    refine conclude_incoming_spec hreq plan ?_ ?_
    · exact fun log a ha h => (h.snoc _).congr (by simp [Saves, ha])
    · exact fun log a ha h => (h.snoc _).congr (by simp [Saves, ha])

end Specs

/-! ## Every history -/

/-- The number of the call that takes the event, `rdma_get_cm_event`, in a history that starts
after `base`: the two fault injection points come before it. -/
def eventCall (base : CallLog) : Nat := base.length + 2

/-- The calls of a history up to the one that takes the event. -/
def untilEvent (world : World) (base : CallLog) (ep : Ep) : CallLog :=
  base ++ [⟨.faultInjection, world.answer base.length .faultInjection⟩] ++
    [⟨.faultInjection, world.answer (base.length + 1) .faultInjection⟩] ++
    [⟨.rdmaGetCmEvent ep.evch true, world.answer (eventCall base) (.rdmaGetCmEvent ep.evch true)⟩]

theorem passiveHistory_run {world : World} (hnf : NoFaults world) (base : CallLog) (ep : Ep)
    (cfg : Option Cfg) (plan : Plan) : (passiveHistory ep cfg plan).run world.answer base =
      (if (world (eventCall base)).ok = true then do
          let r ← epTakeEvent ep (cfg.getD connCfgDefault) (eventCall base)
            (world (eventCall base)).event
          concludePtr plan r.2
        else pure ()).run world.answer (untilEvent world base ep) := by
  have hf : ∀ n c, (world.answer n c).fault = false := fun n _ => hnf n
  simp only [passiveHistory, epNextConnReq, faultInjection, Prog.run_bind, Prog.run_issue, hf,
    Bool.false_eq_true, if_false, List.length_append, List.length_singleton]
  rw [show base.length + 1 + 1 = eventCall base from rfl, ← untilEvent]
  have hok : (world.answer (eventCall base) (.rdmaGetCmEvent ep.evch true)).ok =
      (world (eventCall base)).ok := rfl
  rw [hok]
  split
  · rw [Prog.run_bind]
    rfl
  · rfl

/-- The event delivered the CM ID. -/
theorem acquired_untilEvent {world : World} {base log : CallLog} {ep : Ep}
    (hpre : untilEvent world base ep <+: log)
    (hid : AcquiredAt effect log (eventCall base) ⟨.cmId, eventCall base⟩) :
    (world (eventCall base)).ok = true ∧
      (world (eventCall base)).event.event = .connectRequest := by
  obtain ⟨e, he, deps, heff⟩ := hid
  obtain ⟨rest, rfl⟩ := hpre
  simp only [untilEvent, eventCall, List.append_assoc] at he
  rw [List.getElem?_append_right (by omega)] at he
  simp only [Nat.add_sub_cancel_left, List.cons_append, List.nil_append, List.getElem?_cons_succ,
    List.getElem?_cons_zero, Option.some.injEq] at he
  subst he
  simp only [effect, acquireIf, World.answer, Bool.and_true, eventCall] at heff
  split at heff
  · rename_i hok
    simpa [eventCall] using hok
  · cases heff

/-- After the event the run holds the CM ID. -/
theorem owned_untilEvent {world : World} {base : CallLog} {L : Multiset (Tok Obj)} (ep : Ep)
    (hbase : Owns presumedEffect base L) (hok : (world (eventCall base)).ok = true)
    (hev : (world (eventCall base)).event.event = .connectRequest) :
    Owned (Doomed base) {tok .cmId (eventCall base) []} L (untilEvent world base ep) := by
  refine ⟨?_, ?_, ?_⟩
  · rw [Multiset.singleton_add]
    refine ((hbase.keep rfl).keep rfl).acquire ?_ (by simp)
    simpa [presumedEffect, effect, acquireIf, World.answer, eventCall] using ⟨hok, hev⟩
  · simp only [Multiset.mem_singleton, forall_eq]
    exact hbase.free presumed_serial_of_acquire (by simp [tok, eventCall])
  · have h0 : Doomed base base := .refl
    exact (((h0.snoc _).snoc _).snoc _).congr (by simp [Saves])

/-- **The CM ID of an incoming request is destroyed exactly once iff the copy of the private data
could not be allocated or the connection object could.** -/
theorem id_destroyed_iff (world : World) (hnf : NoFaults world) (base : CallLog)
    (L : Multiset (Tok Obj)) (hbase : Owns effect base L) (ep : Ep) (cfg : Option Cfg) (plan : Plan)
    (log : CallLog) (hlog : ((passiveHistory ep cfg plan).run world.answer base).2 = log)
    (hid : AcquiredAt effect log (eventCall base) ⟨.cmId, eventCall base⟩) :
    (∃! j, ReleasedAt effect log j ⟨.cmId, eventCall base⟩) ↔
      ∃ e ∈ log.drop base.length, Saves e := by
  rw [passiveHistory_run hnf] at hlog
  obtain ⟨hok, hev⟩ := acquired_untilEvent (by rw [← hlog]; exact Prog.run_prefix _ _) hid
  rw [if_pos hok] at hlog
  obtain ⟨L', hbase'⟩ := owns_presumed hbase
  have hsettled := takeAndConclude_spec hnf base ep (cfg.getD connCfgDefault) (eventCall base)
    (world (eventCall base)).event plan _ (owned_untilEvent ep hbase' hok hev)
  rw [hlog] at hsettled
  rcases hsettled with h | h
  · obtain ⟨calls, hcalls, hnone⟩ := h.inv
    rw [released_once_iff_presumed h.owns hid]
    refine iff_of_false (fun hno => hno (by simp [tok])) ?_
    rintro ⟨e, he, hs⟩
    rw [hcalls, List.drop_left] at he
    exact (iff_true _ ▸ hnone) e he hs
  · obtain ⟨calls, hcalls, hsome⟩ := h.inv
    rw [released_once_iff_presumed h.owns hid]
    refine iff_of_true (fun hheld => ?_) ?_
    · have hlt : eventCall base < base.length :=
        (hbase'.inv presumed_serial_of_acquire).serial_lt_of_held (by simpa using hheld)
      unfold eventCall at hlt
      omega
    · rw [hcalls, List.drop_left]
      simpa using hsome

/-- A world in which every call but the `k`-th succeeds, the event being a connection request that
carries private data. -/
def requestFailingAt (k : Nat) : World := fun n =>
  { ok := n != k, errno := .other, handle := 0, fault := false,
    event := ⟨.connectRequest, some [1]⟩, evCq := 0, polled := 1 }

/-- An application that connects the request, and one that deletes it. -/
def servedRequest (plan : Plan) : P Unit := passiveHistory ⟨⟨true, true⟩, 0⟩ none plan

/-- The connection is made and deleted. -/
theorem id_destroyed_iff_served :
    (∃! j, ReleasedAt effect
      ((servedRequest (.connect ⟨true, none⟩ 0)).run (requestFailingAt 999).answer []).2 j
        ⟨.cmId, 2⟩) := by
  have hsaved : ∃ e ∈ ((servedRequest (.connect ⟨true, none⟩ 0)).run
      (requestFailingAt 999).answer []).2, Saves e :=
    ⟨⟨.malloc .conn, { requestFailingAt 999 38 with handle := 38 }⟩, by decide +kernel, rfl⟩
  refine (id_destroyed_iff (requestFailingAt 999) (fun _ => rfl) [] 0 .nil ⟨⟨true, true⟩, 0⟩ none
    (.connect ⟨true, none⟩ 0) _ rfl ?_).mpr hsaved
  exact ⟨⟨.rdmaGetCmEvent 0 true, { requestFailingAt 999 2 with handle := 2 }⟩,
    by decide +kernel, [], rfl⟩

/-- Only `rdma_destroy_id` destroys a CM ID. -/
theorem destroyId_of_release {n id : Nat} {e : Σ _ : Call, Answer}
    (h : effect n e = .release ⟨.cmId, id⟩) : e.1 = .rdmaDestroyId id := by
  unfold effect acquireIf at h
  split at h <;> first | (split at h <;> cases h) | (cases h; try rfl)

/-- **No call fails, the application deletes the request: the CM ID is never destroyed.** -/
theorem id_lost_by_delete :
    AcquiredAt effect ((servedRequest .delete).run (requestFailingAt 999).answer []).2 2
      ⟨.cmId, 2⟩ ∧
    ¬ ∃! j, ReleasedAt effect ((servedRequest .delete).run (requestFailingAt 999).answer []).2 j
      ⟨.cmId, 2⟩ := by
  refine ⟨⟨⟨.rdmaGetCmEvent 0 true, { requestFailingAt 999 2 with handle := 2 }⟩,
    by decide +kernel, [], rfl⟩, ?_⟩
  rintro ⟨j, ⟨e, he, heff⟩, -⟩
  have hnone : ∀ e ∈ ((servedRequest .delete).run (requestFailingAt 999).answer []).2,
      e.1 ≠ .rdmaDestroyId 2 := by decide +kernel
  exact hnone e (List.mem_of_getElem? he) (destroyId_of_release heff)

end Rpma.Librpma
