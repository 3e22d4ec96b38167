import Rpma.Librpma.Ownership

/-!
# The active side gives back what it takes

An application makes a request with `rpma_conn_req_new`, deletes it or connects it, takes any
number of events from the connection and deletes it (`activeHistory`). Whatever the provider,
`malloc` and `mmap` answer, and whatever faults are injected, every object acquired in such a run
has been given exactly one destroying call, and nothing else has (`GivenBack`); and in a build
without fault injection both destructors return 0 exactly when every destroying call they made
succeeded (`DestructorsReport`).

* **`activeHistory_balanced_iff`**: every such call came after those of the dependents iff no
  `rdma_migrate_id(id, NULL)` failed. `rpma_conn_new` ignores its result
  (`(void) rdma_migrate_id(id, NULL)`, `err_migrate_id_NULL`) and destroys the event channel next,
  which the CM ID still depends on then.
* `evch_destroyed_before_id`: a history in which that happens.

The return codes are followed with a second assertion, `Clean base φ`: since `base` every
destroying call succeeded iff `φ`. Once one has failed nothing can undo it, so the `goto` chains of
the error paths need no case analysis (`clean_error`).
-/

namespace Rpma.Librpma

open Rpma.Lib Rpma.Lib.Ledger

section Specs

variable {world : World} {I : CallLog → Prop} [StableAlloc I] {A L : Multiset (Tok Obj)}

/-! ## Connecting -/

/-- What is left of a request once its CM ID and its equipment are gone. -/
def Req.shell (req : Req) : Multiset (Tok Obj) := {tok .heap req.ptr []}

/-- What a request was turned into: a connection next to `B`, or nothing. -/
def Connected (I : CallLog → Prop) (req : Req) (B L : Multiset (Tok Obj)) :
    Except Int Conn → CallLog → Prop
  | .error _, log => Owned I B L log
  | .ok conn, log => Owned I (conn.toks + B) L log ∧ Conn.Over req conn

theorem toks_takesOver {req : Req} {conn : Conn} (ht : Conn.TakesOver req conn) :
    conn.newToks + req.toks = req.data.toks + (conn.toks + req.shell) := by
  have hempty : conn.data.toks = 0 := by simp [ht.data_eq, PrivateData.toks, PrivateData.empty]
  simp only [Conn.newToks, Req.toks, Req.shell, Conn.toks, Conn.qpStage, Conn.cqStage, Conn.idStage,
    Conn.channelStage, Conn.evchStage, hempty, ht.id_eq, ht.qp_eq, ht.cq_eq, ht.rcq_eq,
    ht.channel_eq, ← Multiset.singleton_add]
  abel

theorem connectErrConnNew_spec {req : Req} (hw : Wired req.channel req.cq req.rcq)
    (hd : req.data.ptr = none) (ret : Int) :
    Prog.Triple world.answer (Owned I (tok .cmId req.id [] ::ₘ req.toks) L)
      (connectErrConnNew req ret) (Connected I req req.shell L) := by
  have hdata : req.data.toks = 0 := by simp [PrivateData.toks, hd]
  rw [Req.toks_id]
  refine (destroyQp_spec _ _ _ _).bind fun _ => ?_
  refine (rcqDelete_spec hw (by simp [tok])).bind fun _ => ?_
  refine (cqDelete_last_spec _ (by simp [tok])).bind fun _ => ?_
  refine (exec_release _ [] (fun _ _ => rfl) rfl List.not_mem_nil (by simp [tok])).bind fun _ => ?_
  refine (destroyCompChannel_spec _ (by simp [tok])).bind fun _ => .pure fun _ h => h.congr ?_
  simp [hdata, Req.shell]

/-- A connection deleted next to the shell of its request. -/
theorem connDelete_shell_spec {req : Req} {conn : Conn}
    (hw : Wired conn.channel conn.cq conn.rcq) :
    Prog.Triple world.answer (Owned I (conn.toks + req.shell) L) (connDelete conn)
      fun _ => Owned I req.shell L := by
  refine frame_triple req.shell (connDelete_spec hw) (by simp [Req.shell, tok]) fun hL _ _ h => ?_
  exact (h.unframe hL).congr (zero_add _)

/-- **`rpma_conn_req_connect_active`** turns a request into a connection, or gives it back. -/
theorem connReqConnectActive_spec [StableAway I] {req : Req} (hw : Wired req.channel req.cq req.rcq)
    (hd : req.data.ptr = none) :
    Prog.Triple world.answer (Owned I (tok .cmId req.id [] ::ₘ req.toks) L)
      (connReqConnectActive req) (Connected I req req.shell L) := by
  refine faultInjection_triple (connectErrConnNew_spec hw hd _) ?_
  refine (connNew_spec req (fun _ _ _ => StableAlloc.keep_alloc _ _ _)
    fun _ _ _ => StableAlloc.keep_alloc _ _ _).bind fun r => ?_
  cases r with
  | error ret => exact connectErrConnNew_spec hw hd ret
  | ok conn =>
    refine .and_pure fun ht => ?_
    have hwc := ht.toOver.wired hw
    have hdata : req.data.toks = 0 := by simp [PrivateData.toks, hd]
    have hdel : Prog.Triple world.answer (Owned I (conn.toks + req.shell) L)
        (do let _ ← connDelete conn; return .error rpmaEProvider) (Connected I req req.shell L) :=
      (connDelete_shell_spec hwc).bind fun _ => .pure fun _ h => h
    rw [toks_takesOver ht, hdata, zero_add]
    refine faultInjection_triple hdel ((check_keep fun _ _ => rfl).bind fun ok => ?_)
    split
    · exact .pure fun _ h => ⟨h, ht.toOver⟩
    · exact hdel

/-- **`rpma_conn_req_connect`** of an outgoing request. -/
theorem connReqConnect_spec [StableAway I] {req : Req} (hw : Wired req.channel req.cq req.rcq)
    (ha : req.isPassive = false) (hd : req.data.ptr = none) (args : ConnectArgs) :
    Prog.Triple world.answer (Owned I (tok .cmId req.id [] ::ₘ req.toks) L)
      (connReqConnect req args) (Connected I req 0 L) := by
  have hdel : Prog.Triple world.answer (Owned I (tok .cmId req.id [] ::ₘ req.toks) L)
      (do let _ ← connReqDelete req; return .error rpmaEInval) (Connected I req 0 L) := by
    refine (connReqDelete_spec req hw).bind fun _ => .pure fun _ h => h.congr ?_
    simp [Req.idLeft, ha]
  refine faultInjection_triple hdel ?_
  split
  · exact hdel
  · refine Prog.Triple.bind (Q := Connected I req req.shell L) ?_ fun r => ?_
    · unfold acceptOrConnect
      simpa [ha] using connReqConnectActive_spec hw hd
    cases r with
    | error ret =>
      exact (exec_release_leaf 0 [] (fun _ _ => rfl) rfl rfl).bind fun _ => .pure fun _ h => h
    | ok conn =>
      refine .and_pure fun ho => ?_
      refine (exec_release_leaf conn.toks [] (fun _ _ => rfl) ?_ rfl).bind fun _ => ?_
      · simp [Req.shell, tok, ← Multiset.singleton_add, add_comm]
      · exact .pure fun _ h => ⟨h.congr (add_zero _).symm, ho⟩

/-! ## `rpma_conn_req_new` -/

/-- A request with its CM ID. -/
def Req.withId (req : Req) : Multiset (Tok Obj) := tok .cmId req.id [] ::ₘ req.toks

/-- An outgoing request as `rpma_conn_req_new` returns it. -/
structure Req.Outgoing (req : Req) : Prop where
  active : req.isPassive = false
  no_data : req.data.ptr = none
  wired : Wired req.channel req.cq req.rcq

theorem free_infoToks (o : Obj) (info : Info) : Free o info.toks := by
  simp [Info.toks, tok]

theorem reqNewErrInfoDelete_spec (info : Info) (ret : Int) :
    Prog.Triple world.answer (Owned I info.toks L) (reqNewErrInfoDelete info ret)
      (Made I 0 L Req.withId Req.Outgoing) := by
  refine Prog.Triple.bind (Q := fun _ => Owned I 0 L) ?_ fun _ => .pure fun _ h => h
  exact (infoDelete_spec info).conseq (fun _ h => h.congr (add_zero _).symm) fun _ _ h => h

theorem reqNewErrDestroyId_spec (info : Info) (id : Nat) (ret : Int) :
    Prog.Triple world.answer (Owned I (tok .cmId id [] ::ₘ info.toks) L)
      (reqNewErrDestroyId info id ret) (Made I 0 L Req.withId Req.Outgoing) :=
  (exec_release _ [] (fun _ _ => rfl) rfl List.not_mem_nil (free_infoToks _ _)).bind fun _ =>
    reqNewErrInfoDelete_spec info ret

theorem reqNewWithId_spec [StableCq I] (peer : Peer) (cfg : Cfg) (timeoutMs : Int) (info : Info)
    (id : Nat) :
    Prog.Triple world.answer (Owned I (tok .cmId id [] ::ₘ info.toks) L)
      (reqNewWithId peer cfg timeoutMs info id) (Made I 0 L Req.withId Req.Outgoing) := by
  refine (infoResolveAddr_spec id timeoutMs).bind fun ret => ?_
  split
  · exact reqNewErrDestroyId_spec info id ret
  refine faultInjection_triple (reqNewErrDestroyId_spec info id _) ?_
  refine (check_keep fun _ _ => rfl).bind fun ok => ?_
  split
  · -- the CM ID and the address are a frame for `rpma_conn_req_from_id`
    refine Prog.Triple.bind (Q := Made I (tok .cmId id [] ::ₘ info.toks) L Req.toks
      (Req.Built peer id)) ?_ fun r => ?_
    · exact connReqFromId_frame_spec cfg (by simp [tok])
    cases r with
    | error ret => exact reqNewErrDestroyId_spec info id ret
    | ok req =>
      refine .and_pure fun hb => ?_
      refine Prog.Triple.bind (Q := fun _ => Owned I req.withId L) ((infoDelete_spec info).conseq
        (fun _ h => h.congr ?_) fun _ _ h => h) fun _ => ?_
      · simp only [Req.withId, hb.id_eq, ← Multiset.singleton_add]
        abel
      · exact .pure fun _ h => ⟨h.congr (add_zero _).symm, hb.active,
          by rw [hb.data_eq]; rfl, hb.wired⟩
  · exact reqNewErrDestroyId_spec info id _

/-- **`rpma_conn_req_new`** makes a request with a CM ID, or leaves nothing behind. -/
theorem connReqNew_spec [StableCq I] (peer : Option Peer) (addr port : Option String)
    (cfg : Option Cfg) :
    Prog.Triple world.answer (Owned I 0 L) (connReqNew peer addr port cfg)
      (Made I 0 L Req.withId Req.Outgoing) := by
  refine faultInjection_triple (.pure fun _ h => h) ?_
  split
  · refine Prog.Triple.bind (Q := fun _ => Owned I 0 L) ?_ fun timeoutMs => ?_
    · exact faultInjection_triple (.pure fun _ h => h) (.pure fun _ h => h)
    refine (infoNew_spec _ _).bind fun r => ?_
    cases r with
    | error ret => exact .pure fun _ h => h
    | ok info =>
      refine .and_pure fun _ => ?_
      rw [add_zero]
      refine faultInjection_triple (reqNewErrInfoDelete_spec info _) ?_
      refine (create_acquire (fun _ _ => rfl) (by simp)).bind fun r => ?_
      cases r with
      | none => exact reqNewErrInfoDelete_spec info _
      | some id => exact .and_pure fun _ => reqNewWithId_spec _ _ _ info id
  · exact .pure fun _ h => h

/-! ## `rpma_conn_next_event` -/

theorem Conn.toks_data (conn : Conn) (data : PrivateData) : { conn with data := data }.toks =
    data.toks + { conn with data := .empty }.toks := by
  simp only [Conn.toks, Conn.qpStage, Conn.cqStage, Conn.idStage, Conn.channelStage,
    Conn.evchStage, PrivateData.toks, PrivateData.empty, ← Multiset.singleton_add]
  abel

theorem Conn.toks_no_data (conn : Conn) (hd : conn.data.ptr = none) :
    { conn with data := .empty }.toks = conn.toks := by
  have hdata : conn.data.toks = 0 := by simp [PrivateData.toks, hd]
  have h := conn.toks_data conn.data
  rw [hdata, zero_add] at h
  exact h.symm

/-- Taking an event changes the private data of a connection, if anything. -/
def NextEvent (I : CallLog → Prop) (L : Multiset (Tok Obj)) (conn : Conn)
    (r : Int × Conn × Option ConnEvent) (log : CallLog) : Prop :=
  Owned I r.2.1.toks L log ∧ ∃ data, r.2.1 = { conn with data := data }

theorem nextEventErrDiscard_spec (conn : Conn) (ret : Int) :
    Prog.Triple world.answer (Owned I conn.toks L) (nextEventErrDiscard conn ret)
      (NextEvent I L conn) := by
  refine Prog.Triple.bind (Q := fun data log =>
    Owned I { conn with data := .empty }.toks L log ∧ data = .empty) ?_ fun data => ?_
  · refine (privateDataDiscard_spec conn.data).conseq (fun _ h => h.congr ?_) fun _ _ h => h
    exact conn.toks_data conn.data
  · exact .and_pure fun hd => .pure fun _ h => ⟨by rw [hd]; exact h, data, rfl⟩

theorem nextEventAck_spec (conn : Conn) (event : Nat) (edata : CmEvent) :
    Prog.Triple world.answer (Owned I conn.toks L) (nextEventAck conn event edata)
      (NextEvent I L conn) := by
  refine (check_keep fun _ _ => rfl).bind fun ok => ?_
  split
  · refine faultInjection_triple (nextEventErrDiscard_spec conn _) ?_
    split <;> exact .pure fun _ h => ⟨h, conn.data, rfl⟩
  · exact nextEventErrDiscard_spec conn _

/-- The same after a connection without private data has got some. -/
theorem nextEventAck_stored_spec (conn : Conn) (hd : conn.data.ptr = none) (data : PrivateData)
    (event : Nat) (edata : CmEvent) :
    Prog.Triple world.answer (Owned I (data.toks + conn.toks) L)
      (nextEventAck { conn with data := data } event edata) (NextEvent I L conn) := by
  rw [← conn.toks_no_data hd, ← Conn.toks_data]
  refine (nextEventAck_spec _ event edata).conseq (fun _ h => h) fun r _ h => ⟨h.1, ?_⟩
  obtain ⟨data', hr⟩ := h.2
  exact ⟨data', hr⟩

/-- **`rpma_conn_next_event`** keeps what the connection owns. -/
theorem connNextEvent_spec (conn : Conn) :
    Prog.Triple world.answer (Owned I conn.toks L) (connNextEvent conn) (NextEvent I L conn) := by
  have hsame : ∀ r, r.2.1 = conn →
      Prog.Triple world.answer (Owned I conn.toks L) (pure r) (NextEvent I L conn) := by
    rintro r hr
    exact .pure fun _ h => ⟨by rw [hr]; exact h, conn.data, hr⟩
  refine faultInjection_triple (hsame _ rfl) (faultInjection_triple (hsame _ rfl) ?_)
  refine (issue_keep fun n a => by
    simp [ordinaryEffect, Call.ordinary, effect, acquireIf]).bind fun a => ?_
  split
  · split
    · rename_i hev
      refine (privateDataStore_spec (K := I) _ hev.2 (fun _ _ _ => Stable.keep _ _ _ rfl)
        (fun _ _ _ => StableAlloc.keep_alloc _ _ _)
        fun _ _ _ => StableAlloc.keep_alloc _ _ _).bind fun r => ?_
      cases r with
      | error ret => exact (exec_keep fun _ _ => rfl).bind fun _ => hsame _ rfl
      | ok data => exact nextEventAck_stored_spec conn hev.2 data _ _
    · exact nextEventAck_spec conn _ _
  · exact hsame _ rfl

/-! ## Histories -/

/-- The connection after `n` calls of `rpma_conn_next_event`. -/
def nextEvents : Nat → Conn → P Conn
  | 0, conn => pure conn
  | n + 1, conn => do
    let r ← connNextEvent conn
    nextEvents n r.2.1

/-- What the application does with its request: delete it, or connect it and take events. -/
inductive Plan where
  | delete
  | connect (args : ConnectArgs) (events : Nat)

/-- The life of a request and its connection. -/
def conclude (req : Req) : Plan → P Unit
  | .delete => do
    let _ ← connReqDelete req
    return ()
  | .connect args events => do
    match ← connReqConnect req args with
    | .error _ => return ()
    | .ok conn =>
      let conn ← nextEvents events conn
      let _ ← connDelete conn
      return ()

/-- The life of an outgoing request. -/
def activeHistory (peer : Option Peer) (addr port : Option String) (cfg : Option Cfg)
    (plan : Plan) : P Unit := do
  match ← connReqNew peer addr port cfg with
  | .error _ => return ()
  | .ok req => conclude req plan

theorem nextEvents_spec (n : Nat) (conn : Conn) (hw : Wired conn.channel conn.cq conn.rcq) :
    Prog.Triple world.answer (Owned I conn.toks L) (nextEvents n conn) fun conn log =>
      Owned I conn.toks L log ∧ Wired conn.channel conn.cq conn.rcq := by
  induction n generalizing conn with
  | zero => exact .pure fun _ h => ⟨h, hw⟩
  | succ n ih =>
    refine (connNextEvent_spec conn).bind fun r => .and_pure fun ⟨data, hr⟩ => ih _ ?_
    rw [hr]
    exact hw

/-- A connection that takes events and is deleted. -/
theorem concludeConn_spec (n : Nat) (conn : Conn) (hw : Wired conn.channel conn.cq conn.rcq) :
    Prog.Triple world.answer (Owned I conn.toks L)
      (do let conn ← nextEvents n conn; let _ ← connDelete conn; return ())
      fun _ => Owned I 0 L := by
  refine (nextEvents_spec n conn hw).bind fun conn => .and_pure fun hw => ?_
  exact (connDelete_spec hw).bind fun _ => .pure fun _ h => h

/-- At the end of a history nothing is held. -/
theorem activeHistory_spec [StableCq I] [StableAway I] (peer : Option Peer)
    (addr port : Option String) (cfg : Option Cfg) (plan : Plan) : Prog.Triple world.answer (Owned I 0 L)
      (activeHistory peer addr port cfg plan) fun _ => Owned I 0 L := by
  refine (connReqNew_spec peer addr port cfg).bind fun r => ?_
  cases r with
  | error ret => exact .pure fun _ h => h
  | ok req =>
    refine .and_pure fun hreq => ?_
    rw [add_zero]
    cases plan with
    | delete =>
      refine (connReqDelete_spec req hreq.wired).bind fun _ => .pure fun _ h => h.congr ?_
      simp [Req.idLeft, hreq.active]
    | connect args events =>
      refine (connReqConnect_spec hreq.wired hreq.active hreq.no_data args).bind fun r => ?_
      cases r with
      | error ret => exact .pure fun _ h => h
      | ok conn =>
        refine .and_pure fun ho => ?_
        rw [add_zero]
        exact concludeConn_spec events conn (ho.wired hreq.wired)

end Specs

/-! ## Return codes -/

section Codes

variable {world : World} {base : CallLog} {φ : Prop}

/-- Since `base` every destroying call succeeded iff `φ`. -/
abbrev Clean (base : CallLog) (φ : Prop) (log : CallLog) : Prop :=
  Prog.AllSince DestroySucceeded base φ log

theorem clean_exec {c : Call} (hc : ∀ a, DestroySucceeded ⟨c, a⟩) :
    Prog.Triple world.answer (Clean base φ) (exec c) fun _ => Clean base φ :=
  exec_triple (.issue fun _ h => (h.snoc _).congr (by simp [hc]))

theorem clean_check {c : Call} (hc : ∀ a, DestroySucceeded ⟨c, a⟩ ↔ a.ok = true) :
    Prog.Triple world.answer (Clean base φ) (check c) fun ok => Clean base (φ ∧ ok = true) :=
  check_triple (.issue fun _ h => (h.snoc _).congr (by simp [hc]))

theorem clean_faultInjection (hnf : NoFaults world) {α : Type} {onFault rest : P α}
    {Q : α → CallLog → Prop} (h : Prog.Triple world.answer (Clean base φ) rest Q) :
    Prog.Triple world.answer (Clean base φ) (faultInjection onFault rest) Q := by
  have hissue : Prog.Triple world.answer (Clean base φ) (Prog.issue .faultInjection) fun a log =>
      Clean base φ log ∧ a.fault = false :=
    .issue fun log h => ⟨(h.snoc _).congr (by simp [DestroySucceeded]), hnf _⟩
  refine hissue.bind fun a => .and_pure fun hf => ?_
  rw [hf]
  exact h

theorem clean_cqDelete (hnf : NoFaults world) (cq : Option Cq) :
    Prog.Triple world.answer (Clean base φ) (cqDelete cq) fun ret => Clean base (φ ∧ ret = 0) := by
  cases cq with
  | none => exact .pure fun _ h => h.congr (by simp)
  | some cq =>
    refine (clean_check fun _ => Iff.rfl).bind fun ok => ?_
    dsimp only
    split
    · refine (clean_exec (by simp [DestroySucceeded])).bind fun _ => clean_faultInjection hnf ?_
      refine .pure fun _ h => h.congr ?_
      cases ok <;> simp [rpmaEProvider]
    · refine (clean_check fun _ => Iff.rfl).bind fun ok' => ?_
      refine (clean_exec (by simp [DestroySucceeded])).bind fun _ => clean_faultInjection hnf ?_
      refine .pure fun _ h => h.congr ?_
      cases ok <;> cases ok' <;> simp [rpmaEProvider]

theorem clean_mrDereg (hnf : NoFaults world) (mr : MrLocal) :
    Prog.Triple world.answer (Clean base φ) (mrDereg mr) fun ret => Clean base (φ ∧ ret = 0) := by
  refine (clean_check fun _ => Iff.rfl).bind fun ok => ?_
  refine (clean_exec (by simp [DestroySucceeded])).bind fun _ => clean_faultInjection hnf ?_
  refine .pure fun _ h => h.congr ?_
  cases ok <;> simp [rpmaEProvider]

theorem clean_flushDelete (hnf : NoFaults world) (flush : Flush) :
    Prog.Triple world.answer (Clean base φ) (flushDelete flush)
      fun ret => Clean base (φ ∧ ret = 0) := by
  refine Prog.Triple.bind (Q := fun ret => Clean base (φ ∧ ret = 0)) ?_ fun ret => ?_
  · refine (clean_mrDereg hnf _).bind fun retDereg => ?_
    refine (clean_check fun _ => Iff.rfl).bind fun ok => ?_
    refine (clean_exec (by simp [DestroySucceeded])).bind fun _ => ?_
    split
    · rename_i hne
      exact .pure fun _ h => h.congr (by simp [hne])
    · rename_i heq
      split
      · rename_i hok
        exact .pure fun _ h => h.congr (by simp [hok, rpmaEInval])
      · rename_i hok
        refine clean_faultInjection hnf (.pure fun _ h => h.congr ?_)
        simp only [ne_eq, Decidable.not_not, Bool.not_eq_false] at heq hok
        simp [heq, hok]
  · exact (clean_exec (by simp [DestroySucceeded])).bind fun _ =>
      clean_faultInjection hnf (.pure fun _ h => h)

theorem clean_rejectOrDestroy (hnf : NoFaults world) {req : Req} (ha : req.isPassive = false) :
    Prog.Triple world.answer (Clean base φ) (rejectOrDestroy req)
      fun ret => Clean base (φ ∧ ret = 0) := by
  unfold rejectOrDestroy connReqDestroy
  rw [ha]
  refine (clean_check fun _ => Iff.rfl).bind fun ok => ?_
  cases ok with
  | true => exact clean_faultInjection hnf (.pure fun _ h => h.congr (by simp))
  | false => exact .pure fun _ h => h.congr (by simp [rpmaEProvider])

theorem clean_checkDestroyCompChannel (channel : Option Nat) :
    Prog.Triple world.answer (Clean base φ) (checkDestroyCompChannel channel)
      fun ret => Clean base (φ ∧ ret = 0) := by
  cases channel with
  | none => exact .pure fun _ h => h.congr (by simp)
  | some channel =>
    refine (clean_check fun _ => Iff.rfl).bind fun ok => ?_
    cases ok <;> exact .pure fun _ h => h.congr (by simp [rpmaEProvider])

@[simp] theorem firstError_eq_zero (ret ret2 : Int) :
    firstError ret ret2 = 0 ↔ ret = 0 ∧ ret2 = 0 := by
  unfold firstError
  split <;> grind

/-- **`rpma_conn_req_delete`** of an outgoing request reports failures. -/
theorem clean_connReqDelete (hnf : NoFaults world) {req : Req} (ha : req.isPassive = false) :
    Prog.Triple world.answer (Clean base True) (connReqDelete req)
      fun ret => Clean base (ret = 0) := by
  refine (clean_exec (by simp [DestroySucceeded])).bind fun _ => ?_
  refine (clean_cqDelete hnf _).bind fun ret => (clean_cqDelete hnf _).bind fun ret2 => ?_
  refine (clean_rejectOrDestroy hnf ha).bind fun ret3 => ?_
  refine (clean_checkDestroyCompChannel _).bind fun ret4 => ?_
  refine Prog.Triple.bind ((clean_exec (by simp [DestroySucceeded])).bind fun _ =>
    .pure fun _ h => h) fun _ => (clean_exec (by simp [DestroySucceeded])).bind fun _ => ?_
  refine clean_faultInjection hnf (.pure fun _ h => h.congr ?_)
  simp [and_assoc]

/-- An error path returns its code, and something has failed before it. -/
theorem clean_error {m : P Int} {ret : Int} (hret : ret ≠ 0) (hφ : ¬ φ)
    (hm : ∀ log, (m.run world.answer log).1 = ret) :
    Prog.Triple world.answer (Clean base φ) m fun r => Clean base (r = 0) := by
  intro log h
  refine (Prog.allSince_false m log (h.congr (by simp [hφ]))).congr ?_
  simp [hm, hret]

section Chain

variable (conn : Conn) (ret : Int) (log : CallLog)

theorem connDeleteEventChannel_ret :
    ((connDeleteEventChannel conn ret).run world.answer log).1 = ret := by
  simp [connDeleteEventChannel]

theorem connDeleteErrCompChannel_ret :
    ((connDeleteErrCompChannel conn ret).run world.answer log).1 = ret := by
  simp [connDeleteErrCompChannel, connDeleteEventChannel_ret]

theorem connDeleteErrDestroyId_ret :
    ((connDeleteErrDestroyId conn ret).run world.answer log).1 = ret := by
  simp [connDeleteErrDestroyId, connDeleteErrCompChannel_ret]

theorem connDeleteErrCqDelete_ret :
    ((connDeleteErrCqDelete conn ret).run world.answer log).1 = ret := by
  simp [connDeleteErrCqDelete, connDeleteErrDestroyId_ret]

theorem connDeleteErrDestroyQp_ret :
    ((connDeleteErrDestroyQp conn ret).run world.answer log).1 = ret := by
  simp [connDeleteErrDestroyQp, connDeleteErrCqDelete_ret]

end Chain

theorem clean_connDeleteEventChannel (conn : Conn) :
    Prog.Triple world.answer (Clean base φ) (connDeleteEventChannel conn 0)
      fun ret => Clean base (φ ∧ ret = 0) := by
  refine (clean_exec (by simp [DestroySucceeded])).bind fun _ => ?_
  refine Prog.Triple.bind ((clean_exec (by simp [DestroySucceeded])).bind fun _ =>
    .pure fun _ h => h) fun _ => (clean_exec (by simp [DestroySucceeded])).bind fun _ => ?_
  exact .pure fun _ h => h.congr (by simp)

theorem clean_connDeleteCompChannel (hnf : NoFaults world) (conn : Conn) (hφ : φ) :
    Prog.Triple world.answer (Clean base φ) (connDeleteCompChannel conn)
      fun ret => Clean base (ret = 0) := by
  unfold connDeleteCompChannel
  cases conn.channel with
  | none => exact (clean_connDeleteEventChannel conn).conseq (fun _ h => h) fun _ _ h =>
      h.congr (by simp [hφ])
  | some channel =>
    refine (clean_check fun _ => Iff.rfl).bind fun ok => ?_
    cases ok with
    | true =>
      refine clean_faultInjection hnf ((clean_connDeleteEventChannel conn).conseq (fun _ h => h) ?_)
      exact fun _ _ h => h.congr (by simp [hφ])
    | false => exact clean_error (by decide) (by simp) (connDeleteEventChannel_ret conn _)

/-- **`rpma_conn_delete`** reports failures. -/
theorem clean_connDelete (hnf : NoFaults world) (conn : Conn) :
    Prog.Triple world.answer (Clean base True) (connDelete conn)
      fun ret => Clean base (ret = 0) := by
  refine (clean_flushDelete hnf _).bind fun ret => ?_
  split
  · rename_i hne
    exact clean_error hne (by simp [hne]) (connDeleteErrDestroyQp_ret conn _)
  rename_i hret
  refine (clean_exec (by simp [DestroySucceeded])).bind fun _ => ?_
  refine (clean_cqDelete hnf _).bind fun ret => ?_
  split
  · rename_i hne
    exact clean_error hne (by simp [hne]) (connDeleteErrCqDelete_ret conn _)
  rename_i hret2
  refine (clean_cqDelete hnf _).bind fun ret => ?_
  split
  · rename_i hne
    exact clean_error hne (by simp [hne]) (connDeleteErrDestroyId_ret conn _)
  rename_i hret3
  refine (clean_check fun _ => Iff.rfl).bind fun ok => ?_
  simp only [ne_eq, Decidable.not_not] at hret hret2 hret3
  cases ok with
  | true =>
    exact clean_faultInjection hnf
      (clean_connDeleteCompChannel hnf conn (by simp [hret, hret2, hret3]))
  | false => exact clean_error (by decide) (by simp) (connDeleteErrCompChannel_ret conn _)

/-- What `m` returns is 0 iff every destroying call it made succeeded. -/
def ReportsFailures (world : World) (m : P Int) : Prop :=
  ∀ log, ∃ calls, (m.run world.answer log).2 = log ++ calls ∧
    ((m.run world.answer log).1 = 0 ↔ ∀ e ∈ calls, DestroySucceeded e)

theorem reportsFailures_of_clean {m : P Int}
    (h : ∀ base, Prog.Triple world.answer (Clean base True) m fun ret => Clean base (ret = 0)) :
    ReportsFailures world m := by
  intro log
  obtain ⟨calls, hlog, hret⟩ := h log log .refl
  exact ⟨calls, hlog, hret.symm⟩

end Codes

/-- In a build without fault injection both destructors report failures. -/
def DestructorsReport (world : World) : Prop :=
  NoFaults world → (∀ conn, ReportsFailures world (connDelete conn)) ∧
    ∀ req, req.isPassive = false → ReportsFailures world (connReqDelete req)

theorem destructorsReport (world : World) : DestructorsReport world := by
  refine fun hnf => ⟨fun conn => ?_, fun req ha => ?_⟩
  · exact reportsFailures_of_clean fun _ => clean_connDelete hnf conn
  · exact reportsFailures_of_clean fun _ => clean_connReqDelete hnf ha

/-! ## Balance -/

/-- No `rdma_migrate_id(id, NULL)` of the run failed. -/
def MigratesAway (log : CallLog) : Prop := ∀ e ∈ log, e.1.migratesAway = true → e.2.ok = true

instance (log : CallLog) : Decidable (MigratesAway log) :=
  inferInstanceAs (Decidable (∀ e ∈ log, e.1.migratesAway = true → e.2.ok = true))

/-- Where one failed, the event channel has been destroyed under its CM ID. -/
abbrev AwayOrDisordered (log : CallLog) : Prop := MigratesAway log ∨ Disordered effect log

theorem MigratesAway.snoc {log : CallLog} (h : MigratesAway log) {c : Call} {a : Answer}
    (hc : c.migratesAway = true → a.ok = true) : MigratesAway (log ++ [⟨c, a⟩]) := by
  intro e he
  rcases List.mem_append.mp he with he | he
  · exact h e he
  · obtain rfl := List.mem_singleton.mp he
    exact hc

theorem AwayOrDisordered.snoc {log : CallLog} (h : AwayOrDisordered log) {c : Call} {a : Answer}
    (hc : c.migratesAway = false) : AwayOrDisordered (log ++ [⟨c, a⟩]) :=
  h.imp (fun h => h.snoc (by simp [hc])) (fun h => h.snoc _)

theorem not_migratesAway_of_ordinary {c : Call} (hc : c.ordinary = true) :
    c.migratesAway = false := by
  unfold Call.migratesAway
  split
  · cases hc
  · rfl

instance : StableCq AwayOrDisordered where
  keep _ _ _ hc h := h.snoc (not_migratesAway_of_ordinary hc)
  keep_cq _ _ _ _ h := h.snoc rfl

instance : StableAlloc AwayOrDisordered where
  keep_alloc _ _ _ h := h.snoc rfl

/-- A migration that fails leaves the CM ID on the channel that is destroyed next. -/
instance : StableAway AwayOrDisordered where
  keep_away _ _ _ _ a _ hdep h := by
    cases hok : a.ok with
    | false => exact Or.inr (hdep.disordered (by simp [effect, hok]) rfl)
    | true =>
      refine h.imp (fun h => ?_) fun h => (h.snoc _).snoc _
      exact (h.snoc fun _ => hok).snoc (by simp [Call.migratesAway])

/-- The calls of the life of an outgoing request. -/
def activeLog (world : World) (peer : Option Peer) (addr port : Option String) (cfg : Option Cfg)
    (plan : Plan) : CallLog :=
  ((activeHistory peer addr port cfg plan).run world.answer []).2

section Balance

variable (world : World) (peer : Option Peer) (addr port : Option String) (cfg : Option Cfg)
  (plan : Plan)

/-- At the end of a history nothing is held, by what librpma presumes, and where it presumed wrong
the order has been broken. -/
theorem owned_activeLog : Owned AwayOrDisordered 0 0 (activeLog world peer addr port cfg plan) :=
  activeHistory_spec peer addr port cfg plan []
    ⟨by simpa using .nil, by simp, Or.inl (by simp [MigratesAway])⟩

theorem balanced_presumed :
    Balanced presumedEffect (activeLog world peer addr port cfg plan) :=
  balanced_of_owns presumed_serial_of_acquire
    (by simpa using (owned_activeLog world peer addr port cfg plan).owns)

/-- A balanced history has had no failed migration. -/
theorem migratesAway_of_balanced (h : Balanced effect (activeLog world peer addr port cfg plan)) :
    MigratesAway (activeLog world peer addr port cfg plan) :=
  (owned_activeLog world peer addr port cfg plan).inv.resolve_right fun hdis =>
    not_balanced_of_disordered hdis h

end Balance

/-- **The active side gives back what it takes exactly once and reports what failed; it does so in
order iff no `rdma_migrate_id(id, NULL)` failed.** -/
theorem activeHistory_balanced_iff (world : World) (peer : Option Peer) (addr port : Option String)
    (cfg : Option Cfg) (plan : Plan) :
    (Balanced effect (activeLog world peer addr port cfg plan) ∧ DestructorsReport world ↔
      MigratesAway (activeLog world peer addr port cfg plan)) ∧
    GivenBack effect (activeLog world peer addr port cfg plan) ∧ DestructorsReport world := by
  have hbal := balanced_presumed world peer addr port cfg plan
  refine ⟨⟨fun h => ?_, fun haway => ⟨?_, destructorsReport world⟩⟩, ?_, destructorsReport world⟩
  · exact migratesAway_of_balanced world peer addr port cfg plan h.1
  · exact hbal.congr fun i e he => presumedEffect_eq (haway e he)
  · exact ⟨by simpa using hbal.once, by simpa using hbal.acquired⟩

/-- A world in which every call but the `k`-th succeeds. -/
def failingAt (k : Nat) : World := fun n =>
  { ok := n != k, errno := .other, handle := 0, fault := false,
    event := ⟨.established, some [1]⟩, evCq := 0, polled := 1 }

/-- A connection over a shared completion channel. -/
def sharedConnection : P Unit :=
  activeHistory (some ⟨true, true⟩) (some "server") (some "7204") (some ⟨1000, 10, 10, true⟩)
    (.connect ⟨true, none⟩ 2)

/-- The 48th call of such a history is `rdma_connect`; here it fails. -/
theorem activeHistory_balanced_refused :
    (sharedConnection.run (failingAt 48).answer []).2.length = 72 ∧
    Balanced effect (sharedConnection.run (failingAt 48).answer []).2 ∧
    NoFaults (failingAt 48) ∧ (∀ conn, ReportsFailures (failingAt 48) (connDelete conn)) := by
  have h := (activeHistory_balanced_iff (failingAt 48) (some ⟨true, true⟩) (some "server")
    (some "7204") (some ⟨1000, 10, 10, true⟩) (.connect ⟨true, none⟩ 2)).1.mpr (by decide +kernel)
  exact ⟨by decide +kernel, h.1, fun _ => rfl, (h.2 fun _ => rfl).1⟩

/-- A world in which the `k`-th call and the one after it fail. -/
def failingTwiceAt (k : Nat) : World := fun n =>
  { failingAt k n with ok := n != k && n != k + 1 }

/-- **The flushing object cannot be allocated, and the CM ID cannot be migrated away: its event
channel is destroyed eight calls before it.** -/
theorem evch_destroyed_before_id :
    (((sharedConnection.run (failingTwiceAt 37).answer []).2.map Sigma.fst).drop 37).take 11 =
      [.malloc .flush, .rdmaMigrateId 6 none, .rdmaDestroyEventChannel 33, .rdmaDestroyQp 6 25,
        .ibvDestroyCq 20, .free (some 23), .faultInjection, .ibvDestroyCq 15, .free (some 18),
        .faultInjection, .rdmaDestroyId 6] ∧
    ¬ Balanced effect (sharedConnection.run (failingTwiceAt 37).answer []).2 := by
  refine ⟨by decide +kernel, fun h => ?_⟩
  have haway : MigratesAway (sharedConnection.run (failingTwiceAt 37).answer []).2 :=
    migratesAway_of_balanced _ _ _ _ _ _ h
  exact absurd haway (by decide +kernel)

end Rpma.Librpma
