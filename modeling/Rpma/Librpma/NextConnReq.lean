import Rpma.Librpma.PrivateData
import Rpma.Librpma.Passive

/-!
# What `rpma_ep_next_conn_req` promises

"Returns 0 on success or a negative error code on failure", and "does not set `*req_ptr` value on
failure". `NextContract` is this promise, with a live request for the success.

The function builds the request before it acknowledges the event, and two exits come after that:
an injected fault, which jumps to `err_ack` with `ret` still 0, and a failed acknowledgement. Both
leave `NULL` in `*req_ptr`. Which exit a run takes depends on the answers to its calls, in their
order: `Answered world n ws` says that from the `n`-th call on they are as wanted, and
`requestWants` are the answers that `rpma_conn_req_from_cm_event` needs.

* `follows_connReqFromCmEvent`: it builds a request exactly when it gets them.
* **`epNextConnReq_contract_iff`**: the promise is kept exactly when neither late exit is taken.
-/

namespace Rpma.Librpma

open Rpma.Lib Rpma.Lib.Ledger

/-! ## Wanted answers -/

/-- What a caller wants of an answer in order to go on; `any` if it goes on in either case. -/
inductive Want where
  | noFault | ok | any
  deriving DecidableEq

def Want.Met : Want → Answer → Prop
  | .noFault, a => a.fault = false
  | .ok, a => a.ok = true
  | .any, _ => True

/-- From the `n`-th call on the answers are as wanted. -/
def Answered (world : World) : Nat → List Want → Prop
  | _, [] => True
  | n, w :: ws => w.Met (world n) ∧ Answered world (n + 1) ws

theorem answered_append (world : World) (n : Nat) (ws ws' : List Want) :
    Answered world n (ws ++ ws') ↔ Answered world n ws ∧ Answered world (n + ws.length) ws' := by
  induction ws generalizing n with
  | nil => simp [Answered]
  | cons w ws ih =>
    rw [List.cons_append, Answered, Answered, ih, and_assoc, List.length_cons]
    have hn : n + 1 + ws.length = n + (ws.length + 1) := by omega
    rw [hn]

/-- A program that ends in an error, whatever the answers. -/
abbrev Fails {α : Type} (m : P (Except Int α)) : Prop :=
  m.Returns fun r => ∃ ret : Int, ret < 0 ∧ r = .error ret

/-- Started as the `n`-th call, the program succeeds after the wanted answers and no others. -/
def Follows {α : Type} (world : World) (n : Nat) (m : P (Except Int α)) (ws : List Want) : Prop :=
  ∀ log : CallLog, log.length = n →
    (Answered world n ws → ∃ a, (m.run world.answer log).1 = .ok a ∧
      (m.run world.answer log).2.length = n + ws.length) ∧
    (¬ Answered world n ws → ∃ ret : Int, ret < 0 ∧ (m.run world.answer log).1 = .error ret)

section Follows

variable {world : World} {n : Nat} {α β : Type} {ws ws' : List Want}

theorem follows_ok (a : α) : Follows world n (pure (.ok a)) [] := by
  intro log hn
  refine ⟨fun _ => ⟨a, rfl, hn⟩, fun h => absurd trivial h⟩

/-- One call, which decides whether the program goes on. -/
theorem follows_issue {c : Call} {k : Answer → P (Except Int α)} {w : Want}
    (hfail : ∀ a, ¬ w.Met a → Fails (k a))
    (hk : w.Met (world n) → Follows world (n + 1) (k (world.answer n c)) ws)
    (hw : w.Met (world.answer n c) ↔ w.Met (world n)) :
    Follows world n (Prog.issue c >>= k) (w :: ws) := by
  intro log hn
  subst hn
  rw [Prog.run_bind, Prog.run_issue]
  have hlen : (log ++ [⟨c, world.answer log.length c⟩] : CallLog).length = log.length + 1 := by
    simp
  rw [List.length_cons, Nat.add_comm ws.length, ← Nat.add_assoc]
  by_cases hmet : w.Met (world log.length)
  · obtain ⟨hok, herr⟩ := hk hmet _ hlen
    exact ⟨fun h => hok h.2, fun h => herr fun h' => h ⟨hmet, h'⟩⟩
  · exact ⟨fun h => absurd h.1 hmet, fun _ => (hfail _ (mt hw.mp hmet)).run _ _⟩

theorem follows_fault {onFault rest : P (Except Int α)} (hf : Fails onFault)
    (h : Follows world (n + 1) rest ws) :
    Follows world n (faultInjection onFault rest) (.noFault :: ws) := by
  refine follows_issue (fun a ha => ?_) (fun ha => ?_) Iff.rfl
  · have hfault : a.fault = true := by simpa [Want.Met] using ha
    rw [if_pos hfault]
    exact hf
  · have hfault : (world.answer n .faultInjection).fault = false := ha
    rw [hfault, if_neg (by simp)]
    exact h

theorem follows_create {c : Call} {k : Option Nat → P (Except Int α)} (hf : Fails (k none))
    (h : Follows world (n + 1) (k (some n)) ws) :
    Follows world n (create c >>= k) (.ok :: ws) := by
  refine follows_issue (k := fun a => k (if a.ok then some a.handle else none))
    (fun a ha => ?_) (fun ha => ?_) Iff.rfl
  · have hok : a.ok = false := by simpa [Want.Met] using ha
    rw [hok, if_neg (by simp)]
    exact hf
  · have hok : (world.answer n c).ok = true := ha
    rw [hok, if_pos rfl]
    exact h

theorem follows_check {c : Call} {k : Bool → P (Except Int α)} (hf : Fails (k false))
    (h : Follows world (n + 1) (k true) ws) : Follows world n (check c >>= k) (.ok :: ws) := by
  refine follows_issue (k := fun a => k a.ok) (fun a ha => ?_) (fun ha => ?_) Iff.rfl
  · have hok : a.ok = false := by simpa [Want.Met] using ha
    rw [hok]
    exact hf
  · have hok : (world.answer n c).ok = true := ha
    rw [hok]
    exact h

theorem follows_bind {m : P (Except Int α)} {k : Except Int α → P (Except Int β)}
    (hm : Follows world n m ws) (hf : ∀ ret < 0, Fails (k (.error ret)))
    (hk : ∀ a, Follows world (n + ws.length) (k (.ok a)) ws') :
    Follows world n (m >>= k) (ws ++ ws') := by
  intro log hn
  obtain ⟨hok, herr⟩ := hm log hn
  rw [Prog.run_bind, answered_append, List.length_append, ← Nat.add_assoc]
  by_cases hws : Answered world n ws
  · obtain ⟨a, ha, hlen⟩ := hok hws
    rw [ha]
    obtain ⟨hok', herr'⟩ := hk a _ hlen
    exact ⟨fun h => hok' h.2, fun h => herr' fun h' => h ⟨hws, h'⟩⟩
  · obtain ⟨ret, hneg, hret⟩ := herr hws
    rw [hret]
    exact ⟨fun h => absurd h.1 hws, fun _ => (hf ret hneg).run _ _⟩

end Follows

/-! ## The answers a request takes -/

/-- The answers `rpma_cq_new` wants, with a channel of its own or a shared one. -/
def cqWants (shared : Bool) : List Want :=
  (if shared then [] else [.noFault, .ok]) ++ [.noFault, .ok, .noFault, .ok, .ok]

/-- The answers `rpma_conn_req_from_id` wants. The second is the fault injection point of
`rpma_conn_cfg_get_compl_channel`, after which the channel is not shared. -/
def fromIdWants (cfg : Cfg) (shared : Bool) : List Want :=
  .noFault :: .any :: ((if shared then [.ok] else []) ++ (cqWants shared ++
    ((if connCfgGetRcqe cfg ≠ 0 then cqWants shared else []) ++ [.noFault, .ok, .ok])))

/-- The answers `rpma_conn_req_from_cm_event` wants. -/
def requestWants (cfg : Cfg) (edata : CmEvent) (shared : Bool) : List Want :=
  .noFault :: (fromIdWants cfg shared ++
    (.noFault :: if payloadOf edata = none then [] else [.ok]))

/-- What `rpma_conn_cfg_get_compl_channel` reports as the `n`-th call. -/
def sharedAt (world : World) (cfg : Cfg) (n : Nat) : Bool :=
  !(world n).fault && cfg.sharedCompChannel

section Building

variable {world : World} {n : Nat}

theorem fails_error {α : Type} {ret : Int} (hret : ret < 0) :
    Fails (pure (.error ret) : P (Except Int α)) := ⟨ret, hret, rfl⟩

theorem fails_cqNewErrDestroyCompChannel (shared : Option Nat) (channel : Nat) {ret : Int}
    (hret : ret < 0) : Fails (cqNewErrDestroyCompChannel shared channel ret) := by
  cases shared with
  | none => exact Prog.returns_after fun _ => fails_error hret
  | some _ => exact fails_error hret

theorem fails_cqNewErrDestroyCq (shared : Option Nat) (channel cq : Nat) {ret : Int}
    (hret : ret < 0) : Fails (cqNewErrDestroyCq shared channel cq ret) :=
  Prog.returns_after fun _ => fails_cqNewErrDestroyCompChannel shared channel hret

theorem fails_fromIdErrCompChannelDestroy (channel : Option Nat) {ret : Int} (hret : ret < 0) :
    Fails (fromIdErrCompChannelDestroy channel ret) :=
  Prog.returns_after fun _ => fails_error hret

theorem fails_fromIdErrCqDelete (channel : Option Nat) (cq : Cq) {ret : Int} (hret : ret < 0) :
    Fails (fromIdErrCqDelete channel cq ret) :=
  Prog.returns_after fun _ => fails_fromIdErrCompChannelDestroy channel hret

theorem fails_fromIdErrRcqDelete (channel : Option Nat) (cq : Cq) (rcq : Option Cq) {ret : Int}
    (hret : ret < 0) : Fails (fromIdErrRcqDelete channel cq rcq ret) :=
  Prog.returns_after fun _ => fails_fromIdErrCqDelete channel cq hret

theorem follows_cqNewOn (cqe : Int) (shared : Option Nat) (channel : Nat) :
    Follows world n (cqNewOn cqe shared channel) [.noFault, .ok, .noFault, .ok, .ok] := by
  have hprovider : rpmaEProvider < 0 := by decide
  have hnomem : rpmaENomem < 0 := by decide
  unfold cqNewOn
  apply follows_fault (fails_cqNewErrDestroyCompChannel _ _ hprovider)
  apply follows_create (fails_cqNewErrDestroyCompChannel _ _ hprovider)
  apply follows_fault (fails_cqNewErrDestroyCq _ _ _ hprovider)
  apply follows_check (fails_cqNewErrDestroyCq _ _ _ hprovider)
  apply follows_create (fails_cqNewErrDestroyCq _ _ _ hnomem)
  exact follows_ok _

theorem follows_cqNew (cqe : Int) (shared : Option Nat) :
    Follows world n (cqNew cqe shared) (cqWants shared.isSome) := by
  have hprovider : rpmaEProvider < 0 := by decide
  cases shared with
  | some channel => exact follows_cqNewOn _ _ _
  | none =>
    apply follows_fault (fails_error hprovider)
    apply follows_create (fails_error hprovider)
    exact follows_cqNewOn _ _ _

theorem follows_peerCreateQp (id : Nat) (cq : Cq) (rcq : Option Cq) :
    Follows world n (peerCreateQp id cq rcq) [.noFault, .ok] := by
  have hprovider : rpmaEProvider < 0 := by decide
  apply follows_fault (fails_error hprovider)
  apply follows_create (fails_error hprovider)
  exact follows_ok _

theorem follows_fromIdQp (peer : Peer) (id : Nat) (channel : Option Nat) (cq : Cq)
    (rcq : Option Cq) : Follows world n (fromIdQp peer id channel cq rcq) [.noFault, .ok, .ok] := by
  have hnomem : rpmaENomem < 0 := by decide
  refine follows_bind (follows_peerCreateQp id cq rcq)
    (fun ret hret => fails_fromIdErrRcqDelete _ _ _ hret) fun qp => ?_
  refine follows_create ?_ (follows_ok _)
  exact Prog.returns_after fun _ => fails_fromIdErrRcqDelete _ _ _ hnomem

theorem follows_fromIdCqs (peer : Peer) (id : Nat) (cfg : Cfg) (channel : Option Nat) :
    Follows world n (fromIdCqs peer id cfg channel) (cqWants channel.isSome ++
      ((if connCfgGetRcqe cfg ≠ 0 then cqWants channel.isSome else []) ++
        [.noFault, .ok, .ok])) := by
  refine follows_bind (follows_cqNew _ _)
    (fun ret hret => fails_fromIdErrCompChannelDestroy _ hret) fun cq => ?_
  dsimp only
  split
  · exact follows_bind (follows_cqNew _ _) (fun ret hret => fails_fromIdErrCqDelete _ _ hret)
      fun rcq => follows_fromIdQp _ _ _ _ _
  · exact follows_fromIdQp _ _ _ _ _

/-- The callers ignore whether a fault is injected here, but it decides what is shared. -/
theorem follows_complChannel {α : Type} {ws : List Want} (cfg : Cfg)
    {k : Bool → P (Except Int α)} (h : Follows world (n + 1) (k (sharedAt world cfg n)) ws) :
    Follows world n (connCfgGetComplChannel cfg >>= k) (.any :: ws) := by
  have hget : connCfgGetComplChannel cfg >>= k =
      Prog.issue .faultInjection >>= fun a => k (!a.fault && cfg.sharedCompChannel) := by
    refine congrArg (Prog.call Call.faultInjection) (funext fun a => ?_)
    obtain ⟨_, _, _, fault, _, _, _⟩ := a
    cases fault <;> rfl
  rw [hget]
  exact follows_issue (fun a ha => absurd trivial ha) (fun _ => h) Iff.rfl

theorem follows_connReqFromId (peer : Peer) (id : Nat) (cfg : Cfg) :
    Follows world n (connReqFromId peer id cfg)
      (fromIdWants cfg (sharedAt world cfg (n + 1))) := by
  have hprovider : rpmaEProvider < 0 := by decide
  apply follows_fault (fails_error hprovider)
  apply follows_complChannel
  cases sharedAt world cfg (n + 1) with
  | false => exact follows_fromIdCqs peer id cfg none
  | true =>
    refine follows_create (fails_error hprovider) ?_
    exact follows_fromIdCqs peer id cfg (some _)

theorem follows_privateDataStore (edata : CmEvent) (pdata : PrivateData) :
    Follows world n (privateDataStore edata pdata)
      (.noFault :: if payloadOf edata = none then [] else [.ok]) := by
  have hnomem : rpmaENomem < 0 := by decide
  apply follows_fault (fails_error hnomem)
  unfold payloadOf
  rcases edata.privateData with _ | _ | ⟨b, bytes⟩
  · exact follows_ok _
  · exact follows_ok _
  · exact follows_create (fails_error hnomem) (follows_ok _)

/-- **`rpma_conn_req_from_cm_event`** builds a request after the wanted answers, and otherwise
ends in an error. -/
theorem follows_connReqFromCmEvent (peer : Peer) (id : Nat) (cfg : Cfg) {edata : CmEvent}
    (hev : edata.event = .connectRequest) :
    Follows world n (connReqFromCmEvent peer id edata cfg)
      (requestWants cfg edata (sharedAt world cfg (n + 2))) := by
  have hinval : rpmaEInval < 0 := by decide
  apply follows_fault (fails_error hinval)
  rw [if_pos hev]
  refine follows_bind (follows_connReqFromId peer id cfg) (fun ret hret => fails_error hret)
    fun req => ?_
  rw [← List.append_nil (Want.noFault :: _)]
  refine follows_bind (follows_privateDataStore edata req.data) (fun ret hret => ?_)
    fun data => follows_ok _
  exact Prog.returns_after fun _ => fails_error hret

end Building

/-! ## The exits after the request was built -/

/-- The call with which `rpma_ep_next_conn_req` goes on when the request is built; `taken` is the
call after the one that took the event. -/
def builtAt (world : World) (taken : Nat) (cfg : Cfg) (edata : CmEvent) : Nat :=
  taken + 1 + (requestWants cfg edata (sharedAt world cfg (taken + 3))).length

/-- A request is built, and then a fault is injected or the event is not acknowledged. -/
def LateExit (world : World) (taken : Nat) (cfg : Cfg) (edata : CmEvent) : Prop :=
  ((world taken).fault = false ∧ edata.event = .connectRequest ∧
    Answered world (taken + 1) (requestWants cfg edata (sharedAt world cfg (taken + 3)))) ∧
  ((world (builtAt world taken cfg edata)).fault = true ∨
    (world (builtAt world taken cfg edata + 1)).ok = false)

/-- What a call returns and leaves in `*req_ptr`, `late` saying whether it takes a late exit. -/
def Outcome (late : Prop) (r : Int × ReqPtr) : Prop :=
  (late → r.2 = .null) ∧
  (¬ late → (r.1 = 0 ∧ ∃ req, r.2 = .obj req) ∨ (r.1 < 0 ∧ r.2 = .untouched))

section Exits

variable {world : World} {log : CallLog} {late : Prop}

theorem outcome_untouched {ret : Int} (hret : ret < 0) (hlate : ¬ late) :
    Outcome late (ret, .untouched) := ⟨fun h => absurd h hlate, fun _ => .inr ⟨hret, rfl⟩⟩

theorem outcome_null {m : P (Int × ReqPtr)} (hm : m.Returns fun r => r.2 = .null) (hlate : late)
    (log : CallLog) : Outcome late (m.run world.answer log).1 :=
  ⟨fun _ => hm.run _ log, fun h => absurd hlate h⟩

theorem outcome_fault {onFault rest : P (Int × ReqPtr)}
    (hf : (world log.length).fault = true →
      ∀ log', Outcome late (onFault.run world.answer log').1)
    (h : (world log.length).fault = false → ∀ log', log'.length = log.length + 1 →
      Outcome late (rest.run world.answer log').1) :
    Outcome late ((faultInjection onFault rest).run world.answer log).1 := by
  obtain ⟨log', hlen, hrun⟩ := faultInjection_run world onFault rest log
  rw [hrun]
  split
  · rename_i hfault
    exact hf hfault log'
  · rename_i hfault
    exact h (by simpa using hfault) log' hlen

/-- What is left of the call once the request was built. -/
def epBuilt (event : Nat) (req : Req) : P (Int × ReqPtr) :=
  faultInjection (do let _ ← connReqDelete req; epErrAck event 0 .null) do
    if ← check (.rdmaAckCmEvent event) then return (0, .obj req)
    else
      let _ ← connReqDelete req
      return (rpmaEProvider, .null)

theorem outcome_epBuilt (event : Nat) (req : Req) {n : Nat} (hn : log.length = n)
    (hlate : late ↔ ((world n).fault = true ∨ (world (n + 1)).ok = false)) :
    Outcome late ((epBuilt event req).run world.answer log).1 := by
  subst hn
  apply outcome_fault
  · intro hf
    apply outcome_null ?_ (hlate.mpr (.inl hf))
    exact Prog.returns_after fun _ => Prog.returns_after fun _ => rfl
  · intro hf log' hlen
    rw [Prog.run_bind]
    have hok : ((check (.rdmaAckCmEvent event) : P Bool).run world.answer log').1 =
        (world (log.length + 1)).ok := by rw [← hlen]; rfl
    rw [hok]
    cases hack : (world (log.length + 1)).ok with
    | true =>
      refine ⟨fun h => ?_, fun _ => .inl ⟨rfl, req, rfl⟩⟩
      rcases hlate.mp h with h | h
      · exact absurd (hf.symm.trans h) (by simp)
      · exact absurd (hack.symm.trans h) (by simp)
    | false =>
      apply outcome_null ?_ (hlate.mpr (.inr hack))
      exact Prog.returns_after fun _ => rfl

/-- **`rpma_ep_next_conn_req` from the event on**: a success, a failure, or a late exit. -/
theorem outcome_epTakeEvent (ep : Ep) (cfg : Cfg) (event : Nat) (edata : CmEvent) {n : Nat}
    (hn : log.length = n) :
    Outcome (LateExit world n cfg edata)
      ((epTakeEvent ep cfg event edata).run world.answer log).1 := by
  subst hn
  have hinval : rpmaEInval < 0 := by decide
  apply outcome_fault
  · exact fun hf _ => outcome_untouched hinval fun h => by simp [h.1.1] at hf
  · intro hf log' hlen
    split
    · rename_i hev
      obtain ⟨hok, herr⟩ :=
        (follows_connReqFromCmEvent ep.peer event cfg hev : Follows world _ _ _) log' hlen
      rw [Prog.run_bind]
      by_cases hws : Answered world (log.length + 1)
          (requestWants cfg edata (sharedAt world cfg (log.length + 3)))
      · obtain ⟨req, hreq, hlen'⟩ := hok hws
        rw [hreq]
        exact outcome_epBuilt event req hlen' (and_iff_right ⟨hf, hev, hws⟩)
      · obtain ⟨ret, hret, hr⟩ := herr hws
        rw [hr]
        exact outcome_untouched hret fun h => hws h.1.2.2
    · rename_i hev
      exact outcome_untouched hinval fun h => hev h.1.2.1

end Exits

/-! ## The promise -/

/-- `rpma_ep_next_conn_req` on any arguments; a `NULL` pointer is `none`, or `false` for
`req_ptr`. -/
def epNextConnReqArgs (ep : Option Ep) (cfg : Option Cfg) (reqPtr : Bool) : P (Int × ReqPtr) :=
  match ep, reqPtr with
  | some ep, true => epNextConnReq ep cfg
  | _, _ =>
    faultInjection (pure (rpmaEProvider, .untouched)) <|
    faultInjection (pure (rpmaENoEvent, .untouched)) <|
      pure (rpmaEInval, .untouched)

/-- Every object of the request was created in the run, and none has been released. -/
def Req.Live (req : Req) (log : CallLog) : Prop :=
  ∀ o, Held o req.withId → (∃ i, AcquiredAt effect log i o) ∧ ∀ j, ¬ ReleasedAt effect log j o

/-- The request is for a `CONNECT_REQUEST` that the endpoint delivered since `base`: it has the CM
ID of that event and a copy of its private data. -/
structure Req.From (ep : Ep) (base log : CallLog) (req : Req) : Prop where
  passive : req.isPassive = true
  since : base.length ≤ req.id
  event : ∃ a : Answer, log[req.id]? = some ⟨.rdmaGetCmEvent ep.evch true, a⟩ ∧ a.ok = true ∧
    a.event.event = .connectRequest ∧ req.data.Holds (payloadOf a.event)

/-- **What the documentation promises** of a call made after `base`, given what it returned and
left in `*req_ptr`, and the calls up to its end. -/
structure NextContract (ep : Option Ep) (base : CallLog) (r : (Int × ReqPtr) × CallLog) :
    Prop where
  zero_iff : r.1.1 = 0 ↔
    ∃ req, r.1.2 = .obj req ∧ req.Live r.2 ∧ ∃ ep', ep = some ep' ∧ req.From ep' base r.2
  failed : r.1.1 ≠ 0 → r.1.1 < 0 ∧ r.1.2 = .untouched

/-- The call that starts as the `n`-th takes an event and then a late exit. -/
def TakesLateExit (world : World) (n : Nat) (cfg : Option Cfg) : Prop :=
  Answered world n [.noFault, .noFault, .ok] ∧
    LateExit world (n + 3) (cfg.getD connCfgDefault) (world (n + 2)).event

section Promise

variable {world : World} {base : CallLog} {L : Multiset (Tok Obj)}

theorem epTakeEvent_returns (ep : Ep) (cfg : Cfg) (event : Nat) (edata : CmEvent) :
    (epTakeEvent ep cfg event edata).Returns fun r =>
      ∀ req, r.2 = .obj req →
        edata.event = .connectRequest ∧ req.data.Holds (payloadOf edata) := by
  have hfirst : firstPayload (some edata) [] = payloadOf edata := by simp [firstPayload]
  refine returns_fault (fun _ _ h => by cases h) ?_
  split
  · rename_i hev
    refine (requestFromId_returns ep.peer event cfg (some edata)).bind fun made hmade => ?_
    cases made with
    | error ret => exact fun _ _ h => by cases h
    | ok req =>
      have hdata := (hmade req rfl).1
      rw [hfirst] at hdata
      refine returns_fault (Prog.returns_after fun _ _ _ h => by cases h) ?_
      refine Prog.returns_after fun ok => ?_
      split
      · rintro _ ⟨⟩
        exact ⟨hev, hdata⟩
      · exact Prog.returns_after fun _ _ h => by cases h
  · exact fun _ _ h => by cases h

/-- Until the event: which way the call goes, and from which log. -/
theorem epNextConnReq_cases (world : World) (base : CallLog) (ep : Ep) (cfg : Option Cfg) :
    let r := (epNextConnReq ep cfg).run world.answer base
    (¬ Answered world base.length [.noFault, .noFault, .ok] ∧ r.1.1 < 0 ∧ r.1.2 = .untouched) ∨
    (Answered world base.length [.noFault, .noFault, .ok] ∧
      r = (epTakeEvent ep (cfg.getD connCfgDefault) (eventCall base)
        (world (eventCall base)).event).run world.answer (untilEvent world base ep)) := by
  intro r
  have hprovider : rpmaEProvider < 0 := by decide
  have hnoevent : rpmaENoEvent < 0 := by decide
  have hfault : ∀ n c, (world.answer n c).fault = (world n).fault := fun _ _ => rfl
  have hok : ∀ n c, (world.answer n c).ok = (world n).ok := fun _ _ => rfl
  have hr : r = (epNextConnReq ep cfg).run world.answer base := rfl
  unfold epNextConnReq faultInjection at hr
  rw [Prog.run_bind, Prog.run_issue, hfault] at hr
  cases h0 : (world base.length).fault with
  | true =>
    rw [h0, if_pos rfl] at hr
    rw [hr]
    exact .inl ⟨fun h => by simp [Answered, Want.Met, h0] at h, hprovider, rfl⟩
  | false =>
    rw [h0, if_neg (by simp), Prog.run_bind, Prog.run_issue, hfault, List.length_append,
      List.length_singleton] at hr
    cases h1 : (world (base.length + 1)).fault with
    | true =>
      rw [h1, if_pos rfl] at hr
      rw [hr]
      exact .inl ⟨fun h => by simp [Answered, Want.Met, h1] at h, hnoevent, rfl⟩
    | false =>
      rw [h1, if_neg (by simp), Prog.run_bind, Prog.run_issue, hok, List.length_append,
        List.length_append, List.length_singleton, List.length_singleton] at hr
      cases h2 : (world (base.length + 1 + 1)).ok with
      | true =>
        rw [h2, if_pos rfl] at hr
        exact .inr ⟨⟨h0, h1, h2, trivial⟩, hr⟩
      | false =>
        rw [h2, if_neg (by simp)] at hr
        refine .inl ⟨fun h => by simp [Answered, Want.Met, h2] at h, ?_⟩
        rw [hr, Prog.run_pure]
        refine ⟨?_, rfl⟩
        dsimp only
        split
        · exact hnoevent
        · exact hprovider

theorem contract_of_untouched {ep : Option Ep} {r : (Int × ReqPtr) × CallLog} (hret : r.1.1 < 0)
    (hr : r.1.2 = .untouched) : NextContract ep base r := by
  refine ⟨⟨fun h => absurd h (Int.ne_of_lt hret), ?_⟩, fun _ => ⟨hret, hr⟩⟩
  rintro ⟨req, hreq, -⟩
  rw [hr] at hreq
  cases hreq

/-- `NULL` in `*req_ptr` is no success, and `*req_ptr` was set. -/
theorem not_contract_of_null {ep : Option Ep} {r : (Int × ReqPtr) × CallLog}
    (hr : r.1.2 = .null) : ¬ NextContract ep base r := by
  intro h
  by_cases hret : r.1.1 = 0
  · obtain ⟨req, hreq, -⟩ := h.zero_iff.mp hret
    rw [hr] at hreq
    cases hreq
  · have huntouched := (h.failed hret).2
    rw [hr] at huntouched
    cases huntouched

/-- A request that the call leaves is live, and for the event the call took. -/
theorem contract_of_obj {ep : Ep} {cfg : Cfg} {r : (Int × ReqPtr) × CallLog} {req : Req}
    (hbase : Owns presumedEffect base L) (hevent : (world (eventCall base)).ok = true)
    (hr : r = (epTakeEvent ep cfg (eventCall base) (world (eventCall base)).event).run
      world.answer (untilEvent world base ep))
    (hret : r.1.1 = 0) (hobj : r.1.2 = .obj req) : NextContract (some ep) base r := by
  refine ⟨iff_of_true hret ⟨req, hobj, ?_⟩, fun h => absurd hret h⟩
  have hfrom := (epTakeEvent_returns ep cfg (eventCall base)
    (world (eventCall base)).event).run world.answer (untilEvent world base ep)
  rw [← hr] at hfrom
  obtain ⟨hreq, hdata⟩ := hfrom req hobj
  have hstart : Owned (fun _ => True) {tok .cmId (eventCall base) []} L
      (untilEvent world base ep) := by
    have h := owned_untilEvent ep hbase hevent hreq
    exact ⟨h.owns, h.free, trivial⟩
  have htaken : Taken (fun _ => True) (fun _ => True) (eventCall base) L r.1.2 r.2 := by
    rw [hr]
    exact epTakeEvent_spec ep cfg _ _ (fun _ _ _ _ => trivial) (fun _ _ _ _ => trivial)
      (fun _ _ _ _ => trivial) _ hstart
  rw [hobj] at htaken
  obtain ⟨howned, hincoming, hid⟩ := htaken
  refine ⟨fun o ho => ?_, ep, rfl, hincoming.passive, ?_, ?_⟩
  · simpa using ((howned.owns.inv presumed_serial_of_acquire).held_iff o).mp (by simp [ho])
  · rw [hid, eventCall]
    omega
  · refine ⟨world.answer (eventCall base) (.rdmaGetCmEvent ep.evch true), ?_, hevent, hreq, hdata⟩
    have hpre : untilEvent world base ep <+: r.2 := by
      rw [hr]
      exact Prog.run_prefix _ _
    obtain ⟨rest, hrest⟩ := hpre
    rw [hid, ← hrest, List.getElem?_append_left (by simp [untilEvent, eventCall])]
    simp [untilEvent, eventCall]

/-- **`rpma_ep_next_conn_req` keeps its promise exactly when it takes no late exit.** -/
theorem epNextConnReq_contract_iff (world : World) (base : CallLog) (L : Multiset (Tok Obj))
    (hbase : Owns effect base L) (ep : Option Ep) (cfg : Option Cfg) (reqPtr : Bool) :
    NextContract ep base ((epNextConnReqArgs ep cfg reqPtr).run world.answer base) ↔
      ¬ (ep.isSome = true ∧ reqPtr = true ∧ TakesLateExit world base.length cfg) := by
  have hnull : ∀ ep : Option Ep, NextContract ep base
      ((faultInjection (pure (rpmaEProvider, .untouched)) <|
        faultInjection (pure (rpmaENoEvent, .untouched)) <|
          pure (rpmaEInval, .untouched) : P (Int × ReqPtr)).run world.answer base) := by
    intro ep
    have hret : Prog.Returns (fun r => r.1 < 0 ∧ r.2 = .untouched)
        (faultInjection (pure (rpmaEProvider, .untouched)) <|
          faultInjection (pure (rpmaENoEvent, .untouched)) <|
            pure (rpmaEInval, .untouched) : P (Int × ReqPtr)) :=
      returns_fault ⟨by decide, rfl⟩ (returns_fault ⟨by decide, rfl⟩ ⟨by decide, rfl⟩)
    obtain ⟨h1, h2⟩ := hret.run world.answer base
    exact contract_of_untouched h1 h2
  match ep, reqPtr with
  | none, _ => exact iff_of_true (hnull none) (by simp)
  | some ep, false => exact iff_of_true (hnull (some ep)) (by simp)
  | some ep, true =>
    rcases epNextConnReq_cases world base ep cfg with ⟨hno, hret, hr⟩ | ⟨hyes, hr⟩
    · exact iff_of_true (contract_of_untouched hret hr) fun h => hno h.2.2.1
    · have hlen : (untilEvent world base ep).length = base.length + 3 := by simp [untilEvent]
      have hout : Outcome (LateExit world (base.length + 3) (cfg.getD connCfgDefault)
          (world (eventCall base)).event) _ :=
        outcome_epTakeEvent ep (cfg.getD connCfgDefault) (eventCall base) _ hlen
      rw [← hr] at hout
      have hlate : TakesLateExit world base.length cfg ↔ LateExit world (base.length + 3)
          (cfg.getD connCfgDefault) (world (eventCall base)).event := and_iff_right hyes
      change NextContract _ _ ((epNextConnReq ep cfg).run world.answer base) ↔ _
      simp only [Option.isSome_some, true_and, hlate]
      by_cases hl : LateExit world (base.length + 3) (cfg.getD connCfgDefault)
          (world (eventCall base)).event
      · exact iff_of_false (not_contract_of_null (hout.1 hl)) (not_not_intro hl)
      · refine iff_of_true ?_ hl
        rcases hout.2 hl with ⟨hret, req, hobj⟩ | ⟨hret, huntouched⟩
        · obtain ⟨L', hbase'⟩ := owns_presumed hbase
          exact contract_of_obj hbase' hyes.2.2.1 hr hret hobj
        · exact contract_of_untouched hret huntouched

end Promise

/-- A world in which every call succeeds but the `failing`-th, the event being a connection request
that carries private data, and a fault is injected at the `faulty`-th. -/
def requestWorld (failing faulty : Nat) : World := fun n =>
  { ok := n != failing, errno := .other, handle := 0, fault := n == faulty,
    event := ⟨.connectRequest, some [1]⟩, evCq := 0, polled := 1 }

/-- A call on an endpoint with the default configuration. -/
def nextOnEp (world : World) : (Int × ReqPtr) × CallLog :=
  (epNextConnReqArgs (some ⟨⟨true, true⟩, 0⟩) none true).run world.answer []

/-- When nothing fails, the promise is kept: no late exit is taken. -/
theorem epNextConnReq_contract_served : (nextOnEp (requestWorld 999 999)).1.1 = 0 ∧
    NextContract (some ⟨⟨true, true⟩, 0⟩) [] (nextOnEp (requestWorld 999 999)) := by
  refine ⟨by decide +kernel, ?_⟩
  refine (epNextConnReq_contract_iff (requestWorld 999 999) [] 0 .nil (some ⟨⟨true, true⟩, 0⟩)
    none true).mpr ?_
  rintro ⟨-, -, -, -, hfault | hok⟩
  · exact absurd hfault (by decide +kernel)
  · exact absurd hok (by decide +kernel)

/-- **A fault injected once the request was built: 0, and no request. An acknowledgement that
fails: a request taken back, and `*req_ptr` overwritten.** -/
theorem late_exits_break_contract :
    ((nextOnEp (requestWorld 999 19)).1.1 = 0 ∧
      ¬ NextContract (some ⟨⟨true, true⟩, 0⟩) [] (nextOnEp (requestWorld 999 19))) ∧
    ((nextOnEp (requestWorld 20 999)).1.1 = rpmaEProvider ∧
      ¬ NextContract (some ⟨⟨true, true⟩, 0⟩) [] (nextOnEp (requestWorld 20 999))) :=
  ⟨⟨by decide +kernel, not_contract_of_null rfl⟩, by decide +kernel, not_contract_of_null rfl⟩

end Rpma.Librpma
