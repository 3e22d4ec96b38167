import Rpma.Librpma.Events

/-!
# Private data: which payload a connection has, and when it loses it

A payload comes with the event of an incoming request, is copied into the request and moved to the
connection by `rpma_conn_req_accept`; or it comes with an `ESTABLISHED` event, which
`rpma_conn_next_event` copies unless the connection already has one. `firstPayload` says which one
the application is to see: the first that is there.

* **`private_data_first_payload`**: while everything succeeds the connection has the first payload,
  and keeps it.
* **`failed_event_keeps_data_iff`**: a failing `rpma_conn_next_event` keeps what the connection
  had, unless it is the acknowledgement that fails. That exit discards the payload, whichever call
  it came with.
-/

namespace Rpma.Librpma

open Rpma.Lib

/-- `rpma_conn_get_private_data`: the result and what is in `*pdata`, if it is set. -/
def connGetPrivateData (conn : Option Conn) (pdata : Bool) : P (Int × Option PrivateData) :=
  faultInjection (pure (rpmaEInval, none)) <|
    match conn, pdata with
    | some conn, true => return (0, some conn.data)
    | _, _ => return (rpmaEInval, none)

/-! ## Payloads -/

/-- What an event carries, if its pointer is not `NULL` and its length not 0. -/
def payloadOf (edata : CmEvent) : Option (List UInt8) :=
  match edata.privateData with
  | none | some [] => none
  | some bytes => some bytes

/-- The first payload among the event of an incoming request and the `ESTABLISHED` events. -/
def firstPayload (request : Option CmEvent) (events : List CmEvent) : Option (List UInt8) :=
  (request.toList ++ events.filter (·.event = .established)).findSome? payloadOf

/-- The private data is a copy of the payload, or empty if there is none. -/
def PrivateData.Holds (pdata : PrivateData) : Option (List UInt8) → Prop
  | none => pdata = .empty
  | some bytes => ∃ ptr, pdata = ⟨some ptr, bytes⟩

/-- The CM events obtained in a run. -/
def eventsOfRun (calls : CallLog) : List CmEvent := calls.filterMap fun
  | ⟨.rdmaGetCmEvent _ _, a⟩ => if a.ok then some a.event else none
  | _ => none

/-- `rpma_private_data_store` succeeding with a copy at `ptr`. -/
def storedData (edata : CmEvent) (pdata : PrivateData) (ptr : Nat) : PrivateData :=
  match payloadOf edata with
  | none => pdata
  | some bytes => ⟨some ptr, bytes⟩

theorem holds_stored (edata : CmEvent) (ptr : Nat) :
    (storedData edata .empty ptr).Holds (payloadOf edata) := by
  unfold storedData
  split
  · rename_i h
    rw [h]
    rfl
  · rename_i bytes h
    rw [h]
    exact ⟨ptr, rfl⟩

theorem PrivateData.Holds.ptr_eq_none_iff {pdata : PrivateData} {payload : Option (List UInt8)}
    (h : pdata.Holds payload) : pdata.ptr = none ↔ payload = none := by
  cases payload with
  | none =>
    rw [show pdata = .empty from h]
    exact iff_of_true rfl rfl
  | some bytes =>
    obtain ⟨ptr, rfl⟩ := h
    simp

theorem firstPayload_snoc (request : Option CmEvent) (events : List CmEvent) (edata : CmEvent) :
    firstPayload request (events ++ [edata]) =
      (firstPayload request events).or
        (if edata.event = .established then payloadOf edata else none) := by
  unfold firstPayload
  rw [List.filter_append, ← List.append_assoc, List.findSome?_append]
  congr 1
  by_cases h : edata.event = .established
  · simp [h]
  · simp [h]

/-! ## What a request and its connection start with -/

section Making

/-- What is known of a result that is no error. -/
abbrev IfOk {α : Type} (Q : α → Prop) (r : Except Int α) : Prop := ∀ a, r = .ok a → Q a

variable {α : Type}

theorem ifOk_error {Q : α → Prop} {ret : Int} : IfOk Q (.error ret) := fun _ h => by
  cases h

theorem ifOk_ok {Q : α → Prop} {a : α} (h : Q a) : IfOk Q (.ok a) := by
  rintro _ ⟨⟩
  exact h

theorem returns_fault {Q : α → Prop} {onFault rest : P α} (hf : onFault.Returns Q)
    (hr : rest.Returns Q) : (faultInjection onFault rest).Returns Q := by
  refine Prog.returns_after fun a => ?_
  split
  · exact hf
  · exact hr

theorem privateDataStore_returns (edata : CmEvent) (pdata : PrivateData) :
    (privateDataStore edata pdata).Returns
      (IfOk fun data => ∃ ptr, data = storedData edata pdata ptr) := by
  refine returns_fault ifOk_error ?_
  rcases hp : edata.privateData with _ | _ | ⟨b, bytes⟩
  · exact ifOk_ok ⟨0, by simp [storedData, payloadOf, hp]⟩
  · exact ifOk_ok ⟨0, by simp [storedData, payloadOf, hp]⟩
  · refine Prog.returns_after fun made => ?_
    cases made with
    | none => exact ifOk_error
    | some ptr => exact ifOk_ok ⟨ptr, by simp [storedData, payloadOf, hp]⟩

theorem fromIdQp_returns (peer : Peer) (id : Nat) (channel : Option Nat) (cq : Cq)
    (rcq : Option Cq) : (fromIdQp peer id channel cq rcq).Returns
      (IfOk fun req => req.data = .empty ∧ req.isPassive = false) := by
  have herr : ∀ ret, (fromIdErrRcqDelete channel cq rcq ret).Returns
      (IfOk fun req => req.data = .empty ∧ req.isPassive = false) := fun ret =>
    Prog.returns_after fun _ => Prog.returns_after fun _ => Prog.returns_after fun _ => ifOk_error
  refine Prog.returns_after fun made => ?_
  cases made with
  | error ret => exact herr ret
  | ok qp =>
    refine Prog.returns_after fun ptr => ?_
    cases ptr with
    | none => exact Prog.returns_after fun _ => herr _
    | some ptr => exact ifOk_ok ⟨rfl, rfl⟩

theorem connReqFromId_returns (peer : Peer) (id : Nat) (cfg : Cfg) :
    (connReqFromId peer id cfg).Returns
      (IfOk fun req => req.data = .empty ∧ req.isPassive = false) := by
  have hcqs : ∀ channel, (fromIdCqs peer id cfg channel).Returns
      (IfOk fun req => req.data = .empty ∧ req.isPassive = false) := by
    intro channel
    refine Prog.returns_after fun made => ?_
    cases made with
    | error ret => exact Prog.returns_after fun _ => ifOk_error
    | ok cq =>
      dsimp only
      split
      · refine Prog.returns_after fun made => ?_
        cases made with
        | error ret => exact Prog.returns_after fun _ => Prog.returns_after fun _ => ifOk_error
        | ok rcq => exact fromIdQp_returns _ _ _ _ _
      · exact fromIdQp_returns _ _ _ _ _
  refine returns_fault ifOk_error (Prog.returns_after fun shared => ?_)
  split
  · refine Prog.returns_after fun made => ?_
    cases made with
    | none => exact ifOk_error
    | some channel => exact hcqs _
  · exact hcqs _

/-- A request has the payload of its event, and is passive iff it has an event. -/
theorem requestFromId_returns (peer : Peer) (id : Nat) (cfg : Cfg) (edata : Option CmEvent) :
    (requestFromId peer id cfg edata).Returns (IfOk fun req =>
      req.data.Holds (firstPayload edata []) ∧ (req.isPassive = false → req.data = .empty)) := by
  cases edata with
  | none =>
    refine (connReqFromId_returns peer id cfg).imp fun r hr req hreq => ?_
    exact ⟨(hr req hreq).1, fun _ => (hr req hreq).1⟩
  | some edata =>
    have hfirst : firstPayload (some edata) [] = payloadOf edata := by simp [firstPayload]
    rw [hfirst]
    refine returns_fault ifOk_error ?_
    split
    · refine (connReqFromId_returns peer id cfg).bind fun made hmade => ?_
      cases made with
      | error ret => exact ifOk_error
      | ok req =>
        refine (privateDataStore_returns edata req.data).bind fun stored hstored => ?_
        cases stored with
        | error ret => exact Prog.returns_after fun _ => ifOk_error
        | ok data =>
          obtain ⟨ptr, rfl⟩ := hstored data rfl
          rw [(hmade req rfl).1]
          exact ifOk_ok ⟨holds_stored edata ptr, by simp⟩
    · exact ifOk_error

theorem connNew_returns (req : Req) :
    (connNew req).Returns (IfOk fun conn => conn.data = .empty) := by
  have hevch : ∀ evch ret, (connNewErrDestroyEvch evch ret).Returns
      (IfOk fun conn => conn.data = .empty) := fun _ _ => Prog.returns_after fun _ => ifOk_error
  refine returns_fault ifOk_error (Prog.returns_after fun made => ?_)
  cases made with
  | none => exact ifOk_error
  | some evch =>
    refine returns_fault (hevch _ _) (Prog.returns_after fun ok => ?_)
    split
    · refine Prog.returns_after fun made => ?_
      cases made with
      | error ret => exact Prog.returns_after fun _ => hevch _ _
      | ok flush =>
        refine Prog.returns_after fun ptr => ?_
        cases ptr with
        | none => exact Prog.returns_after fun _ => Prog.returns_after fun _ => hevch _ _
        | some ptr => exact ifOk_ok rfl
    · exact hevch _ _

/-- An accepted connection takes over the private data of its request, which is left empty. -/
theorem connReqAccept_returns (req : Req) :
    (connReqAccept req).Returns (IfOk fun conn => conn.data = req.data) := by
  have herr : ∀ ret, (acceptErrConnReqDelete req ret).Returns
      (IfOk fun conn => conn.data = req.data) := fun ret =>
    Prog.returns_after fun _ => Prog.returns_after fun _ => Prog.returns_after fun _ =>
      Prog.returns_after fun _ => Prog.returns_after fun _ => ifOk_error
  refine returns_fault (herr _) (Prog.returns_after fun ok => ?_)
  split
  · refine Prog.returns_after fun made => ?_
    cases made with
    | error ret => exact Prog.returns_after fun _ => herr _
    | ok conn => exact ifOk_ok rfl
  · exact herr _

theorem connReqConnectActive_returns (req : Req) :
    (connReqConnectActive req).Returns (IfOk fun conn => conn.data = .empty) := by
  have herr : ∀ ret, (connectErrConnNew req ret).Returns (IfOk fun conn => conn.data = .empty) :=
    fun ret => Prog.returns_after fun _ => Prog.returns_after fun _ => Prog.returns_after fun _ =>
      Prog.returns_after fun _ => Prog.returns_after fun _ => ifOk_error
  refine returns_fault (herr _) ((connNew_returns req).bind fun made hmade => ?_)
  cases made with
  | error ret => exact herr _
  | ok conn =>
    refine returns_fault (Prog.returns_after fun _ => ifOk_error) (Prog.returns_after fun ok => ?_)
    split
    · exact ifOk_ok (hmade conn rfl)
    · exact Prog.returns_after fun _ => ifOk_error

/-- **A new connection has the payload of its request.** -/
theorem connFromId_returns (peer : Peer) (id : Nat) (cfg : Cfg) (edata : Option CmEvent)
    (args : ConnectArgs) : (connFromId peer id cfg edata args).Returns
      (IfOk fun conn => conn.data.Holds (firstPayload edata [])) := by
  refine (requestFromId_returns peer id cfg edata).bind fun made hmade => ?_
  cases made with
  | error ret => exact ifOk_error
  | ok req =>
    obtain ⟨hholds, hactive⟩ := hmade req rfl
    refine returns_fault (Prog.returns_after fun _ => ifOk_error) ?_
    split
    · exact Prog.returns_after fun _ => ifOk_error
    · have hconn : (acceptOrConnect req).Returns
          (IfOk fun conn => conn.data.Holds (firstPayload edata [])) := by
        unfold acceptOrConnect
        split
        · refine (connReqAccept_returns req).imp fun r hr conn hc => ?_
          dsimp only
          rwa [hr conn hc]
        · rename_i hp
          have hempty : req.data = .empty := hactive (by simpa using hp)
          refine (connReqConnectActive_returns req).imp fun r hr conn hc => ?_
          dsimp only
          rwa [hr conn hc, ← hempty]
      exact hconn.bind fun r hr => Prog.returns_after fun _ => hr

end Making

/-! ## Events that all succeed -/

/-- Every call succeeds, and no fault is injected. -/
def Succeeds (world : World) : Prop := ∀ n, (world n).ok = true ∧ (world n).fault = false

theorem Succeeds.noFaults {world : World} (hs : Succeeds world) : NoFaults world :=
  fun n => (hs n).2

/-- The data of a connection after an event, with a copy at `ptr` if there is one to be made. -/
def dataAfter (data : PrivateData) (edata : CmEvent) (ptr : Nat) : PrivateData :=
  if edata.event = .established ∧ data.ptr = none then storedData edata data ptr else data

/-- The events obtained since `base`. -/
def Seen (base : CallLog) (events : List CmEvent) (log : CallLog) : Prop :=
  ∃ calls, log = base ++ calls ∧ eventsOfRun calls = events

theorem Seen.refl (base : CallLog) : Seen base [] base := ⟨[], by simp, rfl⟩

theorem Seen.snoc {base log : CallLog} {events : List CmEvent} (h : Seen base events log)
    (e : Σ _ : Call, Answer) : Seen base (events ++ eventsOfRun [e]) (log ++ [e]) := by
  obtain ⟨calls, rfl, rfl⟩ := h
  exact ⟨calls ++ [e], by simp, by simp only [eventsOfRun, List.filterMap_append]⟩

section Succeeding

variable {world : World} {base : CallLog} {events : List CmEvent} {c : Call} {α : Type}

/-- A call that obtains no event. -/
theorem seen_issue (hs : Succeeds world) (hc : ∀ a, eventsOfRun [⟨c, a⟩] = []) :
    Prog.Triple world.answer (Seen base events) (Prog.issue c) fun a log =>
      Seen base events log ∧ a.ok = true ∧ a.fault = false := by
  refine .issue fun log h => ⟨?_, hs log.length⟩
  have hsnoc := h.snoc ⟨c, world.answer log.length c⟩
  rwa [hc, List.append_nil] at hsnoc

theorem seen_check (hs : Succeeds world) (hc : ∀ a, eventsOfRun [⟨c, a⟩] = []) :
    Prog.Triple world.answer (Seen base events) (check c) fun ok log =>
      Seen base events log ∧ ok = true :=
  (seen_issue hs hc).bind fun _ => .pure fun _ h => ⟨h.1, h.2.1⟩

theorem seen_faultInjection (hs : Succeeds world) {onFault rest : P α} {Q : α → CallLog → Prop}
    (h : Prog.Triple world.answer (Seen base events) rest Q) :
    Prog.Triple world.answer (Seen base events) (faultInjection onFault rest) Q := by
  refine (seen_issue hs fun _ => rfl).bind fun a => .and_pure fun ha => ?_
  rw [if_neg (by simp [ha.2])]
  exact h

theorem seen_privateDataStore (hs : Succeeds world) (edata : CmEvent) (pdata : PrivateData) :
    Prog.Triple world.answer (Seen base events) (privateDataStore edata pdata) fun r log =>
      Seen base events log ∧ ∃ ptr, r = .ok (storedData edata pdata ptr) := by
  refine seen_faultInjection hs ?_
  rcases hp : edata.privateData with _ | _ | ⟨b, bytes⟩
  · exact .pure fun _ h => ⟨h, 0, by simp [storedData, payloadOf, hp]⟩
  · exact .pure fun _ h => ⟨h, 0, by simp [storedData, payloadOf, hp]⟩
  · refine ((seen_issue hs fun _ => rfl).bind fun a => .and_pure fun ha => ?_).bind
      (Q := fun r log => Seen base events log ∧ ∃ ptr, r = some ptr) fun made => ?_
    · exact .pure fun _ h => ⟨h, a.handle, if_pos ha.1⟩
    · refine .and_pure ?_
      rintro ⟨ptr, rfl⟩
      exact .pure fun _ h => ⟨h, ptr, by simp [storedData, payloadOf, hp]⟩

theorem seen_nextEventAck (hs : Succeeds world) (conn : Conn) (event : Nat) (edata : CmEvent) :
    Prog.Triple world.answer (Seen base events) (nextEventAck conn event edata) fun r log =>
      Seen base events log ∧ r.2.1 = conn := by
  refine (seen_check hs fun _ => rfl).bind fun ok => .and_pure ?_
  rintro rfl
  refine seen_faultInjection hs ?_
  split
  · exact .pure fun _ h => ⟨h, rfl⟩
  · exact .pure fun _ h => ⟨h, rfl⟩

/-- `rdma_get_cm_event` obtains an event. -/
theorem seen_get (hs : Succeeds world) (evch : Nat) (listening : Bool) :
    Prog.Triple world.answer (Seen base events) (Prog.issue (.rdmaGetCmEvent evch listening))
      fun a log => Seen base (events ++ [a.event]) log ∧ a.ok = true := by
  refine .issue fun log h => ⟨?_, (hs log.length).1⟩
  have hsnoc := h.snoc ⟨.rdmaGetCmEvent evch listening,
    world.answer log.length (.rdmaGetCmEvent evch listening)⟩
  simpa [eventsOfRun, World.answer, (hs log.length).1] using hsnoc

/-- **One event.** -/
theorem seen_connNextEvent (hs : Succeeds world) (conn : Conn) :
    Prog.Triple world.answer (Seen base events) (connNextEvent conn) fun r log =>
      ∃ edata ptr, Seen base (events ++ [edata]) log ∧
        r.2.1.data = dataAfter conn.data edata ptr := by
  refine seen_faultInjection hs (seen_faultInjection hs ?_)
  refine (seen_get hs conn.evch false).bind fun a => .and_pure fun hok => ?_
  rw [if_pos hok]
  split
  · rename_i hstore
    refine (seen_privateDataStore hs a.event conn.data).bind fun stored => .and_pure ?_
    rintro ⟨ptr, rfl⟩
    refine (seen_nextEventAck hs _ _ _).conseq (fun _ h => h) fun r log h => ⟨_, ptr, h.1, ?_⟩
    rw [h.2, dataAfter, if_pos hstore]
  · rename_i hstore
    refine (seen_nextEventAck hs _ _ _).conseq (fun _ h => h) fun r log h => ⟨_, 0, h.1, ?_⟩
    rw [h.2, dataAfter, if_neg hstore]

theorem holds_dataAfter {request : Option CmEvent} {data : PrivateData}
    (h : data.Holds (firstPayload request events)) (edata : CmEvent) (ptr : Nat) :
    (dataAfter data edata ptr).Holds (firstPayload request (events ++ [edata])) := by
  rw [firstPayload_snoc]
  unfold dataAfter
  cases hfirst : firstPayload request events with
  | some bytes =>
    obtain ⟨p, rfl⟩ : ∃ p, data = ⟨some p, bytes⟩ := by rwa [hfirst] at h
    rw [if_neg (by simp)]
    exact ⟨p, rfl⟩
  | none =>
    obtain rfl : data = .empty := by rwa [hfirst] at h
    rw [Option.none_or]
    by_cases hev : edata.event = .established
    · rw [if_pos ⟨hev, rfl⟩, if_pos hev]
      exact holds_stored edata ptr
    · rw [if_neg fun hc => hev hc.1, if_neg hev]
      rfl

theorem dataAfter_of_some {data : PrivateData} (h : data.ptr ≠ none) (edata : CmEvent)
    (ptr : Nat) : dataAfter data edata ptr = data := if_neg fun hc => h hc.2

/-- **Any number of events**: the first payload is there, and stays. -/
theorem seen_nextEvents (hs : Succeeds world) (n : Nat) (conn : Conn)
    {request : Option CmEvent} (hdata : conn.data.Holds (firstPayload request events)) :
    Prog.Triple world.answer (Seen base events) (nextEvents n conn) fun conn' log =>
      ∃ events', Seen base events' log ∧ events'.length = events.length + n ∧
        conn'.data.Holds (firstPayload request events') ∧
        (conn.data.ptr ≠ none → conn'.data = conn.data) := by
  induction n generalizing conn events with
  | zero => exact .pure fun _ h => ⟨events, h, rfl, hdata, fun _ => rfl⟩
  | succ n ih =>
    refine (seen_connNextEvent hs conn).bind fun r log ⟨edata, ptr, hseen, hr⟩ => ?_
    have hholds := holds_dataAfter hdata edata ptr
    rw [← hr] at hholds
    obtain ⟨events', hseen', hlen, hholds', hkeep⟩ := ih r.2.1 hholds log hseen
    refine ⟨events', hseen', ?_, hholds', fun hne => ?_⟩
    · rw [hlen, List.length_append, List.length_singleton]
      omega
    · rw [dataAfter_of_some hne] at hr
      rw [hkeep (by rwa [hr]), hr]

end Succeeding

/-- `rpma_conn_get_private_data` hands out what the connection has. -/
theorem connGetPrivateData_run {world : World} (hnf : NoFaults world) (conn : Conn)
    (log : CallLog) :
    ((connGetPrivateData (some conn) true).run world.answer log).1 = (0, some conn.data) := by
  unfold connGetPrivateData
  rw [run_faultInjection hnf]
  rfl

/-- **The private data of a connection is the first payload it was sent.** A connection is made
from an outgoing request (`edata` is `none`) or from the incoming one of an event, and takes `n`
and then `m` more events. -/
theorem private_data_first_payload (world : World) (hs : Succeeds world) (peer : Peer) (id : Nat)
    (cfg : Cfg) (edata : Option CmEvent) (args : ConnectArgs) (log : CallLog) (conn : Conn)
    (made : CallLog)
    (hmade : (connFromId peer id cfg edata args).run world.answer log = (.ok conn, made))
    (n m : Nat) :
    let after := (nextEvents n conn).run world.answer made
    let later := (nextEvents m after.1).run world.answer after.2
    let get := fun (conn : Conn) (log : CallLog) =>
      ((connGetPrivateData (some conn) true).run world.answer log).1
    let events := eventsOfRun (after.2.drop made.length)
    -- the payload after `n` events
    events.length = n ∧
    (match firstPayload edata events with
      | none => get after.1 after.2 = (0, some ⟨none, []⟩)
      | some bytes => ∃ ptr, get after.1 after.2 = (0, some ⟨some ptr, bytes⟩)) ∧
    -- is the same after `m` more
    ((firstPayload edata events).isSome → get later.1 later.2 = get after.1 after.2) ∧
    -- and what an accepted request gives away it does not keep
    ∀ conn pdata, connTransferPrivateData conn pdata = ({ conn with data := pdata }, .empty) := by
  intro after later get events
  have hdata : conn.data.Holds (firstPayload edata []) := by
    have hret : IfOk _ ((connFromId peer id cfg edata args).run world.answer log).1 :=
      (connFromId_returns peer id cfg edata args).run _ log
    exact hret conn (by rw [hmade])
  obtain ⟨events', ⟨calls, hcalls, rfl⟩, hlen, hholds, -⟩ :=
    seen_nextEvents hs n conn hdata made (.refl made)
  have hevents : events = eventsOfRun calls := by
    simp only [events, after, hcalls, List.drop_left]
  rw [← hevents] at hlen hholds
  obtain ⟨_, _, _, _, hkeep⟩ := seen_nextEvents hs m after.1 hholds after.2
    ⟨calls, hcalls, hevents.symm⟩
  refine ⟨by simpa using hlen, ?_, fun hsome => ?_, fun _ _ => rfl⟩
  · cases hfirst : firstPayload edata events with
    | none =>
      rw [hfirst] at hholds
      simp only [get, connGetPrivateData_run hs.noFaults]
      rw [show after.1.data = .empty from hholds]
      rfl
    | some bytes =>
      rw [hfirst] at hholds
      obtain ⟨ptr, hptr⟩ := hholds
      exact ⟨ptr, by simp only [get, connGetPrivateData_run hs.noFaults, after, hptr]⟩
  · have hne : after.1.data.ptr ≠ none := by
      rw [Ne, hholds.ptr_eq_none_iff]
      exact Option.isSome_iff_ne_none.mp hsome
    simp only [get, connGetPrivateData_run hs.noFaults]
    rw [show later.1.data = after.1.data from hkeep hne]

/-- A world in which every call but one succeeds, and events are `ESTABLISHED` with a payload. -/
def establishing (failing : Option Nat) : World := fun n =>
  { ok := failing != some n, errno := .other, handle := 0, fault := false,
    event := ⟨.established, some [9]⟩, evCq := 0, polled := 1 }

/-- The connection made from an incoming request with a payload of its own. -/
def greetedRun (failing : Option Nat) : Except Int Conn × CallLog :=
  (connFromId ⟨true, true⟩ 0 connCfgDefault (some ⟨.connectRequest, some [1, 2, 3]⟩)
    ⟨true, none⟩).run (establishing failing).answer []

def greeted : Conn :=
  { ptr := 32, id := 0, qp := 11, evch := 19, cq := ⟨9, 4, false, 6⟩, rcq := none, channel := none,
    data := ⟨some 14, [1, 2, 3]⟩, flush := ⟨23, ⟨31, 26, ⟨28, 30⟩⟩⟩, directWriteToPmem := false }

/-- Two `ESTABLISHED` events with other payloads do not change what the request brought. -/
theorem private_data_first_payload_greeted :
    ∃ ptr, ((connGetPrivateData
      (some ((nextEvents 2 greeted).run (establishing none).answer (greetedRun none).2).1)
      true).run (establishing none).answer
        ((nextEvents 2 greeted).run (establishing none).answer (greetedRun none).2).2).1 =
      (0, some ⟨some ptr, [1, 2, 3]⟩) := by
  have hmade : (greetedRun none).1 = .ok greeted := by decide +kernel
  obtain ⟨-, hget, -⟩ := private_data_first_payload (establishing none) (fun _ => ⟨rfl, rfl⟩)
    ⟨true, true⟩ 0 connCfgDefault (some ⟨.connectRequest, some [1, 2, 3]⟩) ⟨true, none⟩ []
    greeted (greetedRun none).2 (Prod.ext hmade rfl) 2 0
  exact hget

/-! ## Events that fail -/

/-- A connection without private data has none of its bytes, either. -/
def PrivateData.Clean (pdata : PrivateData) : Prop := pdata.ptr = none → pdata = .empty

theorem PrivateData.Holds.clean {pdata : PrivateData} {payload : Option (List UInt8)}
    (h : pdata.Holds payload) : pdata.Clean := by
  intro hptr
  rw [h.ptr_eq_none_iff.mp hptr] at h
  exact h

section Failing

/-- What `rpma_conn_next_event` can do to the private data and `*event`: keep, store or discard. -/
theorem nextEventAck_returns (conn : Conn) (event : Nat) (edata : CmEvent) :
    (nextEventAck conn event edata).Returns fun r =>
      (r.2.1.data = conn.data ∨ r.2.1.data = .empty) ∧ (r.1 ≠ 0 → r.2.2 = none) ∧
        (r.1 ≠ 0 → edata.event = .established → r.2.1.data = .empty) := by
  have hdiscard : ∀ ret, (nextEventErrDiscard conn ret).Returns fun r =>
      (r.2.1.data = conn.data ∨ r.2.1.data = .empty) ∧ (r.1 ≠ 0 → r.2.2 = none) ∧
        (r.1 ≠ 0 → edata.event = .established → r.2.1.data = .empty) := fun ret _ =>
    ⟨.inr rfl, fun _ => rfl, fun _ _ => rfl⟩
  refine Prog.returns_after fun ok => ?_
  split
  · refine returns_fault (hdiscard _) ?_
    split
    · rename_i ev hev
      exact ⟨.inl rfl, fun h => absurd rfl h, fun h => absurd rfl h⟩
    · rename_i hev
      refine ⟨.inl rfl, fun _ => rfl, fun _ hest => ?_⟩
      rw [hest] at hev
      cases hev
  · exact hdiscard _

/-- On a connection without private data a failure leaves things as they were. -/
theorem connNextEvent_returns (conn : Conn) (hclean : conn.data.Clean) :
    (connNextEvent conn).Returns fun r => r.2.1.data.Clean ∧ (r.1 ≠ 0 → r.2.2 = none) ∧
      (r.1 ≠ 0 → conn.data.ptr = none → r.2.1.data = .empty) := by
  have hkeep : ∀ ret, (r : Int × Conn × Option ConnEvent) → r = (ret, conn, none) →
      r.2.1.data.Clean ∧ (r.1 ≠ 0 → r.2.2 = none) ∧
        (r.1 ≠ 0 → conn.data.ptr = none → r.2.1.data = .empty) := by
    rintro ret r rfl
    exact ⟨hclean, fun _ => rfl, fun _ => hclean⟩
  refine returns_fault (hkeep _ _ rfl) (returns_fault (hkeep _ _ rfl) ?_)
  refine Prog.returns_after fun a => ?_
  split
  · split
    · rename_i hstore
      refine (privateDataStore_returns a.event conn.data).bind fun stored hstored => ?_
      cases stored with
      | error ret => exact Prog.returns_after fun _ => hkeep _ _ rfl
      | ok data =>
        obtain ⟨ptr, rfl⟩ := hstored data rfl
        refine (nextEventAck_returns _ _ _).imp fun r hr =>
          ⟨?_, hr.2.1, fun h _ => hr.2.2 h hstore.1⟩
        have hstill : (storedData a.event conn.data ptr).Clean := by
          rw [hclean hstore.2]
          exact (holds_stored a.event ptr).clean
        rcases hr.1 with h | h
        · rw [h]
          exact hstill
        · rw [h]
          exact fun _ => rfl
    · refine (nextEventAck_returns _ _ _).imp fun r hr => ⟨?_, hr.2.1, fun _ hnone => ?_⟩
      · rcases hr.1 with h | h
        · rw [h]
          exact hclean
        · rw [h]
          exact fun _ => rfl
      · rcases hr.1 with h | h
        · rw [h, hclean hnone]
        · exact h
  · exact hkeep _ _ rfl

theorem nextEvents_returns (n : Nat) (conn : Conn) (hclean : conn.data.Clean) :
    (nextEvents n conn).Returns fun conn => conn.data.Clean := by
  induction n generalizing conn with
  | zero => exact hclean
  | succ n ih => exact (connNextEvent_returns conn hclean).bind fun r hr => ih r.2.1 hr.1

/-- The next call of `rpma_conn_next_event`, whose first call is the `n`-th of the run, obtains an
event and fails to acknowledge it (or a fault is injected right after that). -/
def AckFails (world : World) (n : Nat) : Prop :=
  ((world n).fault = false ∧ (world (n + 1)).fault = false ∧ (world (n + 2)).ok = true) ∧
    ((world (n + 3)).ok = false ∨ (world (n + 4)).fault = true)

theorem faultInjection_run {α : Type} (world : World) (onFault rest : P α) (log : CallLog) :
    ∃ log', log'.length = log.length + 1 ∧ (faultInjection onFault rest).run world.answer log =
      if (world log.length).fault = true then onFault.run world.answer log'
      else rest.run world.answer log' := by
  refine ⟨log ++ [⟨.faultInjection, world.answer log.length .faultInjection⟩], by simp, ?_⟩
  unfold faultInjection
  rw [Prog.run_bind, Prog.run_issue]
  change Prog.run _ (if (world log.length).fault = true then _ else _) _ = _
  split <;> rfl

theorem nextEventAck_run (world : World) (conn : Conn) (event : Nat) (edata : CmEvent)
    (log : CallLog) {n : Nat} (hn : log.length = n) :
    let out := ((nextEventAck conn event edata).run world.answer log).1
    let fails := (world n).ok = false ∨ (world (n + 1)).fault = true
    (fails → out.1 ≠ 0 ∧ out.2.1.data = .empty) ∧ (¬ fails → out.2.1.data = conn.data) := by
  subst hn
  have hprovider : rpmaEProvider ≠ 0 := by decide
  have hunknown : rpmaEUnknown ≠ 0 := by decide
  intro out fails
  let log' := log ++ [⟨.rdmaAckCmEvent event, world.answer log.length (.rdmaAckCmEvent event)⟩]
  obtain ⟨rest, hrest, hout⟩ : ∃ rest : P (Int × Conn × Option ConnEvent),
      (∀ log, (rest.run world.answer log).1.2.1.data = conn.data) ∧
        out = ((if (world log.length).ok = true then
          faultInjection (nextEventErrDiscard conn rpmaEUnknown) rest
          else nextEventErrDiscard conn rpmaEProvider).run world.answer log').1 := by
    refine ⟨_, fun log => ?_, rfl⟩
    cases connEventOf edata.event <;> rfl
  have hlen : log'.length = log.length + 1 := by simp [log']
  cases hok : (world log.length).ok with
  | false =>
    rw [hok, if_neg (by simp)] at hout
    rw [hout]
    exact ⟨fun _ => ⟨hprovider, rfl⟩, fun h => absurd (.inl hok) h⟩
  | true =>
    obtain ⟨log'', -, hrun⟩ :=
      faultInjection_run world (nextEventErrDiscard conn rpmaEUnknown) rest log'
    rw [hok, if_pos rfl, hrun, hlen] at hout
    cases hf : (world (log.length + 1)).fault with
    | true =>
      rw [hf, if_pos rfl] at hout
      rw [hout]
      exact ⟨fun _ => ⟨hunknown, rfl⟩, fun h => absurd (.inr hf) h⟩
    | false =>
      rw [hf, if_neg (by simp)] at hout
      refine ⟨fun h => ?_, fun _ => ?_⟩
      · rcases h with h | h
        · simp [hok] at h
        · simp [hf] at h
      · rw [hout]
        exact hrest log''

/-- With private data at hand no copy is made, and the acknowledgement is the fourth call. -/
theorem connNextEvent_run_of_data (world : World) (conn : Conn) (hdata : conn.data.ptr ≠ none)
    (log : CallLog) :
    let out := ((connNextEvent conn).run world.answer log).1
    (AckFails world log.length → out.1 ≠ 0 ∧ out.2.1.data = .empty) ∧
      (¬ AckFails world log.length → out.2.1.data = conn.data) := by
  intro out
  have hkeep : ∀ ret, out = (ret, conn, none) → ¬ AckFails world log.length →
      (AckFails world log.length → out.1 ≠ 0 ∧ out.2.1.data = .empty) ∧
        (¬ AckFails world log.length → out.2.1.data = conn.data) :=
    fun ret hout hno => ⟨fun h => absurd h hno, fun _ => by rw [hout]⟩
  have hout : out = ((connNextEvent conn).run world.answer log).1 := rfl
  unfold connNextEvent at hout
  obtain ⟨log1, hlen1, hrun1⟩ := faultInjection_run world (pure (rpmaEProvider, conn, none)) _ log
  rw [hrun1] at hout
  cases h0 : (world log.length).fault with
  | true =>
    rw [h0, if_pos rfl] at hout
    exact hkeep _ hout fun h => by simp [h.1.1] at h0
  | false =>
  obtain ⟨log2, hlen2, hrun2⟩ := faultInjection_run world (pure (rpmaENoEvent, conn, none)) _ log1
  rw [h0, if_neg (by simp), hrun2, hlen1] at hout
  cases h1 : (world (log.length + 1)).fault with
  | true =>
    rw [h1, if_pos rfl] at hout
    exact hkeep _ hout fun h => by simp [h.1.2.1] at h1
  | false =>
  rw [h1, if_neg (by simp), Prog.run_bind, Prog.run_issue] at hout
  have hlen : log2.length = log.length + 2 := by omega
  have hok : (world.answer log2.length (.rdmaGetCmEvent conn.evch false)).ok =
      (world (log.length + 2)).ok := by rw [← hlen]; rfl
  dsimp only at hout
  cases h2 : (world (log.length + 2)).ok with
  | false =>
    rw [hok, h2, if_neg (by simp)] at hout
    exact hkeep _ hout fun h => by simp [h.1.2.2] at h2
  | true =>
  rw [hok, h2, if_pos rfl, if_neg fun h => hdata h.2] at hout
  obtain ⟨hfail, hpass⟩ := nextEventAck_run world conn
    (world.answer log2.length (.rdmaGetCmEvent conn.evch false)).handle
    (world.answer log2.length (.rdmaGetCmEvent conn.evch false)).event
    (log2 ++ [⟨.rdmaGetCmEvent conn.evch false,
      world.answer log2.length (.rdmaGetCmEvent conn.evch false)⟩])
    (n := log.length + 3) (by simp [hlen])
  rw [hout]
  exact ⟨fun h => hfail h.2, fun h => hpass fun hf => h ⟨⟨h0, h1, h2⟩, hf⟩⟩

/-- **A failing `rpma_conn_next_event` keeps the private data and `*event` unless it fails to
acknowledge an event on a connection that has private data.** The connection is any that can be
made, after any `k` calls, whatever failed so far. -/
theorem failed_event_keeps_data_iff (world : World) (peer : Peer) (id : Nat) (cfg : Cfg)
    (edata : Option CmEvent) (args : ConnectArgs) (log : CallLog) (conn : Conn) (made : CallLog)
    (hmade : (connFromId peer id cfg edata args).run world.answer log = (.ok conn, made))
    (k : Nat) :
    let before := (nextEvents k conn).run world.answer made
    let out := ((connNextEvent before.1).run world.answer before.2).1
    (out.1 ≠ 0 → out.2.1.data = before.1.data ∧ out.2.2 = none) ↔
      before.1.data.ptr = none ∨ ¬ AckFails world before.2.length := by
  intro before out
  have hmade' : IfOk _ ((connFromId peer id cfg edata args).run world.answer log).1 :=
    (connFromId_returns peer id cfg edata args).run _ log
  have hclean : before.1.data.Clean :=
    (nextEvents_returns k conn (hmade' conn (by rw [hmade])).clean).run _ made
  obtain ⟨-, hevent, hempty⟩ : out.2.1.data.Clean ∧ (out.1 ≠ 0 → out.2.2 = none) ∧
      (out.1 ≠ 0 → before.1.data.ptr = none → out.2.1.data = .empty) :=
    (connNextEvent_returns before.1 hclean).run _ before.2
  by_cases hnone : before.1.data.ptr = none
  · refine iff_of_true (fun hret => ⟨?_, hevent hret⟩) (.inl hnone)
    rw [hempty hret hnone, hclean hnone]
  · obtain ⟨hfail, hpass⟩ := connNextEvent_run_of_data world before.1 hnone before.2
    constructor
    · intro h
      refine .inr fun hack => hnone ?_
      obtain ⟨hret, hlost⟩ := hfail hack
      rw [← (h hret).1, show out.2.1.data = .empty from hlost]
      rfl
    · intro h hret
      exact ⟨hpass (h.resolve_left hnone), hevent hret⟩

end Failing

/-- Nothing is lost when `rdma_get_cm_event` fails. -/
theorem failed_event_keeps_data_iff_no_event :
    let out := ((connNextEvent greeted).run (establishing (some 36)).answer
      (greetedRun (some 36)).2).1
    out.1 = rpmaEProvider ∧ out.2.1.data = ⟨some 14, [1, 2, 3]⟩ ∧ out.2.2 = none := by
  have hmade : (greetedRun (some 36)).1 = .ok greeted := by decide +kernel
  have hlen : (greetedRun (some 36)).2.length = 34 := by decide +kernel
  have hret : ((connNextEvent greeted).run (establishing (some 36)).answer
      (greetedRun (some 36)).2).1.1 = rpmaEProvider := by decide +kernel
  have hiff := failed_event_keeps_data_iff (establishing (some 36)) ⟨true, true⟩ 0 connCfgDefault
    (some ⟨.connectRequest, some [1, 2, 3]⟩) ⟨true, none⟩ [] greeted (greetedRun (some 36)).2
    (Prod.ext hmade rfl) 0
  have hne : rpmaEProvider ≠ 0 := by decide
  refine ⟨hret, hiff.mpr (.inr fun hack => ?_) (ne_of_eq_of_ne hret hne)⟩
  have hok := hack.1.2.2
  change ((establishing (some 36)) ((greetedRun (some 36)).2.length + 2)).ok = true at hok
  rw [hlen] at hok
  cases hok

/-- **The acknowledgement of an `ESTABLISHED` event fails: what the request brought is lost.** -/
theorem data_lost_by_failed_ack :
    (greetedRun (some 37)).1 = .ok greeted ∧ greeted.data = ⟨some 14, [1, 2, 3]⟩ ∧
    let out := ((connNextEvent greeted).run (establishing (some 37)).answer
      (greetedRun (some 37)).2).1
    out.1 = rpmaEProvider ∧ out.2.1.data = ⟨none, []⟩ ∧
    ¬ (out.1 ≠ 0 → out.2.1.data = greeted.data ∧ out.2.2 = none) := by
  decide +kernel

end Rpma.Librpma
