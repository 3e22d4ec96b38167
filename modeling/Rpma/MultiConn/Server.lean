import Mathlib.Data.List.FinRange
import Rpma.Lib.Prog

/-!
# The client slots of the multiple-connections server

The server keeps a table of `CLIENT_MAX` slots. A connection request takes the first slot without a
connection, and the event callbacks of a slot end with its connection deleted. Each slot has an
area of its own in the receive buffer. The callbacks run one at a time, from `epoll_wait`; they are
programs over the calls of librpma and of the system, and the world answers these as it likes.

`Server.live` are the connection objects that exist, with the slots they were given. The code does
not keep them: it knows of the connection that is in a slot.

`client_new` returns its last candidate when no slot is free, not `NULL`, so the check for it in
`server_handle_incoming_client` never succeeds.

* `Inv`: the connections in the slots are those that exist, and no two share a slot.
* **`runSafe_iff`**: a run of callbacks keeps the slots apart (`StepSafe`) exactly when no request
  is received while every slot has a connection.
* `eleventh_client`: eleven clients that overlap.
-/

namespace Rpma.MultiConn

open Rpma.Lib

/-! ## The server -/

/-- `CLIENT_MAX`. -/
def clientMax : Nat := 10

/-- `MAX_NAME_SIZE`. -/
def maxNameSize : Nat := 32

/-- A `struct client_res *` into the table. -/
abbrev SlotId := Fin clientMax

/-- The callbacks of a client. -/
inductive Handler where
  | connectionEvent | completion
  deriving DecidableEq, Repr

/-- `struct custom_event`; `arg` and `func` are `NULL` until `epoll_add`. -/
structure CustomEvent where
  fd : Int
  arg : Option SlotId
  func : Option Handler
  deriving DecidableEq, Repr

/-- `struct client_res`, without the pointer to the one server. A connection object has a number,
and a CQ has that of its connection. -/
structure ClientRes where
  conn : Option Nat
  cq : Option Nat
  offset : Nat
  evConnEvent : CustomEvent
  evConnCmpl : CustomEvent
  clientId : Nat
  deriving DecidableEq, Repr

namespace ClientRes

def ev (clnt : ClientRes) : Handler → CustomEvent
  | .connectionEvent => clnt.evConnEvent
  | .completion => clnt.evConnCmpl

def setEv (clnt : ClientRes) (ev : CustomEvent) : Handler → ClientRes
  | .connectionEvent => { clnt with evConnEvent := ev }
  | .completion => { clnt with evConnCmpl := ev }

@[simp] theorem setEv_conn (clnt : ClientRes) (ev : CustomEvent) (h : Handler) :
    (clnt.setEv ev h).conn = clnt.conn := by cases h <;> rfl

@[simp] theorem setEv_offset (clnt : ClientRes) (ev : CustomEvent) (h : Handler) :
    (clnt.setEv ev h).offset = clnt.offset := by cases h <;> rfl

end ClientRes

/-- The table of `struct server_res`, and the connection objects: those that exist with the slot
each was given, and how many were made. -/
structure Server where
  clients : SlotId → ClientRes
  live : List (Nat × SlotId)
  made : Nat

/-- `struct server_res svr = {0}`. -/
def Server.init : Server where
  clients _ := ⟨none, none, 0, ⟨0, none, none⟩, ⟨0, none, none⟩, 0⟩
  live := []
  made := 0

def Server.modify (svr : Server) (i : SlotId) (f : ClientRes → ClientRes) : Server :=
  { svr with clients := Function.update svr.clients i (f (svr.clients i)) }

/-! ## Calls -/

/-- What `rpma_conn_next_event` returns. -/
inductive NextEvent where
  | noEvent | failed | established | closed
  deriving DecidableEq, Repr

/-- What `rpma_cq_wait` and `rpma_cq_get_wc` return, the latter with whether the completion is a
success and one of a read. -/
inductive Ready where
  | noCompletion | failed | ok (success isRead : Bool)
  deriving DecidableEq, Repr

/-- The calls of the callbacks. -/
inductive Call where
  | epNextConnReq
  | connReqConnect
  | connReqDelete
  | connGetCq (conn : Option Nat)
  | connGetEventFd (conn : Option Nat)
  | cqGetFd (cq : Option Nat)
  | fdSetNonblock (fd : Int)
  | epollCtlAdd (fd : Int)
  | epollCtlDel (fd : Int)
  | connNextEvent (conn : Option Nat)
  | connGetPrivateData (conn : Option Nat)
  | mrRemoteFromDescriptor
  | read (conn : Option Nat) (dstOffset len : Nat)
  | mrRemoteDelete
  | cqWait (cq : Option Nat)
  | cqGetWc (cq : Option Nat)
  | connDisconnect (conn : Option Nat)
  | connDelete (conn : Option Nat)
  deriving DecidableEq, Repr

/-- Whether a call returned 0, with what it gave; `connGetPrivateData` says whether the data are
large enough. Where the result is ignored there is no answer. -/
abbrev Call.Ans : Call → Type
  | .connGetEventFd _ | .cqGetFd _ => Option Int
  | .connNextEvent _ => NextEvent
  | .connGetPrivateData _ => Option Bool
  | .cqWait _ | .cqGetWc _ => Ready
  | .connReqDelete | .epollCtlDel _ | .mrRemoteDelete | .connDisconnect _ | .connDelete _ => Unit
  | _ => Bool

/-- A program of the server. -/
abbrev S := Prog Call Call.Ans

/-- What the world answers to the calls of a callback. -/
abbrev World := Nat → (c : Call) → c.Ans

def issue (c : Call) : S c.Ans := Prog.issue (R := Call.Ans) c

/-! ## Slots -/

/-- What `client_new` writes into a free slot. -/
def ClientRes.take (i : SlotId) (clnt : ClientRes) : ClientRes :=
  { clnt with
    clientId := i
    offset := maxNameSize * i
    evConnCmpl := { clnt.evConnCmpl with fd := -1 }
    evConnEvent := { clnt.evConnEvent with fd := -1 } }

/-- The loop of `client_new` from slot `i` on; `clnt` is the slot that was looked at last. -/
def clientNewFrom (svr : Server) : List SlotId → Option SlotId → Option SlotId × Server
  | [], clnt => (clnt, svr)
  | i :: is, _ =>
    if (svr.clients i).conn ≠ none then clientNewFrom svr is (some i)
    else (some i, svr.modify i (ClientRes.take i))

/-- `client_new`. -/
def clientNew (svr : Server) : Option SlotId × Server :=
  clientNewFrom svr (List.finRange clientMax) none

/-- `epoll_add`. -/
def epollAdd (svr : Server) (clnt : SlotId) (h : Handler) (fd : Int) : S (Bool × Server) := do
  if (← issue (.fdSetNonblock fd)) = false then return (false, svr)
  let svr := svr.modify clnt fun c => c.setEv ⟨fd, some clnt, some h⟩ h
  return (← issue (.epollCtlAdd fd), svr)

/-- `epoll_delete`. -/
def epollDelete (svr : Server) (clnt : SlotId) (h : Handler) : S Server := do
  issue (.epollCtlDel ((svr.clients clnt).ev h).fd)
  return svr.modify clnt fun c => c.setEv { c.ev h with fd := -1 } h

/-- `client_add_to_epoll`: whether it returned 0. -/
def clientAddToEpoll (svr : Server) (clnt : SlotId) : S (Bool × Server) := do
  match ← issue (.connGetEventFd (svr.clients clnt).conn) with
  | none => return (false, svr)
  | some fd =>
    let (ok, svr) ← epollAdd svr clnt .connectionEvent fd
    if ok = false then return (false, svr)
    else
      match ← issue (.cqGetFd (svr.clients clnt).cq) with
      | none => return (false, ← epollDelete svr clnt .connectionEvent)
      | some fd =>
        let (ok, svr) ← epollAdd svr clnt .completion fd
        if ok = false then return (false, ← epollDelete svr clnt .connectionEvent)
        else return (true, svr)

/-- `rpma_conn_req_connect` gives a new connection object, which is stored in the slot. -/
def Server.connected (svr : Server) (clnt : SlotId) : Server :=
  { svr.modify clnt fun c => { c with conn := some svr.made } with
    live := (svr.made, clnt) :: svr.live
    made := svr.made + 1 }

/-- `rpma_conn_delete` frees the connection object in the slot and stores `NULL`, whatever it
returns. -/
def Server.deleted (svr : Server) (clnt : SlotId) : Server :=
  { svr.modify clnt fun c => { c with conn := none } with
    live := svr.live.filter fun l => some l.1 ≠ (svr.clients clnt).conn }

/-- `epoll_delete` of an event with a file descriptor. -/
def epollDeleteAny (svr : Server) (clnt : SlotId) (h : Handler) : S Server :=
  if ((svr.clients clnt).ev h).fd ≠ -1 then epollDelete svr clnt h else pure svr

/-- `client_delete`. -/
def clientDelete (svr : Server) (clnt : SlotId) : S Server := do
  let svr ← epollDeleteAny svr clnt .completion
  let svr ← epollDeleteAny svr clnt .connectionEvent
  issue (.connDelete (svr.clients clnt).conn)
  return svr.deleted clnt

/-! ## Callbacks -/

/-- `server_handle_incoming_client`. -/
def serverHandleIncomingClient (svr : Server) : S Server := do
  if (← issue .epNextConnReq) = false then return svr
  else
    match clientNew svr with
    | (none, svr) =>
      issue .connReqDelete
      return svr
    | (some clnt, svr) =>
      if (← issue .connReqConnect) = false then
        issue .connReqDelete
        return svr
      else
        let svr := svr.connected clnt
        if (← issue (.connGetCq (svr.clients clnt).conn)) = false then
          issue (.connDisconnect (svr.clients clnt).conn)
          return svr
        else
          let svr := svr.modify clnt fun c => { c with cq := c.conn }
          let (ok, svr) ← clientAddToEpoll svr clnt
          if ok = false then issue (.connDisconnect (svr.clients clnt).conn)
          return svr

/-- `client_fetch_name`: whether it returned 0. -/
def clientFetchName (clnt : ClientRes) : S Bool := do
  match ← issue (.connGetPrivateData clnt.conn) with
  | none | some false => return false
  | some true =>
    if (← issue .mrRemoteFromDescriptor) = false then return false
    else
      let ok ← issue (.read clnt.conn clnt.offset maxNameSize)
      issue .mrRemoteDelete
      return ok

/-- `client_handle_is_ready`. -/
def clientHandleIsReady (clnt : ClientRes) : S Unit := do
  if (← clientFetchName clnt) = false then issue (.connDisconnect clnt.conn)

/-- `client_handle_completion`. -/
def clientHandleCompletion (clnt : ClientRes) : S Unit := do
  match ← issue (.cqWait clnt.cq) with
  | .noCompletion => return ()
  | .failed => issue (.connDisconnect clnt.conn)
  | .ok _ _ =>
    match ← issue (.cqGetWc clnt.cq) with
    | .noCompletion => return ()
    -- a failed or unexpected completion, or the name that was asked for
    | .failed | .ok _ _ => issue (.connDisconnect clnt.conn)

/-- `client_handle_connection_event`. -/
def clientHandleConnectionEvent (svr : Server) (clnt : SlotId) : S Server := do
  match ← issue (.connNextEvent (svr.clients clnt).conn) with
  | .noEvent => return svr
  | .failed =>
    issue (.connDisconnect (svr.clients clnt).conn)
    return svr
  | .established =>
    clientHandleIsReady (svr.clients clnt)
    return svr
  | .closed => clientDelete svr clnt

/-- What `epoll_wait` reports: the event of the endpoint, or one of a slot. -/
inductive Callback where
  | incoming
  | event (i : SlotId) (h : Handler)
  deriving DecidableEq, Repr

/-- `ce->func(ce)`. An event of a slot that was never added to the epoll is not reported. -/
def Server.handle (svr : Server) : Callback → S Server
  | .incoming => serverHandleIncomingClient svr
  | .event i h =>
    match ((svr.clients i).ev h).func, ((svr.clients i).ev h).arg with
    | some .connectionEvent, some clnt => clientHandleConnectionEvent svr clnt
    | some .completion, some clnt => do
      clientHandleCompletion (svr.clients clnt)
      return svr
    | _, _ => return svr

/-! ## What is promised -/

/-- Every slot has a connection. -/
def Server.Full (svr : Server) : Prop := ∀ i, (svr.clients i).conn ≠ none

instance (svr : Server) : Decidable svr.Full :=
  inferInstanceAs (Decidable (∀ i, (svr.clients i).conn ≠ none))

/-- A callback with what the world answers to its calls. -/
structure Step where
  cb : Callback
  world : World

/-- `rpma_ep_next_conn_req` gives a request. -/
def Step.receives (st : Step) : Bool := st.cb == .incoming && st.world 0 .epNextConnReq

/-- The server after a step. -/
def Server.after (svr : Server) (st : Step) : Server := ((svr.handle st.cb).run st.world []).1

/-- The calls of a step. -/
def Server.calls (svr : Server) (st : Step) : List Call :=
  ((svr.handle st.cb).run st.world []).2.map Sigma.fst

/-- The areas of two slots in the receive buffer have no byte in common. -/
def AreasApart (a b : ClientRes) : Prop :=
  a.offset + maxNameSize ≤ b.offset ∨ b.offset + maxNameSize ≤ a.offset

/-- **What a step must not do to the connections that exist.** -/
structure StepSafe (svr : Server) (st : Step) : Prop where
  /-- An incoming client leaves the slots of the others as they are. -/
  keeps : st.cb = .incoming → ∀ c i, (c, i) ∈ svr.live →
    (svr.after st).clients i = svr.clients i
  /-- No two connections share a slot or its area. -/
  apart : ∀ c i c' i', (c, i) ∈ (svr.after st).live → (c', i') ∈ (svr.after st).live → c ≠ c' →
    i ≠ i' ∧ AreasApart ((svr.after st).clients i) ((svr.after st).clients i')
  /-- A request that finds no free slot is rejected. -/
  rejects : svr.Full → st.receives = true →
    svr.calls st = [.epNextConnReq, .connReqDelete] ∧ (svr.after st).clients = svr.clients

/-- Every step of the run is safe. -/
def RunSafe : Server → List Step → Prop
  | _, [] => True
  | svr, st :: sts => StepSafe svr st ∧ RunSafe (svr.after st) sts

/-- No request is received while every slot has a connection. -/
def NeverFull : Server → List Step → Prop
  | _, [] => True
  | svr, st :: sts => ¬ (svr.Full ∧ st.receives = true) ∧ NeverFull (svr.after st) sts

instance decidableNeverFull : ∀ svr sts, Decidable (NeverFull svr sts)
  | _, [] => .isTrue trivial
  | svr, st :: sts =>
    have := decidableNeverFull (svr.after st) sts
    inferInstanceAs (Decidable (¬ (svr.Full ∧ st.receives = true) ∧ NeverFull (svr.after st) sts))

/-! ## The invariant -/

/-- The connections in the slots are those that exist, no two in one slot, and the slots in use
have their own areas. -/
structure Inv (svr : Server) : Prop where
  live_iff : ∀ c i, (c, i) ∈ svr.live ↔ (svr.clients i).conn = some c
  inj : ∀ c i j, (c, i) ∈ svr.live → (c, j) ∈ svr.live → i = j
  fresh : ∀ c i, (c, i) ∈ svr.live → c < svr.made
  offset : ∀ i, (svr.clients i).conn ≠ none → (svr.clients i).offset = maxNameSize * i

theorem inv_init : Inv .init where
  live_iff c i := by simp [Server.init]
  inj c i j h := by cases h
  fresh c i h := by cases h
  offset i h := absurd rfl h

/-- Only the bookkeeping of slot `i` is other: its connection is the same, and its offset if it has
one. -/
structure Frame (svr svr' : Server) (i : SlotId) : Prop where
  live : svr'.live = svr.live
  made : svr'.made = svr.made
  others : ∀ j ≠ i, svr'.clients j = svr.clients j
  conn : (svr'.clients i).conn = (svr.clients i).conn
  offset : (svr.clients i).conn ≠ none → (svr'.clients i).offset = (svr.clients i).offset

section Frame

variable {svr svr' svr'' : Server} {i j : SlotId}

@[simp] theorem Server.modify_self (f : ClientRes → ClientRes) :
    (svr.modify i f).clients i = f (svr.clients i) := Function.update_self ..

theorem Server.modify_of_ne (f : ClientRes → ClientRes) (h : j ≠ i) :
    (svr.modify i f).clients j = svr.clients j := Function.update_of_ne h ..

theorem Frame.refl (svr : Server) (i : SlotId) : Frame svr svr i :=
  ⟨rfl, rfl, fun _ _ => rfl, rfl, fun _ => rfl⟩

theorem Frame.trans (h : Frame svr svr' i) (h' : Frame svr' svr'' i) : Frame svr svr'' i where
  live := h'.live.trans h.live
  made := h'.made.trans h.made
  others j hj := (h'.others j hj).trans (h.others j hj)
  conn := h'.conn.trans h.conn
  offset hc := (h'.offset (h.conn ▸ hc)).trans (h.offset hc)

theorem frame_modify {f : ClientRes → ClientRes} (hconn : ∀ c, (f c).conn = c.conn)
    (hoffset : ∀ c, (f c).offset = c.offset) : Frame svr (svr.modify i f) i where
  live := rfl
  made := rfl
  others _ hj := Server.modify_of_ne f hj
  conn := by rw [Server.modify_self, hconn]
  offset _ := by rw [Server.modify_self, hoffset]

/-- A slot that is taken has no connection yet. -/
theorem frame_take (h : (svr.clients i).conn = none) :
    Frame svr (svr.modify i (ClientRes.take i)) i where
  live := rfl
  made := rfl
  others _ hj := Server.modify_of_ne _ hj
  conn := by rw [Server.modify_self]; rfl
  offset hc := absurd h hc

theorem Inv.frame (h : Inv svr) (hf : Frame svr svr' i) : Inv svr' := by
  have hconn : ∀ j, (svr'.clients j).conn = (svr.clients j).conn := by
    intro j
    by_cases hj : j = i
    · rw [hj, hf.conn]
    · rw [hf.others j hj]
  constructor
  · intro c j
    rw [hf.live, hconn, h.live_iff]
  · rw [hf.live]
    exact h.inj
  · rw [hf.live, hf.made]
    exact h.fresh
  · intro j hj
    rw [hconn] at hj
    by_cases hji : j = i
    · subst hji
      rw [hf.offset hj, h.offset j hj]
    · rw [hf.others j hji, h.offset j hj]

theorem Server.connected_self :
    (svr.connected i).clients i = { svr.clients i with conn := some svr.made } :=
  Function.update_self ..

theorem Server.connected_of_ne (h : j ≠ i) : (svr.connected i).clients j = svr.clients j :=
  Function.update_of_ne h ..

theorem Server.mem_connected {c : Nat} :
    (c, j) ∈ (svr.connected i).live ↔ (c = svr.made ∧ j = i) ∨ (c, j) ∈ svr.live := by
  unfold Server.connected
  rw [List.mem_cons, Prod.mk.injEq]

/-- A new connection goes into a slot without one. -/
theorem Inv.connected (h : Inv svr) (hfree : (svr.clients i).conn = none)
    (hoffset : (svr.clients i).offset = maxNameSize * i) : Inv (svr.connected i) := by
  have hnot : ∀ c, (c, i) ∉ svr.live := fun c hc => by
    rw [h.live_iff, hfree] at hc
    cases hc
  have hnew : ∀ j, (svr.made, j) ∉ svr.live := fun j hj => Nat.lt_irrefl _ (h.fresh _ j hj)
  constructor
  · intro c j
    rw [Server.mem_connected]
    by_cases hj : j = i
    · subst hj
      rw [Server.connected_self, Option.some.injEq]
      exact ⟨fun hc => (hc.resolve_right (hnot c)).1.symm, fun hc => .inl ⟨hc.symm, rfl⟩⟩
    · rw [Server.connected_of_ne hj, ← h.live_iff]
      exact or_iff_right fun hc => hj hc.2
  · intro c j k hj hk
    rw [Server.mem_connected] at hj hk
    rcases hj with ⟨rfl, rfl⟩ | hj
    · rcases hk with ⟨-, rfl⟩ | hk
      · rfl
      · exact absurd hk (hnew k)
    · rcases hk with ⟨rfl, -⟩ | hk
      · exact absurd hj (hnew j)
      · exact h.inj c j k hj hk
  · intro c j hc
    rcases Server.mem_connected.mp hc with ⟨rfl, -⟩ | hc
    · exact Nat.lt_succ_self _
    · exact Nat.lt_succ_of_lt (h.fresh c j hc)
  · intro j hj
    by_cases hji : j = i
    · rw [hji, Server.connected_self]
      exact hoffset
    · rw [Server.connected_of_ne hji] at hj ⊢
      exact h.offset j hj

theorem Server.deleted_self :
    (svr.deleted i).clients i = { svr.clients i with conn := none } :=
  Function.update_self ..

theorem Server.deleted_of_ne (h : j ≠ i) : (svr.deleted i).clients j = svr.clients j :=
  Function.update_of_ne h ..

theorem Server.mem_deleted {c : Nat} :
    (c, j) ∈ (svr.deleted i).live ↔ (c, j) ∈ svr.live ∧ some c ≠ (svr.clients i).conn := by
  unfold Server.deleted
  rw [List.mem_filter, decide_eq_true_eq]

/-- A slot whose connection is deleted is free. -/
theorem Inv.deleted (h : Inv svr) (i : SlotId) : Inv (svr.deleted i) := by
  constructor
  · intro c j
    rw [Server.mem_deleted, h.live_iff]
    by_cases hj : j = i
    · subst hj
      rw [Server.deleted_self]
      exact ⟨fun hc => absurd hc.1.symm hc.2, fun hc => by cases hc⟩
    · rw [Server.deleted_of_ne hj]
      refine and_iff_left_of_imp fun hc hi => hj ?_
      exact h.inj c j i ((h.live_iff c j).mpr hc) ((h.live_iff c i).mpr hi.symm)
  · exact fun c j k hj hk => h.inj c j k (Server.mem_deleted.mp hj).1 (Server.mem_deleted.mp hk).1
  · exact fun c j hc => h.fresh c j (Server.mem_deleted.mp hc).1
  · intro j hj
    by_cases hji : j = i
    · rw [hji, Server.deleted_self] at hj
      exact absurd rfl hj
    · rw [Server.deleted_of_ne hji] at hj ⊢
      exact h.offset j hj

/-- The slots in use have areas of their own. -/
theorem Inv.apart (h : Inv svr) {c c' : Nat} (hi : (c, i) ∈ svr.live) (hj : (c', j) ∈ svr.live)
    (hne : c ≠ c') : i ≠ j ∧ AreasApart (svr.clients i) (svr.clients j) := by
  have hci := (h.live_iff c i).mp hi
  have hcj := (h.live_iff c' j).mp hj
  have hij : i ≠ j := by
    rintro rfl
    exact hne (Option.some.inj (hci.symm.trans hcj))
  refine ⟨hij, ?_⟩
  have hoi := h.offset i (by simp [hci])
  have hoj := h.offset j (by simp [hcj])
  have hval : (i : Nat) ≠ j := fun he => hij (Fin.ext he)
  unfold AreasApart
  rw [hoi, hoj]
  unfold maxNameSize
  omega

end Frame

/-! ## What the callbacks do -/

section Callbacks

variable {svr : Server} {i : SlotId}

theorem epollAdd_frame (svr : Server) (clnt : SlotId) (h : Handler) (fd : Int) :
    (epollAdd svr clnt h fd).Returns fun r => Frame svr r.2 clnt := by
  have hset : Frame svr (svr.modify clnt fun c => c.setEv ⟨fd, some clnt, some h⟩ h) clnt :=
    frame_modify (by simp) (by simp)
  refine Prog.returns_after fun ok => ?_
  split
  · exact .refl svr clnt
  · exact Prog.returns_after fun _ => hset

theorem epollDelete_frame (svr : Server) (clnt : SlotId) (h : Handler) :
    (epollDelete svr clnt h).Returns fun svr' => Frame svr svr' clnt := by
  have hset : Frame svr (svr.modify clnt fun c => c.setEv { c.ev h with fd := -1 } h) clnt :=
    frame_modify (by simp) (by simp)
  exact Prog.returns_after fun _ => hset

theorem clientAddToEpoll_frame (svr : Server) (clnt : SlotId) :
    (clientAddToEpoll svr clnt).Returns fun r => Frame svr r.2 clnt := by
  refine Prog.returns_after fun fd => ?_
  match fd with
  | none => exact .refl svr clnt
  | some fd =>
    refine (epollAdd_frame svr clnt .connectionEvent fd).bind fun r hr => ?_
    obtain ⟨ok, svr1⟩ := r
    have hdel : Prog.Returns (fun r : Bool × Server => Frame svr r.2 clnt)
        (epollDelete svr1 clnt .connectionEvent >>= fun svr' => pure (false, svr')) :=
      (epollDelete_frame svr1 clnt .connectionEvent).bind fun svr' hf => hr.trans hf
    dsimp only
    split
    · exact hr
    · refine Prog.returns_after fun fd => ?_
      match fd with
      | none => exact hdel
      | some fd =>
        refine (epollAdd_frame svr1 clnt .completion fd).bind fun r hr' => ?_
        obtain ⟨ok', svr2⟩ := r
        dsimp only
        split
        · exact (epollDelete_frame svr2 clnt .connectionEvent).bind fun svr' hf =>
            (hr.trans hr').trans hf
        · exact hr.trans hr'

/-- Deleting a client deletes the connection of its slot. -/
theorem clientDelete_inv (h : Inv svr) (clnt : SlotId) :
    (clientDelete svr clnt).Returns fun svr' => Inv svr' := by
  have hdel : ∀ {svr : Server} (h : Inv svr) (hd : Handler),
      (epollDeleteAny svr clnt hd).Returns fun svr' => Inv svr' := by
    intro svr h hd
    unfold epollDeleteAny
    split
    · exact (epollDelete_frame svr clnt hd).imp fun _ hf => h.frame hf
    · exact h
  refine (hdel h .completion).bind fun svr1 h1 => ?_
  refine (hdel h1 .connectionEvent).bind fun svr2 h2 => ?_
  exact Prog.returns_after fun _ => h2.deleted clnt

theorem clientHandleConnectionEvent_inv (h : Inv svr) (clnt : SlotId) :
    (clientHandleConnectionEvent svr clnt).Returns fun svr' => Inv svr' := by
  refine Prog.returns_after fun event => ?_
  cases event with
  | noEvent => exact h
  | failed => exact Prog.returns_after fun _ => h
  | established => exact Prog.returns_after fun _ => h
  | closed => exact clientDelete_inv h clnt

/-- **The callbacks of a slot keep the invariant.** -/
theorem event_inv (h : Inv svr) (i : SlotId) (hd : Handler) :
    (svr.handle (.event i hd)).Returns fun svr' => Inv svr' := by
  unfold Server.handle
  split
  · cases ‹Callback.event i hd = .incoming›
  · split
    · exact clientHandleConnectionEvent_inv h _
    · exact Prog.returns_after fun _ => h
    · exact h

/-! ## Taking a slot -/

theorem clientNewFrom_free (svr : Server) (is : List SlotId) (clnt : Option SlotId)
    (h : ∃ i ∈ is, (svr.clients i).conn = none) : ∃ i, (svr.clients i).conn = none ∧
      clientNewFrom svr is clnt = (some i, svr.modify i (ClientRes.take i)) := by
  induction is generalizing clnt with
  | nil => simp at h
  | cons i is ih =>
    unfold clientNewFrom
    by_cases hi : (svr.clients i).conn = none
    · exact ⟨i, hi, by rw [if_neg (not_not_intro hi)]⟩
    · rw [if_pos hi]
      obtain ⟨j, hj, hfree⟩ := h
      rcases List.mem_cons.mp hj with rfl | hj
      · exact absurd hfree hi
      · exact ih (some i) ⟨j, hj, hfree⟩

/-- A free slot is found. -/
theorem clientNew_free (h : ¬ svr.Full) : ∃ i, (svr.clients i).conn = none ∧
    clientNew svr = (some i, svr.modify i (ClientRes.take i)) := by
  unfold Server.Full at h
  obtain ⟨i, hi⟩ := not_forall.mp h
  exact clientNewFrom_free svr _ none ⟨i, List.mem_finRange i, not_not.mp hi⟩

/-- When every slot has a connection, the last slot is given. -/
theorem clientNewFrom_full (h : svr.Full) (is : List SlotId) (clnt : Option SlotId) :
    clientNewFrom svr is clnt = (is.getLast?.or clnt, svr) := by
  induction is generalizing clnt with
  | nil => rfl
  | cons i is ih =>
    unfold clientNewFrom
    rw [if_pos (h i), ih, List.getLast?_cons]
    cases is.getLast? <;> rfl

/-- `&svr->clients[CLIENT_MAX - 1]`. -/
def lastSlot : SlotId := ⟨clientMax - 1, by decide⟩

theorem lastSlot_eq : (List.finRange clientMax).getLast?.or none = some lastSlot := by decide

/-- **What an incoming client does when a slot is free**: nothing to the others. -/
theorem incoming_free (h : Inv svr) {i : SlotId} (hfree : (svr.clients i).conn = none)
    (hnew : clientNew svr = (some i, svr.modify i (ClientRes.take i))) :
    (serverHandleIncomingClient svr).Returns fun svr' =>
      Inv svr' ∧ ∀ j ≠ i, svr'.clients j = svr.clients j := by
  let svr1 := svr.modify i (ClientRes.take i)
  have hf : Frame svr svr1 i := frame_take hfree
  have h1 : Inv svr1 := h.frame hf
  have hc : Inv (svr1.connected i) :=
    h1.connected (hf.conn.trans hfree) (by rw [Server.modify_self]; rfl)
  have hothers : ∀ {svr' : Server}, Frame (svr1.connected i) svr' i →
      Inv svr' ∧ ∀ j ≠ i, svr'.clients j = svr.clients j := fun hf' => by
    refine ⟨hc.frame hf', fun j hj => ?_⟩
    rw [hf'.others j hj, Server.connected_of_ne hj, hf.others j hj]
  refine Prog.returns_after fun received => ?_
  split
  · exact ⟨h, fun _ _ => rfl⟩
  · rw [hnew]
    refine Prog.returns_after fun connected => ?_
    split
    · exact Prog.returns_after fun _ => ⟨h1, hf.others⟩
    · refine Prog.returns_after fun gotCq => ?_
      split
      · exact Prog.returns_after fun _ => hothers (.refl _ i)
      · have hcq : Frame (svr1.connected i)
            ((svr1.connected i).modify i fun c => { c with cq := c.conn }) i :=
          frame_modify (fun _ => rfl) fun _ => rfl
        refine (clientAddToEpoll_frame _ i).bind fun r hr => ?_
        obtain ⟨ok, svr'⟩ := r
        have hout := hothers (hcq.trans hr)
        dsimp only
        split
        · exact Prog.returns_after fun _ => hout
        · exact hout

/-! ## Runs -/

theorem Step.receives_of_event {st : Step} {hd : Handler} (h : st.cb = .event i hd) :
    ¬ st.receives = true := by
  unfold Step.receives
  rw [h]
  exact Bool.false_ne_true

theorem Step.receives_of_incoming {st : Step} (h : st.cb = .incoming) :
    st.receives = st.world 0 .epNextConnReq := by
  unfold Step.receives
  rw [h]
  exact Bool.true_and _

/-- A request is not received unless `rpma_ep_next_conn_req` gives one. -/
theorem incoming_not_received {world : World} (h : world 0 .epNextConnReq = false) :
    ((serverHandleIncomingClient svr).run world []).1 = svr := by
  unfold serverHandleIncomingClient issue
  rw [Prog.run_bind, Prog.run_issue]
  dsimp only
  rw [if_pos (show world ([] : Log Call Call.Ans).length .epNextConnReq = false from h)]
  rfl

/-- With every slot in use the request is connected all the same. -/
theorem incoming_full {world : World} (hfull : svr.Full) (h : world 0 .epNextConnReq = true) :
    [⟨.epNextConnReq, true⟩, ⟨.connReqConnect, world 1 .connReqConnect⟩] <+:
      ((serverHandleIncomingClient svr).run world []).2 := by
  have hnew : clientNew svr = (some lastSlot, svr) := by
    unfold clientNew
    rw [clientNewFrom_full hfull]
    exact congrArg (·, svr) lastSlot_eq
  unfold serverHandleIncomingClient issue
  rw [Prog.run_bind, Prog.run_issue]
  dsimp only
  rw [show world ([] : Log Call Call.Ans).length .epNextConnReq = true from h,
    if_neg Bool.true_eq_false_eq_False, hnew]
  dsimp only
  rw [Prog.run_bind, Prog.run_issue]
  exact Prog.run_prefix _ _

/-- The steps of the callbacks of a slot. -/
theorem event_step (h : Inv svr) {st : Step} {hd : Handler}
    (hcb : st.cb = .event i hd) : Inv (svr.after st) ∧ StepSafe svr st := by
  have hinv : Inv (svr.after st) := by
    unfold Server.after
    rw [hcb]
    exact (event_inv h i hd).run _ []
  exact ⟨hinv, fun hin => (by cases hcb.symm.trans hin),
    fun c i c' i' hi hi' hne => hinv.apart hi hi' hne,
    fun _ hr => absurd hr (Step.receives_of_event hcb)⟩

/-- The step of a request that is not received, or is received with a slot free. -/
theorem incoming_step (h : Inv svr) {st : Step} (hcb : st.cb = .incoming)
    (hnot : ¬ (svr.Full ∧ st.receives = true)) : Inv (svr.after st) ∧ StepSafe svr st := by
  have hkeep : Inv (svr.after st) ∧
      ∀ c i, (c, i) ∈ svr.live → (svr.after st).clients i = svr.clients i := by
    unfold Server.after
    rw [hcb]
    by_cases hfull : svr.Full
    · have hr : st.world 0 .epNextConnReq = false := by
        rw [← Step.receives_of_incoming hcb]
        exact Bool.eq_false_of_not_eq_true fun hr => hnot ⟨hfull, hr⟩
      unfold Server.handle
      dsimp only
      rw [incoming_not_received hr]
      exact ⟨h, fun _ _ _ => rfl⟩
    · obtain ⟨i, hfree, hnew⟩ := clientNew_free hfull
      obtain ⟨hinv, hothers⟩ := (incoming_free h hfree hnew).run st.world []
      refine ⟨hinv, fun c j hj => hothers j fun hji => ?_⟩
      have hconn := (h.live_iff c j).mp hj
      rw [hji, hfree] at hconn
      cases hconn
  obtain ⟨hinv, hkeeps⟩ := hkeep
  exact ⟨hinv, fun _ => hkeeps, fun c i c' i' hi hi' hne => hinv.apart hi hi' hne,
    fun hfull hr => absurd ⟨hfull, hr⟩ hnot⟩

/-- **One step**: from a server with its slots apart, the next step is safe exactly if it does not
receive a request while every slot has a connection, and then the slots stay apart. -/
theorem step_spec (h : Inv svr) (st : Step) :
    (¬ (svr.Full ∧ st.receives = true) → Inv (svr.after st)) ∧
      (StepSafe svr st ↔ ¬ (svr.Full ∧ st.receives = true)) := by
  cases hcb : st.cb with
  | event i hd =>
    obtain ⟨hinv, hsafe⟩ := event_step h hcb
    exact ⟨fun _ => hinv, iff_of_true hsafe fun hr => Step.receives_of_event hcb hr.2⟩
  | incoming =>
    refine ⟨fun hnot => (incoming_step h hcb hnot).1, ?_,
      fun hnot => (incoming_step h hcb hnot).2⟩
    rintro hsafe ⟨hfull, hr⟩
    have hcalls := (hsafe.rejects hfull hr).1
    have hworld : st.world 0 .epNextConnReq = true := by
      rw [← Step.receives_of_incoming hcb]
      exact hr
    have hpre := (incoming_full hfull hworld).map Sigma.fst
    unfold Server.calls at hcalls
    rw [hcb] at hcalls
    unfold Server.handle at hcalls
    rw [hcalls] at hpre
    simp at hpre

/-- From a server with its slots apart, every step of a run is safe exactly as long as none receives
a request while every slot has a connection. -/
theorem runSafe_of_inv (h : Inv svr) (sts : List Step) :
    RunSafe svr sts ↔ NeverFull svr sts := by
  induction sts generalizing svr with
  | nil => exact Iff.rfl
  | cons st sts ih =>
    obtain ⟨hinv, hsafe⟩ := step_spec h st
    unfold RunSafe NeverFull
    rw [hsafe]
    exact and_congr_right fun hnot => ih (hinv hnot)

end Callbacks

/-- **A run of callbacks keeps the slots apart exactly when no request is received while every slot
has a connection**, whatever librpma and the system answer. -/
theorem runSafe_iff (sts : List Step) : RunSafe .init sts ↔ NeverFull .init sts :=
  runSafe_of_inv inv_init sts

/-! ## Eleven clients -/

/-- Every call succeeds. -/
def World.good : World := fun _ c =>
  match c with
  | .epNextConnReq | .connReqConnect | .connGetCq _ | .fdSetNonblock _ | .epollCtlAdd _
  | .mrRemoteFromDescriptor | .read _ _ _ => true
  | .connReqDelete | .epollCtlDel _ | .mrRemoteDelete | .connDisconnect _ | .connDelete _ => ()
  | .connGetEventFd _ | .cqGetFd _ => some 3
  | .connNextEvent _ => .established
  | .connGetPrivateData _ => some true
  | .cqWait _ | .cqGetWc _ => .ok true true

/-- The server after a run. -/
def Server.afterAll (svr : Server) (sts : List Step) : Server := sts.foldl Server.after svr

/-- Eleven clients come and none goes. -/
def elevenClients : List Step := List.replicate 11 ⟨.incoming, World.good⟩

/-- The eleventh client gets the slot of the tenth, whose connection still exists. -/
theorem eleventh_client : ¬ RunSafe .init elevenClients ∧
    (9, lastSlot) ∈ (Server.init.afterAll elevenClients).live ∧
    (10, lastSlot) ∈ (Server.init.afterAll elevenClients).live ∧
    ((Server.init.afterAll elevenClients).clients lastSlot).conn = some 10 := by
  rw [runSafe_of_inv inv_init]
  decide +kernel

end Rpma.MultiConn
