import Rpma.Librpma.Passive

/-!
# Completions: `rpma_cq_wait`, `rpma_conn_wait`, `rpma_cq_get_wc`

The calls of an application that waits for completions, and what the construction of a connection
guarantees them: the CQs on its completion channels are its own, and every one of them has been
armed (`Equipped`). Nothing but the creation of a CQ could spoil this, so the rest of the
construction keeps it.

* `equippedRequest_spec`, `equippedConn_spec`: it holds of every request made by
  `rpma_conn_req_from_id` and of the connection made from it, on the active and on the passive side.
-/

namespace Rpma.Librpma

open Rpma.Lib Rpma.Lib.Ledger

/-! ## `cq.c` -/

/-- `rpma_cq_wait` on a channel of its own. -/
def cqWaitOwn (cq : Cq) : P Int :=
  faultInjection (pure rpmaENoCompletion) do
    let a ← Prog.issue (.ibvGetCqEvent cq.channel)
    if a.ok then
      -- the CQ of the event is not looked at
      exec (.ibvAckCqEvents cq.cq 1)
      faultInjection (pure rpmaEProvider) do
        if ← check (.ibvReqNotifyCq cq.cq) then return 0 else return rpmaEProvider
    else return rpmaENoCompletion

/-- `rpma_cq_wait`. -/
def cqWait (cq : Option Cq) : P Int :=
  faultInjection (pure rpmaEInval) <|
    match cq with
    | none => pure rpmaEInval
    | some cq => if cq.sharedCompChannel then pure rpmaESharedChannel else cqWaitOwn cq

/-- `rpma_cq_get_wc`, for a `num_entries_got` that is given or `NULL`: the result and the number of
completions it reports. -/
def cqGetWc (cq : Option Cq) (numEntries : Int) (wc gotPtr : Bool) : P (Int × Option Int) :=
  faultInjection (pure (rpmaEInval, none)) <|
    match cq with
    | none => pure (rpmaEInval, none)
    | some cq =>
      if numEntries < 1 ∨ wc = false ∨ (numEntries > 1 ∧ gotPtr = false) then
        pure (rpmaEInval, none)
      else
        faultInjection (pure (rpmaEProvider, none)) do
          let a ← Prog.issue (.ibvPollCq cq.cq numEntries)
          if a.polled = 0 then return (rpmaENoCompletion, none)
          else if a.polled < 0 then return (rpmaEProvider, none)
          else if a.polled > numEntries then return (rpmaEUnknown, none)
          else
            faultInjection (pure (rpmaENoCompletion, none)) <|
            faultInjection (pure (rpmaEUnknown, none)) <|
              pure (0, if gotPtr then some a.polled else none)

/-! ## `conn.c` -/

/-- What a call leaves behind an out-parameter `struct rpma_cq **`. -/
inductive CqPtr where
  | untouched
  | null
  | obj (cq : Cq)
  deriving DecidableEq, Repr

/-- The result of `rpma_conn_wait` with its out-parameters. -/
structure Waited where
  ret : Int
  cq : CqPtr
  isRcq : Option Bool
  deriving DecidableEq, Repr

/-- The CQ of the connection that an event is for, and whether it is the receive CQ. -/
def eventCq (conn : Conn) (evCq : Nat) : Option (Cq × Bool) :=
  if conn.cq.cq = evCq then some (conn.cq, false)
  else
    match conn.rcq with
    | none => none
    | some rcq => if rcq.cq = evCq then some (rcq, true) else none

/-- `rpma_conn_wait` from the acknowledgement on. -/
def connWaitAck (evCq : Nat) (cq : Cq) (isRcq : Option Bool) : P Waited := do
  exec (.ibvAckCqEvents evCq 1)
  faultInjection (pure ⟨rpmaEProvider, .null, isRcq⟩) do
    if ← check (.ibvReqNotifyCq evCq) then return ⟨0, .obj cq, isRcq⟩
    else return ⟨rpmaEProvider, .null, isRcq⟩

/-- `rpma_conn_wait` on the shared channel. -/
def connWaitShared (conn : Conn) (channel : Nat) (isRcqPtr : Bool) : P Waited := do
  let a ← Prog.issue (.ibvGetCqEvent channel)
  if a.ok then
    match eventCq conn a.evCq with
    | some (cq, isRcq) => connWaitAck a.evCq cq (if isRcqPtr then some isRcq else none)
    | none => return ⟨rpmaEUnknown, .untouched, none⟩
  else return ⟨rpmaENoCompletion, .untouched, none⟩

/-- `rpma_conn_wait`; `cqPtr` and `isRcqPtr` say whether the out-parameters are given. -/
def connWait (conn : Option Conn) (cqPtr isRcqPtr : Bool) : P Waited :=
  faultInjection (pure ⟨rpmaENoCompletion, .untouched, none⟩) <|
    match conn, cqPtr with
    | some conn, true =>
      match conn.channel with
      | none => pure ⟨rpmaENotSharedChnl, .untouched, none⟩
      | some channel => connWaitShared conn channel isRcqPtr
    | _, _ => pure ⟨rpmaEInval, .untouched, none⟩

/-! ## What the construction guarantees -/

/-- The CQ `n` was created on the channel `ch`. -/
def CreatedOn (log : CallLog) (n ch : Nat) : Prop :=
  ∃ cqe a, log[n]? = some ⟨.ibvCreateCq cqe ch, a⟩ ∧ a.ok = true

/-- The channel of the CQ `n`. -/
def channelOf (log : CallLog) (n : Nat) : Option Nat :=
  match log[n]? with
  | some ⟨.ibvCreateCq _ ch, a⟩ => if a.ok then some ch else none
  | _ => none

/-- `ibv_req_notify_cq` of the CQ `n` has succeeded. -/
def Notified (log : CallLog) (n : Nat) : Prop :=
  ∃ a, ⟨.ibvReqNotifyCq n, a⟩ ∈ log ∧ a.ok = true

/-- **The CQs on the channels of `cqs` are those of `cqs`, and all of them were armed.** -/
structure Equipped (cqs : List Cq) (log : CallLog) : Prop where
  made : ∀ q ∈ cqs, CreatedOn log q.cq q.channel
  own : ∀ n ch, CreatedOn log n ch → (∃ q ∈ cqs, q.channel = ch) →
    ∃ q ∈ cqs, q.cq = n ∧ q.channel = ch
  armed : ∀ q ∈ cqs, Notified log q.cq

/-- The CQs of a request or connection. -/
def cqList (cq : Cq) (rcq : Option Cq) : List Cq := cq :: rcq.toList

theorem channelOf_eq_some {log : CallLog} {n ch : Nat} :
    channelOf log n = some ch ↔ CreatedOn log n ch := by
  unfold channelOf CreatedOn
  split
  · rename_i cqe ch' a hget
    rw [hget]
    constructor
    · intro h
      split at h
      · rename_i hok
        cases h
        exact ⟨cqe, a, rfl, hok⟩
      · cases h
    · rintro ⟨_, _, he, hok⟩
      cases he
      simp [hok]
  · rename_i hne
    refine iff_of_false (by simp) ?_
    rintro ⟨cqe, a, hget, -⟩
    exact hne cqe ch a hget

theorem CreatedOn.lt {log : CallLog} {n ch : Nat} (h : CreatedOn log n ch) : n < log.length := by
  obtain ⟨cqe, a, hget, -⟩ := h
  exact (List.getElem?_eq_some_iff.mp hget).1

theorem createdOn_snoc {log : CallLog} {e : Σ _ : Call, Answer} {n ch : Nat} :
    CreatedOn (log ++ [e]) n ch ↔ CreatedOn log n ch ∨
      n = log.length ∧ ∃ cqe a, e = ⟨.ibvCreateCq cqe ch, a⟩ ∧ a.ok = true := by
  unfold CreatedOn
  rcases Nat.lt_trichotomy n log.length with hlt | rfl | hgt
  · rw [List.getElem?_append_left hlt]
    simp [Nat.ne_of_lt hlt]
  · simp
  · rw [List.getElem?_eq_none (by simp; omega), List.getElem?_eq_none (by omega)]
    simp [Nat.ne_of_gt hgt]

theorem createdOn_snoc_of_ne {log : CallLog} {c : Call} {a : Answer} {n ch : Nat}
    (hc : ∀ cqe ch, c ≠ .ibvCreateCq cqe ch) :
    CreatedOn (log ++ [⟨c, a⟩]) n ch ↔ CreatedOn log n ch := by
  rw [createdOn_snoc]
  refine or_iff_left ?_
  rintro ⟨-, cqe, a', he, -⟩
  cases he
  exact hc cqe ch rfl

theorem Notified.snoc {log : CallLog} {n : Nat} (h : Notified log n) (e : Σ _ : Call, Answer) :
    Notified (log ++ [e]) n := by
  obtain ⟨a, ha, hok⟩ := h
  exact ⟨a, List.mem_append_left _ ha, hok⟩

theorem Equipped.snoc {cqs : List Cq} {log : CallLog} {c : Call} {a : Answer}
    (h : Equipped cqs log) (hc : ∀ cqe ch, c ≠ .ibvCreateCq cqe ch) :
    Equipped cqs (log ++ [⟨c, a⟩]) := by
  refine ⟨fun q hq => (createdOn_snoc_of_ne hc).mpr (h.made q hq), fun n ch hn => ?_,
    fun q hq => (h.armed q hq).snoc _⟩
  rw [createdOn_snoc_of_ne hc] at hn
  exact h.own n ch hn

instance (cqs : List Cq) : StableAlloc (Equipped cqs) where
  keep _ c _ hc h := h.snoc fun cqe ch heq => by simp [heq, Call.ordinary] at hc
  keep_alloc _ _ _ h := h.snoc (by simp)

instance (cqs : List Cq) : StableAway (Equipped cqs) where
  keep_away _ _ _ _ _ _ _ h := (h.snoc (by simp)).snoc (by simp)

/-! ## Following the construction

A constructor that fails promises nothing here, so only the way to success is followed. -/

/-- A promise about the object a constructor returns. -/
def OkPost {α : Type} (Q : α → CallLog → Prop) : Except Int α → CallLog → Prop
  | .error _, _ => True
  | .ok a, log => Q a log

/-- The CQs made since the run had `m` calls are those in `S`, with their channels, and those in `T`
were armed. -/
structure Tracks (m : Nat) (S : List (Nat × Nat)) (T : List Nat) (log : CallLog) : Prop where
  le : m ≤ log.length
  made : ∀ n ch, (n, ch) ∈ S → CreatedOn log n ch
  created : ∀ n ch, CreatedOn log n ch → ch < m ∨ (n, ch) ∈ S
  armed : ∀ n ∈ T, Notified log n

section Tracks

variable {world : World} {m : Nat} {S : List (Nat × Nat)} {T : List Nat} {c : Call}

/-- An error path: it returns an error, so it has nothing to promise. -/
theorem okPost_of_error {α : Type} {P : CallLog → Prop} {p : Librpma.P (Except Int α)}
    {Q : α → CallLog → Prop} (h : ∀ log, ∃ ret, (p.run world.answer log).1 = .error ret) :
    Prog.Triple world.answer P p (OkPost Q) := by
  intro log _
  obtain ⟨ret, hret⟩ := h log
  rw [hret]
  trivial

theorem Tracks.snoc {log : CallLog} {a : Answer} (h : Tracks m S T log)
    (hc : ∀ cqe ch, c ≠ .ibvCreateCq cqe ch) : Tracks m S T (log ++ [⟨c, a⟩]) := by
  refine ⟨h.le.trans (by simp), fun n ch hn => (createdOn_snoc_of_ne hc).mpr (h.made n ch hn),
    fun n ch hn => ?_, fun n hn => (h.armed n hn).snoc _⟩
  rw [createdOn_snoc_of_ne hc] at hn
  exact h.created n ch hn

theorem tracks_create (hc : ∀ cqe ch, c ≠ .ibvCreateCq cqe ch) :
    Prog.Triple world.answer (Tracks m S T) (create c) fun r log =>
      Tracks m S T log ∧ ∀ n ∈ r, m ≤ n := by
  have hissue : Prog.Triple world.answer (Tracks m S T) (Prog.issue c) fun a log =>
      Tracks m S T log ∧ m ≤ a.handle :=
    .issue fun log h => ⟨h.snoc hc, h.le⟩
  refine hissue.bind fun a => .and_pure fun ha => .pure fun log h => ⟨h, fun n hn => ?_⟩
  split at hn
  · cases hn
    exact ha
  · cases hn

theorem tracks_faultInjection {α : Type} {onFault rest : P α} {Q : α → CallLog → Prop}
    (hf : Prog.Triple world.answer (Tracks m S T) onFault Q)
    (h : Prog.Triple world.answer (Tracks m S T) rest Q) :
    Prog.Triple world.answer (Tracks m S T) (faultInjection onFault rest) Q := by
  refine Prog.Triple.bind (Q := fun _ => Tracks m S T) (.issue fun log h => h.snoc (by simp))
    fun a => ?_
  split
  · exact hf
  · exact h

theorem tracks_createCq (cqe : Int) (ch : Nat) :
    Prog.Triple world.answer (Tracks m S T) (create (.ibvCreateCq cqe ch)) fun r log =>
      match r with
      | none => True
      | some n => Tracks m ((n, ch) :: S) T log := by
  have hissue : Prog.Triple world.answer (Tracks m S T) (Prog.issue (.ibvCreateCq cqe ch))
      fun a log => a.ok = true → Tracks m ((a.handle, ch) :: S) T log := by
    refine .issue fun log h hok => ⟨h.le.trans (by simp), fun n ch' hn => createdOn_snoc.mpr ?_,
      fun n ch' hn => ?_, fun n hn => (h.armed n hn).snoc _⟩
    · rcases List.mem_cons.mp hn with heq | hn
      · cases heq
        exact Or.inr ⟨rfl, cqe, _, rfl, hok⟩
      · exact Or.inl (h.made n ch' hn)
    · obtain hn | ⟨rfl, cqe', a', he, -⟩ := createdOn_snoc.mp hn
      · exact (h.created n ch' hn).imp_right (List.mem_cons_of_mem _)
      · cases he
        exact Or.inr List.mem_cons_self
  refine hissue.bind fun a => .pure fun log h => ?_
  cases hok : a.ok with
  | false => simp
  | true => simpa [hok] using h

theorem tracks_notify (n : Nat) :
    Prog.Triple world.answer (Tracks m S T) (check (.ibvReqNotifyCq n)) fun ok log =>
      ok = true → Tracks m S (n :: T) log := by
  refine check_triple (.issue fun log h hok => ?_)
  have hs := h.snoc (a := world.answer log.length (.ibvReqNotifyCq n)) (c := .ibvReqNotifyCq n)
    (by simp)
  refine ⟨hs.le, hs.made, hs.created, List.forall_mem_cons.mpr ⟨⟨_, ?_, hok⟩, hs.armed⟩⟩
  exact List.mem_append_right _ List.mem_cons_self

/-! ### `rpma_cq_new` -/

theorem cqNewErrDestroyCompChannel_error (sharedChannel : Option Nat) (channel : Nat) (ret : Int)
    (log : CallLog) :
    ((cqNewErrDestroyCompChannel sharedChannel channel ret).run world.answer log).1 =
      .error ret := by
  cases sharedChannel <;> simp [cqNewErrDestroyCompChannel]

theorem cqNewErrDestroyCq_error (sharedChannel : Option Nat) (channel cq : Nat) (ret : Int)
    (log : CallLog) :
    ((cqNewErrDestroyCq sharedChannel channel cq ret).run world.answer log).1 = .error ret := by
  simp [cqNewErrDestroyCq, cqNewErrDestroyCompChannel_error]

theorem tracks_cqNewOn (cqe : Int) (sharedChannel : Option Nat) (channel : Nat) :
    Prog.Triple world.answer (Tracks m S T) (cqNewOn cqe sharedChannel channel)
      (OkPost fun cq log => Tracks m ((cq.cq, cq.channel) :: S) (cq.cq :: T) log ∧
        cq.channel = channel) := by
  have herr : ∀ {P : CallLog → Prop} {Q : Cq → CallLog → Prop} ret, Prog.Triple world.answer P
      (cqNewErrDestroyCompChannel sharedChannel channel ret) (OkPost Q) := fun ret =>
    okPost_of_error fun log => ⟨ret, cqNewErrDestroyCompChannel_error _ _ _ log⟩
  have herrCq : ∀ {P : CallLog → Prop} {Q : Cq → CallLog → Prop} cq ret, Prog.Triple world.answer P
      (cqNewErrDestroyCq sharedChannel channel cq ret) (OkPost Q) := fun cq ret =>
    okPost_of_error fun log => ⟨ret, cqNewErrDestroyCq_error _ _ _ _ log⟩
  refine tracks_faultInjection (herr _) ((tracks_createCq cqe channel).bind fun r => ?_)
  cases r with
  | none => exact herr _
  | some cq =>
    refine tracks_faultInjection (herrCq cq _) ((tracks_notify cq).bind fun ok => ?_)
    cases ok with
    | false => exact herrCq cq _
    | true =>
      refine Prog.Triple.bind (((tracks_create (c := .malloc .cq) (by simp))).conseq
        (fun _ h => h rfl) fun _ _ h => h) fun r => .and_pure fun _ => ?_
      cases r with
      | none => exact herrCq cq _
      | some ptr => exact .pure fun _ h => ⟨h, rfl⟩

theorem tracks_cqNew (cqe : Int) (sharedChannel : Option Nat) :
    Prog.Triple world.answer (Tracks m S T) (cqNew cqe sharedChannel)
      (OkPost fun cq log => Tracks m ((cq.cq, cq.channel) :: S) (cq.cq :: T) log ∧
        ((∀ c ∈ sharedChannel, m ≤ c) → m ≤ cq.channel)) := by
  cases sharedChannel with
  | some channel =>
    refine (tracks_cqNewOn cqe (some channel) channel).conseq (fun _ h => h) fun r _ h => ?_
    cases r with
    | error ret => trivial
    | ok cq => exact ⟨h.1, fun hm => h.2 ▸ hm channel rfl⟩
  | none =>
    refine tracks_faultInjection (.pure fun _ _ => trivial) ?_
    refine (tracks_create (c := .ibvCreateCompChannel) (by simp)).bind fun r =>
      .and_pure fun hr => ?_
    cases r with
    | none => exact .pure fun _ _ => trivial
    | some channel =>
      refine (tracks_cqNewOn cqe none channel).conseq (fun _ h => h) fun r _ h => ?_
      cases r with
      | error ret => trivial
      | ok cq => exact ⟨h.1, fun _ => h.2 ▸ hr channel rfl⟩

/-! ### `rpma_conn_req_from_id` -/

section FromId

variable (peer : Peer) (id : Nat) (channel : Option Nat) (cq : Cq) (rcq : Option Cq)

theorem fromIdErrCompChannelDestroy_error (ret : Int) (log : CallLog) :
    ((fromIdErrCompChannelDestroy channel ret).run world.answer log).1 = .error ret := by
  simp [fromIdErrCompChannelDestroy]

theorem fromIdErrCqDelete_error (ret : Int) (log : CallLog) :
    ((fromIdErrCqDelete channel cq ret).run world.answer log).1 = .error ret := by
  simp [fromIdErrCqDelete, fromIdErrCompChannelDestroy_error]

theorem fromIdErrRcqDelete_error (ret : Int) (log : CallLog) :
    ((fromIdErrRcqDelete channel cq rcq ret).run world.answer log).1 = .error ret := by
  simp [fromIdErrRcqDelete, fromIdErrCqDelete_error]

theorem tracks_fromIdQp :
    Prog.Triple world.answer (Tracks m S T) (fromIdQp peer id channel cq rcq)
      (OkPost fun req log => Tracks m S T log ∧ req.cq = cq ∧ req.rcq = rcq) := by
  have herr : ∀ {P : CallLog → Prop} {Q : Req → CallLog → Prop} ret, Prog.Triple world.answer P
      (fromIdErrRcqDelete channel cq rcq ret) (OkPost Q) := fun ret =>
    okPost_of_error fun log => ⟨ret, fromIdErrRcqDelete_error _ _ _ ret log⟩
  refine Prog.Triple.bind (Q := OkPost fun _ => Tracks m S T) ?_ fun r => ?_
  · refine tracks_faultInjection (.pure fun _ _ => trivial) ?_
    refine (tracks_create (by simp)).bind fun r => .and_pure fun _ => ?_
    cases r with
    | none => exact .pure fun _ _ => trivial
    | some qp => exact .pure fun _ h => h
  cases r with
  | error ret => exact herr ret
  | ok qp =>
    refine (tracks_create (c := .malloc .req) (by simp)).bind fun r => .and_pure fun _ => ?_
    cases r with
    | none =>
      refine Prog.Triple.bind (Q := fun _ _ => True) (fun _ _ => trivial) fun _ => herr _
    | some ptr => exact .pure fun _ h => ⟨h, rfl, rfl⟩

/-- What is known of the CQs of a finished request. -/
def TracksReq (m : Nat) (req : Req) (log : CallLog) : Prop :=
  (∃ S T, Tracks m S T log ∧ (∀ p, p ∈ S ↔ ∃ q ∈ cqList req.cq req.rcq, p = (q.cq, q.channel)) ∧
    ∀ q ∈ cqList req.cq req.rcq, q.cq ∈ T) ∧ ∀ q ∈ cqList req.cq req.rcq, m ≤ q.channel

theorem tracks_fromIdCqs (cfg : Cfg) (hm : ∀ c ∈ channel, m ≤ c) :
    Prog.Triple world.answer (Tracks m [] []) (fromIdCqs peer id cfg channel)
      (OkPost (TracksReq m)) := by
  refine (tracks_cqNew _ channel).bind fun r => ?_
  cases r with
  | error ret => exact okPost_of_error fun log => ⟨ret, fromIdErrCompChannelDestroy_error _ ret log⟩
  | ok cq =>
    refine .and_pure fun hcq => ?_
    dsimp only
    split
    · refine (tracks_cqNew _ channel).bind fun r => ?_
      cases r with
      | error ret => exact okPost_of_error fun log => ⟨ret, fromIdErrCqDelete_error _ _ ret log⟩
      | ok rcq =>
        refine .and_pure fun hrcq => ?_
        refine (tracks_fromIdQp peer id channel cq (some rcq)).conseq (fun _ h => h) fun r _ h => ?_
        cases r with
        | error ret => trivial
        | ok req =>
          obtain ⟨ht, h1, h2⟩ := h
          refine ⟨⟨_, _, ht, fun p => ?_, ?_⟩, ?_⟩
          · simp [h1, h2, cqList, or_comm]
          · simp [h1, h2, cqList]
          · simp [h1, h2, cqList, hcq hm, hrcq hm]
    · refine (tracks_fromIdQp peer id channel cq none).conseq (fun _ h => h) fun r _ h => ?_
      cases r with
      | error ret => trivial
      | ok req =>
        obtain ⟨ht, h1, h2⟩ := h
        refine ⟨⟨_, _, ht, fun p => ?_, ?_⟩, ?_⟩
        · simp [h1, h2, cqList]
        · simp [h1, h2, cqList]
        · simp [h1, h2, cqList, hcq hm]

theorem tracks_connReqFromId (cfg : Cfg) :
    Prog.Triple world.answer (Tracks m [] []) (connReqFromId peer id cfg)
      (OkPost (TracksReq m)) := by
  refine tracks_faultInjection (.pure fun _ _ => trivial) ?_
  refine Prog.Triple.bind (Q := fun _ => Tracks m [] []) ?_ fun shared => ?_
  · exact tracks_faultInjection (.pure fun _ h => h) (.pure fun _ h => h)
  split
  · refine (tracks_create (c := .ibvCreateCompChannel) (by simp)).bind fun r =>
      .and_pure fun hr => ?_
    cases r with
    | none => exact .pure fun _ _ => trivial
    | some channel => exact tracks_fromIdCqs peer id (some channel) cfg hr
  · exact tracks_fromIdCqs peer id none cfg (by simp)

end FromId

end Tracks

/-- The CQs a run has made so far are on channels it has made before. -/
theorem tracks_of_owns {log : CallLog} {L : Multiset (Tok Obj)} (h : Owns presumedEffect log L) :
    Tracks log.length [] [] log := by
  refine ⟨Nat.le_refl _, by simp, ?_, by simp⟩
  rintro n ch ⟨cqe, a, hget, hok⟩
  have hdep : DependsAt presumedEffect log n ⟨.cq, n⟩ ⟨.compChannel, ch⟩ :=
    ⟨_, hget, Or.inl ⟨[⟨.compChannel, ch⟩], by simp [effect, acquireIf, hok], by simp⟩⟩
  exact Or.inl (h.serial_lt_of_depends presumed_serial_of_acquire hdep)

theorem equipped_of_tracks {m : Nat} {req : Req} {log : CallLog} (h : TracksReq m req log) :
    Equipped (cqList req.cq req.rcq) log := by
  obtain ⟨⟨S, T, ht, hS, hT⟩, hm⟩ := h
  refine ⟨fun q hq => ht.made _ _ ((hS _).mpr ⟨q, hq, rfl⟩), ?_,
    fun q hq => ht.armed _ (hT q hq)⟩
  rintro n ch hn ⟨q, hq, rfl⟩
  rcases ht.created n _ hn with hlt | hmem
  · exact absurd (hm q hq) (Nat.not_le.mpr hlt)
  · obtain ⟨q', hq', heq⟩ := (hS _).mp hmem
    exact ⟨q', hq', (congrArg Prod.fst heq).symm, (congrArg Prod.snd heq).symm⟩

/-! ## Equipped requests and connections -/

/-- A request made by `rpma_conn_req_from_id`: an outgoing one, or the incoming one of an event. -/
def requestFromId (peer : Peer) (id : Nat) (cfg : Cfg) : Option CmEvent → P (Except Int Req)
  | none => connReqFromId peer id cfg
  | some edata => connReqFromCmEvent peer id edata cfg

/-- The connection made from such a request. -/
def connFromId (peer : Peer) (id : Nat) (cfg : Cfg) (edata : Option CmEvent) (args : ConnectArgs) :
    P (Except Int Conn) := do
  match ← requestFromId peer id cfg edata with
  | .error ret => return .error ret
  | .ok req => connReqConnect req args

section Equipped

variable {world : World} {A L : Multiset (Tok Obj)} {peer : Peer} {id : Nat}

theorem connReqFromId_equipped_spec (cfg : Cfg) (hid : Held ⟨.cmId, id⟩ A) :
    Prog.Triple world.answer (Owned (fun _ => True) A L) (connReqFromId peer id cfg)
      (OkPost fun req log => Owned (Equipped (cqList req.cq req.rcq)) (req.toks + A) L log ∧
        Req.Built peer id req) := by
  intro log h
  have hledger : Prog.Triple world.answer (Owned (fun _ => True) A L) (connReqFromId peer id cfg)
      (Made (fun _ => True) A L Req.toks (Req.Built peer id)) := connReqFromId_frame_spec cfg hid
  have hcqs : Prog.Triple world.answer (Tracks log.length [] []) (connReqFromId peer id cfg)
      (OkPost (TracksReq log.length)) := tracks_connReqFromId peer id cfg
  have howned := hledger log h
  have htracks := hcqs log (tracks_of_owns h.owns)
  revert howned htracks
  generalize ((connReqFromId peer id cfg).run world.answer log).1 = r
  intro howned htracks
  cases r with
  | error ret => trivial
  | ok req => exact ⟨⟨howned.1.owns, howned.1.free, equipped_of_tracks htracks⟩, howned.2⟩

/-- What is known of a request that can be connected. -/
structure Req.Sound (req : Req) : Prop where
  wired : Wired req.channel req.cq req.rcq
  no_data : req.isPassive = false → req.data.ptr = none

/-- **Every request made by `rpma_conn_req_from_id` is wired and equipped.** -/
theorem equippedRequest_spec (cfg : Cfg) (edata : Option CmEvent) :
    Prog.Triple world.answer (Owned (fun _ => True) {tok .cmId id []} L)
      (requestFromId peer id cfg edata) (OkPost fun req log =>
        Owned (Equipped (cqList req.cq req.rcq)) req.withId L log ∧ req.Sound) := by
  have hfrom : Prog.Triple world.answer (Owned (fun _ => True) {tok .cmId id []} L)
      (connReqFromId peer id cfg) (OkPost fun req log =>
        Owned (Equipped (cqList req.cq req.rcq)) req.withId L log ∧ Req.Built peer id req) := by
    refine (connReqFromId_equipped_spec cfg (by simp [tok])).conseq (fun _ h => h) fun r _ h => ?_
    cases r with
    | error ret => trivial
    | ok req =>
      refine ⟨h.1.congr ?_, h.2⟩
      simp [Req.withId, h.2.id_eq, ← Multiset.singleton_add, add_comm]
  cases edata with
  | none =>
    refine hfrom.conseq (fun _ h => h) fun r _ h => ?_
    cases r with
    | error ret => trivial
    | ok req => exact ⟨h.1, h.2.wired, fun _ => by rw [h.2.data_eq]; rfl⟩
  | some edata =>
    refine faultInjection_triple (.pure fun _ _ => trivial) ?_
    split
    · refine hfrom.bind fun r => ?_
      cases r with
      | error ret => exact .pure fun _ _ => trivial
      | ok req =>
        refine .and_pure fun hb => ?_
        have hdata : req.data.ptr = none := by rw [hb.data_eq]; rfl
        refine (privateDataStore_spec (K := fun _ => True) edata hdata (fun _ _ _ _ => trivial)
          (fun _ _ _ => StableAlloc.keep_alloc _ _ _) fun _ _ _ _ => trivial).bind fun r => ?_
        cases r with
        | error ret =>
          exact Prog.Triple.bind (Q := fun _ _ => True) (fun _ _ => trivial) fun _ =>
            .pure fun _ _ => trivial
        | ok data =>
          refine .pure fun _ h => ⟨h.congr ?_, hb.wired, by simp⟩
          have hno : req.data.toks = 0 := by simp [PrivateData.toks, hdata]
          simp only [Req.withId, Req.toks, hno, ← Multiset.singleton_add]
          abel
    · exact .pure fun _ _ => trivial

/-- **So is the connection made from it.** -/
theorem equippedConn_spec (cfg : Cfg) (edata : Option CmEvent) (args : ConnectArgs) :
    Prog.Triple world.answer (Owned (fun _ => True) {tok .cmId id []} L)
      (connFromId peer id cfg edata args) (OkPost fun conn log =>
        Owned (Equipped (cqList conn.cq conn.rcq)) conn.toks L log ∧
          Wired conn.channel conn.cq conn.rcq) := by
  refine (equippedRequest_spec cfg edata).bind fun r => ?_
  cases r with
  | error ret => exact .pure fun _ _ => trivial
  | ok req =>
    refine .and_pure fun hs => ?_
    have hover : ∀ conn log, Owned (Equipped (cqList req.cq req.rcq)) (conn.toks + 0) L log →
        Conn.Over req conn → Owned (Equipped (cqList conn.cq conn.rcq)) conn.toks L log ∧
          Wired conn.channel conn.cq conn.rcq := by
      intro conn log h ho
      rw [ho.cq_eq, ho.rcq_eq, ho.channel_eq]
      exact ⟨h.congr (add_zero _), hs.wired⟩
    cases hp : req.isPassive with
    | false =>
      refine (connReqConnect_spec hs.wired hp (hs.no_data hp) args).conseq (fun _ h => h)
        fun r _ h => ?_
      cases r with
      | error ret => trivial
      | ok conn => exact hover conn _ h.1 h.2
    | true =>
      refine (connReqConnect_incoming_spec ⟨hp, hs.wired⟩ args
        (fun _ _ _ => StableAlloc.keep_alloc _ _ _) fun _ _ _ =>
          StableAlloc.keep_alloc _ _ _).conseq (fun _ h => h) fun r _ h => ?_
      cases r with
      | error ret => trivial
      | ok conn => exact hover conn _ h.1 h.2

end Equipped

end Rpma.Librpma
