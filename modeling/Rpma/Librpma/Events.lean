import Rpma.Librpma.Completion

/-!
# Every completion event is acknowledged on its own CQ

`rpma_cq_wait` acknowledges an event on its own CQ without looking at the CQ of the event, and
`rpma_conn_wait` has a path that leaves an event unacknowledged. Both are right because of the
wiring of the CQs, on the one assumption that a channel delivers events of CQs created on it
(`Fair`).

* **`completion_events_accounted`**: after any run of waits on a connection made by
  `rpma_conn_req_from_id`, whatever the provider answered, as many events have been acknowledged on
  each CQ as were obtained for it, `rpma_conn_wait` reports the CQ of the event it took, and exactly
  one of the two waits uses the channel of a CQ.

A `rpma_conn_wait` that took an event fails only where a fault is injected into it or where
`ibv_req_notify_cq` of the CQ of the event fails (`Disturbs`): it then returns `RPMA_E_PROVIDER` and
sets `*cq` to `NULL`, and in every other case it returns 0 and that CQ (`Reported`).
-/

namespace Rpma.Librpma

open Rpma.Lib Rpma.Lib.Ledger

/-! ## Counting -/

/-- Events that a call obtains for the CQ `n`. -/
def eventOf (n : Nat) : (Σ _ : Call, Answer) → Nat
  | ⟨.ibvGetCqEvent _, a⟩ => if a.ok = true ∧ a.evCq = n then 1 else 0
  | _ => 0

/-- Events that a call acknowledges on the CQ `n`. -/
def ackOf (n : Nat) : (Σ _ : Call, Answer) → Nat
  | ⟨.ibvAckCqEvents cq nevents, _⟩ => if cq = n then nevents else 0
  | _ => 0

def eventsFor (n : Nat) (calls : CallLog) : Nat := (calls.map (eventOf n)).sum

def acksFor (n : Nat) (calls : CallLog) : Nat := (calls.map (ackOf n)).sum

/-- `ibv_get_cq_event` on a channel only returns CQs created on that channel. -/
def Fair (log : CallLog) : Prop :=
  ∀ i ch a, log[i]? = some ⟨.ibvGetCqEvent ch, a⟩ → a.ok = true → CreatedOn (log.take i) a.evCq ch

instance (log : CallLog) (n ch : Nat) : Decidable (CreatedOn log n ch) :=
  decidable_of_iff _ channelOf_eq_some

instance (log : CallLog) : Decidable (Fair log) :=
  decidable_of_iff (∀ i < log.length, (match log[i]? with
      | some ⟨.ibvGetCqEvent ch, a⟩ => !a.ok || decide (CreatedOn (log.take i) a.evCq ch)
      | _ => true) = true) <| by
    constructor
    · intro h i ch a hget hok
      have hi := h i (List.getElem?_eq_some_iff.mp hget).1
      simpa [hget, hok] using hi
    · intro h i _
      split
      · rename_i ch a hget
        cases hok : a.ok
        · rfl
        · simpa using h i ch a hget hok
      · rfl

theorem Fair.of_prefix {log log' : CallLog} (h : Fair log') (hpre : log <+: log') : Fair log := by
  obtain ⟨rest, rfl⟩ := hpre
  intro i ch a hget hok
  have hlt := (List.getElem?_eq_some_iff.mp hget).1
  have hcreated := h i ch a (by rw [List.getElem?_append_left hlt]; exact hget) hok
  rwa [List.take_append_of_le_length (Nat.le_of_lt hlt)] at hcreated

theorem Fair.createdOn {log : CallLog} {ch : Nat} {a : Answer}
    (h : Fair (log ++ [⟨.ibvGetCqEvent ch, a⟩])) (hok : a.ok = true) : CreatedOn log a.evCq ch := by
  have := h log.length ch a (by simp) hok
  simpa using this

/-- Since `base` one more event was obtained than acknowledged for the CQ `owed`, if any, and as
many for every other. -/
def Balance (base : CallLog) (owed : Option Nat) (log : CallLog) : Prop :=
  ∃ calls, log = base ++ calls ∧ (Fair log → ∀ n,
    acksFor n calls + (if owed = some n then 1 else 0) = eventsFor n calls)

theorem Balance.refl (base : CallLog) : Balance base none base :=
  ⟨[], by simp, fun _ _ => by simp [acksFor, eventsFor]⟩

/-- One more call, which changes what is owed. -/
theorem Balance.snoc {base log : CallLog} {owed owed' : Option Nat} {e : Σ _ : Call, Answer}
    (h : Balance base owed log) (he : Fair (log ++ [e]) → ∀ n,
      ackOf n e + (if owed' = some n then 1 else 0) =
        (if owed = some n then 1 else 0) + eventOf n e) :
    Balance base owed' (log ++ [e]) := by
  obtain ⟨calls, rfl, hcalls⟩ := h
  refine ⟨calls ++ [e], by simp, fun hf n => ?_⟩
  have h1 := hcalls (hf.of_prefix (List.prefix_append _ _)) n
  have h2 := he hf n
  simp only [acksFor, eventsFor, List.map_append, List.map_singleton, List.sum_append,
    List.sum_singleton] at h1 ⊢
  omega

/-! ## The waits -/

/-- What an application can wait with. -/
inductive Wait where
  | cq
  | rcq
  | conn (cqPtr isRcqPtr : Bool)

def Wait.call (conn : Conn) : Wait → P Unit
  | .cq => do let _ ← cqWait (some conn.cq); return ()
  | .rcq => do let _ ← cqWait conn.rcq; return ()
  | .conn cqPtr isRcqPtr => do let _ ← connWait (some conn) cqPtr isRcqPtr; return ()

def waits (conn : Conn) : List Wait → P Unit
  | [] => pure ()
  | w :: ws => do
    w.call conn
    waits conn ws

section Waits

variable {world : World} {base : CallLog} {owed : Option Nat} {cqs : List Cq}

/-- The state of a connection between its calls: well equipped, and `owed` to be acknowledged. -/
def Waiting (cqs : List Cq) (base : CallLog) (owed : Option Nat) (log : CallLog) : Prop :=
  Equipped cqs log ∧ Balance base owed log

/-- A call that neither takes nor acknowledges an event. -/
theorem waiting_issue {c : Call} (hc : ∀ cqe ch, c ≠ .ibvCreateCq cqe ch)
    (hevent : ∀ n a, eventOf n ⟨c, a⟩ = 0) (hack : ∀ n a, ackOf n ⟨c, a⟩ = 0) :
    Prog.Triple world.answer (Waiting cqs base owed) (Prog.issue c)
      fun _ => Waiting cqs base owed :=
  .issue fun _ h => ⟨h.1.snoc hc, h.2.snoc fun _ n => by rw [hevent, hack]; omega⟩

theorem waiting_faultInjection {α : Type} {onFault rest : P α} {Q : α → CallLog → Prop}
    (hf : Prog.Triple world.answer (Waiting cqs base owed) onFault Q)
    (h : Prog.Triple world.answer (Waiting cqs base owed) rest Q) :
    Prog.Triple world.answer (Waiting cqs base owed) (faultInjection onFault rest) Q := by
  refine (waiting_issue (by simp) (fun _ _ => rfl) fun _ _ => rfl).bind fun a => ?_
  split
  · exact hf
  · exact h

theorem waiting_ack (n : Nat) :
    Prog.Triple world.answer (Waiting cqs base (some n)) (exec (.ibvAckCqEvents n 1))
      fun _ => Waiting cqs base none := by
  refine exec_triple (.issue fun _ h => ⟨h.1.snoc (by simp), h.2.snoc fun _ k => ?_⟩)
  simp [ackOf, eventOf]

theorem waiting_notify (n : Nat) :
    Prog.Triple world.answer (Waiting cqs base owed) (check (.ibvReqNotifyCq n))
      fun _ => Waiting cqs base owed :=
  check_triple (waiting_issue (by simp) (fun _ _ => rfl) fun _ _ => rfl)

/-- Taking an event of a channel with one CQ: that CQ is owed. -/
theorem waiting_getOwn {q : Cq} (hq : q ∈ cqs)
    (hown : ∀ q' ∈ cqs, q'.channel = q.channel → q'.cq = q.cq) :
    Prog.Triple world.answer (Waiting cqs base none) (Prog.issue (.ibvGetCqEvent q.channel))
      fun a => Waiting cqs base (if a.ok then some q.cq else none) := by
  refine .issue fun log h => ⟨h.1.snoc (by simp), h.2.snoc fun hf n => ?_⟩
  split
  · rename_i hok
    obtain ⟨q', hq', hcq, hch⟩ := h.1.own _ _ (hf.createdOn hok) ⟨q, hq, rfl⟩
    have hev := hown q' hq' hch
    simp [ackOf, eventOf, hok, ← hcq, hev]
  · rename_i hok
    simp [ackOf, eventOf, hok]

theorem waiting_cqWaitOwn {q : Cq} (hq : q ∈ cqs)
    (hown : ∀ q' ∈ cqs, q'.channel = q.channel → q'.cq = q.cq) :
    Prog.Triple world.answer (Waiting cqs base none) (cqWaitOwn q)
      fun _ => Waiting cqs base none := by
  refine waiting_faultInjection (.pure fun _ h => h) ((waiting_getOwn hq hown).bind fun a => ?_)
  cases a.ok with
  | false => exact .pure fun _ h => h
  | true =>
    refine (waiting_ack q.cq).bind fun _ => waiting_faultInjection (.pure fun _ h => h) ?_
    refine (waiting_notify q.cq).bind fun ok => ?_
    split <;> exact .pure fun _ h => h

/-- A CQ that is not marked as shared is the only one on its channel. -/
theorem Wired.own_channel {channel : Option Nat} {cq : Cq} {rcq : Option Cq}
    (hw : Wired channel cq rcq) {q : Cq} (hq : q ∈ cqList cq rcq)
    (hs : q.sharedCompChannel = false) :
    ∀ q' ∈ cqList cq rcq, q'.channel = q.channel → q'.cq = q.cq := by
  have hshared : ∀ q ∈ cqList cq rcq, q.sharedCompChannel = channel.isSome := by
    simpa [cqList] using hw.shared
  have hnone : channel = none := by simpa [hshared q hq] using hs
  cases rcq with
  | none =>
    simp only [cqList, Option.toList_none, List.mem_singleton] at hq ⊢
    rintro q' rfl -
    rw [hq]
  | some r =>
    have hne := hw.own hnone r rfl
    simp only [cqList, Option.toList_some, List.mem_cons, List.not_mem_nil, or_false] at hq ⊢
    rintro q' (rfl | rfl) hch <;> rcases hq with rfl | rfl
    · rfl
    · exact absurd hch.symm hne
    · exact absurd hch hne
    · rfl

/-- **`rpma_cq_wait`** acknowledges the event it takes. -/
theorem waiting_cqWait {channel : Option Nat} {cq : Cq} {rcq : Option Cq}
    (hw : Wired channel cq rcq) {q : Option Cq} (hq : ∀ q' ∈ q, q' ∈ cqList cq rcq) :
    Prog.Triple world.answer (Waiting (cqList cq rcq) base none) (cqWait q)
      fun _ => Waiting (cqList cq rcq) base none := by
  refine waiting_faultInjection (.pure fun _ h => h) ?_
  cases q with
  | none => exact .pure fun _ h => h
  | some q =>
    dsimp only
    split
    · exact .pure fun _ h => h
    · rename_i hs
      have hmem := hq q rfl
      exact waiting_cqWaitOwn hmem (hw.own_channel hmem (by simpa using hs))

theorem eventCq_isSome {conn : Conn} {evCq : Nat}
    (h : ∃ q ∈ cqList conn.cq conn.rcq, q.cq = evCq) : eventCq conn evCq ≠ none := by
  unfold eventCq
  obtain ⟨q, hq, rfl⟩ := h
  cases hr : conn.rcq with
  | none =>
    simp only [cqList, hr, Option.toList_none, List.mem_singleton] at hq
    simp [hq]
  | some r =>
    simp only [cqList, hr, Option.toList_some, List.mem_cons, List.not_mem_nil, or_false] at hq
    rcases hq with rfl | rfl
    · simp
    · split <;> simp

/-- Taking an event of the shared channel: the CQ of the event is owed, and it is known. -/
theorem waiting_getShared {conn : Conn} {ch : Nat} (hch : ∃ q ∈ cqs, q.channel = ch)
    (hcqs : cqs = cqList conn.cq conn.rcq) :
    Prog.Triple world.answer (Waiting cqs base none) (Prog.issue (.ibvGetCqEvent ch))
      fun a log => if a.ok then
          (Waiting cqs base (some a.evCq) log ∧ (Fair log → eventCq conn a.evCq ≠ none))
        else Waiting cqs base none log := by
  refine .issue fun log h => ?_
  split
  · rename_i hok
    refine ⟨⟨h.1.snoc (by simp), h.2.snoc fun hf n => ?_⟩, fun hf => ?_⟩
    · simp [ackOf, eventOf, hok]
    · obtain ⟨q, hq, hcq, -⟩ := h.1.own _ _ (hf.createdOn hok) hch
      exact eventCq_isSome ⟨q, hcqs ▸ hq, hcq⟩
  · rename_i hok
    refine ⟨h.1.snoc (by simp), h.2.snoc fun _ n => ?_⟩
    simp [ackOf, eventOf, hok]

/-- **`rpma_conn_wait`** acknowledges the event it takes. -/
theorem waiting_connWait {conn : Conn} (hw : Wired conn.channel conn.cq conn.rcq)
    (cqPtr isRcqPtr : Bool) :
    Prog.Triple world.answer (Waiting (cqList conn.cq conn.rcq) base none)
      (connWait (some conn) cqPtr isRcqPtr)
      fun _ => Waiting (cqList conn.cq conn.rcq) base none := by
  refine waiting_faultInjection (.pure fun _ h => h) ?_
  cases cqPtr with
  | false => exact .pure fun _ h => h
  | true =>
    dsimp only
    split
    · exact .pure fun _ h => h
    · rename_i ch hch
      have hon : ∃ q ∈ cqList conn.cq conn.rcq, q.channel = ch :=
        ⟨conn.cq, by simp [cqList], (hw.same ch hch).1⟩
      refine (waiting_getShared hon rfl).bind fun a => ?_
      cases a.ok with
      | false => exact .pure fun _ h => h
      | true =>
        cases hev : eventCq conn a.evCq with
        | none =>
          -- the branch of `RPMA_E_UNKNOWN`: the event would stay unacknowledged
          refine .pure fun log h => ⟨h.1.1, ?_⟩
          obtain ⟨calls, hlog, -⟩ := h.1.2
          exact ⟨calls, hlog, fun hf => absurd rfl (h.2 hf)⟩
        | some p =>
          refine Prog.Triple.bind ((waiting_ack a.evCq).conseq (fun _ h => h.1) fun _ _ h => h)
            fun _ => waiting_faultInjection (.pure fun _ h => h) ?_
          refine (waiting_notify a.evCq).bind fun ok => ?_
          split <;> exact .pure fun _ h => h

theorem waiting_call {conn : Conn} (hw : Wired conn.channel conn.cq conn.rcq) (w : Wait) :
    Prog.Triple world.answer (Waiting (cqList conn.cq conn.rcq) base none) (w.call conn)
      fun _ => Waiting (cqList conn.cq conn.rcq) base none := by
  cases w with
  | cq =>
    refine (waiting_cqWait hw (q := some conn.cq) ?_).bind fun _ => .pure fun _ h => h
    simp [cqList]
  | rcq =>
    refine (waiting_cqWait hw (q := conn.rcq) fun r hr => ?_).bind fun _ => .pure fun _ h => h
    simp only [Option.mem_def] at hr
    simp [cqList, hr]
  | conn cqPtr isRcqPtr => exact (waiting_connWait hw _ _).bind fun _ => .pure fun _ h => h

/-- A run of waits leaves nothing unacknowledged. -/
theorem waiting_waits {conn : Conn} (hw : Wired conn.channel conn.cq conn.rcq) (ws : List Wait) :
    Prog.Triple world.answer (Waiting (cqList conn.cq conn.rcq) base none) (waits conn ws)
      fun _ => Waiting (cqList conn.cq conn.rcq) base none := by
  induction ws with
  | nil => exact .pure fun _ h => h
  | cons w ws ih => exact (waiting_call hw w).bind fun _ => ih

end Waits

/-! ## What `rpma_conn_wait` reports -/

/-- What keeps the CQ `n` from being armed again: an injected fault, or a failure to do so. -/
def Disturbs (n : Nat) : (Σ _ : Call, Answer) → Prop
  | ⟨.faultInjection, a⟩ => a.fault = true
  | ⟨.ibvReqNotifyCq cq, a⟩ => cq = n ∧ a.ok = false
  | _ => False

/-- The result of a call that made `calls` is for the CQ of the event, `is_rcq` telling which of the
two it is: 0 and that CQ, or `RPMA_E_PROVIDER` and `NULL` where it was kept from arming the CQ
again. -/
def Reported (conn : Conn) (isRcqPtr : Bool) (evCq : Nat) (calls : CallLog) (r : Waited) : Prop :=
  ∃ q isRcq, (q = conn.cq ∧ isRcq = false ∨ conn.rcq = some q ∧ isRcq = true) ∧
    q.cq = evCq ∧ (∀ q' ∈ cqList conn.cq conn.rcq, q'.cq = evCq → q' = q) ∧
    ((∀ e ∈ calls, ¬ Disturbs evCq e) → r.ret = 0 ∧ r.cq = .obj q) ∧
    ((∃ e ∈ calls, Disturbs evCq e) → r.ret = rpmaEProvider ∧ r.cq = .null) ∧
    (isRcqPtr = true → r.isRcq = some isRcq)

/-- The two CQs of a connection are different. -/
theorem distinct_cqs {I : CallLog → Prop} {conn : Conn} {L : Multiset (Tok Obj)} {log : CallLog}
    (h : Owned I conn.toks L log) : ∀ r ∈ conn.rcq, r.cq ≠ conn.cq.cq := by
  intro r hr heq
  have hnd := (h.owns.inv presumed_serial_of_acquire).nodup
  have htoks : conn.toks + L = tok .cq conn.cq.cq [⟨.compChannel, conn.cq.channel⟩] ::ₘ
      tok .cq r.cq [⟨.compChannel, r.channel⟩] ::ₘ
      (conn.flush.toks + {qpTok conn.id conn.qp conn.cq conn.rcq} +
        ({tok .heap r.ptr []} + channelToks r.sharedCompChannel r.channel) +
        ({tok .heap conn.cq.ptr []} + channelToks conn.cq.sharedCompChannel conn.cq.channel) +
        conn.idStage + L) := by
    simp only [Conn.toks, Conn.qpStage, Conn.cqStage, Option.mem_def.mp hr, rcqToks, Cq.toks,
      ← Multiset.singleton_add]
    abel
  rw [htoks] at hnd
  simp [tok, heq] at hnd

theorem eventCq_eq_some {conn : Conn} {evCq : Nat} {q : Cq} {isRcq : Bool}
    (h : eventCq conn evCq = some (q, isRcq)) :
    (q = conn.cq ∧ isRcq = false ∨ conn.rcq = some q ∧ isRcq = true) ∧ q.cq = evCq := by
  unfold eventCq at h
  split at h
  · rename_i hcq
    cases h
    exact ⟨Or.inl ⟨rfl, rfl⟩, hcq⟩
  · cases hr : conn.rcq with
    | none => simp [hr] at h
    | some r =>
      simp only [hr, Option.ite_none_right_eq_some, Option.some.injEq, Prod.mk.injEq] at h
      obtain ⟨he, rfl, rfl⟩ := h
      exact ⟨Or.inr ⟨rfl, rfl⟩, he⟩

theorem eventCq_spec {conn : Conn} {evCq : Nat} {q : Cq} {isRcq : Bool}
    (hd : ∀ r ∈ conn.rcq, r.cq ≠ conn.cq.cq) (h : eventCq conn evCq = some (q, isRcq)) :
    (q = conn.cq ∧ isRcq = false ∨ conn.rcq = some q ∧ isRcq = true) ∧ q.cq = evCq ∧
      ∀ q' ∈ cqList conn.cq conn.rcq, q'.cq = evCq → q' = q := by
  obtain ⟨hwhich, rfl⟩ := eventCq_eq_some h
  refine ⟨hwhich, rfl, ?_⟩
  simp only [cqList, List.mem_cons, Option.mem_toList]
  rcases hwhich with ⟨rfl, -⟩ | ⟨hr, -⟩
  · rintro q' (rfl | hq') he
    · rfl
    · exact absurd he (hd q' hq')
  · rintro q' (rfl | hq') he
    · exact absurd he.symm (hd q hr)
    · rwa [hr, Option.some.injEq, eq_comm] at hq'

/-- The events a call from `base` obtained are reported right, and the CQ of none is unknown. -/
def ReportsRight (conn : Conn) (isRcqPtr : Bool) (base : CallLog) (r : Waited) (log : CallLog) :
    Prop :=
  Fair log → r.ret ≠ rpmaEUnknown ∧ ∀ ch a, ⟨.ibvGetCqEvent ch, a⟩ ∈ log.drop base.length →
    a.ok = true → Reported conn isRcqPtr a.evCq (log.drop base.length) r

section Reports

variable {world : World} {base log : CallLog} {conn : Conn} {isRcqPtr : Bool}

/-- The answers to `ibv_get_cq_event` since `base` satisfy `p`, and the CQs that have been kept from
being armed since are those in `d`. -/
def Saw (base : CallLog) (p : Answer → Prop) (d : Nat → Prop) (log : CallLog) : Prop :=
  ∃ calls, log = base ++ calls ∧ (∀ ch a, ⟨.ibvGetCqEvent ch, a⟩ ∈ calls → p a) ∧
    ∀ n, (∃ e ∈ calls, Disturbs n e) ↔ d n

section Saw

variable {p : Answer → Prop} {d : Nat → Prop} {c : Call}

theorem Saw.snoc (h : Saw base p d log) {a : Answer} (hc : ∀ ch, c ≠ .ibvGetCqEvent ch) :
    Saw base p (fun n => d n ∨ Disturbs n ⟨c, a⟩) (log ++ [⟨c, a⟩]) := by
  obtain ⟨calls, rfl, hp, hd⟩ := h
  refine ⟨calls ++ [⟨c, a⟩], by simp, fun ch a' ha => ?_, fun n => ?_⟩
  · rcases List.mem_append.mp ha with ha | ha
    · exact hp ch a' ha
    · cases List.mem_singleton.mp ha
      exact absurd rfl (hc ch)
  · simp [or_and_right, exists_or, hd]

theorem Saw.mono {p' : Answer → Prop} (h : Saw base p d log) (hp : ∀ a, p a → p' a) :
    Saw base p' d log := by
  obtain ⟨calls, hlog, hcalls, hd⟩ := h
  exact ⟨calls, hlog, fun ch a ha => hp a (hcalls ch a ha), hd⟩

theorem Saw.congr {d' : Nat → Prop} (h : Saw base p d log) (hd : ∀ n, d n ↔ d' n) :
    Saw base p d' log := by
  obtain ⟨calls, hlog, hcalls, hcall⟩ := h
  exact ⟨calls, hlog, hcalls, fun n => (hcall n).trans (hd n)⟩

/-- A call that disturbs nothing. -/
theorem saw_issue (hc : ∀ ch, c ≠ .ibvGetCqEvent ch) (hquiet : ∀ n a, ¬ Disturbs n ⟨c, a⟩) :
    Prog.Triple world.answer (Saw base p d) (Prog.issue c) fun _ => Saw base p d :=
  .issue fun _ h => (h.snoc hc).congr fun n => by simp [hquiet]

theorem saw_fault : Prog.Triple world.answer (Saw base p d) (Prog.issue .faultInjection)
    fun a => Saw base p fun n => d n ∨ a.fault = true :=
  .issue fun _ h => h.snoc (by simp)

theorem saw_notify (cq : Nat) : Prog.Triple world.answer (Saw base p d)
    (check (.ibvReqNotifyCq cq)) fun ok => Saw base p fun n => d n ∨ cq = n ∧ ok = false :=
  check_triple (.issue fun _ h => h.snoc (by simp))

end Saw

theorem ReportsRight.of_event {d : Nat → Prop} {r : Waited} {q : Cq} {isRcq : Bool} {evCq : Nat}
    (h : Saw base (·.evCq = evCq) d log) (hd : ∀ r ∈ conn.rcq, r.cq ≠ conn.cq.cq)
    (hq : eventCq conn evCq = some (q, isRcq)) (hout : isRcqPtr = true → r.isRcq = some isRcq)
    (hret : d evCq ∧ r.ret = rpmaEProvider ∧ r.cq = .null ∨
      ¬ d evCq ∧ r.ret = 0 ∧ r.cq = .obj q) :
    ReportsRight conn isRcqPtr base r log := by
  obtain ⟨hwhich, hcq, huniq⟩ := eventCq_spec hd hq
  obtain ⟨calls, rfl, hp, hcalls⟩ := h
  refine fun _ => ⟨?_, fun ch a ha _ => ?_⟩
  · rcases hret with ⟨-, hret, -⟩ | ⟨-, hret, -⟩ <;> simp [hret, rpmaEUnknown, rpmaEProvider]
  · rw [List.drop_left] at ha ⊢
    rw [hp ch a ha]
    refine ⟨q, isRcq, hwhich, hcq, huniq, fun hcalm => ?_, fun hdis => ?_, hout⟩
    · have hno : ¬ d evCq := by
        intro hx
        obtain ⟨e, he, hx⟩ := (hcalls evCq).mpr hx
        exact hcalm e he hx
      exact (hret.resolve_left fun h => hno h.1).2
    · exact (hret.resolve_right fun h => h.1 ((hcalls evCq).mp hdis)).2

theorem ReportsRight.of_none {d : Nat → Prop} {r : Waited} (h : Saw base (·.ok = false) d log)
    (hret : r.ret ≠ rpmaEUnknown) : ReportsRight conn isRcqPtr base r log := by
  obtain ⟨calls, rfl, hp, -⟩ := h
  refine fun _ => ⟨hret, fun ch a ha hok => ?_⟩
  rw [List.drop_left] at ha
  rw [hp ch a ha] at hok
  cases hok

theorem connWaitAck_reports {q : Cq} {isRcq : Bool} {evCq : Nat}
    (hd : ∀ r ∈ conn.rcq, r.cq ≠ conn.cq.cq) (hq : eventCq conn evCq = some (q, isRcq)) :
    Prog.Triple world.answer (Saw base (·.evCq = evCq) fun _ => False)
      (connWaitAck evCq q (if isRcqPtr then some isRcq else none))
      (ReportsRight conn isRcqPtr base) := by
  refine (exec_triple (saw_issue (by simp) (by simp [Disturbs]))).bind fun _ => ?_
  refine saw_fault.bind fun a => ?_
  cases a.fault with
  | true => exact .pure fun _ h => .of_event h hd hq (fun hp => by simp [hp]) (by simp)
  | false =>
    refine (saw_notify evCq).bind fun ok => ?_
    cases ok <;> exact .pure fun _ h => .of_event h hd hq (fun hp => by simp [hp]) (by simp)

/-- Before a call takes an event: nothing has disturbed it. -/
def Asleep (cqs : List Cq) (base log : CallLog) : Prop :=
  Saw base (fun _ => False) (fun _ => False) log ∧ Equipped cqs log

theorem asleep_faultInjection {cqs : List Cq} {α : Type} {onFault rest : P α}
    {Q : α → CallLog → Prop}
    (hf : Prog.Triple world.answer (Saw base (fun _ => False) fun _ => True) onFault Q)
    (h : Prog.Triple world.answer (Asleep cqs base) rest Q) :
    Prog.Triple world.answer (Asleep cqs base) (faultInjection onFault rest) Q := by
  refine Prog.Triple.bind (Q := fun a log => Equipped cqs log ∧
      Saw base (fun _ => False) (fun _ => a.fault = true) log) ?_ fun a => ?_
  · intro log h
    exact ⟨h.2.snoc (by simp), (saw_fault log h.1).congr fun n => by simp⟩
  · cases hfault : a.fault with
    | true => exact hf.conseq (fun _ h => h.2.congr fun _ => by simp) fun _ _ h => h
    | false => exact h.conseq (fun _ h => ⟨h.2.congr fun _ => by simp, h.1⟩) fun _ _ h => h

/-- Taking an event: what was seen, and that its CQ is known. -/
theorem asleep_get {ch : Nat} (hch : ∃ q ∈ cqList conn.cq conn.rcq, q.channel = ch) :
    Prog.Triple world.answer (Asleep (cqList conn.cq conn.rcq) base)
      (Prog.issue (.ibvGetCqEvent ch)) fun a log => Saw base (· = a) (fun _ => False) log ∧
        (a.ok = true → Fair log → eventCq conn a.evCq ≠ none) := by
  refine .issue fun log h => ⟨?_, fun hok hf => ?_⟩
  · obtain ⟨calls, rfl, hp, hd⟩ := h.1
    refine ⟨calls ++ [⟨.ibvGetCqEvent ch, world.answer (base ++ calls).length (.ibvGetCqEvent ch)⟩],
      by simp, fun ch' a ha => ?_, fun n => ?_⟩
    · rcases List.mem_append.mp ha with ha | ha
      · exact absurd ha (hp ch' a)
      · cases List.mem_singleton.mp ha
        rfl
    · have hget : ∀ a, ¬ Disturbs n ⟨.ibvGetCqEvent ch, a⟩ := fun _ => id
      simp only [List.mem_append, List.mem_singleton, or_and_right, exists_or, exists_eq_left, hd n,
        hget, or_false]
  · obtain ⟨q, hq, hcq, -⟩ := h.2.own _ _ (hf.createdOn hok) hch
    exact eventCq_isSome ⟨q, hq, hcq⟩

/-- **`rpma_conn_wait`** reports the CQ of the event it takes. -/
theorem connWait_reports (hw : Wired conn.channel conn.cq conn.rcq)
    (hd : ∀ r ∈ conn.rcq, r.cq ≠ conn.cq.cq) :
    Prog.Triple world.answer (Asleep (cqList conn.cq conn.rcq) base)
      (connWait (some conn) true isRcqPtr) (ReportsRight conn isRcqPtr base) := by
  have hnone : ∀ ret, ret ≠ rpmaEUnknown → Prog.Triple world.answer
      (Asleep (cqList conn.cq conn.rcq) base) (pure ⟨ret, .untouched, none⟩)
      (ReportsRight conn isRcqPtr base) := fun ret hret =>
    .pure fun _ h => .of_none (h.1.mono fun _ => False.elim) hret
  refine asleep_faultInjection
    (.pure fun _ h => .of_none (h.mono fun _ => False.elim) (by decide)) ?_
  dsimp only
  split
  · exact hnone _ (by decide)
  · rename_i ch hch
    refine (asleep_get ⟨conn.cq, by simp [cqList], (hw.same ch hch).1⟩).bind fun a => ?_
    cases hok : a.ok with
    | false => exact .pure fun _ h => .of_none (h.1.mono fun a' ha' => by rw [ha', hok]) (by decide)
    | true =>
      cases hev : eventCq conn a.evCq with
      | none => exact .pure fun _ h hf => absurd rfl (h.2 rfl hf)
      | some p =>
        refine (connWaitAck_reports hd hev).conseq (fun _ h => h.1.mono fun a' ha' => ?_)
          fun _ _ h => h
        rw [ha']

end Reports

/-! ## Which wait a CQ can be waited on with -/

/-- A call made after `log` asks the channel `ch` for an event. -/
def Asks {α : Type} (world : World) (log : CallLog) (m : P α) (ch : Nat) : Prop :=
  ∃ a, ⟨.ibvGetCqEvent ch, a⟩ ∈ (m.run world.answer log).2.drop log.length

/-- A call after a fault injection point, without faults. -/
theorem run_faultInjection {α : Type} {world : World} (hnf : NoFaults world) (onFault rest : P α)
    (log : CallLog) : (faultInjection onFault rest).run world.answer log =
      rest.run world.answer
        (log ++ [⟨.faultInjection, world.answer log.length .faultInjection⟩]) := by
  have hf : (world.answer log.length .faultInjection).fault = false := hnf _
  simp [faultInjection, hf]

section Asks

variable {α : Type} {world : World} {log : CallLog} {ch : Nat}

theorem asks_get (k : Answer → P α) : Asks world log (Prog.issue (.ibvGetCqEvent ch) >>= k) ch := by
  have hpre : log ++ [⟨.ibvGetCqEvent ch, world.answer log.length (.ibvGetCqEvent ch)⟩] <+:
      ((Prog.issue (.ibvGetCqEvent ch) >>= k).run world.answer log).2 := by
    rw [Prog.run_bind, Prog.run_issue]
    exact Prog.run_prefix _ _
  obtain ⟨after, hafter⟩ := hpre
  refine ⟨world.answer log.length (.ibvGetCqEvent ch), ?_⟩
  rw [← hafter, List.append_assoc, List.drop_left]
  exact List.mem_cons_self

theorem asks_faultInjection (hnf : NoFaults world) {onFault rest : P α}
    (h : ∀ log, Asks world log rest ch) : Asks world log (faultInjection onFault rest) ch := by
  obtain ⟨a, ha⟩ := h (log ++ [⟨.faultInjection, world.answer log.length .faultInjection⟩])
  refine ⟨a, ?_⟩
  rw [run_faultInjection hnf]
  rw [List.length_append, ← List.drop_drop] at ha
  exact List.mem_of_mem_drop ha

theorem not_asks_pure (hnf : NoFaults world) (onFault : P α) (x : α) :
    ¬ Asks world log (faultInjection onFault (pure x)) ch := by
  rintro ⟨a, ha⟩
  rw [run_faultInjection hnf, Prog.run_pure, List.drop_left, List.mem_singleton] at ha
  cases ha

end Asks

/-- **Exactly one of the two waits asks the channel of a CQ for events.** -/
theorem asks_one {world : World} (hnf : NoFaults world) {conn : Conn}
    (hw : Wired conn.channel conn.cq conn.rcq) (log : CallLog) {q : Cq}
    (hq : q ∈ cqList conn.cq conn.rcq) :
    Xor (Asks world log (cqWait (some q)) q.channel)
      (Asks world log (connWait (some conn) true true) q.channel) := by
  have hshared : ∀ q ∈ cqList conn.cq conn.rcq, q.sharedCompChannel = conn.channel.isSome := by
    simpa [cqList] using hw.shared
  have hqs := hshared q hq
  unfold cqWait connWait
  cases hch : conn.channel with
  | none =>
    have hown : q.sharedCompChannel = false := by rw [hqs, hch]; rfl
    simp only [hown, hch, Bool.false_eq_true, if_false]
    refine Or.inl ⟨?_, not_asks_pure hnf _ _⟩
    exact asks_faultInjection hnf fun _ => asks_faultInjection hnf fun _ => asks_get _
  | some ch =>
    have hsome : q.sharedCompChannel = true := by rw [hqs, hch]; rfl
    have hqch : q.channel = ch := by
      obtain ⟨h1, h2⟩ := hw.same ch hch
      simp only [cqList, List.mem_cons, Option.mem_toList] at hq
      rcases hq with rfl | hq
      · exact h1
      · exact h2 q hq
    simp only [hsome, hch, if_true, hqch]
    exact Or.inr ⟨asks_faultInjection hnf fun _ => asks_get _, not_asks_pure hnf _ _⟩

/-! ## The result -/

/-- **Completion events are accounted for**: the wiring of a request and of the connection made from
it; and after any run of waits on the connection the acknowledged events are those obtained, for
each CQ, the next `rpma_conn_wait` reports the CQ of its event, and exactly one of the two waits
asks the channel of a CQ. -/
theorem completion_events_accounted (world : World) (peer : Peer) (id : Nat) (cfg : Cfg)
    (edata : Option CmEvent) (args : ConnectArgs) (base : CallLog) (L : Multiset (Tok Obj))
    (hbase : Owned (fun _ => True) {tok .cmId id []} L base) :
    (∀ req log₀, (requestFromId peer id cfg edata).run world.answer base = (.ok req, log₀) →
      Wired req.channel req.cq req.rcq) ∧
    ∀ conn log₀, (connFromId peer id cfg edata args).run world.answer base = (.ok conn, log₀) →
      Wired conn.channel conn.cq conn.rcq ∧
      ∀ ws log, (waits conn ws).run world.answer log₀ = ((), log) →
        (Fair log → ∀ n,
          acksFor n (log.drop log₀.length) = eventsFor n (log.drop log₀.length)) ∧
        (∀ isRcqPtr r log', (connWait (some conn) true isRcqPtr).run world.answer log = (r, log') →
          ReportsRight conn isRcqPtr log r log') ∧
        (NoFaults world → ∀ q ∈ cqList conn.cq conn.rcq,
          Xor (Asks world log (cqWait (some q)) q.channel)
            (Asks world log (connWait (some conn) true true) q.channel)) := by
  refine ⟨fun req log₀ hrun => ?_, fun conn log₀ hrun => ?_⟩
  · obtain ⟨-, hsound⟩ := (equippedRequest_spec cfg edata).of_run hrun hbase
    exact hsound.wired
  · obtain ⟨howned, hw⟩ := (equippedConn_spec cfg edata args).of_run hrun hbase
    refine ⟨hw, fun ws log hlog => ?_⟩
    have hwait := (waiting_waits hw ws).of_run hlog ⟨howned.inv, .refl log₀⟩
    refine ⟨fun hf n => ?_, fun isRcqPtr r log' hr => ?_, fun hnf q hq => asks_one hnf hw log hq⟩
    · obtain ⟨calls, rfl, hcalls⟩ := hwait.2
      rw [List.drop_left]
      simpa using hcalls hf n
    · exact (connWait_reports hw (distinct_cqs howned)).of_run hr
        ⟨⟨[], by simp, by simp, by simp⟩, hwait.1⟩

/-- A world in which every call succeeds and the events of channels are for the CQ `n`. -/
def eventsOf (n : Nat) : World := fun _ =>
  { ok := true, errno := .other, handle := 0, fault := false, event := ⟨.established, none⟩,
    evCq := n, polled := 1 }

/-- A run that has made a CM ID. -/
def idMade (world : World) : CallLog := [⟨.rdmaCreateId, world.answer 0 .rdmaCreateId⟩]

/-- The connection made with a shared completion channel and two CQs, the 5th and the 10th call. -/
def twoCqs : Conn :=
  { ptr := 33, id := 0, qp := 15, evch := 20, cq := ⟨8, 3, true, 5⟩, rcq := some ⟨13, 3, true, 10⟩,
    channel := some 3, data := .empty, flush := ⟨24, ⟨32, 27, ⟨29, 31⟩⟩⟩,
    directWriteToPmem := false }

def twoCqsRun : Except Int Conn × CallLog :=
  (connFromId ⟨true, true⟩ 0 ⟨1000, 10, 10, true⟩ none ⟨true, none⟩).run (eventsOf 10).answer
    (idMade (eventsOf 10))

/-- Its receive CQ gets an event, and then another one, which `rpma_conn_wait` reports. -/
theorem completion_events_accounted_shared :
    ∃ log log', (waits twoCqs [.conn true true]).run (eventsOf 10).answer twoCqsRun.2 = ((), log) ∧
      Fair log ∧ eventsFor 10 (log.drop twoCqsRun.2.length) = 1 ∧
      acksFor 10 (log.drop twoCqsRun.2.length) = 1 ∧
      (connWait (some twoCqs) true true).run (eventsOf 10).answer log =
        (⟨0, .obj ⟨13, 3, true, 10⟩, some true⟩, log') ∧ Fair log' ∧
      ReportsRight twoCqs true log ⟨0, .obj ⟨13, 3, true, 10⟩, some true⟩ log' := by
  have hbase : Owned (fun _ => True) {tok .cmId 0 []} 0 (idMade (eventsOf 10)) :=
    ⟨.acquire .nil rfl (by simp), by simp, trivial⟩
  have hmade : twoCqsRun.1 = .ok twoCqs := by decide +kernel
  have hfair : Fair ((waits twoCqs [.conn true true]).run (eventsOf 10).answer twoCqsRun.2).2 := by
    decide +kernel
  have hevents : eventsFor 10 (((waits twoCqs [.conn true true]).run (eventsOf 10).answer
      twoCqsRun.2).2.drop twoCqsRun.2.length) = 1 := by
    decide +kernel
  have hnext : ((connWait (some twoCqs) true true).run (eventsOf 10).answer
      ((waits twoCqs [.conn true true]).run (eventsOf 10).answer twoCqsRun.2).2).1 =
        ⟨0, .obj ⟨13, 3, true, 10⟩, some true⟩ := by
    decide +kernel
  obtain ⟨-, hconn⟩ := completion_events_accounted (eventsOf 10) ⟨true, true⟩ 0
    ⟨1000, 10, 10, true⟩ none ⟨true, none⟩ _ 0 hbase
  obtain ⟨-, hwaits⟩ := hconn twoCqs twoCqsRun.2 (Prod.ext hmade rfl)
  obtain ⟨hacks, hreports, -⟩ := hwaits [.conn true true] _ (Prod.ext (Subsingleton.elim _ _) rfl)
  exact ⟨_, _, Prod.ext (Subsingleton.elim _ _) rfl, hfair, hevents,
    (hacks hfair 10).trans hevents, Prod.ext hnext rfl, by decide +kernel,
    hreports true _ _ (Prod.ext hnext rfl)⟩

end Rpma.Librpma
