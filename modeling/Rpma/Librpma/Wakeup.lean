import Rpma.Lib.Interleave
import Rpma.Librpma.Events

/-!
# No completion is missed: get the event, arm again, then drain

Completions arrive in the CQs at any time, also between two calls that librpma makes for the user.
`Verbs` is the state of the CQs and their channels: an armed CQ turns its next completion into one
event on its channel and is then disarmed, until `ibv_req_notify_cq`. The user calls the waits, and
drains the CQ that a successful wait was for.

The invariant `Awake` names the one CQ that need not be armed (between `ibv_get_cq_event` and
`ibv_req_notify_cq`) and the one CQ that may hold completions without an event (from there on, until
it is drained). It holds when the connection is made, since every CQ is armed before its QP exists.

* **`no_lost_wakeup`**: between two user calls each CQ is armed or has an undelivered event, and
  when the user is about to wait, every CQ that holds a completion has one.
-/

namespace Rpma.Librpma

open Rpma.Lib Rpma.Lib.Ledger Relation

/-! ## Completion queues and channels -/

/-- The CQs and their completion channels. -/
structure Verbs where
  channel : Nat → Option Nat
  /-- The number of completions in a CQ. -/
  holds : Nat → Nat
  armed : Nat → Bool
  /-- The undelivered events of a channel, each by its CQ, the oldest first. -/
  pending : Nat → List Nat

/-- `ibv_req_notify_cq` of the CQ `n` has succeeded. -/
def notified (log : CallLog) (n : Nat) : Bool :=
  log.any fun
    | ⟨.ibvReqNotifyCq n', a⟩ => decide (n' = n) && a.ok
    | _ => false

/-- After the calls of `log`, before any completion. -/
def Verbs.ofLog (log : CallLog) : Verbs where
  channel := channelOf log
  holds _ := 0
  armed := notified log
  pending _ := []

/-- A completion arrives in the CQ `n`. -/
def Verbs.complete (v : Verbs) (n : Nat) : Verbs :=
  let v := { v with holds := Function.update v.holds n (v.holds n + 1) }
  match v.armed n, v.channel n with
  | true, some ch =>
    { v with
      armed := Function.update v.armed n false
      pending := Function.update v.pending ch (v.pending ch ++ [n]) }
  | _, _ => v

/-- The events of the outside: a completion arrives in some CQ. -/
def Verbs.Moves (v v' : Verbs) : Prop := ∃ n, v' = v.complete n

/-- The calls that the waits and `rpma_cq_get_wc` make, when all of them succeed;
`ibv_get_cq_event` returns once there is an event. -/
inductive Verbs.Answers : Verbs → Call → Answer → Verbs → Prop
  | faultInjection (v : Verbs) {a : Answer} (hfault : a.fault = false) :
      Answers v .faultInjection a v
  | getCqEvent (v : Verbs) {a : Answer} {ch : Nat} {rest : List Nat} (hok : a.ok = true)
      (hevent : v.pending ch = a.evCq :: rest) :
      Answers v (.ibvGetCqEvent ch) a { v with pending := Function.update v.pending ch rest }
  | ackCqEvents (v : Verbs) {a : Answer} {n nevents : Nat} :
      Answers v (.ibvAckCqEvents n nevents) a v
  | reqNotifyCq (v : Verbs) {a : Answer} {n : Nat} (hok : a.ok = true) :
      Answers v (.ibvReqNotifyCq n) a { v with armed := Function.update v.armed n true }
  | pollCq (v : Verbs) {a : Answer} {n : Nat} {num : Int}
      (hpolled : a.polled = min num (v.holds n)) :
      Answers v (.ibvPollCq n num) a
        { v with holds := Function.update v.holds n (v.holds n - a.polled.toNat) }

/-! ## The user -/

/-- Where the user is between two calls: about to wait, or draining a CQ after a wait. -/
inductive User where
  | ready
  | draining (cq : Cq)
  deriving DecidableEq

/-- After a successful wait the user drains the CQ it was for. -/
def Wait.thenDrain (conn : Conn) : Wait → P User
  | .cq => do
    let ret ← cqWait (some conn.cq)
    return if ret = 0 then .draining conn.cq else .ready
  | .rcq => do
    let ret ← cqWait conn.rcq
    match conn.rcq with
    | some q => return if ret = 0 then .draining q else .ready
    | none => return .ready
  | .conn cqPtr isRcqPtr => do
    let r ← connWait (some conn) cqPtr isRcqPtr
    match r.cq with
    | .obj q => return if r.ret = 0 then .draining q else .ready
    | _ => return .ready

/-- A call of `rpma_cq_get_wc`; with `RPMA_E_NO_COMPLETION` the CQ that was to be drained is. -/
def User.getWc (user : User) (cq : Option Cq) (numEntries : Int) (wc gotPtr : Bool) : P User := do
  let r ← cqGetWc cq numEntries wc gotPtr
  match user, cq with
  | .draining q, some cq => return if r.1 = rpmaENoCompletion ∧ cq = q then .ready else user
  | _, _ => return user

/-- What the user may call: any of the waits unless a CQ is to be drained, and `rpma_cq_get_wc` at
any time. -/
inductive User.Calls (conn : Conn) : User → P User → Prop
  | wait (w : Wait) : Calls conn .ready (w.thenDrain conn)
  | getWc (user : User) (cq : Option Cq) (numEntries : Int) (wc gotPtr : Bool) :
      Calls conn user (user.getWc cq numEntries wc gotPtr)

/-- A step of the user's run: of the program of the present call or of the outside, or the next user
call. -/
inductive UserStep (conn : Conn) : Verbs × P User → Verbs × P User → Prop
  | inside {c c' : Verbs × P User} (h : Step Verbs.Answers Verbs.Moves c c') : UserStep conn c c'
  | next {v : Verbs} {user : User} {p : P User} (h : user.Calls conn p) :
      UserStep conn (v, .pure user) (v, p)

/-! ## The invariant -/

/-- **Each CQ but `unarmed` is armed or has an undelivered event, and each CQ but `undrained` has an
undelivered event if it holds a completion.** -/
structure Awake (cqs : List Cq) (unarmed undrained : Option Nat) (v : Verbs) : Prop where
  made : ∀ q ∈ cqs, v.channel q.cq = some q.channel
  own : ∀ n ch, v.channel n = some ch → (∃ q ∈ cqs, q.channel = ch) →
    ∃ q ∈ cqs, q.cq = n ∧ q.channel = ch
  on_channel : ∀ ch, ∀ n ∈ v.pending ch, v.channel n = some ch
  awake : ∀ q ∈ cqs, unarmed ≠ some q.cq → v.armed q.cq = true ∨ q.cq ∈ v.pending q.channel
  seen : ∀ q ∈ cqs, undrained ≠ some q.cq → 0 < v.holds q.cq → q.cq ∈ v.pending q.channel
  sub : ∀ n ∈ unarmed, undrained = some n

section Awake

variable {cqs : List Cq} {unarmed undrained : Option Nat} {v : Verbs}

@[simp] theorem Verbs.complete_channel (v : Verbs) (n : Nat) :
    (v.complete n).channel = v.channel := by
  unfold complete
  dsimp only
  split <;> rfl

@[simp] theorem Verbs.complete_holds (v : Verbs) (n : Nat) :
    (v.complete n).holds = Function.update v.holds n (v.holds n + 1) := by
  unfold complete
  dsimp only
  split <;> rfl

/-- A CQ is armed or has an event. -/
theorem Verbs.complete_of_armed {n ch : Nat} (hch : v.channel n = some ch)
    (ha : v.armed n = true) : n ∈ (v.complete n).pending ch := by
  simp [complete, ha, hch]

theorem Verbs.mem_pending_complete {n k ch : Nat} (hk : k ∈ v.pending ch) :
    k ∈ (v.complete n).pending ch := by
  unfold complete
  dsimp only
  split
  · rename_i ch' _ _
    by_cases heq : ch = ch'
    · subst heq
      simp [hk]
    · simpa [heq] using hk
  · exact hk

theorem Verbs.complete_armed_of_ne {n k : Nat} (hk : k ≠ n) :
    (v.complete n).armed k = v.armed k := by
  unfold complete
  dsimp only
  split
  · simp [hk]
  · rfl

/-- A new event is for the CQ of the completion. -/
theorem Verbs.of_mem_pending_complete {n k ch : Nat} (hk : k ∈ (v.complete n).pending ch) :
    k ∈ v.pending ch ∨ v.channel k = some ch := by
  unfold complete at hk
  dsimp only at hk
  split at hk
  · rename_i ch' _ hch
    by_cases heq : ch = ch'
    · subst heq
      simp only [Function.update_self, List.mem_append, List.mem_singleton] at hk
      rcases hk with hk | rfl
      · exact Or.inl hk
      · exact Or.inr hch
    · dsimp only at hk
      rw [Function.update_of_ne heq] at hk
      exact Or.inl hk
  · exact Or.inl hk

/-- **Completions keep the invariant**, whichever CQs are excepted. -/
theorem awake_unmoved : Unmoved Verbs.Moves (Awake cqs unarmed undrained) := by
  rintro v _ ⟨n, rfl⟩ h
  have hawake : ∀ q ∈ cqs, unarmed ≠ some q.cq →
      (v.complete n).armed q.cq = true ∨ q.cq ∈ (v.complete n).pending q.channel := by
    intro q hq hne
    rcases h.awake q hq hne with ha | hp
    · by_cases heq : q.cq = n
      · exact Or.inr (heq ▸ Verbs.complete_of_armed (heq ▸ h.made q hq) (heq ▸ ha))
      · exact Or.inl ((Verbs.complete_armed_of_ne heq).trans ha)
    · exact Or.inr (Verbs.mem_pending_complete hp)
  refine ⟨by simpa using h.made, by simpa using h.own, fun ch k hk => ?_, hawake,
    fun q hq hne hpos => ?_, h.sub⟩
  · rw [Verbs.complete_channel]
    exact (Verbs.of_mem_pending_complete hk).elim (h.on_channel ch k) id
  · by_cases heq : q.cq = n
    · -- the CQ that gets the completion is not excepted, so it was armed or had an event
      have hna : unarmed ≠ some q.cq := fun hu => hne (h.sub q.cq hu)
      rcases h.awake q hq hna with ha | hp
      · exact heq ▸ Verbs.complete_of_armed (heq ▸ h.made q hq) (heq ▸ ha)
      · exact Verbs.mem_pending_complete hp
    · rw [Verbs.complete_holds, Function.update_of_ne heq] at hpos
      exact Verbs.mem_pending_complete (h.seen q hq hne hpos)

/-- The first event of a channel is taken. -/
theorem Awake.take {ch n : Nat} {rest : List Nat} (h : Awake cqs none none v)
    (hevent : v.pending ch = n :: rest) :
    Awake cqs (some n) (some n) { v with pending := Function.update v.pending ch rest } := by
  -- only the event of `n` has gone
  have hkept : ∀ k ch', n ≠ k → k ∈ v.pending ch' → k ∈ Function.update v.pending ch rest ch' := by
    intro k ch' hne hk
    by_cases heq : ch' = ch
    · subst heq
      rw [hevent, List.mem_cons] at hk
      rw [Function.update_self]
      exact hk.resolve_left (Ne.symm hne)
    · rwa [Function.update_of_ne heq]
  have hold : ∀ k ch', k ∈ Function.update v.pending ch rest ch' → k ∈ v.pending ch' := by
    intro k ch' hk
    by_cases heq : ch' = ch
    · subst heq
      rw [Function.update_self] at hk
      exact hevent ▸ List.mem_cons_of_mem n hk
    · rwa [Function.update_of_ne heq] at hk
  refine ⟨h.made, h.own, fun ch' k hk => h.on_channel ch' k (hold k ch' hk), fun q hq hne => ?_,
    fun q hq hne hpos => ?_, fun k hk => hk⟩
  · exact (h.awake q hq (by simp)).imp_right (hkept q.cq q.channel (by simpa using hne))
  · exact hkept q.cq q.channel (by simpa using hne) (h.seen q hq (by simp) hpos)

/-- The CQ is armed again. -/
theorem Awake.arm {n : Nat} (h : Awake cqs (some n) (some n) v) :
    Awake cqs none (some n) { v with armed := Function.update v.armed n true } := by
  refine ⟨h.made, h.own, h.on_channel, fun q hq _ => ?_, h.seen, by simp⟩
  by_cases heq : q.cq = n
  · simp [heq]
  · dsimp only
    rw [Function.update_of_ne heq]
    exact h.awake q hq (by simpa using Ne.symm heq)

/-- Completions are taken out of a CQ. -/
theorem Awake.poll {n k : Nat} (h : Awake cqs none undrained v) :
    Awake cqs none undrained { v with holds := Function.update v.holds n (v.holds n - k) } := by
  refine ⟨h.made, h.own, h.on_channel, h.awake, fun q hq hne hpos => h.seen q hq hne ?_, by simp⟩
  dsimp only at hpos
  by_cases heq : q.cq = n
  · rw [heq, Function.update_self] at hpos
    rw [heq]
    omega
  · rwa [Function.update_of_ne heq] at hpos

/-- A CQ that is found empty has been drained. -/
theorem Awake.drained {n : Nat} (h : Awake cqs none (some n) v) (hn : v.holds n = 0) :
    Awake cqs none none v := by
  refine ⟨h.made, h.own, h.on_channel, h.awake, fun q hq _ hpos => h.seen q hq ?_ hpos, by simp⟩
  rintro heq
  cases heq
  omega

theorem Awake.weaken (h : Awake cqs none none v) : Awake cqs none undrained v :=
  ⟨h.made, h.own, h.on_channel, h.awake, fun q hq _ hpos => h.seen q hq (by simp) hpos, by simp⟩

end Awake

/-! ## The calls -/

section Calls

variable {cqs : List Cq} {unarmed undrained : Option Nat} {α : Type}

/-- `m` leads from `A` to `B`, with completions arriving at any time. -/
abbrev Leads (A : Verbs → Prop) (m : P α) (B : α → Verbs → Prop) : Prop :=
  Under Verbs.Answers Verbs.Moves A m B

theorem leads_faultInjection {A : Verbs → Prop} (hA : Unmoved Verbs.Moves A) {onFault rest : P α}
    {B : α → Verbs → Prop} (h : Leads A rest B) : Leads A (faultInjection onFault rest) B := by
  have hissue : Leads A (Prog.issue .faultInjection) fun a v => A v ∧ a.fault = false := by
    refine .issue hA (fun a => hA.and_pure _) fun v a v' hv ha => ?_
    cases ha with
    | faultInjection hfault => exact ⟨hv, hfault⟩
  refine hissue.bind fun a => .and_pure fun hfault => ?_
  rwa [hfault]

theorem awake_faultInjection {onFault rest : P α} {B : α → Verbs → Prop}
    (h : Leads (Awake cqs unarmed undrained) rest B) :
    Leads (Awake cqs unarmed undrained) (faultInjection onFault rest) B :=
  leads_faultInjection awake_unmoved h

theorem awake_pure {a : α} {B : α → Verbs → Prop} (h : ∀ v, Awake cqs unarmed undrained v → B a v) :
    Leads (Awake cqs unarmed undrained) (pure a) B := .pure awake_unmoved h

/-- The event is for a CQ of the channel. -/
theorem awake_get {ch : Nat} (hch : ∃ q ∈ cqs, q.channel = ch) :
    Leads (Awake cqs none none) (Prog.issue (.ibvGetCqEvent ch)) fun a v =>
      Awake cqs (some a.evCq) (some a.evCq) v ∧
        (a.ok = true ∧ ∃ q ∈ cqs, q.cq = a.evCq ∧ q.channel = ch) := by
  refine .issue awake_unmoved (fun a => awake_unmoved.and_pure _) fun v a v' hv ha => ?_
  cases ha with
  | getCqEvent hok hevent =>
    have hchannel := hv.on_channel ch a.evCq (hevent ▸ List.mem_cons_self)
    exact ⟨hv.take hevent, hok, hv.own _ _ hchannel hch⟩

theorem awake_ack (n k : Nat) :
    Leads (Awake cqs unarmed undrained) (exec (.ibvAckCqEvents n k))
      fun _ => Awake cqs unarmed undrained := by
  refine Under.bind (B := fun _ => Awake cqs unarmed undrained)
    (.issue awake_unmoved (fun _ => awake_unmoved) fun v a v' hv ha => ?_)
    fun _ => awake_pure fun _ h => h
  cases ha with
  | ackCqEvents => exact hv

theorem awake_notify (n : Nat) :
    Leads (Awake cqs (some n) (some n)) (check (.ibvReqNotifyCq n)) fun ok v =>
      Awake cqs none (some n) v ∧ ok = true := by
  have hissue : Leads (Awake cqs (some n) (some n)) (Prog.issue (.ibvReqNotifyCq n)) fun a v =>
      Awake cqs none (some n) v ∧ a.ok = true := by
    refine .issue awake_unmoved (fun a => awake_unmoved.and_pure _) fun v a v' hv ha => ?_
    cases ha with
    | reqNotifyCq hok => exact ⟨hv.arm, hok⟩
  exact hissue.bind fun a => .pure (awake_unmoved.and_pure _) fun _ h => h

/-- `ibv_poll_cq`: if it finds nothing, the CQ is empty. -/
theorem awake_poll (n : Nat) {num : Int} (hnum : 1 ≤ num) :
    Leads (Awake cqs none undrained) (Prog.issue (.ibvPollCq n num)) fun a =>
      Awake cqs none (if a.polled = 0 ∧ undrained = some n then none else undrained) := by
  refine .issue awake_unmoved (fun a => awake_unmoved) fun v a v' hv ha => ?_
  cases ha with
  | pollCq hpolled =>
    split
    · rename_i hzero
      have hempty : v.holds n = 0 := by omega
      refine Awake.drained (n := n) (hzero.2 ▸ hv.poll) ?_
      simp [hempty]
    · exact hv.poll

/-! ### The waits -/

/-- After a wait: the CQ it was for is to be drained. -/
def AfterWait (cqs : List Cq) (q : Cq) (ret : Int) (v : Verbs) : Prop :=
  Awake cqs none (if ret = 0 then some q.cq else none) v

theorem awake_cqWaitOwn {q : Cq} (hq : q ∈ cqs)
    (hown : ∀ q' ∈ cqs, q'.channel = q.channel → q'.cq = q.cq) :
    Leads (Awake cqs none none) (cqWaitOwn q) (AfterWait cqs q) := by
  refine awake_faultInjection ((awake_get ⟨q, hq, rfl⟩).bind fun a => .and_pure ?_)
  rintro ⟨hok, q', hq', hcq, hch⟩
  have hev : a.evCq = q.cq := hcq.symm.trans (hown q' hq' hch)
  rw [if_pos hok, hev]
  refine (awake_ack q.cq 1).bind fun _ => awake_faultInjection ?_
  refine (awake_notify q.cq).bind fun ok => .and_pure fun hok => ?_
  rw [if_pos hok]
  exact awake_pure fun _ h => h

/-- **`rpma_cq_wait`**. -/
theorem awake_cqWait {channel : Option Nat} {cq : Cq} {rcq : Option Cq}
    (hw : Wired channel cq rcq) {q : Cq} (hq : q ∈ cqList cq rcq) :
    Leads (Awake (cqList cq rcq) none none) (cqWait (some q)) (AfterWait (cqList cq rcq) q) := by
  refine awake_faultInjection ?_
  dsimp only
  split
  · exact awake_pure fun _ h => h
  · rename_i hs
    exact awake_cqWaitOwn hq (hw.own_channel hq (by simpa using hs))

/-- After `rpma_conn_wait`: with success the CQ it returns is to be drained. -/
def AfterConnWait (conn : Conn) (r : Waited) (v : Verbs) : Prop :=
  Awake (cqList conn.cq conn.rcq) none
    (match r.cq with
      | .obj q => if r.ret = 0 then some q.cq else none
      | _ => none) v

/-- **`rpma_conn_wait`**. -/
theorem awake_connWait {conn : Conn} (hw : Wired conn.channel conn.cq conn.rcq)
    (cqPtr isRcqPtr : Bool) :
    Leads (Awake (cqList conn.cq conn.rcq) none none) (connWait (some conn) cqPtr isRcqPtr)
      (AfterConnWait conn) := by
  refine awake_faultInjection ?_
  cases cqPtr with
  | false => exact awake_pure fun _ h => h
  | true =>
    dsimp only
    split
    · exact awake_pure fun _ h => h
    · rename_i ch hch
      refine (awake_get ⟨conn.cq, by simp [cqList], (hw.same ch hch).1⟩).bind fun a => .and_pure ?_
      rintro ⟨hok, q', hq', hcq, -⟩
      rw [if_pos hok]
      cases hev : eventCq conn a.evCq with
      | none => exact absurd hev (eventCq_isSome ⟨q', hq', hcq⟩)
      | some p =>
        obtain ⟨q, isRcq⟩ := p
        refine (awake_ack a.evCq 1).bind fun _ => awake_faultInjection ?_
        refine (awake_notify a.evCq).bind fun ok => .and_pure fun hok => ?_
        rw [if_pos hok, ← (eventCq_eq_some hev).2]
        exact awake_pure fun _ h => h

/-! ### `rpma_cq_get_wc` -/

/-- **`rpma_cq_get_wc`**: the CQ is drained once there is no completion. -/
theorem awake_cqGetWc (q : Cq) (num : Int) (wc gotPtr : Bool) :
    Leads (Awake cqs none undrained) (cqGetWc (some q) num wc gotPtr) fun r =>
      Awake cqs none
        (if r.1 = rpmaENoCompletion ∧ undrained = some q.cq then none else undrained) := by
  refine awake_faultInjection ?_
  dsimp only
  split
  · exact awake_pure fun _ h => h
  · rename_i hargs
    have hnum : 1 ≤ num := by omega
    refine awake_faultInjection ((awake_poll q.cq hnum).bind fun a => ?_)
    by_cases hzero : a.polled = 0
    · rw [if_pos hzero]
      exact awake_pure fun _ h => by simpa [hzero] using h
    · rw [if_neg hzero, if_neg fun h => hzero h.1]
      split
      · exact awake_pure fun _ h => h
      · split
        · exact awake_pure fun _ h => h
        · exact awake_faultInjection (awake_faultInjection (awake_pure fun _ h => h))

end Calls

/-! ## Runs -/

/-- The CQ that is to be drained. -/
def User.undrained : User → Option Nat
  | .ready => none
  | .draining q => some q.cq

@[simp] theorem User.undrained_ready : User.ready.undrained = none := rfl

@[simp] theorem User.undrained_draining (q : Cq) : (User.draining q).undrained = some q.cq := rfl

/-- The invariant between two user calls. -/
def User.Inv (conn : Conn) (user : User) (v : Verbs) : Prop :=
  Awake (cqList conn.cq conn.rcq) none user.undrained v

theorem User.inv_unmoved {conn : Conn} (user : User) : Unmoved Verbs.Moves (user.Inv conn) :=
  awake_unmoved

theorem inv_wait {conn : Conn} (hw : Wired conn.channel conn.cq conn.rcq) (w : Wait) :
    Leads (User.Inv conn .ready) (w.thenDrain conn) (User.Inv conn) := by
  have hret : ∀ (q : Cq) (ret : Int), Leads (AfterWait (cqList conn.cq conn.rcq) q ret)
      (pure (if ret = 0 then User.draining q else .ready)) (User.Inv conn) := by
    intro q ret
    refine awake_pure fun _ h => ?_
    by_cases hok : ret = 0 <;> simpa [AfterWait, User.Inv, hok] using h
  have hready : Leads (User.Inv conn .ready) (pure User.ready) (User.Inv conn) :=
    .pure (User.inv_unmoved _) fun _ h => h
  cases w with
  | cq => exact (awake_cqWait hw (by simp [cqList])).bind fun ret => hret conn.cq ret
  | rcq =>
    cases hr : conn.rcq with
    | none =>
      simp only [Wait.thenDrain, hr]
      exact Under.bind (B := fun _ => User.Inv conn .ready)
        (awake_faultInjection (awake_pure fun _ h => h)) fun _ => hready
    | some q =>
      simp only [Wait.thenDrain, hr]
      exact (awake_cqWait hw (by simp [cqList, hr])).bind fun ret => hret q ret
  | conn cqPtr isRcqPtr =>
    refine (awake_connWait hw cqPtr isRcqPtr).bind fun r => ?_
    cases hq : r.cq with
    | untouched =>
      refine hready.conseq (fun _ h => ?_) fun _ _ h => h
      simpa [AfterConnWait, User.Inv, hq] using h
    | null =>
      refine hready.conseq (fun _ h => ?_) fun _ _ h => h
      simpa [AfterConnWait, User.Inv, hq] using h
    | obj q =>
      refine (hret q r.ret).conseq (fun _ h => ?_) fun _ _ h => h
      simpa [AfterWait, AfterConnWait, hq] using h

theorem inv_getWc {conn : Conn} (user : User) (cq : Option Cq) (num : Int) (wc gotPtr : Bool) :
    Leads (user.Inv conn) (user.getWc cq num wc gotPtr) (User.Inv conn) := by
  cases cq with
  | none =>
    refine Under.bind (B := fun _ => user.Inv conn)
      (awake_faultInjection (awake_pure fun _ h => h)) fun r => ?_
    cases user <;> exact .pure (User.inv_unmoved _) fun _ h => h
  | some q =>
    refine (awake_cqGetWc q num wc gotPtr).bind fun r => ?_
    cases user with
    | ready => exact awake_pure fun _ h => by simpa [User.Inv] using h
    | draining q' =>
      refine awake_pure fun _ h => ?_
      by_cases hdone : r.1 = rpmaENoCompletion ∧ q = q'
      · obtain ⟨hret, rfl⟩ := hdone
        simpa [User.Inv, hret] using h
      · rw [if_neg hdone]
        split at h
        · exact h.weaken
        · exact h

/-- Whatever the user calls keeps the invariant. -/
theorem inv_calls {conn : Conn} (hw : Wired conn.channel conn.cq conn.rcq) {user : User}
    {p : P User} (h : user.Calls conn p) : Leads (user.Inv conn) p (User.Inv conn) := by
  cases h with
  | wait w => exact inv_wait hw w
  | getWc user cq num wc gotPtr => exact inv_getWc user cq num wc gotPtr

/-- A run of the user. -/
def Runs (conn : Conn) : Verbs × P User → Verbs × P User → Prop := ReflTransGen (UserStep conn)

/-- **Every step of the user's run is towards the invariant.** -/
theorem safe_runs {conn : Conn} (hw : Wired conn.channel conn.cq conn.rcq) {c c' : Verbs × P User}
    (h : Runs conn c c') (hc : Safe Verbs.Answers Verbs.Moves (User.Inv conn) c.2 c.1) :
    Safe Verbs.Answers Verbs.Moves (User.Inv conn) c'.2 c'.1 := by
  induction h with
  | refl => exact hc
  | tail _ hstep ih =>
    cases hstep with
    | inside hstep => exact ih.step hstep
    | next hcall => exact inv_calls hw hcall _ (ih _ .refl)

/-- The invariant holds when the connection has been made. -/
theorem inv_made {conn : Conn} {log : CallLog} (h : Equipped (cqList conn.cq conn.rcq) log) :
    User.Inv conn .ready (.ofLog log) := by
  refine ⟨fun q hq => channelOf_eq_some.mpr (h.made q hq),
    fun n ch hn => h.own n ch (channelOf_eq_some.mp hn), by simp [Verbs.ofLog], fun q hq _ => ?_,
    by simp [Verbs.ofLog], by simp⟩
  obtain ⟨a, ha, hok⟩ := h.armed q hq
  refine Or.inl (List.any_eq_true.mpr ⟨_, ha, ?_⟩)
  simp [hok]

/-- **No lost wake-up**: however completions arrive in between, in every state of a run between two
user calls each CQ of the connection is armed or has an undelivered event on its channel, and when
the user is about to wait, so has each CQ that holds a completion. -/
theorem no_lost_wakeup (world : World) (peer : Peer) (id : Nat) (cfg : Cfg)
    (edata : Option CmEvent) (args : ConnectArgs) (base : CallLog) (L : Multiset (Tok Obj))
    (hbase : Owned (fun _ => True) {tok .cmId id []} L base) (conn : Conn) (log : CallLog)
    (hrun : (connFromId peer id cfg edata args).run world.answer base = (.ok conn, log))
    (v : Verbs) (user : User) (hruns : Runs conn (.ofLog log, .pure .ready) (v, .pure user)) :
    (∀ q ∈ cqList conn.cq conn.rcq, v.armed q.cq = true ∨ q.cq ∈ v.pending q.channel) ∧
      (user = .ready → ∀ q ∈ cqList conn.cq conn.rcq, 0 < v.holds q.cq →
        q.cq ∈ v.pending q.channel) := by
  obtain ⟨howned, hw⟩ := (equippedConn_spec cfg edata args).of_run hrun hbase
  have hstart : Safe Verbs.Answers Verbs.Moves (User.Inv conn) (.pure .ready) (.ofLog log) :=
    fun v' hv' => (User.inv_unmoved _).star hv' (inv_made howned.inv)
  have hinv : user.Inv conn v := safe_runs hw hruns hstart v .refl
  refine ⟨fun q hq => hinv.awake q hq (by simp), ?_⟩
  rintro rfl q hq hpos
  exact hinv.seen q hq (by simp) hpos

/-! ## Running the user -/

/-- What a successful call answers where it looks at nothing else. -/
def served : Answer :=
  { ok := true, errno := .other, handle := 0, fault := false, event := ⟨.established, none⟩,
    evCq := 0, polled := 0 }

/-- The answer to a call, and what it does, unless it blocks. -/
def Verbs.serve (v : Verbs) : Call → Option (Answer × Verbs)
  | .faultInjection => some (served, v)
  | .ibvGetCqEvent ch =>
    match v.pending ch with
    | [] => none
    | n :: rest =>
      some ({ served with evCq := n }, { v with pending := Function.update v.pending ch rest })
  | .ibvAckCqEvents _ _ => some (served, v)
  | .ibvReqNotifyCq n => some (served, { v with armed := Function.update v.armed n true })
  | .ibvPollCq n num =>
    let polled := min num (v.holds n)
    some ({ served with polled := polled },
      { v with holds := Function.update v.holds n (v.holds n - polled.toNat) })
  | _ => none

theorem answers_of_serve {v v' : Verbs} {c : Call} {a : Answer} (h : v.serve c = some (a, v')) :
    v.Answers c a v' := by
  unfold Verbs.serve at h
  split at h
  · cases h
    exact .faultInjection v rfl
  · split at h
    · cases h
    · cases h
      exact .getCqEvent v rfl ‹_›
  · cases h
    exact .ackCqEvents v
  · cases h
    exact .reqNotifyCq v rfl
  · cases h
    exact .pollCq v rfl
  · cases h

/-- A user call without completions arriving during it, unless it blocks. -/
def Verbs.serves {α : Type} : P α → Verbs → Option (α × Verbs)
  | .pure a, v => some (a, v)
  | .call c k, v => (v.serve c).bind fun r => Verbs.serves (k r.1) r.2

theorem runs_of_serves {conn : Conn} {p : P User} {v v' : Verbs} {user : User}
    (h : Verbs.serves p v = some (user, v')) : Runs conn (v, p) (v', .pure user) := by
  induction p generalizing v with
  | pure a =>
    cases h
    exact .refl
  | call c k ih =>
    obtain ⟨⟨a, v₁⟩, hserve, hrest⟩ := Option.bind_eq_some_iff.mp h
    exact .head (.inside (.call (answers_of_serve hserve))) (ih a hrest)

/-- The user calls `p` next. -/
theorem runs_call {conn : Conn} {c : Verbs × P User} {v v' : Verbs} {user user' : User} {p : P User}
    (hc : Runs conn c (v, .pure user)) (hp : user.Calls conn p)
    (h : Verbs.serves p v = some (user', v')) : Runs conn c (v', .pure user') :=
  (hc.tail (.next hp)).trans (runs_of_serves h)

/-- The receive CQ of `twoCqs`. -/
def rcqOfTwo : Cq := ⟨13, 3, true, 10⟩

/-- After a wait for the first completion of a CQ and two calls of `rpma_cq_get_wc`. -/
def waitedAndDrained (v : Verbs) : Option (User × Verbs) := do
  let (user, v) ← Verbs.serves ((Wait.conn true true).thenDrain twoCqs) (v.complete 10)
  let (user, v) ← Verbs.serves (user.getWc (some rcqOfTwo) 1 true true) v
  Verbs.serves (user.getWc (some rcqOfTwo) 1 true true) v

/-- A completion arrives in the receive CQ, the user waits for it and drains the CQ, another one
arrives, and the user is about to wait again. -/
theorem no_lost_wakeup_shared : ∃ v,
    waitedAndDrained (.ofLog twoCqsRun.2) = some (.ready, v) ∧ v.pending 3 = [] ∧
      0 < (v.complete 10).holds 10 ∧ 10 ∈ (v.complete 10).pending 3 := by
  have hbase : Owned (fun _ => True) {tok .cmId 0 []} 0 (idMade (eventsOf 10)) :=
    ⟨.acquire .nil rfl (by simp), by simp, trivial⟩
  have hmade : twoCqsRun.1 = .ok twoCqs := by decide +kernel
  obtain ⟨v, hrun, hnone⟩ : ∃ v, waitedAndDrained (.ofLog twoCqsRun.2) = some (.ready, v) ∧
      v.pending 3 = [] := ⟨_, rfl, rfl⟩
  have hruns : Runs twoCqs (.ofLog twoCqsRun.2, .pure .ready) (v.complete 10, .pure .ready) := by
    unfold waitedAndDrained at hrun
    obtain ⟨⟨user₁, v₁⟩, hwait, hrest⟩ := Option.bind_eq_some_iff.mp hrun
    obtain ⟨⟨user₂, v₂⟩, hpoll, hdrain⟩ := Option.bind_eq_some_iff.mp hrest
    have hfirst : Runs twoCqs (.ofLog twoCqsRun.2, .pure .ready)
        ((Verbs.ofLog twoCqsRun.2).complete 10, .pure .ready) := .single (.inside (.move ⟨10, rfl⟩))
    have hwaited := runs_call hfirst (.wait _) hwait
    have hpolled := runs_call hwaited (.getWc _ _ _ _ _) hpoll
    exact (runs_call hpolled (.getWc _ _ _ _ _) hdrain).tail (.inside (.move ⟨10, rfl⟩))
  obtain ⟨-, hready⟩ := no_lost_wakeup (eventsOf 10) ⟨true, true⟩ 0 ⟨1000, 10, 10, true⟩ none
    ⟨true, none⟩ _ 0 hbase twoCqs twoCqsRun.2 (Prod.ext hmade rfl) _ .ready hruns
  have hholds : 0 < (v.complete 10).holds 10 := by simp
  exact ⟨v, hrun, hnone, hholds, hready rfl rcqOfTwo (by decide) hholds⟩

end Rpma.Librpma
