import Rpma.PingPong.Turns

/-!
# Every run of the ping-pong ends, with every value exchanged

* **`ping_pong_in_step`**: in every reachable state nothing has failed, each message under way finds
  a posted receive, and both outputs are what they should be so far.
* **`ping_pong_outcome`**: where the system can go no further, the client is done exactly when none
  of the values it was to send was `I_M_DONE`; otherwise it waits for an answer to `I_M_DONE`. The
  server is done, unless the client's disconnect has flushed the `I_M_DONE` that it waits for.
* **`ping_pong_bound`**: no run has more than `25 * total + 9` steps.
-/

namespace Rpma.PingPong

open Rpma.Lib Rpma.Librpma Relation

variable {s s' : State} {seed rounds : UInt64} {total n k : Nat}

/-! ## No message meets an end that is not ready -/

theorem ServerPc.receives_of_turn {pc : ServerPc} (h : pc.turn = 0) :
    ∃ g, pc.receives = some g := by
  cases pc <;> first | exact ⟨_, rfl⟩ | cases h

theorem ClientPc.receives_of_turn {pc : ClientPc} (h : pc.turn = 0) (hd : pc ≠ .done) :
    ∃ g, pc.receives = some g := by
  cases pc <;> first | exact ⟨_, rfl⟩ | exact absurd rfl hd | cases h

theorem ClientPc.inLoop_of_turn {pc : ClientPc} (h : pc.turn = pc.taken) (hd : pc ≠ .done) :
    pc.inLoop := by
  cases pc <;> trivial

theorem ClientPc.inLoop_of_asked {pc : ClientPc} (h : pc.asked = true) : pc.inLoop := by
  cases pc <;> trivial

theorem ClientPc.taken_le_turn (pc : ClientPc) : pc.taken ≤ pc.turn := by
  cases pc <;> simp [taken, turn]

theorem ServerPc.turn_of_answering {pc : ServerPc} (h : pc.answering = true) : pc.turn = 1 := by
  cases pc <;> first | rfl | exact absurd h Bool.false_ne_true

theorem Sound.server_ready (h : Sound k s) (hout : 0 < s.client.qp.outgoing) :
    s.server.qp.rq ≠ [] := by
  have htoken := h.token
  have hmost := h.most
  unfold State.tokens at htoken
  have hturn : s.server.pc.turn = 0 := by omega
  obtain ⟨g, hg⟩ := ServerPc.receives_of_turn hturn
  have hserver := h.server
  rw [hg] at hserver
  exact (hserver.receive_posted (by omega)).2

theorem Sound.client_ready (h : Sound k s) (hc : Counted seed total n s)
    (hout : 0 < s.server.qp.outgoing) : s.client.qp.rq ≠ [] := by
  have htoken := h.token
  have hmost := h.most
  unfold State.tokens at htoken
  have hd : s.client.pc ≠ .done := hc.not_done (by unfold State.replies; omega)
  have hturn : s.client.pc.turn = 0 := by omega
  obtain ⟨g, hg⟩ := ClientPc.receives_of_turn hturn hd
  have hclient := h.client
  rw [hg] at hclient
  exact (hclient.receive_posted (by omega)).2

/-! ## What has been printed -/

theorem flatMap_range_begins {α : Type} (f : Nat → List α) {m k : Nat} (h : m ≤ k) :
    (List.range m).flatMap f <+: (List.range k).flatMap f := by
  obtain ⟨d, rfl⟩ := Nat.exists_eq_add_of_le h
  rw [List.range_add, List.flatMap_append]
  exact List.prefix_append ..

/-- What is printed is a prefix also inside a round. -/
theorem flatMap_range_begins_of_mid {α : Type} (f : Nat → List α) {m k : Nat} (h : m < k)
    {l : List α} (hl : l <+: f m) :
    (List.range m).flatMap f ++ l <+: (List.range k).flatMap f := by
  refine List.IsPrefix.trans ?_ (flatMap_range_begins f h)
  rw [List.range_succ, List.flatMap_append, List.flatMap_singleton]
  exact (List.prefix_append_right_inj _).mpr hl

theorem Counted.lt_of_inLoop (h : Counted seed total n s) (hl : s.client.pc.inLoop) :
    n < total := by
  have hrounds := h.rounds
  have hmore := toNat_pred (h.more hl)
  unfold Client.left at hrounds
  cases hpc : s.client.pc <;> rw [hpc] at hrounds hl <;>
    first
    | exact hl.elim
    | simp only at hrounds
      omega

/-- The server has the message of a round that is not complete. -/
theorem Counted.lt_of_replying (hs : Sound k s) (h : Counted seed total n s)
    (hr : s.replies = 1 ∨ s.server.pc.answering = true) : n < total := by
  have htoken := hs.token
  have hmost := hs.most
  have hle := s.client.pc.taken_le_turn
  refine h.lt_of_inLoop (ClientPc.inLoop_of_turn ?_ fun hd => ?_)
  · unfold State.tokens at htoken
    rcases hr with hr | hr
    · unfold State.replies at hr
      omega
    · have hturn := ServerPc.turn_of_answering hr
      omega
  · have hne : s.value ≠ iMDone :=
      hr.elim (fun hr => h.replied (Nat.lt_of_lt_of_eq Nat.one_pos hr.symm)) fun ha =>
        (h.answering ha).1
    simp [State.value, hd] at hne

theorem Counted.client_prefix (h : Counted seed total n s) :
    s.client.printed <+: (List.range total).flatMap (clientRound seed) := by
  rw [h.clientLines]
  cases hasked : s.client.pc.asked with
  | false =>
    have hle : n ≤ total := h.rounds ▸ Nat.le_add_right n _
    rw [if_neg Bool.false_ne_true, List.append_nil]
    exact flatMap_range_begins _ hle
  | true =>
    have hlt := h.lt_of_inLoop (ClientPc.inLoop_of_asked hasked)
    rw [if_pos rfl, h.counter]
    exact flatMap_range_begins_of_mid _ hlt (List.prefix_append [_] [_])

theorem Counted.server_prefix (hs : Sound k s) (h : Counted seed total n s) :
    s.server.printed <+: (List.range total).flatMap (serverRound seed) := by
  rw [h.serverLines]
  have htoken := hs.token
  have hmost := hs.most
  have hle : n ≤ total := h.rounds ▸ Nat.le_add_right n _
  have htaken := s.client.pc.taken_le_turn
  have hreplies : s.replies + s.server.pc.turn ≤ 1 := by
    unfold State.tokens at htoken
    unfold State.replies
    omega
  cases hanswering : s.server.pc.answering with
  | false =>
    rw [if_neg Bool.false_ne_true, List.append_nil]
    refine flatMap_range_begins _ ?_
    rcases Nat.le_one_iff_eq_zero_or_eq_one.mp (Nat.le_of_add_right_le hreplies) with h0 | h1
    · omega
    · have hlt := h.lt_of_replying hs (Or.inl h1)
      omega
  | true =>
    have hlt := h.lt_of_replying hs (Or.inr hanswering)
    have hturn := ServerPc.turn_of_answering hanswering
    have h0 : s.replies = 0 := by omega
    rw [if_pos rfl, h.counter, h0, Nat.add_zero]
    exact flatMap_range_begins_of_mid _ hlt (List.prefix_append [_] [_])

/-- **In step**: in every reachable state neither process has failed, a message under way finds a
posted receive, and each process has printed what it is to print, up to some line. -/
theorem ping_pong_in_step (seed rounds : UInt64) (s : State) (h : Reachable seed rounds s) :
    s.client.ret = 0 ∧ s.server.ret = 0 ∧
      (0 < s.client.qp.outgoing → s.server.qp.rq ≠ []) ∧
      (0 < s.server.qp.outgoing → s.client.qp.rq ≠ []) ∧
      s.client.printed <+: (List.range (rounds - 1).toNat).flatMap (clientRound seed) ∧
      s.server.printed <+: (List.range (rounds - 1).toNat).flatMap (serverRound seed) := by
  obtain ⟨k, n, hs, hn⟩ := h.inv
  exact ⟨hs.clientRet, hs.serverRet, hs.server_ready, hs.client_ready hn, hn.client_prefix,
    hn.server_prefix hs⟩

/-- The steps of one round, until `I_M_DONE` is posted. -/
def oneRound : List Act :=
  List.replicate 3 .client ++ [.link .client .transmit, .link .client .deliver] ++
    List.replicate 6 .server ++
    [.link .server .transmit, .link .server .deliver, .link .client .ack, .link .server .ack] ++
    List.replicate 9 .client

/-- `I_M_DONE` is delivered, or it is flushed. -/
def delivered : List Act :=
  oneRound ++ [.link .client .transmit, .link .client .deliver, .link .client .ack] ++
    List.replicate 7 .server

def flushed : List Act := oneRound ++ [.link .client .flush] ++ List.replicate 3 .server

/-- The state after the steps of `acts`. -/
def ran (acts : List Act) : State := ((State.start 5 2).run acts).getD (State.start 5 2)

theorem ran_eq {acts : List Act} (h : ((State.start 5 2).run acts).isSome = true) :
    (State.start 5 2).run acts = some (ran acts) := by
  obtain ⟨s, hs⟩ := Option.isSome_iff_exists.mp h
  rw [ran, hs, Option.getD_some]

/-- The state after the first `k` of the steps. -/
def afterSome (k : Nat) : State := ran (delivered.take k)

theorem afterSome_reachable (k : Nat) : Reachable 5 2 (afterSome k) := by
  unfold afterSome ran
  cases h : (State.start 5 2).run (delivered.take k) with
  | none => exact .refl
  | some s => exact State.reachable_of_run h

/-- The answer is under way, and the server has printed it. -/
theorem ping_pong_in_step_answer :
    (afterSome 12).server.qp.outgoing = 1 ∧ (afterSome 12).client.qp.rq ≠ [] ∧
      [Line.received 5, .sent 6] <+: (List.range 1).flatMap (serverRound 5) := by
  obtain ⟨-, -, -, hready, -, hserver⟩ := ping_pong_in_step 5 2 _ (afterSome_reachable 12)
  have hout : (afterSome 12).server.qp.outgoing = 1 := by decide +kernel
  exact ⟨hout, hready (by omega), hserver⟩

/-! ## Where the system stops -/

/-- Nobody can take a step. -/
def Stuck (s : State) : Prop := ∀ act, s.step act = none

/-- A consumer that cannot go on waits for something that is still to come. -/
theorem getWc_eq_none {opcode : Opcode} {wc : Wc} {g : Consumer} {ws : List Wc}
    {q : CompQueue Wc} (h : Expects wc (some g) ws q) (hnone : getWcAndValidate opcode g q = none) :
    g = .getEvent ∧ ws ≠ [] ∧ q.cqes = [] := by
  cases g with
  | getEvent =>
    rcases h with ⟨rfl, rfl⟩ | ⟨rfl, rfl⟩
    · exact ⟨rfl, List.cons_ne_nil wc [], rfl⟩
    · simp [getWcAndValidate, CompQueue.getEvent] at hnone
  | notify => simp [getWcAndValidate] at hnone
  | poll =>
    obtain ⟨-, hpoll, -⟩ := h.poll
    simp only [getWcAndValidate, hpoll] at hnone
    split at hnone
    · cases hnone
    · split at hnone <;> cases hnone

/-- A client that cannot go on is done, or waits for an answer. -/
theorem Client.step_eq_none {c : Client} (h : Served c.pc.sends c.pc.receives c.qp)
    (hsending : c.qp.sending = []) (hstep : c.step = none) :
    c.pc = .done ∨ c.pc = .recvWc .getEvent ∧ c.qp.landed = 0 := by
  unfold step at hstep
  split at hstep
  case h_4 g hpc =>
    have hsends := h.sends
    rw [hpc] at hsends
    exact absurd hsending (getWc_eq_none hsends (Option.map_eq_none_iff.mp hstep)).2.1
  case h_5 g hpc =>
    have hreceives := h.receives
    rw [hpc] at hreceives
    obtain ⟨rfl, -, hcqes⟩ := getWc_eq_none hreceives (Option.map_eq_none_iff.mp hstep)
    exact Or.inr ⟨hpc, congrArg List.length hcqes⟩
  case h_8 hpc => exact Or.inl hpc
  all_goals cases hstep

/-- A server that cannot go on is done, or waits for a message. -/
theorem Server.step_eq_none {v : Server} (h : Served v.pc.sends v.pc.receives v.qp)
    (hsending : v.qp.sending = []) (hstep : v.step = none) :
    v.pc = .done ∨ v.pc = .recvWc .getEvent ∧ v.qp.landed = 0 := by
  unfold step at hstep
  split at hstep
  case h_1 g hpc =>
    have hreceives := h.receives
    rw [hpc] at hreceives
    obtain ⟨rfl, -, hcqes⟩ := getWc_eq_none hreceives (Option.map_eq_none_iff.mp hstep)
    exact Or.inr ⟨hpc, congrArg List.length hcqes⟩
  case h_2 hpc => split at hstep <;> cases hstep
  case h_5 g hpc =>
    have hsends := h.sends
    rw [hpc] at hsends
    exact absurd hsending (getWc_eq_none hsends (Option.map_eq_none_iff.mp hstep)).2.1
  case h_6 hpc => exact Or.inl hpc
  all_goals cases hstep

/-- Where nothing moves, nothing is under way. -/
theorem Stuck.quiet (h : Stuck s) (hs : Sound k s) (hc : Counted seed total n s) :
    (s.client.qp.outgoing = 0 ∧ s.client.qp.sending = []) ∧
      s.server.qp.outgoing = 0 ∧ s.server.qp.sending = [] := by
  have hclient := fun act => Option.map_eq_none_iff.mp (h (.link .client act))
  have hserver := fun act => Option.map_eq_none_iff.mp (h (.link .server act))
  have hsq := Qp.transmit_eq_none (Option.map_eq_none_iff.mp (hclient .transmit))
  have hunacked := Qp.ack_eq_none (Option.map_eq_none_iff.mp (hclient .ack))
  have hwire := Qp.deliver_eq_none (hclient .deliver) fun hne =>
    hs.server_ready (Nat.add_pos_right _ (List.length_pos_iff.mpr hne))
  have hsq' := Qp.transmit_eq_none (Option.map_eq_none_iff.mp (hserver .transmit))
  have hunacked' := Qp.ack_eq_none (Option.map_eq_none_iff.mp (hserver .ack))
  have hwire' := Qp.deliver_eq_none (hserver .deliver) fun hne =>
    hs.client_ready hc (Nat.add_pos_right _ (List.length_pos_iff.mpr hne))
  simp [Qp.outgoing, Qp.sending, hsq, hunacked, hwire, hsq', hunacked', hwire']

/-- **Where nothing moves**, the client is done or waits for an answer, and the server is done if the
one message has not been lost. -/
theorem Stuck.cases (h : Stuck s) (hs : Sound k s) (hc : Counted seed total n s) :
    (s.client.pc = .done ∨ s.client.pc = .recvWc .getEvent) ∧
      (k = 1 ∧ s.server.pc = .done ∨
        k = 0 ∧ s.client.pc = .done ∧ s.server.pc = .recvWc .getEvent) := by
  obtain ⟨⟨hout, hsending⟩, hout', hsending'⟩ := h.quiet hs hc
  have htoken := hs.token
  have hmost := hs.most
  unfold State.tokens at htoken
  have hclient := Client.step_eq_none hs.client hsending (Option.map_eq_none_iff.mp (h .client))
  have hserver := Server.step_eq_none hs.server hsending' (Option.map_eq_none_iff.mp (h .server))
  have hturn : s.client.pc.turn = 0 := by
    rcases hclient with hpc | ⟨hpc, -⟩ <;> rw [hpc] <;> rfl
  have hlanded : s.client.qp.landed = 0 := by
    rcases hclient with hpc | ⟨-, hl⟩
    · exact Nat.eq_zero_of_not_pos fun hl => hc.not_done (by unfold State.replies; omega) hpc
    · exact hl
  refine ⟨hclient.imp_right And.left, ?_⟩
  rcases hserver with hpc | ⟨hpc, hl⟩
  · rw [hpc] at htoken
    simp only [ServerPc.turn] at htoken
    exact Or.inl ⟨by omega, hpc⟩
  · -- there is no message and no turn
    rw [hpc] at htoken
    simp only [ServerPc.turn] at htoken
    obtain rfl : k = 0 := by omega
    refine Or.inr ⟨rfl, ?_, hpc⟩
    by_contra hd
    exact absurd (hs.kept hd) (by decide)

/-- **The outcome** of a run that can go no further. If no value that it was to send was `I_M_DONE`,
the client is done and both have printed every line, and the server is done too, unless `I_M_DONE` was
flushed: then it waits for a message. Else the client waits for the answer to `I_M_DONE`. -/
theorem ping_pong_outcome (seed rounds : UInt64) (acts : List Act) (s : State)
    (h : (State.start seed rounds).run acts = some s) (hstuck : Stuck s) :
    if ∀ i < (rounds - 1).toNat, seed + .ofNat i ≠ iMDone then
      s.client.pc = .done ∧
        s.client.printed = (List.range (rounds - 1).toNat).flatMap (clientRound seed) ∧
        s.server.printed = (List.range (rounds - 1).toNat).flatMap (serverRound seed) ∧
        s.server.pc = if .link .client .flush ∈ acts then .recvWc .getEvent else .done
    else
      s.client.pc = .recvWc .getEvent ∧ s.client.counter = iMDone ∧ s.server.pc = .done := by
  obtain ⟨hs, n, hn⟩ := State.run_inv (.start seed rounds) (.start seed rounds) h
  obtain ⟨hclient, hserver⟩ := hstuck.cases hs hn
  rcases hclient with hpc | hpc
  · have hrounds := hn.rounds
    simp only [Client.left, hpc, Nat.add_zero] at hrounds
    have hreplies : s.replies = 0 := Nat.eq_zero_of_not_pos fun hr => hn.not_done hr hpc
    have hanswering : s.server.pc.answering = false := by
      rcases hserver with ⟨-, hd⟩ | ⟨-, -, hd⟩ <;> rw [hd] <;> rfl
    have hlines := hn.clientLines
    have hlines' := hn.serverLines
    rw [hpc] at hlines
    rw [hanswering, hreplies] at hlines'
    rw [if_pos (hrounds ▸ hn.passed), ← hrounds]
    refine ⟨hpc, by simpa [ClientPc.asked] using hlines, by simpa using hlines', ?_⟩
    split at hserver
    · obtain ⟨hone, -⟩ | ⟨-, -, hd⟩ := hserver
      · exact absurd hone (by decide)
      · rw [if_pos ‹_›, hd]
    · obtain ⟨-, hd⟩ | ⟨hzero, -⟩ := hserver
      · rw [if_neg ‹_›, hd]
      · exact absurd hzero (by decide)
  · obtain ⟨-, hd⟩ | ⟨-, hpc', -⟩ := hserver
    · have hvalue := hn.stopped hd
      have hcounter : s.client.counter = iMDone := by simpa [State.value, hpc] using hvalue
      have hlt : n < (rounds - 1).toNat := hn.lt_of_inLoop (by rw [hpc]; trivial)
      rw [if_neg fun hall => hall n hlt (hn.counter.symm.trans hcounter)]
      exact ⟨hpc, hcounter, hd⟩
    · exact absurd (hpc.symm.trans hpc') (by simp)

/-- One round, from 5: the server leaves, or it waits for a message that has been flushed. -/
theorem ping_pong_outcome_once :
    (ran delivered).server.pc = .done ∧ (ran delivered).server.printed = [.received 5, .sent 6] ∧
      (ran flushed).server.pc = .recvWc .getEvent ∧
      (ran flushed).client.printed = [.sent 5, .received 6] := by
  have hstuck : Stuck (ran delivered) := by
    intro act
    rcases act with _ | _ | ⟨side, act⟩
    · rfl
    · rfl
    · cases side <;> cases act <;> rfl
  have hstuck' : Stuck (ran flushed) := by
    intro act
    rcases act with _ | _ | ⟨side, act⟩
    · rfl
    · rfl
    · cases side <;> cases act <;> rfl
  have h := ping_pong_outcome 5 2 delivered _ (ran_eq (by decide +kernel)) hstuck
  have h' := ping_pong_outcome 5 2 flushed _ (ran_eq (by decide +kernel)) hstuck'
  rw [if_pos (by decide)] at h h'
  obtain ⟨-, -, hprinted, hserver⟩ := h
  obtain ⟨-, hprinted', -, hserver'⟩ := h'
  rw [if_neg (by decide)] at hserver
  rw [if_pos (by decide)] at hserver'
  exact ⟨hserver, hprinted, hserver', hprinted'⟩

/-! ## How long a run is -/

/-- The steps of the server and the connection that a message of the client leads to: the last
message is only taken. -/
def ClientPc.cost : ClientPc → Nat
  | .done => 4
  | _ => 12

/-- The steps the client still takes, with those that its messages in later rounds lead to. -/
def Client.rank (c : Client) : Nat :=
  match c.pc with
  | .loop => 25 * c.left + 9
  | .recv => 25 * (c.left - 1) + 33
  | .send => 25 * (c.left - 1) + 32
  | .sendWc g => 25 * (c.left - 1) + 13 + g.left
  | .recvWc g => 25 * (c.left - 1) + 10 + g.left
  | .value => 25 * (c.left - 1) + 10
  | .final => 8
  | .done => 0

/-- The steps the server still takes for the message it has, if one costs `cost`. -/
def Server.rank (v : Server) (cost : Nat) : Nat :=
  match v.pc with
  | .recvWc g => (cost - 3 + g.left) * v.qp.landed
  | .sendWc g => cost * v.qp.landed + g.left
  | .handle => cost - 3
  | .recv => 8
  | .send => 7
  | .done => 0

/-- A bound of the number of steps from a state on. -/
def State.left (s : State) : Nat :=
  s.client.rank + s.client.pc.cost * s.client.qp.outgoing + s.client.qp.left +
    s.server.rank s.client.pc.cost + s.server.qp.left

@[simp] theorem State.withQps_client_rank (s : State) (c v : End) :
    (s.withQps c v).client.rank = s.client.rank := rfl

theorem ClientPc.le_cost (pc : ClientPc) : 4 ≤ pc.cost := by
  unfold cost
  split <;> decide

theorem left_atClient (s : State) {p : End} (hp : s.client.qp.Moves p) :
    (s.withQps p s.server.qp).left + 1 = s.left := by
  have hleft := hp.left
  have hrank : (s.withQps p s.server.qp).server.rank s.client.pc.cost =
      s.server.rank s.client.pc.cost := rfl
  simp only [State.left, State.withQps_client_rank, State.withQps_client_pc,
    State.withQps_client_qp, State.withQps_server_qp, hp.outgoing, hrank]
  omega

theorem left_atServer (s : State) {p : End} (hp : s.server.qp.Moves p) :
    (s.withQps s.client.qp p).left + 1 = s.left := by
  have hleft := hp.left
  have hrank : (s.withQps s.client.qp p).server.rank s.client.pc.cost =
      s.server.rank s.client.pc.cost := by
    simp only [Server.rank, State.withQps_server_pc, State.withQps_server_qp, hp.landed]
  simp only [State.left, State.withQps_client_rank, State.withQps_client_pc,
    State.withQps_client_qp, State.withQps_server_qp, hrank]
  omega

variable {m : UInt64 × Option Wc} {wire : List (UInt64 × Option Wc)}

theorem left_toServer (hs : Sound k s) (wr : RecvWr Buf Wc) (hwire : s.client.qp.wire = m :: wire) :
    (s.withQps s.client.qp.sent (s.server.qp.received true wr m.1)).left + 1 = s.left := by
  have hleft := Qp.sent_left hwire
  have hout := Qp.sent_outgoing hwire
  have htoken := hs.token
  have hmost := hs.most
  unfold State.tokens at htoken
  have hlanded : s.server.qp.landed = 0 := by omega
  -- the message costs the same on its way and at the server
  have hrank : (s.withQps s.client.qp.sent (s.server.qp.received true wr m.1)).server.rank
      s.client.pc.cost = s.server.rank s.client.pc.cost + s.client.pc.cost := by
    have hcost := s.client.pc.le_cost
    have hserver := hs.server
    have hturn : s.server.pc.turn = 0 := by omega
    obtain ⟨g, hg⟩ := ServerPc.receives_of_turn hturn
    simp only [Server.rank, State.withQps_server_pc, State.withQps_server_qp,
      Qp.received_landed, hlanded]
    cases hpc : s.server.pc with
    | recvWc g =>
      rw [hpc] at hserver
      obtain ⟨rfl, -⟩ := hserver.receive_posted (c := g) hlanded
      simp only [Consumer.left]
      omega
    | sendWc g =>
      simp only
      omega
    | handle => simp [hpc, ServerPc.receives] at hg
    | recv => simp [hpc, ServerPc.receives] at hg
    | send => simp only [hpc, ServerPc.turn] at htoken; omega
    | done => simp [hpc, ServerPc.receives] at hg
  simp only [State.left, State.withQps_client_rank, State.withQps_client_pc,
    State.withQps_client_qp, State.withQps_server_qp, hrank, ← hout, Nat.mul_add, Qp.received_left]
  omega

theorem left_toClient (s : State) (wr : RecvWr Buf Wc) (hwire : s.server.qp.wire = m :: wire) :
    (s.withQps (s.client.qp.received true wr m.1) s.server.qp.sent).left + 1 = s.left := by
  have hleft := Qp.sent_left hwire
  have hrank : (s.withQps (s.client.qp.received true wr m.1) s.server.qp.sent).server.rank
      s.client.pc.cost = s.server.rank s.client.pc.cost := rfl
  simp only [State.left, State.withQps_client_rank, State.withQps_client_pc,
    State.withQps_client_qp, State.withQps_server_qp, hrank, Qp.received_left,
    Qp.received_outgoing]
  omega

/-- Without a message it does not matter what one costs. -/
theorem Server.rank_of_quiet {v : Server} (ht : v.pc.turn = 0) (hl : v.qp.landed = 0)
    (k k' : Nat) : v.rank k = v.rank k' := by
  unfold rank
  cases hpc : v.pc with
  | recvWc g => simp [hl]
  | sendWc g => simp [hl]
  | handle => rw [hpc] at ht; cases ht
  | recv => rfl
  | send => rfl
  | done => rfl

theorem left_client (hs : Sound k s) (h : Counted seed total n s) {c : Client}
    (hm : ClientMove s.client c) : State.left { s with client := c } + 1 = s.left := by
  obtain ⟨⟨pc, counter, rounds, ret, printed, qp⟩, sv⟩ := s
  cases hm with
  | loop hpc hrounds =>
    obtain rfl : pc = _ := hpc
    have hpos : 0 < (rounds - 1).toNat := Nat.pos_of_ne_zero fun h0 =>
      hrounds (UInt64.toNat_inj.mp h0)
    simp only [State.left, Client.rank, Client.left, ClientPc.cost]
    omega
  | leave hpc hrounds =>
    obtain rfl : pc = _ := hpc
    have hzero : (rounds - 1).toNat = 0 := congrArg UInt64.toNat hrounds
    simp only [State.left, Client.rank, Client.left, ClientPc.cost, hzero]
    omega
  | recv hpc =>
    obtain rfl : pc = _ := hpc
    simp only [State.left, Client.rank, Client.left, ClientPc.cost]
    simp only [Qp.outgoing, Qp.left, rpmaRecv, Qp.postRecv]
    omega
  | send hpc =>
    obtain rfl : pc = _ := hpc
    simp only [State.left, Client.rank, Client.left, ClientPc.cost]
    simp only [Qp.outgoing, Qp.left, rpmaSend, Qp.postSend, Qp.store, List.length_append,
      List.length_singleton, Consumer.left]
    omega
  | sendWait hpc _ hg =>
    obtain rfl : pc = _ := hpc
    simp only [State.left, Client.rank, Client.left, ClientPc.cost]
    simp only [Qp.outgoing, Qp.left]
    omega
  | sendGot hpc _ =>
    obtain rfl : pc = _ := hpc
    simp only [State.left, Client.rank, Client.left, ClientPc.cost, Consumer.left]
    simp only [Qp.outgoing, Qp.left]
    omega
  | recvWait hpc _ _ hg =>
    obtain rfl : pc = _ := hpc
    simp only [State.left, Client.rank, Client.left, ClientPc.cost]
    simp only [Qp.outgoing, Qp.left]
    omega
  | recvGot hpc _ _ =>
    obtain rfl : pc = _ := hpc
    simp only [State.left, Client.rank, Client.left, ClientPc.cost, Consumer.left]
    simp only [Qp.outgoing, Qp.left]
    omega
  | value hpc =>
    obtain rfl : pc = _ := hpc
    have hrounds : (rounds - 1).toNat + 1 = rounds.toNat := toNat_pred (h.more trivial)
    simp only [State.left, Client.rank, Client.left, ClientPc.cost]
    omega
  | final hpc =>
    obtain rfl : pc = _ := hpc
    obtain ⟨hout, hlanded, hturn, -, -⟩ := hs.client_turn rfl
    have hsq : qp.sq.length = 0 ∧ qp.wire.length = 0 := by
      have hout' : qp.sq.length + qp.wire.length = 0 := hout
      omega
    have hrank : sv.rank 4 = sv.rank 12 := Server.rank_of_quiet hturn hlanded 4 12
    simp only [State.left, Client.rank, ClientPc.cost, hrank]
    simp only [Qp.outgoing, Qp.left, rpmaSend, Qp.postSend, Qp.store, List.length_append,
      List.length_singleton]
    omega

/-- Only the end of the server can save steps. -/
theorem left_server (hs : Sound k s) (h : Counted seed total n s) {v : Server}
    (hm : ServerMove s.server v) : State.left { s with server := v } + 1 ≤ s.left := by
  obtain ⟨cl, ⟨pc, ret, printed, qp⟩⟩ := s
  have hcost := cl.pc.le_cost
  cases hm with
  | @recvWait g g' q hpc hq hcqes hg =>
    obtain rfl : pc = _ := hpc
    -- the consumer has its event, so the completion is there
    have hone : q.cqes.length = 1 := by
      cases g' with
      | getEvent => cases g <;> simp [Consumer.left] at hg
      | notify => rw [hq.2]; rfl
      | poll => rw [hq.2]; rfl
    have hlanded : qp.rcq.cqes.length = 1 := (congrArg List.length hcqes).symm.trans hone
    simp only [State.left, Server.rank, Qp.landed, hlanded, hone]
    simp only [Qp.left]
    omega
  | recvGot hpc _ hcqes =>
    obtain rfl : pc = _ := hpc
    have hlanded : qp.rcq.cqes.length = 1 := congrArg List.length hcqes
    simp only [State.left, Server.rank, Qp.landed, hlanded, Consumer.left]
    simp only [Qp.left]
    omega
  | stop hpc _ =>
    obtain rfl : pc = _ := hpc
    simp only [State.left, Server.rank]
    omega
  | handle hpc hv =>
    obtain rfl : pc = _ := hpc
    have hvalue : qp.mem .recv = State.value ⟨cl, ⟨.handle, ret, printed, qp⟩⟩ :=
      h.asked (Or.inr rfl)
    have hcost' : cl.pc.cost = 12 := by
      rw [hvalue] at hv
      unfold ClientPc.cost
      split
      · rename_i hdone
        simp [State.value, hdone] at hv
      · rfl
    simp only [State.left, Server.rank, hcost']
    simp only [Qp.left, Qp.store]
    omega
  | recv hpc =>
    obtain rfl : pc = _ := hpc
    simp only [State.left, Server.rank]
    simp only [Qp.left, rpmaRecv, Qp.postRecv]
    omega
  | send hpc =>
    obtain rfl : pc = _ := hpc
    obtain ⟨-, -, hlanded, -, -⟩ := hs.server_turn rfl
    have hlanded' : (rpmaSend qp true).landed = 0 := hlanded
    simp only [State.left, Server.rank, hlanded', Consumer.left]
    simp only [Qp.left, rpmaSend, Qp.postSend, List.length_append, List.length_singleton]
    omega
  | sendWait hpc _ hg =>
    obtain rfl : pc = _ := hpc
    simp only [State.left, Server.rank, Qp.landed]
    simp only [Qp.left]
    omega
  | sendGot hpc _ =>
    obtain rfl : pc = _ := hpc
    have hthree : cl.pc.cost - 3 + 3 = cl.pc.cost := by omega
    simp only [State.left, Server.rank, Qp.landed, Consumer.left, hthree]
    simp only [Qp.left]
    omega

/-- A message that is flushed costs nothing more. -/
theorem left_flush {p : End} (hs : Sound k s) (hpc : s.client.pc = .done)
    (hp : s.client.qp.flush = some p) : (s.withQps p s.server.qp).left + 1 ≤ s.left := by
  have hclient := hs.client
  rw [hpc] at hclient
  have hlost : 0 < s.client.qp.outgoing := Nat.pos_of_ne_zero fun hout => by
    simp [hclient.flush_eq_none hout] at hp
  obtain ⟨-, rfl⟩ := Qp.flush_cases hp
  have hcost := s.client.pc.le_cost
  have hrank : (s.withQps { s.client.qp with sq := [], wire := [], rq := [] } s.server.qp).server.rank
      s.client.pc.cost = s.server.rank s.client.pc.cost := rfl
  have hmul : 1 * 1 ≤ s.client.pc.cost * s.client.qp.outgoing :=
    Nat.mul_le_mul (by omega) hlost
  simp only [State.left, State.withQps_client_rank, State.withQps_client_pc,
    State.withQps_client_qp, State.withQps_server_qp, hrank]
  simp only [Qp.outgoing, Qp.left, List.length_nil, Nat.mul_zero, Nat.add_zero] at hmul ⊢
  omega

/-- Every step of the system comes nearer to the end. -/
theorem left_step (hs : Sound k s) (h : Counted seed total n s) (hstep : Steps s s') :
    s'.left + 1 ≤ s.left := by
  obtain ⟨act, hstep⟩ := hstep
  obtain ⟨-, hm⟩ | ⟨-, hpc, p, hp, rfl⟩ := h.moves hs hstep
  · cases hm with
    | client hm => exact (left_client hs h hm).le
    | server hm => exact left_server hs h hm
    | atClient hp => exact (left_atClient s hp).le
    | atServer hp => exact (left_atServer s hp).le
    | toServer hwire _ => exact (left_toServer hs _ hwire).le
    | toClient hwire _ => exact (left_toClient s _ hwire).le
  · exact left_flush hs hpc hp

/-- **Every run ends**: in whatever order the steps are taken, there are at most 25 for each round
and 9 more. -/
theorem ping_pong_bound (seed rounds : UInt64) (run : Nat → State)
    (hstart : run 0 = .start seed rounds) (k : Nat) (hrun : ∀ i < k, Steps (run i) (run (i + 1))) :
    k ≤ 25 * (rounds - 1).toNat + 9 := by
  have hreach : ∀ i ≤ k, Reachable seed rounds (run i) ∧
      (run i).left + i ≤ 25 * (rounds - 1).toNat + 9 := by
    intro i
    induction i with
    | zero => exact fun _ => ⟨hstart ▸ .refl, hstart ▸ Nat.le_refl _⟩
    | succ i ih =>
      intro hi
      obtain ⟨hr, hleft⟩ := ih (by omega)
      obtain ⟨k, n, hs, hn⟩ := hr.inv
      have hstep := hrun i (by omega)
      have hdrop := left_step hs hn hstep
      exact ⟨hr.tail hstep, by omega⟩
  have hk := (hreach k (Nat.le_refl k)).2
  omega

theorem ping_pong_bound_once : delivered.length ≤ 25 * ((2 : UInt64) - 1).toNat + 9 := by
  refine ping_pong_bound 5 2 afterSome rfl delivered.length fun i hi => ⟨delivered[i], ?_⟩
  have hall : ∀ k ≤ delivered.length,
      ((State.start 5 2).run (delivered.take k)).isSome = true := by decide +kernel
  have hnow := ran_eq (hall i hi.le)
  have hnext := ran_eq (hall (i + 1) hi)
  rw [← List.take_append_getElem hi, State.run_append, hnow] at hnext
  simpa [State.run, afterSome] using hnext

end Rpma.PingPong
