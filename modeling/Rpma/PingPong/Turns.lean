import Mathlib.Algebra.Group.Nat.Defs
import Rpma.PingPong.Rounds

/-!
# One message at a time

The invariant of the ping-pong, in two parts.

* `Sound`: there is one message or one turn in the whole system (`State.tokens`), or none after the
  client's disconnect has flushed its last message; each of the four queues is served, and nobody has
  failed.
* `Counted`: what is in the buffers and on the way, and what has been printed, when `n` rounds are
  complete.
* **`Reachable.inv`**: both hold in every reachable state. **`State.run_inv`**: a run has lost the
  one message exactly if it has flushed it.
-/

namespace Rpma.PingPong

open Rpma.Lib Rpma.Librpma Relation

/-! ## The invariant -/

/-- It is the client's turn: it has no message under way. -/
def ClientPc.turn : ClientPc → Nat
  | .loop | .recv | .send | .value | .final => 1
  | .sendWc _ | .recvWc _ | .done => 0

/-- The server has taken a message and has not answered it. -/
def ServerPc.turn : ServerPc → Nat
  | .handle | .recv | .send | .done => 1
  | .recvWc _ | .sendWc _ => 0

/-- The messages and turns in the system. -/
def State.tokens (s : State) : Nat :=
  s.client.pc.turn + s.client.qp.outgoing + s.server.qp.landed + s.server.pc.turn +
    s.server.qp.outgoing + s.client.qp.landed

/-- **There are `k` messages and turns, each queue is served, and nobody has failed.** It is one
message or turn, or the last message of the client has been flushed. -/
structure Sound (k : Nat) (s : State) : Prop where
  client : Served s.client.pc.sends s.client.pc.receives s.client.qp
  server : Served s.server.pc.sends s.server.pc.receives s.server.qp
  token : s.tokens = k
  most : k ≤ 1
  kept : s.client.pc ≠ .done → k = 1
  clientRet : s.client.ret = 0
  serverRet : s.server.ret = 0

theorem Sound.start (seed rounds : UInt64) : Sound 1 (State.start seed rounds) where
  client := ⟨.idle, .idle, fun _ h => absurd h List.not_mem_nil⟩
  server := Qp.Serves.postRecv ⟨.idle, .idle, fun _ h => absurd h List.not_mem_nil⟩
  token := rfl
  most := Nat.le_refl 1
  kept _ := rfl
  clientRet := rfl
  serverRet := rfl

section Sound

variable {k : Nat} {s : State} {c : Client} {v : Server}

theorem Sound.clientMove (h : Sound k s) (hm : ClientMove s.client c) :
    Sound k { s with client := c } := by
  obtain ⟨⟨pc, counter, rounds, ret, printed, qp⟩, sv⟩ := s
  obtain ⟨hclient, hserver, htoken, hmost, hkept, hret, hsret⟩ := h
  cases hm with
  | loop hpc _ =>
    obtain rfl : pc = _ := hpc
    exact ⟨hclient, hserver, htoken, hmost, fun _ => hkept (by simp), hret, hsret⟩
  | leave hpc _ =>
    obtain rfl : pc = _ := hpc
    exact ⟨hclient, hserver, htoken, hmost, fun _ => hkept (by simp), hret, hsret⟩
  | recv hpc =>
    obtain rfl : pc = _ := hpc
    exact ⟨hclient.postRecv, hserver, htoken, hmost, fun _ => hkept (by simp), hret, hsret⟩
  | send hpc =>
    obtain rfl : pc = _ := hpc
    refine ⟨(hclient.store .send counter).postSend .send, hserver, ?_, hmost,
      fun _ => hkept (by simp), hret, hsret⟩
    simp only [State.tokens, ClientPc.turn, Qp.outgoing, Qp.landed, rpmaSend, Qp.postSend,
      Qp.store, List.length_append, List.length_singleton] at htoken ⊢
    omega
  | sendWait hpc hq _ =>
    obtain rfl : pc = _ := hpc
    exact ⟨⟨hq, hclient.receives, hclient.into⟩, hserver, htoken, hmost, fun _ => hkept (by simp),
      hret, hsret⟩
  | sendGot hpc hsending =>
    obtain rfl : pc = _ := hpc
    exact ⟨⟨⟨hsending, rfl⟩, hclient.receives, hclient.into⟩, hserver, htoken, hmost,
      fun _ => hkept (by simp), rfl, hsret⟩
  | recvWait hpc hq hcqes _ =>
    obtain rfl : pc = _ := hpc
    refine ⟨⟨hclient.sends, hq, hclient.into⟩, hserver, ?_, hmost, fun _ => hkept (by simp), hret,
      hsret⟩
    simpa [State.tokens, ClientPc.turn, Qp.outgoing, Qp.landed, hcqes] using htoken
  | recvGot hpc hreceiving hcqes =>
    obtain rfl : pc = _ := hpc
    refine ⟨⟨hclient.sends, ⟨hreceiving, rfl⟩, hclient.into⟩, hserver, ?_, hmost,
      fun _ => hkept (by simp), rfl, hsret⟩
    have hlanded : qp.rcq.cqes.length = 1 := congrArg List.length hcqes
    simp only [State.tokens, ClientPc.turn, Qp.outgoing, Qp.landed, CompQueue.idle,
      List.length_nil] at htoken ⊢
    omega
  | value hpc =>
    obtain rfl : pc = _ := hpc
    exact ⟨hclient, hserver, htoken, hmost, fun _ => hkept (by simp), hret, hsret⟩
  | final hpc =>
    obtain rfl : pc = _ := hpc
    refine ⟨(hclient.store .send iMDone).postUnsignaled .send, hserver, ?_, hmost,
      fun _ => hkept (by simp), hret, hsret⟩
    simp only [State.tokens, ClientPc.turn, Qp.outgoing, Qp.landed, rpmaSend, Qp.postSend,
      Qp.store, List.length_append, List.length_singleton] at htoken ⊢
    omega

theorem Sound.serverMove (h : Sound k s) (hm : ServerMove s.server v) :
    Sound k { s with server := v } := by
  obtain ⟨cl, ⟨pc, ret, printed, qp⟩⟩ := s
  obtain ⟨hclient, hserver, htoken, hmost, hkept, hret, hsret⟩ := h
  cases hm with
  | recvWait hpc hq hcqes _ =>
    obtain rfl : pc = _ := hpc
    refine ⟨hclient, ⟨hserver.sends, hq, hserver.into⟩, ?_, hmost, hkept, hret, hsret⟩
    simpa [State.tokens, ServerPc.turn, Qp.outgoing, Qp.landed, hcqes] using htoken
  | recvGot hpc hreceiving hcqes =>
    obtain rfl : pc = _ := hpc
    refine ⟨hclient, ⟨hserver.sends, ⟨hreceiving, rfl⟩, hserver.into⟩, ?_, hmost, hkept, hret, rfl⟩
    have hlanded : qp.rcq.cqes.length = 1 := congrArg List.length hcqes
    simp only [State.tokens, ServerPc.turn, Qp.outgoing, Qp.landed, CompQueue.idle,
      List.length_nil] at htoken ⊢
    omega
  | stop hpc _ =>
    obtain rfl : pc = _ := hpc
    exact ⟨hclient, hserver, htoken, hmost, hkept, hret, hsret⟩
  | handle hpc _ =>
    obtain rfl : pc = _ := hpc
    exact ⟨hclient, hserver.store .send _, htoken, hmost, hkept, hret, hsret⟩
  | recv hpc =>
    obtain rfl : pc = _ := hpc
    exact ⟨hclient, hserver.postRecv, htoken, hmost, hkept, hret, hsret⟩
  | send hpc =>
    obtain rfl : pc = _ := hpc
    refine ⟨hclient, hserver.postSend .send, ?_, hmost, hkept, hret, hsret⟩
    simp only [State.tokens, ServerPc.turn, Qp.outgoing, Qp.landed, rpmaSend, Qp.postSend,
      List.length_append, List.length_singleton] at htoken ⊢
    omega
  | sendWait hpc hq _ =>
    obtain rfl : pc = _ := hpc
    exact ⟨hclient, ⟨hq, hserver.receives, hserver.into⟩, htoken, hmost, hkept, hret, hsret⟩
  | sendGot hpc hsending =>
    obtain rfl : pc = _ := hpc
    exact ⟨hclient, ⟨⟨hsending, rfl⟩, hserver.receives, hserver.into⟩, htoken, hmost, hkept, hret,
      rfl⟩

/-- A message of the client is delivered. -/
theorem Sound.toServer (h : Sound k s) {m : UInt64 × Option Wc} {wire : List (UInt64 × Option Wc)}
    {wr : RecvWr Buf Wc} {rq : List (RecvWr Buf Wc)} (hwire : s.client.qp.wire = m :: wire)
    (hrq : s.server.qp.rq = wr :: rq) :
    Sound k (s.withQps s.client.qp.sent (s.server.qp.received true wr m.1)) := by
  refine ⟨h.client.sent, h.server.received hrq, ?_, h.most, h.kept, h.clientRet, h.serverRet⟩
  have htoken := h.token
  have hsent := Qp.sent_outgoing hwire
  simp only [State.tokens, State.withQps, Qp.received_landed, Qp.received_outgoing] at htoken ⊢
  simp only [Qp.sent_landed] at htoken ⊢
  omega

/-- A message of the server is delivered. -/
theorem Sound.toClient (h : Sound k s) {m : UInt64 × Option Wc} {wire : List (UInt64 × Option Wc)}
    {wr : RecvWr Buf Wc} {rq : List (RecvWr Buf Wc)} (hwire : s.server.qp.wire = m :: wire)
    (hrq : s.client.qp.rq = wr :: rq) :
    Sound k (s.withQps (s.client.qp.received true wr m.1) s.server.qp.sent) := by
  refine ⟨h.client.received hrq, h.server.sent, ?_, h.most, h.kept, h.clientRet, h.serverRet⟩
  have htoken := h.token
  have hsent := Qp.sent_outgoing hwire
  simp only [State.tokens, State.withQps, Qp.received_landed, Qp.received_outgoing] at htoken ⊢
  simp only [Qp.sent_landed] at htoken ⊢
  omega

/-- The connection moves at the client's end. -/
theorem Sound.atClient (h : Sound k s) {p : End} (hp : s.client.qp.Moves p) :
    Sound k (s.withQps p s.server.qp) := by
  refine ⟨h.client.moves hp, h.server, ?_, h.most, h.kept, h.clientRet, h.serverRet⟩
  simpa [State.tokens, State.withQps, hp.outgoing, hp.landed] using h.token

/-- The connection moves at the server's end. -/
theorem Sound.atServer (h : Sound k s) {p : End} (hp : s.server.qp.Moves p) :
    Sound k (s.withQps s.client.qp p) := by
  refine ⟨h.client, h.server.moves hp, ?_, h.most, h.kept, h.clientRet, h.serverRet⟩
  simpa [State.tokens, State.withQps, hp.outgoing, hp.landed] using h.token

/-- On the client's turn nothing is under way. -/
theorem Sound.client_turn (h : Sound k s) (ht : s.client.pc.turn = 1) :
    s.client.qp.outgoing = 0 ∧ s.server.qp.landed = 0 ∧ s.server.pc.turn = 0 ∧
      s.server.qp.outgoing = 0 ∧ s.client.qp.landed = 0 := by
  have htoken := h.token
  have hmost := h.most
  unfold State.tokens at htoken
  omega

/-- While the server has a message nothing is under way. -/
theorem Sound.server_turn (h : Sound k s) (ht : s.server.pc.turn = 1) :
    s.client.pc.turn = 0 ∧ s.client.qp.outgoing = 0 ∧ s.server.qp.landed = 0 ∧
      s.server.qp.outgoing = 0 ∧ s.client.qp.landed = 0 := by
  have htoken := h.token
  have hmost := h.most
  unfold State.tokens at htoken
  omega

/-- The client's last message is flushed. -/
theorem Sound.flush (h : Sound k s) (hpc : s.client.pc = .done) {p : End}
    (hp : s.client.qp.flush = some p) : Sound 0 (s.withQps p s.server.qp) := by
  obtain ⟨hsome, rfl⟩ := Qp.flush_cases hp
  have hclient := h.client
  rw [hpc] at hclient
  have hlost : 0 < s.client.qp.outgoing := Nat.pos_of_ne_zero fun hout => by
    simp [hclient.flush_eq_none hout] at hp
  have htoken := h.token
  have hmost := h.most
  have hserved : Served s.client.pc.sends s.client.pc.receives
      { s.client.qp with sq := [], wire := [], rq := [] } := by
    rw [hpc]
    exact hclient.flush hp
  refine ⟨hserved, h.server, ?_, Nat.zero_le 1, fun hne => absurd hpc hne, h.clientRet,
    h.serverRet⟩
  unfold State.tokens at htoken ⊢
  simp only [State.withQps_client_pc, State.withQps_client_qp, State.withQps_server_pc,
    State.withQps_server_qp]
  simp only [Qp.outgoing, Qp.landed, List.length_nil] at htoken hlost ⊢
  omega

end Sound

/-! ## Values -/

/-- What the client sends, or has sent last. -/
def State.value (s : State) : UInt64 :=
  match s.client.pc with
  | .done => iMDone
  | _ => s.client.counter

/-- The rounds that are still to be completed. -/
def Client.left (c : Client) : Nat :=
  match c.pc with
  | .loop => (c.rounds - 1).toNat
  | .final | .done => 0
  | _ => c.rounds.toNat

/-- The client is in the body of the loop. -/
def ClientPc.inLoop : ClientPc → Prop
  | .loop | .final | .done => False
  | _ => True

/-- The last value it printed as sent has not come back. -/
def ClientPc.asked : ClientPc → Bool
  | .sendWc _ | .recvWc _ | .value => true
  | _ => false

def ClientPc.taken : ClientPc → Nat
  | .value => 1
  | _ => 0

/-- It has printed the value it received, and not its answer. -/
def ServerPc.answering : ServerPc → Bool
  | .recv | .send => true
  | _ => false

/-- The answers under way. -/
def State.replies (s : State) : Nat :=
  s.server.qp.outgoing + s.client.qp.landed + s.client.pc.taken

/-- What the client prints in the round number `i`. -/
def clientRound (seed : UInt64) (i : Nat) : List Line :=
  [.sent (seed + .ofNat i), .received (seed + .ofNat i + 1)]

/-- What the server prints in the round number `i`. -/
def serverRound (seed : UInt64) (i : Nat) : List Line :=
  [.received (seed + .ofNat i), .sent (seed + .ofNat i + 1)]

/-- **The buffers and the output after `n` of `total` rounds.** -/
structure Counted (seed : UInt64) (total n : Nat) (s : State) : Prop where
  counter : s.client.counter = seed + .ofNat n
  rounds : n + s.client.left = total
  more : s.client.pc.inLoop → s.client.rounds ≠ 0
  passed : ∀ i < n, seed + .ofNat i ≠ iMDone
  request : s.client.qp.Carries .send s.value
  asked : 0 < s.server.qp.landed ∨ s.server.pc = .handle → s.server.qp.mem .recv = s.value
  answering : s.server.pc.answering = true →
    s.value ≠ iMDone ∧ s.server.qp.mem .send = s.value + 1
  reply : s.server.qp.Carries .send (s.value + 1)
  replied : 0 < s.replies → s.value ≠ iMDone
  answered : 0 < s.client.qp.landed + s.client.pc.taken → s.client.qp.mem .recv = s.value + 1
  stopped : s.server.pc = .done → s.value = iMDone
  clientLines : s.client.printed = (List.range n).flatMap (clientRound seed) ++
    if s.client.pc.asked then [.sent s.client.counter] else []
  serverLines : s.server.printed = (List.range (n + s.replies)).flatMap (serverRound seed) ++
    if s.server.pc.answering then [.received s.client.counter] else []

theorem Counted.start (seed rounds : UInt64) :
    Counted seed (rounds - 1).toNat 0 (State.start seed rounds) where
  counter := by simp [State.start]
  rounds := by simp [State.start, Client.left]
  more h := h.elim
  passed i h := absurd h (Nat.not_lt_zero i)
  request := .of_outgoing rfl
  asked h := by simp [State.start, Qp.landed, Qp.fresh, rpmaRecv, Qp.postRecv, CompQueue.idle] at h
  answering h := by simp [State.start, ServerPc.answering] at h
  reply := .of_outgoing rfl
  replied h := absurd h (Nat.lt_irrefl 0)
  answered h := absurd h (Nat.lt_irrefl 0)
  stopped h := by simp [State.start] at h
  clientLines := rfl
  serverLines := rfl

section Counted

variable {s : State} {c : Client} {v : Server} {p : End} {seed : UInt64} {total n : Nat}
  {m : UInt64 × Option Wc} {wire : List (UInt64 × Option Wc)} {wr : RecvWr Buf Wc}
  {rq : List (RecvWr Buf Wc)}

theorem Counted.atClient (h : Counted seed total n s) (hp : s.client.qp.Moves p) :
    Counted seed total n (s.withQps p s.server.qp) := by
  have hmem : p.mem = s.client.qp.mem := hp.frame.1
  have hreplies : (s.withQps p s.server.qp).replies = s.replies := by
    simp [State.replies, State.withQps, hp.landed]
  exact { h with
    request := h.request.moves hp
    replied := fun hr => h.replied (hreplies ▸ hr)
    answered := fun ha => by
      have ha' : 0 < p.landed + s.client.pc.taken := ha
      rw [hp.landed] at ha'
      exact (congrFun hmem .recv).trans (h.answered ha')
    serverLines := by rw [hreplies]; exact h.serverLines }

theorem Counted.atServer (h : Counted seed total n s) (hp : s.server.qp.Moves p) :
    Counted seed total n (s.withQps s.client.qp p) := by
  have hmem : p.mem = s.server.qp.mem := hp.frame.1
  have hreplies : (s.withQps s.client.qp p).replies = s.replies := by
    simp [State.replies, State.withQps, hp.outgoing]
  exact { h with
    asked := fun ha => by
      have ha' : 0 < p.landed ∨ s.server.pc = .handle := ha
      rw [hp.landed] at ha'
      exact (congrFun hmem .recv).trans (h.asked ha')
    answering := fun ha => (h.answering ha).imp_right (congrFun hmem .send).trans
    reply := h.reply.moves hp
    replied := fun hr => h.replied (hreplies ▸ hr)
    serverLines := by rw [hreplies]; exact h.serverLines }

theorem Counted.toServer (hs : Sound k s) (h : Counted seed total n s)
    (hwire : s.client.qp.wire = m :: wire) (hrq : s.server.qp.rq = wr :: rq) :
    Counted seed total n (s.withQps s.client.qp.sent (s.server.qp.received true wr m.1)) := by
  have hinto : wr.addr = .recv := hs.server.into wr (by simp [hrq])
  have hvalue : m.1 = s.value := h.request.flying m (by simp [hwire])
  exact { h with
    request := h.request.sent
    asked := fun _ => (Qp.received_mem hinto m.1).trans hvalue
    answering := fun ha =>
      (h.answering ha).imp_right (Qp.received_mem_of_ne (by simp [hinto]) m.1).trans
    reply := h.reply.received (by simp [hinto]) }

theorem Counted.toClient (hs : Sound k s) (h : Counted seed total n s)
    (hwire : s.server.qp.wire = m :: wire) (hrq : s.client.qp.rq = wr :: rq) :
    Counted seed total n (s.withQps (s.client.qp.received true wr m.1) s.server.qp.sent) := by
  have hinto : wr.addr = .recv := hs.client.into wr (by simp [hrq])
  have hvalue : m.1 = s.value + 1 := h.reply.flying m (by simp [hwire])
  have hsent := Qp.sent_outgoing hwire
  have hreplies : (s.withQps (s.client.qp.received true wr m.1) s.server.qp.sent).replies
      = s.replies := by
    simp only [State.replies, State.withQps, Qp.received_landed]
    omega
  exact { h with
    request := h.request.received (by simp [hinto])
    reply := h.reply.sent
    replied := fun hr => h.replied (hreplies ▸ hr)
    answered := fun _ => (Qp.received_mem hinto m.1).trans hvalue
    serverLines := by rw [hreplies]; exact h.serverLines }

theorem toNat_pred {r : UInt64} (h : r ≠ 0) : (r - 1).toNat + 1 = r.toNat := by
  have hpos : 0 < r.toNat := Nat.pos_of_ne_zero fun h0 => h (UInt64.toNat_inj.mp h0)
  rw [UInt64.toNat_sub_of_le r 1 (UInt64.le_iff_toNat_le.mpr hpos)]
  exact Nat.sub_add_cancel hpos

theorem ServerPc.not_answering {pc : ServerPc} (h : pc.turn = 0) : pc.answering = false := by
  cases pc <;> first | rfl | exact absurd h Nat.one_ne_zero

theorem ClientPc.not_taken {pc : ClientPc} (h : pc.turn = 0) : pc.taken = 0 := by
  cases pc <;> first | rfl | exact absurd h Nat.one_ne_zero

theorem State.value_of_ne (h : s.value ≠ iMDone) : s.value = s.client.counter := by
  unfold State.value at h ⊢
  split
  · rename_i hpc
    simp [hpc] at h
  · rfl

/-- Nothing is on the server's side or on its way back. -/
theorem Counted.of_quiet (counter : s.client.counter = seed + .ofNat n)
    (rounds : n + s.client.left = total) (more : s.client.pc.inLoop → s.client.rounds ≠ 0)
    (passed : ∀ i < n, seed + .ofNat i ≠ iMDone)
    (request : s.client.qp.Carries .send s.value) (hlanded : s.server.qp.landed = 0)
    (hturn : s.server.pc.turn = 0) (hreplies : s.replies = 0)
    (clientLines : s.client.printed = (List.range n).flatMap (clientRound seed) ++
      if s.client.pc.asked then [.sent s.client.counter] else [])
    (serverLines : s.server.printed = (List.range n).flatMap (serverRound seed)) :
    Counted seed total n s := by
  obtain ⟨hout, hback⟩ : s.server.qp.outgoing = 0 ∧ s.client.qp.landed + s.client.pc.taken = 0 := by
    unfold State.replies at hreplies
    omega
  have hnone : s.server.pc ≠ .handle ∧ s.server.pc.answering = false ∧ s.server.pc ≠ .done := by
    cases hpc : s.server.pc <;> simp [hpc, ServerPc.turn, ServerPc.answering] at hturn ⊢
  obtain ⟨hhandle, hanswering, hdone⟩ := hnone
  exact ⟨counter, rounds, more, passed, request, fun ha => absurd ha (by simp [hlanded, hhandle]),
    fun ha => absurd ha (by simp [hanswering]), .of_outgoing hout,
    fun hr => absurd hr (by simp [hreplies]), fun ha => absurd ha (by simp [hback]),
    fun hp => absurd hp hdone, clientLines, by simpa [hreplies, hanswering] using serverLines⟩

/-- The client's steps; after `counter = *recv` one round more is complete. -/
theorem Counted.clientMove (hs : Sound k s) (h : Counted seed total n s)
    (hm : ClientMove s.client c) : ∃ n', Counted seed total n' { s with client := c } := by
  obtain ⟨⟨pc, counter, rounds, ret, printed, qp⟩, sv⟩ := s
  cases hm with
  | loop hpc hrounds =>
    obtain rfl : pc = _ := hpc
    exact ⟨n, { h with more := fun _ => hrounds }⟩
  | leave hpc hrounds =>
    obtain rfl : pc = _ := hpc
    have hleft : n + (rounds - 1).toNat = total := h.rounds
    have hzero : (rounds - 1).toNat = 0 := congrArg UInt64.toNat hrounds
    exact ⟨n, { h with rounds := by rw [← hleft, hzero]; rfl, more := False.elim }⟩
  | recv hpc =>
    obtain rfl : pc = _ := hpc
    exact ⟨n, { h with request := ⟨h.request.1, h.request.2, h.request.3⟩ }⟩
  | send hpc =>
    obtain rfl : pc = _ := hpc
    obtain ⟨hout, -⟩ := hs.client_turn rfl
    refine ⟨n, { h with
      request := .post (p := qp.store .send counter) hout (Qp.store_mem ..) _
      answered := fun ha => ?_
      clientLines := ?_ }⟩
    · exact h.answered ha
    · have hlines : printed = (List.range n).flatMap (clientRound seed) ++ [] := h.clientLines
      simp [hlines, ClientPc.asked]
  | sendWait hpc _ _ =>
    obtain rfl : pc = _ := hpc
    exact ⟨n, { h with request := ⟨h.request.1, h.request.2, h.request.3⟩ }⟩
  | sendGot hpc _ =>
    obtain rfl : pc = _ := hpc
    exact ⟨n, { h with request := ⟨h.request.1, h.request.2, h.request.3⟩ }⟩
  | @recvWait g g' q hpc _ hcqes _ =>
    obtain rfl : pc = _ := hpc
    have hlanded : q.cqes.length = qp.rcq.cqes.length := congrArg List.length hcqes
    refine ⟨n, { h with
      request := ⟨h.request.1, h.request.2, h.request.3⟩
      replied := fun hr => h.replied ?_
      answered := fun ha => h.answered ?_
      serverLines := h.serverLines.trans ?_ }⟩
    · simpa [State.replies, Qp.landed, hlanded, ClientPc.taken] using hr
    · simpa [Qp.landed, hlanded, ClientPc.taken] using ha
    · simp [State.replies, Qp.landed, hlanded, ClientPc.taken]
  | recvGot hpc _ hcqes =>
    obtain rfl : pc = _ := hpc
    have hlanded : qp.rcq.cqes.length = 1 := congrArg List.length hcqes
    refine ⟨n, { h with
      request := ⟨h.request.1, h.request.2, h.request.3⟩
      replied := fun _ => h.replied ?_
      answered := fun _ => h.answered ?_
      serverLines := h.serverLines.trans ?_ }⟩
    · simp only [State.replies, Qp.landed, hlanded]
      omega
    · simp only [Qp.landed, hlanded]
      omega
    · simp [State.replies, Qp.landed, hlanded, ClientPc.taken, CompQueue.idle]
  | value hpc =>
    obtain rfl : pc = _ := hpc
    obtain ⟨hout, hlanded, hturn, hreply, hclanded⟩ := hs.client_turn rfl
    have hvalue : qp.mem .recv = counter + 1 := h.answered (by simp [ClientPc.taken])
    have hcounter : counter = seed + .ofNat n := h.counter
    have hleft : n + rounds.toNat = total := h.rounds
    have hrounds : (rounds - 1).toNat + 1 = rounds.toNat := toNat_pred (h.more trivial)
    have hlines : printed = (List.range n).flatMap (clientRound seed) ++ [.sent counter] :=
      h.clientLines
    have hserver := h.serverLines
    have hreplied : State.replies ⟨⟨.value, counter, rounds, ret, printed, qp⟩, sv⟩ = 1 := by
      simp [State.replies, hreply, hclanded, ClientPc.taken]
    rw [hreplied, ServerPc.not_answering hturn] at hserver
    have hne : counter ≠ iMDone := h.replied (Nat.lt_of_lt_of_eq Nat.one_pos hreplied.symm)
    have hpassed : ∀ i < n + 1, seed + .ofNat i ≠ iMDone := by
      intro i hi
      rcases Nat.lt_succ_iff_lt_or_eq.mp hi with hi | rfl
      · exact h.passed i hi
      · exact hcounter ▸ hne
    refine ⟨n + 1,
      .of_quiet ?_ ?_ False.elim hpassed (.of_outgoing hout) hlanded hturn ?_ ?_ ?_⟩
    · simp [hvalue, hcounter, UInt64.ofNat_add, UInt64.add_assoc]
    · simp only [Client.left]
      omega
    · simp [State.replies, hreply, hclanded, ClientPc.taken]
    · simp [hlines, hvalue, hcounter, List.range_succ, clientRound, ClientPc.asked]
    · simpa using hserver
  | final hpc =>
    obtain rfl : pc = _ := hpc
    obtain ⟨hout, hlanded, hturn, hreply, hclanded⟩ := hs.client_turn rfl
    have hserver := h.serverLines
    have hreplied : State.replies ⟨⟨.final, counter, rounds, ret, printed, qp⟩, sv⟩ = 0 := by
      simp [State.replies, hreply, hclanded, ClientPc.taken]
    rw [hreplied, ServerPc.not_answering hturn] at hserver
    refine ⟨n, .of_quiet h.counter h.rounds False.elim h.passed
      (.post (p := qp.store .send iMDone) hout (Qp.store_mem ..) none) hlanded hturn hreplied
      h.clientLines ?_⟩
    simpa using hserver

/-- The server's steps. -/
theorem Counted.serverMove (hs : Sound k s) (h : Counted seed total n s)
    (hm : ServerMove s.server v) : Counted seed total n { s with server := v } := by
  obtain ⟨cl, ⟨pc, ret, printed, qp⟩⟩ := s
  cases hm with
  | @recvWait g g' q hpc _ hcqes _ =>
    obtain rfl : pc = _ := hpc
    have hlanded : q.cqes.length = qp.rcq.cqes.length := congrArg List.length hcqes
    refine { h with
      asked := fun ha => h.asked (Or.inl ?_)
      reply := ⟨h.reply.1, h.reply.2, h.reply.3⟩
      answering := fun ha => by cases ha
      stopped := fun hp => by cases hp }
    rcases ha with ha | ha
    · exact Nat.lt_of_lt_of_eq ha hlanded
    · cases ha
  | recvGot hpc _ hcqes =>
    obtain rfl : pc = _ := hpc
    have hlanded : qp.rcq.cqes.length = 1 := congrArg List.length hcqes
    exact { h with
      asked := fun _ => h.asked (Or.inl (Nat.lt_of_lt_of_eq Nat.one_pos hlanded.symm))
      reply := ⟨h.reply.1, h.reply.2, h.reply.3⟩
      answering := fun ha => by cases ha
      stopped := fun hp => by cases hp }
  | stop hpc hv =>
    obtain rfl : pc = _ := hpc
    exact { h with
      asked := fun _ => h.asked (Or.inr rfl)
      answering := fun ha => by cases ha
      stopped := fun _ => (h.asked (Or.inr rfl)).symm.trans hv }
  | handle hpc hv =>
    obtain rfl : pc = _ := hpc
    obtain ⟨-, -, -, hout, -⟩ := hs.server_turn rfl
    have hvalue : qp.mem .recv = State.value ⟨cl, ⟨.handle, ret, printed, qp⟩⟩ :=
      h.asked (Or.inr rfl)
    have hne : State.value ⟨cl, ⟨.handle, ret, printed, qp⟩⟩ ≠ iMDone := hvalue ▸ hv
    have hcounter : qp.mem .recv = cl.counter := hvalue.trans (State.value_of_ne hne)
    have hlines := h.serverLines
    refine { h with
      asked := fun ha => ?_
      answering := fun _ => ⟨hne, (Qp.store_mem ..).trans (congrArg (· + 1) hvalue)⟩
      reply := .of_outgoing hout
      stopped := fun hp => by cases hp
      serverLines := ?_ }
    · exact (Qp.store_mem_of_ne qp (by decide) _).trans hvalue
    · have hprinted : printed = _ ++ [] := hlines
      rw [List.append_nil] at hprinted
      exact congrArg₂ (fun l v => l ++ [Line.received v]) hprinted hcounter
  | recv hpc =>
    obtain rfl : pc = _ := hpc
    exact { h with
      asked := fun ha => h.asked (ha.imp_right fun hp => by cases hp)
      reply := ⟨h.reply.1, h.reply.2, h.reply.3⟩
      stopped := fun hp => by cases hp }
  | send hpc =>
    obtain rfl : pc = _ := hpc
    obtain ⟨hturn, -, hlanded, hout, hclanded⟩ := hs.server_turn rfl
    obtain ⟨hne, hmem⟩ := h.answering rfl
    have hcounter : cl.counter = seed + .ofNat n := h.counter
    have hsent : qp.mem .send = seed + .ofNat n + 1 :=
      hmem.trans (congrArg (· + 1) ((State.value_of_ne hne).trans hcounter))
    have hnone : State.replies ⟨cl, ⟨.send, ret, printed, qp⟩⟩ = 0 := by
      simp only [State.replies, hout, hclanded, ClientPc.not_taken hturn]
    have hone : State.replies ⟨cl, ⟨.sendWc .getEvent, ret, printed ++ [.sent (qp.mem .send)],
        rpmaSend qp true⟩⟩ = 1 := by
      simp only [State.replies, Qp.outgoing, rpmaSend, Qp.postSend, List.length_append,
        List.length_singleton] at hnone ⊢
      omega
    have hlines := h.serverLines
    rw [hnone] at hlines
    refine { h with
      asked := fun ha => h.asked (ha.imp_right fun hp => by cases hp)
      answering := fun ha => by cases ha
      reply := .post hout hmem _
      replied := fun _ => hne
      stopped := fun hp => by cases hp
      serverLines := ?_ }
    rw [hone]
    simp only [ServerPc.answering, if_true] at hlines
    simp [hlines, hsent, hcounter, List.range_succ, serverRound, ServerPc.answering]
  | sendWait hpc _ _ =>
    obtain rfl : pc = _ := hpc
    exact { h with
      asked := fun ha => h.asked (ha.imp_right fun hp => by cases hp)
      reply := ⟨h.reply.1, h.reply.2, h.reply.3⟩
      answering := fun ha => by cases ha
      stopped := fun hp => by cases hp }
  | sendGot hpc _ =>
    obtain rfl : pc = _ := hpc
    exact { h with
      asked := fun ha => h.asked (ha.imp_right fun hp => by cases hp)
      reply := ⟨h.reply.1, h.reply.2, h.reply.3⟩
      answering := fun ha => by cases ha
      stopped := fun hp => by cases hp }

/-- The client's last message is flushed. -/
theorem Counted.flush (h : Counted seed total n s) (hp : s.client.qp.flush = some p) :
    Counted seed total n (s.withQps p s.server.qp) := by
  obtain ⟨-, rfl⟩ := Qp.flush_cases hp
  exact { h with request := .of_outgoing rfl }

theorem Counted.not_done (h : Counted seed total n s) (hr : 0 < s.replies) :
    s.client.pc ≠ .done := by
  intro hd
  refine h.replied hr ?_
  simp [State.value, hd]

/-- The steps of the system: nothing fails. -/
theorem Counted.moves {s' : State} {act : Act} (hs : Sound k s) (h : Counted seed total n s)
    (hstep : s.step act = some s') :
    act ≠ .link .client .flush ∧ Move s s' ∨
      act = .link .client .flush ∧ s.client.pc = .done ∧
        ∃ p, s.client.qp.flush = some p ∧ s' = s.withQps p s.server.qp := by
  refine State.moves hs.client hs.server (fun hd => ?_) (fun hd => ?_) hstep
  · refine Nat.eq_zero_of_not_pos fun hout => h.not_done ?_ hd
    unfold State.replies
    omega
  · obtain ⟨-, hout, -, hout', -⟩ := hs.server_turn (by rw [hd]; rfl)
    exact ⟨hout, hout'⟩

/-- **Every step keeps both parts.** Only the flush of the client's last message loses the token. -/
theorem Counted.step {s' : State} {act : Act} (hs : Sound k s) (h : Counted seed total n s)
    (hstep : s.step act = some s') :
    Sound (if act = .link .client .flush then 0 else k) s' ∧ ∃ n', Counted seed total n' s' := by
  obtain ⟨hact, hm⟩ | ⟨rfl, hpc, p, hp, rfl⟩ := h.moves hs hstep
  · rw [if_neg hact]
    cases hm with
    | client hm => exact ⟨hs.clientMove hm, h.clientMove hs hm⟩
    | server hm => exact ⟨hs.serverMove hm, n, h.serverMove hs hm⟩
    | atClient hp => exact ⟨hs.atClient hp, n, h.atClient hp⟩
    | atServer hp => exact ⟨hs.atServer hp, n, h.atServer hp⟩
    | toServer hwire hrq => exact ⟨hs.toServer hwire hrq, n, h.toServer hs hwire hrq⟩
    | toClient hwire hrq => exact ⟨hs.toClient hwire hrq, n, h.toClient hs hwire hrq⟩
  · rw [if_pos rfl]
    exact ⟨hs.flush hpc hp, n, h.flush hp⟩

/-- **In every reachable state.** -/
theorem Reachable.inv {rounds : UInt64} (h : Reachable seed rounds s) :
    ∃ k n, Sound k s ∧ Counted seed (rounds - 1).toNat n s := by
  induction h with
  | refl => exact ⟨1, 0, .start seed rounds, .start seed rounds⟩
  | tail _ hstep ih =>
    obtain ⟨k, n, hs, hn⟩ := ih
    obtain ⟨act, hstep⟩ := hstep
    obtain ⟨hs', n', hn'⟩ := hn.step hs hstep
    exact ⟨_, n', hs', hn'⟩

/-- **A run keeps the one message or turn**, until the client's last message is flushed. -/
theorem State.run_inv {s' : State} {acts : List Act} (hs : Sound k s) (h : Counted seed total n s)
    (hrun : s.run acts = some s') :
    Sound (if .link .client .flush ∈ acts then 0 else k) s' ∧
      ∃ n', Counted seed total n' s' := by
  induction acts generalizing s k n with
  | nil => exact Option.some.inj hrun ▸ ⟨hs, n, h⟩
  | cons act acts ih =>
    obtain ⟨t, ht, hrun⟩ := Option.bind_eq_some_iff.mp hrun
    obtain ⟨ht', n', hn'⟩ := h.step hs ht
    have hrest := ih ht' hn' hrun
    by_cases hact : act = .link .client .flush
    · simpa [hact] using hrest
    · simpa [hact, Ne.symm hact] using hrest

end Counted

end Rpma.PingPong
