import Rpma.PingPong.Partings

/-!
# How a ping-pong over one completion queue ends

* **`printed_in_order`**: the outputs are those of an undisturbed ping-pong, or break off.
* **`left_early`**: a process gives up only after a completion has been late for it, or after the
  other one has left.
* **`at_rest`**: the processes never wait for each other. Where no step is left, one of them has left,
  and the other one has left too or waits for a message. It is the server that waits only if the
  client's disconnect has flushed what the client had posted. If no completion has been late and no
  value was `I_M_DONE`, the client has left and everything has been printed.
-/

namespace Rpma.PingPong.Shared

open Rpma.Lib Rpma.Librpma Relation

/-! ## Runs -/

section Runs

variable {seed rounds : UInt64} {total n : Nat} {st : Stage} {s s' : State}

theorem Course.step (hs : Sound s) (h : Course seed total s) {act : Act}
    (hstep : s.step act = some s') : Course seed total s' := by
  obtain ⟨n, st, hflow, hreasons⟩ := h
  obtain ⟨c, hc, rfl⟩ | ⟨v, hv, rfl⟩ | ⟨p, o, hl, rfl⟩ := State.step_cases hstep
  · exact hflow.clientMove hs hreasons (hs.clientMoves hc)
  · exact hflow.serverMove hs hreasons (hs.serverMoves hv)
  · exact ⟨n, st, hflow.link hs hl, hreasons.link p o⟩

theorem Reachable.inv (h : Reachable seed rounds s) :
    Sound s ∧ Course seed (rounds - 1).toNat s := by
  induction h with
  | refl => exact ⟨.start seed rounds, 0, .turn, .start seed rounds, .start seed rounds⟩
  | tail _ hstep ih =>
    obtain ⟨act, hstep⟩ := hstep
    exact ⟨ih.1.step hstep, ih.2.step ih.1 hstep⟩

theorem Flow.client_prefix (h : Flow seed total n st s) :
    s.client.printed <+: (List.range total).flatMap (clientRound seed) := by
  have hwithin := h.within
  rw [h.clientLines]
  split
  · rw [List.append_nil]
    exact flatMap_range_begins _ (by omega)
  · have hbegun : st.begun = 1 := by cases st <;> first | contradiction | rfl
    exact flatMap_range_begins_of_mid _ (by omega) (List.prefix_append [_] [_])

theorem Flow.server_prefix (h : Flow seed total n st s) :
    s.server.printed <+: (List.range total).flatMap (serverRound seed) := by
  have hwithin := h.within
  rw [h.serverLines]
  split
  · rename_i hst
    subst hst
    exact flatMap_range_begins_of_mid _ hwithin (List.prefix_append [_] [_])
  · rw [List.append_nil]
    have hreplied : n + st.replied ≤ total := by
      cases st <;> simp only [Stage.begun, Stage.replied] at * <;> omega
    exact flatMap_range_begins _ hreplied

/-- The outputs when the client has come to the end of its loop. -/
theorem Flow.complete (h : Flow seed total n st s) (hst : st = .turn) (hn : n = total) :
    s.client.printed = (List.range total).flatMap (clientRound seed) ∧
      s.server.printed = (List.range total).flatMap (serverRound seed) := by
  subst hst hn
  exact ⟨by simpa using h.clientLines, by simpa [Stage.replied] using h.serverLines⟩

/-- **The outputs are in order**, whoever has left: each is a beginning of what it should be, and both
are complete when the client has left without an error. -/
theorem printed_in_order (seed rounds : UInt64) (s : State) (h : Reachable seed rounds s) :
    s.client.printed <+: (List.range (rounds - 1).toNat).flatMap (clientRound seed) ∧
    s.server.printed <+: (List.range (rounds - 1).toNat).flatMap (serverRound seed) ∧
    (¬ s.client.pc.active → s.client.ret = 0 →
      s.client.printed = (List.range (rounds - 1).toNat).flatMap (clientRound seed) ∧
      s.server.printed = (List.range (rounds - 1).toNat).flatMap (serverRound seed)) := by
  obtain ⟨-, n, st, hflow, hreasons⟩ := h.inv
  refine ⟨hflow.client_prefix, hflow.server_prefix, fun hc hret => ?_⟩
  rcases hreasons.clientLeft hc with ⟨-, hst, hn⟩ | ⟨hret', -⟩ | ⟨hret', -⟩
  · exact hflow.complete hst hn
  · exact absurd (hret.symm.trans hret') (by decide)
  · exact absurd (hret.symm.trans hret') (by decide)

/-- The state after the steps of `acts`, when the client has 5 to send first, and `rounds` is 4. -/
def after (acts : List Act) : State := ((State.start 5 4).run acts).getD (State.start 5 4)

theorem after_eq {acts : List Act} (h : ((State.start 5 4).run acts).isSome = true) :
    (State.start 5 4).run acts = some (after acts) := by
  obtain ⟨s, hs⟩ := Option.isSome_iff_exists.mp h
  rw [after, hs, Option.getD_some]

theorem after_reachable (acts : List Act) : Reachable 5 4 (after acts) := by
  unfold after
  cases h : (State.start 5 4).run acts with
  | none => exact .refl
  | some s => exact State.reachable_of_run h

/-- The answer to 5 comes after the client has armed its queue, and before it polls. The poll takes
it, and the event that is left makes the client poll again before the answer to 6 is there. -/
def overtaken : List Act :=
  List.replicate 3 .client ++
    [.link .client .transmit, .link .client .deliver, .link .client .ack] ++
    List.replicate 6 .server ++
    [.link .server .transmit, .client, .client, .link .server .deliver] ++
    List.replicate 8 .client

/-- Two of three rounds are begun. -/
theorem printed_in_order_overtaken :
    (after overtaken).client.printed = [.sent 5, .received 6, .sent 6] ∧
      [Line.sent 5, .received 6, .sent 6] <+: (List.range 3).flatMap (clientRound 5) := by
  have hprinted : (after overtaken).client.printed = [.sent 5, .received 6, .sent 6] := by
    decide +kernel
  exact ⟨hprinted, hprinted ▸ (printed_in_order 5 4 _ (after_reachable overtaken)).1⟩

/-- **Who leaves early, and why.** The client has given up after a completion has been late for it, or
because the server has left: after a completion has been late for the server, or because a value was
`I_M_DONE`. The server has given up after a completion has been late for it, or because the client has
left. -/
theorem left_early (seed rounds : UInt64) (s : State) (h : Reachable seed rounds s) :
    (s.client.ret = 0 ∨ s.client.ret = rpmaENoCompletion ∧ s.client.late = true ∨
      s.client.ret = -1 ∧ s.server.pc = .done ∧
        (s.server.ret = rpmaENoCompletion ∧ s.server.late = true ∨
          ∃ i < (rounds - 1).toNat, seed + .ofNat i = iMDone)) ∧
    (s.server.ret = 0 ∧ (s.server.pc = .done →
        s.client.pc = .done ∨ ∃ i < (rounds - 1).toNat, seed + .ofNat i = iMDone) ∨
      s.server.ret = rpmaENoCompletion ∧ s.server.late = true ∨
      s.server.ret = -1 ∧ s.client.pc = .done) := by
  obtain ⟨-, n, st, hflow, hreasons⟩ := h.inv
  constructor
  · by_cases hc : s.client.pc.active
    · exact Or.inl (hreasons.clientRuns hc)
    · exact (hreasons.clientLeft hc).imp_left And.left
  · by_cases hd : s.server.pc = .done
    · rcases hreasons.serverLeft hd with ⟨hret, hc | ⟨rfl, hv⟩⟩ | hleft
      · exact Or.inl ⟨hret, fun _ => Or.inl hc⟩
      · exact Or.inl ⟨hret, fun _ => Or.inr ⟨n, hflow.within, hv⟩⟩
      · exact Or.inr hleft
    · exact Or.inl ⟨hreasons.serverRuns hd, fun hd' => absurd hd' hd⟩

/-- The client has found nothing in the second round. -/
theorem left_early_overtaken :
    (after overtaken).client.ret = rpmaENoCompletion ∧ (after overtaken).client.late = true := by
  have hret : (after overtaken).client.ret = rpmaENoCompletion := by decide +kernel
  obtain ⟨hclient, -⟩ := left_early 5 4 _ (after_reachable overtaken)
  rcases hclient with hzero | hlate | ⟨hone, -⟩
  · exact absurd (hzero.symm.trans hret) (by decide)
  · exact hlate
  · exact absurd (hone.symm.trans hret) (by decide)

/-! ## Where the system stops -/

/-- Nobody can take a step. -/
def Stuck (s : State) : Prop := ∀ act, s.step act = none

theorem waitAndProcessCompletions_eq_none {g : Consumer} {cmpl : Cmpl} {q : CompQueue Wc}
    (h : waitAndProcessCompletions g cmpl q = none) : g = .getEvent ∧ q.getEvent = none := by
  cases g with
  | getEvent => exact ⟨rfl, Option.map_eq_none_iff.mp h⟩
  | notify => cases h
  | poll =>
    unfold waitAndProcessCompletions at h
    dsimp only at h
    split at h
    · cases h
    · split at h
      · cases h
      · split at h <;> cases h

theorem Client.step_eq_none {c : Client} (h : c.step = none) :
    c.pc = .done ∨ ∃ cmpl, c.pc = .wait .getEvent cmpl ∧ c.qp.cq.getEvent = none := by
  unfold step at h
  split at h
  case h_4 g cmpl hpc =>
    obtain ⟨rfl, hq⟩ := waitAndProcessCompletions_eq_none (Option.map_eq_none_iff.mp h)
    exact Or.inr ⟨cmpl, hpc, hq⟩
  case h_7 hpc => exact Or.inl hpc
  all_goals cases h

theorem Server.step_eq_none {v : Server} (h : v.step = none) :
    v.pc = .done ∨ ∃ cmpl, v.pc = .wait .getEvent cmpl ∧ v.qp.cq.getEvent = none := by
  unfold step at h
  split at h
  case h_1 g cmpl hpc =>
    obtain ⟨rfl, hq⟩ := waitAndProcessCompletions_eq_none (Option.map_eq_none_iff.mp h)
    exact Or.inr ⟨cmpl, hpc, hq⟩
  case h_2 =>
    split at h <;> cases h
  case h_5 hpc => exact Or.inl hpc
  all_goals cases h

/-- A process that is blocked has requests that are not finished. -/
theorem Attends.blocked {cmpl : Cmpl} {late : Bool} {gone : Prop} {p : End}
    (h : Attends (cmpl.duty .getEvent) late gone p) (hq : p.cq.getEvent = none) :
    arrived p = 0 ∧ p.unfinished + p.rq.length = (!cmpl.send).toNat + (!cmpl.recv).toNat ∧
      p.unfinished ≤ (!cmpl.send).toNat ∧ p.rq.length ≤ (!cmpl.recv).toNat := by
  have hcqes := h.woken.blocked hq
  have hs := h.sends
  have hr := h.recvs
  have ht := h.total
  simp only [arrived, hcqes, List.count_nil, List.length_nil, Nat.add_zero, Cmpl.duty] at hs hr ht ⊢
  exact ⟨trivial, ht, hs, hr⟩

theorem Cmpl.both {cmpl : Cmpl} (hs : (!cmpl.send).toNat = 0) (hr : (!cmpl.recv).toNat = 0) :
    cmpl = ⟨true, true⟩ := by
  obtain ⟨sent, got⟩ := cmpl
  cases sent with
  | false => cases hs
  | true =>
    cases got with
    | false => cases hr
    | true => rfl

/-- Where nothing can be delivered from `o` to `p`, nothing is on its way: the receive of `p` could
only be missing if its message is there, and there is one message at most. -/
theorem wire_eq_nil {cmpl : Cmpl} {p o : End} {l : List UInt64} (hone : l.length ≤ 1)
    (hin : inbound cmpl.recv.toNat p o = l) (hd : o.deliver false p = none)
    (harrived : arrived p = 0)
    (htotal : p.unfinished + p.rq.length = (!cmpl.send).toNat + (!cmpl.recv).toNat)
    (hsends : p.unfinished ≤ (!cmpl.send).toNat) : o.wire = [] := by
  refine Qp.deliver_eq_none hd fun hwire hrq => ?_
  have hrecv : cmpl.recv = true := by
    cases hc : cmpl.recv with
    | true => rfl
    | false =>
      rw [hrq, hc] at htotal
      simp only [List.length_nil, Bool.not_false, Bool.toNat_true] at htotal
      omega
  have hlen := congrArg List.length hin
  rw [inbound, harrived, hrecv, Qp.pending] at hlen
  simp only [List.length_append, List.length_replicate, List.length_map, Bool.toNat_true] at hlen
  have hpos := List.length_pos_iff.mpr hwire
  omega

theorem length_ite_le {P : Prop} [Decidable P] (v : UInt64) :
    (if P then [v] else []).length ≤ 1 := by
  split <;> simp

/-- Where the connection can do nothing with an end, it has sent everything, and every message that
was delivered is acknowledged. -/
theorem sent_of_stuck {left gone : Bool} {p o : End}
    (h : ∀ act, linkStep false left gone p o act = none) : p.sq = [] ∧ p.unacked = [] :=
  ⟨Qp.transmit_eq_none (Option.map_eq_none_iff.mp (h .transmit)),
    Qp.ack_eq_none (Option.map_eq_none_iff.mp (h .ack))⟩

/-- Both processes do not wait for each other. -/
theorem Stuck.not_both (hstuck : Stuck s) (hs : Sound s) (h : Flow seed total n st s)
    {cmpl cmpl' : Cmpl} (hc : s.client.pc = .wait .getEvent cmpl)
    (hcq : s.client.qp.cq.getEvent = none) (hd : s.server.pc = .wait .getEvent cmpl')
    (hdq : s.server.qp.cq.getEvent = none) : False := by
  have hactive : s.client.pc.active := by rw [hc]; trivial
  have hcd : s.client.pc ≠ .done := ClientPc.not_done hactive
  have hdd : s.server.pc ≠ .done := by rw [hd]; nofun
  obtain ⟨hcarr, hctotal, hcsends, hcrecvs⟩ :=
    (hs.client _ (congrArg ClientPc.duty hc)).blocked hcq
  obtain ⟨hdarr, hdtotal, hdsends, hdrecvs⟩ :=
    (hs.server _ (congrArg ServerPc.duty hd)).blocked hdq
  have hto := h.toServer hdd hcd
  have hfrom := (h.toClient hactive).eq hdd
  rw [State.toServer, hd] at hto
  rw [State.toClient, hc] at hfrom
  have hclink := fun act => Option.map_eq_none_iff.mp (hstuck (.link .client act))
  have hdlink := fun act => Option.map_eq_none_iff.mp (hstuck (.link .server act))
  have hcwire : s.client.qp.wire = [] :=
    wire_eq_nil (length_ite_le _) hto (hclink .deliver) hdarr hdtotal hdsends
  have hdwire : s.server.qp.wire = [] :=
    wire_eq_nil (length_ite_le _) hfrom (hdlink .deliver) hcarr hctotal hcsends
  obtain ⟨hcsq, hcun⟩ := sent_of_stuck hclink
  obtain ⟨hdsq, hdun⟩ := sent_of_stuck hdlink
  -- so each waits for its receive alone, and no message is under way
  have hnone : ∀ {p : End} {cmpl : Cmpl}, cmpl ≠ ⟨true, true⟩ → p.unfinished = 0 →
      p.unfinished + p.rq.length = (!cmpl.send).toNat + (!cmpl.recv).toNat →
      p.rq.length ≤ (!cmpl.recv).toNat → cmpl.recv = false := fun {p cmpl} hne hu ht hr => by
    cases hrecv : cmpl.recv with
    | false => rfl
    | true => exact absurd (Cmpl.both (by omega) (by simp [hrecv])) hne
  have hcrecv : cmpl.recv = false :=
    hnone (hs.clientWaits _ _ hc) (by simp [Qp.unfinished, hcsq, hcwire, hcun]) hctotal hcrecvs
  have hdrecv : cmpl'.recv = false :=
    hnone (hs.serverWaits _ _ hd) (by simp [Qp.unfinished, hdsq, hdwire, hdun]) hdtotal hdrecvs
  have hasked : st ≠ .asked := fun hst => by
    simp [inbound, ServerPc.taken, hdarr, hdrecv, Qp.pending, hcwire, hcsq, hst] at hto
  have hanswered : st ≠ .answered := fun hst => by
    simp [inbound, ClientPc.taken, hcarr, hcrecv, Qp.pending, hdwire, hdsq, hst] at hfrom
  have hanswering : st ≠ .answering := fun hst => by
    have hpc := h.answers.mp hst
    rw [hd] at hpc
    cases hpc
  have hturn : st ≠ .turn := fun hst => by
    have hpc := (h.asks hactive).mp hst
    rw [hc] at hpc
    cases hpc
  cases st <;> contradiction

/-- A process that waits while the other one is gone: its sends are completed. -/
theorem Attends.waits_alone {cmpl : Cmpl} {late left : Bool} {gone : Prop} {p o : End}
    (h : Attends (cmpl.duty .getEvent) late gone p) (hq : p.cq.getEvent = none)
    (hne : cmpl ≠ ⟨true, true⟩) (hlink : ∀ act, linkStep false left true p o act = none) :
    cmpl = ⟨true, false⟩ ∧ p.rq ≠ [] := by
  obtain ⟨hsq, hunacked⟩ := sent_of_stuck hlink
  obtain ⟨-, htotal, -, hrecvs⟩ := h.blocked hq
  have hout := Qp.abortSend_eq_none hunacked (Option.map_eq_none_iff.mp (hlink .abort))
  have hunfinished : p.unfinished = 0 := by
    unfold Qp.outgoing at hout
    simp only [Qp.unfinished, hunacked, List.length_nil]
    omega
  obtain ⟨sent, got⟩ := cmpl
  dsimp only at htotal hrecvs
  cases got with
  | true =>
    simp only [Bool.not_true, Bool.toNat_false] at htotal hrecvs
    have hsent : (!sent).toNat = 0 := by omega
    exact absurd (Cmpl.both hsent rfl) hne
  | false =>
    cases sent with
    | false =>
      simp only [Bool.not_false, Bool.toNat_true] at htotal hrecvs
      omega
    | true =>
      refine ⟨rfl, fun hrq => ?_⟩
      simp [hunfinished, hrq] at htotal

/-! ### The client's last message -/

/-- `I_M_DONE` is under way while the server has not left. -/
def State.Told (s : State) : Prop :=
  s.client.pc = .done → s.server.pc ≠ .done → iMDone ∈ s.toServer

theorem State.Told.clientMove {gone : Prop} {c : Client} (hm : ClientMove gone s.client c) :
    State.Told { s with client := c } := by
  obtain ⟨⟨pc, cntr, rounds, ret, printed, qp, late⟩, v⟩ := s
  cases hm with
  | loop | leave | recv | send | wait | got | giveUp | value => nofun
  | final hpc =>
    intro _ _
    have hin : State.toServer ⟨⟨.done, cntr, rounds, ret, printed,
        rpmaSend (qp.store .send iMDone) false, late⟩, v⟩ = _ := inbound_post false
    rw [hin, Qp.store_mem]
    exact List.mem_append_right _ List.mem_cons_self

theorem State.Told.serverMove (hs : Sound s) (h : s.Told) {gone : Prop} {v : Server}
    (hm : ServerMove gone s.server v) : State.Told { s with server := v } := by
  have hhandle := hs.toServer_handle
  obtain ⟨c, ⟨pc, ret, printed, qp, late⟩⟩ := s
  intro hc hd
  cases hm with
  | @wait g g' cmpl cmpl' q hpc _ hrecv _ =>
    obtain rfl : pc = _ := hpc
    have hin : inbound cmpl'.recv.toNat { qp with cq := q } c.qp = _ := inbound_congr hrecv rfl rfl
    exact (congrArg (iMDone ∈ ·) hin).mpr (h hc (by simp))
  | @got g cmpl q hpc _ hnone hrecv =>
    obtain rfl : pc = _ := hpc
    have hcount : arrived { qp with cq := q } + 1 = arrived qp + cmpl.recv.toNat := by
      rw [hnone, hrecv]
    have hin : inbound 1 { qp with cq := q } c.qp = _ := inbound_congr hcount rfl rfl
    exact (congrArg (iMDone ∈ ·) hin).mpr (h hc (by simp))
  | giveUp | stop => exact absurd rfl hd
  | handle hpc hv =>
    obtain rfl : pc = _ := hpc
    obtain ⟨hcons, hnone⟩ := hhandle rfl
    have htold := h hc (by simp)
    rw [hcons] at htold
    have hin : inbound 0 (qp.store .send (qp.mem .recv + 1)) c.qp = c.qp.pending := by
      rw [inbound, show arrived (qp.store .send (qp.mem .recv + 1)) = 0 from hnone]
      rfl
    exact (congrArg (iMDone ∈ ·) hin).mpr ((List.mem_cons.mp htold).resolve_left (Ne.symm hv))
  | recv hpc =>
    obtain rfl : pc = _ := hpc
    exact h hc (by simp)
  | send hpc =>
    obtain rfl : pc = _ := hpc
    exact h hc (by simp)

theorem State.Told.step (hs : Sound s) (h : s.Told) {act : Act} (hstep : s.step act = some s')
    (hact : act ≠ .link .client .flush) : s'.Told := by
  obtain ⟨c, hc, rfl⟩ | ⟨v, hv, rfl⟩ | ⟨p, o, hl, rfl⟩ := State.step_cases hstep
  · exact .clientMove (hs.clientMoves hc)
  · exact h.serverMove hs (hs.serverMoves hv)
  · intro hc hd
    rw [hs.toServer_link hl hact hd]
    exact h hc hd

/-- What holds after a run, and what does if it has not flushed the client's last message. -/
theorem State.run_inv {acts : List Act} (hs : Sound s) (h : Course seed total s)
    (hrun : s.run acts = some s') :
    Sound s' ∧ Course seed total s' ∧ (.link .client .flush ∉ acts → s.Told → s'.Told) := by
  induction acts generalizing s with
  | nil => exact Option.some.inj hrun ▸ ⟨hs, h, fun _ ht => ht⟩
  | cons act acts ih =>
    obtain ⟨t, ht, hrun⟩ := Option.bind_eq_some_iff.mp hrun
    obtain ⟨hs', hc', htold⟩ := ih (hs.step ht) (h.step hs ht) hrun
    refine ⟨hs', hc', fun hacts hts => htold (fun hm => hacts (List.mem_cons_of_mem act hm)) ?_⟩
    exact hts.step hs ht fun hact => hacts (hact ▸ List.mem_cons_self)

/-- Where the two processes are when no step is left. The server waits for the client only if
something of the client was `flushed`. -/
theorem Stuck.places {flushed : Prop} (hstuck : Stuck s) (hs : Sound s)
    (h : Flow seed total n st s) (htold : ¬ flushed → s.Told) :
    (s.client.pc = .done ∨
      s.client.pc = .wait .getEvent ⟨true, false⟩ ∧ s.client.qp.rq ≠ [] ∧ s.server.pc = .done) ∧
    (s.server.pc = .done ∨
      s.server.pc = .wait .getEvent ⟨true, false⟩ ∧ s.server.qp.rq ≠ [] ∧ s.client.pc = .done ∧
        flushed) := by
  have hclink := fun act => Option.map_eq_none_iff.mp (hstuck (.link .client act))
  have hdlink := fun act => Option.map_eq_none_iff.mp (hstuck (.link .server act))
  rcases Client.step_eq_none (Option.map_eq_none_iff.mp (hstuck .client)) with
    hc | ⟨cmpl, hc, hcq⟩ <;>
  rcases Server.step_eq_none (Option.map_eq_none_iff.mp (hstuck .server)) with
    hd | ⟨cmpl', hd, hdq⟩
  · exact ⟨Or.inl hc, Or.inl hd⟩
  · simp only [hc, decide_true] at hdlink
    obtain ⟨rfl, hrq⟩ := (hs.server _ (congrArg ServerPc.duty hd)).waits_alone hdq
      (hs.serverWaits _ _ hd) hdlink
    refine ⟨Or.inl hc, Or.inr ⟨hd, hrq, hc, ?_⟩⟩
    by_contra hkept
    -- nothing is under way to the server
    have hin := htold hkept hc (by simp [hd])
    obtain ⟨hsq, -⟩ := sent_of_stuck hclink
    have hwire := Qp.deliver_eq_none (hclink .deliver) fun _ => hrq
    have harrived := ((hs.server _ (congrArg ServerPc.duty hd)).blocked hdq).1
    simp [State.toServer, inbound, hd, ServerPc.taken, harrived, Qp.pending, hsq, hwire] at hin
  · simp only [hd, decide_true] at hclink
    obtain ⟨rfl, hrq⟩ := (hs.client _ (congrArg ClientPc.duty hc)).waits_alone hcq
      (hs.clientWaits _ _ hc) hclink
    exact ⟨Or.inr ⟨hc, hrq, hd⟩, Or.inl hd⟩
  · exact (hstuck.not_both hs h hc hcq hd hdq).elim

/-- **Where the system comes to rest**: the client has left, or it waits for an answer of a server
that has left; the server has left, or it waits for a client that has left and flushed what it had
posted. If no completion has been late and none of the values was `I_M_DONE`, the client has left
without an error, and everything has been printed. -/
theorem at_rest (seed rounds : UInt64) (acts : List Act) (s : State)
    (h : (State.start seed rounds).run acts = some s) (hstuck : Stuck s) :
    (s.client.pc = .done ∨
      s.client.pc = .wait .getEvent ⟨true, false⟩ ∧ s.client.qp.rq ≠ [] ∧ s.server.pc = .done) ∧
    (s.server.pc = .done ∨
      s.server.pc = .wait .getEvent ⟨true, false⟩ ∧ s.server.qp.rq ≠ [] ∧ s.client.pc = .done ∧
        .link .client .flush ∈ acts) ∧
    (s.client.late = false → s.server.late = false →
      (∀ i < (rounds - 1).toNat, seed + .ofNat i ≠ iMDone) →
      s.client.pc = .done ∧ s.client.ret = 0 ∧
        s.client.printed = (List.range (rounds - 1).toNat).flatMap (clientRound seed) ∧
        s.server.printed = (List.range (rounds - 1).toNat).flatMap (serverRound seed)) := by
  obtain ⟨hs, ⟨n, st, hflow, hreasons⟩, htold⟩ :=
    State.run_inv (.start seed rounds) ⟨0, .turn, .start seed rounds, .start seed rounds⟩ h
  have hplaces := hstuck.places hs hflow fun hacts =>
    htold hacts (by simp [State.Told, State.start])
  refine ⟨hplaces.1, hplaces.2, fun hlate hlate' hvalues => ?_⟩
  have hwithin := hflow.within
  have hc : s.client.pc = .done := by
    rcases hplaces.1 with hc | ⟨hc, -, hd⟩
    · exact hc
    · rcases hreasons.server_gone (by simp [hc]) hd with ⟨-, rfl, hv⟩ | ⟨-, hl⟩
      · exact absurd hv (hvalues n hwithin)
      · rw [hlate'] at hl
        cases hl
  have hna : ¬ s.client.pc.active := by
    rw [hc]
    exact id
  refine ⟨hc, ?_⟩
  rcases hreasons.clientLeft hna with ⟨hret, hst, hn⟩ | ⟨-, hl⟩ | ⟨-, -, ⟨-, hl⟩ | ⟨i, hi, hv⟩⟩
  · exact ⟨hret, hflow.complete hst hn⟩
  · rw [hlate] at hl
    cases hl
  · rw [hlate'] at hl
    cases hl
  · exact absurd hv (hvalues i hi)

/-- Three rounds, until `I_M_DONE` is posted. Each wait finds both completions, and no completion is
late. -/
def threeRounds : List Act :=
  let oneRound : List Act :=
    List.replicate 3 .client ++
      [.link .client .transmit, .link .client .deliver, .link .client .ack] ++
      List.replicate 6 .server ++
      [.link .server .transmit, .link .server .deliver, .link .server .ack] ++
      List.replicate 4 .client
  oneRound ++ oneRound ++ oneRound ++ List.replicate 2 .client

/-- `I_M_DONE` is delivered, or it is flushed. -/
def delivered : List Act :=
  threeRounds ++ [.link .client .transmit, .link .client .deliver, .link .client .ack] ++
    List.replicate 4 .server

def flushed : List Act := threeRounds ++ [.link .client .flush] ++ List.replicate 3 .server

/-- The server leaves, or it waits for the message that has been flushed. -/
theorem at_rest_three :
    (after delivered).client.printed =
        [.sent 5, .received 6, .sent 6, .received 7, .sent 7, .received 8] ∧
      (after delivered).server.pc = .done ∧
      (after flushed).server.pc = .wait .getEvent ⟨true, false⟩ ∧ (after flushed).client.ret = 0 := by
  have hstuck : Stuck (after delivered) := by
    intro act
    rcases act with _ | _ | ⟨side, act⟩
    · rfl
    · rfl
    · cases side <;> cases act <;> rfl
  have hstuck' : Stuck (after flushed) := by
    intro act
    rcases act with _ | _ | ⟨side, act⟩
    · rfl
    · rfl
    · cases side <;> cases act <;> rfl
  obtain ⟨-, hserver, h⟩ := at_rest 5 4 delivered _ (after_eq (by decide +kernel)) hstuck
  obtain ⟨-, hserver', h'⟩ := at_rest 5 4 flushed _ (after_eq (by decide +kernel)) hstuck'
  have hprinted := (h (by decide +kernel) (by decide +kernel) (by decide)).2.2.1
  have hret := (h' (by decide +kernel) (by decide +kernel) (by decide)).2.1
  have hdone : (after flushed).server.pc ≠ .done := by decide +kernel
  exact ⟨hprinted, hserver.resolve_right fun hw => absurd hw.2.2.2 (by decide),
    (hserver'.resolve_left hdone).1, hret⟩

end Runs

end Rpma.PingPong.Shared
