import Rpma.PingPong.Shared

/-!
# What a process waits for, over one completion queue

* `Duty`: the completions that a process has asked for and not got, and where it is with its queue.
* `Attends`: what its end of the connection looks like then. Every request that the process waits for
  is still unfinished or has its completion in the queue.
* **`Attends.wait_cases`**: how a step of `wait_and_process_completions` ends. It finds nothing only
  if a completion has been late, and an error only if the other side is `gone`.
* **`Sound.step`**: every step of the system keeps both ends attended to.
-/

namespace Rpma.PingPong.Shared

open Rpma.Lib Rpma.Librpma Relation

/-- Where a process is with its queue, and how many completions of sends and of receives it has asked
for and not got. -/
structure Duty where
  at_ : Consumer
  sends : Nat
  recvs : Nat

/-- The completions a wait still needs. -/
def Cmpl.duty (cmpl : Cmpl) (c : Consumer) : Duty := ⟨c, (!cmpl.send).toNat, (!cmpl.recv).toNat⟩

/-- What the client has asked for; nothing of it matters behind the loop. -/
def ClientPc.duty : ClientPc → Option Duty
  | .loop | .recv | .value => some ⟨.getEvent, 0, 0⟩
  | .send => some ⟨.getEvent, 0, 1⟩
  | .wait g cmpl => some (cmpl.duty g)
  | .final | .done => none

/-- What the server has asked for. -/
def ServerPc.duty : ServerPc → Option Duty
  | .handle | .recv => some ⟨.getEvent, 0, 0⟩
  | .send => some ⟨.getEvent, 0, 1⟩
  | .wait g cmpl => some (cmpl.duty g)
  | .done => none

/-- The number of completions of receives in the queue. -/
def arrived (p : End) : Nat := p.cq.cqes.count recvCmpl

/-- **The end of a process with the duty `d`.** Completions with an error are there only if the other
process is `gone`. -/
structure Attends (d : Duty) (late : Bool) (gone : Prop) (p : End) : Prop where
  woken : p.cq.Woken late d.at_
  kinds : ∀ wc ∈ p.cq.cqes, wc = sendCmpl ∨ wc = recvCmpl ∨ wc.success = false ∧ gone
  sends : p.unfinished + p.cq.cqes.count sendCmpl ≤ d.sends
  recvs : p.rq.length + arrived p ≤ d.recvs
  total : p.unfinished + p.rq.length + p.cq.cqes.length = d.sends + d.recvs
  sq : ∀ wr ∈ p.sq, wr.completion = some sendCmpl
  wire : ∀ m ∈ p.wire, m.2 = some sendCmpl
  unacked : ∀ c ∈ p.unacked, c = some sendCmpl
  rq : ∀ wr ∈ p.rq, wr.completion = recvCmpl

section Attends

variable {d : Duty} {late : Bool} {gone : Prop} {p p' : End} {q : CompQueue Wc}

theorem Attends.mono {gone' : Prop} (h : Attends d late gone p) (hg : gone → gone') :
    Attends d late gone' p :=
  { h with kinds := fun wc hwc => (h.kinds wc hwc).imp_right (Or.imp_right (And.imp_right hg)) }

/-- The completion `wc` comes in place of what it is the completion of. -/
theorem Attends.add (h : Attends d late gone p) {wc : Wc} (hcq : p'.cq = p.cq.add wc)
    (hkind : wc = sendCmpl ∨ wc = recvCmpl ∨ wc.success = false ∧ gone)
    (hsends : p'.unfinished + [wc].count sendCmpl ≤ p.unfinished)
    (hrecvs : p'.rq.length + [wc].count recvCmpl ≤ p.rq.length)
    (htotal : p'.unfinished + p'.rq.length + 1 = p.unfinished + p.rq.length)
    (hsq : p'.sq <:+ p.sq) (hwire : p'.wire <:+ p.wire) (hunacked : p'.unacked <:+ p.unacked)
    (hrq : p'.rq <:+ p.rq) : Attends d (late || d.at_.polls) gone p' := by
  have hcqes : p'.cq.cqes = p.cq.cqes ++ [wc] := congrArg CompQueue.cqes hcq
  have hs := h.sends
  have hr := h.recvs
  have ht := h.total
  refine ⟨hcq ▸ h.woken.add wc, ?_, ?_, ?_, ?_, fun wr hwr => h.sq wr (hsq.mem hwr),
    fun m hm => h.wire m (hwire.mem hm), fun c hc => h.unacked c (hunacked.mem hc),
    fun wr hwr => h.rq wr (hrq.mem hwr)⟩
  · intro wc' hwc'
    rw [hcqes] at hwc'
    rcases List.mem_append.mp hwc' with hwc' | hwc'
    · exact h.kinds wc' hwc'
    · exact List.mem_singleton.mp hwc' ▸ hkind
  · rw [hcqes, List.count_append]
    omega
  · rw [arrived, hcqes, List.count_append]
    unfold arrived at hr
    omega
  · rw [hcqes, List.length_append, List.length_singleton]
    omega

theorem Attends.transmit (h : Attends d late gone p) (hp : p.transmit = some p') :
    Attends d late gone p' := by
  obtain ⟨wr, sq, hsq, rfl⟩ := Qp.transmit_cases hp
  have hunfinished : Qp.unfinished { p with
      sq := sq, wire := p.wire ++ [(p.mem wr.addr, wr.completion)] } = p.unfinished := by
    simp only [Qp.unfinished, hsq, List.length_append, List.length_cons, List.length_nil]
    omega
  refine { h with
    sends := by rw [hunfinished]; exact h.sends
    total := by rw [hunfinished]; exact h.total
    sq := fun wr' hwr' => h.sq wr' (by simp [hsq, hwr'])
    wire := fun m hm => ?_ }
  rcases List.mem_append.mp hm with hm | hm
  · exact h.wire m hm
  · rw [List.mem_singleton.mp hm]
    exact h.sq wr (by simp [hsq])

theorem Attends.sent (h : Attends d late gone p) {m : UInt64 × Option Wc}
    {wire : List (UInt64 × Option Wc)} (hwire : p.wire = m :: wire) :
    Attends d late gone p.sent := by
  have hunfinished : p.sent.unfinished = p.unfinished := by
    simp only [Qp.unfinished, Qp.sent, hwire, List.tail_cons, List.head?_cons, Option.toList_some,
      List.map_cons, List.map_nil, List.length_append, List.length_cons, List.length_nil]
    omega
  refine { h with
    sends := by rw [hunfinished]; exact h.sends
    total := by rw [hunfinished]; exact h.total
    wire := fun m' hm' => h.wire m' (List.mem_of_mem_tail hm')
    unacked := fun c hc => ?_ }
  rcases List.mem_append.mp hc with hc | hc
  · exact h.unacked c hc
  · obtain rfl : c = m.2 := by simpa [hwire] using hc
    exact h.wire m (by simp [hwire])

theorem Attends.ack (h : Attends d late gone p) (hp : p.ack = some p') :
    Attends d (late || d.at_.polls) gone p' ∧ p'.cq ≠ p.cq := by
  obtain ⟨unacked, hu, rfl⟩ | ⟨wc, unacked, hu, rfl⟩ := Qp.ack_cases hp
  · exact absurd (h.unacked none (by simp [hu])) (by simp)
  · obtain rfl : wc = sendCmpl := Option.some.inj (h.unacked _ (by simp [hu]))
    refine ⟨h.add rfl (Or.inl rfl) ?_ (Nat.le_refl _) ?_ List.suffix_rfl List.suffix_rfl
      (hu ▸ List.suffix_cons _ unacked) List.suffix_rfl, CompQueue.add_ne _ _⟩
    · simp only [Qp.unfinished, hu, List.length_cons, List.count_singleton_self]
      omega
    · simp only [Qp.unfinished, hu, List.length_cons]
      omega

theorem Attends.received (h : Attends d late gone p) {wr : RecvWr Buf Wc}
    {rq : List (RecvWr Buf Wc)} (hrq : p.rq = wr :: rq) (m : UInt64) :
    Attends d (late || d.at_.polls) gone (p.received false wr m) ∧
      (p.received false wr m).cq ≠ p.cq := by
  have hwc : wr.completion = recvCmpl := h.rq wr (by simp [hrq])
  have hcq : (p.received false wr m).cq = p.cq.add recvCmpl := by rw [← hwc]; rfl
  refine ⟨h.add hcq (Or.inr (Or.inl rfl)) (Nat.le_refl _) ?_ ?_ List.suffix_rfl List.suffix_rfl
    List.suffix_rfl (List.tail_suffix _), hcq ▸ CompQueue.add_ne _ _⟩
  · simp [Qp.received, hrq]
  · simp only [Qp.received, hrq, List.tail_cons, List.length_cons, Qp.unfinished]
    omega

theorem Attends.abortRecv (h : Attends d late gone p) {wrId : Option Buf} {opcode : Opcode}
    (hp : p.abortRecv false (failed opcode wrId) = some p') (hg : gone) :
    Attends d (late || d.at_.polls) gone p' ∧ p'.cq ≠ p.cq := by
  obtain ⟨wr, rq, hrq, rfl⟩ := Qp.abortRecv_cases hp
  refine ⟨h.add rfl (Or.inr (Or.inr ⟨rfl, hg⟩)) (Nat.le_refl _) ?_ ?_ List.suffix_rfl
    List.suffix_rfl List.suffix_rfl (hrq ▸ List.suffix_cons wr rq), CompQueue.add_ne _ _⟩
  · simp [hrq, failed, recvCmpl]
  · simp only [hrq, List.length_cons, Qp.unfinished]
    omega

theorem Attends.abortSend (h : Attends d late gone p) {wrId : Option Buf} {opcode : Opcode}
    (hp : p.abortSend (failed opcode wrId) = some p') (hg : gone) :
    Attends d (late || d.at_.polls) gone p' ∧ p'.cq ≠ p.cq := by
  obtain ⟨-, sq, wire, rfl, hsq, hwire, hlen⟩ := Qp.abortSend_cases hp
  have hunfinished : Qp.unfinished { p with
      sq := sq, wire := wire, cq := p.cq.add (failed opcode wrId) } + 1 = p.unfinished := by
    simp only [Qp.outgoing] at hlen
    simp only [Qp.unfinished]
    omega
  refine ⟨h.add rfl (Or.inr (Or.inr ⟨rfl, hg⟩)) ?_ (Nat.le_refl _) ?_ hsq hwire List.suffix_rfl
    List.suffix_rfl, CompQueue.add_ne _ _⟩
  · have hcount : [failed opcode wrId].count sendCmpl = 0 := by simp [failed, sendCmpl]
    omega
  · have hrq : Qp.unfinished { p with
        sq := sq, wire := wire, cq := p.cq.add (failed opcode wrId) } + p.rq.length + 1 =
        p.unfinished + p.rq.length := by omega
    exact hrq

theorem Attends.store (h : Attends d late gone p) (v : UInt64) :
    Attends d late gone (p.store .send v) := { h with }

theorem Attends.postRecv {n : Nat} (h : Attends ⟨.getEvent, n, 0⟩ late gone p) :
    Attends ⟨.getEvent, n, 1⟩ late gone (rpmaRecv p) := by
  have hr := h.recvs
  have ht := h.total
  refine { h with recvs := ?_, total := ?_, rq := fun wr hwr => ?_ }
  · simp only [rpmaRecv, Qp.postRecv, arrived, List.length_append, List.length_singleton] at hr ⊢
    omega
  · simp only [rpmaRecv, Qp.postRecv, Qp.unfinished, List.length_append,
      List.length_singleton] at ht ⊢
    omega
  · rcases List.mem_append.mp hwr with hwr | hwr
    · exact h.rq wr hwr
    · exact List.mem_singleton.mp hwr ▸ rfl

theorem Attends.postSend {n : Nat} (h : Attends ⟨.getEvent, 0, n⟩ late gone p) :
    Attends ⟨.getEvent, 1, n⟩ late gone (rpmaSend p true) := by
  have hs := h.sends
  have ht := h.total
  refine { h with sends := ?_, total := ?_, sq := fun wr hwr => ?_ }
  · simp only [rpmaSend, Qp.postSend, Qp.unfinished, List.length_append,
      List.length_singleton] at hs ⊢
    omega
  · simp only [rpmaSend, Qp.postSend, Qp.unfinished, List.length_append,
      List.length_singleton] at ht ⊢
    omega
  · rcases List.mem_append.mp hwr with hwr | hwr
    · exact h.sq wr hwr
    · exact List.mem_singleton.mp hwr ▸ rfl

/-! ### Waiting -/

/-- What the completions that were got change. -/
theorem validate_cases {wcs : List Wc} {cmpl : Cmpl}
    (hkinds : ∀ wc ∈ wcs, wc = sendCmpl ∨ wc = recvCmpl ∨ wc.success = false ∧ gone)
    (hs : wcs.count sendCmpl ≤ (!cmpl.send).toNat) (hr : wcs.count recvCmpl ≤ (!cmpl.recv).toNat) :
    (∃ cmpl', validate wcs cmpl = (0, cmpl') ∧
      (!cmpl'.send).toNat + wcs.count sendCmpl = (!cmpl.send).toNat ∧
      (!cmpl'.recv).toNat + wcs.count recvCmpl = (!cmpl.recv).toNat ∧
      wcs.length = wcs.count sendCmpl + wcs.count recvCmpl) ∨
    gone ∧ ∃ cmpl', validate wcs cmpl = (-1, cmpl') := by
  induction wcs generalizing cmpl with
  | nil => exact Or.inl ⟨cmpl, rfl, rfl, rfl, rfl⟩
  | cons wc wcs ih =>
    have hrest : ∀ wc' ∈ wcs, wc' = sendCmpl ∨ wc' = recvCmpl ∨ wc'.success = false ∧ gone :=
      fun wc' hwc' => hkinds wc' (List.mem_cons_of_mem wc hwc')
    have hne : sendCmpl ≠ recvCmpl := by decide
    obtain ⟨sent, got⟩ := cmpl
    obtain rfl | rfl | ⟨hfail, hgone⟩ := hkinds wc List.mem_cons_self
    · rw [List.count_cons_self] at hs ⊢
      rw [List.count_cons_of_ne hne] at hr ⊢
      obtain rfl : sent = false := by cases sent <;> simp_all
      have hstep : validate (sendCmpl :: wcs) ⟨false, got⟩ = validate wcs ⟨true, got⟩ := rfl
      rw [hstep, List.length_cons]
      have hs' : wcs.count sendCmpl ≤ (!true).toNat := by simpa using hs
      rcases @ih ⟨true, got⟩ hrest hs' hr with ⟨cmpl', hv, hs', hr', hlen⟩ | hfail
      · refine Or.inl ⟨cmpl', hv, ?_, hr', ?_⟩
        · simp only [Bool.not_true, Bool.toNat_false, Bool.not_false, Bool.toNat_true] at hs' ⊢
          omega
        · omega
      · exact Or.inr hfail
    · rw [List.count_cons_self] at hr ⊢
      rw [List.count_cons_of_ne hne.symm] at hs ⊢
      obtain rfl : got = false := by cases got <;> simp_all
      have hstep : validate (recvCmpl :: wcs) ⟨sent, false⟩ = validate wcs ⟨sent, true⟩ := rfl
      rw [hstep, List.length_cons]
      have hr' : wcs.count recvCmpl ≤ (!true).toNat := by simpa using hr
      rcases @ih ⟨sent, true⟩ hrest hs hr' with ⟨cmpl', hv, hs', hr', hlen⟩ | hfail
      · refine Or.inl ⟨cmpl', hv, hs', ?_, ?_⟩
        · simp only [Bool.not_true, Bool.toNat_false, Bool.not_false, Bool.toNat_true] at hr' ⊢
          omega
        · omega
      · exact Or.inr hfail
    · have hstep : validate (wc :: wcs) ⟨sent, got⟩ = (-1, ⟨sent, got⟩) := by
        simp [validate, validateWc, hfail]
      exact Or.inr ⟨hgone, _, hstep⟩

/-- **How a step of a wait ends.** -/
theorem Attends.wait_cases {g : Consumer} {cmpl : Cmpl} {r : Consumer × Cmpl ⊕ Int}
    (h : Attends (cmpl.duty g) late gone p)
    (hw : waitAndProcessCompletions g cmpl p.cq = some (q, r)) :
    (∃ g' cmpl', r = .inl (g', cmpl') ∧ Attends (cmpl'.duty g') late gone { p with cq := q } ∧
      arrived { p with cq := q } + cmpl'.recv.toNat = arrived p + cmpl.recv.toNat ∧
      (cmpl ≠ ⟨true, true⟩ → cmpl' ≠ ⟨true, true⟩)) ∨
    (r = .inr 0 ∧ Attends ⟨.getEvent, 0, 0⟩ late gone { p with cq := q } ∧
      arrived { p with cq := q } = 0 ∧ arrived p + cmpl.recv.toNat = 1) ∨
    (r = .inr rpmaENoCompletion ∧ late = true) ∨ (r = .inr (-1) ∧ gone) := by
  have hs := h.sends
  have hr := h.recvs
  have ht := h.total
  cases g with
  | getEvent =>
    obtain ⟨q₁, hq₁, heq⟩ := Option.map_eq_some_iff.mp hw
    obtain ⟨rfl, rfl⟩ := Prod.mk.inj heq
    obtain ⟨hwoken, hcqes⟩ := h.woken.getEvent hq₁
    refine Or.inl ⟨.notify, cmpl, rfl, ⟨hwoken, hcqes ▸ h.kinds, ?_, ?_, ?_, h.sq, h.wire,
      h.unacked, h.rq⟩, ?_, id⟩
    · rwa [hcqes]
    · rwa [arrived, hcqes]
    · rwa [hcqes]
    · rw [arrived, hcqes, arrived]
  | notify =>
    obtain ⟨rfl, rfl⟩ := Prod.mk.inj (Option.some.inj hw)
    exact Or.inl ⟨.poll, cmpl, rfl, { h with woken := h.woken.notify }, rfl, id⟩
  | poll =>
    have hlen : p.cq.cqes.length ≤ maxNWc := by
      have hone := Bool.toNat_le (!cmpl.send)
      have hone' := Bool.toNat_le (!cmpl.recv)
      simp only [Cmpl.duty] at ht
      unfold maxNWc
      omega
    obtain ⟨hgot, hleft, hwoken, hnone⟩ := h.woken.poll hlen
    unfold waitAndProcessCompletions at hw
    dsimp only at hw
    split at hw
    · rename_i q' hpoll
      obtain ⟨rfl, rfl⟩ := Prod.mk.inj (Option.some.inj hw)
      rw [hpoll] at hgot
      exact Or.inr (Or.inr (Or.inl ⟨rfl, hnone hgot.symm⟩))
    · rename_i wcs q' hne hpoll
      rw [hpoll] at hgot hleft hwoken
      dsimp only at hgot hleft hwoken
      subst hgot
      have hs' : p.cq.cqes.count sendCmpl ≤ (!cmpl.send).toNat := by
        simp only [Cmpl.duty] at hs
        omega
      have hr' : p.cq.cqes.count recvCmpl ≤ (!cmpl.recv).toNat := by
        simp only [Cmpl.duty, arrived] at hr
        omega
      rcases validate_cases h.kinds hs' hr' with ⟨cmpl', hv, hsent, hrecv, hall⟩ |
        ⟨hgone, cmpl', hv⟩
      · -- nothing is left in the queue
        have hafter : ∀ d : Duty, d.at_ = .getEvent → d.sends = (!cmpl'.send).toNat →
            d.recvs = (!cmpl'.recv).toNat → Attends d late gone { p with cq := q' } := by
          intro d hat hds hdr
          refine ⟨hat ▸ hwoken, by simp [hleft], ?_, ?_, ?_, h.sq, h.wire, h.unacked, h.rq⟩
          · simp only [hleft, List.count_nil, Qp.unfinished] at hs ⊢
            simp only [Cmpl.duty] at hs
            omega
          · simp only [arrived, hleft, List.count_nil, Cmpl.duty] at hr ⊢
            omega
          · simp only [hleft, List.length_nil, Qp.unfinished, Cmpl.duty] at ht ⊢
            omega
        have hzero : arrived { p with cq := q' } = 0 := by simp [arrived, hleft]
        have harrived : arrived p = p.cq.cqes.count recvCmpl := rfl
        simp only [hv, ne_eq, not_true, if_false] at hw
        split at hw
        · rename_i hmore
          obtain ⟨rfl, rfl⟩ := Prod.mk.inj (Option.some.inj hw)
          refine Or.inl ⟨.getEvent, cmpl', rfl, hafter _ rfl rfl rfl, ?_, fun _ => ?_⟩
          · rw [hzero, harrived]
            cases hc : cmpl.recv <;> cases hc' : cmpl'.recv <;> simp [hc, hc'] at hrecv ⊢ <;> omega
          · rintro rfl
            simp at hmore
        · rename_i hboth
          obtain ⟨rfl, rfl⟩ := Prod.mk.inj (Option.some.inj hw)
          obtain ⟨hsend, hgot⟩ : cmpl'.send = true ∧ cmpl'.recv = true := by
            simpa using hboth
          refine Or.inr (Or.inl ⟨rfl, hafter _ rfl ?_ ?_, hzero, ?_⟩)
          · simp [hsend]
          · simp [hgot]
          · rw [harrived]
            cases hc : cmpl.recv <;> simp [hc, hgot] at hrecv ⊢ <;> omega
      · simp only [hv] at hw
        obtain ⟨-, rfl⟩ := Prod.mk.inj (Option.some.inj hw)
        exact Or.inr (Or.inr (Or.inr ⟨rfl, hgone⟩))

end Attends

/-! ## What the processes do -/

/-- What a process that has given up returns: it found nothing and a completion had been late, or an
error and the other process is gone. -/
def GaveUp (late : Bool) (gone : Prop) (ret : Int) : Prop :=
  ret = rpmaENoCompletion ∧ late = true ∨ ret = -1 ∧ gone

/-- The steps of the client. -/
inductive ClientMove (gone : Prop) (c : Client) : Client → Prop
  | loop (hpc : c.pc = .loop) (hrounds : c.rounds - 1 ≠ 0) :
      ClientMove gone c { c with rounds := c.rounds - 1, pc := .recv }
  | leave (hpc : c.pc = .loop) (hrounds : c.rounds - 1 = 0) :
      ClientMove gone c { c with rounds := c.rounds - 1, pc := .final }
  | recv (hpc : c.pc = .recv) : ClientMove gone c { c with qp := rpmaRecv c.qp, pc := .send }
  | send (hpc : c.pc = .send) :
      ClientMove gone c { c with
        printed := c.printed ++ [.sent c.cntr]
        qp := rpmaSend (c.qp.store .send c.cntr) true
        pc := .wait .getEvent ⟨false, false⟩ }
  | wait {g g' : Consumer} {cmpl cmpl' : Cmpl} {q : CompQueue Wc} (hpc : c.pc = .wait g cmpl)
      (hq : Attends (cmpl'.duty g') c.late gone { c.qp with cq := q })
      (hrecv : arrived { c.qp with cq := q } + cmpl'.recv.toNat = arrived c.qp + cmpl.recv.toNat)
      (hmore : cmpl ≠ ⟨true, true⟩ → cmpl' ≠ ⟨true, true⟩) :
      ClientMove gone c { c with qp := { c.qp with cq := q }, pc := .wait g' cmpl' }
  | got {g : Consumer} {cmpl : Cmpl} {q : CompQueue Wc} (hpc : c.pc = .wait g cmpl)
      (hq : Attends ⟨.getEvent, 0, 0⟩ c.late gone { c.qp with cq := q })
      (hnone : arrived { c.qp with cq := q } = 0) (hrecv : arrived c.qp + cmpl.recv.toNat = 1) :
      ClientMove gone c { c with qp := { c.qp with cq := q }, ret := 0, pc := .value }
  | giveUp {g : Consumer} {cmpl : Cmpl} {q : CompQueue Wc} {ret : Int} (hpc : c.pc = .wait g cmpl)
      (hret : GaveUp c.late gone ret) :
      ClientMove gone c { c with qp := { c.qp with cq := q }, ret := ret, pc := .final }
  | value (hpc : c.pc = .value) :
      ClientMove gone c { c with
        cntr := c.qp.mem .recv
        printed := c.printed ++ [.received (c.qp.mem .recv)]
        pc := .loop }
  | final (hpc : c.pc = .final) :
      ClientMove gone c { c with qp := rpmaSend (c.qp.store .send iMDone) false, pc := .done }

theorem Client.moves {c c' : Client} {gone : Prop}
    (h : ∀ d, c.pc.duty = some d → Attends d c.late gone c.qp) (hs : c.step = some c') :
    ClientMove gone c c' := by
  unfold step at hs
  split at hs
  · rename_i hpc
    obtain rfl := Option.some.inj hs
    by_cases hrounds : c.rounds - 1 = 0
    · simpa [hrounds] using ClientMove.leave hpc hrounds
    · simpa [hrounds] using ClientMove.loop hpc hrounds
  · rename_i hpc
    exact Option.some.inj hs ▸ .recv hpc
  · rename_i hpc
    exact Option.some.inj hs ▸ .send hpc
  · rename_i g cmpl hpc
    obtain ⟨⟨q, r⟩, hw, rfl⟩ := Option.map_eq_some_iff.mp hs
    obtain ⟨g', cmpl', rfl, hq, hrecv, hmore⟩ | ⟨rfl, hq, hnone, hrecv⟩ | ⟨rfl, hlate⟩ |
      ⟨rfl, hgone⟩ := (h _ (congrArg ClientPc.duty hpc)).wait_cases hw
    · exact .wait hpc hq hrecv hmore
    · exact .got hpc hq hnone hrecv
    · exact .giveUp hpc (Or.inl ⟨rfl, hlate⟩)
    · exact .giveUp hpc (Or.inr ⟨rfl, hgone⟩)
  · rename_i hpc
    exact Option.some.inj hs ▸ .value hpc
  · rename_i hpc
    exact Option.some.inj hs ▸ .final hpc
  · cases hs

/-- The steps of the server. -/
inductive ServerMove (gone : Prop) (v : Server) : Server → Prop
  | wait {g g' : Consumer} {cmpl cmpl' : Cmpl} {q : CompQueue Wc} (hpc : v.pc = .wait g cmpl)
      (hq : Attends (cmpl'.duty g') v.late gone { v.qp with cq := q })
      (hrecv : arrived { v.qp with cq := q } + cmpl'.recv.toNat = arrived v.qp + cmpl.recv.toNat)
      (hmore : cmpl ≠ ⟨true, true⟩ → cmpl' ≠ ⟨true, true⟩) :
      ServerMove gone v { v with qp := { v.qp with cq := q }, pc := .wait g' cmpl' }
  | got {g : Consumer} {cmpl : Cmpl} {q : CompQueue Wc} (hpc : v.pc = .wait g cmpl)
      (hq : Attends ⟨.getEvent, 0, 0⟩ v.late gone { v.qp with cq := q })
      (hnone : arrived { v.qp with cq := q } = 0) (hrecv : arrived v.qp + cmpl.recv.toNat = 1) :
      ServerMove gone v { v with qp := { v.qp with cq := q }, ret := 0, pc := .handle }
  | giveUp {g : Consumer} {cmpl : Cmpl} {q : CompQueue Wc} {ret : Int} (hpc : v.pc = .wait g cmpl)
      (hret : GaveUp v.late gone ret) :
      ServerMove gone v { v with qp := { v.qp with cq := q }, ret := ret, pc := .done }
  | stop (hpc : v.pc = .handle) (hv : v.qp.mem .recv = iMDone) :
      ServerMove gone v { v with pc := .done }
  | handle (hpc : v.pc = .handle) (hv : v.qp.mem .recv ≠ iMDone) :
      ServerMove gone v { v with
        printed := v.printed ++ [.received (v.qp.mem .recv)]
        qp := v.qp.store .send (v.qp.mem .recv + 1)
        pc := .recv }
  | recv (hpc : v.pc = .recv) : ServerMove gone v { v with qp := rpmaRecv v.qp, pc := .send }
  | send (hpc : v.pc = .send) :
      ServerMove gone v { v with
        printed := v.printed ++ [.sent (v.qp.mem .send)]
        qp := rpmaSend v.qp true
        pc := .wait .getEvent ⟨false, false⟩ }

theorem Server.moves {v v' : Server} {gone : Prop}
    (h : ∀ d, v.pc.duty = some d → Attends d v.late gone v.qp) (hs : v.step = some v') :
    ServerMove gone v v' := by
  unfold step at hs
  split at hs
  · rename_i g cmpl hpc
    obtain ⟨⟨q, r⟩, hw, rfl⟩ := Option.map_eq_some_iff.mp hs
    obtain ⟨g', cmpl', rfl, hq, hrecv, hmore⟩ | ⟨rfl, hq, hnone, hrecv⟩ | ⟨rfl, hlate⟩ |
      ⟨rfl, hgone⟩ := (h _ (congrArg ServerPc.duty hpc)).wait_cases hw
    · exact .wait hpc hq hrecv hmore
    · exact .got hpc hq hnone hrecv
    · exact .giveUp hpc (Or.inl ⟨rfl, hlate⟩)
    · exact .giveUp hpc (Or.inr ⟨rfl, hgone⟩)
  · rename_i hpc
    split at hs
    · rename_i hv
      exact Option.some.inj hs ▸ .stop hpc hv
    · rename_i hv
      exact Option.some.inj hs ▸ .handle hpc hv
  · rename_i hpc
    exact Option.some.inj hs ▸ .recv hpc
  · rename_i hpc
    exact Option.some.inj hs ▸ .send hpc
  · cases hs

/-! ## What the connection does -/

/-- What the connection makes of the two ends. -/
inductive Link (s : State) : Act → End → End → Prop
  | ofClient {act : LinkAct} {p o : End}
      (h : Linked false (s.client.pc = .done) (s.server.pc = .done) s.client.qp s.server.qp act p o) :
      Link s (.link .client act) p o
  | ofServer {act : LinkAct} {p o : End}
      (h : Linked false (s.server.pc = .done) (s.client.pc = .done) s.server.qp s.client.qp act o p) :
      Link s (.link .server act) p o

/-- A step is one of the client, of the server, or of the connection. -/
theorem State.step_cases {s s' : State} {act : Act} (hs : s.step act = some s') :
    (∃ c, s.client.step = some c ∧ s' = { s with client := c }) ∨
    (∃ v, s.server.step = some v ∧ s' = { s with server := v }) ∨
    ∃ p o, Link s act p o ∧ s' = s.moved p o := by
  cases act with
  | client =>
    obtain ⟨c, hc, rfl⟩ := Option.map_eq_some_iff.mp hs
    exact Or.inl ⟨c, hc, rfl⟩
  | server =>
    obtain ⟨v, hv, rfl⟩ := Option.map_eq_some_iff.mp hs
    exact Or.inr (Or.inl ⟨v, hv, rfl⟩)
  | link side act =>
    refine Or.inr (Or.inr ?_)
    cases side with
    | client =>
      obtain ⟨⟨p, o⟩, hl, rfl⟩ := Option.map_eq_some_iff.mp hs
      exact ⟨p, o, .ofClient (linkStep_cases hl), rfl⟩
    | server =>
      obtain ⟨⟨o, p⟩, hl, rfl⟩ := Option.map_eq_some_iff.mp hs
      exact ⟨p, o, .ofServer (linkStep_cases hl), rfl⟩

/-- What the connection makes of one end. -/
inductive Touched (left gone : Prop) (p : End) : End → Prop
  | same : Touched left gone p p
  | moves {p' : End} (h : p.Moves p') : Touched left gone p p'
  | sent {m : UInt64 × Option Wc} {wire : List (UInt64 × Option Wc)} (h : p.wire = m :: wire) :
      Touched left gone p p.sent
  | received {wr : RecvWr Buf Wc} {rq : List (RecvWr Buf Wc)} (h : p.rq = wr :: rq) (m : UInt64) :
      Touched left gone p (p.received false wr m)
  | flush {p' : End} (hleft : left) (h : p.flush = some p') : Touched left gone p p'
  | abort {p' : End} (hgone : gone) (h : p.abortSend (failed .send none) = some p') :
      Touched left gone p p'
  | abortRecv {p' : End} (hfailed : failed .send none ∈ p.cq.cqes)
      (h : p.abortRecv false (failed .recv (some .recv)) = some p') : Touched left gone p p'

section Linked

variable {left gone : Prop} [Decidable left] [Decidable gone] {act : LinkAct} {p o p' o' : End}

/-- The end that something is done with. -/
theorem touched_of_linked (h : Linked false left gone p o act p' o') : Touched left gone p p' := by
  cases h with
  | transmit h => exact .moves (Or.inl h)
  | deliver hwire _ => exact .sent hwire
  | ack h => exact .moves (Or.inr h)
  | flush hleft h => exact .flush (of_decide_eq_true hleft) h
  | abort hgone h => exact .abort (of_decide_eq_true hgone) h
  | abortRecv hfailed h => exact .abortRecv hfailed h

/-- The other end, which only receives. -/
theorem touched_of_linked_other {left' gone' : Prop} (h : Linked false left gone p o act p' o') :
    Touched left' gone' o o' := by
  cases h with
  | deliver _ hrq => exact .received hrq _
  | transmit | ack | flush | abort | abortRecv => exact .same

end Linked

section Link

variable {s : State} {act : Act} {p o : End}

theorem Link.client (h : Link s act p o) :
    Touched (s.client.pc = .done) (s.server.pc = .done) s.client.qp p := by
  cases h with
  | ofClient h => exact touched_of_linked h
  | ofServer h => exact touched_of_linked_other h

theorem Link.server (h : Link s act p o) :
    Touched (s.server.pc = .done) (s.client.pc = .done) s.server.qp o := by
  cases h with
  | ofClient h => exact touched_of_linked_other h
  | ofServer h => exact touched_of_linked h

end Link

section Touched

variable {d : Duty} {late : Bool} {l g : Prop} {p p' : End}

/-- The connection keeps an end attended to; it is late where it changes the queue before a poll. -/
theorem Attends.touched (h : Attends d late g p) (hleft : ¬ l) (ht : Touched l g p p') :
    Attends d (late || (d.at_.polls && decide (p'.cq ≠ p.cq))) g p' := by
  have hsame : p'.cq = p.cq → Attends d late g p' →
      Attends d (late || (d.at_.polls && decide (p'.cq ≠ p.cq))) g p' := fun hcq h' => by
    simpa [hcq] using h'
  have hadd : Attends d (late || d.at_.polls) g p' ∧ p'.cq ≠ p.cq →
      Attends d (late || (d.at_.polls && decide (p'.cq ≠ p.cq))) g p' := fun h' => by
    simpa [h'.2] using h'.1
  cases ht with
  | same => exact hsame rfl h
  | moves hm =>
    rcases hm with hm | hm
    · refine hsame ?_ (h.transmit hm)
      obtain ⟨wr, sq, -, rfl⟩ := Qp.transmit_cases hm
      rfl
    · exact hadd (h.ack hm)
  | sent hwire => exact hsame rfl (h.sent hwire)
  | received hrq m => exact hadd (h.received hrq m)
  | flush hl _ => exact absurd hl hleft
  | abort hg ha => exact hadd (h.abortSend ha hg)
  | abortRecv hfailed ha =>
    -- there are failures only if the other process is gone
    refine hadd (h.abortRecv ha ?_)
    rcases h.kinds _ hfailed with hsend | hrecv | ⟨-, hg⟩
    · exact absurd hsend (by decide)
    · exact absurd hrecv (by decide)
    · exact hg

/-- What is sent is read from `send`, and what is received goes to `recv`. -/
structure Aimed (p : End) : Prop where
  sq : ∀ wr ∈ p.sq, wr.addr = .send
  rq : ∀ wr ∈ p.rq, wr.addr = .recv

theorem Aimed.touched (h : Aimed p) (ht : Touched l g p p') : Aimed p' := by
  cases ht with
  | same => exact h
  | moves hm =>
    rcases hm with hm | hm
    · obtain ⟨wr, sq, hsq, rfl⟩ := Qp.transmit_cases hm
      exact ⟨fun wr' hwr' => h.sq wr' (by simp [hsq, hwr']), h.rq⟩
    · obtain ⟨unacked, -, rfl⟩ | ⟨wc, unacked, -, rfl⟩ := Qp.ack_cases hm <;> exact ⟨h.sq, h.rq⟩
  | sent _ => exact ⟨h.sq, h.rq⟩
  | received _ _ => exact ⟨h.sq, fun wr hwr => h.rq wr (List.mem_of_mem_tail hwr)⟩
  | flush _ hf =>
    obtain ⟨-, rfl⟩ := Qp.flush_cases hf
    exact ⟨fun wr hwr => absurd hwr List.not_mem_nil, fun wr hwr => absurd hwr List.not_mem_nil⟩
  | abort _ ha =>
    obtain ⟨-, sq, wire, rfl, hsq, -, -⟩ := Qp.abortSend_cases ha
    exact ⟨fun wr hwr => h.sq wr (hsq.mem hwr), h.rq⟩
  | abortRecv _ ha =>
    obtain ⟨wr, rq, hrq, rfl⟩ := Qp.abortRecv_cases ha
    exact ⟨h.sq, fun wr' hwr' => h.rq wr' (by simp [hrq, hwr'])⟩

theorem Aimed.postSend (h : Aimed p) (v : UInt64) (always : Bool) :
    Aimed (rpmaSend (p.store .send v) always) := by
  refine ⟨fun wr hwr => ?_, h.rq⟩
  rcases List.mem_append.mp hwr with hwr | hwr
  · exact h.sq wr hwr
  · exact List.mem_singleton.mp hwr ▸ rfl

theorem Aimed.postRecv (h : Aimed p) : Aimed (rpmaRecv p) := by
  refine ⟨h.sq, fun wr hwr => ?_⟩
  rcases List.mem_append.mp hwr with hwr | hwr
  · exact h.rq wr hwr
  · exact List.mem_singleton.mp hwr ▸ rfl

end Touched

/-! ## Both ends -/

/-- **Both ends are attended to**, and a wait is not left with both completions. -/
structure Sound (s : State) : Prop where
  client : ∀ d, s.client.pc.duty = some d →
    Attends d s.client.late (s.server.pc = .done) s.client.qp
  server : ∀ d, s.server.pc.duty = some d →
    Attends d s.server.late (s.client.pc = .done) s.server.qp
  clientAim : Aimed s.client.qp
  serverAim : Aimed s.server.qp
  clientWaits : ∀ g cmpl, s.client.pc = .wait g cmpl → cmpl ≠ ⟨true, true⟩
  serverWaits : ∀ g cmpl, s.server.pc = .wait g cmpl → cmpl ≠ ⟨true, true⟩

theorem Attends.fresh (late : Bool) (gone : Prop) (mem : Buf → UInt64) :
    Attends ⟨.getEvent, 0, 0⟩ late gone (.fresh mem) where
  woken := .asleep
  kinds _ h := absurd h List.not_mem_nil
  sends := Nat.le_refl 0
  recvs := Nat.le_refl 0
  total := rfl
  sq _ h := absurd h List.not_mem_nil
  wire _ h := absurd h List.not_mem_nil
  unacked _ h := absurd h List.not_mem_nil
  rq _ h := absurd h List.not_mem_nil

theorem Aimed.fresh (mem : Buf → UInt64) : Aimed (.fresh mem) :=
  ⟨fun _ h => absurd h List.not_mem_nil, fun _ h => absurd h List.not_mem_nil⟩

theorem Sound.start (seed rounds : UInt64) : Sound (State.start seed rounds) where
  client _ h := Option.some.inj h ▸ .fresh _ _ _
  server _ h := Option.some.inj h ▸ (Attends.fresh _ _ _).postRecv
  clientAim := .fresh _
  serverAim := (Aimed.fresh _).postRecv
  clientWaits _ _ h := by cases h
  serverWaits _ _ h := by
    obtain ⟨-, rfl⟩ := ServerPc.wait.inj h
    decide

section Sound

variable {s s' : State} {c : Client} {v : Server}

theorem Sound.clientMoves (h : Sound s) (hc : s.client.step = some c) :
    ClientMove (s.server.pc = .done) s.client c := Client.moves h.client hc

theorem Sound.serverMoves (h : Sound s) (hv : s.server.step = some v) :
    ServerMove (s.client.pc = .done) s.server v := Server.moves h.server hv

theorem Sound.clientMove (h : Sound s) (hm : ClientMove (s.server.pc = .done) s.client c) :
    Sound { s with client := c } := by
  obtain ⟨⟨pc, cntr, rounds, ret, printed, qp, late⟩, v⟩ := s
  obtain ⟨hcl, hsv, haim, haim', hwait, hwait'⟩ := h
  cases hm with
  | loop hpc _ =>
    obtain rfl : pc = _ := hpc
    exact ⟨hcl, fun d hd => (hsv d hd).mono nofun, haim, haim', nofun, hwait'⟩
  | leave hpc _ =>
    obtain rfl : pc = _ := hpc
    exact ⟨nofun, fun d hd => (hsv d hd).mono nofun, haim, haim', nofun, hwait'⟩
  | recv hpc =>
    obtain rfl : pc = _ := hpc
    exact ⟨fun d hd => Option.some.inj hd ▸ (hcl _ rfl).postRecv,
      fun d hd => (hsv d hd).mono nofun, haim.postRecv, haim', nofun, hwait'⟩
  | send hpc =>
    obtain rfl : pc = _ := hpc
    refine ⟨fun d hd => Option.some.inj hd ▸ ((hcl _ rfl).store cntr).postSend,
      fun d hd => (hsv d hd).mono nofun, haim.postSend cntr true, haim', ?_, hwait'⟩
    rintro g cmpl hpc
    obtain ⟨-, rfl⟩ := ClientPc.wait.inj hpc
    decide
  | wait hpc hq _ hmore =>
    obtain rfl : pc = _ := hpc
    refine ⟨fun d hd => Option.some.inj hd ▸ hq, fun d hd => (hsv d hd).mono nofun,
      ⟨haim.sq, haim.rq⟩, haim', ?_, hwait'⟩
    rintro g cmpl hpc
    obtain ⟨-, rfl⟩ := ClientPc.wait.inj hpc
    exact hmore (hwait _ _ rfl)
  | got hpc hq _ _ =>
    obtain rfl : pc = _ := hpc
    exact ⟨fun d hd => Option.some.inj hd ▸ hq, fun d hd => (hsv d hd).mono nofun,
      ⟨haim.sq, haim.rq⟩, haim', nofun, hwait'⟩
  | giveUp hpc _ =>
    obtain rfl : pc = _ := hpc
    exact ⟨nofun, fun d hd => (hsv d hd).mono nofun, ⟨haim.sq, haim.rq⟩, haim', nofun, hwait'⟩
  | value hpc =>
    obtain rfl : pc = _ := hpc
    exact ⟨hcl, fun d hd => (hsv d hd).mono nofun, haim, haim', nofun, hwait'⟩
  | final hpc =>
    obtain rfl : pc = _ := hpc
    exact ⟨nofun, fun d hd => (hsv d hd).mono nofun, haim.postSend iMDone false, haim', nofun,
      hwait'⟩

theorem Sound.serverMove (h : Sound s) (hm : ServerMove (s.client.pc = .done) s.server v) :
    Sound { s with server := v } := by
  obtain ⟨c, ⟨pc, ret, printed, qp, late⟩⟩ := s
  obtain ⟨hcl, hsv, haim, haim', hwait, hwait'⟩ := h
  cases hm with
  | wait hpc hq _ hmore =>
    obtain rfl : pc = _ := hpc
    refine ⟨fun d hd => (hcl d hd).mono nofun, fun d hd => Option.some.inj hd ▸ hq, haim,
      ⟨haim'.sq, haim'.rq⟩, hwait, ?_⟩
    rintro g cmpl hpc
    obtain ⟨-, rfl⟩ := ServerPc.wait.inj hpc
    exact hmore (hwait' _ _ rfl)
  | got hpc hq _ _ =>
    obtain rfl : pc = _ := hpc
    exact ⟨fun d hd => (hcl d hd).mono nofun, fun d hd => Option.some.inj hd ▸ hq, haim,
      ⟨haim'.sq, haim'.rq⟩, hwait, nofun⟩
  | giveUp hpc _ =>
    obtain rfl : pc = _ := hpc
    exact ⟨fun d hd => (hcl d hd).mono nofun, nofun, haim, ⟨haim'.sq, haim'.rq⟩, hwait, nofun⟩
  | stop hpc _ =>
    obtain rfl : pc = _ := hpc
    exact ⟨fun d hd => (hcl d hd).mono nofun, nofun, haim, haim', hwait, nofun⟩
  | handle hpc _ =>
    obtain rfl : pc = _ := hpc
    exact ⟨fun d hd => (hcl d hd).mono nofun, fun d hd => Option.some.inj hd ▸ (hsv _ rfl).store _,
      haim, ⟨haim'.sq, haim'.rq⟩, hwait, nofun⟩
  | recv hpc =>
    obtain rfl : pc = _ := hpc
    exact ⟨fun d hd => (hcl d hd).mono nofun, fun d hd => Option.some.inj hd ▸ (hsv _ rfl).postRecv,
      haim, haim'.postRecv, hwait, nofun⟩
  | send hpc =>
    obtain rfl : pc = _ := hpc
    refine ⟨fun d hd => (hcl d hd).mono nofun,
      fun d hd => Option.some.inj hd ▸ (hsv _ rfl).postSend, haim, ⟨?_, haim'.rq⟩, hwait, ?_⟩
    · intro wr hwr
      rcases List.mem_append.mp hwr with hwr | hwr
      · exact haim'.sq wr hwr
      · exact List.mem_singleton.mp hwr ▸ rfl
    · rintro g cmpl hpc
      obtain ⟨-, rfl⟩ := ServerPc.wait.inj hpc
      decide

theorem ClientPc.polls_of_duty {pc : ClientPc} {d : Duty} (h : pc.duty = some d) :
    pc.polls = d.at_.polls := by
  cases pc <;> cases h <;> rfl

theorem ServerPc.polls_of_duty {pc : ServerPc} {d : Duty} (h : pc.duty = some d) :
    pc.polls = d.at_.polls := by
  cases pc <;> cases h <;> rfl

theorem Sound.link (h : Sound s) {act : Act} {p o : End} (hl : Link s act p o) :
    Sound (s.moved p o) := by
  refine ⟨fun d hd => ?_, fun d hd => ?_, h.clientAim.touched hl.client,
    h.serverAim.touched hl.server, h.clientWaits, h.serverWaits⟩
  · have hpc : s.client.pc ≠ .done := fun hpc => by
      rw [State.moved, Client.moved, hpc] at hd
      cases hd
    have hattends := (h.client d hd).touched hpc hl.client
    rw [← ClientPc.polls_of_duty hd] at hattends
    exact hattends
  · have hpc : s.server.pc ≠ .done := fun hpc => by
      rw [State.moved, Server.moved, hpc] at hd
      cases hd
    have hattends := (h.server d hd).touched hpc hl.server
    rw [← ServerPc.polls_of_duty hd] at hattends
    exact hattends

/-- **Every step keeps both ends attended to.** -/
theorem Sound.step (h : Sound s) {act : Act} (hs : s.step act = some s') : Sound s' := by
  obtain ⟨c, hc, rfl⟩ | ⟨v, hv, rfl⟩ | ⟨p, o, hl, rfl⟩ := State.step_cases hs
  · exact h.clientMove (h.clientMoves hc)
  · exact h.serverMove (h.serverMoves hv)
  · exact h.link hl

end Sound

end Rpma.PingPong.Shared
