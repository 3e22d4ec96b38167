import Rpma.Hopscotch.Client

/-!
# The threads of the RDMA client share one completion queue

`main` of `multihashclient.c` gives one connection to all its threads. Each `thr_func` posts a read
into its own buffer, waits for a completion event, takes one completion from the CQ and inspects its
buffer. The completions carry no context (the `op_context` of `rpma_read` is `NULL`), so a thread
takes whatever completion is the oldest. `THREAD_SAFETY.md` lets only one thread use a connection.

The QP executes the reads in the order they were posted, each with one completion in the CQ after
its data has landed. A completion that finds the CQ armed makes an event.

* **`inspects_own_read`**: in a run in which every thread takes a completion in its turn, that is,
  when the oldest read without a taken completion is its own, each thread inspects the segment of
  its key. From a given start all runs are like that exactly when only one thread has keys.
* `inspects_stale_buffer`: of two threads, the second takes the completion of the first.
-/

namespace Rpma.Hopscotch

open Rpma.Lib.CText

/-! ## The model -/

/-- Where a thread is in the loop of `thr_func`; `rpma_cq_wait` is `wait` for the event and then
`notify` to arm the CQ again. -/
inductive Pc where
  | post | wait | notify | poll | inspect | done
  deriving DecidableEq, Repr

/-- A thread: its keys from `keys[k]` to `keys[end - 1]`, and its buffer `dst_ptr`. -/
structure Thread where
  pc : Pc
  keys : List CStr
  dst : Bytes

/-- The thread is at a call of librpma. -/
def Thread.atCall (th : Thread) : Bool :=
  match th.pc with
  | .post => !th.keys.isEmpty
  | .wait | .notify | .poll => true
  | .inspect | .done => false

/-- A posted read of 2 KB at `off`, into the buffer of its thread. -/
structure Read (ι : Type) where
  thread : ι
  off : Nat
  deriving DecidableEq, Repr

/-- The threads and what they share. -/
structure Sys (ι : Type) where
  threads : ι → Thread
  /-- The reads that have not completed, in the order they were posted. -/
  sq : List (Read ι)
  /-- The CQ. A completion is shown by its read, which the threads do not see. -/
  cq : List (Read ι)
  armed : Bool
  /-- The undelivered events of the completion channel. -/
  events : Nat
  /-- `src_mr` has not been deleted. -/
  srcMr : Bool
  cnt : Nat

/-- The steps of the threads and of the QP. -/
inductive Act (ι : Type) where
  | post (t : ι)
  | wait (t : ι)
  | notify (t : ι)
  | poll (t : ι)
  | inspect (t : ι)
  /-- A call of librpma fails. -/
  | fail (t : ι)
  /-- The first `n` bytes of the oldest read land. -/
  | land (n : Nat)
  /-- The oldest read completes. -/
  | complete
  deriving DecidableEq, Repr

variable {ι : Type}

section Steps

variable [DecidableEq ι]

def Sys.setThread (s : Sys ι) (t : ι) (th : Thread) : Sys ι :=
  { s with threads := Function.update s.threads t th }

def Sys.setPc (s : Sys ι) (t : ι) (pc : Pc) : Sys ι :=
  s.setThread t { s.threads t with pc := pc }

/-- `read fail`: the thread deletes `src_mr` and exits. It is undefined to delete it twice. -/
def Sys.readFail (s : Sys ι) (t : ι) : Option (Sys ι) :=
  if s.srcMr then some { s.setPc t .done with srcMr := false } else none

/-- The first `n` bytes of the read `r` are in its buffer. -/
def Sys.landed (s : Sys ι) (img : Bytes) (r : Read ι) (n : Nat) : Sys ι :=
  s.setThread r.thread
    { s.threads r.thread with dst := rdmaRead (s.threads r.thread).dst img r.off n }

/-- `rpma_read` into the thread's own buffer. -/
def thrPost (hash : Hash) (s : Sys ι) (t : ι) : Option (Sys ι) :=
  match (s.threads t).pc, (s.threads t).keys with
  | .post, k :: _ =>
    -- a read from a deleted `src_mr` is undefined
    if s.srcMr then some { s.setPc t .wait with sq := s.sq ++ [⟨t, homeOf hash k * 64⟩] } else none
  | .post, [] => some (s.setPc t .done)
  | _, _ => none

/-- The inspection of the buffer, and the next key. -/
def thrStep (tail : List UInt8) (s : Sys ι) (t : ι) : Option (Sys ι) :=
  match (s.threads t).pc, (s.threads t).keys with
  | .inspect, k :: ks =>
    match thrInspect tail (s.threads t).dst (keyBytes strMem keyLen k) with
    | some hits =>
      some { s.setThread t ⟨.post, ks, (s.threads t).dst⟩ with cnt := s.cnt + hits }
    | none => some (s.setPc t .done)
  | _, _ => none

/-- One step; `none` if it is not possible. -/
def Sys.step (hash : Hash) (tail : List UInt8) (img : Bytes) (s : Sys ι) :
    Act ι → Option (Sys ι)
  | .post t => thrPost hash s t
  | .wait t =>
    if (s.threads t).pc = .wait ∧ 0 < s.events then
      some { s.setPc t .notify with events := s.events - 1 }
    else none
  | .notify t =>
    if (s.threads t).pc = .notify then some { s.setPc t .poll with armed := true } else none
  | .poll t =>
    if (s.threads t).pc = .poll then
      match s.cq with
      | [] => s.readFail t
      | _ :: rest => some { s.setPc t .inspect with cq := rest }
    else none
  | .inspect t => thrStep tail s t
  | .fail t => if (s.threads t).atCall then s.readFail t else none
  | .land n =>
    match s.sq with
    | [] => none
    | r :: _ => some (s.landed img r (min n segmentLen))
  | .complete =>
    match s.sq with
    | [] => none
    | r :: rest =>
      some { s.landed img r segmentLen with
        sq := rest
        cq := s.cq ++ [r]
        armed := false
        events := if s.armed then s.events + 1 else s.events }

/-- A run. -/
def Sys.run (hash : Hash) (tail : List UInt8) (img : Bytes) (s : Sys ι) :
    List (Act ι) → Option (Sys ι)
  | [] => some s
  | a :: acts => do
    let s' ← s.step hash tail img a
    s'.run hash tail img acts

end Steps

/-- All threads at the beginning of their loops, the CQ empty and armed. -/
def Sys.start (keys : ι → List CStr) (dst : ι → Bytes) : Sys ι where
  threads t := ⟨.post, keys t, dst t⟩
  sq := []
  cq := []
  armed := true
  events := 0
  srcMr := true
  cnt := 0

/-- The reads whose completions have not been taken, in the order they were posted. -/
def Sys.untaken (s : Sys ι) : List (Read ι) := s.cq ++ s.sq

/-- **What a thread relies on**: when it inspects its buffer for the key `k`, its read for `k` has
completed, and the buffer holds the segment at 64 times the home index of `k`. -/
def Sys.OwnRead (hash : Hash) (img : Bytes) (s : Sys ι) (t : ι) : Prop :=
  (s.threads t).pc = .inspect → ∃ k ks, (s.threads t).keys = k :: ks ∧
    (∀ r ∈ s.sq, r.thread ≠ t) ∧
    ∀ a < segmentLen, (s.threads t).dst a = img (64 * homeOf hash k + a)

/-- A thread takes a completion in its turn: the oldest read without a taken completion is its
own. -/
def Sys.InTurn (s : Sys ι) : Act ι → Prop
  | .poll t => (s.untaken.head?).map Read.thread = some t
  | _ => True

/-- Every step of the run is in turn. -/
def RunInTurn [DecidableEq ι] (hash : Hash) (tail : List UInt8) (img : Bytes) :
    Sys ι → List (Act ι) → Prop
  | _, [] => True
  | s, a :: acts => s.InTurn a ∧ ∀ s', s.step hash tail img a = some s' →
      RunInTurn hash tail img s' acts

/-! ## The invariant -/

/-- The buffer `dst` holds the segment of the image at `off`. -/
def HoldsSegment (img dst : Bytes) (off : Nat) : Prop := ∀ a < segmentLen, dst a = img (off + a)

/-- A thread has one untaken read, that of its key, from its post on until it inspects its buffer,
which then holds the segment. -/
def Thread.Inv (hash : Hash) (img : Bytes) (untaken : List (Read ι)) (t : ι) (th : Thread) : Prop :=
  match th.pc with
  | .post => ∀ r ∈ untaken, r.thread ≠ t
  | .wait | .notify | .poll => ∃ k ks, th.keys = k :: ks ∧ ⟨t, homeOf hash k * 64⟩ ∈ untaken
  | .inspect => (∀ r ∈ untaken, r.thread ≠ t) ∧
      ∃ k ks, th.keys = k :: ks ∧ HoldsSegment img th.dst (homeOf hash k * 64)
  | .done => True

/-- **The invariant of runs in turn.** -/
structure Sys.Inv (hash : Hash) (img : Bytes) (s : Sys ι) : Prop where
  nodup : (s.untaken.map Read.thread).Nodup
  landed : ∀ r ∈ s.cq, HoldsSegment img (s.threads r.thread).dst r.off
  thread : ∀ t, (s.threads t).Inv hash img s.untaken t

section Inv

variable {hash : Hash} {tail : List UInt8} {img : Bytes} {s s' : Sys ι} {t : ι}

theorem inv_start (keys : ι → List CStr) (dst : ι → Bytes) : (Sys.start keys dst).Inv hash img :=
  ⟨by simp [Sys.start, Sys.untaken], by simp [Sys.start],
    fun t => by simp [Sys.start, Sys.untaken, Thread.Inv]⟩

/-- Only the untaken reads of a thread matter to it. -/
theorem Thread.Inv.congr {th : Thread} {untaken untaken' : List (Read ι)}
    (h : th.Inv hash img untaken t)
    (heq : ∀ r : Read ι, r.thread = t → (r ∈ untaken' ↔ r ∈ untaken)) :
    th.Inv hash img untaken' t := by
  have hnone : (∀ r ∈ untaken, r.thread ≠ t) → ∀ r ∈ untaken', r.thread ≠ t :=
    fun h r hr hrt => h r ((heq r hrt).mp hr) hrt
  unfold Thread.Inv at h ⊢
  split at h
  · exact hnone h
  · exact h.imp fun k => .imp fun ks => .imp_right (heq _ rfl).mpr
  · exact h.imp fun k => .imp fun ks => .imp_right (heq _ rfl).mpr
  · exact h.imp fun k => .imp fun ks => .imp_right (heq _ rfl).mpr
  · exact h.imp_left hnone
  · trivial

/-- A thread that does not inspect its buffer does not rely on it. -/
theorem Thread.Inv.of_ne_inspect {th : Thread} {untaken : List (Read ι)}
    (h : th.Inv hash img untaken t) (hpc : th.pc ≠ .inspect) (dst : Bytes) :
    Thread.Inv hash img untaken t { th with dst := dst } := by
  obtain ⟨pc, keys, _⟩ := th
  cases pc with
  | inspect => exact absurd rfl hpc
  | post | wait | notify | poll | done => exact h

/-- The rest of the state does not matter. -/
theorem Sys.Inv.of_eq (h : s.Inv hash img) (hthreads : s'.threads = s.threads) (hsq : s'.sq = s.sq)
    (hcq : s'.cq = s.cq) : s'.Inv hash img := by
  have huntaken : s'.untaken = s.untaken := by rw [Sys.untaken, Sys.untaken, hsq, hcq]
  refine ⟨huntaken ▸ h.nodup, ?_, ?_⟩
  · rw [hcq, hthreads]
    exact h.landed
  · rw [huntaken, hthreads]
    exact h.thread

/-- A thread whose read is pending does not look at its buffer. -/
theorem Sys.Inv.pc_ne_inspect (h : s.Inv hash img) {r : Read ι} (hr : r ∈ s.untaken) :
    (s.threads r.thread).pc ≠ .inspect := by
  intro hpc
  have hth := h.thread r.thread
  rw [Thread.Inv, hpc] at hth
  exact hth.1 r hr rfl

theorem Sys.Inv.ownRead (h : s.Inv hash img) (t : ι) : s.OwnRead hash img t := by
  intro hpc
  have hth := h.thread t
  rw [Thread.Inv, hpc] at hth
  obtain ⟨hnone, k, ks, hkeys, hseg⟩ := hth
  refine ⟨k, ks, hkeys, fun r hr => hnone r (List.mem_append_right _ hr), fun a ha => ?_⟩
  rw [Nat.mul_comm]
  exact hseg a ha

/-- A thread that moves leaves the others where they are, and the buffers. -/
theorem Sys.Inv.setThread [DecidableEq ι] {th : Thread} (h : s.Inv hash img)
    (hdst : th.dst = (s.threads t).dst) (ht : th.Inv hash img s.untaken t) :
    (s.setThread t th).Inv hash img := by
  have hbuf : ∀ t', ((s.setThread t th).threads t').dst = (s.threads t').dst := by
    intro t'
    by_cases heq : t' = t
    · subst heq
      simpa [Sys.setThread] using hdst
    · simp [Sys.setThread, heq]
  refine ⟨h.nodup, fun r hr => ?_, fun t' => ?_⟩
  · rw [hbuf]
    exact h.landed r hr
  · have huntaken : (s.setThread t th).untaken = s.untaken := rfl
    rw [huntaken]
    by_cases heq : t' = t
    · subst heq
      simpa [Sys.setThread] using ht
    · simpa [Sys.setThread, heq] using h.thread t'

end Inv

/-! ## What a step can do -/

section Outcome

variable [DecidableEq ι] {hash : Hash} {tail : List UInt8} {img : Bytes} {s s' : Sys ι} {t : ι}

/-- The states a step can lead to. -/
inductive Outcome (hash : Hash) (img : Bytes) (s : Sys ι) : Act ι → Sys ι → Prop
  | post {t : ι} {k : CStr} {ks : List CStr} (hpc : (s.threads t).pc = .post)
      (hkeys : (s.threads t).keys = k :: ks) : Outcome hash img s (.post t)
        { s.setPc t .wait with sq := s.sq ++ [⟨t, homeOf hash k * 64⟩] }
  /-- After the last key, or `Not found`. -/
  | stop {a : Act ι} {t : ι} : Outcome hash img s a (s.setPc t .done)
  | readFail {a : Act ι} {t : ι} : Outcome hash img s a { s.setPc t .done with srcMr := false }
  | wait {t : ι} (hpc : (s.threads t).pc = .wait) :
      Outcome hash img s (.wait t) { s.setPc t .notify with events := s.events - 1 }
  | notify {t : ι} (hpc : (s.threads t).pc = .notify) :
      Outcome hash img s (.notify t) { s.setPc t .poll with armed := true }
  | poll {t : ι} {r : Read ι} {rest : List (Read ι)} (hpc : (s.threads t).pc = .poll)
      (hcq : s.cq = r :: rest) : Outcome hash img s (.poll t) { s.setPc t .inspect with cq := rest }
  | inspect {t : ι} {k : CStr} {ks : List CStr} {hits : Nat} (hpc : (s.threads t).pc = .inspect)
      (hkeys : (s.threads t).keys = k :: ks) : Outcome hash img s (.inspect t)
        { s.setThread t ⟨.post, ks, (s.threads t).dst⟩ with cnt := s.cnt + hits }
  | land {r : Read ι} {rest : List (Read ι)} {n : Nat} (hsq : s.sq = r :: rest) (m : Nat) :
      Outcome hash img s (.land n) (s.landed img r m)
  | complete {r : Read ι} {rest : List (Read ι)} (hsq : s.sq = r :: rest) :
      Outcome hash img s .complete { s.landed img r segmentLen with
        sq := rest
        cq := s.cq ++ [r]
        armed := false
        events := if s.armed then s.events + 1 else s.events }

theorem readFail_outcome {a : Act ι} (hs : s.readFail t = some s') : Outcome hash img s a s' := by
  unfold Sys.readFail at hs
  split at hs
  · cases hs
    exact .readFail
  · cases hs

theorem thrPost_outcome (hs : thrPost hash s t = some s') : Outcome hash img s (.post t) s' := by
  unfold thrPost at hs
  split at hs
  · rename_i k ks hpc hkeys
    split at hs
    · cases hs
      exact .post hpc hkeys
    · cases hs
  · cases hs
    exact .stop
  · cases hs

theorem thrStep_outcome (hs : thrStep tail s t = some s') : Outcome hash img s (.inspect t) s' := by
  unfold thrStep at hs
  split at hs
  · rename_i k ks hpc hkeys
    split at hs
    · cases hs
      exact .inspect hpc hkeys
    · cases hs
      exact .stop
  · cases hs

theorem step_outcome {a : Act ι} (hs : s.step hash tail img a = some s') :
    Outcome hash img s a s' := by
  cases a with
  | post t => exact thrPost_outcome hs
  | wait t =>
    simp only [Sys.step, Option.ite_none_right_eq_some, Option.some.injEq] at hs
    obtain ⟨⟨hpc, -⟩, rfl⟩ := hs
    exact .wait hpc
  | notify t =>
    simp only [Sys.step, Option.ite_none_right_eq_some, Option.some.injEq] at hs
    obtain ⟨hpc, rfl⟩ := hs
    exact .notify hpc
  | poll t =>
    simp only [Sys.step, Option.ite_none_right_eq_some] at hs
    obtain ⟨hpc, hs⟩ := hs
    split at hs
    · exact readFail_outcome hs
    · rename_i r rest hcq
      cases hs
      exact .poll hpc hcq
  | inspect t => exact thrStep_outcome hs
  | fail t =>
    simp only [Sys.step, Option.ite_none_right_eq_some] at hs
    exact readFail_outcome hs.2
  | land n =>
    simp only [Sys.step] at hs
    split at hs
    · cases hs
    · rename_i r rest hsq
      cases hs
      exact .land hsq _
  | complete =>
    simp only [Sys.step] at hs
    split at hs
    · cases hs
    · rename_i r rest hsq
      cases hs
      exact .complete hsq

end Outcome

/-! ## The steps keep the invariant -/

section Step

variable [DecidableEq ι] {hash : Hash} {tail : List UInt8} {img : Bytes} {s s' : Sys ι} {t : ι}

@[simp] theorem Sys.setPc_self (s : Sys ι) (t : ι) (pc : Pc) :
    (s.setPc t pc).threads t = { s.threads t with pc := pc } := by
  simp [Sys.setPc, Sys.setThread]

theorem Sys.setPc_of_ne (s : Sys ι) {t t' : ι} (pc : Pc) (h : t' ≠ t) :
    (s.setPc t pc).threads t' = s.threads t' := by
  simp [Sys.setPc, Sys.setThread, h]

@[simp] theorem Sys.setPc_dst (s : Sys ι) (t t' : ι) (pc : Pc) :
    ((s.setPc t pc).threads t').dst = (s.threads t').dst := by
  by_cases heq : t' = t
  · subst heq
    simp
  · rw [s.setPc_of_ne pc heq]

@[simp] theorem Sys.landed_self (s : Sys ι) (r : Read ι) (n : Nat) :
    (s.landed img r n).threads r.thread =
      { s.threads r.thread with dst := rdmaRead (s.threads r.thread).dst img r.off n } := by
  simp [Sys.landed, Sys.setThread]

theorem Sys.landed_of_ne (s : Sys ι) {r : Read ι} (n : Nat) (h : t ≠ r.thread) :
    (s.landed img r n).threads t = s.threads t := by
  simp [Sys.landed, Sys.setThread, h]

/-- The read of the thread's key is posted. -/
theorem inv_post (h : s.Inv hash img) {k : CStr} {ks : List CStr}
    (hpc : (s.threads t).pc = .post) (hkeys : (s.threads t).keys = k :: ks) :
    Sys.Inv hash img { s.setPc t .wait with sq := s.sq ++ [⟨t, homeOf hash k * 64⟩] } := by
  have hth := h.thread t
  rw [Thread.Inv, hpc] at hth
  have huntaken : Sys.untaken { s.setPc t .wait with sq := s.sq ++ [⟨t, homeOf hash k * 64⟩] } =
      s.untaken ++ [⟨t, homeOf hash k * 64⟩] := (List.append_assoc _ _ _).symm
  refine ⟨?_, fun r hr => ?_, fun t' => ?_⟩
  · rw [huntaken, List.map_append, List.nodup_append]
    refine ⟨h.nodup, by simp, ?_⟩
    simpa using hth
  · rw [Sys.setPc_dst]
    exact h.landed r hr
  · rw [huntaken]
    by_cases heq : t' = t
    · subst heq
      simp [Thread.Inv, hkeys]
    · dsimp only
      rw [s.setPc_of_ne _ heq]
      refine (h.thread t').congr fun r hr => ?_
      have hne : r ≠ ⟨t, homeOf hash k * 64⟩ := by
        rintro rfl
        exact heq hr.symm
      simp [hne]

/-- **A completion taken in turn is the thread's own.** -/
theorem inv_poll (h : s.Inv hash img) {r : Read ι} {rest : List (Read ι)} (hcq : s.cq = r :: rest)
    (hpc : (s.threads t).pc = .poll) (hr : r.thread = t) :
    Sys.Inv hash img { s.setPc t .inspect with cq := rest } := by
  have huntaken : s.untaken = r :: (rest ++ s.sq) := by rw [Sys.untaken, hcq, List.cons_append]
  have hnd := h.nodup
  rw [huntaken, List.map_cons, List.nodup_cons] at hnd
  have hothers : ∀ r' ∈ rest ++ s.sq, r'.thread ≠ t := by
    rintro r' hr' rfl
    exact hnd.1 (hr ▸ List.mem_map_of_mem hr')
  have hth := h.thread t
  rw [Thread.Inv, hpc] at hth
  obtain ⟨k, ks, hkeys, hmem⟩ := hth
  refine ⟨hnd.2, fun r' hr' => ?_, fun t' => ?_⟩
  · rw [Sys.setPc_dst]
    exact h.landed r' (hcq ▸ List.mem_cons_of_mem r hr')
  · by_cases heq : t' = t
    · subst heq
      rw [huntaken, List.mem_cons] at hmem
      have hown : ⟨t', homeOf hash k * 64⟩ = r := hmem.resolve_right fun hr' => hothers _ hr' rfl
      have hland := h.landed r (hcq ▸ List.mem_cons_self)
      rw [hr, ← hown] at hland
      dsimp only
      rw [Sys.setPc_self]
      exact ⟨hothers, k, ks, hkeys, hland⟩
    · dsimp only
      rw [s.setPc_of_ne _ heq]
      refine (h.thread t').congr fun r' hr' => ?_
      have hne : r' ≠ r := by
        rintro rfl
        exact heq (hr' ▸ hr)
      rw [huntaken, List.mem_cons, or_iff_right hne]
      rfl

/-- Data lands in the buffer of a thread that does not look at it. -/
theorem inv_landed (h : s.Inv hash img) {r : Read ι} (hr : r ∈ s.sq) (n : Nat) :
    (s.landed img r n).Inv hash img := by
  have hcq : ∀ r' ∈ s.cq, r'.thread ≠ r.thread := by
    have hnd := h.nodup
    rw [Sys.untaken, List.map_append, List.nodup_append] at hnd
    exact fun r' hr' => hnd.2.2 _ (List.mem_map_of_mem hr') _ (List.mem_map_of_mem hr)
  refine ⟨h.nodup, fun r' hr' => ?_, fun t' => ?_⟩
  · rw [s.landed_of_ne n (hcq r' hr')]
    exact h.landed r' hr'
  · by_cases heq : t' = r.thread
    · subst heq
      rw [Sys.landed_self]
      exact (h.thread r.thread).of_ne_inspect (h.pc_ne_inspect (List.mem_append_right s.cq hr)) _
    · rw [s.landed_of_ne n heq]
      exact h.thread t'

/-- The oldest read completes: its buffer holds the segment. -/
theorem inv_complete (h : s.Inv hash img) {r : Read ι} {rest : List (Read ι)}
    (hsq : s.sq = r :: rest) (armed : Bool) (events : Nat) :
    Sys.Inv hash img { s.landed img r segmentLen with
      sq := rest, cq := s.cq ++ [r], armed := armed, events := events } := by
  have hl := inv_landed h (hsq ▸ List.mem_cons_self) segmentLen
  have huntaken : s.cq ++ [r] ++ rest = (s.landed img r segmentLen).untaken := by
    rw [List.append_assoc, List.singleton_append, ← hsq]
    rfl
  refine ⟨?_, fun r' hr' => ?_, fun t' => ?_⟩
  · rw [Sys.untaken, huntaken]
    exact hl.nodup
  · rcases List.mem_append.mp hr' with hr' | hr'
    · exact hl.landed r' hr'
    · obtain rfl := List.mem_singleton.mp hr'
      intro a ha
      simp [rdmaRead, ha]
  · rw [Sys.untaken, huntaken]
    exact hl.thread t'

/-- A thread moves on, to where its clause of the invariant holds too. -/
theorem inv_setPc (h : s.Inv hash img) (t : ι) (pc : Pc)
    (ht : Thread.Inv hash img s.untaken t { s.threads t with pc := pc })
    (hthreads : s'.threads = (s.setPc t pc).threads) (hsq : s'.sq = s.sq) (hcq : s'.cq = s.cq) :
    s'.Inv hash img := by
  have hmoved : (s.setPc t pc).Inv hash img := h.setThread rfl ht
  exact hmoved.of_eq hthreads hsq hcq

/-- **A step in turn keeps the invariant.** -/
theorem inv_step (h : s.Inv hash img) {a : Act ι} (hturn : s.InTurn a)
    (hs : s.step hash tail img a = some s') : s'.Inv hash img := by
  cases step_outcome hs with
  | post hpc hkeys => exact inv_post h hpc hkeys
  | @stop a t => exact inv_setPc h t .done trivial rfl rfl rfl
  | @readFail a t => exact inv_setPc h t .done trivial rfl rfl rfl
  | @wait t hpc =>
    have hth := h.thread t
    rw [Thread.Inv, hpc] at hth
    exact inv_setPc h t .notify hth rfl rfl rfl
  | @notify t hpc =>
    have hth := h.thread t
    rw [Thread.Inv, hpc] at hth
    exact inv_setPc h t .poll hth rfl rfl rfl
  | @poll t r rest hpc hcq =>
    have hr : r.thread = t := by simpa [Sys.InTurn, Sys.untaken, hcq] using hturn
    exact inv_poll h hcq hpc hr
  | @inspect t k ks hits hpc hkeys =>
    have hth := h.thread t
    rw [Thread.Inv, hpc] at hth
    have hnext : (s.setThread t ⟨.post, ks, (s.threads t).dst⟩).Inv hash img :=
      h.setThread rfl hth.1
    exact hnext.of_eq rfl rfl rfl
  | land hsq m => exact inv_landed h (hsq ▸ List.mem_cons_self) m
  | complete hsq => exact inv_complete h hsq _ _

/-- **So does a run in turn.** -/
theorem inv_run {acts : List (Act ι)} (h : s.Inv hash img)
    (hturn : RunInTurn hash tail img s acts) (hrun : s.run hash tail img acts = some s') :
    s'.Inv hash img := by
  induction acts generalizing s with
  | nil =>
    cases hrun
    exact h
  | cons a acts ih =>
    obtain ⟨s₁, hstep, hrest⟩ := Option.bind_eq_some_iff.mp hrun
    exact ih (inv_step h hturn.1 hstep) (hturn.2 s₁ hstep) hrest

end Step

/-! ## When all runs are in turn -/

section Alone

variable {hash : Hash} {tail : List UInt8} {img : Bytes} {s s' : Sys ι} {K : ι → Prop}

/-- Only the threads in `K` have keys or reads. -/
structure Sys.Within (K : ι → Prop) (s : Sys ι) : Prop where
  keys : ∀ t, (s.threads t).keys ≠ [] → K t
  reads : ∀ r ∈ s.untaken, K r.thread

/-- The threads keep their keys, and only those with keys post reads. -/
theorem Sys.Within.of_keys_eq (h : s.Within K)
    (hkeys : ∀ t, (s'.threads t).keys = (s.threads t).keys)
    (hreads : ∀ r ∈ s'.untaken, r ∈ s.untaken ∨ (s.threads r.thread).keys ≠ []) : s'.Within K :=
  ⟨fun t hk => h.keys t (hkeys t ▸ hk), fun r hr => (hreads r hr).elim (h.reads r) (h.keys _)⟩

variable [DecidableEq ι]

@[simp] theorem Sys.setPc_keys (s : Sys ι) (t t' : ι) (pc : Pc) :
    ((s.setPc t pc).threads t').keys = (s.threads t').keys := by
  by_cases heq : t' = t
  · subst heq
    simp
  · rw [s.setPc_of_ne pc heq]

@[simp] theorem Sys.landed_keys (s : Sys ι) (r : Read ι) (n : Nat) (t : ι) :
    ((s.landed img r n).threads t).keys = (s.threads t).keys := by
  by_cases heq : t = r.thread
  · subst heq
    simp
  · rw [s.landed_of_ne n heq]

theorem within_step (h : s.Within K) {a : Act ι} (hs : s.step hash tail img a = some s') :
    s'.Within K := by
  cases step_outcome hs with
  | @post t k ks hpc hkeys =>
    refine h.of_keys_eq (s.setPc_keys t · _) fun r hr => ?_
    have hmem : r ∈ s.untaken ∨ r = ⟨t, homeOf hash k * 64⟩ := by
      simpa [Sys.untaken, or_assoc, Sys.setPc, Sys.setThread] using hr
    rcases hmem with hr | rfl
    · exact Or.inl hr
    · exact Or.inr (by simp [hkeys])
  | @stop a t => exact h.of_keys_eq (s.setPc_keys t · _) fun r hr => Or.inl hr
  | @readFail a t => exact h.of_keys_eq (s.setPc_keys t · _) fun r hr => Or.inl hr
  | @wait t => exact h.of_keys_eq (s.setPc_keys t · _) fun r hr => Or.inl hr
  | @notify t => exact h.of_keys_eq (s.setPc_keys t · _) fun r hr => Or.inl hr
  | @poll t r rest hpc hcq =>
    refine h.of_keys_eq (s.setPc_keys t · _) fun r' hr' => Or.inl ?_
    rw [Sys.untaken, hcq]
    exact List.mem_cons_of_mem r hr'
  | @inspect t k ks hits hpc hkeys =>
    refine ⟨fun t' hk => ?_, h.reads⟩
    by_cases heq : t' = t
    · subst heq
      exact h.keys t' (by simp [hkeys])
    · exact h.keys t' (by simpa [Sys.setThread, heq] using hk)
  | land hsq m => exact h.of_keys_eq (s.landed_keys _ m) fun r hr => Or.inl hr
  | @complete r rest hsq =>
    refine h.of_keys_eq (s.landed_keys _ _) fun r' hr' => Or.inl ?_
    rw [Sys.untaken, hsq]
    simpa [Sys.untaken] using hr'

/-- If only one thread has keys, a completion is taken in turn. -/
theorem inTurn_alone (halone : ∀ t t', K t → K t' → t = t') (h : s.Inv hash img)
    (hw : s.Within K) {a : Act ι} (hs : s.step hash tail img a = some s') : s.InTurn a := by
  cases a with
  | poll t =>
    simp only [Sys.step, Option.ite_none_right_eq_some] at hs
    have hth := h.thread t
    rw [Thread.Inv, hs.1] at hth
    obtain ⟨k, ks, hkeys, hmem⟩ := hth
    obtain ⟨r, rest, hr⟩ := List.exists_cons_of_ne_nil (List.ne_nil_of_mem hmem)
    have hKr : K r.thread := hw.reads r (hr ▸ List.mem_cons_self)
    have hKt : K t := hw.keys t (by simp [hkeys])
    simp [Sys.InTurn, hr, halone _ _ hKr hKt]
  | post | wait | notify | inspect | fail | land | complete => trivial

theorem runInTurn_alone (halone : ∀ t t', K t → K t' → t = t') {acts : List (Act ι)}
    (h : s.Inv hash img) (hw : s.Within K) (hrun : s.run hash tail img acts = some s') :
    RunInTurn hash tail img s acts := by
  induction acts generalizing s with
  | nil => trivial
  | cons a acts ih =>
    obtain ⟨s₁, hstep, hrest⟩ := Option.bind_eq_some_iff.mp hrun
    have hturn := inTurn_alone halone h hw hstep
    refine ⟨hturn, fun s₂ hstep' => ?_⟩
    obtain rfl := Option.some.inj (hstep.symm.trans hstep')
    exact ih (inv_step h hturn hstep) (within_step hw hstep) hrest

/-- Of two threads with keys, the second takes the completion of the first. -/
theorem run_out_of_turn (hash : Hash) (tail : List UInt8) (img : Bytes) (keys : ι → List CStr)
    (dst : ι → Bytes) {t₁ t₂ : ι} (hne : t₁ ≠ t₂) {k₁ k₂ : CStr} {ks₁ ks₂ : List CStr}
    (h₁ : keys t₁ = k₁ :: ks₁) (h₂ : keys t₂ = k₂ :: ks₂) :
    ∃ s, (Sys.start keys dst).run hash tail img
        [.post t₁, .post t₂, .complete, .wait t₂, .notify t₂, .poll t₂] = some s ∧
      s.threads t₂ = ⟨.inspect, k₂ :: ks₂, dst t₂⟩ ∧ s.sq = [⟨t₂, homeOf hash k₂ * 64⟩] := by
  simp [Sys.run, Sys.step, thrPost, Sys.start, Sys.setPc, Sys.setThread, Sys.landed, h₁, h₂, hne,
    hne.symm]

end Alone

/-- **Each thread inspects the segment of its own key** in every run in turn, whatever the keys, the
buffers before and the timing. All runs are so exactly when only one thread has keys. -/
theorem inspects_own_read [DecidableEq ι] (hash : Hash) (tail : List UInt8) (img : Bytes)
    (keys : ι → List CStr) (dst : ι → Bytes) :
    (∀ acts s, (Sys.start keys dst).run hash tail img acts = some s →
      RunInTurn hash tail img (Sys.start keys dst) acts → ∀ t, s.OwnRead hash img t) ∧
    ((∀ acts s, (Sys.start keys dst).run hash tail img acts = some s →
      ∀ t, s.OwnRead hash img t) ↔ ∀ t t', keys t ≠ [] → keys t' ≠ [] → t = t') := by
  have hturn : ∀ acts s, (Sys.start keys dst).run hash tail img acts = some s →
      RunInTurn hash tail img (Sys.start keys dst) acts → ∀ t, s.OwnRead hash img t :=
    fun acts s hrun hturn => (inv_run (inv_start keys dst) hturn hrun).ownRead
  refine ⟨hturn, fun hall t₁ t₂ h₁ h₂ => ?_, fun halone acts s hrun => ?_⟩
  · by_contra hne
    obtain ⟨k₁, ks₁, hk₁⟩ := List.exists_cons_of_ne_nil h₁
    obtain ⟨k₂, ks₂, hk₂⟩ := List.exists_cons_of_ne_nil h₂
    obtain ⟨s, hrun, hth, hsq⟩ := run_out_of_turn hash tail img keys dst hne hk₁ hk₂
    obtain ⟨-, -, -, hnone, -⟩ := hall _ s hrun t₂ (by rw [hth])
    exact hnone ⟨t₂, homeOf hash k₂ * 64⟩ (by simp [hsq]) rfl
  · have hwithin : (Sys.start keys dst).Within (keys · ≠ []) :=
      ⟨fun t h => h, by simp [Sys.start, Sys.untaken]⟩
    exact hturn acts s hrun (runInTurn_alone halone (inv_start keys dst) hwithin hrun)

/-- Two threads, and a remote memory of `'1'` characters: the second thread inspects its buffer,
which still holds zeros, while its read is pending, and answers `Not found` for a bucket flagged
`'1'`. -/
theorem inspects_stale_buffer :
    ∃ s s', (Sys.start (fun _ : Bool => [userKey 1979045]) fun _ _ => 0).run jenkinsHash []
        (fun _ => 49) [.post false, .post true, .complete, .wait true, .notify true, .poll true] =
          some s ∧
      (s.threads true).pc = .inspect ∧ (∃ r ∈ s.sq, r.thread = true) ∧
      (∀ a, (s.threads true).dst a = 0) ∧ ¬ s.OwnRead jenkinsHash (fun _ => 49) true ∧
      s.step jenkinsHash [] (fun _ => 49) (.inspect true) = some s' ∧
      (s'.threads true).pc = .done := by
  obtain ⟨s, hrun, hth, hsq⟩ := run_out_of_turn jenkinsHash [] (fun _ => 49)
    (fun _ => [userKey 1979045]) (fun _ _ => 0) Bool.false_ne_true rfl rfl
  have hanswer : thrInspect [] (fun _ => 0) (keyBytes strMem keyLen (userKey 1979045)) = none := rfl
  have hstep : s.step jenkinsHash [] (fun _ => 49) (.inspect true) = some (s.setPc true .done) := by
    simp only [Sys.step, thrStep, hth, hanswer]
  refine ⟨s, _, hrun, by rw [hth], ⟨_, by rw [hsq]; exact List.mem_cons_self, rfl⟩,
    fun a => by rw [hth], fun hown => ?_, hstep, by simp⟩
  obtain ⟨k, ks, -, -, hseg⟩ := hown (by rw [hth])
  have hzero := hseg 0 (by decide)
  simp [hth] at hzero

end Rpma.Hopscotch
