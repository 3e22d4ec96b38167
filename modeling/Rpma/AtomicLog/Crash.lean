import Rpma.AtomicLog.Memory

/-!
# The remote log survives power failures

An invariant of every run (`Inv`): as long as no connection works, the file is new, a log is being
made or a log is stored, and of what the last client can still poll nothing is new (`Cut`); else the
client has posted some of the four requests for a word and the queue pair has executed some of these
(`Session`).

* **`log_survives`**: what any power failure leaves after any run.
* **`log_printed`**: what the server prints.
-/

namespace Rpma.AtomicLog

open Rpma.Lib Rpma.Lib.CText Relation

/-! ## The invariant -/

/-- Where the client is when `m` requests for the word `a` have been posted. -/
def ClientAt (c : List (List UInt8)) (a : List UInt8) (m : Nat) (cl : Client) : Prop :=
  match cl.pc with
  | .open => m = 0
  | .write => m = 0 ∧ cl.used = .ofNat (logEnd c)
  | .flush => m = 1 ∧ cl.args.head? = some a ∧ cl.used = .ofNat (logEnd c)
  | .atomicWrite => m = 2 ∧ cl.args.head? = some a ∧ cl.used = .ofNat (logEnd c)
  | .flushUsed => m = 3 ∧ cl.args.head? = some a ∧ cl.used = .ofNat (logEnd (c ++ [a]))
  | .wait => m = 4 ∧ cl.args.head? = some a ∧ cl.used = .ofNat (logEnd (c ++ [a]))
  | .closed => True

/-- The log holds `c`, and of the requests for the next word `a` the client has posted `m` and the
queue pair has executed `k`. When all are executed, `a` is safe and counts as told. -/
structure Session (s : State) (d c : List (List UInt8)) (a : List UInt8) (m k : Nat) : Prop where
  le : k ≤ m
  top : m ≤ 4
  works : s.broken = false
  queue : s.queue = ((script c a).take m).drop k
  mem : Written s.size d c a s.pmem k
  cmpls : s.cmpls = if k = 4 then [⟨true, true⟩] else []
  told : if k = 4 then s.told.Sublist (c ++ [a]) ∧ a ∈ s.told else s.told.Sublist d
  safe : d <+: c
  given : (if m = 0 then c else c ++ [a]).Sublist s.given
  begun : m ≠ 0 → s.given.getLast? = some a
  client : ∀ cl, s.client = some cl → ClientAt c a m cl

/-- The memory holds a log with at least the words of `told`, and no others than those of `given`. -/
def Stores (s : State) : Prop :=
  ∃ d c, LogMem s.size d c s.pmem ∧ s.told.Sublist d ∧ c.Sublist s.given

/-- There is no connection, or its queue pair has failed. The client may have one success left to
poll, for a word that counts as told. -/
structure Cut (s : State) : Prop where
  broken : s.broken = true
  head : ∀ wc ∈ s.cmpls.head?, wc.success = true → ∀ cl, s.client = some cl →
    cl.pc = .closed ∨ cl.pc = .wait ∧ ∃ a, cl.args.head? = some a ∧ a ∈ s.told
  tail : ∀ wc ∈ s.cmpls.tail, wc.success = false

/-- A log is being made: no power failure leaves a signature without an empty log. -/
structure Young (s : State) : Prop where
  told : s.told = []
  memory : ∀ img, s.pmem.Crash img → signed img = true →
    LogMem s.size [] [] (.ofImage img) ∧ LogImage s.size img []

/-- What the memory is like while no connection works, by where the server is. -/
inductive Resting (s : State) : Prop
  /-- The file is new. -/
  | blank (hpc : s.server = .off ∨ s.server = .check ∧ dataOffset ≤ s.size.toNat)
      (htold : s.told = []) (hblank : s.pmem.Among 0 {w | ¬ SignedWord w})
  /-- The log is being made. -/
  | making (htold : s.told = []) (hfits : dataOffset ≤ s.size.toNat)
      (hat : match s.server with
        | .storeUsed => s.pmem.Among 0 {w | ¬ SignedWord w}
        | .persistUsed => s.pmem.Among 0 {w | ¬ SignedWord w} ∧
            s.pmem.last 1 = usedWord (.ofNat (logEnd []))
        | .storeSignature => s.pmem.Among 0 {w | ¬ SignedWord w} ∧
            s.pmem.Among 1 {usedWord (.ofNat (logEnd []))}
        | .persistSignature => s.pmem.Among 1 {usedWord (.ofNat (logEnd []))} ∧
            SignedWord (s.pmem.last 0)
        | _ => False)
  | stored (hpc : s.server = .off ∨ s.server = .check ∨ s.server = .listening ∨ s.server = .serving)
      (hstores : Stores s)

/-- What holds in every reachable state. -/
inductive Inv (s : State) : Prop
  | cut (hcut : Cut s) (hresting : Resting s)
  | session {d c : List (List UInt8)} {a : List UInt8} {m k : Nat} (hpc : s.server = .serving)
      (hsession : Session s d c a m k)

section Inv

variable {s s' : State} {d c : List (List UInt8)} {a : List UInt8} {m k : Nat} {img : Image}

/-! ### Power failures -/

theorem Young.of_unsigned (htold : s.told = []) (h : s.pmem.Among 0 {w | ¬ SignedWord w}) :
    Young s :=
  ⟨htold, fun img hc hsig => absurd ((signed_iff img).mp hsig) (h _ (hc.word_mem 0))⟩

/-- The signature is stored when `used` is durable. -/
theorem Young.of_used (htold : s.told = []) (hfits : dataOffset ≤ s.size.toNat)
    (h : s.pmem.Among 1 {usedWord (.ofNat (logEnd []))}) : Young s := by
  refine ⟨htold, fun img hc hsig => ?_⟩
  have hword := h _ (hc.word_mem 1)
  have hmem : LogMem s.size [] [] (.ofImage img) := by
    refine ⟨fun w hw => ?_, fun w hw => ?_, hword, fun i hi => absurd hi (Nat.not_lt_zero i), hfits,
      List.prefix_rfl⟩
    · rw [Pmem.versions_ofImage] at hw
      exact List.mem_singleton.mp hw ▸ (signed_iff img).mp hsig
    · rw [Pmem.versions_ofImage] at hw
      exact ⟨[], List.prefix_rfl, List.prefix_rfl, (List.mem_singleton.mp hw).trans hword⟩
  obtain ⟨k, -, hk, -, himage⟩ := hmem.crash (Pmem.crash_ofImage img)
  exact ⟨hmem, List.prefix_nil.mp hk ▸ himage⟩

theorem Stores.crash (h : Stores s) (hc : s.pmem.Crash img) :
    ∃ ws, LogMem s.size ws ws (.ofImage img) ∧ LogImage s.size img ws ∧ s.told.Sublist ws ∧
      ws.Sublist s.given := by
  obtain ⟨d, c, hmem, htold, hgiven⟩ := h
  obtain ⟨k, hdk, hkc, hk, himage⟩ := hmem.crash hc
  exact ⟨k, hk, himage, htold.trans hdk.sublist, hkc.sublist.trans hgiven⟩

theorem Session.stores (h : Session s d c a m k) : Stores s := by
  have htold := h.told
  by_cases hk : k = 4
  · subst hk
    have hgiven := h.given
    rw [if_neg (by have := h.le; omega)] at hgiven
    rw [if_pos rfl] at htold
    exact ⟨_, _, h.mem, htold.1, hgiven⟩
  · rw [if_neg hk] at htold
    obtain ⟨d', c', hmem, hd, rfl | ⟨hk, rfl⟩⟩ := h.mem.logMem h.safe
    · refine ⟨d', c', hmem, htold.trans hd.sublist, List.Sublist.trans ?_ h.given⟩
      split
      · exact List.Sublist.refl _
      · exact List.sublist_append_left ..
    · have hgiven := h.given
      rw [if_neg (by have := h.le; omega)] at hgiven
      exact ⟨d', _, hmem, htold.trans hd.sublist, hgiven⟩

theorem Resting.durable (h : Resting s) : Young s ∨ Stores s := by
  cases h with
  | blank _ htold hblank => exact Or.inl (.of_unsigned htold hblank)
  | making htold hfits hat =>
    split at hat
    · exact Or.inl (.of_unsigned htold hat)
    · exact Or.inl (.of_unsigned htold hat.1)
    · exact Or.inl (.of_unsigned htold hat.1)
    · exact Or.inl (.of_used htold hfits hat.1)
    · exact hat.elim
  | stored _ hstores => exact Or.inr hstores

theorem Inv.durable (h : Inv s) : Young s ∨ Stores s := by
  cases h with
  | cut _ hresting => exact hresting.durable
  | session _ hsession => exact Or.inr hsession.stores

/-- The client that waits for its last flush, or has left. -/
theorem ClientAt.last {cl : Client} (h : ClientAt c a 4 cl) :
    cl.pc = .closed ∨ cl.pc = .wait ∧ cl.args.head? = some a := by
  unfold ClientAt at h
  split at h
  case h_1 => cases h
  case h_2 => cases h.1
  case h_3 => cases h.1
  case h_4 => cases h.1
  case h_5 => cases h.1
  case h_6 hpc => exact Or.inr ⟨hpc, h.2.1⟩
  case h_7 hpc => exact Or.inl hpc

theorem Session.cut_down (h : Session s d c a m k) (p : Pmem) : Cut (s.down p) := by
  have hcmpls := h.cmpls
  by_cases hk : k = 4
  · subst hk
    obtain rfl : m = 4 := Nat.le_antisymm h.top h.le
    have htold := h.told
    rw [if_pos rfl] at hcmpls htold
    refine ⟨rfl, fun wc hwc hsucc cl hcl => ?_, fun wc hwc => ?_⟩
    · exact (h.client cl hcl).last.imp_right fun hat => ⟨hat.1, a, hat.2, htold.2⟩
    · simp [State.down, hcmpls] at hwc
  · rw [if_neg hk] at hcmpls
    refine ⟨rfl, fun wc hwc => ?_, fun wc hwc => ?_⟩
    · simp [State.down, hcmpls] at hwc
    · simp [State.down, hcmpls] at hwc

theorem Inv.cut_down (h : Inv s) (p : Pmem) : Cut (s.down p) := by
  cases h with
  | cut hcut => exact ⟨rfl, hcut.head, hcut.tail⟩
  | session _ hsession => exact hsession.cut_down p

theorem Inv.powerFail (h : Inv s) (hc : s.pmem.Crash img) : Inv (s.down (.ofImage img)) := by
  refine .cut (h.cut_down _) ?_
  rcases h.durable with hyoung | hstores
  · by_cases hsig : signed img = true
    · obtain ⟨hmem, -⟩ := hyoung.memory img hc hsig
      have htold : s.told.Sublist [] := hyoung.told ▸ List.Sublist.refl _
      exact .stored (Or.inl rfl) ⟨[], [], hmem, htold, List.nil_sublist _⟩
    · have hblank : (Pmem.ofImage img).Among 0 {w | ¬ SignedWord w} := by
        intro w hw
        rw [Pmem.versions_ofImage] at hw
        exact List.mem_singleton.mp hw ▸ fun hword => hsig ((signed_iff img).mpr hword)
      exact .blank (Or.inl rfl) hyoung.told hblank
  · obtain ⟨ws, hmem, -, htold, hgiven⟩ := hstores.crash hc
    exact .stored (Or.inl rfl) ⟨ws, ws, hmem, htold, hgiven⟩

/-- Up to the store of the signature the file is as good as new, and behind its persist it is a log. -/
theorem Inv.exit (h : Inv s) (hpc : s.server ≠ .persistSignature) : Inv (s.down s.pmem) := by
  refine .cut (h.cut_down _) ?_
  cases h with
  | cut _ hresting =>
    cases hresting with
    | blank _ htold hblank => exact .blank (Or.inl rfl) htold hblank
    | making htold _ hat =>
      split at hat
      · exact .blank (Or.inl rfl) htold hat
      · exact .blank (Or.inl rfl) htold hat.1
      · exact .blank (Or.inl rfl) htold hat.1
      · rename_i hserver
        exact absurd hserver hpc
      · exact hat.elim
    | stored _ hstores => exact .stored (Or.inl rfl) hstores
  | session _ hsession => exact .stored (Or.inl rfl) hsession.stores

/-! ### The start of the server -/

/-- A client connects. -/
theorem Stores.connected (h : Stores s) (args : List (List UInt8)) :
    ∃ d c, Session (s.connected args) d c [] 0 0 := by
  obtain ⟨d, c, hmem, htold, hgiven⟩ := h
  exact ⟨d, c, {
    le := Nat.le_refl 0
    top := Nat.zero_le 4
    works := rfl
    queue := rfl
    mem := hmem
    cmpls := rfl
    told := htold
    safe := hmem.safe
    given := hgiven
    begun := fun h => absurd rfl h
    client := fun cl hcl => Option.some.inj hcl ▸ rfl }⟩

theorem signed_read_iff (p : Pmem) : signed p.read = true ↔ SignedWord (p.last 0) := by
  rw [signed_iff]
  rfl

/-- `strncpy` of the signature. -/
theorem signedWord_storeBytes (p : Pmem) :
    SignedWord ((p.storeBytes 0 (strncpy logHdrSignature logSignatureSize)).last 0) := by
  have hread := Pmem.read_storeBytes p 0 (strncpy logHdrSignature logSignatureSize)
  exact ⟨hread 0 (by decide), hread 1 (by decide), hread 2 (by decide), hread 3 (by decide)⟩

theorem State.serverStep_frame (hs : s.serverStep = some s') :
    s'.client = s.client ∧ s'.broken = s.broken ∧ s'.cmpls = s.cmpls ∧ s'.told = s.told := by
  unfold serverStep at hs
  repeat' split at hs
  all_goals first
    | obtain rfl := Option.some.inj hs
      exact ⟨rfl, rfl, rfl, rfl⟩
    | cases hs

theorem Resting.serverStep (h : Resting s) (hs : s.serverStep = some s') : Resting s' := by
  cases h with
  | blank hpc htold hblank =>
    rcases hpc with hpc | ⟨hpc, hfits⟩
    · simp only [State.serverStep, hpc] at hs
      split at hs
      · cases hs
      · split at hs
        · cases hs
        · rename_i hsize
          obtain rfl := Option.some.inj hs
          have hfits : dataOffset ≤ s.size.toNat := by
            unfold logSignatureSize kilobyte at hsize
            unfold dataOffset
            omega
          exact .blank (Or.inr ⟨rfl, hfits⟩) htold hblank
    · have hunsigned : ¬ signed s.pmem.read = true := fun hsig =>
        hblank.last ((signed_read_iff _).mp hsig)
      simp only [State.serverStep, hpc, if_neg hunsigned, Option.some.injEq] at hs
      subst hs
      exact .making htold hfits hblank
  | making htold hfits hat =>
    cases hpc : s.server with
    | storeUsed =>
      simp only [hpc] at hat
      simp only [State.serverStep, hpc, Option.some.injEq] at hs
      subst hs
      exact .making htold hfits ⟨hat.storeWord_of_ne (by decide), Pmem.last_storeWord_self ..⟩
    | persistUsed =>
      simp only [hpc] at hat
      simp only [State.serverStep, hpc, Option.some.injEq] at hs
      subst hs
      exact .making htold hfits ⟨hat.1.persist, Pmem.among_persist (by decide) hat.2⟩
    | storeSignature =>
      simp only [hpc] at hat
      simp only [State.serverStep, hpc, Option.some.injEq] at hs
      subst hs
      exact .making htold hfits
        ⟨hat.2.storeBytes (Or.inr (Nat.le_refl 8)), signedWord_storeBytes s.pmem⟩
    | persistSignature =>
      simp only [hpc] at hat
      simp only [State.serverStep, hpc, Option.some.injEq] at hs
      subst hs
      obtain ⟨hused, hsigned⟩ := hat
      have hmem : LogMem s.size [] [] (s.pmem.persist 0 logSignatureSize) :=
        ⟨Pmem.among_persist (by decide) hsigned,
          hused.persist.mono fun w hw => ⟨[], List.prefix_rfl, List.prefix_rfl, hw⟩,
          hused.persist.last, fun i hi => absurd hi (Nat.not_lt_zero i), hfits, List.prefix_rfl⟩
      exact .stored (Or.inr (Or.inr (Or.inl rfl)))
        ⟨[], [], hmem, htold ▸ List.Sublist.refl _, List.nil_sublist _⟩
    | off => simp [hpc] at hat
    | check => simp [hpc] at hat
    | listening => simp [hpc] at hat
    | serving => simp [hpc] at hat
  | stored hpc hstores =>
    obtain ⟨d, c, hmem, htold, hgiven⟩ := hstores
    rcases hpc with hpc | hpc | hpc | hpc
    · simp only [State.serverStep, hpc] at hs
      split at hs
      · cases hs
      · split at hs
        · cases hs
        · exact Option.some.inj hs ▸ .stored (Or.inr (Or.inl rfl)) ⟨d, c, hmem, htold, hgiven⟩
    · have hsigned : signed s.pmem.read = true := (signed_read_iff _).mpr hmem.sig.last
      simp only [State.serverStep, hpc, if_pos hsigned, Option.some.injEq] at hs
      exact hs ▸ .stored (Or.inr (Or.inr (Or.inl rfl))) ⟨d, c, hmem, htold, hgiven⟩
    · simp [State.serverStep, hpc] at hs
    · simp [State.serverStep, hpc] at hs

theorem Inv.serverStep (h : Inv s) (hs : s.serverStep = some s') : Inv s' := by
  cases h with
  | cut hcut hresting =>
    obtain ⟨hclient, hbroken, hcmpls, htold⟩ := State.serverStep_frame hs
    refine .cut ⟨hbroken.trans hcut.broken, ?_, hcmpls ▸ hcut.tail⟩ (hresting.serverStep hs)
    rw [hclient, hcmpls, htold]
    exact hcut.head
  | session hpc => simp [State.serverStep, hpc] at hs

/-! ### A connection that is down -/

/-- The memory is as it was, and nothing is told. -/
theorem Resting.frame (h : Resting s) (hserver : s'.server = s.server) (hsize : s'.size = s.size)
    (hpmem : s'.pmem = s.pmem) (htold : s'.told = s.told) (hgiven : s.given.Sublist s'.given) :
    Resting s' := by
  cases h with
  | blank hpc htold' hblank =>
    exact .blank (by rwa [hserver, hsize]) (htold.trans htold') (by rwa [hpmem])
  | making htold' hfits hat =>
    exact .making (htold.trans htold') (by rwa [hsize]) (by rwa [hserver, hpmem])
  | stored hpc hstores =>
    obtain ⟨d, c, hmem, htold', hgiven'⟩ := hstores
    exact .stored (by rwa [hserver])
      ⟨d, c, by rwa [hsize, hpmem], by rwa [htold], hgiven'.trans hgiven⟩

/-- What the client does not touch. -/
theorem State.clientStep_frame (hs : s.clientStep = some s') :
    s'.server = s.server ∧ s'.size = s.size ∧ s'.pmem = s.pmem ∧ s'.broken = s.broken ∧
      s'.told = s.told ∧ s.given.Sublist s'.given := by
  dsimp only [clientStep] at hs
  repeat' split at hs
  all_goals first
    | obtain rfl := Option.some.inj hs
      exact ⟨rfl, rfl, rfl, rfl, rfl, by simp [posted]⟩
    | cases hs

/-- Only a client that waits takes a completion. -/
theorem State.clientStep_cmpls (hs : s.clientStep = some s') :
    s'.cmpls = s.cmpls.tail ∨
      s'.cmpls = s.cmpls ∧ ∃ cl, s.client = some cl ∧ cl.pc ≠ .closed ∧ cl.pc ≠ .wait := by
  dsimp only [clientStep] at hs
  repeat' split at hs
  all_goals first
    | obtain rfl := Option.some.inj hs
      simp_all [posted]
    | cases hs

theorem Cut.clientStep (h : Cut s) (hs : s.clientStep = some s') : Cut s' := by
  have hbroken : s'.broken = true := (State.clientStep_frame hs).2.2.2.1.trans h.broken
  rcases State.clientStep_cmpls hs with hcmpls | ⟨hcmpls, cl, hcl, hclosed, hwait⟩
  · refine ⟨hbroken, fun wc hwc hsucc => ?_, fun wc hwc => ?_⟩
    · rw [hcmpls] at hwc
      rw [h.tail wc (List.mem_of_mem_head? hwc)] at hsucc
      cases hsucc
    · rw [hcmpls] at hwc
      exact h.tail wc (List.mem_of_mem_tail hwc)
  · refine ⟨hbroken, fun wc hwc hsucc => ?_, hcmpls ▸ h.tail⟩
    rw [hcmpls] at hwc
    rcases h.head wc hwc hsucc cl hcl with hpc | ⟨hpc, -⟩
    · exact absurd hpc hclosed
    · exact absurd hpc hwait

/-- A failed queue pair executes nothing. -/
theorem State.nicStep_broken (hbroken : s.broken = true) (hs : s.nicStep = some s') :
    ∃ id queue, s' = { s with queue := queue, cmpls := s.cmpls ++ [⟨id, false⟩] } := by
  unfold State.nicStep at hs
  split at hs
  · cases hs
  · rename_i wr queue hq
    rw [if_pos (Or.inl hbroken)] at hs
    obtain rfl := Option.some.inj hs
    exact ⟨wr.flushId, queue, by rw [hbroken]⟩

theorem Cut.fails (h : Cut s) (id : Bool) (queue : List Wr) :
    Cut { s with queue := queue, cmpls := s.cmpls ++ [⟨id, false⟩] } := by
  refine ⟨h.broken, fun wc hwc hsucc => ?_, fun wc hwc => ?_⟩
  · cases hcmpls : s.cmpls with
    | nil =>
      obtain rfl : ⟨id, false⟩ = wc := by simpa [hcmpls] using hwc
      cases hsucc
    | cons wc' cmpls => exact h.head wc (by simpa [hcmpls] using hwc) hsucc
  · cases hcmpls : s.cmpls with
    | nil => simp [hcmpls] at hwc
    | cons wc' cmpls =>
      rcases (by simpa [hcmpls] using hwc : wc ∈ cmpls ∨ wc = ⟨id, false⟩) with hmem | rfl
      · exact h.tail wc (by simpa [hcmpls] using hmem)
      · rfl

/-! ### The queue pair -/

theorem drop_take_cons {α : Type} {l : List α} {m k : Nat} {x : α} {xs : List α}
    (h : x :: xs = (l.take m).drop k) : l[k]? = some x ∧ k < m ∧ xs = (l.take m).drop (k + 1) := by
  have hk : k < (l.take m).length := by
    have hlen := congrArg List.length h
    rw [List.length_cons, List.length_drop] at hlen
    omega
  rw [List.drop_eq_getElem_cons hk, List.cons.injEq] at h
  obtain ⟨rfl, hxs⟩ := h
  rw [List.length_take] at hk
  exact ⟨by rw [List.getElem_take, List.getElem?_eq_getElem], by omega, hxs⟩

theorem flushId_iff {c : List (List UInt8)} {a : List UInt8} {k : Nat} {wr : Wr}
    (h : (script c a)[k]? = some wr) : wr.flushId = decide (k = 3) := by
  match k with
  | 0 => exact Option.some.inj h ▸ rfl
  | 1 => exact Option.some.inj h ▸ rfl
  | 2 => exact Option.some.inj h ▸ rfl
  | 3 => exact Option.some.inj h ▸ rfl
  | k + 4 => simp [script] at h

theorem Session.nicStep (h : Session s d c a m k) (hpc : s.server = .serving)
    (hs : s.nicStep = some s') : Inv s' := by
  have hstores := h.stores
  obtain ⟨hle, htop, hworks, hqueue, hmem, hcmpls, htold, hsafe, hgiven, hbegun, hclient⟩ := h
  unfold State.nicStep at hs
  split at hs
  · cases hs
  · rename_i wr queue hq
    obtain ⟨hwr, hlt, hrest⟩ := drop_take_cons (hq.symm.trans hqueue)
    have hk : k ≠ 4 := by omega
    have hnone : s.cmpls = [] := by rw [hcmpls, if_neg hk]
    rw [if_neg hk] at htold
    split at hs
    · obtain rfl := Option.some.inj hs
      refine .cut ⟨rfl, fun wc hwc hsucc => ?_, fun wc hwc => ?_⟩
        (.stored (Or.inr (Or.inr (Or.inr hpc))) hstores)
      · obtain rfl : ⟨wr.flushId, false⟩ = wc := by simpa [hnone] using hwc
        cases hsucc
      · simp [hnone] at hwc
    · rename_i hok
      obtain rfl := Option.some.inj hs
      have hexec := hmem.exec hwr fun hstop => hok (Or.inr hstop)
      refine .session hpc ⟨hlt, htop, hworks, hrest, hexec, ?_, ?_, hsafe, hgiven, hbegun, hclient⟩
      · simp [flushId_iff hwr, hnone]
      · -- the last of the four is the flush of `used`
        by_cases hlast : k = 3
        · have hword : s.given.getLast? = some a := hbegun (by omega)
          simp only [flushId_iff hwr, hlast, decide_true, if_true, hword, Option.toList_some]
          exact ⟨(htold.trans hsafe.sublist).append (List.Sublist.refl [a]), by simp⟩
        · simpa [flushId_iff hwr, hlast] using htold

theorem Inv.nicStep (h : Inv s) (hs : s.nicStep = some s') : Inv s' := by
  cases h with
  | cut hcut hresting =>
    obtain ⟨id, queue, rfl⟩ := State.nicStep_broken hcut.broken hs
    exact .cut (hcut.fails id queue)
      (hresting.frame rfl rfl rfl rfl (List.Sublist.refl _))
  | session hpc hsession => exact hsession.nicStep hpc hs

/-! ### The client -/

theorem Session.withClient (h : Session s d c a m k) {cl : Client} (hcl : ClientAt c a m cl) :
    Session { s with client := some cl } d c a m k :=
  { h with client := fun _ h' => Option.some.inj h' ▸ hcl }

/-- The next request is posted. -/
theorem Session.post (h : Session s d c a m k) {cl : Client} {wr : Wr}
    (hm : m ≠ 0) (hwr : (script c a)[m]? = some wr) (hcl : ClientAt c a (m + 1) cl) :
    Session (s.posted cl wr) d c a (m + 1) k := by
  have hlt : m < (script c a).length := (List.getElem?_eq_some_iff.mp hwr).1
  obtain ⟨hle, htop, hworks, hqueue, hmem, hcmpls, htold, hsafe, hgiven, hbegun, hclient⟩ := h
  refine ⟨by omega, hlt, hworks, ?_, hmem, hcmpls, htold, hsafe, ?_, fun _ => hbegun hm,
    fun cl' h' => Option.some.inj h' ▸ hcl⟩
  · have hlen : k ≤ ((script c a).take m).length := by
      rw [List.length_take]
      omega
    rw [List.take_add_one, hwr, List.drop_append_of_le_length hlen, ← hqueue]
    rfl
  · rw [if_neg hm] at hgiven
    rw [if_neg (Nat.succ_ne_zero m)]
    exact hgiven

theorem Client.word_of_head (cl : Client) (h : cl.args.head? = some a) :
    cl.word = wordBytes a := by
  rw [word, List.headD_eq_head?_getD, h]
  rfl

/-- The client begins with the word `arg`. -/
theorem Session.first (h : Session s d c a 0 0) {cl : Client} {arg : List UInt8}
    (hargs : cl.args.head? = some arg) (hused : cl.used = .ofNat (logEnd c)) :
    Session { s.posted { cl with pc := .flush } (.write cl.used (wordBytes arg)) with
      given := s.given ++ [arg] } d c arg 1 0 where
  le := Nat.zero_le 1
  top := by omega
  works := h.works
  queue := by
    have hqueue : s.queue = [] := h.queue
    simp [State.posted, hqueue, hused, script]
  mem := h.mem
  cmpls := h.cmpls
  told := h.told
  safe := h.safe
  given := by
    have hgiven : c.Sublist s.given := h.given
    exact hgiven.append (List.Sublist.refl [arg])
  begun _ := by simp
  client cl' h' := Option.some.inj h' ▸ ⟨rfl, hargs, hused⟩

/-- The client polls the completion of the last flush. -/
theorem Session.next (h : Session s d c a 4 4) {cl : Client}
    (hused : cl.used = .ofNat (logEnd (c ++ [a]))) :
    Session { s with
      client := some { cl with pc := .write, args := cl.args.tail }
      cmpls := [] } (c ++ [a]) (c ++ [a]) [] 0 0 where
  le := Nat.le_refl 0
  top := Nat.zero_le 4
  works := h.works
  queue := h.queue
  mem := h.mem
  cmpls := rfl
  told := And.left h.told
  safe := List.prefix_rfl
  given := h.given
  begun hm := absurd rfl hm
  client cl' h' := by
    obtain rfl := Option.some.inj h'
    exact ⟨rfl, hused⟩

theorem Session.clientStep (h : Session s d c a m k) (hs : s.clientStep = some s') :
    ∃ d c a m k, Session s' d c a m k := by
  unfold State.clientStep at hs
  split at hs
  · cases hs
  · rename_i cl hcl
    have hat := h.client cl hcl
    unfold ClientAt at hat
    split at hs
    case h_1 hpc =>
      simp only [hpc] at hat
      obtain rfl : k = 0 := by
        have := h.le
        omega
      have hmem : LogMem s.size d c s.pmem := h.mem
      dsimp only at hs
      rw [if_neg (by simp [h.works])] at hs
      split at hs
      · obtain rfl := Option.some.inj hs
        exact ⟨d, c, a, m, 0, h.withClient trivial⟩
      · obtain rfl := Option.some.inj hs
        refine ⟨d, c, a, m, 0, h.withClient ⟨hat, ?_⟩⟩
        exact (congrArg loadUsed hmem.last).trans (loadUsed_usedWord _)
    case h_2 hpc =>
      simp only [hpc] at hat
      obtain ⟨rfl, hused⟩ := hat
      obtain rfl : k = 0 := Nat.le_zero.mp h.le
      split at hs
      · obtain rfl := Option.some.inj hs
        exact ⟨d, c, a, 0, 0, h.withClient trivial⟩
      · rename_i arg args hargs
        obtain rfl := Option.some.inj hs
        exact ⟨d, c, arg, 1, 0, h.first (by rw [hargs]; rfl) hused⟩
    case h_3 hpc =>
      simp only [hpc] at hat
      obtain ⟨rfl, hargs, hused⟩ := hat
      obtain rfl := Option.some.inj hs
      have hword := cl.word_of_head hargs
      exact ⟨d, c, a, 2, k, h.post (by omega) (by rw [hword, hused]; rfl) ⟨rfl, hargs, hused⟩⟩
    case h_4 hpc =>
      simp only [hpc] at hat
      obtain ⟨rfl, hargs, hused⟩ := hat
      obtain rfl := Option.some.inj hs
      have hnext : cl.used + .ofNat cl.word.length = .ofNat (logEnd (c ++ [a])) := by
        rw [hused, cl.word_of_head hargs, logEnd_concat, UInt64.ofNat_add]
      exact ⟨d, c, a, 3, k, h.post (by omega) (by rw [hnext]; rfl) ⟨rfl, hargs, hnext⟩⟩
    case h_5 hpc =>
      simp only [hpc] at hat
      obtain ⟨rfl, hargs, hused⟩ := hat
      obtain rfl := Option.some.inj hs
      exact ⟨d, c, a, 4, k, h.post (by omega) rfl ⟨rfl, hargs, hused⟩⟩
    case h_6 hpc =>
      simp only [hpc] at hat
      obtain ⟨rfl, hargs, hused⟩ := hat
      have hcmpls := h.cmpls
      split at hs
      · cases hs
      · rename_i wc cmpls hwc
        -- there is a completion, so all four requests have been executed
        have hk : k = 4 := by
          by_contra hk
          simp [hwc, hk] at hcmpls
        subst hk
        simp only [hwc, if_true, List.cons.injEq] at hcmpls
        obtain ⟨rfl, rfl⟩ := hcmpls
        obtain rfl := Option.some.inj hs
        exact ⟨c ++ [a], c ++ [a], [], 0, 0, h.next hused⟩
    case h_7 => cases hs

theorem Inv.clientStep (h : Inv s) (hs : s.clientStep = some s') : Inv s' := by
  obtain ⟨hserver, hsize, hpmem, -, htold, hgiven⟩ := State.clientStep_frame hs
  cases h with
  | cut hcut hresting =>
    exact .cut (hcut.clientStep hs) (hresting.frame hserver hsize hpmem htold hgiven)
  | session hpc hsession =>
    obtain ⟨d, c, a, m, k, hnext⟩ := hsession.clientStep hs
    exact .session (hserver.trans hpc) hnext

/-! ## Runs -/

theorem Inv.step (h : Inv s) (hstep : Step s s') : Inv s' := by
  cases hstep with
  | server hs => exact h.serverStep hs
  | client hs => exact h.clientStep hs
  | nic hs => exact h.nicStep hs
  | connect args hserver =>
    have hstores : Stores s := by
      cases h with
      | cut _ hresting =>
        cases hresting with
        | blank hpc => simp [hserver] at hpc
        | making _ _ hat => simp [hserver] at hat
        | stored _ hstores => exact hstores
      | session hpc => simp [hserver] at hpc
    obtain ⟨d, c, hsession⟩ := hstores.connected args
    exact .session rfl hsession
  | quit hcl =>
    cases h with
    | cut hcut hresting =>
      refine .cut ⟨hcut.broken, fun wc hwc hsucc cl' hcl' => ?_, hcut.tail⟩
        (hresting.frame rfl rfl rfl rfl (List.Sublist.refl _))
      exact Or.inl (Option.some.inj hcl' ▸ rfl)
    | session hpc hsession => exact .session hpc (hsession.withClient trivial)
  | exit hserver => exact h.exit hserver
  | powerFail hc => exact h.powerFail hc

/-- **In every reachable state.** -/
theorem Reachable.inv {size : UInt64} (hnew : signed img = false) (h : Reachable size img s) :
    Inv s := by
  induction h with
  | refl =>
    refine .cut ⟨rfl, fun wc hwc => (by cases hwc), fun wc hwc => by cases hwc⟩
      (.blank (Or.inl rfl) rfl fun w hw => ?_)
    have hword : w = fun j : Fin 8 => img (8 * 0 + j) := List.mem_singleton.mp hw
    exact hword ▸ fun hs => Bool.false_ne_true (hnew.symm.trans ((signed_iff img).mpr hs))
  | tail _ hstep ih => exact ih.step hstep

/-- What the client learns at a poll has been counted. -/
theorem Inv.polled (h : Inv s) (hp : s.polled = some a) : a ∈ s.told := by
  unfold State.polled at hp
  split at hp
  · cases hp
  · rename_i cl hcl
    split at hp
    · rename_i hwait
      obtain ⟨hpc, hhead⟩ := hwait
      cases h with
      | cut hcut =>
        rcases hcut.head _ hhead rfl cl hcl with hclosed | ⟨-, w, hw, hmem⟩
        · cases hpc.symm.trans hclosed
        · exact Option.some.inj (hw.symm.trans hp) ▸ hmem
      | session _ hsession =>
        have htold := hsession.told
        have hat := hsession.client cl hcl
        have hcmpls := hsession.cmpls
        split at hcmpls
        · rename_i hk
          rw [if_pos hk] at htold
          unfold ClientAt at hat
          simp only [hpc] at hat
          exact Option.some.inj (hat.2.1.symm.trans hp) ▸ htold.2
        · simp [hcmpls] at hhead
    · cases hp

end Inv

/-- **The log survives**: after any run of servers and clients, with power failures in it, a client that
polls a success is told of a word of `told`. A further power failure leaves a file without the
signature only if this is empty. Otherwise it leaves a log, inside the file, of whole words: at least
those of `told`, and no others than those the clients were given, in this order. -/
theorem log_survives (size : UInt64) (img₀ : Image) (hnew : signed img₀ = false) (s : State)
    (h : Reachable size img₀ s) (img : Image) (hc : s.pmem.Crash img) :
    (∀ a, s.polled = some a → a ∈ s.told) ∧
      (signed img = false ∧ s.told = [] ∨
        ∃ ws, LogImage s.size img ws ∧ s.told.Sublist ws ∧ ws.Sublist s.given) := by
  have hinv := h.inv hnew
  refine ⟨fun a hp => hinv.polled hp, ?_⟩
  rcases hinv.durable with hyoung | hstores
  · cases hsig : signed img with
    | false => exact Or.inl ⟨rfl, hyoung.told⟩
    | true =>
      obtain ⟨-, himage⟩ := hyoung.memory img hc hsig
      exact Or.inr ⟨[], himage, hyoung.told ▸ List.Sublist.refl _, List.nil_sublist _⟩
  · obtain ⟨ws, -, himage, htold, hgiven⟩ := hstores.crash hc
    exact Or.inr ⟨ws, himage, htold, hgiven⟩

/-- The server starts with a file of zeros and a client appends the word `hi`. -/
def oneWord : List Act :=
  [.server, .server, .server, .server, .server, .server, .connect [[104, 105]], .client, .client,
    .client, .nic, .client, .client, .nic, .nic, .nic]

/-- The server ends before the client polls. -/
theorem log_survives_hi :
    ∃ s, Reachable 2048 (fun _ => 0) s ∧ s.server = .off ∧ s.polled = some [104, 105] ∧
      [104, 105] ∈ s.told ∧ ∃ ws,
        LogImage s.size s.pmem.read ws ∧ s.told.Sublist ws ∧ ws.Sublist s.given := by
  have hsome : ((State.start 2048 fun _ => 0).run (oneWord ++ [.exit])).map
      (fun s => (s.server, s.polled, s.told)) =
      some (.off, some [104, 105], [[104, 105]]) := by decide +kernel
  obtain ⟨s, hs, heq⟩ := Option.map_eq_some_iff.mp hsome
  obtain ⟨hserver, heq⟩ := Prod.mk.inj heq
  obtain ⟨hpolled, htold⟩ := Prod.mk.inj heq
  have hreach := State.reachable_of_run hs
  obtain ⟨hmem, hlog⟩ := log_survives 2048 _ (by decide) s hreach _ s.pmem.crash_read
  refine ⟨s, hreach, hserver, hpolled, hmem _ hpolled, ?_⟩
  rcases hlog with ⟨-, hnone⟩ | hlog
  · exact absurd (hnone.symm.trans htold) (by decide)
  · exact hlog

/-- **What the server prints**: a line for each word of a log that has all the words of `told`, and no
others than those the clients were given, in this order. -/
theorem log_printed (size : UInt64) (img₀ : Image) (hnew : signed img₀ = false) (s : State)
    (h : Reachable size img₀ s) (hserver : s.server = .serving) :
    ∃ ws, printLog s.pmem = lines ws ∧ s.told.Sublist ws ∧ ws.Sublist s.given := by
  have hstores : Stores s := by
    cases h.inv hnew with
    | cut _ hresting =>
      cases hresting with
      | blank hpc => simp [hserver] at hpc
      | making _ _ hat => simp [hserver] at hat
      | stored _ hstores => exact hstores
    | session _ hsession => exact hsession.stores
  obtain ⟨d, c, hmem, htold, hgiven⟩ := hstores
  exact ⟨c, hmem.printLog, htold.trans hmem.safe.sublist, hgiven⟩

theorem log_printed_hi :
    ∃ s, Reachable 2048 (fun _ => 0) s ∧ s.told = [[104, 105]] ∧
      ∃ ws, printLog s.pmem = lines ws ∧ s.told.Sublist ws ∧ ws.Sublist s.given := by
  have hsome : ((State.start 2048 fun _ => 0).run oneWord).map (fun s => (s.told, s.server)) =
      some ([[104, 105]], .serving) := by decide +kernel
  obtain ⟨s, hs, heq⟩ := Option.map_eq_some_iff.mp hsome
  obtain ⟨htold, hserver⟩ := Prod.mk.inj heq
  have hreach := State.reachable_of_run hs
  exact ⟨s, hreach, htold, log_printed 2048 _ (by decide) s hreach hserver⟩

end Rpma.AtomicLog
