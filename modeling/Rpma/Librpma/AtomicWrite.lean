import Rpma.Librpma.Post

/-!
# The atomic write and where it lands: `rpma_atomic_write`

An atomic write stores 8 bytes at `dst->raddr + dst_offset`, and a store of 8 bytes is atomic at a
multiple of `RPMA_ATOMIC_WRITE_ALIGNMENT`. `rpma_atomic_write` checks `dst_offset`. The base address
is any non-`NULL` pointer given to `rpma_mr_reg`, which passes through the descriptor as it is
(`Exported.asRemote`).

* `rpmaAtomicWrite_posts`: a call that returns 0 has posted exactly one request, `atomicWr`.
* **`writes_atomically_iff`**: every atomic write to an exported region is an atomic store exactly
  when the address that was registered is a multiple of 8.
* `atomic_write_misaligned`: a region at `0x1004`, offset 8.
-/

namespace Rpma.Librpma.Data

open Rpma.Lib Rpma.Lib.CText

/-! ## The code -/

/-- `RPMA_ATOMIC_WRITE_ALIGNMENT`. -/
def atomicWriteAlignment : UInt64 := 8

/-- The work request of an atomic write. The `lkey` of its element is left unset, which an inline
request does without. -/
structure AtomicWr where
  wrId : UInt64
  /-- `sge.addr` and `sge.length`. -/
  addr : UInt64
  length : UInt32
  opcode : Opcode
  /-- `IBV_SEND_INLINE`, `IBV_SEND_FENCE` and `IBV_SEND_SIGNALED` of `send_flags`. -/
  sendInline : Bool
  fence : Bool
  signaled : Bool
  /-- `wr.rdma.remote_addr` and `wr.rdma.rkey`. -/
  remoteAddr : UInt64
  rkey : UInt32
  deriving DecidableEq, Repr

/-- The calls of an atomic write. -/
inductive AtomicCall where
  | faultInjection
  | ibvPostSend (qp : Nat) (wr : AtomicWr)
  deriving DecidableEq, Repr

/-- Whether a fault is injected, and what `ibv_post_send` returns. -/
abbrev AtomicCall.Ans : AtomicCall → Type
  | .faultInjection => Bool
  | .ibvPostSend _ _ => Int

/-- A program of the atomic write. -/
abbrev A := Prog AtomicCall AtomicCall.Ans

abbrev AtomicLog := Log AtomicCall AtomicCall.Ans

abbrev AtomicWorld := Nat → (c : AtomicCall) → c.Ans

/-- `RPMA_FAULT_INJECTION(ret, {})`. -/
def atomicFault (ret : Int) (rest : A Int) : A Int :=
  .call .faultInjection fun fault => if fault = true then pure ret else rest

/-- The request that `rpma_mr_atomic_write` fills in. -/
def atomicWr (dst : MrRemote) (dstOffset src : UInt64) (flags : BitVec 32) (opContext : UInt64) :
    AtomicWr where
  wrId := opContext
  addr := src
  length := 8
  opcode := .rdmaWrite
  sendInline := true
  fence := true
  signaled := completionOnSuccess flags
  remoteAddr := dst.raddr + dstOffset
  rkey := dst.rkey

/-- `rpma_mr_atomic_write`. -/
def mrAtomicWrite (qp : Nat) (dst : MrRemote) (dstOffset src : UInt64) (flags : BitVec 32)
    (opContext : UInt64) : A Int :=
  atomicFault rpmaEProvider <|
    .call (.ibvPostSend qp (atomicWr dst dstOffset src flags opContext)) fun ret =>
      pure (if ret ≠ (0 : Int) then rpmaEProvider else 0)

/-- `rpma_atomic_write`; a connection is the QP it posts to, and `none` is `NULL`. -/
def rpmaAtomicWrite (conn : Option Nat) (dst : Option MrRemote) (dstOffset : UInt64)
    (src : Option UInt64) (flags : BitVec 32) (opContext : UInt64) : A Int :=
  atomicFault rpmaEInval <|
    match conn, dst, src with
    | some qp, some dst, some src =>
      if flags = 0 then pure rpmaEInval
      else if dstOffset % atomicWriteAlignment ≠ 0 then pure rpmaEInval
      else mrAtomicWrite qp dst dstOffset src flags opContext
    | _, _, _ => pure rpmaEInval

/-! ## Atomic stores -/

/-- The requests posted after `log`, each with its QP. -/
def postedSince (log log' : AtomicLog) : List (Nat × AtomicWr) :=
  (log'.drop log.length).filterMap fun e =>
    match e.1 with
    | .faultInjection => none
    | .ibvPostSend qp wr => some (qp, wr)

/-- The request stores 8 bytes atomically at `dst_offset` of the region. -/
structure AtomicStore (dst : MrRemote) (dstOffset : UInt64) (wr : AtomicWr) : Prop where
  write : wr.opcode = .rdmaWrite
  eightBytes : wr.length = 8
  sendInline : wr.sendInline = true
  fenced : wr.fence = true
  place : wr.remoteAddr = dst.raddr + dstOffset
  aligned : wr.remoteAddr % atomicWriteAlignment = 0

/-- **Every atomic write to `dst` that returns 0** has posted exactly one request, an atomic
store. -/
def WritesAtomically (dst : MrRemote) : Prop :=
  ∀ (world : AtomicWorld) (log : AtomicLog) (conn : Option Nat) (dstOffset : UInt64)
    (src : Option UInt64) (flags : BitVec 32) (opContext : UInt64),
    ((rpmaAtomicWrite conn (some dst) dstOffset src flags opContext).run world log).1 = 0 →
      ∃ qp wr, postedSince log
        ((rpmaAtomicWrite conn (some dst) dstOffset src flags opContext).run world log).2 =
          [(qp, wr)] ∧ AtomicStore dst dstOffset wr

/-- The memory at `ptr` was registered on one host and its descriptor decoded to `dst` on
another. -/
structure Exported (ptr size : UInt64) (dst : MrRemote) where
  peer : Option Peer
  usage : BitVec 32
  mr : MrLocal
  regWorld : DataWorld
  regLog : DataLog
  registered : ((mrReg peer (some ptr) size usage true).run regWorld regLog).1 = .ok mr
  host : Endian
  mem : Bytes
  mem1 : Bytes
  desc : Nat
  descWorld : DataWorld
  descLog : DataLog
  described : ((mrGetDescriptor host mem (some mr) (some desc)).run descWorld descLog).1 =
    (0, mem1)
  host' : Endian
  mem' : Bytes
  desc' : Nat
  copied : ∀ i < mrDescSize, mem' (desc' + i) = mem1 (desc + i)
  descSize : Nat
  decWorld : DataWorld
  decLog : DataLog
  decoded : ((mrRemoteFromDescriptor host' mem' (some desc') descSize true).run decWorld
    decLog).1 = .ok dst

/-! ## The region on the other side -/

/-- Whatever fails, a descriptor is written in full or an error returned. -/
theorem mrGetDescriptor_returns (host : Endian) (mem : Bytes) (mr : MrLocal) (desc : Nat) :
    (mrGetDescriptor host mem (some mr) (some desc)).Returns fun r =>
      r.1 = 0 → r.2 = blit mem desc mr.descriptor := by
  have hinval : rpmaEInval ≠ 0 := by decide
  refine returns_faultInjection (fun h => absurd h hinval) fun _ => ?_
  exact congrArg Prod.snd (mrGetDescriptor_run calmWorld_noFaults host mr [])

/-- Whatever fails, a region that is decoded is what the bytes describe. -/
theorem mrRemoteFromDescriptor_returns (host : Endian) (mem : Bytes) (desc descSize : Nat) :
    (mrRemoteFromDescriptor host mem (some desc) descSize true).Returns fun r =>
      ∀ dst, r = .ok dst → dst = describedAt mem desc := by
  have hrun :
      ((mrRemoteFromDescriptor host mem (some desc) descSize true).run calmWorld []).1 = _ :=
    mrRemoteFromDescriptor_run calmWorld_noFaults calmWorld_allocates host descSize []
  unfold mrRemoteFromDescriptor at hrun ⊢
  rw [run_faultInjection calmWorld_noFaults] at hrun
  refine returns_faultInjection nofun ?_
  dsimp only at hrun ⊢
  split at hrun
  · rw [if_pos ‹_›]
    exact nofun
  · rw [if_neg ‹_›]
    split at hrun
    · rw [if_pos ‹_›]
      exact nofun
    · rw [if_neg ‹_›]
      rw [run_allocate calmWorld_allocates, if_neg (not_or.mpr ⟨‹_›, ‹_›⟩)] at hrun
      refine returns_allocate nofun ?_
      rintro dst ⟨⟩
      exact Except.ok.inj hrun

/-- **The address that was registered is the address of the remote region.** -/
theorem Exported.asRemote {ptr size : UInt64} {dst : MrRemote} (h : Exported ptr size dst) :
    dst = h.mr.asRemote ∧ dst.raddr = ptr ∧ dst.size = size := by
  obtain ⟨hptr, hsize, husage, haccepted⟩ :=
    (mrReg_range h.peer (some ptr) size h.usage true).run h.regWorld h.regLog h.mr
      h.registered
  have hmem1 : h.mem1 = blit h.mem h.desc h.mr.descriptor := by
    have := (mrGetDescriptor_returns h.host h.mem h.mr h.desc).run h.descWorld h.descLog
    rw [h.described] at this
    exact this rfl
  have hbytes : bytesAt h.mem' h.desc' mrDescSize = h.mr.descriptor := by
    rw [bytesAt_congr h.copied, hmem1]
    exact length_descriptor .. ▸ bytesAt_blit h.mem h.desc h.mr.descriptor
  have hdst : dst = h.mr.asRemote := by
    rw [← describedAt_of_descriptor (husage ▸ (usage_lt_of_accepted haccepted).2) hbytes]
    exact (mrRemoteFromDescriptor_returns h.host' h.mem' h.desc' h.descSize).run
      h.decWorld h.decLog dst h.decoded
  refine ⟨hdst, ?_, ?_⟩
  · rw [congrArg MrRemote.raddr hdst]
    exact (Option.some.inj hptr).symm
  · rw [congrArg MrRemote.size hdst]
    exact hsize

/-! ## What a call posts -/

section Posts

variable {world : AtomicWorld} {log : AtomicLog}

/-- A call that returns 0 passes its fault injection point, and posts what comes after it. -/
theorem atomicFault_run {ret : Int} (hret : ret ≠ 0) {rest : A Int}
    (h : ((atomicFault ret rest).run world log).1 = 0) :
    (rest.run world (log ++ [⟨.faultInjection, world log.length .faultInjection⟩])).1 = 0 ∧
      postedSince log ((atomicFault ret rest).run world log).2 =
        postedSince (log ++ [⟨.faultInjection, world log.length .faultInjection⟩])
          (rest.run world (log ++ [⟨.faultInjection, world log.length .faultInjection⟩])).2 := by
  unfold atomicFault at h ⊢
  simp only [Prog.run] at h ⊢
  split at h
  · exact absurd h hret
  · rename_i hf
    rw [if_neg hf]
    have hpre : log ++ [⟨.faultInjection, world log.length .faultInjection⟩] <+:
        (rest.run world (log ++ [⟨.faultInjection, world log.length .faultInjection⟩])).2 :=
      Prog.run_prefix _ _
    obtain ⟨calls, hcalls⟩ := hpre
    refine ⟨h, ?_⟩
    rw [← hcalls]
    simp [postedSince]

/-- **A call that returns 0 has posted exactly one request**, for an offset that is a multiple
of 8. -/
theorem rpmaAtomicWrite_posts {conn : Option Nat} {dst : MrRemote} {dstOffset : UInt64}
    {src : Option UInt64} {flags : BitVec 32} {opContext : UInt64}
    (h : ((rpmaAtomicWrite conn (some dst) dstOffset src flags opContext).run world log).1 = 0) :
    dstOffset % atomicWriteAlignment = 0 ∧ ∃ qp s, conn = some qp ∧ src = some s ∧ postedSince log
      ((rpmaAtomicWrite conn (some dst) dstOffset src flags opContext).run world log).2 =
        [(qp, atomicWr dst dstOffset s flags opContext)] := by
  have hinval : rpmaEInval ≠ 0 := by decide
  unfold rpmaAtomicWrite at h ⊢
  obtain ⟨hrest, hposted⟩ := atomicFault_run hinval h
  rw [hposted]
  match conn, src with
  | none, _ => exact absurd hrest hinval
  | some _, none => exact absurd hrest hinval
  | some qp, some s =>
    dsimp only at hrest ⊢
    by_cases hflags : flags = 0
    · rw [if_pos hflags] at hrest
      exact absurd hrest hinval
    · by_cases halign : dstOffset % atomicWriteAlignment = 0
      · rw [if_neg hflags, if_neg (not_not_intro halign)] at hrest ⊢
        unfold mrAtomicWrite at hrest ⊢
        obtain ⟨-, hpost⟩ := atomicFault_run (by decide) hrest
        rw [hpost]
        refine ⟨halign, qp, s, rfl, rfl, ?_⟩
        simp [postedSince, Prog.run]
      · rw [if_neg hflags, if_pos halign] at hrest
        exact absurd hrest hinval

/-- Every call answered by a success. -/
def servedWorld : AtomicWorld := fun _ c =>
  match c with
  | .faultInjection => false
  | .ibvPostSend _ _ => (0 : Int)

/-- A write that is not refused returns 0 when nothing fails. -/
theorem rpmaAtomicWrite_served (qp : Nat) (dst : MrRemote) {dstOffset : UInt64} (src : UInt64)
    {flags : BitVec 32} (opContext : UInt64) (log : AtomicLog) (hflags : flags ≠ 0)
    (hoff : dstOffset % atomicWriteAlignment = 0) :
    ((rpmaAtomicWrite (some qp) (some dst) dstOffset (some src) flags opContext).run servedWorld
      log).1 = 0 := by
  unfold rpmaAtomicWrite atomicFault
  dsimp only [Prog.run, servedWorld]
  rw [if_neg (by decide), if_neg hflags, if_neg (not_not_intro hoff)]
  rfl

end Posts

/-- The sum wraps around at a multiple of 8, so it is aligned as the base is. -/
theorem add_aligned_iff {a b : UInt64} (hb : b % atomicWriteAlignment = 0) :
    (a + b) % atomicWriteAlignment = 0 ↔ a % atomicWriteAlignment = 0 := by
  have hmod : ∀ x : UInt64, x % atomicWriteAlignment = 0 ↔ x.toNat % 8 = 0 := fun x => by
    rw [← UInt64.toNat_inj, UInt64.toNat_mod]
    rfl
  rw [hmod] at hb ⊢
  rw [hmod, UInt64.toNat_add]
  omega

/-- **Every atomic write to an exported region is an atomic store exactly when the address that was
registered is a multiple of 8.** -/
theorem writes_atomically_iff {ptr size : UInt64} {dst : MrRemote} (h : Exported ptr size dst) :
    WritesAtomically dst ↔ ptr % atomicWriteAlignment = 0 := by
  obtain ⟨-, hraddr, -⟩ := h.asRemote
  constructor
  · intro hall
    -- offset 0 is never refused
    have hret : ((rpmaAtomicWrite (some 0) (some dst) 0 (some 0) completionAlways 0).run
        servedWorld []).1 = 0 := rpmaAtomicWrite_served 0 dst 0 0 [] (by decide) (by decide)
    obtain ⟨qp, wr, -, hstore⟩ := hall _ _ _ _ _ _ _ hret
    have haligned := hstore.aligned
    rwa [hstore.place, add_aligned_iff (by decide), hraddr] at haligned
  · intro hptr world log conn dstOffset src flags opContext hret
    obtain ⟨hoff, qp, s, -, -, hposted⟩ := rpmaAtomicWrite_posts hret
    refine ⟨qp, _, hposted, rfl, rfl, rfl, rfl, rfl, ?_⟩
    exact (add_aligned_iff hoff).mpr (hraddr ▸ hptr)

/-! ## Two regions -/

/-- 64 bytes at `ptr`, for writes, described by a big-endian host and decoded by a little-endian
one. -/
def exportedAt (ptr : UInt64) : Exported ptr 64 ⟨ptr, 64, 9, usageWriteDst⟩ where
  peer := some ⟨false, false, false⟩
  usage := usageWriteDst
  mr := ⟨⟨ptr, 64, 7, 9⟩, usageWriteDst⟩
  regWorld := calmWorld
  regLog := []
  registered := rfl
  host := .big
  mem _ := 0
  mem1 := ((mrGetDescriptor .big (fun _ => 0) (some ⟨⟨ptr, 64, 7, 9⟩, usageWriteDst⟩)
    (some 0)).run calmWorld []).1.2
  desc := 0
  descWorld := calmWorld
  descLog := []
  described := rfl
  host' := .little
  mem' := ((mrGetDescriptor .big (fun _ => 0) (some ⟨⟨ptr, 64, 7, 9⟩, usageWriteDst⟩)
    (some 0)).run calmWorld []).1.2
  desc' := 0
  copied _ _ := rfl
  descSize := mrDescSize
  decWorld := calmWorld
  decLog := []
  decoded := by
    have husage : usageAccepted usageWriteDst = true := by decide
    refine mrRemoteFromDescriptor_of_descriptor calmWorld_noFaults calmWorld_allocates .little
      (show usageAccepted (MrLocal.mk ⟨ptr, 64, 7, 9⟩ usageWriteDst).usage = true from husage) ?_
      (Nat.le_refl _) []
    rw [mrGetDescriptor_run calmWorld_noFaults]
    exact length_descriptor .. ▸ bytesAt_blit (fun _ => 0) 0 _

/-- A region at a page boundary. -/
theorem writes_atomically_page : WritesAtomically ⟨4096, 64, 9, usageWriteDst⟩ :=
  (writes_atomically_iff (exportedAt 4096)).mpr (by decide)

/-- **A region at `0x1004`**: the write at offset 8 is accepted and goes to `0x100c`. -/
theorem atomic_write_misaligned :
    ((rpmaAtomicWrite (some 0) (some ⟨0x1004, 64, 9, usageWriteDst⟩) 8 (some 64) completionAlways
      0).run servedWorld []).1 = 0 ∧
    postedSince [] ((rpmaAtomicWrite (some 0) (some ⟨0x1004, 64, 9, usageWriteDst⟩) 8 (some 64)
      completionAlways 0).run servedWorld []).2 =
        [(0, ⟨0, 64, 8, .rdmaWrite, true, true, true, 0x100c, 9⟩)] ∧
    Nonempty (Exported 0x1004 64 ⟨0x1004, 64, 9, usageWriteDst⟩) ∧
    ¬ WritesAtomically ⟨0x1004, 64, 9, usageWriteDst⟩ := by
  refine ⟨by decide +kernel, by decide +kernel, ⟨exportedAt 0x1004⟩, fun hall => ?_⟩
  obtain ⟨qp, wr, hposted, hstore⟩ := hall servedWorld [] (some 0) 8 (some 64) completionAlways 0
    (by decide +kernel)
  have hplace := hstore.place
  have haligned := hstore.aligned
  rw [hplace] at haligned
  exact absurd haligned (by decide)

end Rpma.Librpma.Data
