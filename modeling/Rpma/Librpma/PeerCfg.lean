import Rpma.Lib.Yields
import Rpma.Librpma.Flush

/-!
# The configuration of a peer: `peer_cfg.c`

A configuration says whether direct writes to the persistent memory of a peer are supported. It is
described to the other side by one byte.

`Requests host m Q`: in a build without faults the program `m` returns some `a` and requests some
`ts` from the provider with `Q a ts`, whatever else happens.

* `peerCfgGetDescriptor_spec`, `peerCfgFromDescriptor_spec`: what is written, and what is read.
* `mrReg_spec`, `rpmaWrite_spec`, `rpmaFlush_spec`: the functions of the data path in this form.
-/

namespace Rpma.Librpma.Data

open Rpma.Lib Rpma.Lib.CText

/-! ## `peer_cfg.c` -/

/-- `struct rpma_peer_cfg`. -/
structure PeerCfg where
  directWriteToPmem : Bool
  deriving DecidableEq, Repr

/-- `rpma_peer_cfg_new`. -/
def peerCfgNew (pcfgPtr : Bool) : D (Except Int PeerCfg) :=
  faultInjection (pure (.error rpmaENomem)) <|
    if pcfgPtr = false then return .error rpmaEInval
    else allocate (pure (.error rpmaENomem)) (return .ok ⟨false⟩)

/-- `rpma_peer_cfg_delete` of a configuration. -/
def peerCfgDelete : D Int := do
  issue .free
  faultInjection (pure rpmaEInval) (pure 0)

/-- `rpma_peer_cfg_set_direct_write_to_pmem`: the result and the configuration after it. -/
def peerCfgSetDirectWriteToPmem (pcfg : Option PeerCfg) (supported : Bool) :
    D (Int × Option PeerCfg) :=
  faultInjection (pure (rpmaEInval, pcfg)) <|
    match pcfg with
    | none => return (rpmaEInval, none)
    | some _ => return (0, some ⟨supported⟩)

/-- `rpma_peer_cfg_get_direct_write_to_pmem` into a variable: the result and the variable after it.
The variable is `none` for `NULL`. -/
def peerCfgGetDirectWriteToPmem (pcfg : Option PeerCfg) (supported : Option Bool) :
    D (Int × Option Bool) :=
  faultInjection (pure (rpmaEInval, supported)) <|
    match pcfg, supported with
    | some pcfg, some _ => return (0, some pcfg.directWriteToPmem)
    | _, _ => return (rpmaEInval, supported)

/-- `rpma_peer_cfg_get_descriptor` into the memory `mem`; `stack` is what the variable for the
declaration holds before it is set. -/
def peerCfgGetDescriptor (stack : Bool) (mem : Bytes) (pcfg : Option PeerCfg) (desc : Option Nat) :
    D (Int × Bytes) :=
  faultInjection (pure (rpmaEInval, mem)) <|
    match pcfg, desc with
    | some pcfg, some desc => do
      let (_, supported) ← peerCfgGetDirectWriteToPmem (some pcfg) (some stack)
      return (0, blit mem desc [if supported.getD stack then 1 else 0])
    | _, _ => return (rpmaEInval, mem)

/-- `sizeof(uint8_t)`, the size of a descriptor. -/
def peerCfgDescSize : Nat := 1

/-- `rpma_peer_cfg_get_descriptor_size`. -/
def peerCfgGetDescriptorSize (pcfg : Option PeerCfg) (descSize : Bool) : D (Except Int Nat) :=
  faultInjection (pure (.error rpmaEInval)) <|
    match pcfg, descSize with
    | some _, true => return .ok peerCfgDescSize
    | _, _ => return .error rpmaEInval

/-- `rpma_peer_cfg_from_descriptor`, from the memory `mem`. -/
def peerCfgFromDescriptor (mem : Bytes) (desc : Option Nat) (descSize : Nat) (pcfgPtr : Bool) :
    D (Except Int PeerCfg) :=
  faultInjection (pure (.error rpmaEInval)) <|
    match desc, pcfgPtr with
    | some desc, true =>
      if descSize < peerCfgDescSize then return .error rpmaEInval
      else allocate (pure (.error rpmaENomem)) (return .ok ⟨mem desc != 0⟩)
    | _, _ => return .error rpmaEInval

/-! ## Sizes of `mr.c` -/

/-- `rpma_mr_get_descriptor_size`. -/
def mrGetDescriptorSize (mr : Option MrLocal) (descSize : Bool) : D (Except Int Nat) :=
  faultInjection (pure (.error rpmaEInval)) <|
    match mr, descSize with
    | some _, true => return .ok mrDescSize
    | _, _ => return .error rpmaEInval

/-- `rpma_mr_remote_get_size`. -/
def mrRemoteGetSize (mr : Option MrRemote) (size : Bool) : D (Except Int UInt64) :=
  faultInjection (pure (.error rpmaEInval)) <|
    match mr, size with
    | some mr, true => return .ok mr.size
    | _, _ => return .error rpmaEInval

/-! ## What the functions return and request -/

/-- In a build without faults `m` returns some `a` and requests some `ts` with `Q a ts`. -/
abbrev Requests {α : Type} (host : Endian) (m : D α) (Q : α → List Transfer → Prop) : Prop :=
  m.Yields DataWorld.NoFaults (fun e => transferOf host e.1) Q

/-- Nothing is requested, and what is returned is in `V`. -/
abbrev Quiet {α : Type} (host : Endian) (m : D α) (V : α → Prop) : Prop :=
  Requests host m fun a ts => V a ∧ ts = []

section Specs

variable {α : Type} {host : Endian} {m rest : D α} {Q : α → List Transfer → Prop} {mem : Bytes}

theorem requests_faultInjection (h : Requests host rest Q) :
    Requests host (faultInjection m rest) Q := by
  refine .call (fun _ => rfl) fun world n hnf => ?_
  rw [hnf n]
  exact h

theorem requests_allocate (hm : Requests host m Q) (h : Requests host rest Q) :
    Requests host (allocate m rest) Q := by
  refine .call (fun _ => rfl) fun world n _ => ?_
  split
  · exact h
  · exact hm

theorem quiet_pure {a : α} {V : α → Prop} (h : V a) : Quiet host (pure a : D α) V := .pure ⟨h, rfl⟩

/-- A call that requests nothing. -/
theorem quiet_issue {c : DataCall} (hc : transferOf host c = none) :
    Quiet host (issue c) fun _ => True :=
  .call (fun _ => hc) fun _ _ _ => .pure ⟨trivial, rfl⟩

theorem peerCfgNew_spec (pcfgPtr : Bool) :
    Quiet host (peerCfgNew pcfgPtr) fun r => ∀ pcfg, r = .ok pcfg → pcfg = ⟨false⟩ := by
  refine requests_faultInjection ?_
  split
  · exact quiet_pure nofun
  · exact requests_allocate (quiet_pure nofun) (quiet_pure fun _ h => (Except.ok.inj h).symm)

theorem peerCfgDelete_spec : Quiet host peerCfgDelete fun r => r = 0 :=
  (quiet_issue rfl).bind_quiet fun _ _ => requests_faultInjection (quiet_pure rfl)

theorem peerCfgSet_spec (pcfg : PeerCfg) (supported : Bool) :
    Quiet host (peerCfgSetDirectWriteToPmem (some pcfg) supported) fun r =>
      r = (0, some ⟨supported⟩) := requests_faultInjection (quiet_pure rfl)

theorem peerCfgGet_spec (pcfg : PeerCfg) (supported : Bool) :
    Quiet host (peerCfgGetDirectWriteToPmem (some pcfg) (some supported)) fun r =>
      r = (0, some pcfg.directWriteToPmem) := requests_faultInjection (quiet_pure rfl)

theorem peerCfgGetDescriptor_spec (stack : Bool) (pcfg : PeerCfg) (desc : Nat) :
    Quiet host (peerCfgGetDescriptor stack mem (some pcfg) (some desc)) fun r =>
      r = (0, blit mem desc [if pcfg.directWriteToPmem then 1 else 0]) := by
  refine requests_faultInjection ((peerCfgGet_spec pcfg stack).bind_quiet ?_)
  rintro _ rfl
  exact quiet_pure rfl

theorem peerCfgGetDescriptorSize_spec (pcfg : PeerCfg) :
    Quiet host (peerCfgGetDescriptorSize (some pcfg) true) fun r => r = .ok peerCfgDescSize :=
  requests_faultInjection (quiet_pure rfl)

theorem peerCfgFromDescriptor_spec (desc descSize : Nat) :
    Quiet host (peerCfgFromDescriptor mem (some desc) descSize true) fun r =>
      ∀ pcfg, r = .ok pcfg → pcfg = ⟨mem desc != 0⟩ := by
  refine requests_faultInjection ?_
  dsimp only
  split
  · exact quiet_pure nofun
  · exact requests_allocate (quiet_pure nofun) (quiet_pure fun _ h => (Except.ok.inj h).symm)

theorem mrGetDescriptorSize_spec (mr : MrLocal) :
    Quiet host (mrGetDescriptorSize (some mr) true) fun r => r = .ok mrDescSize :=
  requests_faultInjection (quiet_pure rfl)

theorem mrRemoteGetSize_spec (mr : MrRemote) :
    Quiet host (mrRemoteGetSize (some mr) true) fun r => r = .ok mr.size :=
  requests_faultInjection (quiet_pure rfl)

theorem connApply_spec (conn : Conn) (supported : Bool) :
    Quiet host (connApplyRemotePeerCfg conn (some supported)) fun r =>
      r = (0, { conn with directWriteToPmem := supported }) :=
  requests_faultInjection (requests_faultInjection (quiet_pure rfl))

theorem mrGetDescriptor_spec (writer : Endian) (mr : MrLocal) (desc : Nat) :
    Quiet host (mrGetDescriptor writer mem (some mr) (some desc)) fun r =>
      r = (0, blit mem desc mr.descriptor) := by
  refine fun world hnf log => ⟨mrGetDescriptor_run hnf writer mr log, ?_⟩
  simp [Prog.emitted, mrGetDescriptor, faultInjection, Prog.run, hnf log.length, transferOf]

/-- Any bytes, as long as they are taken for a region. -/
theorem mrRemoteFromDescriptor_spec (reader : Endian) (desc descSize : Nat) :
    Quiet host (mrRemoteFromDescriptor reader mem (some desc) descSize true) fun r =>
      ∀ mr, r = .ok mr → mr = describedAt mem desc := by
  refine requests_faultInjection ?_
  dsimp only
  split
  · exact quiet_pure nofun
  · split
    · exact quiet_pure nofun
    · refine requests_allocate (quiet_pure nofun) (quiet_pure fun mr h => ?_)
      simp only [Endian.letoh_load reader, length_bytesAt] at h
      exact (Except.ok.inj h).symm

/-! ### Registering -/

variable {q : DataCall → Prop}

theorem only_faultInjection (hq : q .faultInjection) (hm : m.Only q) (hr : rest.Only q) :
    (faultInjection m rest).Only q := by
  refine ⟨hq, fun fault => ?_⟩
  dsimp only
  split
  · exact hm
  · exact hr

theorem only_allocate (hq : q .malloc) (hm : m.Only q) (hr : rest.Only q) :
    (allocate m rest).Only q := by
  refine ⟨hq, fun ok => ?_⟩
  dsimp only
  split
  · exact hr
  · exact hm

theorem only_peerMrReg (peer : Peer) (addr length : UInt64) (usage : BitVec 32) :
    (peerMrReg peer addr length usage).Only fun c => transferOf host c = none := by
  refine only_faultInjection rfl trivial (Prog.Only.bind ⟨rfl, fun _ => trivial⟩ fun r => ?_)
  cases r with
  | ok keys => trivial
  | error errno =>
    dsimp only
    split
    · refine only_faultInjection rfl trivial (Prog.Only.bind ⟨rfl, fun _ => trivial⟩ fun r => ?_)
      cases r <;> trivial
    · trivial

theorem only_mrReg (peer : Peer) (ptr size : UInt64) (usage : BitVec 32) :
    (mrReg (some peer) (some ptr) size usage true).Only fun c => transferOf host c = none := by
  refine only_faultInjection rfl trivial ?_
  dsimp only
  split
  · trivial
  · split
    · trivial
    · refine only_allocate rfl trivial ((only_peerMrReg peer ptr size usage).bind fun r => ?_)
      cases r with
      | ok ibvMr => trivial
      | error ret => exact ⟨rfl, fun _ => trivial⟩

theorem mrReg_spec (peer : Peer) (ptr size : UInt64) (usage : BitVec 32) :
    Quiet host (mrReg (some peer) (some ptr) size usage true) fun r => ∀ mr, r = .ok mr →
      mr.ibvMr.addr = ptr ∧ mr.ibvMr.length = size ∧ mr.usage = usage ∧
        usageAccepted usage = true := by
  refine (Prog.Yields.of_only (mrReg_range (some peer) (some ptr) size usage true)
    (only_mrReg peer ptr size usage) fun _ _ h => h).imp fun r ts ⟨h, hts⟩ => ⟨?_, hts⟩
  intro mr hmr
  obtain ⟨haddr, hrest⟩ := h mr hmr
  exact ⟨(Option.some.inj haddr).symm, hrest⟩

/-! ### Posting -/

/-- The write that a call asks for, its length cut to 32 bits. -/
def writeTransfer (qp : Nat) (dst : MrRemote) (dstOffset : UInt64) (src : MrLocal)
    (srcOffset len : UInt64) (opContext : UInt64) : Transfer :=
  ⟨.post .rdmaWrite, some qp, some opContext,
    [(src.ibvMr.addr + srcOffset, len.toNat % 2 ^ 32, src.ibvMr.lkey)],
    some (dst.raddr + dstOffset, dst.rkey), none⟩

theorem rpmaWrite_spec (qp : Nat) (dst : MrRemote) (dstOffset : UInt64) (src : MrLocal)
    (srcOffset len : UInt64) {flags : BitVec 32} (hflags : flags ≠ 0) (opContext : UInt64) :
    Requests host (rpmaWrite host (some qp) (some dst) dstOffset (some src) srcOffset len flags
      opContext) fun ret ts => (ret = 0 ∨ ret = rpmaEProvider) ∧
        ts = [writeTransfer qp dst dstOffset src srcOffset len opContext] := by
  have hvalid : (flags == 0 || regionsInvalid (some dst) dstOffset (some src) srcOffset len) =
      false := by
    simpa [regionsInvalid] using hflags
  unfold rpmaWrite checked
  rw [hvalid]
  refine requests_faultInjection (requests_faultInjection (requests_faultInjection ?_))
  refine (Prog.Yields.issue (fun _ => rfl) (Q := fun _ ts =>
    ts = [writeTransfer qp dst dstOffset src srcOffset len opContext]) fun _ => ?_).bind
      fun ret ts hts => .pure ⟨(ite_eq_or_eq _ _ _).symm, by simpa using hts⟩
  simp [sgBytes_sgeOf, localBytes, writeTransfer]

theorem rpmaFlush_spec (conn : Conn) (dst : MrRemote) (dstOffset len : UInt64)
    (type flags : BitVec 32) (opContext : UInt64)
    (h : flushRefusal conn.directWriteToPmem dst type flags = none) :
    Requests host (rpmaFlush (some conn) (some dst) dstOffset len type flags opContext)
      fun ret ts => (ret = 0 ∨ ret = rpmaEProvider) ∧
        ts = [flushTransfer conn dst dstOffset opContext] := by
  intro world hnf log
  have hrun := rpmaFlush_run host hnf conn dst dstOffset len type flags opContext log
  simp only [h] at hrun
  exact hrun

end Specs

end Rpma.Librpma.Data
