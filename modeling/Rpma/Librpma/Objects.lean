import Rpma.Librpma.Provider

/-!
# The objects under a connection: `info.c`, `cq.c`, `mr.c`, `flush.c`

A C function that fills an out-parameter and returns 0 is a program that returns `.ok` of it, and
`.error` of the code otherwise. A `goto` label is a definition of its own, the labels below it
being its tail. Pointer arguments that the callers of an internal function never pass as `NULL`
have no `NULL` check here.

Every constructor leaves the ledger as it was when it fails, and adds the tokens of the object it
returns when it succeeds; every destructor takes them away, whatever the provider answers. The
specs are stated over the ledger assertion `Owned I A L`.
-/

namespace Rpma.Librpma

open Rpma.Lib Rpma.Lib.Ledger

/-! ## `info.c` -/

/-- `struct rpma_info`. -/
structure Info where
  ptr : Nat
  rai : Nat

/-- `rpma_info_new`. -/
def infoNew (addr port : String) : P (Except Int Info) :=
  faultInjection (pure (.error rpmaEProvider)) do
    match ← create (.rdmaGetaddrinfo addr port) with
    | none => return .error rpmaEProvider
    | some rai =>
      match ← create (.malloc .info) with
      | none =>
        exec (.rdmaFreeaddrinfo rai)
        return .error rpmaENomem
      | some ptr => return .ok ⟨ptr, rai⟩

/-- `rpma_info_delete`. -/
def infoDelete (info : Info) : P Int := do
  exec (.rdmaFreeaddrinfo info.rai)
  exec (.free (some info.ptr))
  faultInjection (pure rpmaEInval) (pure 0)

/-- `rpma_info_resolve_addr`. -/
def infoResolveAddr (id : Nat) (timeoutMs : Int) : P Int :=
  faultInjection (pure rpmaEProvider) do
    if ← check (.rdmaResolveAddr id timeoutMs) then return 0 else return rpmaEProvider

/-! ## `cq.c` -/

/-- `struct rpma_cq`. -/
structure Cq where
  ptr : Nat
  channel : Nat
  sharedCompChannel : Bool
  cq : Nat
  deriving DecidableEq, Repr

/-- `err_destroy_comp_channel` of `rpma_cq_new`. -/
def cqNewErrDestroyCompChannel (sharedChannel : Option Nat) (channel : Nat) (ret : Int) :
    P (Except Int Cq) := do
  match sharedChannel with
  | some _ => return .error ret
  | none =>
    exec (.ibvDestroyCompChannel channel)
    return .error ret

/-- `err_destroy_cq` of `rpma_cq_new`. -/
def cqNewErrDestroyCq (sharedChannel : Option Nat) (channel cq : Nat) (ret : Int) :
    P (Except Int Cq) := do
  exec (.ibvDestroyCq cq)
  cqNewErrDestroyCompChannel sharedChannel channel ret

/-- `rpma_cq_new` from the creation of the CQ on. -/
def cqNewOn (cqe : Int) (sharedChannel : Option Nat) (channel : Nat) : P (Except Int Cq) :=
  faultInjection (cqNewErrDestroyCompChannel sharedChannel channel rpmaEProvider) do
    match ← create (.ibvCreateCq cqe channel) with
    | none => cqNewErrDestroyCompChannel sharedChannel channel rpmaEProvider
    | some cq =>
      faultInjection (cqNewErrDestroyCq sharedChannel channel cq rpmaEProvider) do
        if ← check (.ibvReqNotifyCq cq) then
          match ← create (.malloc .cq) with
          | none => cqNewErrDestroyCq sharedChannel channel cq rpmaENomem
          | some ptr => return .ok ⟨ptr, channel, sharedChannel.isSome, cq⟩
        else cqNewErrDestroyCq sharedChannel channel cq rpmaEProvider

/-- `rpma_cq_new`. -/
def cqNew (cqe : Int) (sharedChannel : Option Nat) : P (Except Int Cq) := do
  match sharedChannel with
  | some channel => cqNewOn cqe (some channel) channel
  | none =>
    faultInjection (pure (.error rpmaEProvider)) do
      match ← create .ibvCreateCompChannel with
      | none => return .error rpmaEProvider
      | some channel => cqNewOn cqe none channel

/-- `rpma_cq_delete`; the receive CQ may be `NULL`. -/
def cqDelete : Option Cq → P Int
  | none => pure 0
  | some cq => do
    let ok ← check (.ibvDestroyCq cq.cq)
    let ret := if ok then 0 else rpmaEProvider
    let ret ← if cq.sharedCompChannel then pure ret else do
      let ok ← check (.ibvDestroyCompChannel cq.channel)
      pure (if ret = 0 ∧ ok = false then rpmaEProvider else ret)
    exec (.free (some cq.ptr))
    faultInjection (pure rpmaEProvider) (pure ret)

/-! ## `peer.c` and `mr.c` -/

/-- `struct rpma_peer`, and whether the build supports On-Demand Paging. -/
structure Peer where
  isOdpSupported : Bool
  onDemandPagingSupported : Bool

/-- `struct rpma_mr_local`. -/
structure MrLocal where
  ptr : Nat
  ibvMr : Nat
  deriving DecidableEq, Repr

/-- `rpma_peer_mr_reg`: a registration refused with `EOPNOTSUPP` is tried again with On-Demand
Paging where peer and build support it. -/
def peerMrReg (peer : Peer) (raw : Nat) : P (Except Int Nat) :=
  faultInjection (pure (.error rpmaEProvider)) do
    let a ← Prog.issue (.ibvRegMr raw false)
    if a.ok then return .ok a.handle
    else if peer.onDemandPagingSupported ∧ a.errno = .eopnotsupp ∧ peer.isOdpSupported then
      faultInjection (pure (.error rpmaEProvider)) do
        match ← create (.ibvRegMr raw true) with
        | none => return .error rpmaEProvider
        | some mr => return .ok mr
    else return .error rpmaEProvider

/-- `rpma_mr_reg` of the RAW buffer: a page, so neither `NULL` nor empty, with a valid usage. -/
def mrReg (peer : Peer) (raw : Nat) : P (Except Int MrLocal) :=
  faultInjection (pure (.error rpmaENomem)) do
    match ← create (.malloc .mr) with
    | none => return .error rpmaENomem
    | some ptr =>
      match ← peerMrReg peer raw with
      | .error ret =>
        exec (.free (some ptr))
        return .error ret
      | .ok ibvMr => return .ok ⟨ptr, ibvMr⟩

/-- `rpma_mr_dereg`. -/
def mrDereg (mr : MrLocal) : P Int := do
  let ok ← check (.ibvDeregMr mr.ibvMr)
  exec (.free (some mr.ptr))
  faultInjection (pure rpmaEProvider) (pure (if ok then 0 else rpmaEProvider))

/-! ## `flush.c` -/

/-- `struct flush_apm`. -/
structure FlushApm where
  ptr : Nat
  raw : Nat
  rawMr : MrLocal
  deriving DecidableEq, Repr

/-- `struct rpma_flush_internal` with its context. -/
structure Flush where
  ptr : Nat
  context : FlushApm
  deriving DecidableEq, Repr

/-- `rpma_flush_apm_new`. -/
def flushApmNew (peer : Peer) : P (Except Int FlushApm) :=
  faultInjection (pure (.error rpmaEProvider)) do
    if ← check .sysconfPagesize then
      match ← create .mmap with
      | none => return .error rpmaENomem
      | some raw =>
        match ← mrReg peer raw with
        | .error ret =>
          exec (.munmap raw)
          return .error ret
        | .ok rawMr =>
          match ← create (.malloc .flushApm) with
          | none =>
            let _ ← mrDereg rawMr
            exec (.munmap raw)
            return .error rpmaENomem
          | some ptr => return .ok ⟨ptr, raw, rawMr⟩
    else return .error rpmaEProvider

/-- `rpma_flush_apm_delete`. -/
def flushApmDelete (apm : FlushApm) : P Int := do
  let retDereg ← mrDereg apm.rawMr
  let unmapped ← check (.munmap apm.raw)
  exec (.free (some apm.ptr))
  if retDereg ≠ 0 then return retDereg
  else if unmapped = false then return rpmaEInval
  else faultInjection (pure rpmaEInval) (pure 0)

/-- `rpma_flush_new`. -/
def flushNew (peer : Peer) : P (Except Int Flush) :=
  faultInjection (pure (.error rpmaENomem)) do
    match ← create (.malloc .flush) with
    | none => return .error rpmaENomem
    | some ptr =>
      match ← flushApmNew peer with
      | .error ret =>
        exec (.free (some ptr))
        return .error ret
      | .ok context => return .ok ⟨ptr, context⟩

/-- `rpma_flush_delete`. -/
def flushDelete (flush : Flush) : P Int := do
  let ret ← flushApmDelete flush.context
  exec (.free (some flush.ptr))
  faultInjection (pure rpmaEInval) (pure ret)

/-! ## Tokens -/

/-- The token of an object. -/
def tok (k : Kind) (n : Nat) (deps : List Obj) : Tok Obj := ⟨⟨k, n⟩, deps⟩

def Info.toks (info : Info) : Multiset (Tok Obj) :=
  tok .heap info.ptr [] ::ₘ tok .addrinfo info.rai [] ::ₘ 0

/-- The completion channel of a CQ, unless it is shared. -/
def channelToks (shared : Bool) (channel : Nat) : Multiset (Tok Obj) :=
  if shared then 0 else {tok .compChannel channel []}

def Cq.toks (cq : Cq) : Multiset (Tok Obj) :=
  tok .heap cq.ptr [] ::ₘ tok .cq cq.cq [⟨.compChannel, cq.channel⟩] ::ₘ
    channelToks cq.sharedCompChannel cq.channel

def MrLocal.toks (mr : MrLocal) (raw : Nat) : Multiset (Tok Obj) :=
  tok .heap mr.ptr [] ::ₘ tok .mr mr.ibvMr [⟨.mapping, raw⟩] ::ₘ 0

def FlushApm.toks (apm : FlushApm) : Multiset (Tok Obj) :=
  tok .heap apm.ptr [] ::ₘ tok .mapping apm.raw [] ::ₘ apm.rawMr.toks apm.raw

def Flush.toks (flush : Flush) : Multiset (Tok Obj) :=
  tok .heap flush.ptr [] ::ₘ flush.context.toks

/-- A constructor failed and left the ledger as it was, or it added the tokens of its object. -/
def Made {α : Type} (I : CallLog → Prop) (A L : Multiset (Tok Obj))
    (toks : α → Multiset (Tok Obj)) (φ : α → Prop) : Except Int α → CallLog → Prop
  | .error _, log => Owned I A L log
  | .ok x, log => Owned I (toks x + A) L log ∧ φ x

/-! ## Specs -/

section Specs

variable {world : World} {I : CallLog → Prop} [Stable I] {A L : Multiset (Tok Obj)}

theorem infoNew_spec (addr port : String) :
    Prog.Triple world.answer (Owned I A L) (infoNew addr port)
      (Made I A L Info.toks fun _ => True) := by
  refine faultInjection_triple (.pure fun _ h => h) ?_
  refine (create_acquire (fun _ _ => rfl) (by simp)).bind fun r => ?_
  cases r with
  | none => exact .pure fun _ h => h
  | some rai =>
    refine .and_pure fun hrai => ?_
    refine (create_acquire (fun _ _ => rfl) (by simp)).bind fun r => ?_
    cases r with
    | none =>
      refine (exec_release A [] (fun _ _ => rfl) rfl (by simp) hrai).bind fun _ => ?_
      exact .pure fun _ h => h
    | some ptr =>
      refine .and_pure fun _ => .pure fun _ h => ⟨h.congr ?_, trivial⟩
      simp [Info.toks, tok]

theorem infoDelete_spec (info : Info) :
    Prog.Triple world.answer (Owned I (info.toks + A) L) (infoDelete info)
      fun _ => Owned I A L := by
  refine Prog.Triple.bind
    (exec_release_leaf (tok .heap info.ptr [] ::ₘ A) [] (fun _ _ => rfl) ?_ rfl) fun _ => ?_
  · simp [Info.toks, tok, Multiset.cons_swap]
  refine (exec_release_leaf A [] (fun _ _ => rfl) rfl rfl).bind fun _ => ?_
  exact faultInjection_triple (.pure fun _ h => h) (.pure fun _ h => h)

theorem infoResolveAddr_spec (id : Nat) (timeoutMs : Int) :
    Prog.Triple world.answer (Owned I A L) (infoResolveAddr id timeoutMs) fun _ => Owned I A L := by
  refine faultInjection_triple (.pure fun _ h => h) ((check_keep fun _ _ => rfl).bind fun ok => ?_)
  split <;> exact .pure fun _ h => h

/-- What `rpma_cq_new` promises of the CQ it returns, `A` being held before. -/
structure CqMade (sharedChannel : Option Nat) (A : Multiset (Tok Obj)) (cq : Cq) : Prop where
  shared : cq.sharedCompChannel = sharedChannel.isSome
  channel : ∀ c, sharedChannel = some c → cq.channel = c
  free : Free ⟨.cq, cq.cq⟩ A
  free_channel : sharedChannel = none → Free ⟨.compChannel, cq.channel⟩ A

theorem free_channelToks (o : Obj) (shared : Bool) (channel : Nat) :
    Free o (channelToks shared channel) := by
  cases shared <;> simp [channelToks, tok]

theorem cqNewErrDestroyCompChannel_spec (sharedChannel : Option Nat) (channel : Nat) (ret : Int)
    (hfree : sharedChannel = none → Free ⟨.compChannel, channel⟩ A) :
    Prog.Triple world.answer (Owned I (channelToks sharedChannel.isSome channel + A) L)
      (cqNewErrDestroyCompChannel sharedChannel channel ret)
      (Made I A L Cq.toks (CqMade sharedChannel A)) := by
  cases sharedChannel with
  | some c => exact .pure fun _ h => h.congr (by simp [channelToks])
  | none =>
    refine (exec_release A [] (fun _ _ => rfl) ?_ List.not_mem_nil (hfree rfl)).bind fun _ => ?_
    · simp [channelToks, tok]
    · exact .pure fun _ h => h

theorem cqNewErrDestroyCq_spec (sharedChannel : Option Nat) (channel cq : Nat) (ret : Int)
    (hfree : sharedChannel = none → Free ⟨.compChannel, channel⟩ A) (hcq : Free ⟨.cq, cq⟩ A) :
    Prog.Triple world.answer
      (Owned I (tok .cq cq [⟨.compChannel, channel⟩] ::ₘ
        (channelToks sharedChannel.isSome channel + A)) L)
      (cqNewErrDestroyCq sharedChannel channel cq ret)
      (Made I A L Cq.toks (CqMade sharedChannel A)) := by
  refine (exec_release _ _ (fun _ _ => rfl) rfl (by simp) ?_).bind fun _ => ?_
  · exact (free_add _ _ _).mpr ⟨free_channelToks _ _ _, hcq⟩
  · exact cqNewErrDestroyCompChannel_spec sharedChannel channel ret hfree

theorem cqNewOn_spec {I : CallLog → Prop} [StableCq I] (cqe : Int) (sharedChannel : Option Nat)
    (channel : Nat)
    (hch : ∀ c, sharedChannel = some c → channel = c ∧ Held ⟨.compChannel, c⟩ (A + L))
    (hfree : sharedChannel = none → Free ⟨.compChannel, channel⟩ A) :
    Prog.Triple world.answer (Owned I (channelToks sharedChannel.isSome channel + A) L)
      (cqNewOn cqe sharedChannel channel) (Made I A L Cq.toks (CqMade sharedChannel A)) := by
  have hheld : Held ⟨.compChannel, channel⟩
      (channelToks sharedChannel.isSome channel + A + L) := by
    cases sharedChannel with
    | none => simp [channelToks, tok]
    | some c =>
      obtain ⟨rfl, h⟩ := hch c rfl
      simpa [channelToks] using h
  refine faultInjection_triple (cqNewErrDestroyCompChannel_spec sharedChannel channel _ hfree) ?_
  refine (create_triple (fun _ _ => rfl) (by simpa using hheld)
    (fun _ _ _ => StableCq.keep_cq _ _ _ _) fun _ _ _ => StableCq.keep_cq _ _ _ _).bind fun r => ?_
  cases r with
  | none => exact cqNewErrDestroyCompChannel_spec sharedChannel channel _ hfree
  | some cq =>
    refine .and_pure fun hcq => ?_
    have hcqA : Free ⟨.cq, cq⟩ A := ((free_add _ _ _).mp hcq).2
    refine faultInjection_triple (cqNewErrDestroyCq_spec sharedChannel channel cq _ hfree hcqA) ?_
    refine (check_keep fun _ _ => rfl).bind fun ok => ?_
    split
    · refine (create_acquire (fun _ _ => rfl) (by simp)).bind fun r => ?_
      cases r with
      | none => exact cqNewErrDestroyCq_spec sharedChannel channel cq _ hfree hcqA
      | some ptr =>
        refine .and_pure fun _ => .pure fun _ h => ⟨h.congr ?_, rfl, ?_, hcqA, hfree⟩
        · simp [Cq.toks, tok]
        · exact fun c hc => (hch c hc).1
    · exact cqNewErrDestroyCq_spec sharedChannel channel cq _ hfree hcqA

/-- **`rpma_cq_new`** on a held shared channel, or with a channel of its own. -/
theorem cqNew_spec {I : CallLog → Prop} [StableCq I] (cqe : Int) (sharedChannel : Option Nat)
    (hch : ∀ c, sharedChannel = some c → Held ⟨.compChannel, c⟩ (A + L)) :
    Prog.Triple world.answer (Owned I A L) (cqNew cqe sharedChannel)
      (Made I A L Cq.toks (CqMade sharedChannel A)) := by
  cases sharedChannel with
  | some channel =>
    refine (cqNewOn_spec cqe (some channel) channel (fun c hc => ?_) (by simp)).conseq
      (fun _ h => h.congr (by simp [channelToks])) fun _ _ h => h
    exact ⟨Option.some.inj hc, hch c hc⟩
  | none =>
    refine faultInjection_triple (.pure fun _ h => h) ?_
    refine (create_acquire (fun _ _ => rfl) (by simp)).bind fun r => ?_
    cases r with
    | none => exact .pure fun _ h => h
    | some channel =>
      refine .and_pure fun hfree => ?_
      refine (cqNewOn_spec cqe none channel (by simp) (fun _ => hfree)).conseq
        (fun _ h => h.congr (by simp [channelToks, tok])) fun _ _ h => h

/-- **`rpma_cq_delete`** whatever the provider answers. -/
theorem cqDelete_spec (cq : Cq) (hcq : Free ⟨.cq, cq.cq⟩ A)
    (hch : cq.sharedCompChannel = false → Free ⟨.compChannel, cq.channel⟩ A) :
    Prog.Triple world.answer (Owned I (cq.toks + A) L) (cqDelete (some cq))
      fun _ => Owned I A L := by
  refine (check_release (tok .heap cq.ptr [] ::ₘ (channelToks cq.sharedCompChannel cq.channel + A))
    [⟨.compChannel, cq.channel⟩] (fun _ _ => rfl) ?_ (by simp) ?_).bind fun ok => ?_
  · simp [Cq.toks, tok, Multiset.cons_swap]
  · simp [tok, hcq, free_channelToks]
  have hfree : ∀ ret : Int, Prog.Triple world.answer (Owned I (tok .heap cq.ptr [] ::ₘ A) L)
      (do exec (.free (some cq.ptr)); faultInjection (pure rpmaEProvider) (pure ret))
      fun _ => Owned I A L := by
    intro ret
    refine (exec_release_leaf A [] (fun _ _ => rfl) rfl rfl).bind fun _ => ?_
    exact faultInjection_triple (.pure fun _ h => h) (.pure fun _ h => h)
  cases hs : cq.sharedCompChannel with
  | true => exact (hfree _).conseq (fun _ h => h.congr (by simp [channelToks])) fun _ _ h => h
  | false =>
    refine (check_release (tok .heap cq.ptr [] ::ₘ A) [] (fun _ _ => rfl) ?_ List.not_mem_nil
      ?_).bind fun ok => hfree _
    · simp [channelToks, tok, Multiset.cons_swap]
    · simp [tok, hch hs]

theorem peerMrReg_spec (peer : Peer) (raw : Nat)
    (hheld : Held ⟨.mapping, raw⟩ (A + L)) :
    Prog.Triple world.answer (Owned I A L) (peerMrReg peer raw)
      (Made I A L (fun mr => {tok .mr mr [⟨.mapping, raw⟩]}) fun _ => True) := by
  refine faultInjection_triple (.pure fun _ h => h) ?_
  refine (issue_acquire (fun _ _ => rfl) (by simpa using hheld)).bind fun a => ?_
  split
  · exact .pure fun _ h => ⟨h.1.congr (by simp [tok]), trivial⟩
  · split
    · refine faultInjection_triple (.pure fun _ h => h) ?_
      refine (create_acquire (fun _ _ => rfl) (by simpa using hheld)).bind fun r => ?_
      cases r with
      | none => exact .pure fun _ h => h
      | some mr => exact .pure fun _ h => ⟨h.1.congr (by simp [tok]), trivial⟩
    · exact .pure fun _ h => h

theorem mrReg_spec (peer : Peer) (raw : Nat)
    (hheld : Held ⟨.mapping, raw⟩ (A + L)) :
    Prog.Triple world.answer (Owned I A L) (mrReg peer raw)
      (Made I A L (fun mr => mr.toks raw) fun _ => True) := by
  refine faultInjection_triple (.pure fun _ h => h) ?_
  refine (create_acquire (fun _ _ => rfl) (by simp)).bind fun r => ?_
  cases r with
  | none => exact .pure fun _ h => h
  | some ptr =>
    refine .and_pure fun _ => (peerMrReg_spec peer raw ?_).bind fun r => ?_
    · simp [hheld]
    cases r with
    | error ret =>
      refine (exec_release_leaf A [] (fun _ _ => rfl) rfl rfl).bind fun _ => ?_
      exact .pure fun _ h => h
    | ok ibvMr =>
      refine .pure fun _ h => ⟨h.1.congr ?_, trivial⟩
      simp [MrLocal.toks, tok]

theorem mrDereg_spec (mr : MrLocal) (raw : Nat) :
    Prog.Triple world.answer (Owned I (mr.toks raw + A) L) (mrDereg mr) fun _ => Owned I A L := by
  refine (check_release_leaf (tok .heap mr.ptr [] ::ₘ A) [⟨.mapping, raw⟩] (fun _ _ => rfl) ?_
    rfl).bind fun ok => ?_
  · simp [MrLocal.toks, tok, Multiset.cons_swap]
  refine (exec_release_leaf A [] (fun _ _ => rfl) rfl rfl).bind fun _ => ?_
  exact faultInjection_triple (.pure fun _ h => h) (.pure fun _ h => h)

theorem flushApmNew_spec (peer : Peer) :
    Prog.Triple world.answer (Owned I A L) (flushApmNew peer)
      (Made I A L FlushApm.toks fun apm => Free ⟨.mapping, apm.raw⟩ A) := by
  refine faultInjection_triple (.pure fun _ h => h) ((check_keep fun _ _ => rfl).bind fun ok => ?_)
  split
  · refine (create_acquire (fun _ _ => rfl) (by simp)).bind fun r => ?_
    cases r with
    | none => exact .pure fun _ h => h
    | some raw =>
      refine .and_pure fun hraw => (mrReg_spec peer raw (by simp)).bind fun r => ?_
      cases r with
      | error ret =>
        refine (exec_release A [] (fun _ _ => rfl) rfl List.not_mem_nil hraw).bind fun _ => ?_
        exact .pure fun _ h => h
      | ok rawMr =>
        refine .and_pure fun _ => ?_
        refine (create_acquire (fun _ _ => rfl) (by simp)).bind fun r => ?_
        cases r with
        | none =>
          refine (mrDereg_spec rawMr raw).bind fun _ => ?_
          refine (exec_release A [] (fun _ _ => rfl) rfl List.not_mem_nil hraw).bind fun _ => ?_
          exact .pure fun _ h => h
        | some ptr =>
          refine .and_pure fun _ => .pure fun _ h => ⟨h.congr ?_, hraw⟩
          simp only [FlushApm.toks, tok, ← Multiset.singleton_add]
          abel
  · exact .pure fun _ h => h

theorem flushApmDelete_spec (apm : FlushApm)
    (hraw : Free ⟨.mapping, apm.raw⟩ A) :
    Prog.Triple world.answer (Owned I (apm.toks + A) L) (flushApmDelete apm)
      fun _ => Owned I A L := by
  refine Prog.Triple.bind
    (Q := fun _ => Owned I (tok .mapping apm.raw [] ::ₘ tok .heap apm.ptr [] ::ₘ A) L)
    ((mrDereg_spec apm.rawMr apm.raw).conseq (fun _ h => h.congr ?_) fun _ _ h => h) fun ret => ?_
  · simp only [FlushApm.toks, ← Multiset.singleton_add]
    abel
  refine (check_release (tok .heap apm.ptr [] ::ₘ A) [] (fun _ _ => rfl) rfl List.not_mem_nil
    ?_).bind fun unmapped => ?_
  · simp [tok, hraw]
  refine (exec_release_leaf A [] (fun _ _ => rfl) rfl rfl).bind fun _ => ?_
  split
  · exact .pure fun _ h => h
  · split
    · exact .pure fun _ h => h
    · exact faultInjection_triple (.pure fun _ h => h) (.pure fun _ h => h)

theorem flushNew_spec (peer : Peer) :
    Prog.Triple world.answer (Owned I A L) (flushNew peer)
      (Made I A L Flush.toks fun flush => Free ⟨.mapping, flush.context.raw⟩ A) := by
  refine faultInjection_triple (.pure fun _ h => h) ?_
  refine (create_acquire (fun _ _ => rfl) (by simp)).bind fun r => ?_
  cases r with
  | none => exact .pure fun _ h => h
  | some ptr =>
    refine .and_pure fun _ => (flushApmNew_spec peer).bind fun r => ?_
    cases r with
    | error ret =>
      refine (exec_release_leaf A [] (fun _ _ => rfl) rfl rfl).bind fun _ => ?_
      exact .pure fun _ h => h
    | ok context =>
      refine .and_pure fun hraw => .pure fun _ h => ⟨h.congr ?_, ((free_cons _ _ _).mp hraw).2⟩
      simp only [Flush.toks, tok, ← Multiset.singleton_add]
      abel

theorem flushDelete_spec (flush : Flush)
    (hraw : Free ⟨.mapping, flush.context.raw⟩ A) :
    Prog.Triple world.answer (Owned I (flush.toks + A) L) (flushDelete flush)
      fun _ => Owned I A L := by
  refine Prog.Triple.bind (Q := fun _ => Owned I (tok .heap flush.ptr [] ::ₘ A) L)
    ((flushApmDelete_spec flush.context ?_).conseq (fun _ h => h.congr ?_) fun _ _ h => h)
    fun ret => ?_
  · simp [tok, hraw]
  · simp only [Flush.toks, ← Multiset.singleton_add]
    abel
  refine (exec_release_leaf A [] (fun _ _ => rfl) rfl rfl).bind fun _ => ?_
  exact faultInjection_triple (.pure fun _ h => h) (.pure fun _ h => h)

end Specs

end Rpma.Librpma
