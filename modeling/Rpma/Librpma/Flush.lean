import Rpma.Librpma.Post

/-!
# Flushing: `rpma_flush` and `flush.c`

A flush is an RDMA read of `RAW_SIZE` bytes from the flushed region into a buffer of the
connection. Three checks gate it: the arguments, what the last applied configuration of the remote
peer declares, and what the usage of the region allows.

`FlushStep` is a call on a connection, `flushHistory` the calls of `rpma_flush` in a run, each with
its result and what it requested from the provider. Every run starts with a new connection.

* **`flush_gate_iff`**: the gate holds for all flushes of a run iff every flush has a known type,
  or is refused for its other arguments. The documented check of the type is missing.
* **`flush_in_bounds_iff`**: a permitted flush reads inside the remote region iff the region has
  8 bytes left at the offset; the length is ignored.
-/

namespace Rpma.Librpma.Data

open Rpma.Lib

/-! ## `flush.c` -/

/-- `RAW_SIZE`. -/
def rawSize : UInt64 := 8

/-- `struct flush_apm`. -/
structure FlushApm where
  raw : UInt64
  mmapSize : UInt64
  rawMr : MrLocal

/-- `rpma_mr_dereg`. -/
def mrDereg (mr : MrLocal) : D Int := do
  let errno ← issue (.ibvDeregMr mr.ibvMr)
  issue .free
  faultInjection (pure rpmaEProvider) (pure (if errno ≠ (0 : Int) then rpmaEProvider else 0))

/-- `rpma_flush_apm_new`. -/
def flushApmNew (peer : Peer) : D (Except Int FlushApm) :=
  faultInjection (pure (.error rpmaEProvider)) do
    let pagesize : Int ← issue .sysconfPagesize
    if pagesize < 0 then return .error rpmaEProvider
    else
      let mmapSize := UInt64.ofNat pagesize.toNat
      match ← issue (.mmap mmapSize) with
      | none => return .error rpmaENomem
      | some raw =>
        match ← mrReg (some peer) (some raw) rawSize usageReadDst true with
        | .error ret =>
          let _ ← issue (.munmap raw mmapSize)
          return .error ret
        | .ok rawMr =>
          allocate (do
            let _ ← mrDereg rawMr
            let _ ← issue (.munmap raw mmapSize)
            return .error rpmaENomem)
            (return .ok ⟨raw, mmapSize, rawMr⟩)

/-- `rpma_flush_apm_do`; neither the length nor the type is used. -/
def flushApmDo (qp : Nat) (apm : FlushApm) (dst : MrRemote) (dstOffset : UInt64)
    (flags : BitVec 32) (opContext : UInt64) : D Int :=
  faultInjection (pure rpmaEProvider) <|
    mrRead qp (some apm.rawMr) 0 (some dst) dstOffset rawSize flags opContext

/-! ## `conn.c` -/

/-- `struct rpma_conn`, as far as flushing goes. -/
structure Conn where
  qp : Nat
  flush : FlushApm
  directWriteToPmem : Bool

/-- `enum rpma_flush_type`. -/
def flushTypePersistent : BitVec 32 := 0
def flushTypeVisibility : BitVec 32 := 1

/-- `rpma_mr_remote_get_flush_type` into a variable that is 0; the result is ignored. -/
def mrRemoteGetFlushType (mr : MrRemote) : D (BitVec 32) :=
  faultInjection (pure 0)
    (pure (mr.usage &&& (usageFlushTypePersistent ||| usageFlushTypeVisibility)))

/-- `rpma_flush`, with any `int` as its type. -/
def rpmaFlush (conn : Option Conn) (dst : Option MrRemote) (dstOffset _len : UInt64)
    (type flags : BitVec 32) (opContext : UInt64) : D Int :=
  faultInjection (pure rpmaENosupp) do
    match conn, dst with
    | some conn, some dst =>
      if flags = 0 then return rpmaEInval
      else if type = flushTypePersistent ∧ conn.directWriteToPmem = false then return rpmaENosupp
      else
        let flushType ← mrRemoteGetFlushType dst
        if type = flushTypePersistent ∧ flushType &&& usageFlushTypePersistent = 0 then
          return rpmaENosupp
        else if type = flushTypeVisibility ∧ flushType &&& usageFlushTypeVisibility = 0 then
          return rpmaENosupp
        else flushApmDo conn.qp conn.flush dst dstOffset flags opContext
    | _, _ => return rpmaEInval

/-- `rpma_conn_apply_remote_peer_cfg` on a connection, with the configuration's declaration or
`NULL`: the result and the connection after it. -/
def connApplyRemotePeerCfg (conn : Conn) (pcfg : Option Bool) : D (Int × Conn) :=
  faultInjection (pure (rpmaEInval, conn)) <|
    match pcfg with
    | none => return (rpmaEInval, conn)
    | some supported =>
      -- `rpma_peer_cfg_get_direct_write_to_pmem`
      faultInjection (pure (rpmaEInval, conn)) <|
        return (0, { conn with directWriteToPmem := supported })

/-! ## Runs of a connection -/

/-- The arguments of `rpma_flush` besides the connection, which may be `NULL`, too. -/
structure FlushArgs where
  conn : Bool
  dst : Option MrRemote
  dstOffset : UInt64
  len : UInt64
  type : BitVec 32
  flags : BitVec 32
  opContext : UInt64

/-- A call on a connection. -/
inductive FlushStep where
  | apply (pcfg : Option Bool)
  | flush (args : FlushArgs)

/-- A call of `rpma_flush`: the declaration applied last, if any, the result, and the requests
posted. -/
structure FlushCall where
  args : FlushArgs
  applied : Option Bool
  ret : Int
  posted : List Transfer

/-- The flushes of a run, on a connection on which `applied` was applied last. -/
def flushHistory (host : Endian) (world : DataWorld) :
    List FlushStep → Conn → Option Bool → DataLog → List FlushCall
  | [], _, _, _ => []
  | .apply pcfg :: steps, conn, applied, log =>
    let out := (connApplyRemotePeerCfg conn pcfg).run world log
    flushHistory host world steps out.1.2 (if out.1.1 = 0 then pcfg else applied) out.2
  | .flush args :: steps, conn, applied, log =>
    let out := (rpmaFlush (if args.conn then some conn else none) args.dst args.dstOffset args.len
      args.type args.flags args.opContext).run world log
    ⟨args, applied, out.1, transfersSince host log out.2⟩ ::
      flushHistory host world steps conn applied out.2

/-- The type is permitted by what was applied last and by the region. -/
def FlushCall.Permitted (c : FlushCall) : Prop :=
  ∃ dst, c.args.dst = some dst ∧
    ((c.args.type = flushTypePersistent ∧ c.applied = some true ∧
        dst.usage &&& usageFlushTypePersistent ≠ 0) ∨
      (c.args.type = flushTypeVisibility ∧ dst.usage &&& usageFlushTypeVisibility ≠ 0))

/-- The gate: a request is posted only if it is permitted, a call that posts none fails, and an
unknown type is an invalid argument. -/
def FlushCall.Gated (c : FlushCall) : Prop :=
  (c.posted ≠ [] → c.Permitted) ∧ (c.posted = [] → c.ret < 0) ∧
    (c.args.type ≠ flushTypePersistent → c.args.type ≠ flushTypeVisibility → c.ret = rpmaEInval)

/-- The type is known, or another argument is invalid. -/
def FlushArgs.TypeChecked (args : FlushArgs) : Prop :=
  args.type = flushTypePersistent ∨ args.type = flushTypeVisibility ∨ args.conn = false ∨
    args.dst = none ∨ args.flags = 0

/-! ## The gate -/

section Gate

variable {host : Endian} {world : DataWorld}

/-- The checks of `rpma_flush`, without faults: `none` lets the flush through. -/
def flushRefusal (directWriteToPmem : Bool) (dst : MrRemote) (type flags : BitVec 32) :
    Option Int :=
  if flags = 0 then some rpmaEInval
  else if type = flushTypePersistent ∧ directWriteToPmem = false then some rpmaENosupp
  else if type = flushTypePersistent ∧ dst.usage &&& usageFlushTypePersistent = 0 then
    some rpmaENosupp
  else if type = flushTypeVisibility ∧ dst.usage &&& usageFlushTypeVisibility = 0 then
    some rpmaENosupp
  else none

/-- The read that a flush posts. -/
def flushTransfer (conn : Conn) (dst : MrRemote) (dstOffset opContext : UInt64) : Transfer :=
  ⟨.post .rdmaRead, some conn.qp, some opContext,
    [(conn.flush.rawMr.ibvMr.addr, 8, conn.flush.rawMr.ibvMr.lkey)],
    some (dst.raddr + dstOffset, dst.rkey), none⟩

theorem run_mrRemoteGetFlushType (hnf : world.NoFaults) (dst : MrRemote) (log : DataLog) :
    (mrRemoteGetFlushType dst).run world log =
      (dst.usage &&& (usageFlushTypePersistent ||| usageFlushTypeVisibility),
        log ++ [⟨.faultInjection, world log.length .faultInjection⟩]) := by
  unfold mrRemoteGetFlushType
  rw [run_faultInjection hnf]
  rfl

/-- The bits that the usage is masked with do not change the checks. -/
theorem masked_usage (usage : BitVec 32) :
    usage &&& (usageFlushTypePersistent ||| usageFlushTypeVisibility) &&& usageFlushTypePersistent =
      usage &&& usageFlushTypePersistent ∧
    usage &&& (usageFlushTypePersistent ||| usageFlushTypeVisibility) &&& usageFlushTypeVisibility =
      usage &&& usageFlushTypeVisibility := by
  rw [BitVec.and_assoc, BitVec.and_assoc]
  exact ⟨congrArg (usage &&& ·) (by decide), congrArg (usage &&& ·) (by decide)⟩

theorem flushApmDo_run (hnf : world.NoFaults) (conn : Conn) (dst : MrRemote)
    (dstOffset : UInt64) (flags : BitVec 32) (opContext : UInt64) (log : DataLog) :
    let out := (flushApmDo conn.qp conn.flush dst dstOffset flags opContext).run world log
    (out.1 = 0 ∨ out.1 = rpmaEProvider) ∧
      transfersSince host log out.2 = [flushTransfer conn dst dstOffset opContext] := by
  unfold flushApmDo mrRead
  simp only [run_faultInjection hnf, postSend, Prog.run_bind, issue, Prog.run_issue, Prog.run_pure]
  refine ⟨?_, ?_⟩
  · exact (ite_eq_or_eq _ _ _).symm
  · simp [transfersSince, transferOf, sgBytes, sgeOf, flushTransfer, rawSize]

/-- **What a flush does**, without faults. -/
theorem rpmaFlush_run (host : Endian) (hnf : world.NoFaults) (conn : Conn) (dst : MrRemote)
    (dstOffset len : UInt64) (type flags : BitVec 32) (opContext : UInt64) (log : DataLog) :
    let out := (rpmaFlush (some conn) (some dst) dstOffset len type flags opContext).run world log
    match flushRefusal conn.directWriteToPmem dst type flags with
    | some ret => out.1 = ret ∧ transfersSince host log out.2 = []
    | none => (out.1 = 0 ∨ out.1 = rpmaEProvider) ∧
        transfersSince host log out.2 = [flushTransfer conn dst dstOffset opContext] := by
  have hquiet : ∀ (l : DataLog) a rest, l ++ [⟨.faultInjection, a⟩] <+: rest →
      transfersSince host l rest = transfersSince host (l ++ [⟨.faultInjection, a⟩]) rest :=
    fun l a rest hpre => transfersSince_snoc rfl hpre
  intro out
  have hout : out = Prog.run world _ log := rfl
  unfold rpmaFlush at hout
  rw [run_faultInjection hnf] at hout
  dsimp only at hout
  unfold flushRefusal
  by_cases h0 : flags = 0
  · rw [if_pos h0, Prog.run_pure] at hout
    rw [if_pos h0, hout]
    exact ⟨rfl, by simp [transfersSince, transferOf]⟩
  rw [if_neg h0] at hout ⊢
  by_cases h1 : type = flushTypePersistent ∧ conn.directWriteToPmem = false
  · rw [if_pos h1, Prog.run_pure] at hout
    rw [if_pos h1, hout]
    exact ⟨rfl, by simp [transfersSince, transferOf]⟩
  rw [if_neg h1, Prog.run_bind, run_mrRemoteGetFlushType hnf] at hout
  dsimp only at hout
  rw [(masked_usage dst.usage).1, (masked_usage dst.usage).2] at hout
  rw [if_neg h1]
  by_cases h2 : type = flushTypePersistent ∧ dst.usage &&& usageFlushTypePersistent = 0
  · rw [if_pos h2, Prog.run_pure] at hout
    rw [if_pos h2, hout]
    exact ⟨rfl, by simp [transfersSince, transferOf]⟩
  rw [if_neg h2] at hout ⊢
  by_cases h3 : type = flushTypeVisibility ∧ dst.usage &&& usageFlushTypeVisibility = 0
  · rw [if_pos h3, Prog.run_pure] at hout
    rw [if_pos h3, hout]
    exact ⟨rfl, by simp [transfersSince, transferOf]⟩
  rw [if_neg h3] at hout ⊢
  have hpre : ∀ l, l <+: ((flushApmDo conn.qp conn.flush dst dstOffset flags opContext).run
      world l).2 := Prog.run_prefix _
  rw [hout, hquiet log _ _ ((List.prefix_append _ _).trans (hpre _)), hquiet _ _ _ (hpre _)]
  exact flushApmDo_run hnf conn dst dstOffset flags opContext _

theorem flushRefusal_some {directWriteToPmem : Bool} {dst : MrRemote} {type flags : BitVec 32}
    {ret : Int} (h : flushRefusal directWriteToPmem dst type flags = some ret) :
    ret < 0 ∧ (flags ≠ 0 → type = flushTypePersistent ∨ type = flushTypeVisibility) ∧
      (flags = 0 → ret = rpmaEInval) := by
  unfold flushRefusal at h
  split_ifs at h with h0 h1 h2 h3 <;> obtain rfl := Option.some.inj h
  · exact ⟨by decide, fun hne => absurd h0 hne, fun _ => rfl⟩
  · exact ⟨by decide, fun _ => .inl h1.1, fun h => absurd h h0⟩
  · exact ⟨by decide, fun _ => .inl h2.1, fun h => absurd h h0⟩
  · exact ⟨by decide, fun _ => .inr h3.1, fun h => absurd h h0⟩

theorem flushRefusal_none {directWriteToPmem : Bool} {dst : MrRemote} {type flags : BitVec 32}
    (h : flushRefusal directWriteToPmem dst type flags = none) :
    flags ≠ 0 ∧ (type = flushTypePersistent →
        directWriteToPmem = true ∧ dst.usage &&& usageFlushTypePersistent ≠ 0) ∧
      (type = flushTypeVisibility → dst.usage &&& usageFlushTypeVisibility ≠ 0) := by
  unfold flushRefusal at h
  split_ifs at h with h0 h1 h2 h3
  refine ⟨h0, fun ht => ⟨?_, fun hu => h2 ⟨ht, hu⟩⟩, fun ht hu => h3 ⟨ht, hu⟩⟩
  simpa using fun hd => h1 ⟨ht, hd⟩

theorem rpmaFlush_null (hnf : world.NoFaults) {conn : Option Conn} {dst : Option MrRemote}
    (h : conn = none ∨ dst = none) (dstOffset len : UInt64) (type flags : BitVec 32)
    (opContext : UInt64) (log : DataLog) :
    let out := (rpmaFlush conn dst dstOffset len type flags opContext).run world log
    out.1 = rpmaEInval ∧ transfersSince host log out.2 = [] := by
  have hself : ∀ l : DataLog, transfersSince host log l = [] →
      ((pure rpmaEInval : D Int).run world l).1 = rpmaEInval ∧
        transfersSince host log ((pure rpmaEInval : D Int).run world l).2 = [] :=
    fun l hl => ⟨rfl, hl⟩
  have hfi : transfersSince host log
      (log ++ [⟨.faultInjection, world log.length .faultInjection⟩]) = [] := by
    simp [transfersSince, transferOf]
  unfold rpmaFlush
  rw [run_faultInjection hnf]
  rcases h with rfl | rfl
  · exact hself _ hfi
  · cases conn with
    | none => exact hself _ hfi
    | some conn => exact hself _ hfi

/-- **The gate of one flush**, on a connection that remembers what was applied last. -/
theorem gated_iff (host : Endian) (hnf : world.NoFaults) (conn : Conn) {applied : Option Bool}
    (happlied : conn.directWriteToPmem = applied.getD false) (args : FlushArgs) (log : DataLog) :
    let out := (rpmaFlush (if args.conn then some conn else none) args.dst args.dstOffset args.len
      args.type args.flags args.opContext).run world log
    FlushCall.Gated ⟨args, applied, out.1, transfersSince host log out.2⟩ ↔ args.TypeChecked := by
  intro out
  by_cases hnull : (if args.conn then some conn else none) = none ∨ args.dst = none
  · -- refused before the type could be looked at
    obtain ⟨hret, hposted⟩ : out.1 = rpmaEInval ∧ transfersSince host log out.2 = [] :=
      rpmaFlush_null hnf hnull ..
    refine iff_of_true ⟨fun hne => absurd hposted hne, fun _ => ?_, fun _ _ => hret⟩ ?_
    · exact hret ▸ (by decide : rpmaEInval < 0)
    · rcases hnull with hconn | hdst
      · exact .inr (.inr (.inl (by simpa using hconn)))
      · exact .inr (.inr (.inr (.inl hdst)))
  · obtain ⟨hconn, hdst⟩ := not_or.mp hnull
    obtain ⟨dst, hdst⟩ := Option.ne_none_iff_exists'.mp hdst
    have hc : args.conn = true := by simpa using hconn
    have hrun := rpmaFlush_run host hnf conn dst args.dstOffset args.len args.type args.flags
      args.opContext log
    have hout : out = (rpmaFlush (some conn) (some dst) args.dstOffset args.len args.type
        args.flags args.opContext).run world log := by simp only [out, hc, hdst, if_true]
    dsimp only at hrun
    rw [← hout] at hrun
    split at hrun
    · rename_i ret hrefusal
      obtain ⟨hneg, hknown, hflags⟩ := flushRefusal_some hrefusal
      refine iff_of_true ⟨fun hne => absurd hrun.2 hne, fun _ => hrun.1 ▸ hneg, fun hp hv => ?_⟩ ?_
      · by_contra hne
        rcases hknown fun h0 => hne (hrun.1.trans (hflags h0)) with h | h
        · exact hp h
        · exact hv h
      · by_cases h0 : args.flags = 0
        · exact .inr (.inr (.inr (.inr h0)))
        · rcases hknown h0 with h | h
          · exact .inl h
          · exact .inr (.inl h)
    · rename_i hrefusal
      obtain ⟨hflags, hpers, hvis⟩ := flushRefusal_none hrefusal
      have hposted : transfersSince host log out.2 ≠ [] := by
        rw [hrun.2]
        simp
      constructor
      · intro hgate
        obtain ⟨_, -, ⟨ht, -⟩ | ⟨ht, -⟩⟩ := hgate.1 hposted
        · exact .inl ht
        · exact .inr (.inl ht)
      · intro htype
        have hknown : args.type = flushTypePersistent ∨ args.type = flushTypeVisibility := by
          rcases htype with h | h | h | h | h
          · exact .inl h
          · exact .inr h
          · exact absurd h (by simp [hc])
          · exact absurd h (by simp [hdst])
          · exact absurd h hflags
        refine ⟨fun _ => ⟨dst, hdst, ?_⟩, fun h => absurd h hposted, fun hp hv => ?_⟩
        · rcases hknown with ht | ht
          · obtain ⟨hd, hu⟩ := hpers ht
            refine .inl ⟨ht, ?_, hu⟩
            cases applied with
            | none => simp [happlied] at hd
            | some b => simpa [happlied] using hd
          · exact .inr ⟨ht, hvis ht⟩
        · exact absurd hknown (not_or.mpr ⟨hp, hv⟩)

/-- Applying a configuration: the connection remembers what was applied. -/
theorem connApply_applied (hnf : world.NoFaults) (conn : Conn) {applied : Option Bool}
    (happlied : conn.directWriteToPmem = applied.getD false) (pcfg : Option Bool)
    (log : DataLog) :
    let out := (connApplyRemotePeerCfg conn pcfg).run world log
    out.1.2.directWriteToPmem = (if out.1.1 = 0 then pcfg else applied).getD false := by
  unfold connApplyRemotePeerCfg
  rw [run_faultInjection hnf]
  cases pcfg with
  | none =>
    have hne : rpmaEInval ≠ 0 := by decide
    simpa [hne] using happlied
  | some supported =>
    dsimp only
    rw [run_faultInjection hnf, Prog.run_pure]
    rfl

theorem gated_run_iff (hnf : world.NoFaults) (steps : List FlushStep) (conn : Conn)
    {applied : Option Bool} (happlied : conn.directWriteToPmem = applied.getD false)
    (log : DataLog) :
    (∀ c ∈ flushHistory host world steps conn applied log, c.Gated) ↔
      ∀ args, .flush args ∈ steps → args.TypeChecked := by
  induction steps generalizing conn applied log with
  | nil => simp [flushHistory]
  | cons step steps ih =>
    cases step with
    | apply pcfg =>
      rw [flushHistory, ih _ (connApply_applied hnf conn happlied pcfg log)]
      simp
    | flush args =>
      have hone := gated_iff host hnf conn happlied args log
      dsimp only at hone
      rw [flushHistory, List.forall_mem_cons, ih conn happlied, hone]
      simp

/-- **The gate of every run of a new connection.** -/
theorem flush_gate_iff (host : Endian) (hnf : world.NoFaults) (steps : List FlushStep) (qp : Nat)
    (flush : FlushApm) (log : DataLog) :
    (∀ c ∈ flushHistory host world steps ⟨qp, flush, false⟩ none log, c.Gated) ↔
      ∀ args, .flush args ∈ steps → args.TypeChecked :=
  gated_run_iff hnf steps ⟨qp, flush, false⟩ rfl log

end Gate

/-- A new connection in a calm world. -/
def newFlush : FlushApm := ⟨4096, 4096, ⟨⟨4096, 8, 7, 9⟩, usageReadDst⟩⟩

/-- A flush of the first four bytes of a region of 16. -/
def flushOf (usage type : BitVec 32) : FlushStep :=
  .flush ⟨true, some ⟨0x10000, 16, 9, usage⟩, 0, 4, type, completionAlways, 5⟩

/-- A persistent flush before and after the peer declares direct write to PMem, and again after it
takes that back. -/
theorem flush_gate_iff_declared :
    let steps := [flushOf 0x20 flushTypePersistent, .apply (some true),
      flushOf 0x20 flushTypePersistent, .apply (some false), flushOf 0x20 flushTypePersistent]
    (flushHistory .little calmWorld steps ⟨1, newFlush, false⟩ none []).map (·.ret) =
      [rpmaENosupp, 0, rpmaENosupp] ∧
    ∀ c ∈ flushHistory .little calmWorld steps ⟨1, newFlush, false⟩ none [], c.Gated := by
  refine ⟨by decide +kernel, (flush_gate_iff .little calmWorld_noFaults _ 1 newFlush []).mpr ?_⟩
  intro args hargs
  simp only [flushOf, List.mem_cons, FlushStep.flush.injEq, reduceCtorEq, List.not_mem_nil,
    or_false, false_or, or_self] at hargs
  subst hargs
  exact .inl rfl

/-- An unknown type on a region that allows no flush at all: the call posts a read and succeeds. -/
theorem unknown_flush_type_posts :
    ∃ c ∈ flushHistory .little calmWorld [flushOf 1 2] ⟨1, newFlush, false⟩ none [],
      c.ret = 0 ∧ c.posted ≠ [] ∧ ¬ c.Gated := by
  have hone : (flushHistory .little calmWorld [flushOf 1 2] ⟨1, newFlush, false⟩ none []).map
      (fun c => (c.ret, c.posted.length, c.args.type)) = [(0, 1, 2)] := by decide +kernel
  obtain ⟨c, hc, hfields⟩ := List.mem_map.mp (hone ▸ List.mem_singleton_self (0, 1, 2))
  simp only [Prod.mk.injEq] at hfields
  obtain ⟨hret, hposted, htype⟩ := hfields
  refine ⟨c, hc, hret, fun h => by simp [h] at hposted, fun hgate => ?_⟩
  have hinval := hgate.2.2 (by rw [htype]; decide) (by rw [htype]; decide)
  rw [hret] at hinval
  exact absurd hinval (by decide)

/-! ## The range of the read -/

/-- What is registered is the first `RAW_SIZE` bytes of the mapping. -/
theorem flushApmNew_registered (peer : Peer) :
    (flushApmNew peer).Returns fun r => ∀ apm, r = .ok apm →
      apm.rawMr.ibvMr.addr = apm.raw ∧ apm.rawMr.ibvMr.length = rawSize := by
  refine returns_faultInjection nofun (Prog.returns_after fun pagesize => ?_)
  split
  · exact nofun
  · refine Prog.returns_after fun raw => ?_
    cases raw with
    | none => exact nofun
    | some raw =>
      refine (mrReg_range _ _ _ _ _).bind fun r hr => ?_
      cases r with
      | error ret => exact Prog.returns_after fun _ => nofun
      | ok rawMr =>
        refine returns_allocate ?_ ?_
        · exact Prog.returns_after fun _ => Prog.returns_after fun _ => nofun
        · rintro apm ⟨⟩
          obtain ⟨haddr, hlen, -⟩ := hr rawMr rfl
          exact ⟨(Option.some.inj haddr).symm, hlen⟩

/-- A flush that succeeds has posted one RDMA read, of bytes of the remote region into bytes of the
registered RAW buffer. -/
def FlushInBounds (host : Endian) (conn : Conn) (dst : MrRemote) (dstOffset len : UInt64)
    (type flags : BitVec 32) (opContext : UInt64) (world : DataWorld) (log : DataLog) : Prop :=
  let out := (rpmaFlush (some conn) (some dst) dstOffset len type flags opContext).run world log
  out.1 = 0 → ∃ (laddr raddr : UInt64) (n : Nat) (lkey rkey : UInt32),
    transfersSince host log out.2 = [⟨.post .rdmaRead, some conn.qp, some opContext,
      [(laddr, n, lkey)], some (raddr, rkey), none⟩] ∧
    (conn.flush.raw.toNat ≤ laddr.toNat ∧ laddr.toNat + n ≤ conn.flush.raw.toNat + rawSize.toNat) ∧
    dst.raddr.toNat ≤ raddr.toNat ∧ raddr.toNat + n ≤ dst.raddr.toNat + dst.size.toNat

/-- The flush type is permitted on the connection and the region. -/
def FlushPermitted (conn : Conn) (dst : MrRemote) (type : BitVec 32) : Prop :=
  (type = flushTypePersistent ∧ conn.directWriteToPmem = true ∧
      dst.usage &&& usageFlushTypePersistent ≠ 0) ∨
    (type = flushTypeVisibility ∧ dst.usage &&& usageFlushTypeVisibility ≠ 0)

section Range

variable {host : Endian} {conn : Conn} {dst : MrRemote} {type flags : BitVec 32}

theorem flushApmDo_posts (dstOffset opContext : UInt64) :
    Posts host (flushApmDo conn.qp conn.flush dst dstOffset flags opContext)
      (flushTransfer conn dst dstOffset opContext) := by
  have hread : Posts host (mrRead conn.qp (some conn.flush.rawMr) 0 (some dst) dstOffset rawSize
      flags opContext) _ := mrRead_posts rfl
  refine Posts.faultInjection (by decide) ?_
  simpa [Transfer.cut, localBytes, remotePlace, flushTransfer, rawSize] using hread

/-- A permitted flush posts the read of `RAW_SIZE` bytes, whatever the length. -/
theorem rpmaFlush_posts (hperm : FlushPermitted conn dst type) (hflags : flags ≠ 0)
    (dstOffset len opContext : UInt64) :
    Posts host (rpmaFlush (some conn) (some dst) dstOffset len type flags opContext)
      (flushTransfer conn dst dstOffset opContext) := by
  have hnosupp : rpmaENosupp ≠ 0 := by decide
  have hkind : ¬ (type = flushTypePersistent ∧ conn.directWriteToPmem = false) := by
    rintro ⟨rfl, hd⟩
    rcases hperm with ⟨-, hd', -⟩ | ⟨h, -⟩
    · simp [hd] at hd'
    · exact absurd h (by decide)
  refine Posts.faultInjection hnosupp ?_
  dsimp only
  rw [if_neg hflags, if_neg hkind]
  -- a fault here makes the region look as if it allowed no flush
  unfold mrRemoteGetFlushType
  rw [faultInjection_bind]
  refine Posts.fault (fun world log => ?_) ?_
  · rcases hperm with ⟨rfl, -⟩ | ⟨rfl, -⟩
    · exact hnosupp
    · exact hnosupp
  · change Posts host (if _ then _ else if _ then _ else _) _
    rw [(masked_usage dst.usage).1, (masked_usage dst.usage).2, if_neg, if_neg]
    · exact flushApmDo_posts dstOffset opContext
    · rintro ⟨rfl, hu⟩
      rcases hperm with ⟨h, -⟩ | ⟨-, hu'⟩
      · exact absurd h (by decide)
      · exact hu' hu
    · rintro ⟨rfl, hu⟩
      rcases hperm with ⟨-, -, hu'⟩ | ⟨h, -⟩
      · exact hu' hu
      · exact absurd h (by decide)

/-- **A permitted flush stays in bounds iff the region has `RAW_SIZE` bytes left at the offset.** -/
theorem flush_in_bounds_iff {world₀ : DataWorld} {log₀ : DataLog} {peer : Peer}
    (hnew : ((flushApmNew peer).run world₀ log₀).1 = .ok conn.flush)
    (hperm : FlushPermitted conn dst type) (hflags : flags ≠ 0)
    (dstOffset len opContext : UInt64) :
    (∀ world log, FlushInBounds host conn dst dstOffset len type flags opContext world log) ↔
      dstOffset.toNat + rawSize.toNat ≤ dst.size.toNat ∧
        dst.raddr.toNat + dstOffset.toNat < 2 ^ 64 := by
  have hraw := ((flushApmNew_registered peer).run _ log₀ conn.flush hnew).1
  have hposts : Posts host (rpmaFlush (some conn) (some dst) dstOffset len type flags opContext)
      _ := rpmaFlush_posts hperm hflags dstOffset len opContext
  have haddr : (dst.raddr + dstOffset).toNat = (dst.raddr.toNat + dstOffset.toNat) % 2 ^ 64 :=
    UInt64.toNat_add ..
  have hlt : dstOffset.toNat < 2 ^ 64 := dstOffset.toNat_lt
  have hsize : rawSize.toNat = 8 := rfl
  constructor
  · intro h
    obtain ⟨laddr, raddr, n, lkey, rkey, ht, -, hlo, hhi⟩ := h calmWorld [] (hposts.calm [])
    rw [hposts.once _ _ (hposts.calm [])] at ht
    simp only [flushTransfer, List.cons.injEq, Transfer.mk.injEq, Prod.mk.injEq, Option.some.injEq,
      and_true, true_and] at ht
    obtain ⟨⟨-, rfl, -⟩, rfl, -⟩ := ht
    rw [haddr] at hlo hhi
    omega
  · rintro ⟨hin, hwrap⟩ world log hret
    refine ⟨conn.flush.rawMr.ibvMr.addr, dst.raddr + dstOffset, 8, _, _,
      hposts.once world log hret, ⟨?_, ?_⟩, ?_, ?_⟩
    · rw [hraw]
    · rw [hraw, hsize]
    · rw [haddr]
      omega
    · rw [haddr]
      omega

end Range

/-- A connection whose remote peer declared direct write to PMem. -/
def declaredConn : Conn := ⟨1, newFlush, true⟩

/-- A region of 16 bytes that allows both types of flush. -/
def smallRegion : MrRemote :=
  ⟨0x10000, 16, 9, usageFlushTypePersistent ||| usageFlushTypeVisibility⟩

/-- The last 8 bytes of the region can be flushed. -/
theorem flush_in_bounds_iff_last :
    (∀ world log, FlushInBounds .little declaredConn smallRegion 8 4 flushTypePersistent
      completionAlways 5 world log) ∧
    FlushPermitted declaredConn smallRegion flushTypePersistent := by
  have hperm : FlushPermitted declaredConn smallRegion flushTypePersistent :=
    .inl ⟨rfl, rfl, by decide⟩
  have hnew : ((flushApmNew ⟨false, false, false⟩).run calmWorld []).1 = .ok declaredConn.flush :=
    rfl
  exact ⟨(flush_in_bounds_iff hnew hperm (by decide) 8 4 5).mpr ⟨by decide, by decide⟩, hperm⟩

/-- The last 4 bytes cannot: the read goes 4 bytes past the end of the region. -/
theorem flush_reads_past_region :
    (12 : UInt64).toNat + (4 : UInt64).toNat ≤ smallRegion.size.toNat ∧
    FlushPermitted declaredConn smallRegion flushTypePersistent ∧
    ((rpmaFlush (some declaredConn) (some smallRegion) 12 4 flushTypePersistent completionAlways
      5).run calmWorld []).1 = 0 ∧
    ¬ FlushInBounds .little declaredConn smallRegion 12 4 flushTypePersistent completionAlways 5
      calmWorld [] := by
  have hperm : FlushPermitted declaredConn smallRegion flushTypePersistent :=
    .inl ⟨rfl, rfl, by decide⟩
  have hposts : Posts .little (rpmaFlush (some declaredConn) (some smallRegion) 12 4
      flushTypePersistent completionAlways 5) _ := rpmaFlush_posts hperm (by decide) 12 4 5
  refine ⟨by decide, hperm, hposts.calm [], fun h => ?_⟩
  obtain ⟨laddr, raddr, n, lkey, rkey, ht, -, -, hhi⟩ := h (hposts.calm [])
  rw [hposts.once _ _ (hposts.calm [])] at ht
  simp only [flushTransfer, List.cons.injEq, Transfer.mk.injEq, Prod.mk.injEq, Option.some.injEq,
    and_true, true_and] at ht
  obtain ⟨⟨-, rfl, -⟩, rfl, -⟩ := ht
  exact absurd hhi (by decide)

end Rpma.Librpma.Data
