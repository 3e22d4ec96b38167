import Rpma.Gpspm.MapFile
import Rpma.Librpma.PeerCfg

/-!
# What the two sides of a native flush agree on

The server of `05-flush-to-persistent` describes its memory and its configuration in the private
data of the connection (`struct common_data`). The client decodes them, writes its greeting into the
memory of the server, and flushes it with the strongest type that the server supports.

`serverData` and `exchange` are `main` of the two programs between the calls that make the
connection and the wait for the completion. The hosts may have different byte orders. The descriptors
do not depend on them, but `data_offset` does.

* **`native_flush_agreed`**: the client requests a write and a flush on the region that the server
  has registered, and the type of the flush is never refused. With different byte orders the offset is
  256 times the one of the server (`dataOffset_read`), and nobody compares it with the size of the
  region: the write goes where the server reads iff the byte orders agree or nothing precedes the
  data, and it can leave the region.
-/

namespace Rpma.NativeFlush

open Rpma.Lib Rpma.Lib.CText Rpma.Librpma.Data
open Rpma.Librpma (rpmaEInval rpmaEProvider)
open Rpma.Gpspm (signatureLen kilobyte mapSize)

/-! ## The server -/

/-- `struct common_mem` of the server, with the arguments it comes from. A mapped file has at least
the size that was asked for; it may be on a File System DAX, and with it comes the argument on direct
writes, if there is one. -/
inductive ServerMem where
  | dram (ptr : UInt64)
  | pmem (ptr size : UInt64) (fits : mapSize kilobyte ≤ size.toNat) (fsDax : Bool)
      (direct : Option Bool)

namespace ServerMem

/-- `mem.mr_ptr`. -/
def ptr : ServerMem → UInt64
  | dram ptr => ptr
  | pmem ptr .. => ptr

/-- `mem.mr_size`. -/
def size : ServerMem → UInt64
  | dram _ => .ofNat kilobyte
  | pmem _ size .. => size

/-- `mem.data_offset`. -/
def dataOffset : ServerMem → Nat
  | dram _ => 0
  | pmem .. => signatureLen

/-- The usage of the memory region. -/
def usage : ServerMem → BitVec 32
  | dram _ => usageWriteDst ||| usageFlushTypeVisibility
  | pmem .. => usageWriteDst ||| (usageFlushTypePersistent ||| usageFlushTypeVisibility)

/-- What the server declares of direct writes. -/
def direct : ServerMem → Bool
  | dram _ => false
  | pmem _ _ _ _ direct => direct.getD false

end ServerMem

/-- `DESCRIPTORS_MAX_SIZE`. -/
def descriptorsMaxSize : Nat := 24

/-- `offsetof(struct common_data, descriptors)`. -/
def descriptorsAt : Nat := 4

/-- `sizeof(struct common_data)`. -/
def commonDataSize : Nat := descriptorsAt + descriptorsMaxSize

/-- `err_pcfg_delete`. -/
def errPcfgDelete (ret : Int) : D (Except Int (Bytes × MrLocal)) := do
  let _ ← peerCfgDelete
  return .error ret

/-- `err_mr_dereg`. -/
def errMrDereg (mr : MrLocal) (ret : Int) : D (Except Int (Bytes × MrLocal)) := do
  let _ ← mrDereg mr
  errPcfgDelete ret

/-- The argument on direct writes. -/
def configure (pcfg : PeerCfg) : Option Bool → D (Int × Option PeerCfg)
  | none => return (0, some pcfg)
  | some supported => peerCfgSetDirectWriteToPmem (some pcfg) supported

/-- `rpma_mr_advise` of a file on a File System DAX, `IBV_ADVISE_MR_ADVICE_PREFETCH_WRITE` with
`IBV_ADVISE_MR_FLAG_FLUSH`, in a build that has the flags. -/
def adviseMr (supported flagsSupported : Bool) (mr : MrLocal) : ServerMem → D Int
  | .dram _ => return 0
  | .pmem _ size _ fsDax _ =>
    if flagsSupported = true ∧ fsDax = true then mrAdvise supported mr 0 size 1 1 else return 0

/-- The fields of `struct common_data` in front of the descriptors. -/
def commonDataHead (host : Endian) (dataOffset mrDescSize pcfgDescSize : Nat) : Bytes :=
  let data := blit (fun _ => 0) 0 (host.store 2 dataOffset)
  let data := blit data 2 [UInt8.ofNat mrDescSize]
  blit data 3 [UInt8.ofNat pcfgDescSize]

/-- `main` of server.c from `rpma_peer_cfg_new` to the private data; the peer and the endpoint are
there. -/
def serverData (host : Endian) (peer : Peer) (supported flagsSupported stack : Bool)
    (mem : ServerMem) : D (Except Int (Bytes × MrLocal)) := do
  match ← peerCfgNew true with
  | .error ret => return .error ret
  | .ok pcfg =>
    let direct := match mem with
      | .dram _ => none
      | .pmem _ _ _ _ direct => direct
    let (ret, pcfg) ← configure pcfg direct
    if ret ≠ 0 then errPcfgDelete ret
    else
      match ← mrReg (some peer) (some mem.ptr) mem.size mem.usage true with
      | .error ret => errPcfgDelete ret
      | .ok mr =>
        let ret ← adviseMr supported flagsSupported mr mem
        if ret ≠ 0 then errMrDereg mr ret
        else
          match ← mrGetDescriptorSize (some mr) true with
          | .error ret => errMrDereg mr ret
          | .ok mrDescSize =>
            match ← peerCfgGetDescriptorSize pcfg true with
            | .error ret => errMrDereg mr ret
            | .ok pcfgDescSize =>
              let data := commonDataHead host mem.dataOffset mrDescSize pcfgDescSize
              let (ret, data) ← mrGetDescriptor host data (some mr) (some descriptorsAt)
              if ret ≠ 0 then errMrDereg mr ret
              else
                let (ret, data) ←
                  peerCfgGetDescriptor stack data pcfg (some (descriptorsAt + mrDescSize))
                if ret ≠ 0 then errMrDereg mr ret else return .ok (data, mr)

/-! ## The client -/

/-- `FLUSH_ID`. -/
def flushId : UInt64 := 0xF01D

/-- What the client has when it has called `rpma_flush`, and the result of the call. -/
structure Exchange where
  src : MrLocal
  conn : Conn
  dst : MrRemote
  dstOffset : UInt64
  flushType : BitVec 32
  ret : Int

/-- `ret |= …`. -/
def orRet (ret ret' : Int) : Int := (BitVec.ofInt 32 ret ||| BitVec.ofInt 32 ret').toInt

/-- `main` of client.c from `rpma_mr_reg` to `rpma_flush`, on a connection with `len` bytes of private
data. An error is the value of `ret` at the exit; two exits leave it 0. -/
def exchange (host : Endian) (peer : Peer) (ptr size srcOffset : UInt64) (conn : Conn)
    (pdata : Bytes) (len : Nat) : D (Except Int Exchange) := do
  match ← mrReg (some peer) (some ptr) size usageWriteSrc true with
  | .error ret => return .error ret
  | .ok src =>
    -- `rpma_conn_get_private_data`
    faultInjection (return .error rpmaEInval) do
      if len < commonDataSize then return .error 0
      else
        let mrDescSize := (pdata 2).toNat
        match ← peerCfgFromDescriptor pdata (some (descriptorsAt + mrDescSize)) (pdata 3).toNat
          true with
        | .error ret => return .error ret
        | .ok pcfg =>
          let (ret, direct) ← peerCfgGetDirectWriteToPmem (some pcfg) (some false)
          let (ret', conn) ← connApplyRemotePeerCfg conn (some pcfg.directWriteToPmem)
          let _ ← peerCfgDelete
          if orRet ret ret' ≠ 0 then return .error (orRet ret ret')
          else
            match ← mrRemoteFromDescriptor host pdata (some descriptorsAt) mrDescSize true with
            | .error ret => return .error ret
            | .ok dst =>
              match ← mrRemoteGetSize (some dst) true with
              | .error ret => return .error ret
              | .ok dstSize =>
                if dstSize.toNat < kilobyte then return .error 0
                else
                  let dstOffset := UInt64.ofNat (host.load (bytesAt pdata 0 2))
                  let ret ← rpmaWrite host (some conn.qp) (some dst) dstOffset (some src) srcOffset
                    (.ofNat kilobyte) completionOnError 0
                  if ret ≠ 0 then return .error ret
                  else
                    let flushType := if direct.getD false then flushTypePersistent
                      else flushTypeVisibility
                    let ret ← rpmaFlush (some conn) (some dst) dstOffset (.ofNat kilobyte) flushType
                      completionAlways flushId
                    return .ok ⟨src, conn, dst, dstOffset, flushType, ret⟩

/-! ## What the server writes -/

/-- The bytes of `struct common_data` that are in use. -/
def commonData (host : Endian) (mem : ServerMem) (mr : MrLocal) : List UInt8 :=
  host.store 2 mem.dataOffset ++ [UInt8.ofNat mrDescSize] ++ [UInt8.ofNat peerCfgDescSize] ++
    mr.descriptor ++ [if mem.direct then 1 else 0]

/-- The region is what the server asked for. -/
structure Registered (mem : ServerMem) (mr : MrLocal) : Prop where
  addr : mr.ibvMr.addr = mem.ptr
  length : mr.ibvMr.length = mem.size
  usage : mr.usage = mem.usage

/-- If the server comes to an end, it hands out a description of what it has registered. -/
def Handed (host : Endian) (mem : ServerMem) (r : Except Int (Bytes × MrLocal)) : Prop :=
  ∀ data mr, r = .ok (data, mr) →
    Registered mem mr ∧ data = blit (fun _ => 0) 0 (commonData host mem mr)

section Server

variable {writer host : Endian} {mem : ServerMem} {mr : MrLocal}

theorem length_store (host : Endian) (w v : Nat) : (host.store w v).length = w := by
  cases host <;> simp [Endian.store]

theorem length_commonData (host : Endian) (mem : ServerMem) (mr : MrLocal) :
    (commonData host mem mr).length = 26 := by
  simp [commonData, length_store, MrLocal.descriptor, mrDescSize]

theorem commonData_written (host : Endian) (mem : ServerMem) (mr : MrLocal) :
    blit (blit (commonDataHead host mem.dataOffset mrDescSize peerCfgDescSize) descriptorsAt
      mr.descriptor) (descriptorsAt + mrDescSize) [if mem.direct then 1 else 0] =
        blit (fun _ => 0) 0 (commonData host mem mr) := by
  have h2 := blit_append (fun _ => 0) 0 (host.store 2 mem.dataOffset) [UInt8.ofNat mrDescSize]
  have h3 := blit_append (fun _ => 0) 0
    (host.store 2 mem.dataOffset ++ [UInt8.ofNat mrDescSize]) [UInt8.ofNat peerCfgDescSize]
  have h4 := blit_append (fun _ => 0) 0 (host.store 2 mem.dataOffset ++
    [UInt8.ofNat mrDescSize] ++ [UInt8.ofNat peerCfgDescSize]) mr.descriptor
  have h5 := blit_append (fun _ => 0) 0 (host.store 2 mem.dataOffset ++
    [UInt8.ofNat mrDescSize] ++ [UInt8.ofNat peerCfgDescSize] ++ mr.descriptor)
      [if mem.direct then 1 else 0]
  have hmr : mr.descriptor.length = 21 := length_descriptor ..
  simp only [List.length_append, length_store, List.length_singleton, hmr, Nat.zero_add,
    Nat.reduceAdd] at h2 h3 h4 h5
  unfold commonDataHead
  dsimp only
  rw [h2, h3]
  exact (congrArg (fun data => blit data 25 _) h4).trans h5

theorem errMrDereg_spec (mr : MrLocal) (ret : Int) :
    Quiet host (errMrDereg mr ret) fun r => r = .error ret := by
  have hdereg : Quiet host (mrDereg mr) fun _ => True :=
    (quiet_issue rfl).bind_quiet fun _ _ => (quiet_issue rfl).bind_quiet fun _ _ =>
      requests_faultInjection (quiet_pure trivial)
  exact hdereg.bind_quiet fun _ _ => peerCfgDelete_spec.bind_quiet fun _ _ => quiet_pure rfl

theorem errPcfgDelete_spec (ret : Int) :
    Quiet host (errPcfgDelete ret) fun r => r = .error ret :=
  peerCfgDelete_spec.bind_quiet fun _ _ => quiet_pure rfl

theorem configure_spec (arg : Option Bool) :
    Quiet host (configure ⟨false⟩ arg) fun r => r = (0, some ⟨arg.getD false⟩) := by
  cases arg with
  | none => exact quiet_pure rfl
  | some supported => exact peerCfgSet_spec ⟨false⟩ supported

/-- **What the server hands to the connection.** -/
theorem serverData_spec (peer : Peer) (supported flagsSupported stack : Bool) (mem : ServerMem) :
    Requests host (serverData writer peer supported flagsSupported stack mem) fun r _ =>
      Handed writer mem r := by
  have herror : ∀ ret, Handed writer mem (.error ret) := fun ret => nofun
  refine (peerCfgNew_spec true).bind_quiet fun r hr => ?_
  cases r with
  | error ret => exact .pure (herror ret)
  | ok pcfg =>
    obtain rfl := hr pcfg rfl
    dsimp only
    refine (configure_spec _).bind_quiet ?_
    rintro _ rfl
    have hdirect : (match mem with
      | .dram _ => (none : Option Bool)
      | .pmem _ _ _ _ direct => direct).getD false = mem.direct := by
      cases mem <;> rfl
    rw [hdirect]
    refine (mrReg_spec peer mem.ptr mem.size mem.usage).bind_quiet fun r hr => ?_
    cases r with
    | error ret => exact (errPcfgDelete_spec ret).imp fun _ _ h => h.1 ▸ herror ret
    | ok mr =>
      obtain ⟨haddr, hlen, husage, -⟩ := hr mr rfl
      have hadvise : Requests host (adviseMr supported flagsSupported mr mem) fun _ _ => True :=
        fun _ _ _ => trivial
      refine hadvise.bind fun ret ts _ => ?_
      split
      · exact (errMrDereg_spec mr ret).imp fun _ _ h => h.1 ▸ herror ret
      · refine (mrGetDescriptorSize_spec mr).bind_quiet ?_
        rintro _ rfl
        refine (peerCfgGetDescriptorSize_spec ⟨mem.direct⟩).bind_quiet ?_
        rintro _ rfl
        refine (mrGetDescriptor_spec writer mr descriptorsAt).bind_quiet ?_
        rintro _ rfl
        refine (peerCfgGetDescriptor_spec stack ⟨mem.direct⟩
          (descriptorsAt + mrDescSize)).bind_quiet ?_
        rintro _ rfl
        refine .pure fun data mr' h => ?_
        obtain ⟨rfl, rfl⟩ := Prod.mk.inj (Except.ok.inj h)
        exact ⟨⟨haddr, hlen, husage⟩, commonData_written writer mem mr⟩

end Server

/-! ## What the client reads -/

/-- What the client finds in the private data. -/
structure Reads (writer : Endian) (mem : ServerMem) (mr : MrLocal) (pdata : Bytes) : Prop where
  dataOffset : bytesAt pdata 0 2 = writer.store 2 mem.dataOffset
  mrSize : (pdata 2).toNat = mrDescSize
  pcfgSize : (pdata 3).toNat = peerCfgDescSize
  region : describedAt pdata descriptorsAt = mr.asRemote
  direct : (pdata (descriptorsAt + mrDescSize) != 0) = mem.direct

section Client

variable {writer host : Endian} {mem : ServerMem} {mr : MrLocal} {pdata : Bytes}

theorem usage_lt (mem : ServerMem) : mem.usage.toNat < 2 ^ 8 := by
  cases mem with
  | dram ptr => exact (by decide : (usageWriteDst ||| usageFlushTypeVisibility).toNat < 2 ^ 8)
  | pmem ptr size fits fsDax direct =>
    exact (by decide : (usageWriteDst |||
      (usageFlushTypePersistent ||| usageFlushTypeVisibility)).toNat < 2 ^ 8)

/-- Anything may follow the bytes that are in use. -/
theorem reads_of_bytes (hmr : Registered mem mr)
    (h : bytesAt pdata 0 26 = commonData writer mem mr) : Reads writer mem mr pdata := by
  have h5 := bytesAt_add pdata 0 25 1
  have h4 := bytesAt_add pdata 0 4 21
  have h3 := bytesAt_add pdata 0 3 1
  have h2 := bytesAt_add pdata 0 2 1
  simp only [Nat.zero_add, Nat.reduceAdd] at h2 h3 h4 h5
  rw [h5, h4, h3, h2] at h
  obtain ⟨h, hdirect⟩ := List.append_inj h (by
    simp [length_store, MrLocal.descriptor, mrDescSize])
  obtain ⟨h, hregion⟩ := List.append_inj h (by simp [length_store])
  obtain ⟨h, hpcfg⟩ := List.append_inj h (by simp [length_store])
  obtain ⟨hoff, hsize⟩ := List.append_inj h (by simp [length_store])
  have hone : ∀ {a : Nat} {b : UInt8}, bytesAt pdata a 1 = [b] → pdata a = b := fun h =>
    List.singleton_inj.mp h
  refine ⟨hoff, ?_, ?_, ?_, ?_⟩
  · rw [hone hsize]
    rfl
  · rw [hone hpcfg]
    rfl
  · exact describedAt_of_descriptor (hmr.usage ▸ usage_lt mem) hregion
  · rw [show descriptorsAt + mrDescSize = 25 from rfl, hone hdirect]
    cases mem.direct <;> rfl

/-- The type that the client flushes with. -/
def flushTypeOf (direct : Bool) : BitVec 32 :=
  if direct then flushTypePersistent else flushTypeVisibility

theorem usage_visibility (mem : ServerMem) : mem.usage &&& usageFlushTypeVisibility ≠ 0 := by
  have hdram : (usageWriteDst ||| usageFlushTypeVisibility) &&& usageFlushTypeVisibility ≠ 0 := by
    decide
  have hpmem : (usageWriteDst ||| (usageFlushTypePersistent ||| usageFlushTypeVisibility)) &&&
      usageFlushTypeVisibility ≠ 0 := by decide
  cases mem with
  | dram ptr => exact hdram
  | pmem ptr size fits fsDax direct => exact hpmem

/-- Direct writes are declared only for a region that may be flushed so. -/
theorem usage_persistent {mem : ServerMem} (h : mem.direct = true) :
    mem.usage &&& usageFlushTypePersistent ≠ 0 := by
  have hpmem : (usageWriteDst ||| (usageFlushTypePersistent ||| usageFlushTypeVisibility)) &&&
      usageFlushTypePersistent ≠ 0 := by decide
  cases mem with
  | dram ptr => cases h
  | pmem ptr size fits fsDax direct => exact hpmem

/-- **The flush is not refused.** -/
theorem flushRefusal_agreed {dst : MrRemote} (h : dst.usage = mem.usage) :
    flushRefusal mem.direct dst (flushTypeOf mem.direct) completionAlways = none := by
  have hflags : completionAlways ≠ 0 := by decide
  have htypes : flushTypeVisibility ≠ flushTypePersistent := by decide
  unfold flushRefusal flushTypeOf
  rw [h, if_neg hflags]
  cases hd : mem.direct with
  | true => simpa [htypes.symm] using usage_persistent hd
  | false => simpa [htypes] using usage_visibility mem

/-- An exchange has come to the flush. -/
structure Agreed (writer host : Endian) (mem : ServerMem) (mr : MrLocal) (srcOffset : UInt64)
    (e : Exchange) (ts : List Transfer) : Prop where
  dst : e.dst = mr.asRemote
  dstOffset : e.dstOffset = .ofNat (host.load (writer.store 2 mem.dataOffset))
  direct : e.conn.directWriteToPmem = mem.direct
  flushType : e.flushType = flushTypeOf mem.direct
  ret : e.ret = 0 ∨ e.ret = rpmaEProvider
  posted : ts = [writeTransfer e.conn.qp e.dst e.dstOffset e.src srcOffset (.ofNat kilobyte) 0,
    flushTransfer e.conn e.dst e.dstOffset flushId]

/-- How an exchange ends. One that does not come to the flush has requested nothing, or a write that
the provider refused. -/
def Ended (writer host : Endian) (mem : ServerMem) (mr : MrLocal) (srcOffset : UInt64)
    (r : Except Int Exchange) (ts : List Transfer) : Prop :=
  match r with
  | .error ret => ts = [] ∨ ret = rpmaEProvider ∧ ts.length = 1
  | .ok e => Agreed writer host mem mr srcOffset e ts

theorem exchange_spec (peer : Peer) (ptr size srcOffset : UInt64) (conn : Conn) (len : Nat)
    (hmr : Registered mem mr) (h : Reads writer mem mr pdata) :
    Requests host (exchange host peer ptr size srcOffset conn pdata len)
      (Ended writer host mem mr srcOffset) := by
  refine (mrReg_spec peer ptr size usageWriteSrc).bind_quiet fun r _ => ?_
  cases r with
  | error ret => exact .pure (Or.inl rfl)
  | ok src =>
    refine requests_faultInjection ?_
    split
    · exact .pure (Or.inl rfl)
    · rw [h.mrSize, h.pcfgSize]
      refine (peerCfgFromDescriptor_spec (descriptorsAt + mrDescSize) _).bind_quiet fun r hr => ?_
      cases r with
      | error ret => exact .pure (Or.inl rfl)
      | ok pcfg =>
        obtain rfl := hr pcfg rfl
        rw [h.direct]
        dsimp only
        refine (peerCfgGet_spec ⟨mem.direct⟩ false).bind_quiet ?_
        rintro _ rfl
        refine (connApply_spec conn mem.direct).bind_quiet ?_
        rintro _ rfl
        refine peerCfgDelete_spec.bind_quiet fun _ _ => ?_
        have hor : ¬ orRet 0 0 ≠ 0 := by decide
        dsimp only
        rw [if_neg hor]
        refine (mrRemoteFromDescriptor_spec host descriptorsAt mrDescSize).bind_quiet fun r hr => ?_
        cases r with
        | error ret => exact .pure (Or.inl rfl)
        | ok dst =>
          obtain rfl := hr dst rfl
          rw [h.region]
          dsimp only
          refine (mrRemoteGetSize_spec mr.asRemote).bind_quiet ?_
          rintro _ rfl
          dsimp only
          split
          · exact .pure (Or.inl rfl)
          · rw [h.dataOffset]
            refine (rpmaWrite_spec conn.qp _ _ src srcOffset _ (by decide) 0).bind
              fun ret ts hwrite => ?_
            obtain ⟨hret, rfl⟩ := hwrite
            split
            · rename_i hne
              exact .pure (Or.inr ⟨hret.resolve_left hne, rfl⟩)
            · refine (rpmaFlush_spec _ _ _ _ _ completionAlways flushId
                (flushRefusal_agreed hmr.usage)).bind fun ret ts hflush => .pure ?_
              obtain ⟨hret, rfl⟩ := hflush
              exact ⟨rfl, rfl, rfl, rfl, hret, rfl⟩

/-- What the client reads of `data_offset`: a host of the other byte order takes the bytes the other
way round. -/
theorem dataOffset_read (writer host : Endian) (mem : ServerMem) :
    (UInt64.ofNat (host.load (writer.store 2 mem.dataOffset))).toNat =
      if writer = host then mem.dataOffset else 256 * mem.dataOffset := by
  have hread : ∀ off : Nat, off = 0 ∨ off = signatureLen →
      (UInt64.ofNat (host.load (writer.store 2 off))).toNat =
        if writer = host then off else 256 * off := by
    rintro off (rfl | rfl)
    · cases writer <;> cases host <;> decide
    · cases writer <;> cases host <;> decide
  cases mem with
  | dram ptr => exact hread 0 (Or.inl rfl)
  | pmem ptr size fits fsDax direct => exact hread signatureLen (Or.inr rfl)

/-- Only hosts of one byte order agree on where the data begins, unless it begins at 0. -/
theorem read_eq_iff (writer host : Endian) (off : Nat) :
    (if writer = host then off else 256 * off) = off ↔ writer = host ∨ off = 0 := by
  split
  · simp [*]
  · simp only [*, false_or]
    omega

theorem ServerMem.kilobyte_fits (mem : ServerMem) :
    mem.dataOffset + kilobyte ≤ mem.size.toNat := by
  cases mem with
  | dram ptr => exact Nat.le_of_eq rfl
  | pmem ptr size fits fsDax direct => exact fits

/-- **What the two sides agree on**, with any bytes behind the private data and whatever the calls of
the two programs answer: a client that comes to the flush has requested the write of a kilobyte and
the flush of what it has written, on the region that the server registered. The type of the flush is
the one that the server declared, and is not refused. The write goes to the data of the server iff the
byte orders agree or nothing precedes the data. It lies in the region iff the byte orders agree or the
region has room for it at 256 times the offset of the data. -/
theorem native_flush_agreed (writer host : Endian) (speer cpeer : Peer)
    (supported flagsSupported stack : Bool) (mem : ServerMem) (ptr size srcOffset : UInt64)
    (conn : Conn) (len : Nat) {sworld cworld : DataWorld} (hs : sworld.NoFaults)
    (hc : cworld.NoFaults) (slog clog : DataLog) {data pdata : Bytes} {mr : MrLocal}
    (hdata : ((serverData writer speer supported flagsSupported stack mem).run sworld slog).1 =
      .ok (data, mr))
    (hcopy : ∀ i < commonDataSize, pdata i = data i) :
    let out := (exchange host cpeer ptr size srcOffset conn pdata len).run cworld clog
    Registered mem mr ∧
      Ended writer host mem mr srcOffset out.1 (transfersSince host clog out.2) ∧
      ∀ e, out.1 = .ok e →
        e.dst.size = mem.size ∧
        (e.dstOffset.toNat = mem.dataOffset ↔ writer = host ∨ mem.dataOffset = 0) ∧
        (e.dstOffset.toNat + kilobyte ≤ e.dst.size.toNat ↔
          writer = host ∨ 256 * mem.dataOffset + kilobyte ≤ mem.size.toNat) := by
  have hserver : Requests host (serverData writer speer supported flagsSupported stack mem)
      fun r _ => Handed writer mem r := serverData_spec speer supported flagsSupported stack mem
  obtain ⟨hmr, hbytes⟩ := hserver sworld hs slog data mr hdata
  have hused : bytesAt pdata 0 26 = commonData writer mem mr := by
    have hsame : bytesAt pdata 0 26 = bytesAt data 0 26 := bytesAt_congr fun i hi =>
      hcopy (0 + i) (by simp [commonDataSize, descriptorsAt, descriptorsMaxSize]; omega)
    rw [hsame, hbytes, ← length_commonData writer mem mr]
    exact bytesAt_blit ..
  intro out
  have hended : Ended writer host mem mr srcOffset out.1 (transfersSince host clog out.2) :=
    exchange_spec cpeer ptr size srcOffset conn len hmr (reads_of_bytes hmr hused) cworld hc clog
  refine ⟨hmr, hended, fun e he => ?_⟩
  rw [he] at hended
  have hoff : e.dstOffset.toNat = if writer = host then mem.dataOffset else 256 * mem.dataOffset :=
    hended.dstOffset ▸ dataOffset_read writer host mem
  have hsize : e.dst.size = mem.size := hended.dst ▸ hmr.length
  have hfits := mem.kilobyte_fits
  refine ⟨hsize, hoff ▸ read_eq_iff writer host mem.dataOffset, ?_⟩
  rw [hoff, hsize]
  split
  · simp [*]
  · simp [*]

end Client

/-- The smallest mapped file, with direct writes. -/
def directMem : ServerMem := .pmem 0x10000 1041 (by decide) false (some true)

/-- A big-endian server and a little-endian client: the flush is persistent, and the write is
requested behind the end of the region. -/
theorem native_flush_agreed_mixed : ∃ data mr e,
    ((serverData .big ⟨false, false, false⟩ true true false directMem).run calmWorld []).1 =
      .ok (data, mr) ∧
    ((exchange .little ⟨false, false, false⟩ 0x20000 1045 21 ⟨1, newFlush, false⟩ data
      commonDataSize).run calmWorld []).1 = .ok e ∧
    e.ret = 0 ∧ e.flushType = flushTypePersistent ∧ e.dst = mr.asRemote ∧
      ¬ e.dstOffset.toNat + kilobyte ≤ e.dst.size.toNat := by
  obtain ⟨data, mr, e, hdata, he, hret⟩ : ∃ data mr e,
      ((serverData .big ⟨false, false, false⟩ true true false directMem).run calmWorld []).1 =
        .ok (data, mr) ∧
      ((exchange .little ⟨false, false, false⟩ 0x20000 1045 21 ⟨1, newFlush, false⟩ data
        commonDataSize).run calmWorld []).1 = .ok e ∧ e.ret = 0 := ⟨_, _, _, rfl, rfl, rfl⟩
  obtain ⟨-, hended, hoff⟩ := native_flush_agreed .big .little ⟨false, false, false⟩
    ⟨false, false, false⟩ true true false directMem 0x20000 1045 21 ⟨1, newFlush, false⟩
    commonDataSize calmWorld_noFaults calmWorld_noFaults [] [] hdata fun _ _ => rfl
  rw [he] at hended
  refine ⟨data, mr, e, hdata, he, hret, hended.flushType, hended.dst, ?_⟩
  exact fun hin => absurd ((hoff e he).2.2.mp hin) (by decide)

end Rpma.NativeFlush
