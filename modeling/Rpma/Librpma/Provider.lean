import Rpma.Lib.Prog
import Rpma.Lib.Ledger

/-!
# The calls librpma makes: libibverbs, librdmacm and libc

A function of librpma is a program over `Call`. A call that creates an object answers with a
handle, the number of the call in the run, so that no two objects of a run have the same name.
What else a call answers (whether it fails, with which `errno`, which event it delivers) is up to
the world, `World`: a theorem for every world is a theorem for every pattern of failures.

`RPMA_FAULT_INJECTION` is a call too. A build without `DEBUG_FAULT_INJECTION` is a world that never
injects a fault (`NoFaults`).

`effect` says which calls acquire and release which objects, and what depends on what: a QP on
its CQs and its CM ID, a CQ on its completion channel, a registration on the mapping behind it, a
CM ID on the event channel it was migrated to. The CM ID of a connection request is delivered with
an event of a listening endpoint and belongs to the application from then on.

librpma ignores the result of `rdma_migrate_id(id, NULL)` (`rpma_conn_new`): `presumedEffect` is
what the calls do if it always succeeds. What the code believes to hold is a matter of the presumed
effects, and `Owned I A L` is the ledger assertion of the specs over them: the run so far holds `A`,
on top of `L` which knows nothing of `A`. It carries along a property `I` of the run that ordinary
calls keep (`Stable`). The two readings agree on what is acquired and released, and on who was made
to depend on whom (`acquiredAt_presumed`, `releasedAt_presumed`, `dependsAt_presumed`); a run held
under the one is held under the other (`owns_presumed`).
-/

namespace Rpma.Librpma

open Rpma.Lib Rpma.Lib.Ledger

/-! ## Calls and answers -/

/-- The structures librpma allocates. -/
inductive Heap where
  | info | cq | req | mr | flush | flushApm | conn | privateData
  deriving DecidableEq, Repr

/-- A call, with the arguments that name objects and those a statement looks at. -/
inductive Call where
  | faultInjection
  | malloc (what : Heap)
  | free (ptr : Option Nat)
  | sysconfPagesize
  | mmap
  | munmap (raw : Nat)
  | rdmaGetaddrinfo (addr port : String)
  | rdmaFreeaddrinfo (rai : Nat)
  | rdmaCreateId
  | rdmaDestroyId (id : Nat)
  | rdmaResolveAddr (id : Nat) (timeoutMs : Int)
  | rdmaResolveRoute (id : Nat) (timeoutMs : Int)
  | rdmaCreateQp (id sendCq recvCq : Nat)
  | rdmaDestroyQp (id qp : Nat)
  | rdmaCreateEventChannel
  | rdmaDestroyEventChannel (evch : Nat)
  | rdmaMigrateId (id : Nat) (evch : Option Nat)
  | rdmaConnect (id : Nat)
  | rdmaAccept (id : Nat)
  | rdmaReject (id : Nat)
  | rdmaDisconnect (id : Nat)
  | rdmaGetCmEvent (evch : Nat) (listening : Bool)
  | rdmaAckCmEvent (event : Nat)
  | ibvCreateCompChannel
  | ibvDestroyCompChannel (channel : Nat)
  | ibvCreateCq (cqe : Int) (channel : Nat)
  | ibvDestroyCq (cq : Nat)
  | ibvReqNotifyCq (cq : Nat)
  | ibvGetCqEvent (channel : Nat)
  | ibvAckCqEvents (cq : Nat) (nevents : Nat)
  | ibvPollCq (cq : Nat) (numEntries : Int)
  | ibvRegMr (raw : Nat) (onDemand : Bool)
  | ibvDeregMr (mr : Nat)
  deriving DecidableEq, Repr

/-- The `errno` values librpma looks at. -/
inductive Errno where
  | enodata | eopnotsupp | other
  deriving DecidableEq, Repr

/-- `enum rdma_cm_event_type`, as far as librpma tells its values apart. -/
inductive CmEventType where
  | connectRequest | established | connectError | deviceRemoval | disconnected | timewaitExit
  | rejected | unreachable | other
  deriving DecidableEq, Repr

/-- `struct rdma_cm_event`: the private data is `none` when its pointer is `NULL`. The CM ID of a
connection request is named by the call that delivered it. -/
structure CmEvent where
  event : CmEventType
  privateData : Option (List UInt8)
  deriving DecidableEq, Repr

/-- What a call can answer; every wrapper below reads the fields its call has. -/
structure Answer where
  /-- A pointer other than `NULL`, or the return value 0. -/
  ok : Bool
  errno : Errno
  /-- The object a successful call created. -/
  handle : Nat
  fault : Bool
  event : CmEvent
  /-- The CQ an event of a completion channel is for. -/
  evCq : Nat
  /-- The return value of `ibv_poll_cq`. -/
  polled : Int
  deriving DecidableEq, Repr

/-- A program of librpma. -/
abbrev P := Prog Call fun _ => Answer

/-- The calls of a run with their answers. -/
abbrev CallLog := Log Call fun _ => Answer

/-- What the world answers to each call of a run, the handles aside. -/
abbrev World := Nat → Answer

/-- The answers of a world: the `n`-th call names what it creates `n`. -/
def World.answer (world : World) (n : Nat) (_ : Call) : Answer := { world n with handle := n }

/-- A build without `DEBUG_FAULT_INJECTION`. -/
def NoFaults (world : World) : Prop := ∀ n, (world n).fault = false

/-- A call that creates an object. -/
def create (c : Call) : P (Option Nat) := do
  let a ← Prog.issue c
  return if a.ok then some a.handle else none

/-- A call that succeeds or fails. -/
def check (c : Call) : P Bool := do
  let a ← Prog.issue c
  return a.ok

/-- A call without a result, or one whose result is ignored. -/
def exec (c : Call) : P Unit := do
  let _ ← Prog.issue c
  return ()

/-- `RPMA_FAULT_INJECTION`: leave through `onFault`, or go on. -/
def faultInjection {α : Type} (onFault rest : P α) : P α := do
  let a ← Prog.issue .faultInjection
  if a.fault then onFault else rest

/-! ## Error codes (`librpma.h`) -/

def rpmaEUnknown : Int := -100000
def rpmaEProvider : Int := -100002
def rpmaENomem : Int := -100003
def rpmaEInval : Int := -100004
def rpmaENoCompletion : Int := -100005
def rpmaENoEvent : Int := -100006
def rpmaESharedChannel : Int := -100008
def rpmaENotSharedChnl : Int := -100009

/-! ## Objects -/

inductive Kind where
  | addrinfo | cmId | eventChannel | compChannel | cq | qp | mapping | mr | heap
  deriving DecidableEq, Repr

/-- An object, named by the call that created it. -/
structure Obj where
  kind : Kind
  serial : Nat
  deriving DecidableEq, Repr

/-- The `n`-th call creates an object, if it succeeds. -/
def acquireIf (ok : Bool) (k : Kind) (n : Nat) (deps : List Obj) : Effect Obj :=
  if ok then .acquire ⟨k, n⟩ deps else .keep

/-- What a call with its answer does to the objects of a run. -/
def effect (n : Nat) : (Σ _ : Call, Answer) → Effect Obj
  | ⟨.malloc _, a⟩ => acquireIf a.ok .heap n []
  | ⟨.free (some p), _⟩ => .release ⟨.heap, p⟩
  | ⟨.mmap, a⟩ => acquireIf a.ok .mapping n []
  | ⟨.munmap raw, _⟩ => .release ⟨.mapping, raw⟩
  | ⟨.rdmaGetaddrinfo _ _, a⟩ => acquireIf a.ok .addrinfo n []
  | ⟨.rdmaFreeaddrinfo rai, _⟩ => .release ⟨.addrinfo, rai⟩
  | ⟨.rdmaCreateId, a⟩ => acquireIf a.ok .cmId n []
  | ⟨.rdmaDestroyId id, _⟩ => .release ⟨.cmId, id⟩
  | ⟨.rdmaCreateQp id sendCq recvCq, a⟩ =>
    acquireIf a.ok .qp n [⟨.cmId, id⟩, ⟨.cq, sendCq⟩, ⟨.cq, recvCq⟩]
  | ⟨.rdmaDestroyQp _ qp, _⟩ => .release ⟨.qp, qp⟩
  | ⟨.rdmaCreateEventChannel, a⟩ => acquireIf a.ok .eventChannel n []
  | ⟨.rdmaDestroyEventChannel evch, _⟩ => .release ⟨.eventChannel, evch⟩
  | ⟨.rdmaMigrateId id (some evch), a⟩ =>
    if a.ok then .attach ⟨.cmId, id⟩ ⟨.eventChannel, evch⟩ else .keep
  | ⟨.rdmaMigrateId id none, a⟩ => if a.ok then .detach ⟨.cmId, id⟩ else .keep
  | ⟨.rdmaGetCmEvent _ listening, a⟩ =>
    acquireIf (a.ok && listening && a.event.event == .connectRequest) .cmId n []
  | ⟨.ibvCreateCompChannel, a⟩ => acquireIf a.ok .compChannel n []
  | ⟨.ibvDestroyCompChannel channel, _⟩ => .release ⟨.compChannel, channel⟩
  | ⟨.ibvCreateCq _ channel, a⟩ =>
    acquireIf a.ok .cq n [⟨.compChannel, channel⟩]
  | ⟨.ibvDestroyCq cq, _⟩ => .release ⟨.cq, cq⟩
  | ⟨.ibvRegMr raw _, a⟩ => acquireIf a.ok .mr n [⟨.mapping, raw⟩]
  | ⟨.ibvDeregMr mr, _⟩ => .release ⟨.mr, mr⟩
  | _ => .keep

/-- What librpma takes a call to have done: the result of `rdma_migrate_id(id, NULL)` is ignored. -/
def presumedEffect (n : Nat) : (Σ _ : Call, Answer) → Effect Obj
  | ⟨.rdmaMigrateId id none, _⟩ => .detach ⟨.cmId, id⟩
  | e => effect n e

theorem presumedEffect_cases (n : Nat) (e : Σ _ : Call, Answer) :
    presumedEffect n e = effect n e ∨ effect n e = .keep ∧ ∃ o, presumedEffect n e = .detach o := by
  unfold presumedEffect
  split
  · rename_i id a
    cases hok : a.ok
    · exact Or.inr ⟨by simp [effect, hok], _, rfl⟩
    · exact Or.inl (by simp [effect, hok])
  · exact Or.inl rfl

def Call.migratesAway : Call → Bool
  | .rdmaMigrateId _ none => true
  | _ => false

/-- Where the migration succeeds, librpma is right. -/
theorem presumedEffect_eq {n : Nat} {e : Σ _ : Call, Answer}
    (h : e.1.migratesAway = true → e.2.ok = true) : presumedEffect n e = effect n e := by
  unfold presumedEffect
  split
  · have hok := h rfl
    simp_all [effect]
  · rfl

theorem acquireIf_serial {ok : Bool} {k : Kind} {n : Nat} {deps deps' : List Obj} {o : Obj}
    (h : acquireIf ok k n deps = .acquire o deps') : o.serial = n := by
  unfold acquireIf at h
  split at h
  · cases h
    rfl
  · cases h

theorem serial_of_acquire (n : Nat) (e : Σ _ : Call, Answer) (o : Obj) (deps : List Obj)
    (h : effect n e = .acquire o deps) : o.serial = n := by
  unfold effect at h
  split at h <;> first
    | exact acquireIf_serial h
    | split at h <;> cases h
    | cases h

section Presumed

variable {n i : Nat} {e : Σ _ : Call, Answer} {o b : Obj} {deps : List Obj} {log : CallLog}

/-- The presumed effects differ in detachments only. -/
theorem presumedEffect_eq_iff {x : Effect Obj} (hkeep : x ≠ .keep) (hdet : ∀ o, x ≠ .detach o) :
    presumedEffect n e = x ↔ effect n e = x := by
  rcases presumedEffect_cases n e with h | ⟨h1, o, h2⟩
  · rw [h]
  · rw [h1, h2]
    exact iff_of_false (hdet o).symm hkeep.symm

@[simp] theorem presumedEffect_acquire :
    presumedEffect n e = .acquire o deps ↔ effect n e = .acquire o deps :=
  presumedEffect_eq_iff (by simp) (by simp)

@[simp] theorem presumedEffect_release :
    presumedEffect n e = .release o ↔ effect n e = .release o :=
  presumedEffect_eq_iff (by simp) (by simp)

@[simp] theorem presumedEffect_attach :
    presumedEffect n e = .attach o b ↔ effect n e = .attach o b :=
  presumedEffect_eq_iff (by simp) (by simp)

/-- What was detached was presumed to be. -/
theorem presumedEffect_detach (h : effect n e = .detach o) : presumedEffect n e = .detach o := by
  rcases presumedEffect_cases n e with h' | ⟨h', -⟩
  · rw [h', h]
  · rw [h] at h'
    cases h'

@[simp] theorem acquiredAt_presumed :
    AcquiredAt presumedEffect log i o ↔ AcquiredAt effect log i o :=
  eventAt_congr fun _ _ => by simp

@[simp] theorem releasedAt_presumed :
    ReleasedAt presumedEffect log i o ↔ ReleasedAt effect log i o :=
  eventAt_congr fun _ _ => by simp

@[simp] theorem dependsAt_presumed :
    DependsAt presumedEffect log i o b ↔ DependsAt effect log i o b :=
  eventAt_congr fun _ _ => by simp

theorem detachedAt_presumed (h : DetachedAt effect log i o) : DetachedAt presumedEffect log i o :=
  h.imp fun _ h => h.imp_right presumedEffect_detach

theorem dependsSince_of_presumed (h : DependsSince presumedEffect log i o b) :
    DependsSince effect log i o b := by
  refine ⟨dependsAt_presumed.mp h.1, fun k hk => ?_⟩
  obtain ⟨hrel, hdet⟩ := h.2 k hk
  exact ⟨fun hx => hrel (releasedAt_presumed.mpr hx), fun hx => hdet (detachedAt_presumed hx)⟩

theorem presumed_serial_of_acquire (n : Nat) (e : Σ _ : Call, Answer) (o : Obj) (deps : List Obj)
    (h : presumedEffect n e = .acquire o deps) : o.serial = n :=
  serial_of_acquire n e o deps (presumedEffect_acquire.mp h)

/-- What an object held under the presumed effects says of the run. -/
theorem released_once_iff_presumed {L : Multiset (Tok Obj)} (h : Owns presumedEffect log L)
    (hacq : AcquiredAt effect log i o) : (∃! j, ReleasedAt effect log j o) ↔ ¬ Held o L := by
  simpa using released_once_iff presumed_serial_of_acquire h (acquiredAt_presumed.mpr hacq)

/-- A run held under the effects is held under the presumed ones. -/
theorem owns_presumed {L : Multiset (Tok Obj)} (h : Owns effect log L) :
    ∃ L', Owns presumedEffect log L' := by
  obtain ⟨L', h', -⟩ := h.loosen presumedEffect_cases
  exact ⟨L', h'⟩

end Presumed

/-- The kinds of objects that others depend on. -/
def Kind.isBase : Kind → Bool
  | .cmId | .eventChannel | .compChannel | .cq | .mapping => true
  | _ => false

theorem acquireIf_deps {ok : Bool} {k : Kind} {n : Nat} {deps deps' : List Obj} {o : Obj}
    (h : acquireIf ok k n deps = .acquire o deps') : deps = deps' := by
  unfold acquireIf at h
  split at h
  · cases h
    rfl
  · cases h

theorem isBase_of_acquire (n : Nat) (e : Σ _ : Call, Answer) (o : Obj) (deps : List Obj)
    (h : effect n e = .acquire o deps) : ∀ b ∈ deps, b.kind.isBase = true := by
  unfold effect at h
  split at h <;> first
    | rw [← acquireIf_deps h]; simp [Kind.isBase]
    | split at h <;> cases h
    | cases h

theorem isBase_of_attach (n : Nat) (e : Σ _ : Call, Answer) (o b : Obj)
    (h : effect n e = .attach o b) : b.kind.isBase = true := by
  unfold effect at h
  split at h <;> first
    | cases h
    | split at h <;> cases h <;> rfl
    | unfold acquireIf at h; split at h <;> cases h

/-! ## The ledger assertion -/

/-- The calls that no property of runs is blind to below: the creation of a CQ, the allocations
that decide the fate of an incoming request, and `rdma_migrate_id(id, NULL)`. All others are
ordinary. -/
def Call.ordinary : Call → Bool
  | .malloc .privateData | .malloc .conn | .ibvCreateCq _ _ | .rdmaMigrateId _ none => false
  | _ => true

/-- What an ordinary call does. -/
def ordinaryEffect (n : Nat) (e : Σ _ : Call, Answer) : Option (Effect Obj) :=
  match e.1.ordinary with
  | true => some (effect n e)
  | false => none

/-- A property of runs that ordinary calls keep. -/
class Stable (I : CallLog → Prop) : Prop where
  keep : ∀ log c a, c.ordinary = true → I log → I (log ++ [⟨c, a⟩])

/-- One that the creation of a CQ keeps, too. -/
class StableCq (I : CallLog → Prop) : Prop extends Stable I where
  keep_cq : ∀ log cqe channel a, I log → I (log ++ [⟨.ibvCreateCq cqe channel, a⟩])

/-- One that every allocation keeps. -/
class StableAlloc (I : CallLog → Prop) : Prop extends Stable I where
  keep_alloc : ∀ log what a, I log → I (log ++ [⟨.malloc what, a⟩])

/-- One that survives the way in which a CM ID is taken from the event channel it depends on: it is
migrated away, with whatever result, and the channel is destroyed. -/
class StableAway (I : CallLog → Prop) : Prop extends Stable I where
  keep_away : ∀ log id evch i a a', DependsSince effect log i ⟨.cmId, id⟩ ⟨.eventChannel, evch⟩ →
    I log → I (log ++ [⟨.rdmaMigrateId id none, a⟩] ++ [⟨.rdmaDestroyEventChannel evch, a'⟩])

/-- One that nothing undoes. -/
class Lasting (I : CallLog → Prop) : Prop where
  keep : ∀ log e, I log → I (log ++ [e])

instance {I : CallLog → Prop} [Lasting I] : StableCq I where
  keep log _ _ _ h := Lasting.keep log _ h
  keep_cq log _ _ _ h := Lasting.keep log _ h

instance {I : CallLog → Prop} [Lasting I] : StableAlloc I where
  keep_alloc log _ _ h := Lasting.keep log _ h

instance {I : CallLog → Prop} [Lasting I] : StableAway I where
  keep_away log _ _ _ _ _ _ h := Lasting.keep _ _ (Lasting.keep log _ h)

instance : Lasting fun _ => True := ⟨fun _ _ h => h⟩

/-- The run so far satisfies `I` and holds `A` on top of `L`, and nothing in `L` depends on what is
in `A`. -/
structure Owned (I : CallLog → Prop) (A L : Multiset (Tok Obj)) (log : CallLog) : Prop where
  owns : Owns presumedEffect log (A + L)
  free : ∀ t ∈ A, Free t.obj L
  inv : I log

theorem effect_of_ordinary {n : Nat} {e : Σ _ : Call, Answer} {x : Effect Obj}
    (h : ordinaryEffect n e = some x) : e.1.ordinary = true ∧ presumedEffect n e = x := by
  unfold ordinaryEffect at h
  split at h
  · rename_i hord
    refine ⟨hord, ?_⟩
    unfold presumedEffect
    split
    · cases hord
    · exact Option.some.inj h
  · cases h

section Rules

variable {world : World} {I J : CallLog → Prop} {A L : Multiset (Tok Obj)} {c : Call}
  {log : CallLog}

theorem Owned.congr {A' : Multiset (Tok Obj)} (h : Owned I A L log) (hA : A = A') :
    Owned I A' L log := hA ▸ h

theorem exec_triple {Q : CallLog → Prop} {R : CallLog → Prop}
    (h : Prog.Triple world.answer R (Prog.issue c) fun _ => Q) :
    Prog.Triple world.answer R (exec c) fun _ => Q := h.bind fun _ => .pure fun _ h => h

theorem check_triple {Q : Bool → CallLog → Prop} {R : CallLog → Prop}
    (h : Prog.Triple world.answer R (Prog.issue c) fun a => Q a.ok) :
    Prog.Triple world.answer R (check c) Q := h.bind fun _ => .pure fun _ h => h

/-- Creating an object that depends on held ones, by any call. -/
theorem Owned.acquire {k : Kind} {deps : List Obj} {a : Answer} (h : Owned I A L log)
    (hc : presumedEffect log.length ⟨c, a⟩ = .acquire ⟨k, log.length⟩ deps)
    (hheld : ∀ b ∈ deps, Held b (A + L)) (hJ : J (log ++ [⟨c, a⟩])) :
    Owned J (⟨⟨k, log.length⟩, deps⟩ ::ₘ A) L (log ++ [⟨c, a⟩]) ∧ Free ⟨k, log.length⟩ A := by
  have hfree : Free ⟨k, log.length⟩ (A + L) := h.owns.free presumed_serial_of_acquire (Nat.le_refl _)
  rw [free_add] at hfree
  refine ⟨⟨?_, fun t ht => ?_, hJ⟩, hfree.1⟩
  · rw [Multiset.cons_add]
    exact h.owns.acquire hc hheld
  · rcases Multiset.mem_cons.mp ht with rfl | ht
    · exact hfree.2
    · exact h.free t ht

/-- Creating an object by a call whose answer may change what is known of the run. -/
theorem create_triple {k : Kind} {deps : List Obj} {K : CallLog → Prop}
    (hc : ∀ n a, presumedEffect n ⟨c, a⟩ = acquireIf a.ok k n deps)
    (hheld : ∀ b ∈ deps, Held b (A + L))
    (hok : ∀ log a, a.ok = true → I log → J (log ++ [⟨c, a⟩]))
    (hfail : ∀ log a, a.ok = false → I log → K (log ++ [⟨c, a⟩])) :
    Prog.Triple world.answer (Owned I A L) (create c) fun r log => match r with
      | none => Owned K A L log
      | some n => Owned J (⟨⟨k, n⟩, deps⟩ ::ₘ A) L log ∧ Free ⟨k, n⟩ A := by
  have hissue : Prog.Triple world.answer (Owned I A L) (Prog.issue c) fun a log =>
      if a.ok then Owned J (⟨⟨k, a.handle⟩, deps⟩ ::ₘ A) L log ∧ Free ⟨k, a.handle⟩ A
      else Owned K A L log := by
    refine .issue fun log h => ?_
    split
    · rename_i ha
      exact h.acquire (by rw [hc, acquireIf, if_pos ha]) hheld (hok _ _ ha h.inv)
    · rename_i ha
      refine ⟨h.owns.keep ?_, h.free, hfail _ _ (by simpa using ha) h.inv⟩
      rw [hc, acquireIf, if_neg ha]
  refine hissue.bind fun a => .pure fun log h => ?_
  cases hok : a.ok <;> simpa [hok] using h

theorem Owned.unframe {F : Multiset (Tok Obj)} (h : Owned I A (F + L) log)
    (hF : ∀ t ∈ F, Free t.obj L) : Owned I (A + F) L log := by
  refine ⟨by simpa [add_assoc] using h.owns, fun t ht => ?_, h.inv⟩
  rcases Multiset.mem_add.mp ht with ht | ht
  · exact ((free_add _ _ _).mp (h.free t ht)).2
  · exact hF t ht

/-- **The frame rule**: what `m` does to `A` it does next to any `F` that does not depend on `A`. -/
theorem frame_triple {α : Type} {m : P α} {Q Q' : α → CallLog → Prop} (F : Multiset (Tok Obj))
    (h : Prog.Triple world.answer (Owned I A (F + L)) m Q) (hF : ∀ t ∈ A, Free t.obj F)
    (hq : (∀ t ∈ F, Free t.obj L) → ∀ r log, Q r log → Q' r log) :
    Prog.Triple world.answer (Owned I (A + F) L) m Q' := by
  intro log hlog
  have hL : ∀ t ∈ F, Free t.obj L := fun t ht => hlog.free t (Multiset.mem_add.mpr (Or.inr ht))
  refine hq hL _ _ (h log ⟨by simpa [add_assoc] using hlog.owns, fun t ht => ?_, hlog.inv⟩)
  exact (free_add _ _ _).mpr ⟨hF t ht, hlog.free t (Multiset.mem_add.mpr (Or.inl ht))⟩

variable [Stable I]

theorem Owned.stable (h : Owned I A L log) {a : Answer} (hc : c.ordinary = true) :
    I (log ++ [⟨c, a⟩]) := Stable.keep _ _ _ hc h.inv

/-- A call that leaves the objects alone. -/
theorem issue_keep (hc : ∀ n a, ordinaryEffect n ⟨c, a⟩ = some .keep) :
    Prog.Triple world.answer (Owned I A L) (Prog.issue c) fun _ => Owned I A L := by
  refine .issue fun log h => ?_
  obtain ⟨hord, he⟩ := effect_of_ordinary (hc log.length (world.answer log.length c))
  exact ⟨h.owns.keep he, h.free, h.stable hord⟩

theorem exec_keep (hc : ∀ n a, ordinaryEffect n ⟨c, a⟩ = some .keep) :
    Prog.Triple world.answer (Owned I A L) (exec c) fun _ => Owned I A L :=
  exec_triple (issue_keep hc)

theorem check_keep (hc : ∀ n a, ordinaryEffect n ⟨c, a⟩ = some .keep) :
    Prog.Triple world.answer (Owned I A L) (check c) fun _ => Owned I A L :=
  check_triple (issue_keep hc)

/-- Creating an object that depends on held ones. -/
theorem issue_acquire {k : Kind} {deps : List Obj}
    (hc : ∀ n a, ordinaryEffect n ⟨c, a⟩ = some (acquireIf a.ok k n deps))
    (hheld : ∀ b ∈ deps, Held b (A + L)) :
    Prog.Triple world.answer (Owned I A L) (Prog.issue c) fun a log =>
      if a.ok then Owned I (⟨⟨k, a.handle⟩, deps⟩ ::ₘ A) L log ∧ Free ⟨k, a.handle⟩ A
      else Owned I A L log := by
  refine .issue fun log h => ?_
  obtain ⟨hord, he⟩ := effect_of_ordinary (hc log.length (world.answer log.length c))
  split
  · rename_i hok
    exact h.acquire (by rw [he, acquireIf, if_pos hok]) hheld (h.stable hord)
  · rename_i hok
    exact ⟨h.owns.keep (by rw [he, acquireIf, if_neg hok]), h.free, h.stable hord⟩

theorem create_acquire {k : Kind} {deps : List Obj}
    (hc : ∀ n a, ordinaryEffect n ⟨c, a⟩ = some (acquireIf a.ok k n deps))
    (hheld : ∀ b ∈ deps, Held b (A + L)) :
    Prog.Triple world.answer (Owned I A L) (create c) fun r log => match r with
      | none => Owned I A L log
      | some n => Owned I (⟨⟨k, n⟩, deps⟩ ::ₘ A) L log ∧ Free ⟨k, n⟩ A := by
  refine (issue_acquire hc hheld).bind fun a => .pure fun log h => ?_
  cases hok : a.ok <;> simpa [hok] using h

/-- Releasing an object that nothing held depends on leaves `A'`. -/
theorem issue_release (A' : Multiset (Tok Obj)) (deps : List Obj) {o : Obj}
    (hc : ∀ n a, ordinaryEffect n ⟨c, a⟩ = some (.release o)) (hA : A = ⟨o, deps⟩ ::ₘ A')
    (hself : o ∉ deps) (hfree : Free o A') :
    Prog.Triple world.answer (Owned I A L) (Prog.issue c) fun _ => Owned I A' L := by
  subst hA
  refine .issue fun log h => ?_
  obtain ⟨hord, he⟩ := effect_of_ordinary (hc log.length (world.answer log.length c))
  refine ⟨?_, fun t ht => h.free t (Multiset.mem_cons_of_mem ht), h.stable hord⟩
  have howns := h.owns
  rw [Multiset.cons_add] at howns
  exact howns.release he hself
    ((free_add _ _ _).mpr ⟨hfree, h.free _ (Multiset.mem_cons_self _ _)⟩)

/-- Releasing an object of a kind that nothing ever depends on. -/
theorem issue_release_leaf (A' : Multiset (Tok Obj)) (deps : List Obj) {o : Obj}
    (hc : ∀ n a, ordinaryEffect n ⟨c, a⟩ = some (.release o)) (hA : A = ⟨o, deps⟩ ::ₘ A')
    (hk : o.kind.isBase = false) :
    Prog.Triple world.answer (Owned I A L) (Prog.issue c) fun _ => Owned I A' L := by
  intro log h
  have hfree : Free o (A + L) :=
    h.owns.free_of_not_base
      (fun n e o deps h => isBase_of_acquire n e o deps (presumedEffect_acquire.mp h))
      (fun n e o b h => isBase_of_attach n e o b (presumedEffect_attach.mp h)) (by simp [hk])
  rw [hA, free_add, free_cons] at hfree
  exact issue_release A' deps hc hA hfree.1.1 hfree.1.2 log h

theorem exec_release (A' : Multiset (Tok Obj)) (deps : List Obj) {o : Obj}
    (hc : ∀ n a, ordinaryEffect n ⟨c, a⟩ = some (.release o)) (hA : A = ⟨o, deps⟩ ::ₘ A')
    (hself : o ∉ deps) (hfree : Free o A') :
    Prog.Triple world.answer (Owned I A L) (exec c) fun _ => Owned I A' L :=
  exec_triple (issue_release A' deps hc hA hself hfree)

theorem check_release (A' : Multiset (Tok Obj)) (deps : List Obj) {o : Obj}
    (hc : ∀ n a, ordinaryEffect n ⟨c, a⟩ = some (.release o)) (hA : A = ⟨o, deps⟩ ::ₘ A')
    (hself : o ∉ deps) (hfree : Free o A') :
    Prog.Triple world.answer (Owned I A L) (check c) fun _ => Owned I A' L :=
  check_triple (issue_release A' deps hc hA hself hfree)

theorem exec_release_leaf (A' : Multiset (Tok Obj)) (deps : List Obj) {o : Obj}
    (hc : ∀ n a, ordinaryEffect n ⟨c, a⟩ = some (.release o)) (hA : A = ⟨o, deps⟩ ::ₘ A')
    (hk : o.kind.isBase = false) :
    Prog.Triple world.answer (Owned I A L) (exec c) fun _ => Owned I A' L :=
  exec_triple (issue_release_leaf A' deps hc hA hk)

theorem check_release_leaf (A' : Multiset (Tok Obj)) (deps : List Obj) {o : Obj}
    (hc : ∀ n a, ordinaryEffect n ⟨c, a⟩ = some (.release o)) (hA : A = ⟨o, deps⟩ ::ₘ A')
    (hk : o.kind.isBase = false) :
    Prog.Triple world.answer (Owned I A L) (check c) fun _ => Owned I A' L :=
  check_triple (issue_release_leaf A' deps hc hA hk)

/-- Migrating a CM ID to a held event channel makes it depend on the channel. -/
theorem check_migrate {id evch : Nat} {deps : List Obj} (hheld : Held ⟨.eventChannel, evch⟩ (A + L))
    (hc : c = .rdmaMigrateId id (some evch)) :
    Prog.Triple world.answer (Owned I (⟨⟨.cmId, id⟩, deps⟩ ::ₘ A) L) (check c) fun ok =>
      if ok then Owned I (⟨⟨.cmId, id⟩, ⟨.eventChannel, evch⟩ :: deps⟩ ::ₘ A) L
      else Owned I (⟨⟨.cmId, id⟩, deps⟩ ::ₘ A) L := by
  subst hc
  refine check_triple (.issue fun log h => ?_)
  have howns := h.owns
  rw [Multiset.cons_add] at howns
  split
  · rename_i hok
    refine ⟨?_, fun t ht => ?_, h.stable rfl⟩
    · rw [Multiset.cons_add]
      exact howns.attach (by simp [presumedEffect, effect, hok]) hheld
    · rcases Multiset.mem_cons.mp ht with rfl | ht
      · exact h.free ⟨⟨.cmId, id⟩, deps⟩ (Multiset.mem_cons_self _ _)
      · exact h.free t (Multiset.mem_cons_of_mem ht)
  · rename_i hok
    exact ⟨h.owns.keep (by simp [presumedEffect, effect, hok]), h.free, h.stable rfl⟩

/-- A fault injection point leaves the objects alone, whichever way it goes. -/
theorem faultInjection_triple {α : Type} {onFault rest : P α} {Q : α → CallLog → Prop}
    (hf : Prog.Triple world.answer (Owned I A L) onFault Q)
    (h : Prog.Triple world.answer (Owned I A L) rest Q) :
    Prog.Triple world.answer (Owned I A L) (faultInjection onFault rest) Q := by
  refine (issue_keep fun _ _ => rfl).bind fun a => ?_
  split
  · exact hf
  · exact h

/-- Migrating a CM ID away and destroying the event channel it depended on. -/
theorem exec_migrate_away {I : CallLog → Prop} [StableAway I] {id evch : Nat}
    (hfree : Free ⟨.eventChannel, evch⟩ A) :
    Prog.Triple world.answer (Owned I (⟨⟨.cmId, id⟩, [⟨.eventChannel, evch⟩]⟩ ::ₘ
        ⟨⟨.eventChannel, evch⟩, []⟩ ::ₘ A) L)
      (do exec (.rdmaMigrateId id none); exec (.rdmaDestroyEventChannel evch))
      fun _ => Owned I (⟨⟨.cmId, id⟩, []⟩ ::ₘ A) L := by
  have haway : Prog.Triple world.answer (Owned I (⟨⟨.cmId, id⟩, [⟨.eventChannel, evch⟩]⟩ ::ₘ
        ⟨⟨.eventChannel, evch⟩, []⟩ ::ₘ A) L) (exec (.rdmaMigrateId id none)) fun _ log =>
      ∃ log₀ a, log = log₀ ++ [⟨.rdmaMigrateId id none, a⟩] ∧
        Owned I (⟨⟨.cmId, id⟩, [⟨.eventChannel, evch⟩]⟩ ::ₘ
          ⟨⟨.eventChannel, evch⟩, []⟩ ::ₘ A) L log₀ :=
    exec_triple (.issue fun log h => ⟨log, _, rfl, h⟩)
  refine haway.bind fun _ => exec_triple (.issue ?_)
  rintro _ ⟨log, a, rfl, h⟩
  obtain ⟨i, hi⟩ := h.owns.dependsSince presumed_serial_of_acquire
    (Multiset.mem_add.mpr (Or.inl (Multiset.mem_cons_self _ _))) List.mem_cons_self
  have howns := h.owns
  simp only [Multiset.cons_add] at howns
  refine ⟨?_, fun t ht => ?_, StableAway.keep_away _ _ _ i _ _ (dependsSince_of_presumed hi) h.inv⟩
  -- the CM ID depends on nothing now, so nothing depends on the channel
  · have hdet := howns.detach (e := ⟨.rdmaMigrateId id none, a⟩) rfl
    rw [Multiset.cons_swap] at hdet
    rw [Multiset.cons_add]
    refine hdet.release rfl List.not_mem_nil ?_
    have hL := h.free ⟨⟨.eventChannel, evch⟩, []⟩ (by simp)
    simp [hfree, hL]
  · rcases Multiset.mem_cons.mp ht with rfl | ht
    · exact h.free ⟨⟨.cmId, id⟩, [⟨.eventChannel, evch⟩]⟩ (Multiset.mem_cons_self _ _)
    · exact h.free t (by simp [ht])

end Rules

/-- A call that destroys something and can report a failure did not. -/
def DestroySucceeded : (Σ _ : Call, Answer) → Prop
  | ⟨.munmap _, a⟩ | ⟨.rdmaDestroyId _, a⟩ | ⟨.ibvDestroyCompChannel _, a⟩
  | ⟨.ibvDestroyCq _, a⟩ | ⟨.ibvDeregMr _, a⟩ => a.ok = true
  | _ => True

end Rpma.Librpma
