import Rpma.Hopscotch.Resize

/-!
# Runs of the hopscotch table

A caller's program is any sequence of `Op`: the four table operations, and `write`, which changes
memory behind the pointers (`Allowed`: never the bytes of a key while the table holds it).
`Run hash keylen s m` says that `s` is reached from `hopscotch_init` by such a sequence and that
`m` is the map the return codes seen on the way describe (`mapStep`).

* `run_inv`: every reached table satisfies `WF` and stands for `m`.
-/

namespace Rpma.Hopscotch

open HashTable (SameShape)

variable {P D : Type}

/-- One step of a caller. -/
inductive Op (P D : Type) where
  | insert (key : P) (data : D)
  | remove (key : P)
  | lookup (key : P)
  | resize (malloced : Bool) (delta : Int)
  | write (mem : Mem P)

/-- What a step returns: a result code, a data pointer, or nothing. -/
inductive Ret (D : Type) where
  | code (c : Int)
  | data (d : Option D)
  | unit

/-- Memory and table. -/
structure State (P D : Type) where
  mem : Mem P
  ht : HashTable P D

/-- Run one operation. -/
def step (hash : Hash) (s : State P D) : Op P D → Except Fault (Ret D × State P D)
  | .insert key data => do
    let (ret, ht) ← hopscotchInsert hash s.mem s.ht key (some data)
    return (.code ret, ⟨s.mem, ht⟩)
  | .remove key => do
    let (data, ht) ← hopscotchRemove hash s.mem s.ht key
    return (.data data, ⟨s.mem, ht⟩)
  | .lookup key => do
    return (.data (← hopscotchLookup hash s.mem s.ht key), s)
  | .resize malloced delta => do
    let (ret, ht) ← hopscotchResize hash s.mem malloced s.ht delta
    return (.code ret, ⟨s.mem, ht⟩)
  | .write mem => return (.unit, ⟨mem, s.ht⟩)

/-- `sizeof(struct hopscotch_bucket)`: two pointers and a `uint32_t`, 8-byte aligned. -/
def bucketSize : Nat := 24

/-- What callers owe: the new exponent is non-negative and its buckets fit in `size_t`, and the
bytes of a stored key do not change. -/
def Allowed (s : State P D) : Op P D → Prop
  | .resize _ delta =>
    0 ≤ (s.ht.exponent : Int) + delta ∧
      bucketSize * 2 ^ ((s.ht.exponent : Int) + delta).toNat < 2 ^ 64
  | .write mem => ∀ t < s.ht.sz, ∀ p, (s.ht.buckets t).key = some p →
      keyBytes mem s.ht.keylen p = keyBytes s.mem s.ht.keylen p
  | _ => True

/-- What a step and its return code say about the map. -/
def mapStep (s : State P D) (m : List UInt8 → Option D) : Op P D → Ret D → List UInt8 → Option D
  | .insert key data, .code c =>
    if c = 0 ∨ c = -4 then Function.update m (keyBytes s.mem s.ht.keylen key) (some data) else m
  | .remove key, _ => Function.update m (keyBytes s.mem s.ht.keylen key) none
  | _, _ => m

/-- `s` is reached from `hopscotch_init`, and the return codes on the way describe `m`. -/
inductive Run (hash : Hash) (keylen : Nat) : State P D → (List UInt8 → Option D) → Prop
  | init (mem : Mem P) : Run hash keylen ⟨mem, hopscotchInit keylen⟩ fun _ => none
  | step {s s' : State P D} {m : List UInt8 → Option D} {op : Op P D} {r : Ret D}
      (h : Run hash keylen s m) (ha : Allowed s op) (hs : step hash s op = .ok (r, s')) :
      Run hash keylen s' (mapStep s m op r)

/-! ## The invariant of a run -/

section Inv

variable {hash : Hash} {mem mem' : Mem P} {ht : HashTable P D}

/-- Memory that agrees on the stored keys holds the same keys. -/
theorem holds_congr (hw : ∀ t < ht.sz, ∀ p, (ht.buckets t).key = some p →
    keyBytes mem' ht.keylen p = keyBytes mem ht.keylen p) (kb : List UInt8) (s : Nat) :
    Holds mem' ht kb s ↔ Holds mem ht kb s := by
  constructor
  · rintro ⟨hs, p, hp, hb⟩
    exact ⟨hs, p, hp, (hw s hs p hp).symm.trans hb⟩
  · rintro ⟨hs, p, hp, hb⟩
    exact ⟨hs, p, hp, (hw s hs p hp).trans hb⟩

theorem WF.write (hwf : WF hash mem ht) (hw : ∀ t < ht.sz, ∀ p, (ht.buckets t).key = some p →
    keyBytes mem' ht.keylen p = keyBytes mem ht.keylen p) : WF hash mem' ht := by
  have hhome : ∀ t < ht.sz, ∀ p, (ht.buckets t).key = some p →
      homeIdx hash mem' ht p = homeIdx hash mem ht p := by
    intro t ht' p hp
    unfold homeIdx
    rw [hw t ht' p hp]
  constructor
  · intro b hb i hi
    rw [hwf.bit_iff b hb i hi]
    refine and_congr_right fun hlt => exists_congr fun p => and_congr_right fun hp => ?_
    rw [hhome (b + i) hlt p hp]
  · intro s hs p hp
    rw [hhome s hs p hp]
    exact hwf.near s hs p hp
  · intro kb s t hs ht'
    exact hwf.distinct kb s t ((holds_congr hw kb s).mp hs) ((holds_congr hw kb t).mp ht')
  · exact hwf.data_some

theorem Rep.write {m : List UInt8 → Option D} (hm : Rep mem ht m)
    (hw : ∀ t < ht.sz, ∀ p, (ht.buckets t).key = some p →
      keyBytes mem' ht.keylen p = keyBytes mem ht.keylen p) : Rep mem' ht m := by
  intro kb d
  rw [hm kb d]
  exact exists_congr fun s => and_congr_left fun _ => (holds_congr hw kb s).symm

/-- An insertion's outcome keeps the invariant, and its code tells the map. -/
theorem InsertOutcome.rep (hwf : WF hash mem ht) {m : List UInt8 → Option D} (hm : Rep mem ht m)
    {key : P} {d : D} {ret : Int} {ht' : HashTable P D}
    (h : InsertOutcome hash mem ht m key d ret ht') :
    WF hash mem ht' ∧ SameShape ht' ht ∧ Rep mem ht'
      (if ret = 0 ∨ ret = -4 then Function.update m (keyBytes mem ht.keylen key) (some d)
        else m) := by
  cases h with
  | present _ => exact ⟨hwf, ⟨rfl, rfl⟩, by simpa using hm⟩
  | full _ _ => exact ⟨hwf, ⟨rfl, rfl⟩, by simpa using hm⟩
  | stuck _ _ _ hwf' hm' hsh _ _ _ _ => exact ⟨hwf', hsh, by simpa using hm'⟩
  | stored _ _ _ hwf' hm' hsh hret => exact ⟨hwf', hsh, by rw [if_pos hret]; exact hm'⟩

/-- **Every reached table satisfies the invariant** and stands for the map its return codes
describe. -/
theorem run_inv {keylen : Nat} {s : State P D} {m : List UInt8 → Option D}
    (h : Run hash keylen s m) :
    WF hash s.mem s.ht ∧ Rep s.mem s.ht m ∧ s.ht.keylen = keylen := by
  induction h with
  | init mem => exact ⟨WF.empty _ _, Rep.empty _ _, rfl⟩
  | @step s s' m op r _ ha hs ih =>
    obtain ⟨hwf, hm, hkl⟩ := ih
    cases op with
    | insert key data =>
      obtain ⟨ret, ht', hins, hout⟩ := hopscotchInsert_spec hwf hm key data
      simp only [step, hins, ok_bind, pure_eq_ok, Except.ok.injEq, Prod.mk.injEq] at hs
      obtain ⟨rfl, rfl⟩ := hs
      obtain ⟨hwf', hsh, hm'⟩ := hout.rep hwf hm
      exact ⟨hwf', hm', hsh.2.trans hkl⟩
    | remove key =>
      obtain ⟨ht', hrem, hwf', hsh, hm', -⟩ := hopscotchRemove_spec hwf hm key
      simp only [step, hrem, ok_bind, pure_eq_ok, Except.ok.injEq, Prod.mk.injEq] at hs
      obtain ⟨rfl, rfl⟩ := hs
      exact ⟨hwf', hm', hsh.2.trans hkl⟩
    | lookup key =>
      simp only [step, hopscotchLookup_spec hwf hm key, ok_bind, pure_eq_ok, Except.ok.injEq,
        Prod.mk.injEq] at hs
      obtain ⟨rfl, rfl⟩ := hs
      exact ⟨hwf, hm, hkl⟩
    | resize malloced delta =>
      obtain ⟨ret, ht', hres, hout⟩ := hopscotchResize_spec hwf hm malloced delta
      simp only [step, hres, ok_bind, pure_eq_ok, Except.ok.injEq, Prod.mk.injEq] at hs
      obtain ⟨rfl, rfl⟩ := hs
      rcases hout with ⟨-, rfl⟩ | ⟨-, hwf', hm', -, hkl'⟩
      · exact ⟨hwf, hm, hkl⟩
      · exact ⟨hwf', hm', hkl'.trans hkl⟩
    | write mem =>
      simp only [step, pure_eq_ok, Except.ok.injEq, Prod.mk.injEq] at hs
      obtain ⟨rfl, rfl⟩ := hs
      exact ⟨hwf.write ha, hm.write ha, hkl⟩

end Inv

end Rpma.Hopscotch
