import Mathlib.Logic.Function.Basic
import Mathlib.Data.List.OfFn
import Mathlib.Data.Set.Basic

/-!
# Persistent memory and power failures

Memory in words of eight bytes. A store is seen at once and becomes durable later, by itself or when
the word is persisted; a power failure leaves each word with one of its versions since then, so a
store of one aligned word is atomic, and of what was stored into several words any part can be lost.

* `Pmem.Crash p img`: a power failure can leave the image `img` of `p`.
* `Pmem.Within p x S`: the byte at `x` is one of `S`, whatever happens; `Pmem.Holds p x b`: it is `b`.
  **`holds_persist`**: what has been persisted.
* `Pmem.Among p u S`: the word `u` is one of `S`, whatever happens.
* `MemOp`: the stores and persists of a program.
-/

namespace Rpma.Lib

/-- The bytes at each address. -/
abbrev Image := Nat → UInt8

/-- An aligned word. -/
abbrev Word := Fin 8 → UInt8

/-- The place of an address in its word. -/
def place (x : Nat) : Fin 8 := ⟨x % 8, Nat.mod_lt x (by omega)⟩

/-- Of each word the durable version, and those that were stored later, the oldest first. -/
structure Pmem where
  durable : Nat → Word
  later : Nat → List Word

namespace Pmem

/-- After a power failure that has left `img`. -/
def ofImage (img : Image) : Pmem := ⟨fun u j => img (8 * u + j), fun _ => []⟩

def versions (p : Pmem) (u : Nat) : List Word := p.durable u :: p.later u

/-- The word as the processors and the devices see it. -/
def last (p : Pmem) (u : Nat) : Word := (p.later u).getLastD (p.durable u)

def read (p : Pmem) (x : Nat) : UInt8 := p.last (x / 8) (place x)

def storeWord (p : Pmem) (u : Nat) (w : Word) : Pmem :=
  { p with later := Function.update p.later u (p.later u ++ [w]) }

def storeByte (p : Pmem) (x : Nat) (b : UInt8) : Pmem :=
  p.storeWord (x / 8) (Function.update (p.last (x / 8)) (place x) b)

def storeBytes (p : Pmem) (a : Nat) : List UInt8 → Pmem
  | [] => p
  | b :: bs => (p.storeByte a b).storeBytes (a + 1) bs

/-- The words that share a byte with `n` bytes from `a` on. -/
def Covers (a n u : Nat) : Prop := 8 * u < a + n ∧ a < 8 * u + 8

instance (a n u : Nat) : Decidable (Covers a n u) := inferInstanceAs (Decidable (_ ∧ _))

/-- `n` bytes from `a` on are made durable. -/
def persist (p : Pmem) (a n : Nat) : Pmem where
  durable u := if Covers a n u then p.last u else p.durable u
  later u := if Covers a n u then [] else p.later u

/-- What a power failure can leave. -/
def Crash (p : Pmem) (img : Image) : Prop :=
  ∃ kept : Nat → Word, (∀ u, kept u ∈ p.versions u) ∧ ∀ x, img x = kept (x / 8) (place x)

/-- The byte at `x` is in `S` in every version. -/
def Within (p : Pmem) (x : Nat) (S : Set UInt8) : Prop :=
  ∀ w ∈ p.versions (x / 8), w (place x) ∈ S

/-- The byte at `x` is `b` in every version. -/
def Holds (p : Pmem) (x : Nat) (b : UInt8) : Prop :=
  ∀ w ∈ p.versions (x / 8), w (place x) = b

/-- Every version of the word `u` is in `S`. -/
def Among (p : Pmem) (u : Nat) (S : Set Word) : Prop := ∀ w ∈ p.versions u, w ∈ S

section

variable {p : Pmem} {a n u x y : Nat} {b c : UInt8} {w : Word} {bs : List UInt8} {S T : Set Word}
  {B C : Set UInt8} {img : Image}

theorem last_mem (p : Pmem) (u : Nat) : p.last u ∈ p.versions u := by
  unfold last versions
  rw [List.getLastD_eq_getLast?]
  cases h : (p.later u).getLast? with
  | none => exact List.mem_cons_self
  | some w => exact List.mem_cons_of_mem _ (List.mem_of_getLast? h)

theorem Within.read (h : p.Within x B) : p.read x ∈ B := h _ (p.last_mem _)

theorem Within.crash (h : p.Within x B) (hc : p.Crash img) : img x ∈ B := by
  obtain ⟨kept, hkept, himg⟩ := hc
  rw [himg]
  exact h _ (hkept _)

theorem Within.mono (h : p.Within x B) (hBC : B ⊆ C) : p.Within x C := fun w hw => hBC (h w hw)

theorem holds_iff : p.Holds x b ↔ p.Within x {b} := Iff.rfl

theorem Holds.within (h : p.Holds x b) (hb : b ∈ B) : p.Within x B := fun w hw => h w hw ▸ hb

theorem Holds.read (h : p.Holds x b) : p.read x = b := h _ (p.last_mem _)

theorem Holds.crash (h : p.Holds x b) (hc : p.Crash img) : img x = b := (holds_iff.mp h).crash hc

theorem Among.last (h : p.Among u S) : p.last u ∈ S := h _ (p.last_mem _)

theorem Among.mono (h : p.Among u S) (hST : S ⊆ T) : p.Among u T := fun w hw => hST (h w hw)

/-! ### Stores of words -/

theorem versions_storeWord_self (p : Pmem) (u : Nat) (w : Word) :
    (p.storeWord u w).versions u = p.versions u ++ [w] := by
  simp [versions, storeWord]

theorem versions_storeWord_of_ne {v : Nat} (h : v ≠ u) (p : Pmem) (w : Word) :
    (p.storeWord u w).versions v = p.versions v := by
  simp [versions, storeWord, h]

@[simp] theorem last_storeWord_self (p : Pmem) (u : Nat) (w : Word) :
    (p.storeWord u w).last u = w := by
  simp [last, storeWord]

theorem last_storeWord_of_ne {v : Nat} (h : v ≠ u) (p : Pmem) (w : Word) :
    (p.storeWord u w).last v = p.last v := by
  simp [last, storeWord, h]

theorem Within.storeWord (h : p.Within x B) (hw : x / 8 = u → w (place x) ∈ B) :
    (p.storeWord u w).Within x B := by
  intro v hv
  by_cases hu : x / 8 = u
  · rw [hu, versions_storeWord_self] at hv
    rcases List.mem_append.mp hv with hv | hv
    · exact h v (hu ▸ hv)
    · exact List.mem_singleton.mp hv ▸ hw hu
  · rw [versions_storeWord_of_ne hu] at hv
    exact h v hv

theorem Holds.storeWord (h : p.Holds x b) (hw : x / 8 = u → w (place x) = b) :
    (p.storeWord u w).Holds x b := holds_iff.mpr ((holds_iff.mp h).storeWord hw)

theorem Among.storeWord (h : p.Among u S) (hw : w ∈ S) : (p.storeWord u w).Among u S := by
  intro v hv
  rw [versions_storeWord_self] at hv
  rcases List.mem_append.mp hv with hv | hv
  · exact h v hv
  · exact List.mem_singleton.mp hv ▸ hw

theorem Among.storeWord_of_ne {v : Nat} (h : p.Among v S) (hv : v ≠ u) :
    (p.storeWord u w).Among v S := by
  intro w' hw'
  rw [versions_storeWord_of_ne hv] at hw'
  exact h w' hw'

/-! ### Stores of bytes -/

/-- Two addresses are the same if word and place are. -/
theorem place_ne (h : x ≠ y) (hw : x / 8 = y / 8) : place x ≠ place y := by
  intro hp
  have hmod : x % 8 = y % 8 := congrArg Fin.val hp
  omega

theorem Within.storeByte (h : p.Within x B) (hc : x = y → c ∈ B) :
    (p.storeByte y c).Within x B := by
  refine Within.storeWord h fun hw => ?_
  by_cases hxy : x = y
  · subst hxy
    rw [Function.update_self]
    exact hc rfl
  · rw [Function.update_of_ne (place_ne hxy hw), ← hw]
    exact h _ (p.last_mem _)

@[simp] theorem read_storeByte_self (p : Pmem) (x : Nat) (b : UInt8) :
    (p.storeByte x b).read x = b := by
  simp [read, storeByte]

theorem read_storeByte_of_ne (h : x ≠ y) (p : Pmem) (b : UInt8) :
    (p.storeByte y b).read x = p.read x := by
  unfold read storeByte
  by_cases hw : x / 8 = y / 8
  · rw [hw, last_storeWord_self, Function.update_of_ne (place_ne h hw)]
  · rw [last_storeWord_of_ne hw]

theorem Within.storeBytes (h : p.Within x B)
    (hbs : ∀ i (hi : i < bs.length), x = a + i → bs[i] ∈ B) : (p.storeBytes a bs).Within x B := by
  induction bs generalizing p a with
  | nil => exact h
  | cons c bs ih =>
    refine ih (h.storeByte (hbs 0 (Nat.zero_lt_succ _))) fun i hi hx => ?_
    exact hbs (i + 1) (Nat.succ_lt_succ hi) (by omega)

theorem Holds.storeBytes (h : p.Holds x b) (hx : x < a ∨ a + bs.length ≤ x) :
    (p.storeBytes a bs).Holds x b :=
  holds_iff.mpr ((holds_iff.mp h).storeBytes fun i hi hxi => by omega)

theorem storeBytes_append (p : Pmem) (a : Nat) (bs cs : List UInt8) :
    p.storeBytes a (bs ++ cs) = (p.storeBytes a bs).storeBytes (a + bs.length) cs := by
  induction bs generalizing p a with
  | nil => rfl
  | cons b bs ih =>
    have hlen : a + (bs.length + 1) = a + 1 + bs.length := by omega
    rw [List.cons_append, storeBytes, ih, List.length_cons, hlen]
    rfl

theorem read_storeBytes_of_lt (h : x < a) (p : Pmem) (bs : List UInt8) :
    (p.storeBytes a bs).read x = p.read x := by
  induction bs generalizing p a with
  | nil => rfl
  | cons c bs ih =>
    rw [storeBytes, ih (by omega), read_storeByte_of_ne (by omega)]

/-- What has been stored is seen. -/
theorem read_storeBytes (p : Pmem) (a : Nat) (bs : List UInt8) (i : Nat) (hi : i < bs.length) :
    (p.storeBytes a bs).read (a + i) = bs[i] := by
  induction bs generalizing p a i with
  | nil => exact absurd hi (Nat.not_lt_zero i)
  | cons c bs ih =>
    cases i with
    | zero =>
      rw [storeBytes, read_storeBytes_of_lt (by omega)]
      exact read_storeByte_self p a c
    | succ i =>
      have h := ih (p.storeByte a c) (a + 1) i (by simpa using hi)
      rwa [Nat.add_right_comm] at h

theorem versions_storeBytes (h : 8 * u + 8 ≤ a ∨ a + bs.length ≤ 8 * u) (p : Pmem) :
    (p.storeBytes a bs).versions u = p.versions u := by
  induction bs generalizing p a with
  | nil => rfl
  | cons c bs ih =>
    rw [List.length_cons] at h
    rw [storeBytes, ih (by omega), storeByte, versions_storeWord_of_ne (by omega)]

theorem last_storeBytes (h : 8 * u + 8 ≤ a ∨ a + bs.length ≤ 8 * u) (p : Pmem) :
    (p.storeBytes a bs).last u = p.last u := by
  induction bs generalizing p a with
  | nil => rfl
  | cons c bs ih =>
    rw [List.length_cons] at h
    rw [storeBytes, ih (by omega), storeByte, last_storeWord_of_ne (by omega)]

theorem Among.storeBytes (h : p.Among u S) (hu : 8 * u + 8 ≤ a ∨ a + bs.length ≤ 8 * u) :
    (p.storeBytes a bs).Among u S := by
  intro w hw
  rw [versions_storeBytes hu] at hw
  exact h w hw

/-! ### Persisting -/

@[simp] theorem last_persist (p : Pmem) (a n u : Nat) : (p.persist a n).last u = p.last u := by
  unfold last persist
  dsimp only
  split
  · rfl
  · rfl

theorem versions_persist (p : Pmem) (a n u : Nat) :
    (p.persist a n).versions u = if Covers a n u then [p.last u] else p.versions u := by
  unfold versions persist
  dsimp only
  split <;> rfl

@[simp] theorem read_persist (p : Pmem) (a n x : Nat) : (p.persist a n).read x = p.read x := by
  simp only [read, last_persist]

theorem Among.persist (h : p.Among u S) : (p.persist a n).Among u S := by
  intro w hw
  rw [versions_persist] at hw
  split at hw
  · exact List.mem_singleton.mp hw ▸ h.last
  · exact h w hw

/-- Of a word that has been persisted only the last version is left. -/
theorem among_persist (hu : Covers a n u) (h : p.last u ∈ S) : (p.persist a n).Among u S := by
  intro w hw
  rw [versions_persist, if_pos hu] at hw
  exact List.mem_singleton.mp hw ▸ h

theorem Within.persist (h : p.Within x B) : (p.persist a n).Within x B := by
  intro w hw
  rw [versions_persist] at hw
  split at hw
  · exact List.mem_singleton.mp hw ▸ h _ (p.last_mem _)
  · exact h w hw

theorem Holds.persist (h : p.Holds x b) : (p.persist a n).Holds x b :=
  holds_iff.mpr (holds_iff.mp h).persist

/-- **What has been persisted is safe.** -/
theorem holds_persist (hx : a ≤ x ∧ x < a + n) : (p.persist a n).Holds x (p.read x) := by
  intro w hw
  rw [versions_persist, if_pos (by unfold Covers; omega)] at hw
  exact List.mem_singleton.mp hw ▸ rfl

/-! ### Power failures -/

theorem versions_ofImage (img : Image) (u : Nat) :
    (ofImage img).versions u = [fun j : Fin 8 => img (8 * u + j)] := rfl

theorem Crash.word_mem (hc : p.Crash img) (u : Nat) :
    (fun j : Fin 8 => img (8 * u + j)) ∈ p.versions u := by
  obtain ⟨kept, hkept, himg⟩ := hc
  have heq : (fun j : Fin 8 => img (8 * u + j)) = kept u := by
    funext j
    have hdiv : (8 * u + j) / 8 = u := by omega
    have hplace : place (8 * u + j) = j := Fin.ext (by simp only [place]; omega)
    rw [himg, hdiv, hplace]
  exact heq ▸ hkept u

theorem Among.crash (h : p.Among u S) (hc : p.Crash img) : (ofImage img).Among u S := by
  intro w hw
  rw [versions_ofImage] at hw
  exact List.mem_singleton.mp hw ▸ h _ (hc.word_mem u)

theorem Within.ofImage (h : img x ∈ B) : (ofImage img).Within x B := by
  intro w hw
  rw [versions_ofImage] at hw
  rw [List.mem_singleton.mp hw]
  have hx : 8 * (x / 8) + (place x : Nat) = x := Nat.div_add_mod x 8
  simpa only [hx] using h

theorem Holds.ofImage (h : img x = b) : (ofImage img).Holds x b :=
  holds_iff.mpr (Within.ofImage h)

theorem crash_ofImage (img : Image) : (ofImage img).Crash img := by
  refine ⟨fun u j => img (8 * u + j), fun u => List.mem_cons_self, fun x => ?_⟩
  have hx : 8 * (x / 8) + (place x : Nat) = x := Nat.div_add_mod x 8
  exact congrArg img hx.symm

/-- Every store has become durable in time. -/
theorem crash_read (p : Pmem) : p.Crash p.read := ⟨p.last, p.last_mem, fun _ => rfl⟩

theorem Within.crash_ofImage (h : p.Within x B) (hc : p.Crash img) :
    (Pmem.ofImage img).Within x B := .ofImage (h.crash hc)

end

end Pmem

/-! ## Programs on persistent memory -/

/-- A store or a persist of a program. -/
inductive MemOp where
  | store (a : Nat) (bs : List UInt8)
  | persist (a n : Nat)
  deriving DecidableEq, Repr

namespace MemOp

def exec (p : Pmem) : MemOp → Pmem
  | store a bs => p.storeBytes a bs
  | persist a n => p.persist a n

def execAll (p : Pmem) (ops : List MemOp) : Pmem := ops.foldl exec p

/-- Each byte that is stored is in the set of its address. -/
def Stores (S : Nat → Set UInt8) : MemOp → Prop
  | store a bs => ∀ i (h : i < bs.length), bs[i] ∈ S (a + i)
  | persist _ _ => True

/-- Nothing is stored below `a`. -/
def Above (a : Nat) : MemOp → Prop
  | store b _ => a ≤ b
  | persist _ _ => True

section

variable {p : Pmem} {S : Nat → Set UInt8} {B : Set UInt8} {op : MemOp} {ops : List MemOp}
  {a x : Nat}

theorem within_exec (h : p.Within x (S x)) (hop : op.Stores S) : (op.exec p).Within x (S x) := by
  cases op with
  | store a bs => exact h.storeBytes fun i hi hx => hx ▸ hop i hi
  | persist a n => exact h.persist

theorem within_exec_of_above (h : p.Within x B) (hx : x < a) (hop : op.Above a) :
    (op.exec p).Within x B := by
  cases op with
  | store b bs => exact h.storeBytes fun i _ hxi => by have : a ≤ b := hop; omega
  | persist b n => exact h.persist

theorem within_execAll_of_above (h : p.Within x B) (hx : x < a) (hops : ∀ op ∈ ops, op.Above a) :
    (execAll p ops).Within x B := by
  induction ops generalizing p with
  | nil => exact h
  | cons op ops ih =>
    exact ih (within_exec_of_above h hx (hops op List.mem_cons_self))
      fun o ho => hops o (List.mem_cons_of_mem _ ho)

end

end MemOp

end Rpma.Lib

