import Mathlib.Tactic.Common
import Mathlib.Tactic.Ring

/-!
# Byte orders

Integers of `w` bytes as the memory of a host holds them, and the conversions of `endian.h`
between the byte order of the host and a fixed one. Nothing here depends on the width.

* `store_htole`, `store_htobe`: what a converted integer is in memory does not depend on the host.
* `letoh_load`: nor does the value a host gets by loading bytes and converting.
* `ofLeBytes_leBytes`, `leBytes_ofLeBytes`: the little-endian bytes and the value determine each
  other.
-/

namespace Rpma.Lib

/-- The byte order of a host. -/
inductive Endian where
  | little | big
  deriving DecidableEq, Repr

/-- The `w` low bytes of `v`, the lowest first. -/
def leBytes : Nat → Nat → List UInt8
  | 0, _ => []
  | w + 1, v => UInt8.ofNat v :: leBytes w (v / 256)

/-- The value of bytes, the lowest first. -/
def ofLeBytes : List UInt8 → Nat
  | [] => 0
  | b :: bs => b.toNat + 256 * ofLeBytes bs

@[simp] theorem length_leBytes (w v : Nat) : (leBytes w v).length = w := by
  induction w generalizing v with
  | zero => rfl
  | succ w ih => simp [leBytes, ih]

theorem ofLeBytes_lt (bs : List UInt8) : ofLeBytes bs < 256 ^ bs.length := by
  induction bs with
  | nil => simp [ofLeBytes]
  | cons b bs ih =>
    have hb : b.toNat < 256 := b.toNat_lt
    rw [ofLeBytes, List.length_cons, pow_succ]
    omega

theorem ofLeBytes_leBytes {w v : Nat} (h : v < 256 ^ w) : ofLeBytes (leBytes w v) = v := by
  induction w generalizing v with
  | zero =>
    rw [pow_zero] at h
    simp only [leBytes, ofLeBytes]
    omega
  | succ w ih =>
    have hdiv : v / 256 < 256 ^ w := by
      rw [pow_succ] at h
      omega
    rw [leBytes, ofLeBytes, ih hdiv, UInt8.toNat_ofNat']
    omega

theorem leBytes_ofLeBytes (bs : List UInt8) : leBytes bs.length (ofLeBytes bs) = bs := by
  induction bs with
  | nil => rfl
  | cons b bs ih =>
    have hb : b.toNat < 256 := b.toNat_lt
    have hlow : UInt8.ofNat (b.toNat + 256 * ofLeBytes bs) = b := by
      apply UInt8.toNat_inj.mp
      rw [UInt8.toNat_ofNat']
      omega
    have hhigh : (b.toNat + 256 * ofLeBytes bs) / 256 = ofLeBytes bs := by omega
    rw [List.length_cons, leBytes, ofLeBytes, hlow, hhigh, ih]

namespace Endian

/-- An integer of `w` bytes in the memory of a host. -/
def store (host : Endian) (w v : Nat) : List UInt8 :=
  match host with
  | .little => leBytes w v
  | .big => (leBytes w v).reverse

/-- The integer a host finds in bytes of memory. -/
def load (host : Endian) (bs : List UInt8) : Nat :=
  match host with
  | .little => ofLeBytes bs
  | .big => ofLeBytes bs.reverse

/-- The integer with the bytes of `v` in the other order. -/
def swap (w v : Nat) : Nat := ofLeBytes (leBytes w v).reverse

/-- `htole64`, `htole32`; `le64toh` and `le32toh` do the same. -/
def htole (host : Endian) (w v : Nat) : Nat :=
  match host with
  | .little => v
  | .big => swap w v

/-- `htobe32`, also known as `htonl`. -/
def htobe (host : Endian) (w v : Nat) : Nat :=
  match host with
  | .little => swap w v
  | .big => v

theorem leBytes_swap (w v : Nat) : leBytes w (swap w v) = (leBytes w v).reverse := by
  have h := leBytes_ofLeBytes (leBytes w v).reverse
  rwa [List.length_reverse, length_leBytes] at h

theorem swap_lt (w v : Nat) : swap w v < 256 ^ w := by
  have h := ofLeBytes_lt (leBytes w v).reverse
  rwa [List.length_reverse, length_leBytes] at h

theorem store_htole (host : Endian) (w v : Nat) : host.store w (host.htole w v) = leBytes w v := by
  cases host with
  | little => rfl
  | big => simp only [store, htole, leBytes_swap, List.reverse_reverse]

theorem store_htobe (host : Endian) (w v : Nat) :
    host.store w (host.htobe w v) = (leBytes w v).reverse := by
  cases host with
  | little => exact leBytes_swap w v
  | big => rfl

theorem letoh_load (host : Endian) {w : Nat} {bs : List UInt8} (h : bs.length = w) :
    host.htole w (host.load bs) = ofLeBytes bs := by
  subst h
  cases host with
  | little => rfl
  | big =>
    have hrev := leBytes_ofLeBytes bs.reverse
    rw [List.length_reverse] at hrev
    simp only [htole, load, swap, hrev, List.reverse_reverse]

end Endian

end Rpma.Lib
