import Mathlib.Data.List.TakeWhile
import Rpma.AtomicLog.Log

/-!
# The memory of the remote log

The memory holds the words `c`, of which `d` are safe (`LogMem`). The four requests for a word lead
from `c` to one word more, and up to the `used` that is stored by the third nothing of the word is
seen.

* **`LogMem.crash`**: a power failure leaves the words up to some point between `d` and `c`.
* **`Written.exec`**: what each request leads to.
* **`LogMem.printLog`**: what the server prints of it.
-/

namespace Rpma.AtomicLog

open Rpma.Lib Rpma.Lib.CText

/-! ## What is in the memory -/

/-- The bytes of the words `c`. -/
def logBytes (c : List (List UInt8)) : List UInt8 := c.flatMap wordBytes

/-- The end of the log, which `used` is to be. -/
def logEnd (c : List (List UInt8)) : Nat := dataOffset + (logBytes c).length

theorem logBytes_append (c d : List (List UInt8)) :
    logBytes (c ++ d) = logBytes c ++ logBytes d := List.flatMap_append

theorem logEnd_concat (c : List (List UInt8)) (a : List UInt8) :
    logEnd (c ++ [a]) = logEnd c + (wordBytes a).length := by
  simp [logEnd, logBytes, Nat.add_assoc]

theorem logEnd_mono {c d : List (List UInt8)} (h : c <+: d) : logEnd c ≤ logEnd d := by
  obtain ⟨e, rfl⟩ := h
  simp [logEnd, logBytes_append]

/-- The first word of the memory carries the signature. -/
def SignedWord (w : Word) : Prop := w 0 = 76 ∧ w 1 = 79 ∧ w 2 = 71 ∧ w 3 = 0

theorem signed_iff (mem : Image) : signed mem = true ↔ SignedWord fun j => mem (8 * 0 + j) := by
  simp [signed, strncmpEq, SignedWord, logHdrSignature, logSignatureSize]

/-- **The image of a log with the words `ws`.** -/
structure LogImage (size : UInt64) (img : Image) (ws : List (List UInt8)) : Prop where
  sig : signed img = true
  used : (loadUsed fun j => img (usedOffset + j)).toNat = logEnd ws
  fits : logEnd ws ≤ size.toNat
  data : ∀ i (h : i < (logBytes ws).length), img (dataOffset + i) = (logBytes ws)[i]

/-- **The memory holds the words `c`, of which `d` are safe**: after a power failure it holds at least
`d` and at most `c`. -/
structure LogMem (size : UInt64) (d c : List (List UInt8)) (p : Pmem) : Prop where
  sig : p.Among 0 {w | SignedWord w}
  used : p.Among 1 {w | ∃ k, d <+: k ∧ k <+: c ∧ w = usedWord (.ofNat (logEnd k))}
  last : p.last 1 = usedWord (.ofNat (logEnd c))
  data : ∀ i (h : i < (logBytes c).length), p.Holds (dataOffset + i) (logBytes c)[i]
  fits : logEnd c ≤ size.toNat
  safe : d <+: c

section LogMem

variable {size : UInt64} {d c k : List (List UInt8)} {p : Pmem} {img : Image} {a n : Nat}
  {bs : List UInt8} {w : List UInt8}

theorem LogMem.crash (h : LogMem size d c p) (hc : p.Crash img) :
    ∃ k, d <+: k ∧ k <+: c ∧ LogMem size k k (.ofImage img) ∧ LogImage size img k := by
  obtain ⟨k, hdk, hkc, hword⟩ := h.used _ (hc.word_mem 1)
  have hend : logEnd k ≤ size.toNat := (logEnd_mono hkc).trans h.fits
  have hdata : ∀ i (hi : i < (logBytes k).length), img (dataOffset + i) = (logBytes k)[i] := by
    intro i hi
    obtain ⟨e, rfl⟩ := hkc
    have hi' : i < (logBytes (k ++ e)).length := by
      rw [logBytes_append, List.length_append]
      omega
    have himg := (h.data i hi').crash hc
    simpa [logBytes_append, List.getElem_append_left hi] using himg
  refine ⟨k, hdk, hkc, ⟨h.sig.crash hc, ?_, ?_, fun i hi => .ofImage (hdata i hi), hend,
    List.prefix_rfl⟩, (signed_iff img).mpr (h.sig _ (hc.word_mem 0)), ?_, hend, hdata⟩
  · intro w hw
    rw [Pmem.versions_ofImage] at hw
    exact ⟨k, List.prefix_rfl, List.prefix_rfl, (List.mem_singleton.mp hw).trans hword⟩
  · exact hword
  · have hlt : logEnd k < 2 ^ 64 := Nat.lt_of_le_of_lt hend size.toNat_lt
    have hload := congrArg loadUsed hword
    rw [loadUsed_usedWord] at hload
    exact (congrArg UInt64.toNat hload).trans (UInt64.toNat_ofNat_of_lt' hlt)

/-- What is stored behind the log does not matter. -/
theorem LogMem.storeBytes (h : LogMem size d c p) (ha : logEnd c ≤ a) :
    LogMem size d c (p.storeBytes a bs) := by
  have h16 : dataOffset + (logBytes c).length ≤ a := ha
  unfold dataOffset at h16
  refine ⟨h.sig.storeBytes (by omega), h.used.storeBytes (by omega), ?_, fun i hi => ?_, h.fits,
    h.safe⟩
  · rw [Pmem.last_storeBytes (by omega), h.last]
  · exact (h.data i hi).storeBytes (by unfold dataOffset; omega)

theorem LogMem.persist (h : LogMem size d c p) : LogMem size d c (p.persist a n) :=
  ⟨h.sig.persist, h.used.persist, (p.last_persist a n 1).trans h.last,
    fun i hi => (h.data i hi).persist, h.fits, h.safe⟩

/-- **The new `used` is stored when the word is safe.** -/
theorem LogMem.append (h : LogMem size d c p)
    (hw : ∀ i (hi : i < (wordBytes w).length), p.Holds (logEnd c + i) (wordBytes w)[i])
    (hfits : logEnd (c ++ [w]) ≤ size.toNat) :
    LogMem size d (c ++ [w]) (p.storeWord 1 (usedWord (.ofNat (logEnd (c ++ [w]))))) := by
  have hpre : c <+: c ++ [w] := List.prefix_append ..
  have hused : p.Among 1 {v | ∃ k, d <+: k ∧ k <+: c ++ [w] ∧ v = usedWord (.ofNat (logEnd k))} :=
    h.used.mono fun v ⟨k, hdk, hkc, hv⟩ => ⟨k, hdk, hkc.trans hpre, hv⟩
  refine ⟨h.sig.storeWord_of_ne (by decide),
    hused.storeWord ⟨_, h.safe.trans hpre, List.prefix_rfl, rfl⟩, Pmem.last_storeWord_self ..,
    fun i hi => ?_, hfits, h.safe.trans hpre⟩
  have hbytes : logBytes (c ++ [w]) = logBytes c ++ wordBytes w := by
    simp [logBytes]
  refine Pmem.Holds.storeWord ?_ fun hone => ?_
  · simp only [hbytes] at hi ⊢
    rw [List.length_append] at hi
    by_cases hlt : i < (logBytes c).length
    · rw [List.getElem_append_left hlt]
      exact h.data i hlt
    · have hi' := hw (i - (logBytes c).length) (by omega)
      have haddr : logEnd c + (i - (logBytes c).length) = dataOffset + i := by
        unfold logEnd
        omega
      rw [List.getElem_append_right (by omega)]
      exact haddr ▸ hi'
  · unfold dataOffset at hone
    omega

/-- The last `used` is made durable. -/
theorem LogMem.persistUsed (h : LogMem size d c p) :
    LogMem size c c (p.persist usedOffset 8) := by
  have hpersist := h.persist (a := usedOffset) (n := 8)
  refine ⟨hpersist.sig, ?_, hpersist.last, hpersist.data, h.fits, List.prefix_rfl⟩
  exact Pmem.among_persist (by decide) ⟨c, List.prefix_rfl, List.prefix_rfl, h.last⟩

end LogMem

/-! ## Appending a word -/

/-- The requests for the word `a`. -/
def script (c : List (List UInt8)) (a : List UInt8) : List Wr :=
  [.write (.ofNat (logEnd c)) (wordBytes a),
    .flush (.ofNat (logEnd c)) (wordBytes a).length false,
    .atomicWrite (.ofNat usedOffset) (leBytes 8 (UInt64.ofNat (logEnd (c ++ [a]))).toNat),
    .flush (.ofNat usedOffset) 8 true]

/-- The memory after `k` of them. -/
def Written (size : UInt64) (d c : List (List UInt8)) (a : List UInt8) (p : Pmem) : Nat → Prop
  | 0 => LogMem size d c p
  | 1 => LogMem size d c p ∧ logEnd (c ++ [a]) ≤ size.toNat ∧
      ∀ i (hi : i < (wordBytes a).length), p.read (logEnd c + i) = (wordBytes a)[i]
  | 2 => LogMem size d c p ∧ logEnd (c ++ [a]) ≤ size.toNat ∧
      ∀ i (hi : i < (wordBytes a).length), p.Holds (logEnd c + i) (wordBytes a)[i]
  | 3 => LogMem size d (c ++ [a]) p
  | _ => LogMem size (c ++ [a]) (c ++ [a]) p

section Written

variable {size : UInt64} {d c : List (List UInt8)} {a : List UInt8} {p : Pmem} {k : Nat} {wr : Wr}

theorem LogMem.toNat_logEnd (h : LogMem size d c p) :
    (UInt64.ofNat (logEnd c)).toNat = logEnd c :=
  UInt64.toNat_ofNat_of_lt' (Nat.lt_of_le_of_lt h.fits size.toNat_lt)

/-- **Each request leads on.** -/
theorem Written.exec (h : Written size d c a p k) (hwr : (script c a)[k]? = some wr)
    (hstop : ¬ size.toNat < wr.stop) : Written size d c a (wr.exec p) (k + 1) := by
  match k with
  | 0 =>
    obtain rfl := Option.some.inj hwr
    have h0 : LogMem size d c p := h
    simp only [Wr.stop, h0.toNat_logEnd] at hstop
    refine ⟨?_, by rw [logEnd_concat]; omega, fun i hi => ?_⟩
    · simp only [Wr.exec, h0.toNat_logEnd]
      exact h0.storeBytes (Nat.le_refl _)
    · simp only [Wr.exec, h0.toNat_logEnd]
      exact Pmem.read_storeBytes p _ _ i hi
  | 1 =>
    obtain rfl := Option.some.inj hwr
    obtain ⟨h0, hfits, hread⟩ := h
    refine ⟨h0.persist, hfits, fun i hi => ?_⟩
    simp only [Wr.exec, h0.toNat_logEnd]
    exact hread i hi ▸ Pmem.holds_persist ⟨by omega, by omega⟩
  | 2 =>
    obtain rfl := Option.some.inj hwr
    obtain ⟨h0, hfits, hholds⟩ := h
    exact h0.append hholds hfits
  | 3 =>
    obtain rfl := Option.some.inj hwr
    exact LogMem.persistUsed h
  | k + 4 => simp [script] at hwr

/-- In between the log is the old one or the new one. -/
theorem Written.logMem (h : Written size d c a p k) (hsafe : d <+: c) :
    ∃ d' c', LogMem size d' c' p ∧ d <+: d' ∧ (c' = c ∨ 0 < k ∧ c' = c ++ [a]) := by
  match k with
  | 0 => exact ⟨d, c, h, List.prefix_rfl, Or.inl rfl⟩
  | 1 => exact ⟨d, c, h.1, List.prefix_rfl, Or.inl rfl⟩
  | 2 => exact ⟨d, c, h.1, List.prefix_rfl, Or.inl rfl⟩
  | 3 => exact ⟨d, c ++ [a], h, List.prefix_rfl, Or.inr ⟨by omega, rfl⟩⟩
  | k + 4 =>
    exact ⟨c ++ [a], c ++ [a], h, hsafe.trans (List.prefix_append ..), Or.inr ⟨by omega, rfl⟩⟩

end Written

/-! ## What is printed -/

/-- What is printed of the word `arg`: at most `MAX_WORD_LENGTH` characters. -/
def wordText (arg : List UInt8) : List UInt8 := (arg.take maxWordLength).takeWhile (· ≠ 0)

theorem wordBytes_eq (arg : List UInt8) : wordBytes arg = wordText arg ++ [0] := by
  have hmem : (0 : UInt8) ∈ wordBuffer arg := List.mem_append_right _ List.mem_cons_self
  rw [wordBytes, take_strlen hmem]
  congr 1
  have hzeros : ∀ (l : List UInt8) n,
      (l ++ List.replicate n 0 ++ [0]).takeWhile (· ≠ 0) = l.takeWhile (· ≠ 0) := by
    intro l n
    induction l with
    | nil => cases n <;> simp [List.replicate_succ]
    | cons b l ih =>
      by_cases hb : b = 0
      · simp [hb]
      · simpa [hb] using ih
  exact hzeros _ _

/-- A line for each word. -/
def lines (ws : List (List UInt8)) : List UInt8 := ws.flatMap fun w => wordText w ++ [10]

theorem map_logBytes (ws : List (List UInt8)) :
    (logBytes ws).map (fun b => if b ≠ 0 then b else 10) = lines ws := by
  induction ws with
  | nil => rfl
  | cons w ws ih =>
    have hword : (wordText w).map (fun b => if b ≠ 0 then b else 10) = wordText w := by
      conv_rhs => rw [← List.map_id (wordText w)]
      refine List.map_congr_left fun b hb => if_pos ?_
      simpa using List.mem_takeWhile_imp hb
    simp only [logBytes, lines, List.flatMap_cons, List.map_append, wordBytes_eq, hword] at ih ⊢
    rw [ih]
    rfl

theorem LogMem.printLog {size : UInt64} {d c : List (List UInt8)} {p : Pmem}
    (h : LogMem size d c p) : printLog p = lines c := by
  have hlast : p.last (usedOffset / 8) = usedWord (.ofNat (logEnd c)) := h.last
  have hused : (loadUsed (p.last (usedOffset / 8))).toNat - dataOffset = (logBytes c).length := by
    rw [hlast, loadUsed_usedWord, h.toNat_logEnd, logEnd, Nat.add_sub_cancel_left]
  rw [← map_logBytes, AtomicLog.printLog, hused]
  refine List.ext_getElem (by simp) fun i hi hi' => ?_
  have hlt : i < (logBytes c).length := by simpa using hi'
  simp only [List.getElem_map, List.getElem_range, (h.data i hlt).read]

end Rpma.AtomicLog
