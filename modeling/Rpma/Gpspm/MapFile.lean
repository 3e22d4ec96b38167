import Rpma.Lib.Durable
import Rpma.Lib.Endian
import Rpma.Lib.CText

/-!
# A mapped file with a signature, and the greeting in it

`common_pmem_map_file_with_signature_check` and `common-hello.c`. The file begins with the signature,
which marks what is behind it as valid. The client keeps a greeting there; the server keeps the
string that was written last.

* `mapOps`, `translateOps`: the stores and persists of the C functions.
* `Unsigned`, `Signed`: no power failure, or every power failure, leaves the signature.
* `Marked`: what the next run finds of the signature. A process that is killed between the last store
  of a new file and its `persist` leaves a file that is `loose`: the next run sees the signature and
  takes the file as valid, and does not persist the signature.
-/

namespace Rpma.Gpspm

open Rpma.Lib Rpma.Lib.CText

/-! ## The layout -/

/-- `SIGNATURE_STR`. -/
def signatureStr : List UInt8 := "RPMA_EXAMPLE_SIG".toUTF8.data.toList

/-- `SIGNATURE_LEN`, the `data_offset` of a mapped file. -/
def signatureLen : Nat := 17

/-- The string with its end. -/
def signature : List UInt8 := signatureStr ++ [0]

/-- `KILOBYTE`. -/
def kilobyte : Nat := 1024

/-- `HELLO_STR_SIZE`. -/
def helloStrSize : Nat := 1024

/-- `sizeof(struct hello_t)`. -/
def helloSize : Nat := 4 + helloStrSize

/-- `strncmp(mem->mr_ptr, SIGNATURE_STR, SIGNATURE_LEN) == 0`. -/
def signed (mem : Image) : Bool := strncmpEq mem 0 signatureStr signatureLen

/-! ## The greeting -/

/-- `enum lang_t`. -/
inductive Lang where
  | en | es
  deriving DecidableEq, Repr

def Lang.toNat : Lang → Nat
  | en => 0
  | es => 1

/-- `hello_str`. -/
def helloStr : Lang → List UInt8
  | .en => "Hello world!".toUTF8.data.toList
  | .es => "¡Hola Mundo!".toUTF8.data.toList

/-- `write_hello_str` of the structure at `a`. -/
def writeHelloStr (a : Nat) (lang : Lang) : List MemOp :=
  [.store a (leBytes 4 lang.toNat), .store (a + 4) (strncpy (helloStr lang) (helloStrSize - 1)),
    .store (a + 4 + (helloStrSize - 1)) [0]]

/-- `hello->lang`. -/
def readLang (mem : Image) (a : Nat) : UInt32 := .ofNat (ofLeBytes (bytesAt mem a 4))

/-- `(enum lang_t)((hello->lang + 1) % LANG_NUM)`. -/
def nextLang (lang : UInt32) : Lang := if (lang + 1).toNat % 2 = 0 then .en else .es

/-- The initial value, a greeting for the client and the empty string for the server. -/
def contentOps (size : Nat) : List MemOp :=
  if size = 0 then writeHelloStr signatureLen .en ++ [.persist signatureLen helloSize]
  else [.store signatureLen [0], .persist signatureLen 1]

/-- What `common_pmem_map_file_with_signature_check` does to a file without the signature. -/
def mapOps (size : Nat) : List MemOp :=
  contentOps size ++ [.store 0 signature, .persist 0 signatureLen]

/-- `min_size` and the signature: smaller files are refused. -/
def mapSize (size : Nat) : Nat := signatureLen + if size = 0 then helloSize else size

/-- `translate` of the greeting in a file, and the `persist` behind it. -/
def translateOps (lang : Lang) : List MemOp :=
  writeHelloStr signatureLen lang ++ [.persist signatureLen helloSize]

/-! ## The signature -/

/-- No power failure leaves the signature. -/
def Unsigned (p : Pmem) : Prop :=
  ∃ i, ∃ h : i < signature.length, p.Within i {b | b ≠ signature[i]}

/-- Every power failure leaves it. -/
def Signed (p : Pmem) : Prop := ∀ i (h : i < signature.length), p.Holds i signature[i]

/-- The signature is seen, and it is durable unless the file is `loose`. -/
structure Marked (loose : Bool) (p : Pmem) : Prop where
  seen : signed p.read = true
  durable : loose = false → Signed p

section Signature

variable {p : Pmem} {img : Image} {a n : Nat} {bs : List UInt8} {ops : List MemOp} {loose : Bool}

theorem length_signature : signature.length = signatureLen := by decide

theorem signed_iff (mem : Image) :
    signed mem = true ↔ ∀ i (h : i < signature.length), mem i = signature[i] := by
  have hlt : signatureStr.length < signatureLen := by decide
  have h := @strncmpEq_iff mem 0 signatureLen signatureStr hlt
  simpa [signed, signature] using h

theorem Unsigned.ofImage (h : signed img = false) : Unsigned (.ofImage img) := by
  have hnot : ¬ ∀ i (h : i < signature.length), img i = signature[i] := fun hall =>
    Bool.false_ne_true (h.symm.trans ((signed_iff img).mpr hall))
  simp only [not_forall] at hnot
  obtain ⟨i, hi, hne⟩ := hnot
  exact ⟨i, hi, .ofImage hne⟩

theorem Unsigned.crash (h : Unsigned p) (hc : p.Crash img) : signed img = false := by
  obtain ⟨i, hi, hw⟩ := h
  by_contra hsig
  exact hw.crash hc ((signed_iff img).mp (Bool.eq_true_of_not_eq_false hsig) i hi)

theorem Unsigned.read (h : Unsigned p) : signed p.read = false := h.crash p.crash_read

theorem Unsigned.execAll (h : Unsigned p) (hops : ∀ op ∈ ops, op.Above signatureLen) :
    Unsigned (MemOp.execAll p ops) := by
  obtain ⟨i, hi, hw⟩ := h
  exact ⟨i, hi, MemOp.within_execAll_of_above hw (length_signature ▸ hi) hops⟩

theorem Signed.crash (h : Signed p) (hc : p.Crash img) : signed img = true :=
  (signed_iff img).mpr fun i hi => (h i hi).crash hc

theorem Signed.read (h : Signed p) : signed p.read = true := h.crash p.crash_read

theorem Signed.crash_ofImage (h : Signed p) (hc : p.Crash img) : Signed (.ofImage img) :=
  fun i hi => .ofImage ((h i hi).crash hc)

theorem Signed.storeBytes (h : Signed p) (ha : signatureLen ≤ a) : Signed (p.storeBytes a bs) :=
  fun i hi => (h i hi).storeBytes (Or.inl (Nat.lt_of_lt_of_le (length_signature ▸ hi) ha))

theorem Signed.persist (h : Signed p) : Signed (p.persist a n) := fun i hi => (h i hi).persist

theorem Signed.of_signed (h : signed img = true) : Signed (.ofImage img) := fun i hi =>
  .ofImage ((signed_iff img).mp h i hi)

theorem Marked.of_signed (h : Signed p) : Marked loose p := ⟨h.read, fun _ => h⟩

theorem Marked.storeBytes (h : Marked loose p) (ha : signatureLen ≤ a) :
    Marked loose (p.storeBytes a bs) := by
  refine ⟨(signed_iff _).mpr fun i hi => ?_, fun hl => (h.durable hl).storeBytes ha⟩
  rw [Pmem.read_storeBytes_of_lt (Nat.lt_of_lt_of_le (length_signature ▸ hi) ha)]
  exact (signed_iff _).mp h.seen i hi

theorem Marked.persist (h : Marked loose p) : Marked loose (p.persist a n) := by
  refine ⟨(signed_iff _).mpr fun i hi => ?_, fun hl => (h.durable hl).persist⟩
  rw [Pmem.read_persist]
  exact (signed_iff _).mp h.seen i hi

theorem Marked.exec {op : MemOp} (h : Marked loose p) (hop : op.Above signatureLen) :
    Marked loose (op.exec p) := by
  cases op with
  | store a bs => exact h.storeBytes hop
  | persist a n => exact h.persist

/-- Only a loose file can lose its signature. -/
theorem Marked.crash (h : Marked loose p) (hc : p.Crash img) : signed img = true ∨ loose = true := by
  cases loose with
  | false => exact Or.inl ((h.durable rfl).crash hc)
  | true => exact Or.inr rfl

end Signature

/-! ## The content -/

/-- The bytes of `struct hello_t`. -/
def helloBytes (lang : Lang) : List UInt8 :=
  leBytes 4 lang.toNat ++ strncpy (helloStr lang) (helloStrSize - 1) ++ [0]

theorem length_helloBytes (lang : Lang) : (helloBytes lang).length = helloSize := by
  simp [helloBytes, helloSize, helloStrSize]

theorem execAll_writeHelloStr (p : Pmem) (a : Nat) (lang : Lang) :
    MemOp.execAll p (writeHelloStr a lang) = p.storeBytes a (helloBytes lang) := by
  have hlen : (leBytes 4 lang.toNat ++ strncpy (helloStr lang) (helloStrSize - 1)).length =
      4 + (helloStrSize - 1) := by simp
  rw [helloBytes, Pmem.storeBytes_append, Pmem.storeBytes_append, hlen, length_leBytes,
    ← Nat.add_assoc]
  rfl

/-- The content that a file begins with. -/
def content (size : Nat) : List UInt8 := if size = 0 then helloBytes .en else [0]

/-- The bytes `bs` are behind the signature, whatever happens. -/
def Contains (p : Pmem) (bs : List UInt8) : Prop :=
  ∀ i (h : i < bs.length), p.Holds (signatureLen + i) bs[i]

/-- What is stored and persisted is there. -/
theorem contains_persist (p : Pmem) (bs : List UInt8) {n : Nat} (hn : bs.length ≤ n) :
    Contains ((p.storeBytes signatureLen bs).persist signatureLen n) bs := fun i hi =>
  Pmem.read_storeBytes p signatureLen bs i hi ▸ Pmem.holds_persist ⟨by omega, by omega⟩

theorem Contains.storeBytes {p : Pmem} {bs cs : List UInt8} {a : Nat} (h : Contains p bs)
    (ha : a + cs.length ≤ signatureLen) : Contains (p.storeBytes a cs) bs :=
  fun i hi => (h i hi).storeBytes (Or.inr (Nat.le_add_right_of_le ha))

theorem Contains.persist {p : Pmem} {bs : List UInt8} {a n : Nat} (h : Contains p bs) :
    Contains (p.persist a n) bs := fun i hi => (h i hi).persist

theorem Contains.crash_ofImage {p : Pmem} {bs : List UInt8} {img : Image} (h : Contains p bs)
    (hc : p.Crash img) : Contains (.ofImage img) bs := fun i hi => .ofImage ((h i hi).crash hc)

/-! ## Mapping -/

section Mapping

variable {p : Pmem} {size : Nat} {op : MemOp} {todo : List MemOp} {img : Image}

theorem above_contentOps (size : Nat) : ∀ op ∈ contentOps size, op.Above signatureLen := by
  unfold contentOps writeHelloStr
  split <;> simp [MemOp.Above, Nat.add_assoc]

theorem contains_contentOps (p : Pmem) (size : Nat) :
    Contains (MemOp.execAll p (contentOps size)) (content size) := by
  unfold contentOps content
  split
  · have hstored := execAll_writeHelloStr p signatureLen .en
    unfold MemOp.execAll at hstored
    rw [MemOp.execAll, List.foldl_append, hstored]
    exact contains_persist p _ (Nat.le_of_eq (length_helloBytes .en))
  · exact contains_persist p [0] (Nat.le_refl 1)

/-- A file is being made, and `todo` is still to be done. -/
def Making (size : Nat) (p : Pmem) (todo : List MemOp) : Prop :=
  ∃ p₀ done, Unsigned p₀ ∧ mapOps size = done ++ todo ∧ p = MemOp.execAll p₀ done

theorem Making.start (h : Unsigned p) : Making size p (mapOps size) := ⟨p, [], h, rfl, rfl⟩

theorem Making.step (h : Making size p (op :: todo)) : Making size (op.exec p) todo := by
  obtain ⟨p₀, done, h₀, hops, rfl⟩ := h
  refine ⟨p₀, done ++ [op], h₀, by rw [hops, List.append_assoc]; rfl, ?_⟩
  rw [MemOp.execAll, MemOp.execAll, List.foldl_append]
  rfl

/-- The signature has been stored, and not persisted. -/
def unsaved : List MemOp → Bool
  | [_] => true
  | _ => false

/-- **The content is made durable before the signature is stored.** -/
theorem Making.cases (h : Making size p todo) :
    Unsigned p ∧ 2 ≤ todo.length ∨ Contains p (content size) ∧ Marked (unsaved todo) p := by
  obtain ⟨p₀, done, h₀, hops, rfl⟩ := h
  have hcontent := contains_contentOps p₀ size
  have hstore : Contains ((MemOp.execAll p₀ (contentOps size)).storeBytes 0 signature)
      (content size) := hcontent.storeBytes (by decide)
  have hread : ∀ i (h : i < signature.length), ((MemOp.execAll p₀ (contentOps size)).storeBytes 0
      signature).read i = signature[i] := fun i hi => by
    have hread := Pmem.read_storeBytes (MemOp.execAll p₀ (contentOps size)) 0 signature i hi
    rwa [Nat.zero_add] at hread
  rcases List.append_eq_append_iff.mp hops with ⟨d, rfl, hd⟩ | ⟨d, hd, rfl⟩
  · rcases d with _ | ⟨o, _ | ⟨o', _ | ⟨o'', d⟩⟩⟩
    · obtain rfl : todo = _ := hd.symm
      rw [List.append_nil]
      exact Or.inl ⟨h₀.execAll (above_contentOps size), Nat.le_refl 2⟩
    · obtain ⟨rfl, rfl⟩ := List.cons.inj hd
      rw [MemOp.execAll, List.foldl_append]
      exact Or.inr ⟨hstore, (signed_iff _).mpr hread, nofun⟩
    · obtain ⟨rfl, hd'⟩ := List.cons.inj hd
      obtain ⟨rfl, rfl⟩ := List.cons.inj hd'
      rw [MemOp.execAll, List.foldl_append]
      refine Or.inr ⟨hstore.persist, .of_signed fun i hi => ?_⟩
      exact hread i hi ▸ Pmem.holds_persist ⟨by omega, by rw [length_signature] at hi; omega⟩
    · simp at hd
  · refine Or.inl ⟨h₀.execAll fun op hop => above_contentOps size op ?_, by simp⟩
    rw [hd]
    exact List.mem_append_left _ hop

theorem Making.finished (h : Making size p []) : Signed p ∧ Contains p (content size) := by
  rcases h.cases with ⟨-, hlen⟩ | ⟨hcontent, hmarked⟩
  · exact absurd hlen (by simp)
  · exact ⟨hmarked.durable rfl, hcontent⟩

/-- The process is killed. -/
theorem Making.killed (h : Making size p todo) :
    Unsigned p ∧ unsaved todo = false ∨ Marked (unsaved todo) p ∧ Contains p (content size) := by
  rcases h.cases with ⟨hunsigned, hlen⟩ | ⟨hcontent, hmarked⟩
  · refine Or.inl ⟨hunsigned, ?_⟩
    unfold unsaved
    split
    · simp at hlen
    · rfl
  · exact Or.inr ⟨hmarked, hcontent⟩

/-- The power fails. -/
theorem Making.crash (h : Making size p todo) (hc : p.Crash img) (hsig : signed img = true) :
    Contains (.ofImage img) (content size) := by
  rcases h.cases with ⟨hunsigned, -⟩ | ⟨hcontent, -⟩
  · exact absurd (hunsigned.crash hc) (by rw [hsig]; decide)
  · exact hcontent.crash_ofImage hc

end Mapping

end Rpma.Gpspm
