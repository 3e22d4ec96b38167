import Mathlib.Data.Nat.Digits.Lemmas

/-!
# C text routines over byte memory

`strcpy` into a byte-addressed memory, the `%d` conversion of `sprintf` and `atoi`, over
arbitrary offsets, numbers and buffers.

* `strcpy_below`, `strcpy_at`, `strcpy_above`: what one copy writes and what it leaves.
* `atoi_printInt`: a printed 32-bit integer that is followed by a terminator reads back.
* `atoi_printInt_take`: a printed 32-bit integer of four characters or more, cut after its fourth
  character, does not read back when the wrong bytes follow the cut.
* `strncmpEq_iff`, `take_strlen`: `strncmp` and `strlen`.
* `atoi_append_iff`: a short number reads the same whatever follows it iff a character that is no
  digit ends it.
-/

namespace Rpma.Lib.CText

/-! ## Byte memory -/

/-- Bytes at offsets. -/
abbrev Bytes := Nat → UInt8

/-- Write `bs` at `dst`. -/
def blit (img : Bytes) (dst : Nat) (bs : List UInt8) : Bytes :=
  fun a => if a < dst then img a else (bs[a - dst]?).getD (img a)

/-- The `n` bytes at `src`. -/
def bytesAt (img : Bytes) (src n : Nat) : List UInt8 := (List.range n).map fun i => img (src + i)

@[simp] theorem length_bytesAt (img : Bytes) (src n : Nat) : (bytesAt img src n).length = n := by
  simp [bytesAt]

theorem bytesAt_congr {img img' : Bytes} {src src' n : Nat}
    (h : ∀ i < n, img (src + i) = img' (src' + i)) : bytesAt img src n = bytesAt img' src' n :=
  List.map_congr_left fun i hi => h i (List.mem_range.mp hi)

theorem bytesAt_add (img : Bytes) (src m n : Nat) :
    bytesAt img src (m + n) = bytesAt img src m ++ bytesAt img (src + m) n := by
  simp only [bytesAt, List.range_add, List.map_append, List.map_map, List.append_cancel_left_eq]
  exact List.map_congr_left fun i _ => congrArg img (Nat.add_assoc ..).symm

theorem blit_outside (img : Bytes) {dst a : Nat} {bs : List UInt8}
    (h : a < dst ∨ dst + bs.length ≤ a) : blit img dst bs a = img a := by
  unfold blit
  split
  · rfl
  · rw [List.getElem?_eq_none (by omega)]
    rfl

theorem blit_inside (img : Bytes) {dst i : Nat} {bs : List UInt8} (h : i < bs.length) :
    blit img dst bs (dst + i) = bs[i] := by
  simp [blit, List.getElem?_eq_getElem h]

/-- Two writes one after the other are one. -/
theorem blit_append (img : Bytes) (dst : Nat) (bs bs' : List UInt8) :
    blit (blit img dst bs) (dst + bs.length) bs' = blit img dst (bs ++ bs') := by
  funext a
  simp only [blit]
  by_cases h : a < dst
  · simp [h, show a < dst + bs.length by omega]
  · by_cases h' : a < dst + bs.length
    · have hlt : a - dst < bs.length := by omega
      simp [h, h', List.getElem?_append_left hlt]
    · have hge : bs.length ≤ a - dst := by omega
      rw [List.getElem?_append_right hge, show a - dst - bs.length = a - (dst + bs.length) by omega]
      simp [h, h', List.getElem?_eq_none hge]

theorem bytesAt_blit (img : Bytes) (dst : Nat) (bs : List UInt8) :
    bytesAt (blit img dst bs) dst bs.length = bs := by
  apply List.ext_getElem (length_bytesAt ..)
  intro i hi hi'
  simp only [bytesAt, List.getElem_map, List.getElem_range]
  exact blit_inside img hi'

/-- `strcpy(img + dst, s)`: the characters and the terminator. -/
def strcpy (img : Bytes) (dst : Nat) (s : List UInt8) : Bytes := blit img dst (s ++ [0])

theorem strcpy_below (img : Bytes) {dst a : Nat} (s : List UInt8) (h : a < dst) :
    strcpy img dst s a = img a := if_pos h

theorem strcpy_at (img : Bytes) (dst : Nat) {s : List UInt8} {j : Nat} (h : j ≤ s.length) :
    strcpy img dst s (dst + j) = (s ++ [0]).getD j 0 := by
  have hj : j < (s ++ [0]).length := by simp; omega
  simp [strcpy, blit, List.getD, List.getElem?_eq_getElem hj]

theorem strcpy_above (img : Bytes) {dst a : Nat} {s : List UInt8} (h : dst + s.length < a) :
    strcpy img dst s a = img a := by
  have hnot : ¬ a < dst := by omega
  have hlen : (s ++ [0]).length ≤ a - dst := by simp; omega
  simp [strcpy, blit, hnot, List.getElem?_eq_none hlen]

/-! ## Decimal text -/

/-- `isdigit`. -/
def isDigit (c : UInt8) : Bool := decide (48 ≤ c.toNat ∧ c.toNat ≤ 57)

/-- `isspace` in the C locale. -/
def isSpace (c : UInt8) : Bool := decide (c.toNat = 32 ∨ (9 ≤ c.toNat ∧ c.toNat ≤ 13))

/-- The character of a decimal digit. -/
def digitByte (d : Nat) : UInt8 := UInt8.ofNat (48 + d)

/-- The decimal text of a natural number. -/
def printNat (n : Nat) : List UInt8 :=
  if n = 0 then [digitByte 0] else (Nat.digits 10 n).reverse.map digitByte

/-- `sprintf("%d", v)`. -/
def printInt (v : Int) : List UInt8 :=
  if v < 0 then 45 :: printNat v.natAbs else printNat v.natAbs

/-- The digits at the start of a buffer, read into `acc`. -/
def readDigits : List UInt8 → Nat → Nat
  | [], acc => acc
  | c :: cs, acc => if isDigit c then readDigits cs (10 * acc + (c.toNat - 48)) else acc

/-- `strtol(s, NULL, 10)` before its clamp: white space, a sign, digits. -/
def readInt (bs : List UInt8) : Int :=
  match bs.dropWhile isSpace with
  | [] => 0
  | c :: cs =>
    if c = 45 then -(readDigits cs 0 : Int)
    else if c = 43 then (readDigits cs 0 : Int)
    else (readDigits (c :: cs) 0 : Int)

/-- `atoi`: the value clamped to `long` and cut to the 32 bits of an `int`. A buffer that ends
without a terminator reads as if one followed. -/
def atoi (bs : List UInt8) : BitVec 32 :=
  BitVec.ofInt 32 (max (-2 ^ 63) (min (2 ^ 63 - 1) (readInt bs)))

theorem digitByte_toNat {d : Nat} (h : d < 10) : (digitByte d).toNat = 48 + d := by
  unfold digitByte
  rw [UInt8.toNat_ofNat']
  omega

theorem isDigit_digitByte {d : Nat} (h : d < 10) : isDigit (digitByte d) = true := by
  simp only [isDigit, digitByte_toNat h, decide_eq_true_eq]
  omega

theorem printNat_digits (n : Nat) :
    ∃ ds : List Nat, printNat n = ds.map digitByte ∧ (∀ d ∈ ds, d < 10) ∧ ds ≠ [] ∧
      ds.foldl (fun a d => 10 * a + d) 0 = n := by
  unfold printNat
  split
  · rename_i h
    exact ⟨[0], rfl, by simp, by simp, by simp [h]⟩
  · rename_i h
    refine ⟨(Nat.digits 10 n).reverse, rfl, fun d hd => ?_, ?_, ?_⟩
    · exact Nat.digits_lt_base (by decide) (List.mem_reverse.mp hd)
    · simpa using Nat.digits_ne_nil_iff_ne_zero.mpr h
    · rw [List.foldl_reverse]
      have := Nat.ofDigits_eq_foldr 10 (Nat.digits 10 n)
      rw [Nat.ofDigits_digits] at this
      simpa [Nat.add_comm] using this.symm

/-- The text has at most `k` characters iff the number has at most `k` digits. -/
theorem printNat_length_le {n k : Nat} (hk : 1 ≤ k) :
    (printNat n).length ≤ k ↔ n < 10 ^ k := by
  unfold printNat
  split
  · rename_i h
    simp only [List.length_singleton, h]
    exact ⟨fun _ => Nat.pos_of_ne_zero (by positivity), fun _ => hk⟩
  · rw [List.length_map, List.length_reverse]
    exact Nat.digits_length_le_iff (by decide) n

theorem readDigits_append (ds : List Nat) (h : ∀ d ∈ ds, d < 10) (rest : List UInt8) :
    ∀ acc, readDigits (ds.map digitByte ++ rest) acc =
      readDigits rest (ds.foldl (fun a d => 10 * a + d) acc) := by
  induction ds with
  | nil => exact fun _ => rfl
  | cons d ds ih =>
    intro acc
    have hd : d < 10 := h d List.mem_cons_self
    simp only [List.map_cons, List.cons_append, readDigits, isDigit_digitByte hd, if_true,
      digitByte_toNat hd, Nat.add_sub_cancel_left, List.foldl_cons]
    exact ih (fun e he => h e (List.mem_cons_of_mem d he)) _

/-- Reading a printed number goes on with what follows it. -/
theorem readDigits_printNat (n : Nat) (rest : List UInt8) :
    readDigits (printNat n ++ rest) 0 = readDigits rest n := by
  obtain ⟨ds, hds, hlt, -, hval⟩ := printNat_digits n
  rw [hds, readDigits_append ds hlt, hval]

theorem readDigits_lt : ∀ (bs : List UInt8) (acc : Nat),
    readDigits bs acc < (acc + 1) * 10 ^ bs.length
  | [], acc => by simp [readDigits]
  | c :: cs, acc => by
    unfold readDigits
    split
    · rename_i hd
      simp only [isDigit, decide_eq_true_eq] at hd
      have hle : 10 * acc + (c.toNat - 48) + 1 ≤ 10 * (acc + 1) := by omega
      calc readDigits cs (10 * acc + (c.toNat - 48))
          < (10 * acc + (c.toNat - 48) + 1) * 10 ^ cs.length := readDigits_lt cs _
        _ ≤ 10 * (acc + 1) * 10 ^ cs.length := Nat.mul_le_mul_right _ hle
        _ = (acc + 1) * 10 ^ (c :: cs).length := by rw [List.length_cons, pow_succ]; ring
    · calc acc < acc + 1 := Nat.lt_succ_self acc
        _ ≤ (acc + 1) * 10 ^ (c :: cs).length := Nat.le_mul_of_pos_right _ (by positivity)

/-- Text that starts with a digit or with `-` is read from its first character. -/
theorem readInt_of_digit {c : UInt8} (cs : List UInt8) (h : isDigit c = true) :
    readInt (c :: cs) = (readDigits (c :: cs) 0 : Int) := by
  simp only [isDigit, decide_eq_true_eq] at h
  have hs : isSpace c = false := by simp only [isSpace, decide_eq_false_iff_not]; omega
  have h45 : c ≠ 45 := by rintro rfl; exact absurd h (by decide)
  have h43 : c ≠ 43 := by rintro rfl; exact absurd h (by decide)
  simp [readInt, hs, h45, h43]

theorem readInt_neg (cs : List UInt8) : readInt (45 :: cs) = -(readDigits cs 0 : Int) := by
  have hs : isSpace 45 = false := by decide
  simp [readInt, hs]

/-! ## Reading a printed integer back -/

/-- Within the range of an `int`, `atoi` gives the value read. -/
theorem atoi_eq_iff {bs : List UInt8} {x : BitVec 32} (hlo : -2 ^ 31 ≤ readInt bs)
    (hhi : readInt bs < 2 ^ 31) : atoi bs = x ↔ readInt bs = x.toInt := by
  have hclamp : max (-2 ^ 63) (min (2 ^ 63 - 1) (readInt bs)) = readInt bs := by omega
  unfold atoi
  rw [hclamp, ← BitVec.toInt_inj, BitVec.toInt_ofInt, Int.bmod_eq_of_le (by omega) (by omega)]

/-- A printed integer and more text reads as the integer's digits followed by that text. -/
theorem readInt_printInt (v : Int) (rest : List UInt8) :
    readInt (printInt v ++ rest) =
      if v < 0 then -(readDigits rest v.natAbs : Int) else (readDigits rest v.natAbs : Int) := by
  unfold printInt
  split
  · rw [List.cons_append, readInt_neg, readDigits_printNat]
  · obtain ⟨ds, hds, hlt, hne, -⟩ := printNat_digits v.natAbs
    cases ds with
    | nil => exact absurd rfl hne
    | cons d ds =>
      rw [← readDigits_printNat, hds]
      exact readInt_of_digit _ (isDigit_digitByte (hlt d List.mem_cons_self))

/-- **A printed 32-bit integer followed by a terminator reads back.** -/
theorem atoi_printInt (x : BitVec 32) (rest : List UInt8) :
    atoi (printInt x.toInt ++ 0 :: rest) = x := by
  have hread : readInt (printInt x.toInt ++ 0 :: rest) = x.toInt := by
    rw [readInt_printInt]
    have h0 : ∀ n, readDigits (0 :: rest) n = n := fun n => rfl
    rw [h0]
    split <;> omega
  have hlo := BitVec.le_toInt x
  have hhi := BitVec.toInt_lt (x := x)
  rw [atoi_eq_iff (by omega) (by omega)]
  exact hread

/-- The text of a 32-bit integer has at most three characters iff the integer lies in
`[-99, 999]`. -/
theorem printInt_length_le_three (v : Int) :
    (printInt v).length ≤ 3 ↔ -99 ≤ v ∧ v ≤ 999 := by
  unfold printInt
  split
  · rw [List.length_cons]
    have := printNat_length_le (n := v.natAbs) (k := 2) (by decide)
    omega
  · have := printNat_length_le (n := v.natAbs) (k := 3) (by decide)
    omega

theorem natAbs_lt_of_printInt_length {v : Int} {k : Nat} (hk : 0 < k)
    (h : (printInt v).length ≤ k) : v.natAbs < 10 ^ k := by
  have hdigits : (printNat v.natAbs).length ≤ k := by
    unfold printInt at h
    split at h
    · rw [List.length_cons] at h
      omega
    · exact h
  exact (printNat_length_le hk).mp hdigits

/-- One more digit after the text. -/
theorem readInt_printInt_zero (v : Int) : readInt (printInt v ++ [digitByte 0]) = 10 * v := by
  have h0 : ∀ n, readDigits [digitByte 0] n = 10 * n := fun n => by
    simp [readDigits, isDigit_digitByte, digitByte_toNat]
  rw [readInt_printInt, h0]
  split <;> omega

theorem readDigits_take_lt (bs : List UInt8) (k : Nat) : readDigits (bs.take k) 0 < 10 ^ k := by
  have hlen : (bs.take k).length ≤ k := List.length_take_le _ _
  calc readDigits (bs.take k) 0
      < (0 + 1) * 10 ^ (bs.take k).length := readDigits_lt _ 0
    _ = 10 ^ (bs.take k).length := by rw [Nat.zero_add, Nat.one_mul]
    _ ≤ 10 ^ k := Nat.pow_le_pow_right (by decide) hlen

/-- Longer text cut after the fourth character: a digit is lost. -/
theorem readInt_take_four_lt {v : Int} (h : 4 < (printInt v).length) :
    (readInt ((printInt v).take 4)).natAbs < v.natAbs := by
  unfold printInt at h ⊢
  split
  · rename_i hneg
    rw [if_pos hneg, List.length_cons] at h
    have hge : ¬ v.natAbs < 10 ^ 3 := fun hs => by
      have hlen := (printNat_length_le (n := v.natAbs) (k := 3) (by decide)).mpr hs
      omega
    have hlt := readDigits_take_lt (printNat v.natAbs) 3
    rw [List.take_succ_cons, readInt_neg]
    omega
  · rename_i hpos
    rw [if_neg hpos] at h
    have hge : ¬ v.natAbs < 10 ^ 4 := fun hs => by
      have hlen := (printNat_length_le (n := v.natAbs) (k := 4) (by decide)).mpr hs
      omega
    have hlt := readDigits_take_lt (printNat v.natAbs) 4
    obtain ⟨ds, hds, hltd, hne, -⟩ := printNat_digits v.natAbs
    cases ds with
    | nil => exact absurd rfl hne
    | cons d ds =>
      rw [hds] at hlt ⊢
      rw [List.map_cons, List.take_succ_cons] at hlt ⊢
      rw [readInt_of_digit _ (isDigit_digitByte (hltd d List.mem_cons_self))]
      omega

/-- **Text of four characters or more, cut after the fourth, does not read back** for some
continuation: the terminator is gone, so what follows the cut is read as well. -/
theorem atoi_printInt_take (x : BitVec 32) (h : 3 < (printInt x.toInt).length) :
    ∃ tail, atoi ((printInt x.toInt).take 4 ++ tail) ≠ x := by
  have hlo := BitVec.le_toInt x
  have hhi := BitVec.toInt_lt (x := x)
  generalize hv : x.toInt = v at h hlo hhi
  have hbig : ¬ (-99 ≤ v ∧ v ≤ 999) := fun hs => by
    have := (printInt_length_le_three v).mpr hs
    omega
  by_cases hlen : (printInt v).length = 4
  · -- every character is kept: one more digit follows
    refine ⟨[digitByte 0], fun he => ?_⟩
    have hsmall : v.natAbs < 10 ^ 4 :=
      natAbs_lt_of_printInt_length (by decide) (Nat.le_of_eq hlen)
    have hread := readInt_printInt_zero v
    rw [← hlen, List.take_length, atoi_eq_iff (by omega) (by omega), hread, hv] at he
    omega
  · -- four characters hold less than the number
    refine ⟨[], fun he => ?_⟩
    have hlt : (readInt ((printInt v).take 4)).natAbs < v.natAbs :=
      readInt_take_four_lt (by omega)
    rw [List.append_nil, atoi_eq_iff (by omega) (by omega), hv] at he
    rw [he] at hlt
    omega

/-! ## Where a number ends -/

/-- The text behind white space and a sign. -/
def afterSign (bs : List UInt8) : List UInt8 :=
  match bs.dropWhile isSpace with
  | [] => []
  | c :: cs => if c = 45 ∨ c = 43 then cs else c :: cs

/-- The number at the start of `bs` ends inside `bs`: a character that is no digit follows. -/
def EndsInside (bs : List UInt8) : Prop := (afterSign bs).dropWhile isDigit ≠ []

instance (bs : List UInt8) : Decidable (EndsInside bs) :=
  inferInstanceAs (Decidable ((afterSign bs).dropWhile isDigit ≠ []))

theorem readDigits_append_of_end : ∀ {bs : List UInt8}, bs.dropWhile isDigit ≠ [] →
    ∀ (rest : List UInt8) (acc : Nat), readDigits (bs ++ rest) acc = readDigits bs acc
  | [], h, _, _ => absurd rfl h
  | c :: cs, h, rest, acc => by
    rw [List.cons_append, readDigits, readDigits]
    split
    · rename_i hc
      rw [List.dropWhile_cons_of_pos hc] at h
      exact readDigits_append_of_end h rest _
    · rfl

theorem readDigits_append_of_digits : ∀ {bs : List UInt8}, bs.dropWhile isDigit = [] →
    ∀ (rest : List UInt8) (acc : Nat),
      readDigits (bs ++ rest) acc = readDigits rest (readDigits bs acc)
  | [], _, _, _ => rfl
  | c :: cs, h, rest, acc => by
    have hc : isDigit c = true := by
      by_contra hc
      rw [List.dropWhile_cons_of_neg hc] at h
      exact absurd h (by simp)
    rw [List.dropWhile_cons_of_pos hc] at h
    rw [List.cons_append, readDigits, if_pos hc, readDigits, if_pos hc]
    exact readDigits_append_of_digits h rest _

/-- A number that is not all white space keeps its sign whatever follows it. -/
theorem readInt_append {bs : List UInt8} (h : bs.dropWhile isSpace ≠ []) :
    ∃ neg : Bool, ∀ rest, readInt (bs ++ rest) =
      if neg then -(readDigits (afterSign bs ++ rest) 0 : Int)
      else (readDigits (afterSign bs ++ rest) 0 : Int) := by
  cases hd : bs.dropWhile isSpace with
  | nil => exact absurd hd h
  | cons c cs =>
    have happ : ∀ rest, (bs ++ rest).dropWhile isSpace = c :: (cs ++ rest) := fun rest => by
      rw [List.dropWhile_append, hd]
      rfl
    refine ⟨c == 45, fun rest => ?_⟩
    simp only [readInt, afterSign, happ, hd]
    by_cases h45 : c = 45
    · simp [h45]
    · by_cases h43 : c = 43
      · simp [h43]
      · simp [h45, h43]

/-- A number that ends inside `bs` is read from `bs` alone. -/
theorem atoi_append {bs : List UInt8} (h : EndsInside bs) (rest : List UInt8) :
    atoi (bs ++ rest) = atoi bs := by
  have hne : bs.dropWhile isSpace ≠ [] := fun hnil => h (by simp [afterSign, hnil])
  obtain ⟨neg, hread⟩ := readInt_append hne
  have hbs := hread []
  rw [List.append_nil, List.append_nil] at hbs
  have heq : readInt (bs ++ rest) = readInt bs := by
    rw [hread rest, readDigits_append_of_end h, hbs]
  unfold atoi
  rw [heq]

/-- A number that goes on past `bs` takes in the digits that follow. -/
theorem readInt_goes_on {bs : List UInt8} (h : ¬ EndsInside bs) :
    ∃ (neg : Bool) (n : Nat), n < 10 ^ bs.length ∧
      readInt bs = (if neg then -(n : Int) else n) ∧
      ∀ ds : List Nat, (∀ d ∈ ds, d < 10) → ds ≠ [] →
        readInt (bs ++ ds.map digitByte) =
          if neg then -((ds.foldl (fun a d => 10 * a + d) n : Nat) : Int)
          else ((ds.foldl (fun a d => 10 * a + d) n : Nat) : Int) := by
  have hon : ∀ (ds : List Nat) (n : Nat), (∀ d ∈ ds, d < 10) →
      readDigits (ds.map digitByte) n = ds.foldl (fun a d => 10 * a + d) n := fun ds n hds => by
    have := readDigits_append ds hds [] n
    rwa [List.append_nil] at this
  by_cases hne : bs.dropWhile isSpace = []
  · refine ⟨false, 0, Nat.pos_of_ne_zero (by positivity), by simp [readInt, hne], ?_⟩
    rintro (_ | ⟨d, ds⟩) hds hnil
    · exact absurd rfl hnil
    · have hd : d < 10 := hds d List.mem_cons_self
      have happ : readInt (bs ++ (d :: ds).map digitByte) = readInt ((d :: ds).map digitByte) := by
        unfold readInt
        rw [List.dropWhile_append, hne]
        rfl
      rw [happ, List.map_cons, readInt_of_digit _ (isDigit_digitByte hd), ← List.map_cons,
        hon _ _ hds]
      rfl
  · obtain ⟨neg, hread⟩ := readInt_append hne
    have hdigits : (afterSign bs).dropWhile isDigit = [] := not_not.mp h
    have hlen : (afterSign bs).length ≤ bs.length := by
      have hdrop : (bs.dropWhile isSpace).length ≤ bs.length :=
        (List.dropWhile_sublist isSpace).length_le
      unfold afterSign
      split
      · exact Nat.zero_le _
      · rename_i c cs hd
        rw [hd, List.length_cons] at hdrop
        split
        · omega
        · rw [List.length_cons]
          exact hdrop
    refine ⟨neg, readDigits (afterSign bs) 0, ?_, ?_, fun ds hds _ => ?_⟩
    · calc readDigits (afterSign bs) 0
          < (0 + 1) * 10 ^ (afterSign bs).length := readDigits_lt _ 0
        _ = 10 ^ (afterSign bs).length := by rw [Nat.zero_add, Nat.one_mul]
        _ ≤ 10 ^ bs.length := Nat.pow_le_pow_right (by decide) hlen
    · have := hread []
      rwa [List.append_nil, List.append_nil] at this
    · rw [hread, readDigits_append_of_digits hdigits, hon _ _ hds]

/-- **A short number reads the same whatever follows it iff it ends inside its bytes.** -/
theorem atoi_append_iff {bs : List UInt8} (hlen : bs.length ≤ 8) :
    (∀ rest rest', atoi (bs ++ rest) = atoi (bs ++ rest')) ↔ EndsInside bs := by
  refine ⟨fun hall => ?_, fun h rest rest' => by rw [atoi_append h, atoi_append h]⟩
  by_contra h
  obtain ⟨neg, n, hn, hbs, hon⟩ := readInt_goes_on h
  have hn8 : n < 10 ^ 8 := Nat.lt_of_lt_of_le hn (Nat.pow_le_pow_right (by decide) hlen)
  have hsame := hall ([1].map digitByte) []
  rw [List.append_nil] at hsame
  replace hon : readInt (bs ++ [1].map digitByte) =
      if neg then -(10 * n + 1 : Int) else 10 * n + 1 := by
    rw [hon [1] (by decide) (by decide)]
    rfl
  have hval : readInt bs = (atoi bs).toInt := by
    refine (atoi_eq_iff ?_ ?_).mp rfl <;> rw [hbs] <;> split <;> omega
  rw [atoi_eq_iff (by rw [hon]; split <;> omega) (by rw [hon]; split <;> omega), hon, ← hval, hbs]
    at hsame
  split at hsame <;> omega

/-- The digits of a number, padded to `k` of them. -/
theorem exists_padded_digits : ∀ {k r : Nat}, r < 10 ^ k →
    ∃ ds : List Nat, ds.length = k ∧ (∀ d ∈ ds, d < 10) ∧
      ∀ n, ds.foldl (fun a d => 10 * a + d) n = 10 ^ k * n + r
  | 0, r, h => ⟨[], rfl, by simp, fun n => by simp at h; simp [h]⟩
  | k + 1, r, h => by
    obtain ⟨ds, hlen, hlt, hval⟩ := exists_padded_digits (k := k) (r := r / 10)
      (Nat.div_lt_of_lt_mul (by rwa [← pow_succ']))
    refine ⟨ds ++ [r % 10], by simp [hlen], fun d hd => ?_, fun n => ?_⟩
    · rcases List.mem_append.mp hd with hd | hd
      · exact hlt d hd
      · rw [List.mem_singleton.mp hd]
        exact Nat.mod_lt _ (by decide)
    · rw [List.foldl_append, hval, List.foldl_cons, List.foldl_nil, pow_succ', Nat.mul_add,
        Nat.mul_assoc, Nat.add_assoc, Nat.div_add_mod]

/-- **A short number that goes on can be read as any `int`.** -/
theorem atoi_reaches {bs : List UInt8} (hlen : bs.length ≤ 8) (h : ¬ EndsInside bs)
    (x : BitVec 32) : ∃ rest, atoi (bs ++ rest) = x := by
  obtain ⟨neg, n, hn, -, hon⟩ := readInt_goes_on h
  have hn8 : n < 10 ^ 8 := Nat.lt_of_lt_of_le hn (Nat.pow_le_pow_right (by decide) hlen)
  -- ten more digits leave room for every value below `2 ^ 32`
  obtain ⟨r, hr, hmod⟩ : ∃ r < 2 ^ 32,
      (if neg then -((10 ^ 10 * n + r : Nat) : Int) else (10 ^ 10 * n + r : Nat)) % 2 ^ 32 =
        (x.toNat : Int) := by
    have hx := x.isLt
    cases neg
    · refine ⟨(((x.toNat : Int) - 10 ^ 10 * n) % 2 ^ 32).toNat, by omega, ?_⟩
      rw [if_neg (by decide)]
      omega
    · refine ⟨((-(x.toNat : Int) - 10 ^ 10 * n) % 2 ^ 32).toNat, by omega, ?_⟩
      rw [if_pos rfl]
      omega
  obtain ⟨ds, hds, hlt, hval⟩ := exists_padded_digits (show r < 10 ^ 10 by omega)
  have hread := hon ds hlt (by rintro rfl; cases hds)
  rw [hval] at hread
  have hclamp : max (-2 ^ 63) (min (2 ^ 63 - 1) (readInt (bs ++ ds.map digitByte))) =
      readInt (bs ++ ds.map digitByte) := by
    rw [hread]
    split <;> omega
  refine ⟨ds.map digitByte, BitVec.eq_of_toNat_eq ?_⟩
  unfold atoi
  rw [hclamp, hread, BitVec.toNat_ofInt]
  exact congrArg Int.toNat hmod

/-! ## Strings with a limit -/

/-- `strncpy(dst, src, n)`. -/
def strncpy (src : List UInt8) (n : Nat) : List UInt8 :=
  src.take n ++ List.replicate (n - src.length) 0

@[simp] theorem length_strncpy (src : List UInt8) (n : Nat) : (strncpy src n).length = n := by
  simp only [strncpy, List.length_append, List.length_take, List.length_replicate]
  omega

/-- Whether `strncmp` of the bytes from `x` on with a string is 0. -/
def strncmpEq (mem : Bytes) (x : Nat) : List UInt8 → Nat → Bool
  | _, 0 => true
  | [], _ + 1 => mem x = 0
  | c :: s, n + 1 => mem x = c && strncmpEq mem (x + 1) s n

/-- The whole string is compared, with its end. -/
theorem strncmpEq_iff {mem : Bytes} {x n : Nat} {s : List UInt8} (h : s.length < n) :
    strncmpEq mem x s n = true ↔ ∀ i (hi : i < (s ++ [0]).length), mem (x + i) = (s ++ [0])[i] := by
  induction s generalizing x n with
  | nil =>
    cases n with
    | zero => exact absurd h (Nat.not_lt_zero _)
    | succ n =>
      simp only [strncmpEq, decide_eq_true_eq]
      constructor
      · intro hx i hi
        obtain rfl : i = 0 := by simpa using hi
        exact hx
      · exact fun hall => hall 0 (by simp)
  | cons c s ih =>
    cases n with
    | zero => exact absurd h (Nat.not_lt_zero _)
    | succ n =>
      have hs := ih (x := x + 1) (Nat.lt_of_succ_lt_succ h)
      simp only [strncmpEq, Bool.and_eq_true, decide_eq_true_eq, hs]
      constructor
      · rintro ⟨hx, hall⟩ i hi
        cases i with
        | zero => exact hx
        | succ i =>
          have hi' := hall i (by simpa using hi)
          rwa [Nat.add_right_comm] at hi'
      · refine fun hall => ⟨hall 0 (by simp), fun i hi => ?_⟩
        have hi' := hall (i + 1) (by simpa using hi)
        rwa [Nat.add_right_comm]

/-- `strlen`, of a buffer with a zero in it. -/
def strlen (buf : List UInt8) : Nat := (buf.takeWhile (· ≠ 0)).length

/-- What is behind the end of a string does not matter. -/
theorem takeWhile_append_of_mem {buf : List UInt8} (h : (0 : UInt8) ∈ buf) (rest : List UInt8) :
    (buf ++ rest).takeWhile (· ≠ 0) = buf.takeWhile (· ≠ 0) := by
  induction buf with
  | nil => cases h
  | cons b buf ih =>
    by_cases hb : b = 0
    · simp [hb]
    · have hrest := ih ((List.mem_cons.mp h).resolve_left (Ne.symm hb))
      simpa [hb] using hrest

/-- The bytes up to the first zero. -/
theorem take_strlen {buf : List UInt8} (h : (0 : UInt8) ∈ buf) :
    buf.take (strlen buf + 1) = buf.takeWhile (· ≠ 0) ++ [0] := by
  induction buf with
  | nil => cases h
  | cons b buf ih =>
    by_cases hb : b = 0
    · subst hb
      simp [strlen]
    · have hmem : (0 : UInt8) ∈ buf := (List.mem_cons.mp h).resolve_left (Ne.symm hb)
      have htake := ih hmem
      unfold strlen at htake
      simpa [strlen, hb] using htake

end Rpma.Lib.CText
