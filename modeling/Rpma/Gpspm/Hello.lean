import Mathlib.Logic.Relation
import Mathlib.Data.List.Chain
import Rpma.Gpspm.MapFile

/-!
# The greeting of a client in its file

Each run of the client of `09-flush-to-persistent-GPSPM` maps its file
(`common_pmem_map_file_with_signature_check`), sends the greeting, and at the end translates it for
the next run. The process may be killed at any point, and the power may fail at any time
(`Pmem.Crash`).

* **`hello_survives`**: what a power failure leaves is no file with a signature, or a greeting that
  each of its bytes has in common with one of the two; it is whole and in the language of the last
  translation unless one has been cut off since. The languages alternate. A completed greeting is
  lost only if a run was killed between the last store of the new file and its `persist`, as the runs
  after it take the file as valid and do not persist the signature.

Two variables are not kept by the program: `shown`, the languages of the greeting since the file was
made or a translation was cut off, and `loose`, whether a run was killed so since the last power
failure. Out of scope: the connection, in which the client only reads the file (`Flush.lean` has it),
and files that another program has changed.
-/

namespace Rpma.Gpspm.Hello

open Rpma.Lib Rpma.Lib.CText Relation

/-! ## The model -/

/-- Where the client is: not running, at the check of the signature, at an operation of a new file,
in front of the translation, or in it. -/
inductive Pc where
  | off | check
  | map (todo : List MemOp)
  | ready
  | translate (lang : Lang) (todo : List MemOp)
  deriving DecidableEq, Repr

/-- `mr_size`, and the file. -/
structure State where
  size : Nat
  pmem : Pmem
  pc : Pc
  shown : List Lang
  loose : Bool

/-- The last store of a new file is done, and its `persist` is not. -/
def Pc.unsaved : Pc → Bool
  | .map todo => Gpspm.unsaved todo
  | _ => false

namespace State

def start (size : Nat) (img : Image) : State := ⟨size, .ofImage img, .off, [], false⟩

/-- The client goes on. -/
def run (s : State) : Option State :=
  match s.pc with
  | .off => if s.size < mapSize 0 then none else some { s with pc := .check }
  | .check => some { s with pc := if signed s.pmem.read then .ready else .map (mapOps 0) }
  | .map (op :: todo) => some { s with pmem := op.exec s.pmem, pc := .map todo }
  | .map [] => some { s with pc := .ready, shown := [.en] }
  | .ready =>
    let lang := nextLang (readLang s.pmem.read signatureLen)
    some { s with pc := .translate lang (translateOps lang) }
  | .translate lang (op :: todo) =>
    some { s with pmem := op.exec s.pmem, pc := .translate lang todo }
  | .translate lang [] => some { s with pc := .off, shown := s.shown ++ [lang] }

/-- `n` times. -/
def runs (s : State) : Nat → Option State
  | 0 => some s
  | n + 1 => s.run.bind fun s' => s'.runs n

/-- What has been shown when the process ends. -/
def kept (s : State) : List Lang :=
  match s.pc with
  | .translate _ _ => []
  | _ => s.shown

/-- The process is killed. -/
def killed (s : State) : State :=
  { s with pc := .off, shown := s.kept, loose := s.loose || s.pc.unsaved }

/-- The power fails and leaves `img`. -/
def failed (s : State) (img : Image) : State :=
  { s with
    pmem := .ofImage img
    pc := .off
    shown := if signed img then s.kept else []
    loose := false }

end State

inductive Step (s : State) : State → Prop
  | run {s' : State} (h : s.run = some s') : Step s s'
  | kill : Step s s.killed
  | powerFail {img : Image} (h : s.pmem.Crash img) : Step s (s.failed img)

/-- After any number of runs, from a file with the content `img`. -/
def Reachable (size : Nat) (img : Image) : State → Prop := ReflTransGen Step (State.start size img)

theorem Reachable.runs {size n : Nat} {img : Image} {s s' : State} (h : Reachable size img s)
    (hs : s.runs n = some s') : Reachable size img s' := by
  induction n generalizing s with
  | zero => exact Option.some.inj hs ▸ h
  | succ n ih =>
    obtain ⟨t, ht, hrest⟩ := Option.bind_eq_some_iff.mp hs
    exact ih (h.tail (.run ht)) hrest

/-! ## The translation -/

/-- Each byte is one of a greeting. -/
def greetingSet (x : Nat) : Set UInt8 := {b | ∃ lang, (helloBytes lang)[x - signatureLen]? = some b}

/-- Each byte of the greeting is one of the two, whatever happens. -/
def Greets (p : Pmem) : Prop :=
  ∀ i < helloSize, p.Within (signatureLen + i) (greetingSet (signatureLen + i))

theorem Contains.greets {p : Pmem} {lang : Lang} (h : Contains p (helloBytes lang)) : Greets p := by
  intro i hi
  rw [← length_helloBytes lang] at hi
  refine (h i hi).within ⟨lang, ?_⟩
  rw [Nat.add_sub_cancel_left, List.getElem?_eq_getElem hi]

/-- A part of the greeting. -/
theorem mem_greetingSet {lang : Lang} {a : Nat} {bs cs ds : List UInt8}
    (h : helloBytes lang = cs ++ bs ++ ds) (ha : a = signatureLen + cs.length) :
    (MemOp.store a bs).Stores greetingSet := by
  intro i hi
  refine ⟨lang, ?_⟩
  have hat : a + i - signatureLen = cs.length + i := by omega
  rw [hat, h, List.append_assoc, List.getElem?_append_right (Nat.le_add_right ..),
    Nat.add_sub_cancel_left, List.getElem?_append_left hi, List.getElem?_eq_getElem hi]

theorem stores_translateOps (lang : Lang) : ∀ op ∈ translateOps lang, op.Stores greetingSet := by
  intro op hop
  simp only [translateOps, writeHelloStr, List.cons_append, List.nil_append, List.mem_cons,
    List.not_mem_nil, or_false] at hop
  have hbytes : helloBytes lang =
      leBytes 4 lang.toNat ++ strncpy (helloStr lang) (helloStrSize - 1) ++ [0] := rfl
  have hfirst : helloBytes lang =
      [] ++ leBytes 4 lang.toNat ++ (strncpy (helloStr lang) (helloStrSize - 1) ++ [0]) := by
    rw [hbytes, List.nil_append, List.append_assoc]
  have hlast : helloBytes lang =
      leBytes 4 lang.toNat ++ strncpy (helloStr lang) (helloStrSize - 1) ++ [0] ++ [] := by
    rw [hbytes, List.append_nil]
  rcases hop with rfl | rfl | rfl | rfl
  · exact mem_greetingSet hfirst rfl
  · exact mem_greetingSet hbytes (by rw [length_leBytes])
  · refine mem_greetingSet hlast ?_
    rw [List.length_append, length_leBytes, length_strncpy, Nat.add_assoc]
  · trivial

theorem above_translateOps (lang : Lang) : ∀ op ∈ translateOps lang, op.Above signatureLen := by
  simp [translateOps, writeHelloStr, MemOp.Above, Nat.add_assoc]

/-- The greeting is being translated, and `todo` is still to be done. -/
def Translating (lang : Lang) (p : Pmem) (todo : List MemOp) : Prop :=
  ∃ p₀ done, translateOps lang = done ++ todo ∧ p = MemOp.execAll p₀ done

section Translating

variable {lang : Lang} {p : Pmem} {op : MemOp} {todo : List MemOp}

theorem Translating.mem (h : Translating lang p (op :: todo)) : op ∈ translateOps lang := by
  obtain ⟨p₀, done, hops, -⟩ := h
  rw [hops]
  exact List.mem_append_right _ List.mem_cons_self

theorem Translating.step (h : Translating lang p (op :: todo)) :
    Translating lang (op.exec p) todo := by
  obtain ⟨p₀, done, hops, rfl⟩ := h
  refine ⟨p₀, done ++ [op], by rw [hops, List.append_assoc]; rfl, ?_⟩
  rw [MemOp.execAll, MemOp.execAll, List.foldl_append]
  rfl

theorem Translating.finished (h : Translating lang p []) : Contains p (helloBytes lang) := by
  obtain ⟨p₀, done, hops, rfl⟩ := h
  obtain rfl : done = translateOps lang := by rw [hops, List.append_nil]
  have hstored := execAll_writeHelloStr p₀ signatureLen lang
  unfold MemOp.execAll at hstored
  rw [translateOps, MemOp.execAll, List.foldl_append, hstored]
  exact contains_persist p₀ _ (Nat.le_of_eq (length_helloBytes lang))

theorem Greets.exec (h : Greets p) (hop : op.Stores greetingSet) : Greets (op.exec p) :=
  fun i hi => MemOp.within_exec (h i hi) hop

end Translating

/-- The language in the file is the one of the greeting, so that the next one is the other. -/
theorem nextLang_ne {p : Pmem} {lang : Lang} (h : Contains p (helloBytes lang)) :
    nextLang (readLang p.read signatureLen) ≠ lang := by
  have hbytes : bytesAt p.read signatureLen 4 = leBytes 4 lang.toNat := by
    refine List.ext_getElem (by simp) fun i hi hi' => ?_
    rw [length_bytesAt] at hi
    have hlen : i < (helloBytes lang).length := by
      rw [length_helloBytes]
      unfold helloSize
      omega
    simp only [bytesAt, List.getElem_map, List.getElem_range, (h i hlen).read, helloBytes]
    rw [List.getElem_append_left (by simp; omega), List.getElem_append_left hi']
  rw [readLang, hbytes]
  cases lang <;> decide

/-! ## The invariant -/

/-- The file holds a greeting, and it is the last of `shown`. -/
structure Greeting (s : State) : Prop where
  marked : Marked s.loose s.pmem
  greets : Greets s.pmem
  last : ∀ lang, s.shown.getLast? = some lang → Contains s.pmem (helloBytes lang)
  chain : s.shown.IsChain (· ≠ ·)

/-- What holds in every reachable state, by where the client is. -/
inductive Inv (s : State) : Prop
  | blank (hpc : s.pc = .off ∨ s.pc = .check) (hfile : Unsigned s.pmem) (hshown : s.shown = [])
      (hloose : s.loose = false)
  | map {todo : List MemOp} (hpc : s.pc = .map todo) (hfile : Making 0 s.pmem todo)
      (hshown : s.shown = []) (hloose : s.loose = false)
  | stored (hpc : s.pc = .off ∨ s.pc = .check ∨ s.pc = .ready) (hfile : Greeting s)
  | translate {lang : Lang} {todo : List MemOp} (hpc : s.pc = .translate lang todo)
      (hmarked : Marked s.loose s.pmem) (hgreets : Greets s.pmem)
      (hfile : Translating lang s.pmem todo) (hnext : ∀ l ∈ s.shown.getLast?, l ≠ lang)
      (hchain : s.shown.IsChain (· ≠ ·))

section Inv

variable {s s' : State} {img : Image} {p : Pmem}

/-- The content of a new file. -/
theorem Greeting.of_content (hmarked : Marked s.loose s.pmem) (hcontent : Contains s.pmem (content 0))
    (hshown : s.shown = [] ∨ s.shown = [.en]) : Greeting s := by
  rcases hshown with hnil | hone
  · refine ⟨hmarked, Contains.greets hcontent, fun lang hlang => ?_, hnil ▸ .nil⟩
    simp [hnil] at hlang
  · refine ⟨hmarked, Contains.greets hcontent, fun lang hlang => ?_, hone ▸ .singleton _⟩
    rw [hone] at hlang
    exact Option.some.inj hlang ▸ hcontent

theorem Inv.run (h : Inv s) (hs : s.run = some s') : Inv s' := by
  cases h with
  | blank hpc hfile hshown hloose =>
    rcases hpc with hpc | hpc
    · simp only [State.run, hpc] at hs
      split at hs
      · cases hs
      · exact Option.some.inj hs ▸ .blank (Or.inr rfl) hfile hshown hloose
    · simp only [State.run, hpc, hfile.read] at hs
      exact Option.some.inj hs ▸ .map rfl (.start hfile) hshown hloose
  | map hpc hfile hshown hloose =>
    rename_i todo
    cases todo with
    | nil =>
      simp only [State.run, hpc] at hs
      obtain rfl := Option.some.inj hs
      obtain ⟨hsigned, hcontent⟩ := hfile.finished
      exact .stored (Or.inr (Or.inr rfl)) (.of_content (.of_signed hsigned) hcontent (Or.inr rfl))
    | cons op todo =>
      simp only [State.run, hpc] at hs
      exact Option.some.inj hs ▸ .map rfl hfile.step hshown hloose
  | stored hpc hfile =>
    rcases hpc with hpc | hpc | hpc
    · simp only [State.run, hpc] at hs
      split at hs
      · cases hs
      · exact Option.some.inj hs ▸ .stored (Or.inr (Or.inl rfl)) ⟨hfile.1, hfile.2, hfile.3, hfile.4⟩
    · simp only [State.run, hpc, hfile.marked.seen, if_true] at hs
      exact Option.some.inj hs ▸ .stored (Or.inr (Or.inr rfl)) ⟨hfile.1, hfile.2, hfile.3, hfile.4⟩
    · simp only [State.run, hpc] at hs
      obtain rfl := Option.some.inj hs
      refine .translate rfl hfile.marked hfile.greets ⟨s.pmem, [], rfl, rfl⟩ (fun l hl => ?_)
        hfile.chain
      exact (nextLang_ne (hfile.last l hl)).symm
  | translate hpc hmarked hgreets hfile hnext hchain =>
    rename_i lang todo
    cases todo with
    | nil =>
      simp only [State.run, hpc] at hs
      obtain rfl := Option.some.inj hs
      refine .stored (Or.inl rfl) ⟨hmarked, hgreets, fun l hl => ?_, ?_⟩
      · simp only [List.getLast?_concat, Option.some.injEq] at hl
        exact hl ▸ hfile.finished
      · refine List.isChain_append.mpr ⟨hchain, .singleton lang, fun l hl m hm => ?_⟩
        obtain rfl : lang = m := Option.some.inj hm
        exact hnext l hl
    | cons op todo =>
      simp only [State.run, hpc] at hs
      obtain rfl := Option.some.inj hs
      have hop := hfile.mem
      refine .translate rfl ?_ (hgreets.exec (stores_translateOps lang op hop)) hfile.step hnext
        hchain
      exact hmarked.exec (above_translateOps lang op hop)

/-! ### Failures -/

/-- A killed process leaves the file as it is. -/
theorem Inv.killed (h : Inv s) : Inv s.killed := by
  cases h with
  | blank hpc hfile hshown hloose =>
    rcases hpc with hpc | hpc
    · exact .blank (Or.inl rfl) hfile (by simp [State.killed, State.kept, hpc, hshown])
        (by simp [State.killed, hpc, hloose, Pc.unsaved])
    · exact .blank (Or.inl rfl) hfile (by simp [State.killed, State.kept, hpc, hshown])
        (by simp [State.killed, hpc, hloose, Pc.unsaved])
  | @map todo hpc hfile hshown hloose =>
    have hnil : s.killed.shown = [] := by simp [State.killed, State.kept, hpc, hshown]
    have hunsaved : s.killed.loose = unsaved todo := by
      simp [State.killed, hpc, hloose, Pc.unsaved]
    rcases hfile.killed with ⟨hunsigned, hnot⟩ | ⟨hmarked, hcontent⟩
    · exact .blank (Or.inl rfl) hunsigned hnil (hunsaved.trans hnot)
    · exact .stored (Or.inl rfl) (.of_content (hunsaved ▸ hmarked) hcontent (Or.inl hnil))
  | stored hpc hfile =>
    have hsame : s.killed = { s with pc := .off } := by
      rcases hpc with hpc | hpc | hpc <;> simp [State.killed, State.kept, hpc, Pc.unsaved]
    rw [hsame]
    exact .stored (Or.inl rfl) ⟨hfile.1, hfile.2, hfile.3, hfile.4⟩
  | translate hpc hmarked hgreets =>
    have hnil : s.killed.shown = [] := by simp [State.killed, State.kept, hpc]
    have hloose : s.killed.loose = s.loose := by simp [State.killed, hpc, Pc.unsaved]
    refine .stored (Or.inl rfl) ⟨hloose ▸ hmarked, hgreets, fun lang hlang => ?_, hnil ▸ .nil⟩
    simp [hnil] at hlang

/-- What a power failure leaves of a file with a greeting. -/
theorem Inv.failed_of_greets (hgreets : Greets s.pmem)
    (hlast : ∀ lang, s.kept.getLast? = some lang → Contains s.pmem (helloBytes lang))
    (hchain : s.kept.IsChain (· ≠ ·)) (hc : s.pmem.Crash img) : Inv (s.failed img) := by
  cases hsig : signed img with
  | false => exact .blank (Or.inl rfl) (.ofImage hsig) (by simp [State.failed, hsig]) rfl
  | true =>
    have hkept : (s.failed img).shown = s.kept := by simp [State.failed, hsig]
    refine .stored (Or.inl rfl) ⟨.of_signed (.of_signed hsig),
      fun i hi => (hgreets i hi).crash_ofImage hc, fun lang hlang => ?_, hkept ▸ hchain⟩
    exact (hlast lang (hkept ▸ hlang)).crash_ofImage hc

theorem Inv.failed (h : Inv s) (hc : s.pmem.Crash img) : Inv (s.failed img) := by
  cases h with
  | blank _ hfile _ _ =>
    have hsig := hfile.crash hc
    exact .blank (Or.inl rfl) (.ofImage hsig) (by simp [State.failed, hsig]) rfl
  | map hpc hfile hshown _ =>
    have hnil : s.kept = [] := by simp [State.kept, hpc, hshown]
    cases hsig : signed img with
    | false => exact .blank (Or.inl rfl) (.ofImage hsig) (by simp [State.failed, hsig]) rfl
    | true =>
      refine .stored (Or.inl rfl) (.of_content (.of_signed (.of_signed hsig)) (hfile.crash hc hsig)
        (Or.inl ?_))
      simp [State.failed, hnil]
  | stored hpc hfile =>
    have hkept : s.kept = s.shown := by
      rcases hpc with hpc | hpc | hpc <;> simp [State.kept, hpc]
    exact failed_of_greets hfile.greets (hkept.symm ▸ hfile.last) (hkept.symm ▸ hfile.chain) hc
  | translate hpc _ hgreets =>
    have hnil : s.kept = [] := by simp [State.kept, hpc]
    exact failed_of_greets hgreets (by simp [hnil]) (hnil ▸ .nil) hc

theorem Inv.step (h : Inv s) (hstep : Step s s') : Inv s' := by
  cases hstep with
  | run hs => exact h.run hs
  | kill => exact h.killed
  | powerFail hc => exact h.failed hc

/-- **In every reachable state.** -/
theorem Reachable.inv {size : Nat} (hnew : signed img = false) (h : Reachable size img s) :
    Inv s := by
  induction h with
  | refl => exact .blank (Or.inl rfl) (.ofImage hnew) rfl rfl
  | tail _ hstep ih => exact ih.step hstep

end Inv

end Rpma.Gpspm.Hello
