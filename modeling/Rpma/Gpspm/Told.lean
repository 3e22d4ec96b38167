import Rpma.Gpspm.Flush

/-!
# What a client has been told is persistent

A session goes through nine stages (`Session`), from the `rpma_write` of the client to the delivery
of the response. From the seventh on the greeting is durable.

* **`told_survives`**: what any power failure leaves of the file of the server after any run. What a
  client was told of is lost only if a server was killed before it had persisted the signature of a
  new file: the next server takes the file as valid, and does not persist the signature either.
* **`new_value_printed`**: what the server prints at the end of a connection.
-/

namespace Rpma.Gpspm.Flush

open Rpma.Lib Rpma.Lib.CText Relation

variable {request : Codec FlushRequest} {response : Codec FlushResponse}

/-! ## The file of the server -/

/-- The greeting that the client was told of, or the empty string of a new file. -/
def Settled (told : Option (List UInt8)) (i : Nat) (b : UInt8) : Prop :=
  match told with
  | none => i = 0 → b = 0
  | some g => g[i]? = some b

/-- What the byte `i` behind the signature can be: that of the confirmed greeting, or of one whose
write was posted since. -/
def allowed (told : Option (List UInt8)) (since : List (List UInt8)) (i : Nat) : Set UInt8 :=
  {b | Settled told i b ∨ ∃ g ∈ since, g[i]? = some b}

/-- The file with the signature. -/
structure File (loose : Bool) (told : Option (List UInt8)) (since : List (List UInt8)) (p : Pmem) :
    Prop where
  marked : Marked loose p
  bytes : ∀ i < kilobyte, p.Within (signatureLen + i) (allowed told since i)

section File

variable {loose : Bool} {told : Option (List UInt8)} {since : List (List UInt8)} {p : Pmem}
  {img : Image} {str : List UInt8}

theorem File.of_content (hmarked : Marked loose p) (hcontent : Contains p (content kilobyte)) :
    File loose none since p := by
  refine ⟨hmarked, fun i hi => ?_⟩
  by_cases h0 : i = 0
  · subst h0
    exact (hcontent 0 (by decide)).within (Or.inl fun _ => rfl)
  · exact fun w hw => Or.inl fun hi0 => absurd hi0 h0

theorem File.crash_ofImage (h : File loose told since p) (hc : p.Crash img)
    (hsig : signed img = true) : File false told since (.ofImage img) :=
  ⟨.of_signed (.of_signed hsig), fun i hi => (h.bytes i hi).crash_ofImage hc⟩

theorem File.persist (h : File loose told since p) {a n : Nat} :
    File loose told since (p.persist a n) :=
  ⟨h.marked.persist, fun i hi => (h.bytes i hi).persist⟩

/-- The write of a greeting is posted. -/
theorem File.give (h : File loose told since p) (str : List UInt8) :
    File loose told (since ++ [str]) p := by
  refine ⟨h.marked, fun i hi => (h.bytes i hi).mono fun b hb => ?_⟩
  exact hb.imp_right fun ⟨g, hg, hgb⟩ => ⟨g, List.mem_append_left _ hg, hgb⟩

/-- It is executed. -/
theorem File.write (h : File loose told since p) (hstr : str ∈ since) :
    File loose told since (p.storeBytes signatureLen str) := by
  refine ⟨h.marked.storeBytes (Nat.le_refl _), fun i hi => (h.bytes i hi).storeBytes ?_⟩
  intro j hj hij
  obtain rfl : i = j := Nat.add_left_cancel hij
  exact Or.inr ⟨str, hstr, List.getElem?_eq_getElem hj⟩

/-- It is durable, and the client is told so. -/
theorem File.tell (h : File loose told since p) (hstr : Contains p str)
    (hlen : str.length = kilobyte) : File loose (some str) [] p := by
  refine ⟨h.marked, fun i hi => ?_⟩
  have hi' : i < str.length := hlen ▸ hi
  exact (hstr i hi').within (Or.inl (List.getElem?_eq_getElem hi'))

end File

/-! ## The stages of a session -/

/-- Nobody is connected. -/
structure Quiet (s : State) : Prop where
  client : s.client = none
  toServer : s.toServer = []
  toClient : s.toClient = []
  rcq : s.rcq = []
  newValue : s.newValue = none

/-- What the client has posted and the server's queue pair has not executed: the stages are the write
posted (1) and executed (2), the request posted behind the write (3), alone in the queue (4), and
delivered (5). -/
def requestsAt (request : Codec FlushRequest) (str : List UInt8) : Nat → List Wr
  | 1 => [.write (.ofNat signatureLen) str]
  | 3 => [.write (.ofNat signatureLen) str, .send (request.pack flushReq)]
  | 4 => [.send (request.pack flushReq)]
  | _ => []

/-- Then the server has taken the request (6), has made the range persistent (7), and has posted the
response (8), which is delivered (9). -/
def ServerAt (j : Nat) : ServerPc → Prop
  | .recvWait => j ≤ 5
  | .persist req => j = 6 ∧ req = flushReq
  | .respond req => j = 7 ∧ req = flushReq
  | .sendWait | .closeWait => 8 ≤ j
  | .closed => 7 ≤ j
  | _ => False

def ClientAt (j : Nat) : ClientPc → Prop
  | .write => j = 0
  | .recv | .send => j = 1 ∨ j = 2
  | .sendWait | .recvWait => 3 ≤ j ∧ j ≤ 9
  | .confirmed | .closed => False

/-- The client has taken the response, or it has left. -/
def ClientEnded (j : Nat) : ClientPc → Prop
  | .confirmed => j = 9
  | .closed => True
  | _ => False

structure Session (request : Codec FlushRequest) (response : Codec FlushResponse) (s : State)
    (cl : Client) (j : Nat) : Prop where
  size : mapSize kilobyte ≤ s.size
  len : cl.str.length = kilobyte
  file : File s.loose s.told s.since s.pmem
  given : 1 ≤ j → j ≤ 8 → cl.str ∈ s.since
  written : j = 2 ∨ 4 ≤ j → ∀ i (h : i < cl.str.length), s.pmem.read (signatureLen + i) = cl.str[i]
  durable : 7 ≤ j → Contains s.pmem cl.str
  told : j = 9 → s.told = some cl.str
  toServer : s.toServer = requestsAt request cl.str j
  rcq : s.rcq = if j = 5 then [⟨.recv, request.pack flushReq⟩] else []
  toClient : s.toClient = if j = 8 then [response.pack ⟨flushId⟩] else []
  server : ServerAt j s.server
  client : s.client = some cl
  clientAt : ClientEnded j cl.pc ∨
    ClientAt j cl.pc ∧ cl.rcq = if j = 9 then [⟨.recv, response.pack ⟨flushId⟩⟩] else []
  newValue : ∀ v, s.newValue = some v → (0 : UInt8) ∈ cl.str → v = cl.str.takeWhile (· ≠ 0)

/-- What holds in every reachable state, by where the server is. -/
inductive Inv (request : Codec FlushRequest) (response : Codec FlushResponse) (s : State) : Prop
  | blank (hpc : s.server = .off ∨ s.server = .check ∧ mapSize kilobyte ≤ s.size) (hquiet : Quiet s)
      (hfile : Unsigned s.pmem) (htold : s.told = none) (hloose : s.loose = false)
  | map {todo : List MemOp} (hpc : s.server = .map todo) (hsize : mapSize kilobyte ≤ s.size)
      (hquiet : Quiet s) (hfile : Making kilobyte s.pmem todo) (htold : s.told = none)
      (hloose : s.loose = false)
  | stored (hpc : s.server = .off ∨
      (s.server = .check ∨ s.server = .listen) ∧ mapSize kilobyte ≤ s.size) (hquiet : Quiet s)
      (hfile : File s.loose s.told s.since s.pmem)
  | session {cl : Client} {j : Nat} (hsession : Session request response s cl j)

section Session

variable {s s' : State} {cl : Client} {j k : Nat} {img : Image} {pc : ClientPc}

theorem ClientAt.mono (h : ClientAt j pc) (hj : 3 ≤ j) (hk : 3 ≤ k ∧ k ≤ 9) : ClientAt k pc := by
  cases pc with
  | write =>
    have h0 : j = 0 := h
    omega
  | recv =>
    have h2 : j = 1 ∨ j = 2 := h
    omega
  | send =>
    have h2 : j = 1 ∨ j = 2 := h
    omega
  | sendWait => exact hk
  | recvWait => exact hk
  | confirmed => exact h
  | closed => exact h

/-- Up to the delivery of the response only a client that has left is at its end. -/
theorem ClientEnded.mono (h : ClientEnded j pc) (hj : j ≠ 9) : ClientEnded k pc := by
  cases pc with
  | write => exact h
  | recv => exact h
  | send => exact h
  | sendWait => exact h
  | recvWait => exact h
  | confirmed => exact absurd h hj
  | closed => trivial

/-- The client does not see that its write is executed. -/
theorem ClientAt.landed (h : ClientAt j pc) (hj : j = 1 ∨ j = 3) : ClientAt (j + 1) pc := by
  cases pc with
  | write =>
    have h0 : j = 0 := h
    omega
  | recv =>
    have h2 : j = 1 ∨ j = 2 := h
    exact Or.inr (by omega)
  | send =>
    have h2 : j = 1 ∨ j = 2 := h
    exact Or.inr (by omega)
  | sendWait =>
    have h3 : 3 ≤ j ∧ j ≤ 9 := h
    exact ⟨by omega, by omega⟩
  | recvWait =>
    have h3 : 3 ≤ j ∧ j ≤ 9 := h
    exact ⟨by omega, by omega⟩
  | confirmed => exact h
  | closed => exact h

/-- Up to the fifth stage the server waits. -/
theorem ServerAt.early {pc : ServerPc} (h : ServerAt j pc) (hj : j ≤ 5) (hk : k ≤ 5) :
    ServerAt k pc := by
  cases pc with
  | recvWait => exact hk
  | persist req =>
    have h6 : j = 6 := h.1
    omega
  | respond req =>
    have h7 : j = 7 := h.1
    omega
  | sendWait =>
    have h8 : 8 ≤ j := h
    omega
  | closeWait =>
    have h8 : 8 ≤ j := h
    omega
  | closed =>
    have h7 : 7 ≤ j := h
    omega
  | off => exact h
  | check => exact h
  | map todo => exact h
  | listen => exact h

/-- From the eighth stage on it only has to end. -/
theorem ServerAt.late {pc : ServerPc} (h : ServerAt j pc) (hj : 8 ≤ j) (hk : 8 ≤ k) :
    ServerAt k pc := by
  cases pc with
  | recvWait =>
    have h5 : j ≤ 5 := h
    omega
  | persist req =>
    have h6 : j = 6 := h.1
    omega
  | respond req =>
    have h7 : j = 7 := h.1
    omega
  | sendWait => exact hk
  | closeWait => exact hk
  | closed => exact Nat.le_of_succ_le hk
  | off => exact h
  | check => exact h
  | map todo => exact h
  | listen => exact h

/-! ### The server -/

/-- The server takes the request. -/
theorem Session.recvWait (h : Session request response s cl j) (hpc : s.server = .recvWait)
    (hs : s.serverStep request response = some s') : Session request response s' cl 6 := by
  have hrcq := h.rcq
  simp only [State.serverStep, hpc] at hs
  split at hs
  · cases hs
  · rename_i wc rcq hwc
    rw [hwc] at hrcq
    have h5 : j = 5 := by
      by_contra hne
      simp [hne] at hrcq
    subst h5
    simp only [if_true, List.cons.injEq] at hrcq
    obtain ⟨rfl, rfl⟩ := hrcq
    simp only [if_true, request.unpack_pack] at hs
    obtain rfl := Option.some.inj hs
    exact { h with
      given := fun _ _ => h.given (by omega) (by omega)
      written := fun _ => h.written (by omega)
      durable := fun h7 => absurd h7 (by omega)
      told := fun h9 => absurd h9 (by omega)
      rcq := rfl
      server := ⟨rfl, rfl⟩
      clientAt := h.clientAt.imp (·.mono (by omega)) fun ⟨hat, hcl⟩ => ⟨hat.mono (by omega) (by omega), hcl⟩ }

/-- It makes the range of the request persistent. -/
theorem Session.persist {req : FlushRequest} (h : Session request response s cl j)
    (hpc : s.server = .persist req) (hs : s.serverStep request response = some s') :
    Session request response s' cl 7 := by
  have hat : ServerAt j (.persist req) := hpc ▸ h.server
  obtain ⟨rfl, rfl⟩ := hat
  simp only [State.serverStep, hpc, Option.some.injEq] at hs
  subst hs
  have hread := h.written (by omega)
  exact { h with
    file := h.file.persist
    given := fun _ _ => h.given (by omega) (by omega)
    written := fun _ i hi => by
      rw [Pmem.read_persist]
      exact hread i hi
    durable := fun _ i hi => by
      have hi' : i < kilobyte := h.len ▸ hi
      exact hread i hi ▸ Pmem.holds_persist ⟨Nat.le_add_right .., Nat.add_lt_add_left hi' _⟩
    told := fun h9 => absurd h9 (by omega)
    server := ⟨rfl, rfl⟩
    clientAt := h.clientAt.imp (·.mono (by omega)) fun ⟨hat, hcl⟩ => ⟨hat.mono (by omega) (by omega), hcl⟩ }

/-- It posts the response. -/
theorem Session.respond {req : FlushRequest} (h : Session request response s cl j)
    (hpc : s.server = .respond req) (hs : s.serverStep request response = some s') :
    ∃ k, Session request response s' cl k := by
  have hat : ServerAt j (.respond req) := hpc ▸ h.server
  obtain ⟨rfl, rfl⟩ := hat
  simp only [State.serverStep, hpc] at hs
  split at hs
  · obtain rfl := Option.some.inj hs
    exact ⟨7, { h with server := Nat.le_refl 7 }⟩
  · obtain rfl := Option.some.inj hs
    have hnone : s.toClient = [] := h.toClient
    exact ⟨8, { h with
      given := fun _ _ => h.given (by omega) (by omega)
      written := fun _ => h.written (by omega)
      durable := fun _ => h.durable (by omega)
      told := fun h9 => absurd h9 (by omega)
      toClient := by
        rw [hnone]
        rfl
      server := Nat.le_refl 8
      clientAt := h.clientAt.imp (·.mono (by omega)) fun ⟨hat, hcl⟩ => ⟨hat.mono (by omega) (by omega), hcl⟩ }⟩

/-- A string that is in memory is printed up to its end. -/
theorem takeWhile_bytesAt {mem : Image} {a n : Nat} {str : List UInt8} (hn : str.length ≤ n)
    (hread : ∀ i (h : i < str.length), mem (a + i) = str[i]) (hend : (0 : UInt8) ∈ str) :
    (bytesAt mem a n).takeWhile (· ≠ 0) = str.takeWhile (· ≠ 0) := by
  have hstr : bytesAt mem a str.length = str := by
    refine List.ext_getElem (by simp) fun i hi hi' => ?_
    simp [bytesAt, hread i hi']
  obtain ⟨m, rfl⟩ := Nat.exists_eq_add_of_le hn
  rw [bytesAt_add, hstr, takeWhile_append_of_mem hend]

theorem Session.serverStep (h : Session request response s cl j)
    (hs : s.serverStep request response = some s') : ∃ k, Session request response s' cl k := by
  have hat := h.server
  cases hpc : s.server with
  | off => simp [hpc, ServerAt] at hat
  | check => simp [hpc, ServerAt] at hat
  | map todo => simp [hpc, ServerAt] at hat
  | listen => simp [hpc, ServerAt] at hat
  | recvWait => exact ⟨6, h.recvWait hpc hs⟩
  | persist req => exact ⟨7, h.persist hpc hs⟩
  | respond req => exact h.respond hpc hs
  | sendWait =>
    have h8 : 8 ≤ j := by rwa [hpc] at hat
    simp only [State.serverStep, hpc] at hs
    split at hs
    · cases hs
    · obtain rfl := Option.some.inj hs
      refine ⟨j, { h with server := ?_ }⟩
      dsimp only
      split
      · exact h8
      · exact Nat.le_of_succ_le h8
  | closeWait =>
    have h8 : 8 ≤ j := by rwa [hpc] at hat
    simp only [State.serverStep, hpc] at hs
    split at hs
    · obtain rfl := Option.some.inj hs
      refine ⟨j, { h with
        server := Nat.le_of_succ_le h8
        newValue := fun v hv hend => ?_ }⟩
      obtain rfl := Option.some.inj hv
      refine takeWhile_bytesAt ?_ (h.written (by omega)) hend
      have hsize : signatureLen + kilobyte ≤ s.size := h.size
      rw [h.len]
      exact Nat.le_sub_of_add_le' hsize
    · cases hs
  | closed => simp [State.serverStep, hpc] at hs

/-! ### The client -/

/-- The client is at another call. -/
theorem Session.withClient (h : Session request response s cl j) {cl' : Client}
    (hs' : s' = { s with client := some cl' }) (hstr : cl'.str = cl.str)
    (hat : ClientEnded j cl'.pc ∨
      ClientAt j cl'.pc ∧ cl'.rcq = if j = 9 then [⟨.recv, response.pack ⟨flushId⟩⟩] else []) :
    Session request response s' cl' j := by
  subst hs'
  exact { h with
    len := hstr ▸ h.len
    given := hstr ▸ h.given
    written := hstr ▸ h.written
    durable := hstr ▸ h.durable
    told := hstr ▸ h.told
    toServer := hstr ▸ h.toServer
    client := rfl
    clientAt := hat
    newValue := hstr ▸ h.newValue }

/-- The client posts its write. -/
theorem Session.post (h : Session request response s cl 0)
    (hrcq : cl.rcq = []) : Session request response
      { s with
        client := some { cl with pc := .recv }
        toServer := s.toServer ++ [.write (.ofNat signatureLen) cl.str]
        since := s.since ++ [cl.str] } { cl with pc := .recv } 1 := by
  have hnone : s.toServer = [] := h.toServer
  exact { h with
    file := h.file.give cl.str
    given := fun _ _ => List.mem_append_right _ List.mem_cons_self
    written := fun h4 => absurd h4 (by omega)
    durable := fun h7 => absurd h7 (by omega)
    told := fun h9 => absurd h9 (by omega)
    toServer := by
      rw [hnone]
      rfl
    server := h.server.early (by omega) (by omega)
    client := rfl
    clientAt := Or.inr ⟨Or.inl rfl, hrcq⟩ }

/-- It posts its request, behind the write or after it. -/
theorem Session.send (h : Session request response s cl j) (hj : j = 1 ∨ j = 2)
    (hrcq : cl.rcq = []) : Session request response
      { s with
        client := some { cl with pc := .sendWait }
        toServer := s.toServer ++ [.send (request.pack flushReq)] }
      { cl with pc := .sendWait } (j + 2) := by
  have htoServer := h.toServer
  have hwritten := h.written
  have hgiven := h.given (by omega) (by omega)
  rcases hj with rfl | rfl
  · exact { h with
      given := fun _ _ => hgiven
      written := fun h4 => absurd h4 (by omega)
      durable := fun h7 => absurd h7 (by omega)
      told := fun h9 => absurd h9 (by omega)
      toServer := by
        rw [htoServer]
        rfl
      server := h.server.early (by omega) (by omega)
      client := rfl
      clientAt := Or.inr ⟨⟨Nat.le_refl 3, by omega⟩, hrcq⟩ }
  · exact { h with
      given := fun _ _ => hgiven
      written := fun _ => hwritten (by omega)
      durable := fun h7 => absurd h7 (by omega)
      told := fun h9 => absurd h9 (by omega)
      toServer := by
        rw [htoServer]
        rfl
      server := h.server.early (by omega) (by omega)
      client := rfl
      clientAt := Or.inr ⟨⟨by omega, by omega⟩, hrcq⟩ }

theorem Session.clientStep (h : Session request response s cl j)
    (hs : s.clientStep request response = some s') :
    ∃ cl' k, Session request response s' cl' k := by
  have hat := h.clientAt
  simp only [State.clientStep, h.client] at hs
  cases hpc : cl.pc with
  | write =>
    simp only [hpc] at hs hat
    obtain ⟨hj, hrcq⟩ := hat.resolve_left id
    obtain rfl : j = 0 := hj
    split at hs
    · obtain rfl := Option.some.inj hs
      exact ⟨_, 0, h.withClient rfl rfl (Or.inl trivial)⟩
    · obtain rfl := Option.some.inj hs
      exact ⟨_, 1, h.post hrcq⟩
  | recv =>
    simp only [hpc] at hs hat
    obtain rfl := Option.some.inj hs
    exact ⟨_, j, h.withClient rfl rfl (Or.inr (hat.resolve_left id))⟩
  | send =>
    simp only [hpc] at hs hat
    obtain ⟨hj, hrcq⟩ := hat.resolve_left id
    have h12 : j = 1 ∨ j = 2 := hj
    split at hs
    · obtain rfl := Option.some.inj hs
      exact ⟨_, j, h.withClient rfl rfl (Or.inl trivial)⟩
    · obtain rfl := Option.some.inj hs
      rw [if_neg (by omega)] at hrcq
      exact ⟨_, j + 2, h.send h12 hrcq⟩
  | sendWait =>
    simp only [hpc] at hs hat
    obtain ⟨hj, hrcq⟩ := hat.resolve_left id
    split at hs
    · cases hs
    · obtain rfl := Option.some.inj hs
      refine ⟨_, j, h.withClient rfl rfl ?_⟩
      dsimp only
      split
      · exact Or.inr ⟨hj, hrcq⟩
      · exact Or.inl trivial
  | recvWait =>
    simp only [hpc] at hs hat
    obtain ⟨hj, hrcq⟩ := hat.resolve_left id
    split at hs
    · cases hs
    · rename_i wc rcq hwc
      rw [hwc] at hrcq
      have h9 : j = 9 := by
        by_contra hne
        simp [hne] at hrcq
      subst h9
      simp only [if_true, List.cons.injEq] at hrcq
      obtain ⟨rfl, rfl⟩ := hrcq
      simp only [if_true, response.unpack_pack, ne_eq, not_true_eq_false, if_false] at hs
      obtain rfl := Option.some.inj hs
      exact ⟨_, 9, h.withClient rfl rfl (Or.inl rfl)⟩
  | confirmed =>
    simp only [hpc] at hs
    obtain rfl := Option.some.inj hs
    exact ⟨_, j, h.withClient rfl rfl (Or.inl trivial)⟩
  | closed => simp [hpc] at hs

/-! ### The queue pairs -/

/-- The write is executed. -/
theorem Session.land (h : Session request response s cl j) (hj : j = 1 ∨ j = 3) :
    Session request response
      { s with
        toServer := requestsAt request cl.str (j + 1)
        pmem := s.pmem.storeBytes signatureLen cl.str } cl (j + 1) :=
  { h with
    file := h.file.write (h.given (by omega) (by omega))
    given := fun _ _ => h.given (by omega) (by omega)
    written := fun _ i hi => Pmem.read_storeBytes s.pmem signatureLen cl.str i hi
    durable := fun h7 => absurd h7 (by omega)
    told := fun h9 => absurd h9 (by omega)
    toServer := rfl
    rcq := by
      have hrcq := h.rcq
      rw [if_neg (by omega)] at hrcq ⊢
      exact hrcq
    toClient := by
      have hmsgs := h.toClient
      rw [if_neg (by omega)] at hmsgs ⊢
      exact hmsgs
    server := h.server.early (by omega) (by omega)
    clientAt := h.clientAt.imp (·.mono (by omega)) fun ⟨hat, hcl⟩ => by
      rw [if_neg (by omega)] at hcl ⊢
      exact ⟨hat.landed hj, hcl⟩ }

/-- The request is delivered. -/
theorem Session.deliver (h : Session request response s cl 4) (n : Nat) :
    Session request response
      { s with
        toServer := []
        recvs := n
        rcq := s.rcq ++ [⟨.recv, request.pack flushReq⟩]
        client := some { cl with cq := cl.cq ++ [⟨.send, []⟩] } }
      { cl with cq := cl.cq ++ [⟨.send, []⟩] } 5 := by
  have hrcq : s.rcq = [] := h.rcq
  exact { h with
    given := fun _ _ => h.given (by omega) (by omega)
    written := fun _ => h.written (by omega)
    durable := fun h7 => absurd h7 (by omega)
    told := fun h9 => absurd h9 (by omega)
    toServer := rfl
    rcq := by
      rw [hrcq]
      rfl
    server := h.server.early (by omega) (by omega)
    client := rfl
    clientAt := h.clientAt.imp (·.mono (by omega)) fun ⟨hat, hcl⟩ => ⟨hat.mono (by omega) (by omega), hcl⟩ }

theorem Session.nicServer (h : Session request response s cl j) (hs : s.nicServer = some s') :
    ∃ cl' k, Session request response s' cl' k := by
  have hrequests := h.toServer
  unfold State.nicServer at hs
  unfold requestsAt at hrequests
  split at hrequests
  · -- the write alone
    simp only [hrequests] at hs
    split at hs
    · cases hs
    · exact Option.some.inj hs ▸ ⟨cl, 2, h.land (Or.inl rfl)⟩
  · -- the write, with the request behind it
    simp only [hrequests] at hs
    split at hs
    · cases hs
    · exact Option.some.inj hs ▸ ⟨cl, 4, h.land (Or.inr rfl)⟩
  · simp only [hrequests, h.client, Option.map_some] at hs
    split at hs
    · cases hs
    · exact Option.some.inj hs ▸ ⟨_, 5, h.deliver _⟩
  · simp [hrequests] at hs

theorem Session.nicClient (h : Session request response s cl j) (hs : s.nicClient response = some s') :
    ∃ cl' k, Session request response s' cl' k := by
  have hmsgs := h.toClient
  by_cases h8 : j = 8
  · subst h8
    have hconfirms : confirms response (response.pack ⟨flushId⟩) = true := by
      simp [confirms, response.unpack_pack]
    simp only [State.nicClient, hmsgs, h.client, if_true, hconfirms] at hs
    split at hs
    · cases hs
    · obtain rfl := Option.some.inj hs
      refine ⟨{ cl with
        recvs := cl.recvs - 1
        rcq := cl.rcq ++ [⟨.recv, response.pack ⟨flushId⟩⟩] }, 9, { h with
        file := h.file.tell (h.durable (by omega)) h.len
        given := fun _ h8 => absurd h8 (by omega)
        written := fun _ => h.written (by omega)
        durable := fun _ => h.durable (by omega)
        told := fun _ => rfl
        toClient := rfl
        server := h.server.late (by omega) (by omega)
        client := rfl
        clientAt := h.clientAt.imp (·.mono (by omega)) fun ⟨hat, hcl⟩ => ?_ }⟩
      have hnone : cl.rcq = [] := hcl
      exact ⟨hat.mono (by omega) (by omega), by simp [hnone]⟩
  · rw [if_neg h8] at hmsgs
    simp [State.nicClient, hmsgs] at hs

theorem Session.left (h : Session request response s cl j) :
    Session request response s.left { cl with pc := .closed } j := by
  refine h.withClient ?_ rfl (Or.inl trivial)
  simp [State.left, h.client]

end Session

/-! ## Runs -/

section Inv

variable {s s' : State} {img : Image} {p : Pmem}

theorem Quiet.congr (h : Quiet s) (hc : s'.client = s.client) (hs : s'.toServer = s.toServer)
    (ht : s'.toClient = s.toClient) (hr : s'.rcq = s.rcq) (hn : s'.newValue = s.newValue) :
    Quiet s' :=
  ⟨hc.trans h.client, hs.trans h.toServer, ht.trans h.toClient, hr.trans h.rcq,
    hn.trans h.newValue⟩

/-- The server starts. -/
theorem Inv.serverStep (h : Inv request response s)
    (hs : s.serverStep request response = some s') : Inv request response s' := by
  cases h with
  | blank hpc hquiet hfile htold hloose =>
    rcases hpc with hpc | ⟨hpc, hsize⟩
    · simp only [State.serverStep, hpc] at hs
      split at hs
      · cases hs
      · rename_i hsize
        obtain rfl := Option.some.inj hs
        exact .blank (Or.inr ⟨rfl, Nat.le_of_not_lt hsize⟩) (hquiet.congr rfl rfl rfl rfl rfl) hfile
          htold hloose
    · simp only [State.serverStep, hpc, hfile.read] at hs
      obtain rfl := Option.some.inj hs
      exact .map rfl hsize (hquiet.congr rfl rfl rfl rfl rfl) (.start hfile) htold hloose
  | map hpc hsize hquiet hfile htold hloose =>
    rename_i todo
    cases todo with
    | nil =>
      simp only [State.serverStep, hpc] at hs
      obtain rfl := Option.some.inj hs
      refine .stored (Or.inr ⟨Or.inr rfl, hsize⟩) (hquiet.congr rfl rfl rfl rfl rfl) ?_
      obtain ⟨hsigned, hcontent⟩ := hfile.finished
      exact htold ▸ File.of_content (.of_signed hsigned) hcontent
    | cons op todo =>
      simp only [State.serverStep, hpc] at hs
      obtain rfl := Option.some.inj hs
      exact .map rfl hsize (hquiet.congr rfl rfl rfl rfl rfl) hfile.step htold hloose
  | stored hpc hquiet hfile =>
    rcases hpc with hpc | ⟨hpc | hpc, hsize⟩
    · simp only [State.serverStep, hpc] at hs
      split at hs
      · cases hs
      · rename_i hsize
        obtain rfl := Option.some.inj hs
        exact .stored (Or.inr ⟨Or.inl rfl, Nat.le_of_not_lt hsize⟩)
          (hquiet.congr rfl rfl rfl rfl rfl) hfile
    · simp only [State.serverStep, hpc, hfile.marked.seen, if_true] at hs
      obtain rfl := Option.some.inj hs
      exact .stored (Or.inr ⟨Or.inr rfl, hsize⟩) (hquiet.congr rfl rfl rfl rfl rfl) hfile
    · simp [State.serverStep, hpc] at hs
  | session hsession =>
    obtain ⟨k, hk⟩ := hsession.serverStep hs
    exact .session hk

/-- A client connects. -/
theorem Inv.connect (h : Inv request response s) {str : List UInt8} (hpc : s.server = .listen)
    (hstr : str.length = helloStrSize) : Inv request response (s.connected str) := by
  cases h with
  | blank hpc' => simp [hpc] at hpc'
  | map hpc' => simp [hpc] at hpc'
  | stored hpc' hquiet hfile =>
    have hsize : mapSize kilobyte ≤ s.size := by simpa [hpc] using hpc'
    have hsession : Session request response (s.connected str) ⟨.write, str, 0, [], []⟩ 0 :=
      { size := hsize
        len := hstr
        file := hfile
        given := fun h1 => absurd h1 (by omega)
        written := fun h2 => absurd h2 (by omega)
        durable := fun h7 => absurd h7 (by omega)
        told := fun h9 => absurd h9 (by omega)
        toServer := hquiet.toServer
        rcq := hquiet.rcq
        toClient := hquiet.toClient
        server := Nat.zero_le 5
        client := rfl
        clientAt := Or.inr ⟨rfl, rfl⟩
        newValue := fun v hv => by
          rw [State.connected, hquiet.newValue] at hv
          cases hv }
    exact .session hsession
  | session hsession =>
    have hat := hsession.server
    simp [hpc, ServerAt] at hat

/-- A killed server leaves the file as it is. -/
theorem Inv.killed (h : Inv request response s) : Inv request response s.killed := by
  have hquiet : Quiet s.killed := ⟨rfl, rfl, rfl, rfl, rfl⟩
  cases h with
  | blank hpc _ hfile htold hloose =>
    refine .blank (Or.inl rfl) hquiet hfile htold ?_
    rcases hpc with hpc | ⟨hpc, -⟩ <;> simp [State.killed, hpc, hloose, ServerPc.unsaved]
  | @map todo hpc _ _ hfile htold hloose =>
    have hunsaved : s.killed.loose = unsaved todo := by
      simp [State.killed, hpc, hloose, ServerPc.unsaved]
    rcases hfile.killed with ⟨hunsigned, hnot⟩ | ⟨hmarked, hcontent⟩
    · exact .blank (Or.inl rfl) hquiet hunsigned htold (hunsaved.trans hnot)
    · refine .stored (Or.inl rfl) hquiet ?_
      have htold' : s.killed.told = none := htold
      rw [htold', hunsaved]
      exact .of_content hmarked hcontent
  | stored hpc _ hfile =>
    refine .stored (Or.inl rfl) hquiet ?_
    have hloose : s.killed.loose = s.loose := by
      rcases hpc with hpc | ⟨hpc | hpc, -⟩ <;> simp [State.killed, hpc, ServerPc.unsaved]
    rw [hloose]
    exact hfile
  | session hsession =>
    refine .stored (Or.inl rfl) hquiet ?_
    have hat := hsession.server
    have hloose : s.killed.loose = s.loose := by
      cases hpc : s.server <;> simp [State.killed, hpc, ServerPc.unsaved, ServerAt] at hat ⊢
    rw [hloose]
    exact hsession.file

/-- A power failure that loses the signature loses the file. -/
theorem Inv.failed_of_unsigned (s : State) (hsig : signed img = false) :
    Inv request response (s.failed img) :=
  .blank (Or.inl rfl) ⟨rfl, rfl, rfl, rfl, rfl⟩ (.ofImage hsig) (by simp [State.failed, hsig]) rfl

theorem Inv.failed_of_file (hfile : File s.loose s.told s.since s.pmem) (hc : s.pmem.Crash img) :
    Inv request response (s.failed img) := by
  cases hsig : signed img with
  | false => exact failed_of_unsigned s hsig
  | true =>
    refine .stored (Or.inl rfl) ⟨rfl, rfl, rfl, rfl, rfl⟩ ?_
    have hsame : s.failed img = { State.start s.size img with told := s.told, since := s.since } := by
      simp [State.failed, hsig]
    rw [hsame]
    exact hfile.crash_ofImage hc hsig

theorem Inv.failed (h : Inv request response s) (hc : s.pmem.Crash img) :
    Inv request response (s.failed img) := by
  cases h with
  | blank _ _ hfile _ _ => exact failed_of_unsigned s (hfile.crash hc)
  | map _ _ _ hfile htold _ =>
    cases hsig : signed img with
    | false => exact failed_of_unsigned s hsig
    | true =>
      refine .stored (Or.inl rfl) ⟨rfl, rfl, rfl, rfl, rfl⟩ ?_
      have htold' : (s.failed img).told = none := by simp [State.failed, htold]
      rw [htold']
      exact .of_content (.of_signed (.of_signed hsig)) (hfile.crash hc hsig)
  | stored _ _ hfile => exact failed_of_file hfile hc
  | session hsession => exact failed_of_file hsession.file hc

theorem Quiet.left (h : Quiet s) : Quiet s.left :=
  h.congr (by simp [State.left, h.client]) rfl rfl rfl rfl

theorem Inv.step (h : Inv request response s) (hstep : Step request response s s') :
    Inv request response s' := by
  cases hstep with
  | server hs => exact h.serverStep hs
  | client hs =>
    cases h with
    | blank _ hquiet => simp [State.clientStep, hquiet.client] at hs
    | map _ _ hquiet => simp [State.clientStep, hquiet.client] at hs
    | stored _ hquiet => simp [State.clientStep, hquiet.client] at hs
    | session hsession =>
      obtain ⟨cl, k, hk⟩ := hsession.clientStep hs
      exact .session hk
  | nicServer hs =>
    cases h with
    | blank _ hquiet => simp [State.nicServer, hquiet.toServer] at hs
    | map _ _ hquiet => simp [State.nicServer, hquiet.toServer] at hs
    | stored _ hquiet => simp [State.nicServer, hquiet.toServer] at hs
    | session hsession =>
      obtain ⟨cl, k, hk⟩ := hsession.nicServer hs
      exact .session hk
  | nicClient hs =>
    cases h with
    | blank _ hquiet => simp [State.nicClient, hquiet.toClient] at hs
    | map _ _ hquiet => simp [State.nicClient, hquiet.toClient] at hs
    | stored _ hquiet => simp [State.nicClient, hquiet.toClient] at hs
    | session hsession =>
      obtain ⟨cl, k, hk⟩ := hsession.nicClient hs
      exact .session hk
  | connect hpc hstr => exact h.connect hpc hstr
  | leave =>
    cases h with
    | blank hpc hquiet hfile htold hloose => exact .blank hpc hquiet.left hfile htold hloose
    | map hpc hsize hquiet hfile htold hloose =>
      exact .map hpc hsize hquiet.left hfile htold hloose
    | stored hpc hquiet hfile => exact .stored hpc hquiet.left hfile
    | session hsession => exact .session hsession.left
  | kill => exact h.killed
  | powerFail hc => exact h.failed hc

/-- **In every reachable state.** -/
theorem Reachable.inv {size : Nat} (hnew : signed img = false)
    (h : Reachable request response size img s) : Inv request response s := by
  induction h with
  | refl => exact .blank (Or.inl rfl) ⟨rfl, rfl, rfl, rfl, rfl⟩ (.ofImage hnew) rfl rfl
  | tail _ hstep ih => exact ih.step hstep

/-- A client that has its confirmation. -/
theorem Inv.confirmed (h : Inv request response s) {cl : Client} (hcl : s.client = some cl)
    (hpc : cl.pc = .confirmed) : s.told = some cl.str := by
  cases h with
  | blank _ hquiet => simp [hquiet.client] at hcl
  | map _ _ hquiet => simp [hquiet.client] at hcl
  | stored _ hquiet => simp [hquiet.client] at hcl
  | session hsession =>
    obtain rfl := Option.some.inj (hsession.client.symm.trans hcl)
    have hat := hsession.clientAt
    rw [hpc] at hat
    exact hsession.told (hat.resolve_right And.left)

end Inv

/-- The English greeting. -/
def english : List UInt8 := strncpy (helloStr .en) (helloStrSize - 1) ++ [0]

/-- A client is told that its greeting is persistent. -/
def oneTold : List Act :=
  [.connect english, .client, .client, .client, .nicServer, .nicServer, .client, .server, .server,
    .server, .nicClient, .client]

/-- The server makes a new file before. -/
def oneGreeting : List Act := List.replicate 7 .server ++ oneTold

/-- **What the server prints** when the connection has ended is the greeting of the client that was
connected. -/
theorem new_value_printed (request : Codec FlushRequest) (response : Codec FlushResponse)
    (size : Nat) (img₀ : Image) (hnew : signed img₀ = false) (s : State)
    (h : Reachable request response size img₀ s) (v : List UInt8) (hv : s.newValue = some v) :
    ∃ cl, s.client = some cl ∧ ((0 : UInt8) ∈ cl.str → v = cl.str.takeWhile (· ≠ 0)) := by
  cases h.inv hnew with
  | blank _ hquiet => simp [hquiet.newValue] at hv
  | map _ _ hquiet => simp [hquiet.newValue] at hv
  | stored _ hquiet => simp [hquiet.newValue] at hv
  | session hsession => exact ⟨_, hsession.client, hsession.newValue v hv⟩

theorem new_value_printed_english :
    ∃ s v, Reachable requestCodec responseCodec 2048 (fun _ => 0) s ∧ s.newValue = some v ∧
      v = helloStr .en := by
  have hrun : ((State.start 2048 fun _ => 0).run requestCodec responseCodec
      (oneGreeting ++ [.client, .server, .server])).map
      (fun s => (s.newValue.isSome, s.client.map Client.str)) = some (true, some english) := by
    decide +kernel
  obtain ⟨s, hs, heq⟩ := Option.map_eq_some_iff.mp hrun
  obtain ⟨hsome, hclient⟩ := Prod.mk.inj heq
  obtain ⟨v, hv⟩ := Option.isSome_iff_exists.mp hsome
  have hreach := State.reachable_of_run hs
  obtain ⟨cl, hcl, hprinted⟩ :=
    new_value_printed requestCodec responseCodec 2048 _ (by decide) s hreach v hv
  rw [hcl] at hclient
  obtain hstr : cl.str = english := Option.some.inj hclient
  rw [hstr] at hprinted
  refine ⟨s, v, hreach, hv, (hprinted (List.mem_append_right _ List.mem_cons_self)).trans ?_⟩
  decide +kernel

end Rpma.Gpspm.Flush
