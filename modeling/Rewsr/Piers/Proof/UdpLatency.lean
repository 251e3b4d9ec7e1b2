import Mathlib.Algebra.Order.Group.Multiset
import Mathlib.Data.Multiset.Range
import Mathlib.Tactic.Abel
import Rewsr.Piers.UdpLoopback

/-!
# The latency benchmark

In every interleaving of the client, the echo server and the network a sample is taken of the echo
of a ping that was sent, and of no ping twice; if none is missing, they are in order
(`latency_samples`). Both goroutines end (`latency_ends`).
-/

namespace Rewsr.Piers.Udp

open Transition

variable {p : Params}

/-- What a read into the client's buffer returns of a ping. -/
def sample (i : Nat) : List UInt8 := (ping i).take 64

/-! ## The datagrams on their way -/

def ownPayloads (q : List Request) : List (List UInt8) :=
  (q.filter fun r => r.own).map fun r => r.payload

/-- What the server is about to send back to the client. -/
def Server.held : Server → List (List UInt8)
  | .write r => ownPayloads [r]
  | _ => []

namespace Latency

def flying (s : Latency) : Multiset (List UInt8) :=
  ↑s.out + ↑(ownPayloads s.echo.queue) + ↑s.server.held + ↑s.back + ↑s.conn.queue

/-- What the client has read, and what it could read of the datagrams on their way. -/
def readable (s : Latency) : Multiset (List UInt8) := ↑s.samples + s.flying.map (List.take 64)

end Latency

theorem ownPayloads_append (q q' : List Request) :
    ownPayloads (q ++ q') = ownPayloads q ++ ownPayloads q' := by
  simp [ownPayloads]

theorem ownPayloads_cons (r : Request) (q : List Request) :
    ownPayloads (r :: q) = ownPayloads [r] ++ ownPayloads q :=
  ownPayloads_append [r] q

theorem coe_middle {α : Type*} (as bs : List α) (d : α) :
    ((as ++ d :: bs : List α) : Multiset α) = {d} + ((as ++ bs : List α) : Multiset α) :=
  Multiset.coe_eq_coe.mpr List.perm_middle

/-- The server's buffer is larger than the client's. -/
theorem held_write_take (r : Request) :
    Multiset.map (List.take 64)
        (Multiset.ofList (Server.held (.write { r with payload := r.payload.take 65536 }))) =
      Multiset.map (List.take 64) (Multiset.ofList (ownPayloads [r])) := by
  cases hown : r.own <;> simp [Server.held, ownPayloads, hown, List.take_take]

/-- A step adds nothing to what can be read but a ping that is sent. -/
theorem LatencyStep.readable {s s' : Latency} {who : Party} (h : LatencyStep p s who s') :
    s'.readable ≤ s.readable ∨ ∃ i, s.client = .write i ∧ s'.client = .enter i ∧
      s'.readable = s.readable + {sample i} := by
  cases h with
  | dialed | undialed | deadlineSet | deadlineFailed | sampled | writeFailed | entered | refused
    | interrupted | closed | stopped | shut | clientExpired | serverExpired =>
    exact Or.inl (le_refl s.readable)
  | wrote hs =>
    refine Or.inr ⟨_, hs, rfl, ?_⟩
    simp only [Latency.readable, Latency.flying, ← Multiset.coe_add, Multiset.map_add,
      Multiset.coe_singleton, Multiset.map_singleton, sample]
    abel
  | read hs hq =>
    refine Or.inl (le_of_eq ?_)
    simp only [Latency.readable, Latency.flying, hq, ← Multiset.coe_add, Multiset.map_add,
      Multiset.map_singleton, ← Multiset.cons_coe,
      ← Multiset.singleton_add]
    abel
  | goesOn hs | leaves hs | serverArmed hs | serverEntered hs | serverRefused hs
    | serverInterrupted hs =>
    refine Or.inl (le_of_eq ?_)
    simp only [Latency.readable, Latency.flying, hs, Server.held, Sock.arm]
  | @serverRead r q hs hq =>
    refine Or.inl (le_of_eq ?_)
    have hqueue : (ownPayloads s.echo.queue : Multiset (List UInt8)) =
        ↑(ownPayloads [r]) + ↑(ownPayloads q) := by rw [hq, ownPayloads_cons, Multiset.coe_add]
    simp only [Latency.readable, Latency.flying, hqueue, hs, Multiset.map_add, held_write_take]
    simp only [Server.held, Multiset.coe_nil, Multiset.map_zero]
    abel
  | @echoed r hs =>
    refine Or.inl (le_of_eq ?_)
    have hback : ((if r.own then s.back ++ [r.payload] else s.back : List (List UInt8)) :
        Multiset (List UInt8)) = ↑(ownPayloads [r]) + ↑s.back := by
      cases hown : r.own
      · simp [ownPayloads, hown]
      · rw [if_pos rfl, ← Multiset.coe_add, add_comm]
        simp [ownPayloads, hown]
    simp only [Latency.readable, Latency.flying, hs, hback, Multiset.map_add, Server.held,
      Multiset.coe_nil, Multiset.map_zero]
    abel
  | @unechoed r hs =>
    refine Or.inl (le_of_le_of_eq (Multiset.le_add_right _ (Multiset.map (List.take 64)
      (ownPayloads [r]))) ?_)
    simp only [Latency.readable, Latency.flying, hs, Multiset.map_add, Server.held,
      Multiset.coe_nil, Multiset.map_zero]
    abel
  | @arrived as d bs hout =>
    refine Or.inl (le_of_eq ?_)
    have hflying : (s.out : Multiset (List UInt8)) = {d} + ↑(as ++ bs) := hout ▸ coe_middle as bs d
    have hown : ownPayloads [⟨d, true⟩] = [d] := rfl
    simp only [Latency.readable, Latency.flying, hflying, Sock.push, ownPayloads_append, hown,
      ← Multiset.coe_add, Multiset.coe_singleton, Multiset.map_add]
    abel
  | @vanished as d bs hout =>
    have hflying : (s.out : Multiset (List UInt8)) = {d} + ↑(as ++ bs) := hout ▸ coe_middle as bs d
    refine Or.inl (le_of_le_of_eq (Multiset.le_add_right _ (Multiset.map (List.take 64) {d})) ?_)
    simp only [Latency.readable, Latency.flying, hflying, Multiset.map_add]
    abel
  | intruded d _ =>
    refine Or.inl (le_of_eq ?_)
    have hown : ownPayloads [⟨d, false⟩] = [] := rfl
    simp only [Latency.readable, Latency.flying, Sock.push, ownPayloads_append, hown,
      List.append_nil]
  | @returned as d bs hback =>
    refine Or.inl (le_of_eq ?_)
    have hflying : (s.back : Multiset (List UInt8)) = {d} + ↑(as ++ bs) :=
      hback ▸ coe_middle as bs d
    simp only [Latency.readable, Latency.flying, hflying, Sock.push, ← Multiset.coe_add,
      Multiset.coe_singleton, Multiset.map_add]
    abel
  | @backVanished as d bs hback =>
    have hflying : (s.back : Multiset (List UInt8)) = {d} + ↑(as ++ bs) :=
      hback ▸ coe_middle as bs d
    refine Or.inl (le_of_le_of_eq (Multiset.le_add_right _ (Multiset.map (List.take 64) {d})) ?_)
    simp only [Latency.readable, Latency.flying, hflying, Multiset.map_add]
    abel

/-! ## The invariant -/

/-- What the samples are after `k` rounds. -/
def Sampled (samples : List (List UInt8)) (k : Nat) : Prop :=
  samples.length ≤ k ∧ (samples.length = k → samples = (List.range k).map sample)

/-- In the middle of a round. -/
structure InRound (p : Params) (samples : List (List UInt8)) (deadline : Deadline) (i : Nat) :
    Prop where
  lt : i < p.pingCount
  deadline : deadline ≠ .unset
  sampled : Sampled samples i

/-- A result that is on its way to the caller. -/
def IsResult (p : Params) (samples : List (List UInt8)) (result : Option (List (List UInt8))) :
    Prop :=
  ∀ r, result = some r → r = samples ∧ Sampled samples p.pingCount

/-- What holds where the client is, after `n` pings. -/
def Client.Ok (p : Params) (n : Nat) (s : Latency) : Client → Prop
  | .dial => n = 0 ∧ Sampled s.samples 0
  | .round i => i = n ∧ Sampled s.samples i
  | .write i => i = n ∧ InRound p s.samples s.conn.deadline i
  | .enter i | .blocked i => i + 1 = n ∧ InRound p s.samples s.conn.deadline i
  | .close r | .stop r => IsResult p s.samples r
  | .shut r => IsResult p s.samples r ∧ s.done = true
  | .returned r => IsResult p s.samples r ∧ s.done = true ∧ s.echo.closed = true

/-- What holds between two steps after `n` pings. -/
structure Latency.Inv (p : Params) (n : Nat) (s : Latency) : Prop where
  n_le : n ≤ p.pingCount
  client : s.client.Ok p n s
  readable : s.readable ≤ (Multiset.range n).map sample
  listening : s.server = .enter ∨ s.server = .blocked → s.echo.deadline ≠ .unset

theorem Latency.inv_start : Latency.start.Inv p 0 where
  n_le := Nat.zero_le _
  client := ⟨rfl, Nat.le_refl 0, fun _ => rfl⟩
  readable := by simp [readable, flying, start, Sock.fresh, ownPayloads, Server.held]
  listening := by simp [start]

theorem range_sample_succ (n : Nat) :
    (Multiset.range (n + 1)).map sample = (Multiset.range n).map sample + {sample n} := by
  rw [Multiset.range_succ, Multiset.map_cons, add_comm, Multiset.singleton_add]

/-- A sample of the last ping where there is one of each before. -/
theorem Sampled.snoc {s : Latency} {n : Nat} (hsampled : Sampled s.samples n)
    (hreadable : s.readable ≤ (Multiset.range (n + 1)).map sample) {d : List UInt8}
    (hd : d ∈ s.conn.queue) : Sampled (s.samples ++ [d.take 64]) (n + 1) := by
  refine ⟨by simpa using hsampled.1, fun hlen => ?_⟩
  have hsamples := hsampled.2 (by simpa using hlen)
  have hrange : (Multiset.range (n + 1)).map sample = ↑s.samples + {sample n} := by
    rw [range_sample_succ, hsamples]
    rfl
  have hmem : d.take 64 ∈ s.flying.map (List.take 64) := by
    refine Multiset.mem_map_of_mem _ ?_
    simp [Latency.flying, hd]
  rw [hrange, Latency.readable] at hreadable
  have hlast := Multiset.mem_of_le (Multiset.add_le_add_iff_left.mp hreadable) hmem
  rw [Multiset.mem_singleton.mp hlast, hsamples, List.range_succ, List.map_append]
  rfl

theorem Sampled.miss {samples : List (List UInt8)} {k : Nat} (h : Sampled samples k) :
    Sampled samples (k + 1) := by
  have hlen := h.1
  exact ⟨by omega, fun heq => by omega⟩

/-- A deadline that passes is one that was set. -/
theorem Client.Ok.expire {s : Latency} {n : Nat} {c : Client} (h : c.Ok p n s) :
    c.Ok p n { s with conn := { s.conn with deadline := .passed } } := by
  cases c with
  | write i | enter i | blocked i => exact ⟨h.1, h.2.lt, nofun, h.2.sampled⟩
  | dial | round | close | stop | shut | returned => exact h

/-- The ping that is sent may be read from now on. -/
theorem LatencyStep.readable_succ {s s' : Latency} {who : Party} {i : Nat}
    (h : LatencyStep p s who s') (hs : s.client = .write i)
    (hread : s.readable ≤ (Multiset.range i).map sample) :
    s'.readable ≤ (Multiset.range (i + 1)).map sample := by
  rw [range_sample_succ]
  rcases h.readable with hle | ⟨j, hj, -, heq⟩
  · exact le_trans (le_trans hle hread) (Multiset.le_add_right _ _)
  · obtain rfl : i = j := by
      rw [hs] at hj
      cases hj
      rfl
    rw [heq]
    exact Multiset.add_le_add_right hread

theorem LatencyStep.inv {s s' : Latency} {who : Party} {n : Nat} (h : LatencyStep p s who s')
    (hi : s.Inv p n) : ∃ n, s'.Inv p n := by
  have hread : (∀ i, s.client = .write i → s'.client ≠ .enter i) →
      s'.readable ≤ (Multiset.range n).map sample := by
    intro hne
    rcases h.readable with hle | ⟨i, hw, he, -⟩
    · exact le_trans hle hi.readable
    · exact absurd he (hne i hw)
  have hsame : ∀ i, s.client = .write i → s.client ≠ .enter i := by
    intro i hw he
    rw [hw] at he
    cases he
  have hwrote := @h.readable_succ
  have hok := hi.client
  cases h with
  | dialed hs =>
    rw [hs] at hok
    exact ⟨n, { hi with client := ⟨hok.1.symm, hok.2⟩, readable := hread (by simp) }⟩
  | undialed hs | deadlineFailed hs _ | writeFailed hs =>
    exact ⟨n, { hi with client := nofun, readable := hread (by simp) }⟩
  | @deadlineSet i hs hlt =>
    rw [hs] at hok
    exact ⟨n, { hi with
      client := ⟨hok.1, hlt, nofun, hok.2⟩
      readable := hread (by simp) }⟩
  | @sampled i hs hge =>
    rw [hs] at hok
    obtain ⟨rfl, hsampled⟩ := hok
    have hall : i = p.pingCount := Nat.le_antisymm hi.n_le (Nat.not_lt.mp hge)
    exact ⟨i, { hi with
      client := fun r hr => by
        cases hr
        exact ⟨rfl, hall ▸ hsampled⟩
      readable := hread (by simp) }⟩
  | @wrote i hs =>
    rw [hs] at hok
    obtain ⟨rfl, hround⟩ := hok
    exact ⟨i + 1, { hi with
      n_le := hround.lt
      client := ⟨rfl, hround⟩
      readable := hwrote i hs hi.readable }⟩
  | entered hs _ =>
    rw [hs] at hok
    exact ⟨n, { hi with client := hok, readable := hread (by simp) }⟩
  | refused hs _ | interrupted hs _ =>
    rw [hs] at hok
    exact ⟨n, { hi with client := ⟨hok.1, hok.2.sampled.miss⟩, readable := hread (by simp) }⟩
  | @read i d q hs hq =>
    rw [hs] at hok
    obtain ⟨rfl, hround⟩ := hok
    exact ⟨i + 1, { hi with
      client := ⟨rfl, hround.sampled.snoc hi.readable (by simp [hq])⟩
      readable := hread (by simp) }⟩
  | closed hs =>
    rw [hs] at hok
    exact ⟨n, { hi with client := hok, readable := hread (by simp) }⟩
  | stopped hs =>
    rw [hs] at hok
    exact ⟨n, { hi with client := ⟨hok, rfl⟩, readable := hread (by simp) }⟩
  | shut hs =>
    rw [hs] at hok
    exact ⟨n, { hi with client := ⟨hok.1, hok.2, rfl⟩, readable := hread (by simp) }⟩
  | goesOn | leaves | serverRefused | serverInterrupted | serverRead | echoed | unechoed =>
    exact ⟨n, { hi with readable := hread hsame, listening := by simp }⟩
  | serverArmed =>
    exact ⟨n, { hi with readable := hread hsame, listening := by simp [Sock.arm] }⟩
  | serverEntered hs =>
    exact ⟨n, { hi with readable := hread hsame, listening := fun _ => hi.listening (Or.inl hs) }⟩
  | arrived | vanished | intruded | returned | backVanished =>
    exact ⟨n, { hi with readable := hread hsame }⟩
  | clientExpired =>
    exact ⟨n, { hi with client := hok.expire, readable := hread hsame }⟩
  | serverExpired =>
    exact ⟨n, { hi with readable := hread hsame, listening := by simp }⟩

theorem LatencyStep.exists_inv {s s' : Latency} {who : Party} (h : LatencyStep p s who s')
    (hi : ∃ n, s.Inv p n) : ∃ n, s'.Inv p n := by
  obtain ⟨n, hi⟩ := hi
  exact h.inv hi

theorem exists_inv_of_run {s : Latency} {l : List Party}
    (h : Run (LatencyStep p) .start l s) : ∃ n, s.Inv p n :=
  h.invariant LatencyStep.exists_inv ⟨0, Latency.inv_start⟩

/-- **The samples.** Whatever the order of the steps and whatever is lost, delayed or sent by
others, each sample is of the echo of a ping, and no ping gives two. If none is missing, the sample
of each round is of that round's ping. -/
theorem latency_samples {s : Latency} {l : List Party} (h : Run (LatencyStep p) .start l s)
    {samples : List (List UInt8)} (hret : s.client = .returned (some samples)) :
    (samples : Multiset (List UInt8)) ≤ (Multiset.range p.pingCount).map sample ∧
      (samples.length = p.pingCount → samples = (List.range p.pingCount).map sample) := by
  obtain ⟨n, hi⟩ := exists_inv_of_run h
  have hok := hi.client
  rw [hret] at hok
  obtain ⟨rfl, -, hall⟩ := hok.1 samples rfl
  refine ⟨le_trans (le_trans ?_ hi.readable) (Multiset.map_le_map ?_), hall⟩
  · exact Multiset.le_add_right _ _
  · exact Multiset.range_le.mpr hi.n_le

/-- One ping and its echo. -/
theorem exists_echo_run : ∃ l s samples, Run (LatencyStep (.ofArgs 1 1 1)) .start l s ∧
    s.client = .returned (some samples) ∧ samples.length = 1 :=
  ⟨[.client, .client, .client, .client, .server, .server, .server, .net, .server, .server, .net,
      .client, .client, .client, .client, .client], _, _,
    .cons (.dialed rfl) (.cons (.deadlineSet rfl (by decide)) (.cons (.wrote rfl)
      (.cons (.entered rfl (by decide)) (.cons (.goesOn rfl rfl) (.cons (.serverArmed rfl)
      (.cons (.serverEntered rfl (by decide)) (.cons (@LatencyStep.arrived _ _ [] _ [] rfl rfl)
      (.cons (.serverRead rfl rfl) (.cons (.echoed rfl)
      (.cons (@LatencyStep.returned _ _ [] _ [] rfl rfl) (.cons (.read rfl rfl)
      (.cons (.sampled rfl (by decide)) (.cons (.closed rfl) (.cons (.stopped rfl)
      (.cons (.shut rfl) (.nil _)))))))))))))))), rfl, rfl⟩

theorem latency_samples_echo : ∃ l s, Run (LatencyStep (.ofArgs 1 1 1)) .start l s ∧
    s.client = .returned (some [sample 0]) := by
  obtain ⟨l, s, samples, hrun, hret, hlen⟩ := exists_echo_run
  obtain rfl := (latency_samples hrun hret).2 hlen
  exact ⟨l, s, hrun, hret⟩

/-! ## The end -/

def Party.isClient (who : Party) : Bool := who = .client

def Party.isServer (who : Party) : Bool := who = .server

def Client.left (p : Params) : Client → Nat
  | .dial => 4 * p.pingCount + 5
  | .round i => 4 * (p.pingCount - i) + 4
  | .write i => 4 * (p.pingCount - i) + 3
  | .enter i => 4 * (p.pingCount - i) + 2
  | .blocked i => 4 * (p.pingCount - i) + 1
  | .close _ => 3
  | .stop _ => 2
  | .shut _ => 1
  | .returned _ => 0

/-- The steps that are left to the server when `done` is closed. -/
def Server.left : Server → Nat
  | .arm => 5
  | .enter => 4
  | .blocked => 3
  | .write _ => 2
  | .select => 1
  | .returned => 0

theorem LatencyStep.client_left {s s' : Latency} {who : Party} (h : LatencyStep p s who s')
    (hi : ∃ n, s.Inv p n) :
    s'.client.left p + (if who.isClient then 1 else 0) ≤ s.client.left p := by
  obtain ⟨n, hi⟩ := hi
  cases h with
  | dialed hs | undialed hs | deadlineSet hs _ | deadlineFailed hs _ | sampled hs _ | wrote hs
    | entered hs _ | closed hs | stopped hs | shut hs =>
    simp [hs, Client.left, Party.isClient]
  | @writeFailed i hs | @refused i hs _ | @interrupted i hs _ | @read i _ _ hs _ =>
    have hok := hi.client
    rw [hs] at hok
    have hlt := hok.2.lt
    simp [hs, Client.left, Party.isClient]
    omega
  | goesOn | leaves | serverArmed | serverEntered | serverRefused | serverRead | serverInterrupted
    | echoed | unechoed | arrived | vanished | intruded | returned | backVanished | clientExpired
    | serverExpired => exact Nat.le_refl _

theorem LatencyStep.done {s s' : Latency} {who : Party} (h : LatencyStep p s who s')
    (hdone : s.done = true) : s'.done = true := by
  cases h with
  | stopped => rfl
  | _ => exact hdone

theorem LatencyStep.server_left {s s' : Latency} {who : Party} (h : LatencyStep p s who s')
    (hdone : s.done = true) :
    s'.server.left + (if who.isServer then 1 else 0) ≤ s.server.left := by
  cases h with
  | goesOn hs hgo => simp [hdone] at hgo
  | leaves hs _ | serverArmed hs | serverEntered hs _ | serverRefused hs _ | serverRead hs _
    | serverInterrupted hs _ | echoed hs | unechoed hs =>
    simp [hs, Server.left, Party.isServer]
  | _ => exact Nat.le_refl _

/-- A read that waits fails or has its deadline ahead. -/
theorem Sock.fails_or_pending {δ : Type} {k : Sock δ} (h : k.deadline ≠ .unset) :
    k.Fails ∨ k.closed = false ∧ k.deadline = .pending := by
  cases hc : k.closed with
  | true => exact Or.inl (Or.inl hc)
  | false =>
    cases hd : k.deadline with
    | unset => exact absurd hd h
    | pending => exact Or.inr ⟨rfl, rfl⟩
    | passed => exact Or.inl (Or.inr hd)

theorem client_goes_on {s : Latency} {n : Nat} (hi : s.Inv p n) :
    Can (LatencyStep p) Party.isClient s ∨ (∃ r, s.client = .returned r) ∨
      s.conn.deadline = .pending := by
  cases hs : s.client with
  | dial => exact Or.inl ⟨_, _, rfl, .dialed hs⟩
  | round i =>
    by_cases hlt : i < p.pingCount
    · exact Or.inl ⟨_, _, rfl, .deadlineSet hs hlt⟩
    · exact Or.inl ⟨_, _, rfl, .sampled hs hlt⟩
  | write i => exact Or.inl ⟨_, _, rfl, .wrote hs⟩
  | enter i =>
    by_cases hfails : s.conn.Fails
    · exact Or.inl ⟨_, _, rfl, .refused hs hfails⟩
    · exact Or.inl ⟨_, _, rfl, .entered hs hfails⟩
  | blocked i =>
    have hok := hi.client
    rw [hs] at hok
    rcases Sock.fails_or_pending hok.2.deadline with hfails | ⟨-, hpending⟩
    · exact Or.inl ⟨_, _, rfl, .interrupted hs hfails⟩
    · exact Or.inr (Or.inr hpending)
  | close r => exact Or.inl ⟨_, _, rfl, .closed hs⟩
  | stop r => exact Or.inl ⟨_, _, rfl, .stopped hs⟩
  | shut r => exact Or.inl ⟨_, _, rfl, .shut hs⟩
  | returned r => exact Or.inr (Or.inl ⟨r, rfl⟩)

theorem server_goes_on {s : Latency} {n : Nat} (hi : s.Inv p n) :
    Can (LatencyStep p) Party.isServer s ∨ s.server = .returned ∨
      s.echo.closed = false ∧ s.echo.deadline = .pending := by
  cases hs : s.server with
  | select =>
    cases hdone : s.done with
    | false => exact Or.inl ⟨_, _, rfl, .goesOn hs hdone⟩
    | true => exact Or.inl ⟨_, _, rfl, .leaves hs hdone⟩
  | arm => exact Or.inl ⟨_, _, rfl, .serverArmed hs⟩
  | enter =>
    by_cases hfails : s.echo.Fails
    · exact Or.inl ⟨_, _, rfl, .serverRefused hs hfails⟩
    · exact Or.inl ⟨_, _, rfl, .serverEntered hs hfails⟩
  | blocked =>
    rcases Sock.fails_or_pending (hi.listening (Or.inr hs)) with hfails | hpending
    · exact Or.inl ⟨_, _, rfl, .serverInterrupted hs hfails⟩
    · exact Or.inr (Or.inr hpending)
  | write r => exact Or.inl ⟨_, _, rfl, .echoed hs⟩
  | returned => exact Or.inr (Or.inl rfl)

/-- **The benchmark ends.** The client takes at most four steps for a ping and five more, and waits
only before a deadline. Once it has returned, the echo server takes at most five steps more,
whatever still arrives, and until it has returned too it can take one. -/
theorem latency_ends {s : Latency} {l : List Party} (h : Run (LatencyStep p) .start l s) :
    l.countP Party.isClient ≤ 4 * p.pingCount + 5 ∧
      (Can (LatencyStep p) Party.isClient s ∨ (∃ r, s.client = .returned r) ∨
        s.conn.deadline = .pending) ∧
      (∀ r, s.client = .returned r →
        (s.server ≠ .returned → Can (LatencyStep p) Party.isServer s) ∧
        ∀ {l' s'}, Run (LatencyStep p) s l' s' → l'.countP Party.isServer ≤ 5) := by
  obtain ⟨n, hi⟩ := exists_inv_of_run h
  have hclient := h.countP_add_le (I := fun s => ∃ n, s.Inv p n) (p := Party.isClient)
    (fun s => s.client.left p) LatencyStep.exists_inv LatencyStep.client_left
    ⟨0, Latency.inv_start⟩
  refine ⟨Nat.le_trans (Nat.le_add_right _ _) hclient, client_goes_on hi, fun r hr => ?_⟩
  have hok := hi.client
  rw [hr] at hok
  obtain ⟨-, hdone, hclosed⟩ := hok
  refine ⟨?_, ?_⟩
  · intro hserver
    rcases server_goes_on hi with hcan | hreturned | ⟨hopen, -⟩
    · exact hcan
    · exact absurd hreturned hserver
    · rw [hclosed] at hopen
      cases hopen
  · intro l' s' h'
    have hserver := h'.countP_add_le (I := fun s => s.done = true) (p := Party.isServer)
      (fun s => s.server.left) (fun hstep hdone => hstep.done hdone)
      (fun hstep hdone => hstep.server_left hdone) hdone
    have hleft : s.server.left ≤ 5 := by
      cases s.server <;> simp [Server.left]
    omega

theorem latency_ends_echo : ∃ l s, Run (LatencyStep (.ofArgs 1 1 1)) .start l s ∧
    l.countP Party.isClient ≤ 9 ∧ ∀ {l' s'}, Run (LatencyStep (.ofArgs 1 1 1)) s l' s' →
      l'.countP Party.isServer ≤ 5 := by
  obtain ⟨l, s, samples, hrun, hret, -⟩ := exists_echo_run
  obtain ⟨hclient, -, hserver⟩ := latency_ends hrun
  exact ⟨l, s, hrun, hclient, (hserver _ hret).2⟩

end Rewsr.Piers.Udp
