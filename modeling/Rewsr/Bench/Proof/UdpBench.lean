import Rewsr.Bench.UdpBench
import Rewsr.Lib.Thread

/-!
# The UDP loopback benchmark

`udpBenchRun_runs`: whatever the system answers, the benchmark gives back what it takes on every way
out, stops and joins its thread before it closes the thread's descriptor, and stores no sample
outside the block; it receives at most what it sends, and sends at most what it was asked for. In
every interleaving with `echo_server` on its thread (`echoThreads`) both use only what they have.
-/

namespace Rewsr.Bench

open Resource Rewsr.Sys

/-! ## The helpers -/

theorem openLoopbackUdp_spec :
    Spec (fun r H => H = r.elim 0 fun fd => {Handle.fd fd}) openLoopbackUdp 0 := by
  refine Spec.ask 0 trivial rfl fun a => ?_
  cases a with
  | error errno => rfl
  | ok fd =>
    refine sockcall_keeps 0 trivial rfl (fun _ => rfl) fun a => ?_
    cases a with
    | error errno => exact ⟨trivial, 0, rfl, fun _ => rfl⟩
    | ok _ =>
      refine sockcall_keeps 0 trivial rfl (fun _ => rfl) fun a => ?_
      cases a with
      | error errno => exact ⟨trivial, 0, rfl, fun _ => rfl⟩
      | ok _ => rfl

theorem echoLoop_spec (fd : Int) (n : Nat) :
    Spec (I := sockSys) (fun _ H => H = {.fd fd}) (echoLoop fd n) {.fd fd} := by
  induction n with
  | zero => rfl
  | succ n ih =>
    refine sockcall_keeps 0 trivial rfl (fun _ => rfl) fun a => ?_
    cases a with
    | error errno => exact ih
    | ok bytes => exact sockcall_keeps 0 trivial rfl (fun _ => rfl) fun _ => ih

/-- The thread works on the descriptor it was given, and leaves it open. -/
theorem echoServer_spec (fd : Int) (rounds : Nat) :
    Spec (I := sockSys) (fun _ H => H = {.fd fd}) (echoServer fd rounds) {.fd fd} :=
  sockcall_keeps 0 trivial rfl (fun _ => rfl) fun _ => echoLoop_spec fd rounds

/-- `pthread_create` gives its descriptor to a thread that runs `echo_server` for some number of
rounds. -/
def echoThreads : Threading sockSys where
  Thread := Nat × Int
  token
    | .thread id fd _ => some (id, fd)
    | _ => none
  starts
    | .pthreadCreate fd, .ok id => some (id, fd)
    | _, _ => none
  joins
    | .pthreadJoin id fd => some (id, fd)
    | _ => none
  given t := {.fd t.2}
  body t q := ∃ rounds, q = echoServer t.2 rounds
  needs_start {r a t} h := by
    cases r <;> cases a <;> cases h; rfl
  tokens_start {r a t} h := by
    cases r <;> cases a <;> cases h; rfl
  needs_join {r t} h := by
    cases r <;> cases h; rfl
  leaves_join {r t} a h := by
    cases r <;> cases h; rfl
  tokens_given t := rfl
  tokens_keep {r} a hstarts hjoins := by
    cases r with
    | pthreadCreate fd =>
      cases a with
      | ok id => cases hstarts
      | error errno => rfl
    | pthreadJoin id fd => cases hjoins
    | _ => cases a <;> rfl

theorem stopEcho_spec (thread : Nat) (echoFd : Int) :
    Spec (fun _ H => H = 0) (stopEcho thread echoFd) {.thread thread echoFd false} := by
  refine Spec.ask 0 trivial rfl fun _ => ?_
  refine Spec.ask 0 trivial rfl fun _ => ?_
  exact ⟨trivial, 0, rfl, fun _ => rfl⟩

/-! ## Latency -/

/-- As many samples as rounds, at most; each has room. -/
theorem pingLoop_spec (fd : Int) (samples : Addr) (pingCount n i collected : Nat)
    (hroom : n + collected ≤ pingCount) :
    Spec (I := sockSys) (fun r H => r ≤ n + collected ∧ H = {.fd fd} + {.block samples})
      (pingLoop fd samples pingCount n i collected) ({.fd fd} + {.block samples}) := by
  induction n generalizing i collected with
  | zero => exact ⟨by omega, rfl⟩
  | succ n ih =>
    have hskip := ih (i + 1) collected (by omega)
    replace hskip := hskip.mono fun r H h => (⟨by omega, h.2⟩ : r ≤ n + 1 + collected ∧ _)
    refine sockcall_keeps {.block samples} trivial rfl (fun _ => rfl) fun a => ?_
    cases a with
    | error errno => exact hskip
    | ok _ =>
      refine sockcall_keeps {.block samples} trivial rfl (fun _ => rfl) fun a => ?_
      cases a with
      | error errno => exact hskip
      | ok _ =>
        refine sockcall_keeps {.fd fd} (show collected < pingCount by omega) (add_comm _ _)
          (fun _ => rfl) fun _ => ?_
        exact (ih (i + 1) (collected + 1) (by omega)).mono fun r H h => ⟨by omega, h.2⟩

/-- **The latency leg**: a result of 0 is one with at least one sample. -/
theorem udpBenchLatency_spec (pingCount : Int) :
    Spec (fun r H => H = 0 ∧ (r.1 = 0 → 0 < r.2) ∧
        r.2 ≤ orDefault pingCount 200) (udpBenchLatency pingCount) 0 := by
  refine openLoopbackUdp_spec.bind fun r H hr => ?_
  subst hr
  cases r with
  | none => exact ⟨rfl, by simp, by simp⟩
  | some echoFd =>
    refine Spec.ask 0 trivial rfl fun a => ?_
    cases a with
    | error errno => exact ⟨trivial, 0, rfl, fun _ => ⟨rfl, by simp, by simp⟩⟩
    | ok thread =>
      refine Spec.of_eq (add_zero _) ?_
      refine Spec.ask _ trivial (zero_add _).symm fun a => ?_
      cases a with
      | error errno =>
        refine Spec.of_eq (zero_add _) ?_
        refine (stopEcho_spec thread echoFd).call 0 rfl fun _ H hH => ?_
        subst hH
        exact ⟨rfl, by simp, by simp⟩
      | ok fd =>
        refine sockcall_keeps _ trivial rfl (fun _ => rfl) fun _ => ?_
        refine Spec.ask _ trivial (zero_add _).symm fun a => ?_
        cases a with
        | none =>
          refine Spec.ask _ trivial (zero_add _) fun _ => ?_
          refine Spec.of_eq (zero_add _) ?_
          refine (stopEcho_spec thread echoFd).call 0 rfl fun _ H hH => ?_
          subst hH
          exact ⟨rfl, by simp, by simp⟩
        | some samples =>
          have howns : ({.block samples} : Multiset Handle) +
              ({.fd (fd : Int)} + {.thread thread (echoFd : Int) false}) =
              {.fd (fd : Int)} + {.block samples} + {.thread thread (echoFd : Int) false} := by
            rw [← add_assoc, add_comm {Handle.block samples}]
          refine (pingLoop_spec fd samples _ _ 0 0 (Nat.le_refl _)).call _ howns fun n H hn => ?_
          obtain ⟨hn, rfl⟩ := hn
          refine Spec.ask _ trivial (add_assoc _ _ _) fun _ => ?_
          refine Spec.of_eq (zero_add _) ?_
          refine (stopEcho_spec thread echoFd).call _ (add_comm _ _) fun _ H hH => ?_
          subst hH
          refine Spec.ask 0 trivial (add_comm _ _) fun _ => ?_
          refine ⟨rfl, ?_, hn.trans_eq (Nat.add_zero _)⟩
          simp only []
          split <;> omega

/-! ## Throughput -/

theorem sendLoop_spec (fd : Int) (payload : Addr) (n sent : Nat) :
    Spec (I := sockSys) (fun r H => r ≤ n + sent ∧ H = {.fd fd} + {.block payload})
      (sendLoop fd payload n sent) ({.fd fd} + {.block payload}) := by
  induction n generalizing sent with
  | zero => exact ⟨by omega, rfl⟩
  | succ n ih =>
    refine sockcall_keeps 0 trivial (add_zero _).symm (fun _ => rfl) fun a => ?_
    cases a with
    | error errno => exact ⟨by omega, rfl⟩
    | ok _ => exact (ih (sent + 1)).mono fun r H h => ⟨by omega, h.2⟩

theorem drainLoop_spec (fd : Int) (n recv : Nat) :
    Spec (I := sockSys) (fun r H => r ≤ n + recv ∧ H = {.fd fd}) (drainLoop fd n recv)
      {.fd fd} := by
  induction n generalizing recv with
  | zero => exact ⟨by omega, rfl⟩
  | succ n ih =>
    refine sockcall_keeps 0 trivial rfl (fun _ => rfl) fun a => ?_
    cases a with
    | error errno => exact ⟨by omega, rfl⟩
    | ok _ => exact (ih (recv + 1)).mono fun r H h => ⟨by omega, h.2⟩

/-- The numbers of packets of a result are in order. -/
def UdpBenchResult.Ordered (out : UdpBenchResult) (burst : Nat) : Prop :=
  out.packetsRecv ≤ out.packetsSent ∧ out.packetsSent ≤ burst

/-- **The throughput leg.** -/
theorem udpBenchThroughput_spec (burstPackets packetSize : Int) {out : UdpBenchResult}
    (hout : out.Ordered (orDefault burstPackets 2000)) :
    Spec (fun r H => H = 0 ∧ r.2.Ordered (orDefault burstPackets 2000))
      (udpBenchThroughput burstPackets packetSize out) 0 := by
  refine openLoopbackUdp_spec.bind fun r H hr => ?_
  subst hr
  cases r with
  | none => exact ⟨rfl, hout⟩
  | some sinkFd =>
    refine sockcall_keeps 0 trivial rfl (fun _ => rfl) fun _ => ?_
    refine Spec.ask _ trivial (zero_add _).symm fun a => ?_
    cases a with
    | error errno => exact ⟨trivial, 0, rfl, fun _ => ⟨rfl, hout⟩⟩
    | ok fd =>
      refine Spec.ask _ trivial (zero_add _).symm fun a => ?_
      cases a with
      | none =>
        refine Spec.ask _ trivial (zero_add _) fun _ => ?_
        exact ⟨trivial, 0, rfl, fun _ => ⟨rfl, hout⟩⟩
      | some payload =>
        have howns : ({.block payload} : Multiset Handle) +
            ({.fd (fd : Int)} + {.fd (sinkFd : Int)}) =
            {.fd (fd : Int)} + {.block payload} + {.fd (sinkFd : Int)} := by
          rw [← add_assoc, add_comm {Handle.block payload}]
        refine (sendLoop_spec fd payload _ 0).call _ howns fun sent H hsent => ?_
        obtain ⟨hsent, rfl⟩ := hsent
        refine sockcall_keeps _ trivial (add_comm _ _) (fun _ => rfl) fun _ => ?_
        refine (drainLoop_spec sinkFd sent 0).call _ (add_comm _ _) fun recv H hrecv => ?_
        obtain ⟨hrecv, rfl⟩ := hrecv
        refine Spec.ask ({.fd (sinkFd : Int)} + {.fd (fd : Int)}) trivial ?_ fun _ => ?_
        · rw [← add_assoc]
          exact add_comm _ _
        refine Spec.of_eq (zero_add _) ?_
        refine Spec.ask {.fd (sinkFd : Int)} trivial (add_comm _ _) fun _ => ?_
        refine Spec.of_eq (zero_add _) ?_
        exact ⟨trivial, 0, rfl, fun _ => ⟨rfl, hrecv.trans_eq (Nat.add_zero _),
          hsent.trans_eq (Nat.add_zero _)⟩⟩

theorem udpBenchRun_spec (pingCount burstPackets packetSize : Int) :
    Spec (fun r H => H = 0 ∧ r.2.Ordered (orDefault burstPackets 2000))
      (udpBenchRun pingCount burstPackets packetSize) 0 := by
  refine (udpBenchLatency_spec pingCount).bind ?_
  rintro ⟨rc, collected⟩ H ⟨rfl, -, -⟩
  have hzero : UdpBenchResult.zero.Ordered (orDefault burstPackets 2000) :=
    ⟨Nat.zero_le _, Nat.zero_le _⟩
  simp only []
  split
  · exact ⟨rfl, hzero⟩
  · exact udpBenchThroughput_spec burstPackets packetSize hzero

theorem udpBenchRun_frame (pingCount burstPackets packetSize : Int) (F : Multiset Handle) :
    Spec (fun r H => H = F ∧ r.2.Ordered (orDefault burstPackets 2000))
      (udpBenchRun pingCount burstPackets packetSize) F := by
  have hframe := (udpBenchRun_spec pingCount burstPackets packetSize).frame F
  refine (hframe.of_eq (zero_add F).symm).mono fun r H h => ?_
  obtain ⟨G, ⟨rfl, hout⟩, rfl⟩ := h
  exact ⟨zero_add F, hout⟩

/-- A state that the benchmark and its echo thread come to from resources `F`. -/
def BenchReaches (pingCount burstPackets packetSize : Int) (F : Multiset Handle)
    (c : echoThreads.Conf (Int × UdpBenchResult)) : Prop :=
  Relation.ReflTransGen Threading.Step ⟨udpBenchRun pingCount burstPackets packetSize, F, 0⟩ c

/-- A loopback that delivers everything. -/
def loopback : (r : SockReq) → r.Ans
  | .socket => .ok 3
  | .pthreadCreate _ => .ok 1
  | .bind _ | .getsockname _ | .setsockopt _ | .send .. | .sendBlock .. => .ok ()
  | .ioctl _ arg => .ok ⟨arg, rfl⟩
  | .recv .. => .ok ⟨[], Nat.zero_le _⟩
  | .alloc _ => some 4096
  | .close _ | .store .. | .free _ | .setStop .. | .pthreadJoin .. => ()

/-- **The benchmark**: what it takes it gives back, and what it counts is in order. In every
interleaving with its echo thread both use only what they have, and when it ends there is no thread;
where it started without one, it waits only for a thread that has not ended. -/
theorem udpBenchRun_runs (pingCount burstPackets packetSize : Int) (F : Multiset Handle) :
    (¬ Misuses (udpBenchRun pingCount burstPackets packetSize) F ∧
      ∀ rc out H, Runs (udpBenchRun pingCount burstPackets packetSize) F (rc, out) H →
        H = F ∧ out.Ordered (orDefault burstPackets 2000)) ∧
    ∀ c, BenchReaches pingCount burstPackets packetSize F c → c.Safe ∧
      (∀ rc out, c.main = .ret (rc, out) →
        c.held = F ∧ c.threads = 0 ∧ out.Ordered (orDefault burstPackets 2000)) ∧
      (F.filterMap echoThreads.token = 0 → (∃ r, c.main = .ret r) ∨ c.GoesOn ∨ c.Waits) := by
  have hspec := udpBenchRun_frame pingCount burstPackets packetSize F
  have hbody : ∀ t q, echoThreads.body t q →
      Spec (fun _ G => G = echoThreads.given t) q (echoThreads.given t) := by
    rintro ⟨id, fd⟩ q ⟨rounds, rfl⟩
    exact echoServer_spec fd rounds
  refine ⟨⟨hspec.safe, fun rc out H hrun => hspec.runs hrun⟩, fun c hc => ?_⟩
  have hinv := Threading.reaches hbody hspec hc
  refine ⟨hinv.safe, fun rc out hret => ?_, ?_⟩
  · obtain ⟨main, held, threads⟩ := c
    obtain rfl : main = _ := hret
    obtain ⟨rfl, hout⟩ : held = F ∧ _ := hinv.main
    have hnone : threads.map Threading.Started.thread = 0 := by
      have htokens := hinv.tokens
      exact (add_right_cancel ((zero_add _).trans htokens)).symm
    exact ⟨rfl, Multiset.map_eq_zero.mp hnone, hout⟩
  · exact fun hF => hinv.progress hF (fun r => ⟨loopback r⟩) fun t => ⟨_, 0, rfl⟩

/-- A run to the end, and the start of another up to its echo thread. -/
theorem udpBenchRun_runs_sample : Runs (udpBenchRun 2 3 0) 0 (0, ⟨1024, 3, 3⟩) 0 ∧
    ∃ c, BenchReaches 2 3 0 0 c ∧ c.threads.map Threading.Started.thread = {(1, 3)} ∧ c.Safe := by
  obtain ⟨⟨-, hends⟩, hreach⟩ := udpBenchRun_runs 2 3 0 0
  refine ⟨?_, ?_⟩
  · obtain ⟨H, hrun⟩ := (udpBenchRun_spec 2 3 0).result loopback
    have hresult : (udpBenchRun 2 3 0).result loopback = (0, ⟨1024, 3, 3⟩) := rfl
    rw [hresult] at hrun
    obtain ⟨rfl, -⟩ := hends _ _ _ hrun
    exact hrun
  · have hstart : BenchReaches 2 3 0 0 _ :=
      .head (@Threading.Step.request sockSys _ _ .socket _ 0 0 (Except.ok 3) rfl rfl) <|
      .head (@Threading.Step.request sockSys _ _ (.bind 3) _ 0 0 (Except.ok ()) rfl rfl) <|
      .head (@Threading.Step.request sockSys _ _ (.getsockname 3) _ 0 0 (Except.ok ()) rfl rfl) <|
      .single (@Threading.Step.start sockSys _ _ (.pthreadCreate 3) _ 0 0 _ _ (Except.ok 1) rfl
        ⟨2, rfl⟩)
    exact ⟨_, hstart, rfl, (hreach _ hstart).1⟩

end Rewsr.Bench
