import Rewsr.Lib.Transition
import Rewsr.Go.Strings

/-!
# The UDP benchmark (`pier/tier0_udp.go`)

`measureThroughput` and `measureLatency` run two goroutines each, whose steps interleave with those
of the network and of the clock. A step is a call into the `net` package, a channel operation or
what the goroutine does between two of them. Calls fail as the network likes; a read fails as soon
as its socket is closed or its deadline has passed, and may fail or not where it was already
waiting. Samples keep the datagram that was read in place of the time it took.
-/

namespace Rewsr.Piers.Udp

/-! ## Sockets -/

inductive Deadline where
  | unset
  | pending
  | passed
  deriving DecidableEq, Repr

/-- A socket that is read: the datagrams that reached it. -/
structure Sock (δ : Type) where
  queue : List δ
  deadline : Deadline
  closed : Bool

namespace Sock

variable {δ : Type}

def fresh : Sock δ := ⟨[], .unset, false⟩

/-- A read that starts now fails. -/
def Fails (k : Sock δ) : Prop := k.closed = true ∨ k.deadline = .passed

instance (k : Sock δ) : Decidable k.Fails := inferInstanceAs (Decidable (_ ∨ _))

def close (k : Sock δ) : Sock δ := { k with closed := true }

def arm (k : Sock δ) : Sock δ := { k with deadline := .pending }

def push (k : Sock δ) (d : δ) : Sock δ := { k with queue := k.queue ++ [d] }

end Sock

/-- The arguments of `BenchmarkUDPLoopback`, its defaults applied. -/
structure Params where
  pingCount : Nat
  burstPackets : Nat
  packetSize : Nat
  pingCount_pos : 0 < pingCount
  burstPackets_pos : 0 < burstPackets
  packetSize_pos : 0 < packetSize

/-- A count, or the default in place of one that is not positive. -/
def orDefault (n : Int) (d : Nat) : Nat := if n ≤ 0 then d else n.toNat

theorem orDefault_pos (n : Int) {d : Nat} (hd : 0 < d) : 0 < orDefault n d := by
  unfold orDefault
  split <;> omega

def Params.ofArgs (pingCount burstPackets packetSize : Int) : Params where
  pingCount := orDefault pingCount 200
  burstPackets := orDefault burstPackets 2000
  packetSize := orDefault packetSize 1024
  pingCount_pos := orDefault_pos pingCount (by decide)
  burstPackets_pos := orDefault_pos burstPackets (by decide)
  packetSize_pos := orDefault_pos packetSize (by decide)

/-! ## Throughput -/

/-- Where `measureThroughput` is, from `net.DialUDP` on. -/
inductive Sender where
  | dial
  | send (i : Nat)
  | wait
  | returned (result : Option (Nat × Int))

/-- Where its goroutine is. -/
inductive Reader where
  | arm
  | enter
  | blocked
  | report
  | finished

structure Throughput where
  sender : Sender
  sent : Nat
  reader : Reader
  count : Nat
  received : Option Nat
  sink : Sock (List UInt8)
  /-- the datagrams on their way to the sink -/
  air : List (List UInt8)

/-- The goroutine is started. -/
def Throughput.start : Throughput := ⟨.dial, 0, .arm, 0, none, .fresh, []⟩

/-- Who takes a step: one of the two goroutines, or the network. It may lose a datagram, and carry
one of another program to the sink. -/
inductive Who where
  | sender
  | reader
  | lose
  | foreign (data : List UInt8)
  | net
  deriving DecidableEq

/-- `lost` -/
def lostOf (sent got : Nat) : Int :=
  let lost : Int := sent - got
  if lost < 0 then 0 else lost

/-- The reader's count after a read of `n` bytes. -/
def counted (count n : Nat) : Nat := if n > 0 then count + 1 else count

/-- What a read into a buffer of `size` bytes returns of a datagram. -/
def bytesRead (size : Nat) (d : List UInt8) : Nat := min d.length size

/-- The steps of `measureThroughput` -/
inductive ThroughputStep (p : Params) : Throughput → Who → Throughput → Prop
  | dialed {s} : s.sender = .dial → ThroughputStep p s .sender { s with sender := .send 0 }
  | undialed {s} : s.sender = .dial →
    ThroughputStep p s .sender { s with sender := .returned none, sink := s.sink.close }
  | wrote {s i} : s.sender = .send i → i < p.burstPackets →
    ThroughputStep p s .sender { s with
      sender := .send (i + 1), sent := s.sent + 1, air := s.air ++ [List.replicate p.packetSize 0] }
  | writeFailed {s i} : s.sender = .send i → i < p.burstPackets →
    ThroughputStep p s .sender { s with sender := .wait }
  | burstSent {s i} : s.sender = .send i → ¬ i < p.burstPackets →
    ThroughputStep p s .sender { s with sender := .wait }
  | gotCount {s got} : s.sender = .wait → s.received = some got →
    ThroughputStep p s .sender { s with
      sender := .returned (some (s.sent, lostOf s.sent got)), received := none,
      sink := s.sink.close }
  | armed {s} : s.reader = .arm →
    ThroughputStep p s .reader { s with reader := .enter, sink := s.sink.arm }
  | entered {s} : s.reader = .enter → ¬ s.sink.Fails →
    ThroughputStep p s .reader { s with reader := .blocked }
  | refused {s} : s.reader = .enter → s.sink.Fails →
    ThroughputStep p s .reader { s with reader := .report }
  | read {s d q} : s.reader = .blocked → s.sink.queue = d :: q →
    ThroughputStep p s .reader { s with
      reader := if counted s.count (bytesRead (p.packetSize + 64) d) ≥ p.burstPackets then .report
        else .enter
      count := counted s.count (bytesRead (p.packetSize + 64) d)
      sink := { s.sink with queue := q } }
  | interrupted {s} : s.reader = .blocked → s.sink.Fails →
    ThroughputStep p s .reader { s with reader := .report }
  | reported {s} : s.reader = .report → s.received = none →
    ThroughputStep p s .reader { s with reader := .finished, received := some s.count }
  | arrived {s as d bs} : s.air = as ++ d :: bs → s.sink.closed = false →
    ThroughputStep p s .net { s with air := as ++ bs, sink := s.sink.push d }
  | vanished {s as d bs} : s.air = as ++ d :: bs →
    ThroughputStep p s .lose { s with air := as ++ bs }
  | intruded {s} (d : List UInt8) : s.sink.closed = false →
    ThroughputStep p s (.foreign d) { s with sink := s.sink.push d }
  | expired {s} : s.sink.deadline = .pending →
    ThroughputStep p s .net { s with sink := { s.sink with deadline := .passed } }

/-! ## Latency -/

/-- A datagram at the echo server, and whether it is of `measureLatency`. -/
structure Request where
  payload : List UInt8
  own : Bool

/-- `fmt.Sprintf("ping-%d", i)` -/
def ping (i : Nat) : List UInt8 := ascii "ping-" ++ ascii (toString i)

/-- Where `measureLatency` is, from `net.DialUDP` on. Its deferred calls run in `close`, `stop` and
`shut`. -/
inductive Client where
  | dial
  | round (i : Nat)
  | write (i : Nat)
  | enter (i : Nat)
  | blocked (i : Nat)
  | close (result : Option (List (List UInt8)))
  | stop (result : Option (List (List UInt8)))
  | shut (result : Option (List (List UInt8)))
  | returned (result : Option (List (List UInt8)))

/-- Where the goroutine of `startEchoServer` is. -/
inductive Server where
  | select
  | arm
  | enter
  | blocked
  | write (r : Request)
  | returned

structure Latency where
  client : Client
  samples : List (List UInt8)
  server : Server
  /-- `done` is closed -/
  done : Bool
  conn : Sock (List UInt8)
  echo : Sock Request
  /-- the datagrams on their way to the echo server and back -/
  out : List (List UInt8)
  back : List (List UInt8)

def Latency.start : Latency := ⟨.dial, [], .select, false, .fresh, .fresh, [], []⟩

inductive Party where
  | client
  | server
  | net
  deriving DecidableEq

/-- The steps of `measureLatency` and of its echo server -/
inductive LatencyStep (p : Params) : Latency → Party → Latency → Prop
  | dialed {s} : s.client = .dial → LatencyStep p s .client { s with client := .round 0 }
  | undialed {s} : s.client = .dial → LatencyStep p s .client { s with client := .stop none }
  | deadlineSet {s i} : s.client = .round i → i < p.pingCount →
    LatencyStep p s .client { s with client := .write i, conn := s.conn.arm }
  | deadlineFailed {s i} : s.client = .round i → i < p.pingCount →
    LatencyStep p s .client { s with client := .close none }
  | sampled {s i} : s.client = .round i → ¬ i < p.pingCount →
    LatencyStep p s .client { s with client := .close (some s.samples) }
  | wrote {s i} : s.client = .write i →
    LatencyStep p s .client { s with client := .enter i, out := s.out ++ [ping i] }
  | writeFailed {s i} : s.client = .write i →
    LatencyStep p s .client { s with client := .close none }
  | entered {s i} : s.client = .enter i → ¬ s.conn.Fails →
    LatencyStep p s .client { s with client := .blocked i }
  | refused {s i} : s.client = .enter i → s.conn.Fails →
    LatencyStep p s .client { s with client := .round (i + 1) }
  | read {s i d q} : s.client = .blocked i → s.conn.queue = d :: q →
    LatencyStep p s .client { s with
      client := .round (i + 1), samples := s.samples ++ [d.take 64],
      conn := { s.conn with queue := q } }
  | interrupted {s i} : s.client = .blocked i → s.conn.Fails →
    LatencyStep p s .client { s with client := .round (i + 1) }
  | closed {s r} : s.client = .close r →
    LatencyStep p s .client { s with client := .stop r, conn := s.conn.close }
  | stopped {s r} : s.client = .stop r →
    LatencyStep p s .client { s with client := .shut r, done := true }
  | shut {s r} : s.client = .shut r →
    LatencyStep p s .client { s with client := .returned r, echo := s.echo.close }
  | goesOn {s} : s.server = .select → s.done = false →
    LatencyStep p s .server { s with server := .arm }
  | leaves {s} : s.server = .select → s.done = true →
    LatencyStep p s .server { s with server := .returned }
  | serverArmed {s} : s.server = .arm →
    LatencyStep p s .server { s with server := .enter, echo := s.echo.arm }
  | serverEntered {s} : s.server = .enter → ¬ s.echo.Fails →
    LatencyStep p s .server { s with server := .blocked }
  | serverRefused {s} : s.server = .enter → s.echo.Fails →
    LatencyStep p s .server { s with server := .select }
  | serverRead {s r q} : s.server = .blocked → s.echo.queue = r :: q →
    LatencyStep p s .server { s with
      server := .write { r with payload := r.payload.take 65536 },
      echo := { s.echo with queue := q } }
  | serverInterrupted {s} : s.server = .blocked → s.echo.Fails →
    LatencyStep p s .server { s with server := .select }
  | echoed {s r} : s.server = .write r →
    LatencyStep p s .server { s with
      server := .select, back := if r.own then s.back ++ [r.payload] else s.back }
  | unechoed {s r} : s.server = .write r → LatencyStep p s .server { s with server := .select }
  | arrived {s as d bs} : s.out = as ++ d :: bs → s.echo.closed = false →
    LatencyStep p s .net { s with out := as ++ bs, echo := s.echo.push ⟨d, true⟩ }
  | vanished {s as d bs} : s.out = as ++ d :: bs → LatencyStep p s .net { s with out := as ++ bs }
  | intruded {s} (d : List UInt8) : s.echo.closed = false →
    LatencyStep p s .net { s with echo := s.echo.push ⟨d, false⟩ }
  | returned {s as d bs} : s.back = as ++ d :: bs → s.conn.closed = false →
    LatencyStep p s .net { s with back := as ++ bs, conn := s.conn.push d }
  | backVanished {s as d bs} : s.back = as ++ d :: bs →
    LatencyStep p s .net { s with back := as ++ bs }
  | clientExpired {s} : s.conn.deadline = .pending →
    LatencyStep p s .net { s with conn := { s.conn with deadline := .passed } }
  | serverExpired {s} : s.echo.deadline = .pending →
    LatencyStep p s .net { s with echo := { s.echo with deadline := .passed } }

end Rewsr.Piers.Udp
