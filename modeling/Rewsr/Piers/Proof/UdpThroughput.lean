import Rewsr.Piers.UdpLoopback

/-!
# The throughput benchmark

In every interleaving of the sender, the reader and the network the counts that are reported add up
(`throughput_accounts`), and once the reader's deadline has passed both goroutines end after a
bounded number of steps and never wait for one another in vain (`throughput_ends`).
-/

namespace Rewsr.Piers.Udp

open Transition

variable {p : Params}

/-! ## The invariant -/

/-- What holds where the sender is. -/
def Sender.Ok (s : Throughput) : Sender → Prop
  | .dial => s.sent = 0
  | .send i => i = s.sent
  | .wait => True
  | .returned r => s.sink.closed = true ∧ ∀ n lost, r = some (n, lost) →
      n = s.sent ∧ lost = lostOf s.sent s.count ∧ s.reader = .finished

/-- What holds where the reader is. -/
def Reader.Ok (p : Params) (s : Throughput) : Reader → Prop
  | .arm => s.sink.deadline = .unset ∧ s.received = none ∧ s.count < p.burstPackets
  | .enter | .blocked =>
    s.sink.deadline ≠ .unset ∧ s.received = none ∧ s.count < p.burstPackets
  | .report => s.sink.deadline ≠ .unset ∧ s.received = none
  | .finished => s.sink.deadline ≠ .unset ∧
      (s.received = some s.count ∨ s.received = none ∧ ∃ r, s.sender = .returned r)

/-- What holds between two steps. -/
structure Throughput.Inv (p : Params) (s : Throughput) : Prop where
  sent_le : s.sent ≤ p.burstPackets
  count_le : s.count ≤ p.burstPackets
  sender : s.sender.Ok s
  reader : s.reader.Ok p s
  full : ∀ d ∈ s.air, d ≠ []

theorem Throughput.inv_start : Throughput.start.Inv p where
  sent_le := Nat.zero_le _
  count_le := Nat.zero_le _
  sender := rfl
  reader := ⟨rfl, rfl, p.burstPackets_pos⟩
  full := by simp [start]

/-- A reader that is not through goes on: no counts are returned before. -/
theorem Sender.Ok.of_reader {s s' : Throughput} {x : Sender} (h : x.Ok s)
    (hreader : s.reader ≠ .finished) (hsent : s'.sent = s.sent)
    (hclosed : s'.sink.closed = s.sink.closed) : x.Ok s' := by
  cases x with
  | dial => exact hsent.trans h
  | send i => exact Eq.trans h hsent.symm
  | wait => trivial
  | returned r =>
    exact ⟨hclosed.trans h.1, fun n lost hr => absurd (h.2 n lost hr).2.2 hreader⟩

/-- The reader stays where it is: a deadline that was set stays set, and a count that was taken has
been returned. -/
theorem Reader.Ok.of_others {s s' : Throughput} {x : Reader} (h : x.Ok p s)
    (hdeadline : s'.sink.deadline = .unset ↔ s.sink.deadline = .unset)
    (hreceived : s'.received = s.received) (hcount : s'.count = s.count)
    (hreturned : ∀ r, s.sender = .returned r → ∃ r, s'.sender = .returned r) : x.Ok p s' := by
  cases x with
  | arm | enter | blocked | report =>
    simp only [Reader.Ok, hdeadline, hreceived, hcount, ne_eq] at h ⊢
    exact h
  | finished =>
    refine ⟨mt hdeadline.mp h.1, ?_⟩
    rw [hreceived, hcount]
    exact h.2.imp_right fun ⟨hnone, r, hr⟩ => ⟨hnone, hreturned r hr⟩

/-- Only a reader that is through has reported, and it has reported its count. -/
theorem Reader.Ok.finished {s : Throughput} {x : Reader} (h : x.Ok p s) {got : Nat}
    (hgot : s.received = some got) :
    x = .finished ∧ s.sink.deadline ≠ .unset ∧ got = s.count := by
  cases x with
  | arm | enter | blocked => simp [h.2.1] at hgot
  | report => simp [h.2] at hgot
  | finished =>
    rcases h.2 with hcount | ⟨hnone, -⟩
    · exact ⟨rfl, h.1, Option.some.inj (hgot.symm.trans hcount)⟩
    · simp [hnone] at hgot

theorem counted_le (count n : Nat) : count ≤ counted count n ∧ counted count n ≤ count + 1 := by
  unfold counted
  split <;> omega

theorem mem_of_mem_erase {α : Type*} {as bs : List α} {d e : α} (h : e ∈ as ++ bs) :
    e ∈ as ++ d :: bs := by
  rw [List.mem_append] at h ⊢
  exact h.imp_right (List.mem_cons_of_mem d)

theorem ThroughputStep.inv {s s' : Throughput} {who : Who} (h : ThroughputStep p s who s')
    (hi : s.Inv p) : s'.Inv p := by
  have hsender := hi.sender
  have hreader := hi.reader
  cases h with
  | dialed hs =>
    rw [hs] at hsender
    exact { hi with
      sender := Eq.symm hsender
      reader := hreader.of_others Iff.rfl rfl rfl (by simp [hs]) }
  | undialed hs =>
    exact { hi with
      sender := ⟨rfl, nofun⟩
      reader := hreader.of_others Iff.rfl rfl rfl fun _ _ => ⟨none, rfl⟩ }
  | @wrote i hs hlt =>
    rw [hs] at hsender
    obtain rfl : i = s.sent := hsender
    exact { hi with
      sent_le := hlt
      sender := rfl
      reader := hreader.of_others Iff.rfl rfl rfl (by simp [hs])
      full := by
        intro d hd
        rcases List.mem_append.mp hd with hd | hd
        · exact hi.full d hd
        · rw [List.mem_singleton.mp hd]
          simp [Nat.ne_of_gt p.packetSize_pos] }
  | writeFailed hs _ | burstSent hs _ =>
    exact { hi with
      sender := trivial
      reader := hreader.of_others Iff.rfl rfl rfl (by simp [hs]) }
  | @gotCount got hs hgot =>
    obtain ⟨hfinished, hdeadline, rfl⟩ := hreader.finished hgot
    exact { hi with
      sender := ⟨rfl, fun n lost heq => by
        cases heq
        exact ⟨rfl, rfl, hfinished⟩⟩
      reader := by
        simp only [hfinished]
        exact ⟨hdeadline, Or.inr ⟨rfl, _, rfl⟩⟩ }
  | armed hr =>
    rw [hr] at hreader
    exact { hi with
      sender := hsender.of_reader (by simp [hr]) rfl rfl
      reader := ⟨nofun, hreader.2⟩ }
  | entered hr _ =>
    rw [hr] at hreader
    exact { hi with
      sender := hsender.of_reader (by simp [hr]) rfl rfl
      reader := hreader }
  | refused hr _ | interrupted hr _ =>
    rw [hr] at hreader
    exact { hi with
      sender := hsender.of_reader (by simp [hr]) rfl rfl
      reader := ⟨hreader.1, hreader.2.1⟩ }
  | @read d q hr hq =>
    rw [hr] at hreader
    obtain ⟨hdeadline, hnone, hcount⟩ := hreader
    have hnext := counted_le s.count (bytesRead (p.packetSize + 64) d)
    exact { hi with
      count_le := by simp only; omega
      sender := hsender.of_reader (by simp [hr]) rfl rfl
      reader := by
        simp only
        split
        · exact ⟨hdeadline, hnone⟩
        · rename_i hlt
          exact ⟨hdeadline, hnone, Nat.not_le.mp hlt⟩ }
  | reported hr hn =>
    rw [hr] at hreader
    exact { hi with
      sender := hsender.of_reader (by simp [hr]) rfl rfl
      reader := ⟨hreader.1, Or.inl rfl⟩ }
  | arrived hair _ =>
    exact { hi with full := fun d hd => hi.full d (hair ▸ mem_of_mem_erase hd) }
  | vanished hair =>
    exact { hi with full := fun d hd => hi.full d (hair ▸ mem_of_mem_erase hd) }
  | intruded d _ => exact { hi with }
  | expired hd =>
    exact { hi with
      reader := hreader.of_others (by simp [hd]) rfl rfl fun r hr => ⟨r, hr⟩ }

theorem inv_of_run {s : Throughput} {l : List Who} (h : Run (ThroughputStep p) .start l s) :
    s.Inv p :=
  h.invariant ThroughputStep.inv Throughput.inv_start

/-! ## The counts -/

/-- The datagrams at the sink that its reader would count. -/
def Throughput.unread (s : Throughput) : Nat := s.sink.queue.countP (· ≠ [])

/-- A datagram with data from another program. -/
def Who.isData : Who → Bool
  | .foreign d => d ≠ []
  | _ => false

def Who.isLoss (who : Who) : Bool := who = .lose

theorem counted_read (count : Nat) (d : List UInt8) :
    counted count (bytesRead (p.packetSize + 64) d) = count + if d ≠ [] then 1 else 0 := by
  cases d with
  | nil => rfl
  | cons b d =>
    have hpos : bytesRead (p.packetSize + 64) (b :: d) > 0 := by
      rw [bytesRead, List.length_cons]
      omega
    rw [counted, if_pos hpos, if_pos (List.cons_ne_nil b d)]

/-- A datagram sent is counted, unread, on its way or lost. -/
theorem ThroughputStep.balance {s s' : Throughput} {who : Who} (h : ThroughputStep p s who s')
    (hi : s.Inv p) :
    s'.count + s'.unread + s'.air.length + s.sent + (if who.isLoss then 1 else 0) =
      s.count + s.unread + s.air.length + s'.sent + (if who.isData then 1 else 0) := by
  cases h with
  | dialed | undialed | writeFailed | burstSent | gotCount | armed | entered | refused | interrupted
    | reported | expired => rfl
  | wrote hs hlt =>
    simp only [Throughput.unread, List.length_append, List.length_singleton, Who.isLoss, Who.isData]
    simp
    omega
  | @read d q hr hq =>
    simp only [Throughput.unread, counted_read, hq, List.countP_cons, decide_eq_true_eq, Who.isLoss,
      Who.isData]
    simp
    omega
  | @arrived as d bs hair _ =>
    have hd := hi.full d (hair ▸ List.mem_append_right as List.mem_cons_self)
    simp only [Throughput.unread, Sock.push, hair, List.countP_append, List.countP_singleton,
      List.length_append, List.length_cons, decide_eq_true_eq, if_pos hd, Who.isLoss, Who.isData]
    simp
    omega
  | @vanished as d bs hair =>
    simp only [Throughput.unread, hair, List.length_append, List.length_cons, Who.isLoss,
      Who.isData]
    simp
    omega
  | intruded d _ =>
    simp only [Throughput.unread, Sock.push, List.countP_append, List.countP_singleton,
      decide_eq_true_eq, Who.isLoss, Who.isData]
    simp
    omega

theorem lostOf_eq (sent got : Nat) : lostOf sent got = ((sent - got : Nat) : Int) := by
  simp only [lostOf]
  split <;> omega

/-- **What is reported.** Whatever the order of the steps, the counts returned are at most the
burst, and the packets not lost are those that were counted. Where no other program sent data to the
sink, the lost ones are those that the network lost, that are on their way, or that nobody read. -/
theorem throughput_accounts {s : Throughput} {l : List Who}
    (h : Run (ThroughputStep p) .start l s) {n : Nat} {lost : Int}
    (hret : s.sender = .returned (some (n, lost))) :
    n ≤ p.burstPackets ∧ s.count ≤ p.burstPackets ∧ 0 ≤ lost ∧ n - lost = min n s.count ∧
      (l.countP Who.isData = 0 →
        lost = (l.countP Who.isLoss + s.air.length + s.unread : Nat)) := by
  have hi := inv_of_run h
  have hsender := hi.sender
  rw [hret] at hsender
  obtain ⟨rfl, rfl, -⟩ := hsender.2 n lost rfl
  have hbalance := h.balance (f := fun s : Throughput => s.count + s.unread + s.air.length)
    (g := fun s : Throughput => s.sent) ThroughputStep.inv (fun hstep hi => hstep.balance hi)
    Throughput.inv_start
  have hzero : Throughput.start.count + Throughput.start.unread + Throughput.start.air.length = 0 :=
    rfl
  have hsent : Throughput.start.sent = 0 := rfl
  have hcount := hi.count_le
  rw [hzero, hsent] at hbalance
  rw [lostOf_eq]
  refine ⟨hi.sent_le, hcount, by omega, by omega, fun hdata => ?_⟩
  omega

/-- A burst of two packets of which the network loses one. -/
theorem exists_lossy_run : ∃ l s, Run (ThroughputStep (.ofArgs 1 2 1)) .start l s ∧
    s.sender = .returned (some (2, 1)) ∧ s.count = 1 ∧ l.countP Who.isLoss = 1 ∧
    l.countP Who.isData = 0 :=
  ⟨[.sender, .reader, .reader, .sender, .net, .reader, .sender, .sender, .lose, .net, .reader,
      .reader, .sender], _,
    .cons (.dialed rfl) (.cons (.armed rfl) (.cons (.entered rfl (by decide))
      (.cons (.wrote rfl (by decide)) (.cons (@ThroughputStep.arrived _ _ [] _ [] rfl rfl)
      (.cons (.read rfl rfl) (.cons (.wrote rfl (by decide)) (.cons (.burstSent rfl (by decide))
      (.cons (@ThroughputStep.vanished _ _ [] _ [] rfl) (.cons (.expired rfl)
      (.cons (.refused rfl (by decide)) (.cons (.reported rfl rfl) (.cons (.gotCount rfl rfl)
      (.nil _))))))))))))), rfl, rfl, rfl, rfl⟩

theorem throughput_accounts_lossy : ∃ l s, Run (ThroughputStep (.ofArgs 1 2 1)) .start l s ∧
    s.sender = .returned (some (2, 1)) ∧ (1 : Int) = (1 + s.air.length + s.unread : Nat) := by
  obtain ⟨l, s, hrun, hret, -, hloss, hdata⟩ := exists_lossy_run
  obtain ⟨-, -, -, -, hlost⟩ := throughput_accounts hrun hret
  exact ⟨l, s, hrun, hret, hloss ▸ hlost hdata⟩

/-! ## The end -/

/-- Both goroutines are through. -/
def Throughput.Ended (s : Throughput) : Prop :=
  (∃ r, s.sender = .returned r) ∧ s.reader = .finished

/-- A step of a goroutine. -/
def Who.isGoroutine : Who → Bool
  | .sender | .reader => true
  | _ => false

/-- The reader waits for the network, and its deadline is ahead. -/
def Throughput.Waits (s : Throughput) : Prop :=
  s.reader = .blocked ∧ s.sink.queue = [] ∧ s.sink.deadline = .pending

/-- The reader goes on, waits for a datagram before its deadline, or is through. -/
theorem reader_goes_on {s : Throughput} (hi : s.Inv p) :
    (∃ s', ThroughputStep p s .reader s') ∨ s.Waits ∨ s.reader = .finished := by
  have hreader := hi.reader
  cases hr : s.reader with
  | arm => exact Or.inl ⟨_, .armed hr⟩
  | enter =>
    by_cases hfails : s.sink.Fails
    · exact Or.inl ⟨_, .refused hr hfails⟩
    · exact Or.inl ⟨_, .entered hr hfails⟩
  | blocked =>
    cases hq : s.sink.queue with
    | cons d q => exact Or.inl ⟨_, .read hr hq⟩
    | nil =>
      by_cases hfails : s.sink.Fails
      · exact Or.inl ⟨_, .interrupted hr hfails⟩
      · right
        left
        refine ⟨hr, hq, ?_⟩
        cases hd : s.sink.deadline with
        | unset =>
          rw [hr] at hreader
          exact absurd hd hreader.1
        | pending => rfl
        | passed => exact absurd (Or.inr hd) hfails
  | report =>
    rw [hr] at hreader
    exact Or.inl ⟨_, .reported hr hreader.2⟩
  | finished => exact Or.inr (Or.inr rfl)

/-- The sender goes on, has returned, or waits for a reader that is not through. -/
theorem sender_goes_on {s : Throughput} (hi : s.Inv p) :
    (∃ s', ThroughputStep p s .sender s') ∨ (∃ r, s.sender = .returned r) ∨
      s.reader ≠ .finished := by
  cases hs : s.sender with
  | dial => exact Or.inl ⟨_, .dialed hs⟩
  | send i =>
    by_cases hlt : i < p.burstPackets
    · exact Or.inl ⟨_, .wrote hs hlt⟩
    · exact Or.inl ⟨_, .burstSent hs hlt⟩
  | wait =>
    cases hn : s.received with
    | some got => exact Or.inl ⟨_, .gotCount hs hn⟩
    | none =>
      refine Or.inr (Or.inr fun hfinished => ?_)
      have hreader := hi.reader
      rw [hfinished] at hreader
      rcases hreader.2 with hsome | ⟨-, r, heq⟩
      · simp [hn] at hsome
      · simp [hs] at heq
  | returned r => exact Or.inr (Or.inl ⟨r, rfl⟩)

/-- As long as a goroutine is not through, one can take a step or the reader has time to wait. -/
theorem goes_on {s : Throughput} (hi : s.Inv p) (hend : ¬ s.Ended) :
    Can (ThroughputStep p) Who.isGoroutine s ∨ s.Waits := by
  rcases reader_goes_on hi with ⟨s', hstep⟩ | hwaits | hfinished
  · exact Or.inl ⟨.reader, s', rfl, hstep⟩
  · exact Or.inr hwaits
  · rcases sender_goes_on hi with ⟨s', hstep⟩ | hreturned | hne
    · exact Or.inl ⟨.sender, s', rfl, hstep⟩
    · exact absurd ⟨hreturned, hfinished⟩ hend
    · exact absurd hfinished hne

/-- The steps that are left to the sender, and to a reader whose reads fail from now on. -/
def Sender.left (p : Params) : Sender → Nat
  | .dial => p.burstPackets + 3
  | .send i => p.burstPackets - i + 2
  | .wait => 1
  | .returned _ => 0

def Reader.left : Reader → Nat
  | .arm => 3
  | .blocked => 3
  | .enter => 2
  | .report => 1
  | .finished => 0

def Throughput.left (p : Params) (s : Throughput) : Nat := s.sender.left p + s.reader.left

/-- A socket whose reads fail keeps failing. -/
theorem ThroughputStep.fails {s s' : Throughput} {who : Who} (h : ThroughputStep p s who s')
    (hi : s.Inv p) (hfails : s.sink.Fails) : s'.sink.Fails := by
  cases h with
  | undialed | gotCount => exact Or.inl rfl
  | armed hr =>
    refine hfails.imp_right fun hd => ?_
    have hreader := hi.reader
    rw [hr] at hreader
    rw [hreader.1] at hd
    cases hd
  | expired => exact Or.inr rfl
  | dialed | wrote | writeFailed | burstSent | entered | refused | interrupted | reported | read
    | arrived | vanished | intruded => exact hfails

theorem ThroughputStep.left {s s' : Throughput} {who : Who} (h : ThroughputStep p s who s')
    (hfails : s.sink.Fails) :
    s'.left p + (if who.isGoroutine then 1 else 0) ≤ s.left p := by
  cases h with
  | dialed hs | undialed hs | writeFailed hs | burstSent hs | gotCount hs =>
    simp [Throughput.left, hs, Sender.left, Who.isGoroutine]
    try omega
  | wrote hs hlt =>
    simp [Throughput.left, hs, Sender.left, Who.isGoroutine]
    omega
  | armed hr | refused hr | interrupted hr | reported hr =>
    simp [Throughput.left, hr, Reader.left, Who.isGoroutine]
  | entered hr hnot => exact absurd hfails hnot
  | read hr hq =>
    simp only [Throughput.left, hr]
    split <;> simp [Reader.left, Who.isGoroutine]
  | arrived | vanished | intruded | expired => exact Nat.le_refl _

/-- **The benchmark ends.** Until both goroutines are through, one of them can take a step or the
reader waits for a datagram before its deadline. Once the reads of the sink fail, because the
deadline has passed or because `measureThroughput` has returned, they take at most `burstPackets`
and six steps more, whatever else arrives, and until then one of them can. -/
theorem throughput_ends {s : Throughput} {l : List Who} (h : Run (ThroughputStep p) .start l s) :
    (¬ s.Ended → Can (ThroughputStep p) Who.isGoroutine s ∨ s.Waits) ∧
      (s.sink.Fails → ∀ {l' s'}, Run (ThroughputStep p) s l' s' →
        l'.countP Who.isGoroutine ≤ p.burstPackets + 6 ∧
          (¬ s'.Ended → Can (ThroughputStep p) Who.isGoroutine s')) := by
  have hi := inv_of_run h
  refine ⟨goes_on hi, fun hfails l' s' h' => ?_⟩
  have hkeep : s'.Inv p ∧ s'.sink.Fails :=
    h'.invariant (I := fun s => s.Inv p ∧ s.sink.Fails)
      (fun hstep hI => ⟨hstep.inv hI.1, hstep.fails hI.1 hI.2⟩) ⟨hi, hfails⟩
  have hcount := h'.countP_add_le (I := fun s => s.Inv p ∧ s.sink.Fails)
    (p := Who.isGoroutine) (Throughput.left p)
    (fun hstep hI => ⟨hstep.inv hI.1, hstep.fails hI.1 hI.2⟩)
    (fun hstep hI => hstep.left hI.2) ⟨hi, hfails⟩
  have hleft : s.left p ≤ p.burstPackets + 6 := by
    have hsender : s.sender.left p ≤ p.burstPackets + 3 := by
      cases s.sender <;> simp [Sender.left]
      omega
    have hreader : s.reader.left ≤ 3 := by
      cases s.reader <;> simp [Reader.left]
    rw [Throughput.left]
    omega
  refine ⟨by omega, fun hend => ?_⟩
  rcases goes_on hkeep.1 hend with hcan | ⟨hr, -, -⟩
  · exact hcan
  · exact ⟨.reader, _, rfl, .interrupted hr hkeep.2⟩

theorem throughput_ends_lossy : ∃ l s, Run (ThroughputStep (.ofArgs 1 2 1)) .start l s ∧
    s.sender = .returned (some (2, 1)) ∧
    ∀ {l' s'}, Run (ThroughputStep (.ofArgs 1 2 1)) s l' s' →
      l'.countP Who.isGoroutine ≤ 2 + 6 := by
  obtain ⟨l, s, hrun, hret, -⟩ := exists_lossy_run
  have hsender := (inv_of_run hrun).sender
  rw [hret] at hsender
  have hfails : s.sink.Fails := Or.inl hsender.1
  exact ⟨l, s, hrun, hret, fun h' => ((throughput_ends hrun).2 hfails h').1⟩

end Rewsr.Piers.Udp
