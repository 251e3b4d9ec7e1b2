import Rewsr.Go.Proof.Lines
import Rewsr.Probe.Net

/-!
# What the report of the interfaces says

A line of `tc` gives its device and its kind (`qdiscLine_text`), and the scan with its `seen` keeps
of the kinds of a device the first occurrences (`parseTcQdisc_lines`). The report has an entry for
each directory in their order (`netTuningProbe_report`).
-/

namespace Rewsr.Probe

open Rewsr.Go Assign Decimal

/-! ## Queueing disciplines -/

/-- A line of `tc qdisc show`: a kind and the device behind the word `dev`, or any other. -/
inductive QdiscLine where
  | qdisc (text kind : List UInt8) (handle : List (List UInt8)) (dev : List UInt8)
      (rest : List (List UInt8))
  | other (text : List UInt8)

namespace QdiscLine

def words (kind : List UInt8) (handle : List (List UInt8)) (dev : List UInt8)
    (rest : List (List UInt8)) : List (List UInt8) :=
  ascii "qdisc" :: kind :: (handle ++ ascii "dev" :: dev :: rest)

def text : QdiscLine → List UInt8
  | qdisc text _ _ _ _ => text
  | other text => text

/-- A line consists of its words, whatever white space is between them; the first `dev` is the one
in front of the device, and there is a fifth word. Another line starts with another word, is
shorter, or has no word behind a `dev`. -/
def Valid : QdiscLine → Prop
  | qdisc text kind handle dev rest => 0x0A ∉ text ∧ fields text = words kind handle dev rest ∧
      ascii "dev" ∉ kind :: handle ∧ handle ++ rest ≠ []
  | other text => 0x0A ∉ text ∧ ((fields text).getD 0 [] ≠ ascii "qdisc" ∨
      (fields text).length < 5 ∨ ascii "dev" ∉ (fields text).dropLast)

/-- The device and its kind. -/
def pair : QdiscLine → Option (List UInt8 × List UInt8)
  | qdisc _ kind _ dev _ => some (dev, kind)
  | other _ => none

end QdiscLine

theorem qdiscDev_append {before : List (List UInt8)} (h : ascii "dev" ∉ before)
    (dev : List UInt8) (rest : List (List UInt8)) :
    qdiscDev (before ++ ascii "dev" :: dev :: rest) = dev := by
  induction before with
  | nil => rfl
  | cons f before ih =>
    obtain ⟨hf, hbefore⟩ := not_or.mp (fun hmem => h (List.mem_cons.mpr hmem))
    have htail := ih hbefore
    obtain ⟨next, tail, hnext⟩ := List.exists_cons_of_ne_nil
      (show before ++ ascii "dev" :: dev :: rest ≠ [] by simp)
    rw [List.cons_append, hnext, qdiscDev, if_neg (Ne.symm hf), ← hnext, htail]

theorem qdiscDev_of_not_mem {words : List (List UInt8)} (h : ascii "dev" ∉ words.dropLast) :
    qdiscDev words = [] := by
  fun_induction qdiscDev words with
  | case1 next rest => exact absurd (List.mem_cons_self) h
  | case2 f next rest hf ih =>
    refine ih fun hmem => h ?_
    rw [List.dropLast_cons_cons]
    exact List.mem_cons_of_mem f hmem
  | case3 => rfl

theorem qdiscLine_text {line : QdiscLine} (h : line.Valid) : qdiscLine line.text = line.pair := by
  cases line with
  | qdisc text kind handle dev rest =>
    obtain ⟨-, hfields, hdev, hlen⟩ := h
    have hnot : ascii "dev" ∉ ascii "qdisc" :: kind :: handle := by
      intro hmem
      rcases List.mem_cons.mp hmem with heq | hin
      · exact absurd heq (by decide)
      · exact hdev hin
    have hfound : qdiscDev (QdiscLine.words kind handle dev rest) = dev :=
      qdiscDev_append hnot dev rest
    have hne : dev ≠ [] :=
      fields_ne_nil text dev (by rw [hfields]; simp [QdiscLine.words])
    have hfive : ¬ (QdiscLine.words kind handle dev rest).length < 5 := by
      have hpos := List.length_pos_iff.mpr hlen
      simp only [QdiscLine.words, List.length_cons, List.length_append] at hpos ⊢
      omega
    have hfirst : ¬ (QdiscLine.words kind handle dev rest).getD 0 [] ≠ ascii "qdisc" :=
      not_not.mpr rfl
    rw [qdiscLine, QdiscLine.text, hfields]
    simp only [hfound, if_neg (not_or.mpr ⟨hfive, hfirst⟩), if_neg hne]
    rfl
  | other text =>
    rw [qdiscLine, QdiscLine.text, QdiscLine.pair]
    rcases h.2 with hfirst | hshort | hdev
    · exact if_pos (.inr hfirst)
    · exact if_pos (.inl hshort)
    · simp [qdiscDev_of_not_mem hdev]

theorem QdiscLine.text_newline {line : QdiscLine} (h : line.Valid) : 0x0A ∉ line.text := by
  cases line with
  | qdisc text kind handle dev rest => exact h.1
  | other text => exact h.1

/-! ## The scan -/

/-- `seen` holds what is in `result`. -/
structure QdiscScan.Agrees (s : QdiscScan) (m : List UInt8 → List (List UInt8)) : Prop where
  result : s.result = m
  seen : ∀ dev kind, s.seen dev kind = true ↔ kind ∈ m dev

theorem QdiscScan.line_agrees {s : QdiscScan} {m : List UInt8 → List (List UInt8)}
    (h : s.Agrees m) (line : List UInt8) : (s.line line).Agrees (collect qdiscLine m line) := by
  rw [QdiscScan.line, collect]
  cases qdiscLine line with
  | none => exact h
  | some pair =>
    obtain ⟨dev, kind⟩ := pair
    by_cases hin : kind ∈ m dev
    · simp only [if_pos hin, if_pos ((h.seen dev kind).mpr hin)]
      exact h
    · simp only [if_neg hin, if_neg fun hseen => hin ((h.seen dev kind).mp hseen)]
      refine ⟨by rw [h.result], fun dev' kind' => ?_⟩
      dsimp only
      by_cases hdev : dev' = dev
      · subst hdev
        rw [Function.update_self, Function.update_self, List.mem_append, List.mem_singleton]
        by_cases hkind : kind' = kind
        · simp [hkind]
        · rw [Function.update_of_ne hkind, h.seen]
          simp [hkind]
      · rw [Function.update_of_ne hdev, Function.update_of_ne hdev]
        exact h.seen dev' kind'

theorem QdiscScan.lines_agrees (lines : List (List UInt8)) {s : QdiscScan}
    {m : List UInt8 → List (List UInt8)} (h : s.Agrees m) :
    (lines.foldl QdiscScan.line s).Agrees (lines.foldl (collect qdiscLine) m) := by
  induction lines generalizing s m with
  | nil => exact h
  | cons line lines ih => exact ih (QdiscScan.line_agrees h line)

/-- The distinct kinds of each device. -/
theorem parseTcQdisc_lines {lines : List QdiscLine} (h : ∀ line ∈ lines, line.Valid)
    (dev : List UInt8) :
    parseTcQdisc ([0x0A].intercalate (lines.map QdiscLine.text)) dev =
      distinct QdiscLine.pair lines dev := by
  have hnl : ∀ text ∈ lines.map QdiscLine.text, 0x0A ∉ text :=
    List.forall_mem_map.mpr fun line hline => QdiscLine.text_newline (h line hline)
  have hstart : QdiscScan.Agrees {} fun _ => [] := ⟨rfl, fun _ _ => by simp⟩
  have hscan := QdiscScan.lines_agrees (lines.map QdiscLine.text) hstart
  have hempty : ∀ s : QdiscScan, s.line [] = s := fun _ => rfl
  rw [parseTcQdisc, foldl_lines hempty hnl, hscan.result, foldl_collect, distinct, distinct,
    values_map fun line hline => qdiscLine_text (h line hline)]

/-! ## Interfaces -/

/-- The file holds the number, as the kernel writes it. -/
def NetDir.HasMtu (dir : NetDir) (n : Nat) : Prop :=
  ∃ s, IsNumber s ∧ s ≠ [] ∧ value s = n ∧ n < 2 ^ 63 ∧ dir.mtu = some (s ++ [0x0A])

theorem NetDir.HasMtu.read {dir : NetDir} {n : Nat} (h : dir.HasMtu n) :
    readIntFile dir.mtu = n := by
  obtain ⟨s, hnumber, hne, rfl, hlt, hfile⟩ := h
  have hgraphic : Graphic s := fun b hb => graphic_of_isDigit (hnumber b hb)
  rw [hfile]
  simp only [readIntFile, trimSpace_snoc (hgraphic.clean hne) hne (.inl rfl), atoi_eq hnumber hne,
    if_pos hlt, Option.getD_some]

theorem hasPrefix_tx_of_rx {queue : List UInt8} (h : hasPrefix queue (ascii "rx-") = true) :
    hasPrefix queue (ascii "tx-") = false := by
  rw [hasPrefix, List.isPrefixOf_iff_prefix] at h
  rw [hasPrefix, Bool.eq_false_iff, Ne, List.isPrefixOf_iff_prefix]
  intro htx
  obtain ⟨rest, rfl⟩ := h
  exact absurd (List.cons_prefix_cons.mp htx).1 (by decide)

theorem foldl_countQueue (queues : List (List UInt8)) (iface : IfaceTuning) :
    queues.foldl IfaceTuning.countQueue iface =
      { iface with
        rxQueues := iface.rxQueues + queues.countP (hasPrefix · (ascii "rx-"))
        txQueues := iface.txQueues + queues.countP (hasPrefix · (ascii "tx-")) } := by
  induction queues generalizing iface with
  | nil => rfl
  | cons queue queues ih =>
    rw [List.foldl_cons, ih, List.countP_cons, List.countP_cons, IfaceTuning.countQueue]
    by_cases hrx : hasPrefix queue (ascii "rx-") = true
    · simp [hrx, hasPrefix_tx_of_rx hrx, Nat.add_assoc, Nat.add_comm 1]
    · by_cases htx : hasPrefix queue (ascii "tx-") = true
      · simp [hrx, htx, Nat.add_assoc, Nat.add_comm 1]
      · simp [hrx, htx]

/-- The queues are counted by their names. -/
theorem NetDir.tuning_eq (dir : NetDir) : dir.tuning =
    { name := dir.name, mtu := readIntFile dir.mtu, txQueueLen := readIntFile dir.txQueueLen
      operState := (dir.operState.map trimSpace).getD []
      rxQueues := (dir.queues.getD []).countP (hasPrefix · (ascii "rx-"))
      txQueues := (dir.queues.getD []).countP (hasPrefix · (ascii "tx-")) } := by
  rw [NetDir.tuning]
  cases dir.queues with
  | none => rfl
  | some queues => simp [foldl_countQueue]

/-- A directory that makes the host one with jumbo frames. -/
def NetDir.Jumbo (dir : NetDir) : Prop := dir.name ≠ ascii "lo" ∧ dir.tuning.mtu ≥ 9000

theorem foldl_readDir (dirs : List NetDir) (r : NetTuningReport) :
    (dirs.foldl NetTuningReport.readDir r).interfaces = r.interfaces ++ dirs.map NetDir.tuning ∧
      ((dirs.foldl NetTuningReport.readDir r).jumboFrames = true ↔
        r.jumboFrames = true ∨ ∃ dir ∈ dirs, dir.Jumbo) := by
  induction dirs generalizing r with
  | nil => simp
  | cons dir dirs ih =>
    obtain ⟨hifaces, hjumbo⟩ := ih (r.readDir dir)
    rw [List.foldl_cons, hifaces, hjumbo, NetTuningReport.readDir]
    by_cases h : dir.Jumbo
    · have hif : dir.name ≠ ascii "lo" ∧ dir.tuning.mtu ≥ 9000 := h
      simp only [if_pos hif]
      exact ⟨by simp, by simp [h]⟩
    · have hif : ¬ (dir.name ≠ ascii "lo" ∧ dir.tuning.mtu ≥ 9000) := h
      simp only [if_neg hif]
      exact ⟨by simp, by simp [h]⟩

/-! ## The report -/

/-- **The tuning.** The report has an entry for each directory in order, with the MTU that its file
has and the numbers of queues of the two kinds; it says jumbo frames exactly where an entry other
than the loopback's has an MTU of 9000 or more; and where `tc` answers, it has of each device the
kinds of the lines, each where it occurs first. -/
theorem netTuningProbe_report (host : NetHost) :
    (netTuningProbe host).interfaces = host.dirs.map NetDir.tuning ∧
      (∀ dir ∈ host.dirs, (∀ n, dir.HasMtu n → dir.tuning.mtu = n) ∧
        dir.tuning.rxQueues = (dir.queues.getD []).countP (hasPrefix · (ascii "rx-")) ∧
        dir.tuning.txQueues = (dir.queues.getD []).countP (hasPrefix · (ascii "tx-"))) ∧
      ((netTuningProbe host).jumboFrames = true ↔ ∃ dir ∈ host.dirs, dir.Jumbo) ∧
      ∀ (lines : List QdiscLine) (out : List UInt8), (∀ line ∈ lines, line.Valid) →
        host.tc = some (.ok out) →
        trimSpace out = [0x0A].intercalate (lines.map QdiscLine.text) →
        ∀ dev, (netTuningProbe host).qdiscs dev = distinct QdiscLine.pair lines dev := by
  have hentry : ∀ dir ∈ host.dirs, (∀ n, dir.HasMtu n → dir.tuning.mtu = n) ∧
      dir.tuning.rxQueues = (dir.queues.getD []).countP (hasPrefix · (ascii "rx-")) ∧
      dir.tuning.txQueues = (dir.queues.getD []).countP (hasPrefix · (ascii "tx-")) := by
    intro dir _
    rw [NetDir.tuning_eq]
    exact ⟨fun n hn => hn.read, rfl, rfl⟩
  obtain ⟨start, hifaces, hjumbo, hfold, hfold', htc⟩ : ∃ start : NetTuningReport,
      start.interfaces = [] ∧ start.jumboFrames = false ∧
      (netTuningProbe host).interfaces =
        (host.dirs.foldl NetTuningReport.readDir start).interfaces ∧
      (netTuningProbe host).jumboFrames =
        (host.dirs.foldl NetTuningReport.readDir start).jumboFrames ∧
      ∀ out, host.tc = some (.ok out) →
        (netTuningProbe host).qdiscs = parseTcQdisc (trimSpace out) := by
    refine ⟨host.dirsError.elim {} fun err =>
      { notes := [ascii "sys/class/net unreadable: " ++ err] }, ?_⟩
    rw [netTuningProbe]
    cases host.dirsError <;> rcases host.tc with _ | _ | out
    all_goals
      refine ⟨rfl, rfl, rfl, rfl, ?_⟩
      rintro out ⟨⟩
    · rfl
    · rfl
  obtain ⟨hall, hany⟩ := foldl_readDir host.dirs start
  refine ⟨?_, hentry, ?_, fun lines out hlines hout htrim dev => ?_⟩
  · rw [hfold, hall, hifaces, List.nil_append]
  · rw [hfold', hany, hjumbo]
    simp
  · rw [htc out hout, htrim]
    exact parseTcQdisc_lines hlines dev

/-- A host with a loopback and a card of two queues. -/
def cardHost : NetHost where
  dirs :=
    [⟨ascii "lo", some (ascii "65536\n"), some (ascii "1000\n"), some (ascii "unknown\n"),
        some [ascii "rx-0", ascii "tx-0"]⟩,
      ⟨ascii "ens1", some (ascii "9000\n"), none, some (ascii "up\n"),
        some [ascii "rx-0", ascii "rx-1", ascii "tx-0", ascii "tx-1"]⟩]
  dirsError := none
  tc := some (.ok (ascii "qdisc mq 0: dev ens1 root \n" ++
    ascii "qdisc prio 1: dev ens1 priomap  1 2\nqdisc prio 2: dev ens1 priomap  1 2\n"))

/-- A line of one of its queues. -/
def prioLine (handle : List UInt8) : QdiscLine :=
  .qdisc (ascii "qdisc prio " ++ handle ++ ascii " dev ens1 priomap  1 2") (ascii "prio") [handle]
    (ascii "ens1") [ascii "priomap", ascii "1", ascii "2"]

/-- The lines of `tc` on this host. -/
def cardQdiscs : List QdiscLine :=
  [.qdisc (ascii "qdisc mq 0: dev ens1 root ") (ascii "mq") [ascii "0:"] (ascii "ens1")
    [ascii "root"], prioLine (ascii "1:"), prioLine (ascii "2:")]

theorem netTuningProbe_cardHost :
    (netTuningProbe cardHost).jumboFrames = true ∧
      (netTuningProbe cardHost).interfaces.map (·.mtu) = [65536, 9000] ∧
      (netTuningProbe cardHost).qdiscs (ascii "ens1") = [ascii "mq", ascii "prio"] := by
  have hlines : ∀ line ∈ cardQdiscs, line.Valid := by
    intro line hline
    simp only [cardQdiscs, prioLine, List.mem_cons, List.not_mem_nil, or_false] at hline
    rcases hline with rfl | rfl | rfl
    · exact ⟨by decide, by decide, by decide, by decide⟩
    · exact ⟨by decide, by decide, by decide, by decide⟩
    · exact ⟨by decide, by decide, by decide, by decide⟩
  obtain ⟨hifaces, -, hjumbo, hqdiscs⟩ := netTuningProbe_report cardHost
  refine ⟨hjumbo.mpr ⟨_, List.mem_cons_of_mem _ List.mem_cons_self, by decide, by decide⟩, ?_, ?_⟩
  · rw [hifaces]
    decide
  · rw [hqdiscs cardQdiscs _ hlines rfl (by decide)]
    decide

end Rewsr.Probe
