import Rewsr.Go.Proof.Lines
import Rewsr.Probe.Rdma

/-!
# What the RDMA report says

Each line of `ibv_devinfo` writes one value into the device of its stanza (`IbvScan.line_text`), so
a device has the last values of its stanza (`parseIbvDevinfo_stanzas`). A host is active by the last
port of a device (`rdmaProbe_active`).
-/

namespace Rewsr.Probe

open Rewsr.Go Assign

/-! ## Lines -/

/-- The keys that `ParseIbvDevinfo` knows. -/
def ibvKeys : List (List UInt8) :=
  [ascii "hca_id", ascii "transport", ascii "state", ascii "link_layer"]

/-- A line of `ibv_devinfo`: a key and its value, where `paren` is the number behind a name, or any
other. -/
inductive IbvLine where
  | field (indent key gap value : List UInt8) (paren : Option (List UInt8))
  | other (text : List UInt8)

namespace IbvLine

/-- The value as it is printed. -/
def shown (value : List UInt8) : Option (List UInt8) → List UInt8
  | none => value
  | some p => value ++ 0x20 :: 0x28 :: (p ++ [0x29])

def text : IbvLine → List UInt8
  | field indent key gap value paren => indent ++ key ++ 0x3A :: (gap ++ shown value paren)
  | other text => text

/-- Keys are words, and values start and end with no space; the names in front of a number have no
parenthesis. What another line has in front of a colon is none of the keys. -/
def Valid : IbvLine → Prop
  | field indent key gap value paren => (∀ b ∈ indent, isBlank b = true) ∧
      (Graphic key ∧ key ≠ [] ∧ 0x3A ∉ key) ∧ (∀ b ∈ gap, isBlank b = true) ∧
      (Clean value ∧ value ≠ [] ∧ 0x0A ∉ value) ∧ (∀ p ∈ paren, 0x0A ∉ p) ∧
      (key = ascii "transport" ∨ key = ascii "state" → 0x28 ∉ value)
  | other text => 0x0A ∉ text ∧ ∀ kv ∈ cut 0x3A text, trimSpace kv.1 ∉ ibvKeys

/-- What the line says, without the number, which only a link layer keeps. -/
def pair : IbvLine → Option (List UInt8 × List UInt8)
  | field _ key _ value paren =>
    some (key, if key = ascii "link_layer" then shown value paren else value)
  | other _ => none

/-- The line is about the device of the stanza it is in. -/
def Inner (line : IbvLine) : Prop := ∀ kv ∈ line.pair, kv.1 ≠ ascii "hca_id"

/-- What the line does to the device. -/
def on (d : IbvDevice) : IbvLine → IbvDevice
  | field _ key _ value paren => d.set key (shown value paren)
  | other _ => d

theorem shown_clean {value : List UInt8} (h : Clean value) (hne : value ≠ [])
    (paren : Option (List UInt8)) : Clean (shown value paren) := by
  cases paren with
  | none => exact h
  | some p =>
    have htext : shown value (some p) = (value ++ 0x20 :: 0x28 :: p) ++ [0x29] := by simp [shown]
    have hparen : (0x21 : UInt8) ≤ 0x29 ∧ (0x29 : UInt8) < 0x80 := by decide
    constructor
    · exact not_prefix_append_ascii h.front hne (by decide) (0x28 :: (p ++ [0x29]))
    · rw [htext]
      exact CleanBack.append .nil hparen _

theorem trimParen_shown {value : List UInt8} (h : Clean value) (hne : value ≠ [])
    (hparen : 0x28 ∉ value) (paren : Option (List UInt8)) :
    trimParen (shown value paren) = value := by
  cases paren with
  | none => rw [shown, trimParen, cut_none hparen]
  | some p =>
    have htext : shown value (some p) = (value ++ [0x20]) ++ 0x28 :: (p ++ [0x29]) := by
      simp [shown]
    have hnot : (0x28 : UInt8) ∉ value ++ [0x20] := by simp [hparen]
    rw [htext, trimParen, cut_append hnot]
    exact trimSpace_snoc h hne (.inr rfl)

end IbvLine

/-- A line writes what it says. -/
theorem IbvScan.line_text {line : IbvLine} (h : line.Valid) (hin : line.Inner) (s : IbvScan) :
    s.line line.text = { s with cur := s.cur.map fun d => line.on d } := by
  cases line with
  | field indent key gap value paren =>
    obtain ⟨hindent, ⟨hkey, hkne, hcolon⟩, hgap, ⟨hvalue, hvne, -⟩, -, -⟩ := h
    have hblank : (0x3A : UInt8) ∉ indent := not_mem_blanks hindent (by decide)
    have hnot : (0x3A : UInt8) ∉ indent ++ key := by simp [hblank, hcolon]
    have hhca : key ≠ ascii "hca_id" := hin (key, _) rfl
    rw [IbvScan.line, IbvLine.text, cut_append hnot]
    simp only [trimSpace_blanks hindent (hkey.clean hkne),
      trimSpace_blanks hgap (IbvLine.shown_clean hvalue hvne paren), IbvScan.set, if_neg hhca]
    rfl
  | other text =>
    rw [IbvScan.line, IbvLine.text]
    cases hcut : cut 0x3A text with
    | none => simp [IbvLine.on]
    | some kv =>
      have hkey := h.2 kv hcut
      simp only [ibvKeys, List.mem_cons, List.not_mem_nil, or_false, not_or] at hkey
      obtain ⟨hhca, htransport, hstate, hlink⟩ := hkey
      simp [IbvScan.set, IbvDevice.set, IbvLine.on, hhca, htransport, hstate, hlink]

theorem IbvScan.lines_text {lines : List IbvLine} (h : ∀ line ∈ lines, line.Valid ∧ line.Inner)
    (s : IbvScan) : (lines.map IbvLine.text).foldl IbvScan.line s =
      { s with cur := s.cur.map fun d => lines.foldl IbvLine.on d } := by
  induction lines generalizing s with
  | nil => simp
  | cons line lines ih =>
    obtain ⟨hvalid, hin⟩ := h line List.mem_cons_self
    rw [List.map_cons, List.foldl_cons, IbvScan.line_text hvalid hin,
      ih fun l hl => h l (List.mem_cons_of_mem line hl)]
    simp [Function.comp_def]

/-! ## Devices -/

/-- Each field of the device is one key's. -/
theorem IbvLine.on_eq {line : IbvLine} (h : line.Valid) (d : IbvDevice) : line.on d =
    { hca := d.hca
      transport := (values pair [line] (ascii "transport")).getLast?.getD d.transport
      portState := (values pair [line] (ascii "state")).getLast?.getD d.portState
      linkLayer := (values pair [line] (ascii "link_layer")).getLast?.getD d.linkLayer } := by
  cases line with
  | field indent key gap value paren =>
    obtain ⟨-, -, -, ⟨hvalue, hne, -⟩, -, hparen⟩ := h
    have hname := fun hkey => trimParen_shown hvalue hne (hparen hkey) paren
    have hstate : ascii "transport" ≠ ascii "state" := by decide
    have hlayer : ascii "transport" ≠ ascii "link_layer" := by decide
    have hlast : ascii "state" ≠ ascii "link_layer" := by decide
    simp only [values_of_some (show pair (.field indent key gap value paren) = some _ from rfl), on,
      IbvDevice.set]
    by_cases htransport : key = ascii "transport"
    · subst htransport
      simp [hstate, hlayer, hname (.inl rfl)]
    by_cases hport : key = ascii "state"
    · subst hport
      simp [hstate.symm, hlast, hname (.inr rfl)]
    by_cases hlink : key = ascii "link_layer"
    · subst hlink
      simp [hlayer.symm, hlast.symm]
    · simp [htransport, hport, hlink]
  | other text =>
    simp only [values_of_none (show pair (.other text) = none from rfl)]
    rfl

theorem foldl_on {lines : List IbvLine} (h : ∀ line ∈ lines, line.Valid) (d : IbvDevice) :
    lines.foldl IbvLine.on d =
      { hca := d.hca
        transport := (values IbvLine.pair lines (ascii "transport")).getLast?.getD d.transport
        portState := (values IbvLine.pair lines (ascii "state")).getLast?.getD d.portState
        linkLayer := (values IbvLine.pair lines (ascii "link_layer")).getLast?.getD d.linkLayer } := by
  induction lines generalizing d with
  | nil => rfl
  | cons line lines ih =>
    have htail := ih fun l hl => h l (List.mem_cons_of_mem line hl)
    rw [List.foldl_cons, htail, IbvLine.on_eq (h line List.mem_cons_self)]
    simp only [getLast_values_cons IbvLine.pair line lines]

/-- What `ibv_devinfo` prints of a device. -/
structure Stanza where
  hca : List UInt8
  lines : List IbvLine

namespace Stanza

def head (st : Stanza) : IbvLine := .field [] (ascii "hca_id") (ascii "\t") st.hca none

def Valid (st : Stanza) : Prop := st.head.Valid ∧ ∀ line ∈ st.lines, line.Valid ∧ line.Inner

/-- The last value that the stanza has for a key. -/
def last (st : Stanza) (key : List UInt8) : List UInt8 :=
  (values IbvLine.pair st.lines key).getLast?.getD []

def device (st : Stanza) : IbvDevice :=
  { hca := st.hca, transport := st.last (ascii "transport"), portState := st.last (ascii "state")
    linkLayer := st.last (ascii "link_layer") }

/-- A stanza adds its device. -/
theorem scan {st : Stanza} (h : st.Valid) (s : IbvScan) :
    ((st.head :: st.lines).map IbvLine.text).foldl IbvScan.line s =
      { before := s.devices, cur := some st.device } := by
  obtain ⟨⟨-, -, hgap, ⟨hvalue, hne, -⟩, -, -⟩, hlines⟩ := h
  have hhead : s.line st.head.text = { before := s.devices, cur := some { hca := st.hca } } := by
    have hnot : (0x3A : UInt8) ∉ [] ++ ascii "hca_id" := by decide
    have hkey : trimSpace ([] ++ ascii "hca_id") = ascii "hca_id" := by decide
    rw [IbvScan.line, head, IbvLine.text, cut_append hnot]
    simp only [hkey, trimSpace_blanks hgap (IbvLine.shown_clean hvalue hne none), IbvScan.set,
      if_true]
    rfl
  rw [List.map_cons, List.foldl_cons, hhead, IbvScan.lines_text hlines,
    Option.map_some, foldl_on fun line hline => (hlines line hline).1]
  rfl

theorem scan_all {stanzas : List Stanza} (h : ∀ st ∈ stanzas, st.Valid) (s : IbvScan) :
    (((stanzas.flatMap fun st => st.head :: st.lines).map IbvLine.text).foldl
      IbvScan.line s).devices = s.devices ++ stanzas.map device := by
  induction stanzas generalizing s with
  | nil => simp
  | cons st stanzas ih =>
    rw [List.flatMap_cons, List.map_append, List.foldl_append,
      scan (h st List.mem_cons_self), ih fun t ht => h t (List.mem_cons_of_mem st ht)]
    simp [IbvScan.devices]

end Stanza

theorem IbvLine.text_newline {line : IbvLine} (h : line.Valid) : 0x0A ∉ line.text := by
  cases line with
  | field indent key gap value paren =>
    obtain ⟨hindent, ⟨hkey, -⟩, hgap, ⟨-, -, hv⟩, hparen, -⟩ := h
    have hgraphic : ¬ ((0x21 : UInt8) ≤ 0x0A ∧ (0x0A : UInt8) < 0x80) := by decide
    have hshown : (0x0A : UInt8) ∉ shown value paren := by
      cases paren with
      | none => exact hv
      | some p => simp [shown, hv, hparen p rfl]
    have hi : (0x0A : UInt8) ∉ indent := not_mem_blanks hindent (by decide)
    have hk : (0x0A : UInt8) ∉ key := hkey.not_mem hgraphic
    have hg : (0x0A : UInt8) ∉ gap := not_mem_blanks hgap (by decide)
    simp [text, hi, hk, hg, hshown]
  | other text => exact h.1

/-- The lines of an output: some in front of the first stanza, and the stanzas. -/
def ibvOutput (front : List IbvLine) (stanzas : List Stanza) : List (List UInt8) :=
  (front ++ stanzas.flatMap fun st => st.head :: st.lines).map IbvLine.text

theorem parseIbvDevinfo_stanzas {front : List IbvLine} {stanzas : List Stanza}
    (hfront : ∀ line ∈ front, line.Valid ∧ line.Inner) (h : ∀ st ∈ stanzas, st.Valid) :
    parseIbvDevinfo ([0x0A].intercalate (ibvOutput front stanzas)) =
      stanzas.map Stanza.device := by
  have hnl : ∀ text ∈ ibvOutput front stanzas, 0x0A ∉ text := by
    refine List.forall_mem_map.mpr fun line hline => IbvLine.text_newline ?_
    rcases List.mem_append.mp hline with hf | hs
    · exact (hfront line hf).1
    · obtain ⟨st, hst, hmem⟩ := List.mem_flatMap.mp hs
      rcases List.mem_cons.mp hmem with rfl | hin
      · exact (h st hst).1
      · exact ((h st hst).2 line hin).1
  have hempty : ∀ s : IbvScan, s.line [] = s := fun _ => rfl
  rw [parseIbvDevinfo, foldl_lines hempty hnl, ibvOutput, List.map_append, List.foldl_append,
    IbvScan.lines_text hfront, Stanza.scan_all h]
  rfl

/-! ## The report -/

/-- **Active ports.** Of a host on which `ibv_devinfo` answers the report has the devices in order,
each with the last transport, port state and link layer of its stanza. So it calls the host active
exactly if a link of the `rdma` tool is active, or the last port of a device. -/
theorem rdmaProbe_active {host : RdmaHost} {front : List IbvLine} {stanzas : List Stanza}
    (hfront : ∀ line ∈ front, line.Valid ∧ line.Inner) (h : ∀ st ∈ stanzas, st.Valid)
    {out : List UInt8} (htool : host.ibvDevinfo = some (.ok out))
    (hout : trimSpace out = [0x0A].intercalate (ibvOutput front stanzas)) :
    (rdmaProbe host).devices = stanzas.map Stanza.device ∧
      ((rdmaProbe host).hasActiveRdma = true ↔
        (∃ l ∈ (rdmaProbe host).links, equalFold l.state (ascii "ACTIVE") = true) ∨
        ∃ st ∈ stanzas, equalFold (trimPrefix (st.last (ascii "state")) (ascii "PORT_"))
          (ascii "ACTIVE") = true) := by
  have hdevices : (rdmaProbe host).devices = stanzas.map Stanza.device := by
    rw [← parseIbvDevinfo_stanzas hfront h, ← hout, rdmaProbe, htool]
    rfl
  refine ⟨hdevices, ?_⟩
  rw [RdmaReport.hasActiveRdma, hdevices, Bool.or_eq_true, List.any_eq_true, List.any_eq_true]
  simp [Stanza.device]

/-- A line `key:` with a name and its number. -/
def numbered (indent key value n : List UInt8) : IbvLine :=
  .field indent key (ascii "\t") value (some n)

theorem numbered_valid {indent key value n : List UInt8} (hindent : indent.all isBlank = true)
    (hkey : Graphic key ∧ key ≠ [] ∧ 0x3A ∉ key)
    (hvalue : Graphic value ∧ value ≠ [] ∧ 0x28 ∉ value ∧ 0x0A ∉ value) (hn : 0x0A ∉ n)
    (hhca : key ≠ ascii "hca_id") :
    (numbered indent key value n).Valid ∧ (numbered indent key value n).Inner := by
  have hgap : ∀ b ∈ ascii "\t", isBlank b = true := List.all_eq_true.1 (by decide)
  obtain ⟨hgraphic, hne, hparen, hnl⟩ := hvalue
  refine ⟨⟨List.all_eq_true.1 hindent, hkey, hgap, ⟨hgraphic.clean hne, hne, hnl⟩, ?_,
    fun _ => hparen⟩, ?_⟩
  · rintro p ⟨⟩
    exact hn
  · rintro kv ⟨⟩
    exact hhca

theorem IbvLine.other_valid {text key value : List UInt8} (hnl : 0x0A ∉ text)
    (hcut : cut 0x3A text = some (key, value)) (hkey : trimSpace key ∉ ibvKeys) :
    (IbvLine.other text).Valid ∧ (IbvLine.other text).Inner := by
  refine ⟨⟨hnl, ?_⟩, by rintro kv ⟨⟩⟩
  rw [hcut]
  rintro kv ⟨⟩
  exact hkey

/-- A host with a device of two ports, of which the first is active, and a warning in front. -/
def twoPorts : RdmaHost where
  infiniband := .ok [ascii "mlx5_0"]
  rdma := none
  linkJson := fun _ => .ok []
  ibvDevinfo := some (.ok (ascii "Warning: no driver\nhca_id:\tmlx5_0\n" ++
    ascii "\ttransport:\tInfiniBand (0)\n\tboard_id: I40IW Board ID\n" ++
    ascii "\t\tstate:\tPORT_ACTIVE (4)\n\t\tstate:\tPORT_DOWN (1)\n"))

/-- Its device. -/
def twoPortsDevice : Stanza where
  hca := ascii "mlx5_0"
  lines :=
    [numbered (ascii "\t") (ascii "transport") (ascii "InfiniBand") (ascii "0"),
      .other (ascii "\tboard_id: I40IW Board ID"),
      numbered (ascii "\t\t") (ascii "state") (ascii "PORT_ACTIVE") (ascii "4"),
      numbered (ascii "\t\t") (ascii "state") (ascii "PORT_DOWN") (ascii "1")]

set_option maxRecDepth 1024 in
theorem rdmaProbe_twoPorts :
    (rdmaProbe twoPorts).devices =
        [⟨ascii "mlx5_0", ascii "InfiniBand", ascii "PORT_DOWN", []⟩] ∧
      (rdmaProbe twoPorts).hasActiveRdma = false := by
  have hfront : ∀ l ∈ [IbvLine.other (ascii "Warning: no driver")], l.Valid ∧ l.Inner :=
    List.forall_mem_singleton.2 (IbvLine.other_valid (by decide) rfl (by decide))
  have hhca : Graphic (ascii "mlx5_0") := by decide
  have hvalid : ∀ st ∈ [twoPortsDevice], st.Valid := by
    refine List.forall_mem_singleton.2 ⟨⟨by simp, by decide, List.all_eq_true.1 (by decide),
      ⟨hhca.clean (by decide), by decide⟩, by simp, by decide⟩, ?_⟩
    simp only [twoPortsDevice, List.forall_mem_cons]
    exact ⟨numbered_valid (by decide) (by decide) (by decide) (by decide) (by decide),
      IbvLine.other_valid (by decide) rfl (by decide),
      numbered_valid (by decide) (by decide) (by decide) (by decide) (by decide),
      numbered_valid (by decide) (by decide) (by decide) (by decide) (by decide), by simp⟩
  obtain ⟨hdevices, hactive⟩ :=
    @rdmaProbe_active twoPorts _ [twoPortsDevice] hfront hvalid _ rfl (by decide)
  have hlinks : (rdmaProbe twoPorts).links = [] := rfl
  refine ⟨hdevices.trans (by decide), ?_⟩
  rw [Bool.eq_false_iff, Ne, hactive, hlinks]
  rintro (⟨l, hl, -⟩ | ⟨st, hst, hstate⟩)
  · exact absurd hl List.not_mem_nil
  · obtain rfl := List.mem_singleton.mp hst
    exact absurd hstate (by decide)

end Rewsr.Probe
