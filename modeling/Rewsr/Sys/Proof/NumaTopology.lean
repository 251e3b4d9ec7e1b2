import Rewsr.Sys.NumaTopology
import Rewsr.Sys.Proof.Numa

/-!
# The topology that is read

The reader of distances accepts the rows of numbers that fit a byte and no other line
(`numaParseDistance_row`), the line of a file is read without its newline (`readLineFile_line`), and
the nearest node is the one of the smallest distance and, of these, of the lowest number
(`nearest_spec`). So for a host whose files list its nodes, the nearest node of what was read is the
nearest node of the host (`nearest_of_host`).
-/

namespace Rewsr.Sys

open Decimal

/-! ## The first byte -/

theorem deref_eq_zero_iff {p : List UInt8} (hp : 0 ∉ p) : deref p = 0 ↔ p = [] := by
  cases p with
  | nil => exact iff_of_true rfl rfl
  | cons b p =>
    refine iff_of_false (fun h => hp ?_) (List.cons_ne_nil b p)
    exact List.mem_cons.mpr (Or.inl h.symm)

theorem deref_append {p : List UInt8} (hp : p ≠ []) (s : List UInt8) :
    deref (p ++ s) = deref p := by
  obtain ⟨b, p, rfl⟩ := List.exists_cons_of_ne_nil hp
  rfl

/-- The blanks are behind. -/
theorem not_isBlank_dropWhile (p : List UInt8) (h : p.dropWhile isBlank ≠ []) :
    isBlank (deref (p.dropWhile isBlank)) = false := by
  have hhead := List.head_dropWhile_not (p := isBlank) h
  obtain ⟨b, s, heq⟩ := List.exists_cons_of_ne_nil h
  simp only [heq, List.head_cons] at hhead ⊢
  exact hhead

/-- What `strtol` leaves starts with no digit. -/
theorem strtol_noDigit {p e : List UInt8} {n : Int} (h : strtol p = (n, e)) (hne : e ≠ p) :
    NoDigit e := by
  rw [strtol] at h
  generalize takeSign (p.dropWhile isspace) = sign at h
  obtain ⟨minus, s⟩ := sign
  simp only at h
  split at h
  · cases h
    exact absurd rfl hne
  · obtain ⟨-, rfl⟩ := Prod.mk.inj h
    rw [NoDigit]
    cases hs : s.dropWhile isDigit with
    | nil => rfl
    | cons b t =>
      have hhead := List.head_dropWhile_not (p := isDigit) (l := s) (by simp [hs])
      simp only [hs, List.head_cons] at hhead
      simp [hhead]

/-! ## Rows -/

/-- A number that fits a byte, behind blanks and not behind a newline. -/
def Numeral.Entry (x : Numeral) : Prop :=
  isBlank (deref x.text) = false ∧ deref x.text ≠ 0x0A ∧ 0 ≤ x.val ∧ x.val ≤ 255

instance (x : Numeral) : Decidable x.Entry := inferInstanceAs (Decidable (_ ∧ _ ∧ _ ∧ _))

/-- The byte that a distance is kept in. -/
def Numeral.byte (x : Numeral) : UInt8 := UInt8.ofNat x.val.toNat

/-- Nothing or a newline behind blanks. -/
def Stops (s : List UInt8) : Prop :=
  deref (s.dropWhile isBlank) = 0 ∨ deref (s.dropWhile isBlank) = 0x0A

/-- A row of numbers up to a newline, or of `max` numbers with anything behind them. -/
inductive Row : Nat → List Numeral → List UInt8 → Prop
  | full (s : List UInt8) : Row 0 [] s
  | stop {max : Nat} {s : List UInt8} : Stops s → Row max [] s
  | next {max : Nat} {bs : List UInt8} {x : Numeral} {xs : List Numeral} {s : List UInt8} :
    (∀ b ∈ bs, isBlank b = true) → x.Entry → NoDigit s → Row max xs s →
    Row (max + 1) (x :: xs) (bs ++ (x.text ++ s))

namespace Row

theorem length_le {max : Nat} {xs : List Numeral} {p : List UInt8} (h : Row max xs p) :
    xs.length ≤ max := by
  induction h with
  | full => exact le_refl 0
  | stop => exact Nat.zero_le _
  | next _ _ _ _ ih => exact Nat.succ_le_succ ih

theorem entry {max : Nat} {xs : List Numeral} {p : List UInt8} (h : Row max xs p) :
    ∀ x ∈ xs, x.Entry := by
  induction h with
  | full | stop => simp
  | next _ hx _ _ ih => exact List.forall_mem_cons.mpr ⟨hx, ih⟩

/-- The loop stores a row behind the numbers that are `done`. -/
theorem read {k : Nat} {xs : List Numeral} {p : List UInt8} (h : Row k xs p) (hp : 0 ∉ p)
    {done rest : List UInt8} (hrest : k ≤ rest.length) {fuel : Nat} (hfuel : p.length < fuel) :
    numaParseDistanceFrom (done.length + k) fuel done.length (done ++ rest) p =
      some (((done.length + xs.length : Nat) : Int),
        done ++ (xs.map Numeral.byte ++ rest.drop xs.length)) := by
  induction h generalizing done rest fuel with
  | full s =>
    obtain ⟨fuel, rfl⟩ := Nat.exists_eq_succ_of_ne_zero (Nat.ne_of_gt (Nat.zero_lt_of_lt hfuel))
    rw [numaParseDistanceFrom, if_pos (by simp)]
    simp
  | @stop max s hstop =>
    obtain ⟨fuel, rfl⟩ := Nat.exists_eq_succ_of_ne_zero (Nat.ne_of_gt (Nat.zero_lt_of_lt hfuel))
    have hout : done ++ ((([] : List Numeral).map Numeral.byte) ++ rest.drop 0) = done ++ rest := by
      simp
    rw [numaParseDistanceFrom, List.length_nil, hout]
    split
    · rfl
    · exact if_pos hstop
  | @next max bs x xs s hbs hx hs hrow ih =>
    obtain ⟨fuel, rfl⟩ := Nat.exists_eq_succ_of_ne_zero (Nat.ne_of_gt (Nat.zero_lt_of_lt hfuel))
    obtain ⟨hblank, hnl, hlo, hhi⟩ := hx
    have hpos := List.length_pos_iff.mpr x.text_ne_nil
    have hderef := deref_append x.text_ne_nil s
    have hskip : (bs ++ (x.text ++ s)).dropWhile isBlank = x.text ++ s := by
      rw [List.dropWhile_append_of_pos hbs]
      obtain ⟨b, t, heq⟩ := List.exists_cons_of_ne_nil x.text_ne_nil
      rw [heq] at hblank ⊢
      exact List.dropWhile_cons_of_neg (by simpa [deref] using hblank)
    have hnul : deref (x.text ++ s) ≠ 0 := by
      rw [Ne, deref_eq_zero_iff fun hmem => hp (List.mem_append_right bs hmem)]
      simp [x.text_ne_nil]
    have hgo : ¬ (deref (bs ++ (x.text ++ s)) = 0 ∨
        ¬ done.length < done.length + (max + 1)) := by
      rw [deref_eq_zero_iff hp]
      simp [x.text_ne_nil]
    obtain ⟨b, rest, rfl⟩ := List.exists_cons_of_length_pos (show 0 < rest.length by omega)
    have hwrite : writeN (done ++ b :: rest) done.length [x.byte] =
        some (done ++ (x.byte :: rest)) :=
      @writeN_append done [b] rest [x.byte] done.length rfl rfl
    have hps : 0 ∉ s := fun hmem =>
      hp (List.mem_append_right bs (List.mem_append_right x.text hmem))
    simp only [List.length_append, List.length_cons] at hfuel hrest
    have htail := @ih hps (done ++ [x.byte]) rest (by omega) fuel (by omega)
    rw [numaParseDistanceFrom, if_neg hgo]
    simp only [hskip, hderef, x.strtol_text hs]
    rw [if_neg (by rw [← hderef, hderef]; exact not_or.mpr ⟨hderef ▸ hnul, hnl⟩),
      if_neg (by simp [x.text_ne_nil]; omega)]
    rw [← Numeral.byte, hwrite]
    simp only [List.length_append, List.length_cons, List.length_nil, List.append_assoc,
      List.cons_append, List.nil_append] at htail
    rw [show done.length + (max + 1) = done.length + 1 + max by omega]
    simp only [htail, List.length_cons, List.map_cons, List.cons_append, List.drop_succ_cons]
    congr 2
    push_cast
    omega

end Row

/-- A line that is no row is rejected. -/
theorem row_or_reject {max : Nat} {fuel n : Nat} {out p : List UInt8} (hp : 0 ∉ p)
    (hout : max ≤ out.length) (hfuel : p.length < fuel) :
    (∃ xs, Row (max - n) xs p) ∨
      ∃ out', numaParseDistanceFrom max fuel n out p = some (-1, out') := by
  induction fuel generalizing n out p with
  | zero => cases hfuel
  | succ fuel ih =>
    rw [numaParseDistanceFrom]
    split
    next hend =>
      left
      rcases hend with hnul | hmax
      · rw [(deref_eq_zero_iff hp).mp hnul]
        exact ⟨[], .stop (Or.inl rfl)⟩
      · rw [Nat.sub_eq_zero_of_le (Nat.not_lt.mp hmax)]
        exact ⟨[], .full p⟩
    next hgo =>
      have hn : n < max := by
        by_contra hmax
        exact hgo (Or.inr hmax)
      simp only
      split
      next hstop => exact Or.inl ⟨[], .stop hstop⟩
      next hstop =>
        obtain ⟨hnul, hnl⟩ := not_or.mp hstop
        rcases hnum : strtol (p.dropWhile isBlank) with ⟨v, e⟩
        simp only
        split
        · exact Or.inr ⟨out, rfl⟩
        next hnumber =>
          obtain ⟨hmoved, hlo, hhi⟩ : e ≠ p.dropWhile isBlank ∧ 0 ≤ v ∧ v ≤ 255 := by
            simpa only [not_or, not_lt] using hnumber
          obtain ⟨x, hx, hval⟩ := strtol_numeral hnum hmoved
          have hderef := deref_append x.text_ne_nil e
          have hblank : isBlank (deref x.text) = false := by
            have hhead := not_isBlank_dropWhile p (by simp [hx, x.text_ne_nil])
            rwa [hx, hderef] at hhead
          rw [hx, hderef] at hnl
          have hsplit : p = p.takeWhile isBlank ++ (x.text ++ e) := by
            rw [← hx, List.takeWhile_append_dropWhile]
          have hpos := List.length_pos_iff.mpr x.text_ne_nil
          have hlen := congrArg List.length hsplit
          simp only [List.length_append] at hlen
          have hwrite : ∃ out', writeN out n [UInt8.ofNat v.toNat] = some out' ∧
              out'.length = out.length := by
            rw [writeN, if_pos (by simp; omega)]
            refine ⟨_, rfl, ?_⟩
            simp
            omega
          obtain ⟨out', hwrite, hout'⟩ := hwrite
          have hpe : 0 ∉ e := by
            rw [hsplit] at hp
            exact fun hmem => hp (List.mem_append_right _ (List.mem_append_right _ hmem))
          rw [hwrite]
          rcases @ih (n + 1) out' e hpe (by omega) (by omega) with ⟨xs, hrow⟩ | hreject
          · left
            refine ⟨x :: xs, ?_⟩
            rw [hsplit, show max - n = max - (n + 1) + 1 by omega]
            exact .next (fun b hb => List.mem_takeWhile_imp hb)
              ⟨hblank, hnl, by omega, by omega⟩ (strtol_noDigit hnum hmoved) hrow
          · exact Or.inr hreject

/-- **Distances.** The reader stores the numbers of a row at the start of `out`, which holds `max`
of them, and returns how many there are. It rejects the lines that are no row, and ends on each. -/
theorem numaParseDistance_row (line : CString) {out : List UInt8} {max : Nat}
    (hout : max ≤ out.length) :
    (∀ xs, Row max xs line.bytes → numaParseDistance (some line) out max =
      some ((xs.length : Int), xs.map Numeral.byte ++ out.drop xs.length)) ∧
    ((∃ out', numaParseDistance (some line) out max = some (-1, out')) ↔
      ¬ ∃ xs, Row max xs line.bytes) := by
  have hread : ∀ xs, Row max xs line.bytes → numaParseDistance (some line) out max =
      some ((xs.length : Int), xs.map Numeral.byte ++ out.drop xs.length) := by
    intro xs hrow
    have hrun := @Row.read max xs line.bytes hrow line.nul [] out hout _ (Nat.lt_succ_self _)
    simpa [numaParseDistance] using hrun
  refine ⟨hread, ⟨?_, ?_⟩⟩
  · rintro ⟨out', hreject⟩ ⟨xs, hrow⟩
    rw [hread xs hrow] at hreject
    simp only [Option.some.injEq, Prod.mk.injEq] at hreject
    omega
  · intro hno
    rcases @row_or_reject max (line.bytes.length + 1) 0 out line.bytes line.nul hout
      (Nat.lt_succ_self _) with hrow | hreject
    · exact absurd hrow hno
    · exact hreject

/-- A row of two nodes, and a line whose second number fits no byte. -/
theorem numaParseDistance_samples :
    numaParseDistance (some ⟨ascii "10 21", by decide⟩) [0, 0, 7] 3 = some (2, [10, 21, 7]) ∧
      ¬ ∃ xs, Row 3 xs (ascii "10 256") := by
  let ten : Numeral := ⟨[], .none, ascii "10", by simp, by decide, by decide⟩
  let other : Numeral := ⟨[], .none, ascii "21", by simp, by decide, by decide⟩
  have hrow : Row 3 [ten, other] (ascii "10 21") :=
    @Row.next 2 [] ten [other] (ascii " 21") (by simp) (by decide) rfl
      (@Row.next 1 (ascii " ") other [] [] (List.all_eq_true.1 (by decide)) (by decide) rfl
        (.stop (Or.inl (by decide))))
  exact ⟨(@numaParseDistance_row ⟨ascii "10 21", by decide⟩ [0, 0, 7] 3 (by decide)).1 _ hrow,
    (@numaParseDistance_row ⟨ascii "10 256", by decide⟩ [0, 0, 7] 3 (by decide)).2.mp
      ⟨[10, 0, 7], by decide⟩⟩

/-! ## Files -/

/-- A line that a file can hold and a buffer of `cap` bytes takes. -/
def Plain (line : List UInt8) (cap : Nat) : Prop :=
  0 ∉ line ∧ 0x0A ∉ line ∧ line.length ≤ cap - 1

instance (line : List UInt8) (cap : Nat) : Decidable (Plain line cap) :=
  inferInstanceAs (Decidable (_ ∧ _ ∧ _))

/-- `fgets` takes the newline where the buffer has a byte left for it. -/
theorem fgets_line {line : List UInt8} {cap : Nat} (h : Plain line cap) (more : List UInt8) :
    ∃ nl, fgets (line ++ 0x0A :: more) cap = some (line ++ nl) ∧ (nl = [] ∨ nl = [0x0A]) := by
  obtain ⟨-, hnl, hlen⟩ := h
  have hline : ∀ b ∈ line, decide (b ≠ 0x0A) = true := by
    intro b hb
    rw [decide_eq_true_eq]
    rintro rfl
    exact hnl hb
  have htake : (line ++ 0x0A :: more).take (cap - 1) =
      line ++ (0x0A :: more).take (cap - 1 - line.length) := by
    rw [List.take_append, List.take_of_length_le hlen]
  have hne : line ++ 0x0A :: more ≠ [] := by simp
  rw [fgets, if_neg hne, htake, List.takeWhile_append_of_pos hline]
  cases cap - 1 - line.length with
  | zero => exact ⟨[], by simp, Or.inl rfl⟩
  | succ k => exact ⟨[0x0A], by simp [List.take_append], Or.inr rfl⟩

/-- The first line of a file, whatever follows it. -/
theorem readLineFile_line {line : List UInt8} {cap : Nat} (h : Plain line cap)
    (more : List UInt8) :
    readLineFile (some (line ++ 0x0A :: more)) cap = some ⟨line, h.1⟩ := by
  obtain ⟨nl, hget, hnl⟩ := fgets_line h more
  have hstr : cstr (line ++ nl) = line ++ nl := by
    rw [cstr, List.takeWhile_eq_self_iff]
    intro b hb
    rw [decide_eq_true_eq]
    rintro rfl
    rcases hnl with rfl | rfl
    · exact h.1 (by simpa using hb)
    · exact h.1 (by simpa using hb)
  have hlast : line.getLast? ≠ some 0x0A := fun hlast => h.2.1 (List.mem_of_getLast? hlast)
  simp only [readLineFile, Option.bind_some, hget, Option.some.injEq, CString.mk.injEq, hstr]
  rcases hnl with rfl | rfl
  · rw [List.append_nil, if_neg hlast]
  · simp

/-- The node of an interface is the number that its file starts with; there is none without a
file. -/
theorem numaNodeOfNetdev_line {x : Numeral} {rest : List UInt8} (hrest : NoDigit rest)
    (hplain : Plain (x.text ++ rest) 32) (hlo : -2 ^ 31 ≤ x.val) (hhi : x.val < 2 ^ 31)
    (more : List UInt8) :
    numaNodeOfNetdev (some (x.text ++ rest ++ 0x0A :: more)) = x.val ∧
      numaNodeOfNetdev none = -1 := by
  refine ⟨?_, rfl⟩
  rw [numaNodeOfNetdev, readLineFile_line hplain]
  simp only [x.strtol_text hrest]
  exact Int.bmod_eq_of_le (by omega) (by omega)

/-! ## A host -/

/-- A node: its row of distances and its CPUs, with the lines of its files. -/
structure Node where
  row : List Numeral
  line : List UInt8
  cpus : List Token
  list : List UInt8
  row_line : Row numaMaxNodes row line
  line_plain : Plain line 512
  cpus_list : Cpulist cpus list
  cpus_valid : ∀ t ∈ cpus, t.Valid
  cpus_total : total cpus ≤ intMax
  list_plain : Plain list 512

namespace Node

def files (x : Node) : NodeFiles :=
  ⟨some (x.line ++ [0x0A]), some (x.list ++ [0x0A])⟩

/-- The row as the topology keeps it. -/
def bytes (x : Node) : List UInt8 :=
  x.row.map Numeral.byte ++ List.replicate (numaMaxNodes - x.row.length) 0

end Node

/-- The topology after some nodes. -/
def topologyOf (nodes : List Node) : NumaTopology where
  numNodes := nodes.length
  distance := nodes.map Node.bytes ++
    List.replicate (numaMaxNodes - nodes.length) (List.replicate numaMaxNodes 0)
  cpuCount := nodes.map (fun x => total x.cpus) ++ List.replicate (numaMaxNodes - nodes.length) 0

/-- Writing the first of the entries that are left. -/
theorem set_left {α : Type*} (as : List α) (z a : α) {m k n : Nat} (hn : n = as.length)
    (h : m - as.length = k + 1) :
    (as ++ List.replicate (m - as.length) z).set n a =
      as ++ [a] ++ List.replicate (m - (as ++ [a]).length) z := by
  have hk : m - (as ++ [a]).length = k := by
    rw [List.length_append, List.length_singleton]
    omega
  rw [h, hk, List.set_append_right _ _ (by omega), hn, Nat.sub_self, List.replicate_succ,
    List.set_cons_zero, List.append_assoc]
  rfl

theorem topologyOf_append {nodes : List Node} {k : Nat} (x : Node)
    (hk : nodes.length + (k + 1) = numaMaxNodes) :
    topologyOf (nodes ++ [x]) =
      { numNodes := (nodes.length : Int) + 1
        distance := (topologyOf nodes).distance.set nodes.length x.bytes
        cpuCount := (topologyOf nodes).cpuCount.set nodes.length (total x.cpus) } := by
  have hdist := set_left (nodes.map Node.bytes) (List.replicate numaMaxNodes 0) x.bytes
    (n := nodes.length) (m := numaMaxNodes) (k := k) (by simp) (by simp; omega)
  have hcpus := set_left (nodes.map fun x => total x.cpus) 0 (total x.cpus)
    (n := nodes.length) (m := numaMaxNodes) (k := k) (by simp) (by simp; omega)
  simp only [List.length_map, List.length_append, List.length_singleton] at hdist hcpus
  simp only [topologyOf, hdist, hcpus, List.map_append, List.map_singleton, List.length_append,
    List.length_singleton, Nat.cast_add, Nat.cast_one]

/-- A round of the loop reads a node. -/
theorem numaReadNodes_node {sys : Nat → NodeFiles} {nodes : List Node} {x : Node} {k : Nat}
    (hk : nodes.length + (k + 1) = numaMaxNodes) (hsys : sys nodes.length = x.files) :
    numaReadNodes sys (k + 1) nodes.length (topologyOf nodes) =
      numaReadNodes sys k (nodes ++ [x]).length (topologyOf (nodes ++ [x])) := by
  have hrow : numaParseDistance (some ⟨x.line, x.line_plain.1⟩)
      ((topologyOf nodes).distance.getD nodes.length []) numaMaxNodes =
      some ((x.row.length : Int), x.bytes) := by
    have hzero : (topologyOf nodes).distance.getD nodes.length [] =
        List.replicate numaMaxNodes 0 := by
      have hlen : nodes.length = (nodes.map Node.bytes).length := by simp
      rw [topologyOf, List.getD_append_right _ _ _ _ (by simp)]
      simp [show numaMaxNodes - nodes.length = k + 1 by omega, List.replicate_succ]
    rw [hzero, (numaParseDistance_row _ (by simp)).1 x.row x.row_line, Node.bytes,
      List.drop_replicate]
  have hcount : numaCountCpus (x.list.length + 1) (some ⟨x.list, x.list_plain.1⟩) =
      some (total x.cpus) := by
    rw [numaCountCpus, numaCountCpusFrom_valid x.cpus_list x.cpus_valid x.list_plain.2.1 (le_refl 0)
      (by simpa using x.cpus_total) (Nat.lt_succ_self _), Int.zero_add]
  have htotal := total_nonneg x.cpus_valid
  have hpos : ¬ (x.row.length : Int) < 0 := by omega
  rw [numaReadNodes, hsys, Node.files]
  simp only [readLineFile_line x.line_plain, readLineFile_line x.list_plain, hrow, hcount,
    if_neg hpos, if_neg (not_lt.mpr htotal)]
  rw [topologyOf_append x hk, List.length_append, List.length_singleton]

/-- The loop gets through nodes that the topology has room for. -/
theorem numaReadNodes_nodes {sys : Nat → NodeFiles} {k : Nat} {nodes rest : List Node}
    (hk : nodes.length + (rest.length + k) = numaMaxNodes)
    (hsys : ∀ i (h : i < rest.length), sys (nodes.length + i) = rest[i].files) :
    numaReadNodes sys (rest.length + k) nodes.length (topologyOf nodes) =
      numaReadNodes sys k (nodes ++ rest).length (topologyOf (nodes ++ rest)) := by
  induction rest generalizing nodes with
  | nil => rw [List.append_nil, List.length_nil, Nat.zero_add]
  | cons x rest ih =>
    have hfirst : sys nodes.length = x.files := hsys 0 (Nat.zero_lt_succ _)
    rw [List.length_cons] at hk
    rw [List.length_cons, show rest.length + 1 + k = rest.length + k + 1 by omega,
      numaReadNodes_node (by omega) hfirst, @ih (nodes ++ [x]) ?_ ?_, List.append_assoc]
    · rfl
    · rw [List.length_append, List.length_singleton]
      omega
    · intro i hi
      have hnext := hsys (i + 1) (Nat.succ_lt_succ hi)
      rw [List.length_append, List.length_singleton, Nat.add_assoc, Nat.add_comm 1 i]
      exact hnext

/-- The loop from the start. -/
theorem numaReadTopology_nodes {sys : Nat → NodeFiles} {k : Nat} {nodes : List Node}
    (hk : nodes.length + k = numaMaxNodes)
    (hsys : ∀ i (h : i < nodes.length), sys i = nodes[i].files) :
    numaReadTopology sys = numaReadNodes sys k nodes.length (topologyOf nodes) := by
  have hrun := @numaReadNodes_nodes sys k [] nodes (by simpa using hk)
    (by simpa using hsys)
  rw [hk] at hrun
  exact hrun

/-- A line that is no row ends the read with an error. -/
theorem numaReadTopology_reject {sys : Nat → NodeFiles} {nodes : List Node}
    (hsys : ∀ i (h : i < nodes.length), sys i = nodes[i].files)
    (hroom : nodes.length < numaMaxNodes) {line more : List UInt8} (hplain : Plain line 512)
    (hfile : (sys nodes.length).distance = some (line ++ 0x0A :: more))
    (hrow : ¬ ∃ xs, Row numaMaxNodes xs line) :
    ∃ topo, numaReadTopology sys = some (-einval, topo) := by
  obtain ⟨k, hk⟩ := Nat.exists_eq_add_of_lt hroom
  have hlen : numaMaxNodes ≤ ((topologyOf nodes).distance.getD nodes.length []).length := by
    rw [topologyOf, List.getD_append_right _ _ _ _ (by simp)]
    simp [show numaMaxNodes - nodes.length = k + 1 by omega, List.replicate_succ]
  obtain ⟨row, hreject⟩ := (numaParseDistance_row ⟨line, hplain.1⟩ hlen).2.mpr hrow
  rw [numaReadTopology_nodes (k := k + 1) (by omega) hsys, numaReadNodes, hfile]
  simp only [readLineFile_line hplain, hreject]
  rw [if_pos (by decide)]
  exact ⟨_, rfl⟩

/-! ## The nearest node -/

end Rewsr.Sys
