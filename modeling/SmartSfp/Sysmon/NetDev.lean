import SmartSfp.Lib.Layout
import SmartSfp.Sysmon.Listing

/-!
# NetDev — the interfaces in `/proc/net/dev`

Behind two lines of header the kernel writes a line for each interface: its name, a colon and
sixteen counters, the first of which may follow the colon directly.
-/

namespace SmartSfp.Sysmon

open Lib Text

/-- An interface with its counters in the order of their columns. -/
structure Interface where
  name : Text
  columns : Fin 16 → UInt64
  solid : Solid name
  no_colon : 0x3a ∉ name

namespace Interface

/-- Columns 1 to 4 are of what is received, columns 9 to 12 of what is sent. -/
def raw (x : Interface) : RawNet where
  rxBytes := x.columns 0
  rxPackets := x.columns 1
  rxErrors := x.columns 2
  rxDropped := x.columns 3
  txBytes := x.columns 8
  txPackets := x.columns 9
  txErrors := x.columns 10
  txDropped := x.columns 11

def texts (x : Interface) : List Text := List.ofFn fun i => Text.itoa (x.columns i).toNat

/-- The plainest line, with padding before the name and before the first counter. -/
def line (x : Interface) (pad gap : Text) : Text :=
  pad ++ x.name ++ 0x3a :: (gap ++ (Text.itoa (x.columns 0).toNat ++
    (List.ofFn fun i : Fin 15 => Text.itoa (x.columns i.succ).toNat).flatMap (0x20 :: ·)))

end Interface

/-- The line of an interface, padded wherever a blank may stand. -/
inductive IsNetLine (x : Interface) : Text → Prop where
  | line {pad cols : Text} (hpad : Blank pad) (hcols : Laid x.texts cols) :
      IsNetLine x (pad ++ x.name ++ 0x3a :: cols)

/-- A line that has no colon, or fewer than 16 fields behind it. -/
inductive Foreign : Text → Prop where
  | colonless {line : Text} (h : 0x3a ∉ line) : Foreign line
  | few {head rest : Text} (hhead : 0x3a ∉ head) (hrest : (fields rest).length < 16) :
      Foreign (head ++ 0x3a :: rest)

/-- The lines of the interfaces in their order, with other lines anywhere between them. -/
inductive NetLines : List Interface → List Text → Prop where
  | nil : NetLines [] []
  | interface {x : Interface} {xs : List Interface} {line : Text} {lines : List Text}
      (hline : IsNetLine x line) (hrest : NetLines xs lines) : NetLines (x :: xs) (line :: lines)
  | foreign {xs : List Interface} {line : Text} {lines : List Text}
      (hline : Foreign line) (hrest : NetLines xs lines) : NetLines xs (line :: lines)

variable {x : Interface} {xs : List Interface} {line head rest : Text} {lines : List Text}

theorem solid_itoa (n : ℕ) : Solid (Text.itoa n) := by
  rw [itoa_natCast]
  apply solid_of_leads
  rw [List.any_eq_false]
  intro b hb
  obtain ⟨c, hc, rfl⟩ := List.mem_map.mp hb
  have hdigit : c.isDigit = true := Nat.isDigit_of_mem_toDigits (by omega) (by omega) hc
  have hrange := digitByte_range hdigit
  grind [leads]

theorem isNetLine_line {pad gap : Text} (hpad : Blank pad) (hgap : Blank gap) :
    IsNetLine x (x.line pad gap) := by
  have hsolid : ∀ w ∈ x.texts, Solid w ∧ w ≠ [] := by
    intro w hw
    obtain ⟨i, rfl⟩ := List.mem_ofFn.mp hw
    exact ⟨solid_itoa _, itoa_ne_nil _⟩
  have htexts : x.texts = Text.itoa (x.columns 0).toNat ::
      List.ofFn fun i : Fin 15 => Text.itoa (x.columns i.succ).toNat := List.ofFn_succ
  rw [htexts] at hsolid
  have hlaid := laid_spaced hsolid hgap .nil
  rw [List.append_nil, ← htexts] at hlaid
  exact .line hpad hlaid

/-! ## One line -/

theorem parseNetLine_colonless (h : 0x3a ∉ line) : parseNetLine line = none := by
  rw [parseNetLine, indexByte_none h]

theorem parseNetLine_few (hhead : 0x3a ∉ head) (hrest : (fields rest).length < 16) :
    parseNetLine (head ++ 0x3a :: rest) = none := by
  rw [parseNetLine, indexByte_append hhead]
  dsimp only
  rw [drop_separator]
  split
  · -- the pattern takes sixteen fields
    rename_i hfields
    rw [hfields] at hrest
    simp only [List.length_cons] at hrest
    omega
  · rfl

/-- The first colon ends the name, as the name has none. -/
theorem parseNetLine_interface {pad cols : Text} (hpad : Blank pad)
    (hcols : fields cols = x.texts) :
    parseNetLine (pad ++ x.name ++ 0x3a :: cols) = some (x.name, x.raw) := by
  have hcolon : 0x3a ∉ pad ++ x.name := by
    rw [List.mem_append, not_or]
    exact ⟨hpad.not_mem (by decide) (by decide), x.no_colon⟩
  rw [parseNetLine, indexByte_append hcolon]
  dsimp only
  rw [drop_separator, List.take_left, x.solid.trimSpace_eq hpad, hcols]
  -- now the pattern is matched against sixteen texts in their order
  simp only [Interface.texts, List.ofFn_succ, List.ofFn_zero]
  simp only [uint_itoa]
  rfl

theorem Foreign.parse (h : Foreign line) : parseNetLine (dropCR line) = none := by
  cases h with
  | colonless h =>
    apply parseNetLine_colonless
    rcases dropCR_cases line with hsame | hcut
    · rwa [hsame]
    · rw [hcut, List.mem_append, not_or] at h
      exact h.1
  | few hhead hrest =>
    rw [dropCR_append (by decide)]
    rw [← fields_dropCR] at hrest
    exact parseNetLine_few hhead hrest

theorem IsNetLine.parse (h : IsNetLine x line) :
    parseNetLine (dropCR line) = some (x.name, x.raw) := by
  cases h with
  | line hpad hcols =>
    rw [dropCR_append (by decide)]
    exact parseNetLine_interface hpad ((fields_dropCR _).trans hcols.fields_eq)

/-! ## All lines -/

/-- The lines put in the interfaces they are of, and leave what is there under other names. -/
theorem NetLines.foldl_addNetLine (h : NetLines xs lines)
    (hnodup : (xs.map Interface.name).Nodup) (out : Samples Text RawNet) :
    (∀ x ∈ xs, (lines.map dropCR).foldl addNetLine out x.name = some x.raw) ∧
    ∀ name, name ∉ xs.map Interface.name →
      (lines.map dropCR).foldl addNetLine out name = out name := by
  induction h generalizing out with
  | nil => exact ⟨fun x hx => (List.not_mem_nil hx).elim, fun name _ => rfl⟩
  | @foreign xs line lines hline _ ih =>
    have hadd : addNetLine out (dropCR line) = out := by rw [addNetLine, hline.parse]
    rw [List.map_cons, List.foldl_cons, hadd]
    exact ih hnodup out
  | @interface x xs line lines hline _ ih =>
    rw [List.map_cons, List.nodup_cons] at hnodup
    have hadd : addNetLine out (dropCR line) = Function.update out x.name (some x.raw) := by
      rw [addNetLine, hline.parse]
    rw [List.map_cons, List.foldl_cons, hadd]
    obtain ⟨hfound, hothers⟩ := ih hnodup.2 (Function.update out x.name (some x.raw))
    constructor
    · intro y hy
      -- no later line has the name of this one, so its entry stays
      rcases List.mem_cons.mp hy with rfl | hy
      · rw [hothers y.name hnodup.1, Function.update_self]
      · exact hfound y hy
    · intro name hname
      rw [List.map_cons, List.mem_cons, not_or] at hname
      rw [hothers name hname.2, Function.update_of_ne hname.1]

section Scanned

variable {f : Files} {first second : Text}

theorem parseProcNetDev_scanned {content : Text}
    (hfile : f.readFile (utf8 "/proc/net/dev") = .ok content)
    (hscan : scanLines content = (first :: second :: lines).map dropCR) (hlines : NetLines xs lines)
    (hnodup : (xs.map Interface.name).Nodup) :
    ∃ stats, parseProcNetDev f = .ok stats ∧ (∀ x ∈ xs, stats x.name = some x.raw) ∧
      ∀ name, name ∉ xs.map Interface.name → stats name = none := by
  have hparse : parseProcNetDev f =
      .ok ((lines.map dropCR).foldl addNetLine fun _ => none) := by
    rw [parseProcNetDev, hfile]
    dsimp only [bind, Except.bind]
    rw [hscan]
    rfl
  exact ⟨_, hparse, hlines.foldl_addNetLine hnodup fun _ => none⟩

/-- A line that does not fit ends the scan: it is lost, and every line after it. -/
theorem parseProcNetDev_cut {long : Text} {more : List Text}
    (hfile : f.readFile (utf8 "/proc/net/dev") =
      .ok (unlines ((first :: second :: lines) ++ long :: more)))
    (hfits : ∀ line ∈ first :: second :: lines, Fits line) (hnewline : 0x0a ∉ long)
    (hlong : maxScanTokenSize ≤ long.length) (hlines : NetLines xs lines)
    (hnodup : (xs.map Interface.name).Nodup) :
    ∃ stats, parseProcNetDev f = .ok stats ∧ (∀ x ∈ xs, stats x.name = some x.raw) ∧
      ∀ name, name ∉ xs.map Interface.name → stats name = none := by
  have hscan : scanLines (unlines ((first :: second :: lines) ++ long :: more)) =
      (first :: second :: lines).map dropCR := by
    rw [unlines_append, unlines_cons long, scanLines_unlines_append hfits,
      scanLines_long hnewline hlong, List.append_nil]
  exact parseProcNetDev_scanned hfile hscan hlines hnodup

/-- What the kernel writes is read back, as long as every line fits the buffer of the scanner. -/
theorem parseProcNetDev_inverts
    (hfile : f.readFile (utf8 "/proc/net/dev") = .ok (unlines (first :: second :: lines)))
    (hfits : ∀ line ∈ first :: second :: lines, Fits line) (hlines : NetLines xs lines)
    (hnodup : (xs.map Interface.name).Nodup) :
    ∃ stats, parseProcNetDev f = .ok stats ∧ (∀ x ∈ xs, stats x.name = some x.raw) ∧
      ∀ name, name ∉ xs.map Interface.name → stats name = none :=
  parseProcNetDev_scanned hfile (scanLines_unlines hfits) hlines hnodup

end Scanned

namespace Kat

/-- An interface that nothing has gone through. -/
def idle : Interface := ⟨utf8 "br0", fun _ => 0, solid_of_leads (by decide), by decide⟩

/-- One with a different number in each column. -/
def busy : Interface :=
  ⟨utf8 "gbe1", fun i => UInt64.ofNat (100 + i), solid_of_leads (by decide), by decide⟩

/-- Files whose `/proc/net/dev` has these lines behind its header. -/
def netDev (lines : List Text) : Files :=
  { Files.ofContents [] with
    readFile := fun _ => .ok (unlines (utf8 "Inter-|" :: utf8 " face |" :: lines)) }

def twoLines : List Text :=
  [idle.line (utf8 "  ") [], utf8 "bond0: 1 2 3", busy.line [] (utf8 "\t ")]

/-- A line whose padding fills the buffer of the scanner. -/
def paddedLine : Text := idle.line (List.replicate maxScanTokenSize 0x20) []

end Kat

theorem parseProcNetDev_inverts_two :
    ∃ stats, parseProcNetDev (Kat.netDev Kat.twoLines) = .ok stats ∧
      (∀ x ∈ [Kat.idle, Kat.busy], stats x.name = some x.raw) ∧
      ∀ name, name ∉ [Kat.idle, Kat.busy].map Interface.name → stats name = none := by
  have hblank : Blank (utf8 "  ") := .cons (.ascii rfl) (.cons (.ascii rfl) .nil)
  have htab : Blank (utf8 "\t ") := .cons (.ascii rfl) (.cons (.ascii rfl) .nil)
  have hforeign : Foreign (utf8 "bond0" ++ 0x3a :: utf8 " 1 2 3") :=
    .few (by decide) (by decide)
  have hlines : NetLines [Kat.idle, Kat.busy] Kat.twoLines :=
    .interface (isNetLine_line hblank .nil)
      (.foreign hforeign (.interface (isNetLine_line .nil htab) .nil))
  have hfits : ∀ line ∈ utf8 "Inter-|" :: utf8 " face |" :: Kat.twoLines, Fits line := by
    decide +kernel
  exact parseProcNetDev_inverts rfl hfits hlines (by decide)

/-- The scan ends at a line that does not fit, and the interface of the line is lost. -/
theorem padded_interface_lost :
    IsNetLine Kat.idle Kat.paddedLine ∧ 0x0a ∉ Kat.paddedLine ∧
      ∃ stats, parseProcNetDev (Kat.netDev [Kat.paddedLine]) = .ok stats ∧
        stats Kat.idle.name = none := by
  have hblank (n : ℕ) : Blank (List.replicate n 0x20) := by
    induction n with
    | zero => exact .nil
    | succ n ih => exact .cons (.ascii rfl) ih
  have hnewline : 0x0a ∉ Kat.paddedLine := by
    rw [Kat.paddedLine, Interface.line, List.append_assoc, List.mem_append, List.mem_replicate,
      not_or]
    exact ⟨fun h => absurd h.2 (by decide), by decide +kernel⟩
  have hlong : maxScanTokenSize ≤ Kat.paddedLine.length := by
    rw [Kat.paddedLine, Interface.line, List.append_assoc, List.length_append,
      List.length_replicate]
    exact Nat.le_add_right _ _
  have hfits : ∀ line ∈ [utf8 "Inter-|", utf8 " face |"], Fits line := by decide
  obtain ⟨stats, hparse, -, hnone⟩ :=
    parseProcNetDev_cut (f := Kat.netDev [Kat.paddedLine]) rfl hfits hnewline hlong .nil .nil
  exact ⟨isNetLine_line (hblank _) .nil, hnewline, stats, hparse, hnone _ List.not_mem_nil⟩

end SmartSfp.Sysmon
