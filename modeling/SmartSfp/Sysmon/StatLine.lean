import SmartSfp.Lib.Layout
import SmartSfp.Sysmon.Listing

/-!
# StatLine — the line of `/proc/[pid]/stat`

The name of a process stands there between parentheses, byte for byte as the process chose it.  No
field behind it has a parenthesis, so the last one of the line ends the name.
-/

namespace SmartSfp.Sysmon

open Lib Text

/-- A line `pid (comm) f3 f4 ... fn`; `fs` are the fields from `f3` on. -/
inductive IsStatLine (pid : Int) (comm : Text) (fs : List Text) : Text → Prop where
  | line {rest : Text} (hrest : Laid fs rest) (hparen : ∀ w ∈ fs, 0x29 ∉ w) :
      IsStatLine pid comm fs (Text.itoa pid ++ utf8 " (" ++ comm ++ utf8 ")" ++ rest)

/-- Field `n` as proc(5) numbers them. -/
def procField (fs : List Text) (n : ℕ) : Option Text := fs[n - 3]?

/-- The value of a field that is a number in the range of a `uint64`. -/
def Counts (field : Option Text) (v : UInt64) : Prop :=
  ∀ w ∈ field, ∀ n < UInt64.size, Numeral w n → v.toNat = n

/-- What the fields tell of the process. -/
structure ProcStat.Told (st : ProcStat) (fs : List Text) : Prop where
  state : procField fs 3 = some st.state
  utime : Counts (procField fs 14) st.utime
  stime : Counts (procField fs 15) st.stime
  threads : ∀ w ∈ procField fs 20, ∀ n, -0x8000000000000000 ≤ n → n < 0x8000000000000000 →
    SignedNumeral w n → st.threads = n
  starttime : Counts (procField fs 22) st.starttime

variable {rest : Text}

theorem counts_uint (field : Text) : Counts (some field) (uint field) := by
  intro w hw n hn hnumeral
  cases hw
  rw [uint, hnumeral.parseUint_eq hn]
  exact UInt64.toNat_ofNat_of_lt' hn

/-- Only the fields behind the last closing parenthesis are looked at. -/
theorem parseStatLine_told (hrest : 0x29 ∉ rest) (hlength : 20 ≤ (fields rest).length)
    (head : Text) :
    ∃ st, parseStatLine (head ++ 0x29 :: rest) = some st ∧ st.Told (fields rest) := by
  have hfield (i : ℕ) (hi : i < 20) : ∃ w, (fields rest)[i]? = some w :=
    ⟨_, List.getElem?_eq_getElem (by omega)⟩
  -- fields 3, 14, 15, 20 and 22 of proc(5)
  obtain ⟨state, hstate⟩ := hfield 0 (by omega)
  obtain ⟨utime, hutime⟩ := hfield 11 (by omega)
  obtain ⟨stime, hstime⟩ := hfield 12 (by omega)
  obtain ⟨threads, hthreads⟩ := hfield 17 (by omega)
  obtain ⟨starttime, hstarttime⟩ := hfield 19 (by omega)
  refine ⟨⟨state, uint utime, uint stime, (atoi threads).1, uint starttime⟩, ?_, ?_⟩
  · unfold parseStatLine
    rw [lastIndexByte_append hrest head]
    dsimp only
    rw [drop_separator, fields_trimSpace, hstate, hutime, hstime, hthreads, hstarttime]
  · constructor
    case state => exact hstate
    case utime =>
      rw [procField, hutime]
      exact counts_uint utime
    case stime =>
      rw [procField, hstime]
      exact counts_uint stime
    case threads =>
      intro w hw n hlow hhigh hnumeral
      rw [procField, hthreads] at hw
      cases hw
      exact congrArg Prod.fst (hnumeral.atoi_eq hlow hhigh)
    case starttime =>
      rw [procField, hstarttime]
      exact counts_uint starttime

theorem parseStatLine_few (hrest : 0x29 ∉ rest) (hlength : (fields rest).length < 20)
    (head : Text) : parseStatLine (head ++ 0x29 :: rest) = none := by
  have hlast : (fields rest)[19]? = none := List.getElem?_eq_none_iff.mpr (by omega)
  unfold parseStatLine
  rw [lastIndexByte_append hrest head]
  dsimp only
  rw [drop_separator, fields_trimSpace, hlast]
  split
  · rename_i hnone
    cases hnone
  · rfl

theorem parseStatLine_none {line : Text} (h : 0x29 ∉ line) : parseStatLine line = none := by
  rw [parseStatLine, lastIndexByte_none h]

/-- A process is read right whatever its name is, and a line without its fields is not read. -/
theorem parseProcPidStat_correct (f : Files) (pid : Int) (line : Text)
    (hfile : f.readFile (procPath pid "stat") = .ok line) :
    (∀ comm fs, IsStatLine pid comm fs line → 20 ≤ fs.length →
      ∃ st, parseProcPidStat f pid = some st ∧ st.Told fs) ∧
    (0x29 ∉ line → parseProcPidStat f pid = none) ∧
    (∀ head rest, line = head ++ 0x29 :: rest → 0x29 ∉ rest → (fields rest).length < 20 →
      parseProcPidStat f pid = none) := by
  have hparse : parseProcPidStat f pid = parseStatLine line := by
    rw [parseProcPidStat, hfile]
  rw [hparse]
  refine ⟨?_, parseStatLine_none, ?_⟩
  · rintro comm fs ⟨hrest, hparen⟩ hlength
    -- whatever `comm` has in it, the parenthesis that ends it is the last one
    have hnot := hrest.not_mem (by decide) (by decide) hparen
    rw [← hrest.fields_eq] at hlength ⊢
    rw [List.append_assoc _ (utf8 ")")]
    exact parseStatLine_told hnot hlength _
  · rintro head rest rfl hrest hfew
    exact parseStatLine_few hrest hfew head

example :
    parseStatLine (utf8 "7 (x) Z (\n) R 1 7 7 0 -1 4194304 0 0 0 0 250 31 0 0 20 0 3 0 1234\n") =
      some ⟨utf8 "R", 250, 31, 3, 1234⟩ := by decide +kernel

namespace Kat

/-- A process that has 250 jiffies of user time and a name that looks like the end of one. -/
def named : Files :=
  .ofContents [("/proc/7/stat",
    "7 (x) Z (\n) R 1 7 7 0 -1 4194304 0 0 0 0 250 31 0 0 20 0 3 0 1234\n")]

def namedFields : List Text :=
  ["R", "1", "7", "7", "0", "-1", "4194304", "0", "0", "0", "0", "250", "31", "0", "0", "20", "0",
    "3", "0", "1234"].map utf8

end Kat

theorem parseProcPidStat_correct_named :
    ∃ st, parseProcPidStat Kat.named 7 = some st ∧ st.Told Kat.namedFields := by
  have hsolid : ∀ w ∈ Kat.namedFields, Solid w ∧ w ≠ [] := by
    have hleads : ∀ w ∈ Kat.namedFields, w.any leads = false ∧ w ≠ [] := by decide
    exact fun w hw => ⟨solid_of_leads (hleads w hw).1, (hleads w hw).2⟩
  have hlaid := laid_spaced hsolid (g := [0x20]) (t := [0x0a])
    (.cons (.ascii rfl) .nil) (.cons (.ascii rfl) .nil)
  have hline : IsStatLine 7 (utf8 "x) Z (\n") Kat.namedFields _ := .line hlaid (by decide)
  exact (parseProcPidStat_correct Kat.named 7 _ rfl).1 _ _ hline (by decide)

end SmartSfp.Sysmon
