import SmartSfp.Lib.Decimal
import SmartSfp.Sysmon.Reader

/-!
# Listing — the CPUs in `/proc/stat`

The file starts with a line for all CPUs together and one for each CPU that is online.  `readCPU`
finds their counters, but it drops the numbers of the CPUs.
-/

namespace SmartSfp.Sysmon

open Lib Text

/-- The counters of a line as they are written. -/
def CPUStat.texts (c : CPUStat) : List Text :=
  [c.user, c.nice, c.system, c.idle, c.iowait, c.irq, c.softirq, c.steal].map fun n =>
    Text.itoa n.toNat

structure IsCPULine (name : Text) (st : CPUStat) (line : Text) : Prop where
  starts : hasPrefix line (utf8 "cpu") = true
  /-- More columns may follow. -/
  columns : name :: st.texts <+: fields line

instance (name : Text) (st : CPUStat) (line : Text) : Decidable (IsCPULine name st line) :=
  decidable_of_iff (hasPrefix line (utf8 "cpu") = true ∧ name :: st.texts <+: fields line)
    ⟨fun ⟨hstarts, hcolumns⟩ => ⟨hstarts, hcolumns⟩, fun h => ⟨h.starts, h.columns⟩⟩

/-- The CPUs that are online, with their counters in the order of their lines. -/
structure Listing where
  overall : CPUStat
  cores : List (ℕ × CPUStat)
  nodup : (cores.map Prod.fst).Nodup

def coreName (n : ℕ) : Text := utf8 "cpu" ++ Text.itoa n

/-- The content of `/proc/stat` is that of the listing, with other lines behind it. -/
def Kernel.Lists (k : Kernel) (l : Listing) : Prop :=
  ∃ content first lines rest, k.files.readFile (utf8 "/proc/stat") = .ok content ∧
    scanLines content = first :: (lines ++ rest) ∧
    IsCPULine (utf8 "cpu") l.overall first ∧
    List.Forall₂ (fun x line => IsCPULine (coreName x.1) x.2 line) l.cores lines ∧
    ∀ line ∈ rest.head?, hasPrefix line (utf8 "cpu") = false

theorem uint_itoa (n : UInt64) : uint (Text.itoa n.toNat) = n := by
  rw [uint, parseUint_itoa n.toNat_lt]
  exact UInt64.ofNat_toNat

theorem IsCPULine.parse {name line : Text} {st : CPUStat} (h : IsCPULine name st line) :
    (fields line).head? = some name ∧ parseCPULine (fields line) = st := by
  obtain ⟨more, hmore⟩ := h.columns
  rw [← hmore]
  refine ⟨rfl, ?_⟩
  simp only [CPUStat.texts, parseCPULine, List.map_cons, List.map_nil, List.cons_append,
    List.nil_append, List.getElem?_cons_succ, List.getElem?_cons_zero, uint_itoa]

theorem coreName_ne (n : ℕ) : coreName n ≠ utf8 "cpu" := by
  intro h
  exact itoa_ne_nil n (List.append_right_eq_self.mp h)

/-- The scan collects the cores up to the first line that is not one of a CPU. -/
theorem scanCPU_cores {cores : List (ℕ × CPUStat)} {lines rest : List Text}
    (hlines : List.Forall₂ (fun x line => IsCPULine (coreName x.1) x.2 line) cores lines)
    (hrest : ∀ line ∈ rest.head?, hasPrefix line (utf8 "cpu") = false)
    (overall : Option CPUStat) (perCore : List CPUStat) :
    scanCPU overall perCore (lines ++ rest) = (overall, perCore ++ cores.map Prod.snd) := by
  induction hlines generalizing perCore with
  | nil =>
    rw [List.nil_append, List.map_nil, List.append_nil]
    cases rest with
    | nil => rfl
    | cons line rest => rw [scanCPU, hrest line rfl, Bool.not_false, if_pos rfl]
  | @cons x line cores lines hline _ ih =>
    obtain ⟨hname, hstat⟩ := hline.parse
    have hother : (fields line).head? ≠ some (utf8 "cpu") := by
      rw [hname]
      exact fun h => coreName_ne x.1 (Option.some.inj h)
    rw [List.cons_append, scanCPU, hline.starts, Bool.not_true, if_neg (by decide)]
    dsimp only
    rw [if_neg hother, hstat, ih, List.append_assoc]
    rfl

theorem Kernel.Lists.readStat {k : Kernel} {l : Listing} (h : k.Lists l) :
    readStat k.files = .ok (l.overall, l.cores.map Prod.snd) := by
  obtain ⟨content, first, lines, rest, hfile, hscan, hfirst, hlines, hrest⟩ := h
  obtain ⟨hname, hstat⟩ := hfirst.parse
  have hcores := scanCPU_cores hlines hrest (some l.overall) []
  have hall : scanCPU none [] (scanLines content) =
      (some l.overall, l.cores.map Prod.snd) := by
    rw [hscan, scanCPU, hfirst.starts, Bool.not_true, if_neg (by decide)]
    dsimp only
    rw [if_pos hname, hstat, hcores, List.nil_append]
  unfold Sysmon.readStat
  rw [hfile]
  dsimp only [bind, Except.bind]
  rw [hall]
  rfl

namespace Listing

variable {l : Listing} {i j n : ℕ} {st : CPUStat}

/-- The counters of a CPU, or of all of them together. -/
def find (l : Listing) : Option ℕ → Option CPUStat
  | none => some l.overall
  | some n => (l.cores.find? fun x => x.1 = n).map Prod.snd

/-- The CPU of a line. -/
def cpuAt (l : Listing) (i : ℕ) : Option ℕ := l.cores[i]?.map Prod.fst

theorem cpuAt_inj (hi : l.cpuAt i = some n) (hj : l.cpuAt j = some n) : i = j := by
  unfold cpuAt at hi hj
  rw [← List.getElem?_map] at hi hj
  have hlt := (List.getElem?_eq_some_iff.mp hi).1
  exact (List.getElem?_inj hlt l.nodup).mp (hi.trans hj.symm)

theorem cpuAt_isSome_iff : (l.cpuAt i).isSome ↔ i < l.cores.length := by
  rw [cpuAt, Option.isSome_map, isSome_getElem?]

theorem find_of_getElem? (h : l.cores[i]? = some (n, st)) : l.find (some n) = some st := by
  have hmem : (n, st) ∈ l.cores := List.mem_of_getElem? h
  obtain ⟨x, hx⟩ : ∃ x, l.cores.find? (fun x => x.1 = n) = some x :=
    Option.isSome_iff_exists.mp (List.find?_isSome.mpr ⟨(n, st), hmem, by simp⟩)
  have hname : x.1 = n := by simpa using List.find?_some hx
  have heq : x = (n, st) :=
    List.inj_on_of_nodup_map l.nodup (List.mem_of_find?_eq_some hx) hmem hname
  rw [find, hx, heq, Option.map_some]

theorem find_eq_some (h : l.find (some n) = some st) : (n, st) ∈ l.cores := by
  obtain ⟨x, hx, rfl⟩ := Option.map_eq_some_iff.mp h
  have hname : x.1 = n := by simpa using List.find?_some hx
  subst hname
  exact List.mem_of_find?_eq_some hx

theorem find_none (h : ∀ i, l.cpuAt i ≠ some n) : l.find (some n) = none := by
  rw [find, Option.map_eq_none_iff, List.find?_eq_none]
  intro x hx hname
  obtain ⟨i, hi⟩ := List.mem_iff_getElem?.mp hx
  refine h i ?_
  rw [cpuAt, hi, Option.map_some, of_decide_eq_true hname]

end Listing

end SmartSfp.Sysmon
