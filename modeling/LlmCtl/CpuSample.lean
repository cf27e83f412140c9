/-
# The CPU load of the host (`stats.rs`)

The kernel counts the time that the CPUs spend in each of eight states.  `sample` takes the
differences of two readings: that of the totals, and that of the idle times.  It looks whether the
total has grown, but an idle time may shrink all the same, or grow by more than the total.

64-bit numbers wrap in a release build and panic in a debug build, and a panic ends the poller.
Doubles are rational numbers.
-/
import LlmCtl.TextParse
import Mathlib.Algebra.Order.Field.Rat
import Mathlib.Algebra.BigOperators.Group.List.Basic
import Mathlib.Algebra.Order.BigOperators.Group.List
import Mathlib.Tactic.Linarith
import Mathlib.Tactic.Positivity

namespace LlmCtl

/-! ## 64-bit counters -/

/-- `a + b` on `u64`; with overflow checks a sum out of range panics. -/
def addU64 (overflowChecks : Bool) (a b : ℕ) : Option ℕ :=
  if a + b < 2 ^ 64 then some (a + b)
  else if overflowChecks then none
  else some ((a + b) % 2 ^ 64)

/-- `a - b` on `u64`. -/
def subU64 (overflowChecks : Bool) (a b : ℕ) : Option ℕ :=
  if b ≤ a then some (a - b)
  else if overflowChecks then none
  else some (2 ^ 64 + a - b)

/-- `iter().sum()` on `u64`. -/
def sumU64 (overflowChecks : Bool) (ns : List ℕ) : Option ℕ :=
  ns.foldlM (addU64 overflowChecks) 0

/-- A sum in range is the mathematical one. -/
theorem foldlM_addU64 {checks : Bool} {ns : List ℕ} {a : ℕ} (h : a + ns.sum < 2 ^ 64) :
    ns.foldlM (addU64 checks) a = some (a + ns.sum) := by
  induction ns generalizing a with
  | nil => rfl
  | cons n ns ih =>
    rw [List.sum_cons, ← Nat.add_assoc] at h ⊢
    have hstep : addU64 checks a n = some (a + n) := if_pos (by omega)
    rw [List.foldlM_cons, hstep]
    exact ih h

/-! ## The host -/

/-- What the file system shows: the files, with their contents where they can be read, and the
entries of the directories. -/
structure HostFiles where
  file : String → Option String
  pathExists : String → Bool
  readDir : String → List (Option String)

/-- The total time, and the idle time in it. -/
structure CpuCounters where
  total : ℕ
  idle : ℕ
  deriving DecidableEq

/-- The loop of `read_cpu`: so many words, each of them a number. -/
def readCounters : ℕ → List (List Char) → Option (List ℕ)
  | 0, _ => some []
  | _ + 1, [] => none
  | k + 1, word :: words => (parseU64 word).bind fun n => (readCounters k words).map (n :: ·)

/-- The eight counters in the first line of `/proc/stat`. -/
def cpuTimes (host : HostFiles) : Option (List ℕ) :=
  (host.file "/proc/stat").bind fun text =>
    (strLines text.toList).head?.bind fun line =>
      readCounters 8 ((splitWhitespace line).drop 1)

/-- `read_cpu`: nothing where a sum panics, and nothing read where there are no counters. -/
def readCpu (overflowChecks : Bool) (host : HostFiles) : Option (Option CpuCounters) :=
  match cpuTimes host with
  | none => some none
  | some vals =>
    (addU64 overflowChecks (vals.getD 3 0) (vals.getD 4 0)).bind fun idle =>
      (sumU64 overflowChecks vals).map fun total => some ⟨total, idle⟩

/-- `read_u64`. -/
def readU64 (host : HostFiles) (path : String) : Option ℕ :=
  (host.file path).bind fun text => parseU64 (trim text).toList

/-- `gpu_device`: the directory of the card with the most VRAM. -/
def gpuDevice (host : HostFiles) : Option (String × ℕ) :=
  ((host.readDir "/sys/class/drm").filterMap id).foldl
    (fun best name =>
      let dev := "/sys/class/drm/" ++ name ++ "/device"
      if ("card".toList.isPrefixOf name.toList) && host.pathExists (dev ++ "/gpu_busy_percent") then
        match readU64 host (dev ++ "/mem_info_vram_total") with
        | some total =>
          if (best.map fun b => decide (b.2 < total)).getD true then some (dev, total) else best
        | none => best
      else best)
    none

/-- `HostStats`. -/
structure HostStats where
  cpuPct : ℚ := 0
  gpuPct : Option ℚ := none
  vramUsedMb : Option ℚ := none
  vramTotalMb : Option ℚ := none
  gpuTempC : Option ℚ := none
  deriving DecidableEq

/-- `sample`: the load of the CPUs, in percent.  Nothing where a difference panics. -/
def cpuPct (overflowChecks : Bool) (prev : CpuCounters) : Option CpuCounters → Option ℚ
  | none => some 0
  | some cur =>
    if prev.total < cur.total then
      (subU64 overflowChecks cur.total prev.total).bind fun dTotal =>
        (subU64 overflowChecks cur.idle prev.idle).bind fun dIdle =>
          if 0 < dTotal then
            (subU64 overflowChecks dTotal dIdle).map fun busy : ℕ => (busy : ℚ) / dTotal * 100
          else some 0
    else some 0

/-- `sample`: the load of the graphics card, when there is one. -/
def gpuStats (host : HostFiles) (pct : ℚ) : HostStats :=
  match gpuDevice host with
  | none => { cpuPct := pct }
  | some (dev, _) =>
    { cpuPct := pct
      gpuPct := (readU64 host (dev ++ "/gpu_busy_percent")).map fun n : ℕ => (n : ℚ)
      vramUsedMb := (readU64 host (dev ++ "/mem_info_vram_used")).map fun n : ℕ =>
        (n : ℚ) / 1048576
      vramTotalMb := (readU64 host (dev ++ "/mem_info_vram_total")).map fun n : ℕ =>
        (n : ℚ) / 1048576
      gpuTempC := (((host.readDir (dev ++ "/hwmon")).head?.bind id).bind fun name =>
        readU64 host (dev ++ "/hwmon/" ++ name ++ "/temp1_input")).map fun n : ℕ =>
          (n : ℚ) / 1000 }

/-- **`sample`**: what is shown, and the counters for the next time. -/
def sample (overflowChecks : Bool) (prev : CpuCounters) (host : HostFiles) :
    Option (HostStats × CpuCounters) :=
  (readCpu overflowChecks host).bind fun cur =>
    (cpuPct overflowChecks prev cur).map fun pct => (gpuStats host pct, cur.getD prev)

/-! ## The poller -/

/-- `init_cpu`. -/
def initCpu (overflowChecks : Bool) (host : HostFiles) : Option CpuCounters :=
  (readCpu overflowChecks host).map fun cur => cur.getD ⟨0, 0⟩

/-- The loop of the poller, tick by tick: what it shows.  Nothing once it has panicked. -/
def statsLoop (overflowChecks : Bool) : CpuCounters → List HostFiles → Option (List HostStats)
  | _, [] => some []
  | prev, host :: hosts =>
    (sample overflowChecks prev host).bind fun r =>
      (statsLoop overflowChecks r.2 hosts).map (r.1 :: ·)

/-- **The stats poller of `main.rs`.** -/
def statsPoller (overflowChecks : Bool) (start : HostFiles) (ticks : List HostFiles) :
    Option (List HostStats) :=
  (initCpu overflowChecks start).bind fun prev => statsLoop overflowChecks prev ticks

/-! ## What is read -/

/-- The sum of the eight counters is a `u64`. -/
def TotalFits (host : HostFiles) : Prop := ∀ vals, cpuTimes host = some vals → vals.sum < 2 ^ 64

theorem totalFits_iff (host : HostFiles) :
    TotalFits host ↔ (cpuTimes host).all (fun vals => decide (vals.sum < 2 ^ 64)) = true := by
  rw [TotalFits]
  cases cpuTimes host with
  | none => simp
  | some vals => simp

instance (host : HostFiles) : Decidable (TotalFits host) :=
  decidable_of_iff _ (totalFits_iff host).symm

/-- The counters of a reading. -/
def counters (host : HostFiles) : Option CpuCounters :=
  (cpuTimes host).map fun vals => ⟨vals.sum, vals.getD 3 0 + vals.getD 4 0⟩

theorem length_of_readCounters {k : ℕ} {words : List (List Char)} {vals : List ℕ}
    (h : readCounters k words = some vals) : vals.length = k := by
  induction k generalizing words vals with
  | zero =>
    obtain rfl := Option.some.inj h
    rfl
  | succ k ih =>
    cases words with
    | nil => exact absurd h (by simp [readCounters])
    | cons word words =>
      obtain ⟨n, -, hn⟩ := Option.bind_eq_some_iff.mp h
      obtain ⟨ns, hns, rfl⟩ := Option.map_eq_some_iff.mp hn
      rw [List.length_cons, ih hns]

/-- Two of the counters are the idle time, which is a part of the total. -/
theorem idle_le_sum {host : HostFiles} {vals : List ℕ} (h : cpuTimes host = some vals) :
    vals.getD 3 0 + vals.getD 4 0 ≤ vals.sum := by
  obtain ⟨text, -, htext⟩ := Option.bind_eq_some_iff.mp h
  obtain ⟨line, -, hline⟩ := Option.bind_eq_some_iff.mp htext
  have hlen := length_of_readCounters hline
  match vals, hlen with
  | [a, b, c, d, e, f, g, k], _ =>
    show d + e ≤ [a, b, c, d, e, f, g, k].sum
    simp only [List.sum_cons, List.sum_nil]
    omega

theorem idle_le_total {host : HostFiles} {c : CpuCounters} (h : counters host = some c) :
    c.idle ≤ c.total := by
  obtain ⟨vals, hvals, rfl⟩ := Option.map_eq_some_iff.mp h
  exact idle_le_sum hvals

theorem total_lt {host : HostFiles} (hfits : TotalFits host) {c : CpuCounters}
    (h : counters host = some c) : c.total < 2 ^ 64 := by
  obtain ⟨vals, hvals, rfl⟩ := Option.map_eq_some_iff.mp h
  exact hfits vals hvals

/-- A total in range is read as it stands, in every build. -/
theorem readCpu_eq (checks : Bool) {host : HostFiles} (h : TotalFits host) :
    readCpu checks host = some (counters host) := by
  unfold readCpu counters
  cases hvals : cpuTimes host with
  | none => rfl
  | some vals =>
    have hsum := h vals hvals
    have hle := idle_le_sum hvals
    have hidle : addU64 checks (vals.getD 3 0) (vals.getD 4 0)
        = some (vals.getD 3 0 + vals.getD 4 0) := if_pos (by omega)
    have htotal : sumU64 checks vals = some vals.sum := by
      rw [sumU64, foldlM_addU64 (by rwa [Nat.zero_add]), Nat.zero_add]
    simp only [hidle, htotal, Option.bind_some, Option.map_some]

/-! ## One sample -/

/-- A number is a percentage. -/
def InPercent (q : ℚ) : Prop := 0 ≤ q ∧ q ≤ 100

/-- The total has not grown, or the idle time has grown, by no more than the total. -/
def IdleFits (p c : CpuCounters) : Prop :=
  c.total ≤ p.total ∨ (p.idle ≤ c.idle ∧ c.idle - p.idle ≤ c.total - p.total)

instance (p c : CpuCounters) : Decidable (IdleFits p c) :=
  inferInstanceAs (Decidable (_ ∨ _ ∧ _))

/-- A share is a percentage just if it is a share of a part. -/
theorem inPercent_iff {busy total : ℕ} (h : 0 < total) :
    InPercent ((busy : ℚ) / total * 100) ↔ busy ≤ total := by
  have hpos : (0 : ℚ) < total := by exact_mod_cast h
  have hshare : (busy : ℚ) / total * 100 ≤ 100 ↔ (busy : ℚ) ≤ total := by
    rw [← div_le_one₀ hpos]
    constructor <;> intro hle <;> linarith
  rw [InPercent, hshare, Nat.cast_le]
  exact and_iff_right (by positivity)

section

variable (checks : Bool) {p c : CpuCounters}

/-- The load, when the total has grown and the idle time fits. -/
theorem cpuPct_of_fits (h : p.total < c.total) (hidle : p.idle ≤ c.idle)
    (hfits : c.idle - p.idle ≤ c.total - p.total) :
    cpuPct checks p (some c) =
      some (((c.total - p.total - (c.idle - p.idle) : ℕ) : ℚ) / (c.total - p.total : ℕ) * 100) := by
  simp only [cpuPct, if_pos h, subU64, if_pos h.le, if_pos hidle, Option.bind_some,
    if_pos (Nat.sub_pos_of_lt h), if_pos hfits, Option.map_some]

/-- **Otherwise the differences panic, or wrap twice over**: the busy time is more than the
total. -/
theorem cpuPct_of_not_fits (h : p.total < c.total)
    (hbad : ¬(p.idle ≤ c.idle ∧ c.idle - p.idle ≤ c.total - p.total)) (hc : c.idle ≤ c.total)
    (hp : p.idle ≤ p.total) (hlt : c.total < 2 ^ 64) :
    cpuPct checks p (some c) = none ∨ ∃ busy : ℕ, c.total - p.total < busy ∧
      cpuPct checks p (some c) = some ((busy : ℚ) / (c.total - p.total : ℕ) * 100) := by
  have hpos : 0 < c.total - p.total := Nat.sub_pos_of_lt h
  simp only [cpuPct, if_pos h, subU64, if_pos h.le, Option.bind_some, if_pos hpos]
  by_cases hidle : p.idle ≤ c.idle
  · have hmore : ¬ c.idle - p.idle ≤ c.total - p.total := fun hle => hbad ⟨hidle, hle⟩
    rw [if_pos hidle, Option.bind_some, if_neg hmore]
    cases checks with
    | true => exact .inl rfl
    | false => exact .inr ⟨_, by omega, rfl⟩
  · rw [if_neg hidle]
    cases checks with
    | true => exact .inl rfl
    | false =>
      -- The idle time as it wraps is more than all the time there was.
      have hmore : ¬ 2 ^ 64 + c.idle - p.idle ≤ c.total - p.total := by omega
      rw [if_neg Bool.false_ne_true, Option.bind_some, if_neg hmore]
      exact .inr ⟨_, by omega, rfl⟩

/-- **A sample is sound just if the idle time fits.** -/
theorem cpuPct_sound_iff (hp : p.idle ≤ p.total) (hc : c.idle ≤ c.total)
    (hlt : c.total < 2 ^ 64) :
    (∃ q, cpuPct checks p (some c) = some q ∧ InPercent q) ↔ IdleFits p c := by
  by_cases h : p.total < c.total
  · have hpos : 0 < c.total - p.total := Nat.sub_pos_of_lt h
    constructor
    · rintro ⟨q, hq, hpercent⟩
      by_contra hbad
      rcases cpuPct_of_not_fits checks h (fun hfits => hbad (.inr hfits)) hc hp hlt with
        hnone | ⟨busy, hbusy, hsome⟩
      · rw [hnone] at hq
        exact absurd hq (by simp)
      · obtain rfl := Option.some.inj (hsome.symm.trans hq)
        have hle := (inPercent_iff hpos).mp hpercent
        omega
    · rintro (hle | ⟨hidle, hfits⟩)
      · omega
      · exact ⟨_, cpuPct_of_fits checks h hidle hfits, (inPercent_iff hpos).mpr (Nat.sub_le _ _)⟩
  · have hzero : cpuPct checks p (some c) = some 0 := by rw [cpuPct, if_neg h]
    refine iff_of_true ⟨0, hzero, ?_⟩ (.inl (Nat.le_of_not_lt h))
    exact ⟨le_rfl, by norm_num⟩

end

/-! ## Runs of the poller -/

theorem gpuStats_cpuPct (host : HostFiles) (pct : ℚ) : (gpuStats host pct).cpuPct = pct := by
  unfold gpuStats
  split <;> rfl

/-- What the poller shows is sound: it goes on, and each load is a percentage. -/
def PollerSound (out : Option (List HostStats)) : Prop :=
  ∃ shown, out = some shown ∧ ∀ s ∈ shown, InPercent s.cpuPct

/-- The readings one after another, those that fail left out. -/
def readings (start : HostFiles) (ticks : List HostFiles) : List CpuCounters :=
  (counters start).getD ⟨0, 0⟩ :: ticks.filterMap counters

/-- One tick of the poller. -/
theorem sound_cons {checks : Bool} {prev : CpuCounters} {host : HostFiles}
    (hfits : TotalFits host) (hosts : List HostFiles) :
    PollerSound (statsLoop checks prev (host :: hosts)) ↔
      (∃ q, cpuPct checks prev (counters host) = some q ∧ InPercent q) ∧
        PollerSound (statsLoop checks ((counters host).getD prev) hosts) := by
  rw [statsLoop, sample, readCpu_eq checks hfits, Option.bind_some]
  constructor
  · rintro ⟨shown, hshown, hall⟩
    obtain ⟨r, hr, hrest⟩ := Option.bind_eq_some_iff.mp hshown
    obtain ⟨q, hq, rfl⟩ := Option.map_eq_some_iff.mp hr
    obtain ⟨rest, hloop, rfl⟩ := Option.map_eq_some_iff.mp hrest
    have hhead := hall _ List.mem_cons_self
    rw [gpuStats_cpuPct] at hhead
    exact ⟨⟨q, hq, hhead⟩, rest, hloop, fun s hs => hall s (List.mem_cons_of_mem _ hs)⟩
  · rintro ⟨⟨q, hq, hpercent⟩, rest, hloop, hall⟩
    refine ⟨gpuStats host q :: rest, ?_, fun s hs => ?_⟩
    · rw [hq, Option.map_some, Option.bind_some, hloop, Option.map_some]
    · rcases List.mem_cons.mp hs with rfl | hs
      · rw [gpuStats_cpuPct]
        exact hpercent
      · exact hall s hs

/-- The loop, from counters that fit. -/
theorem sound_loop_iff {checks : Bool} {prev : CpuCounters} (hprev : prev.idle ≤ prev.total)
    {hosts : List HostFiles} (hfits : ∀ host ∈ hosts, TotalFits host) :
    PollerSound (statsLoop checks prev hosts) ↔
      (prev :: hosts.filterMap counters).IsChain IdleFits := by
  induction hosts generalizing prev with
  | nil => exact iff_of_true ⟨[], rfl, fun s hs => absurd hs List.not_mem_nil⟩ (.singleton prev)
  | cons host hosts ih =>
    have hhost := hfits host List.mem_cons_self
    replace ih (q : CpuCounters) (hq : q.idle ≤ q.total) :
        PollerSound (statsLoop checks q hosts) ↔ (q :: hosts.filterMap counters).IsChain IdleFits :=
      ih hq fun x hx => hfits x (List.mem_cons_of_mem _ hx)
    rw [sound_cons hhost]
    cases hc : counters host with
    | none =>
      rw [List.filterMap_cons_none hc, Option.getD_none, ih prev hprev]
      exact and_iff_right ⟨0, rfl, le_rfl, by norm_num⟩
    | some c =>
      have hle := idle_le_total hc
      rw [List.filterMap_cons_some hc, Option.getD_some, ih c hle, List.isChain_cons_cons,
        cpuPct_sound_iff checks hprev hle (total_lt hhost hc)]

/-- **The poller does not panic, nor shows anything but a percentage, just if the idle time fits
between any two readings.** -/
theorem poller_sound_iff (checks : Bool) {start : HostFiles} {ticks : List HostFiles}
    (hstart : TotalFits start) (hticks : ∀ host ∈ ticks, TotalFits host) :
    PollerSound (statsPoller checks start ticks) ↔ (readings start ticks).IsChain IdleFits := by
  have hinit : initCpu checks start = some ((counters start).getD ⟨0, 0⟩) := by
    rw [initCpu, readCpu_eq checks hstart, Option.map_some]
  have hle : ((counters start).getD ⟨0, 0⟩).idle ≤ ((counters start).getD ⟨0, 0⟩).total := by
    cases hc : counters start with
    | none => exact le_rfl
    | some c => exact idle_le_total hc
  rw [statsPoller, hinit, Option.bind_some, sound_loop_iff hle hticks, readings]

/-- A host without a graphics card, with the first line of its `/proc/stat`. -/
def statHost (line : String) : HostFiles where
  file path := if path == "/proc/stat" then some (line ++ "\nctxt 1990473\n") else none
  pathExists _ := false
  readDir _ := []

theorem poller_sound_iff_busy :
    PollerSound (statsPoller true (statHost "cpu  10 0 10 80 0 0 0 0")
      [statHost "cpu  40 0 10 150 0 0 0 0", statHost "cpu  40 0 10 180 20 0 0 0"]) :=
  (poller_sound_iff true (by decide)
    (List.forall_mem_cons.mpr ⟨by decide, List.forall_mem_singleton.mpr
      (by decide)⟩)).mpr (by decide)

/-- The CPUs have waited less for their input and output than they had before. -/
theorem idle_shrinks : ¬ ∀ checks start ticks, TotalFits start →
    (∀ host ∈ ticks, TotalFits host) → PollerSound (statsPoller checks start ticks) := by
  intro h
  obtain ⟨shown, hshown, -⟩ := h true (statHost "cpu  40 0 10 150 50 0 0 0")
    [statHost "cpu  90 0 10 150 40 0 0 0"] (by decide)
    (List.forall_mem_singleton.mpr (by decide))
  have hnone : statsPoller true (statHost "cpu  40 0 10 150 50 0 0 0")
      [statHost "cpu  90 0 10 150 40 0 0 0"] = none := by decide
  rw [hnone] at hshown
  exact absurd hshown (by simp)

end LlmCtl
