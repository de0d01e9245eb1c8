import Agatha.Sys.Window

namespace Agatha.Sys

open Kernel Library Library.Bytes

/-- Where `len` bytes go with `va_next` at `va`: not over the end of a table, nor up to it. -/
def windowBase (len va : ℕ) : ℕ :=
  if va / 2 ^ 20 = (va + len) / 2 ^ 20 then va else (va + len) / 2 ^ 20 * 2 ^ 20

structure Machine.Room (m : Machine) (pa len : ℕ) : Prop where
  plain : len + 4095 < 2 ^ 32
  pages : pa % 4096 + len ≤ pageAlign len
  small : pageAlign len < 2 ^ 20
  below : windowBase (pageAlign len) m.vaNext + pageAlign len < m.vaMax

/-- `kernel_map` maps the pages from `base` on, in one table of the window and beside what is mapped. -/
structure MapsAt (m : Machine) (pa len : ℕ) (cache : Bool) (live : List (ℕ × ℕ)) (base : ℕ) (m' : Machine) :
    Prop where
  run : kernelMap pa len cache m = .here (base + pa % 4096) m'
  inside : m.vaMin ≤ base ∧ base + pageAlign len ≤ m.vaMax
  pages : pa % 4096 + len ≤ pageAlign len
  table : ∀ x, base ≤ x → x < base + pageAlign len → l1x x = l1x base ∧ l1x m.vaMin ≤ l1x x ∧
    l1x x < l1x m.vaMin + m.tableCount
  beside : ∀ r ∈ live, r.1 + r.2 ≤ base ∨ base + pageAlign len ≤ r.1

/-- What `boot.c` and `main` leave: 15 tables from `0xff000000` on, and `va_next` behind what boot mapped. -/
structure Booted (m : Machine) : Prop where
  vaMin : m.vaMin = 0xff000000
  vaMax : m.vaMax = 0xff000000 + 15 * 2 ^ 20
  vaNext : ∃ kernelLen, kernelLen % 4096 = 0 ∧ m.vaNext = m.vaMin + kernelLen + 0x14000
  room : m.vaNext ≤ m.vaMax

/-- Runs of `kernel_map` and `kernel_unmap`, with the mappings that are live, where there is room at each
`kernel_map`. What else the calls do does not touch the window. -/
inductive WindowRun : Machine → List (ℕ × ℕ) → Prop
  | start {m : Machine} (booted : Booted m) : WindowRun m [(m.vaMin, m.vaNext - m.vaMin)]
  | map {m m' : Machine} {live : List (ℕ × ℕ)} {pa len va : ℕ} {cache : Bool} (h : WindowRun m live)
      (room : m.Room pa len) (run : kernelMap pa len cache m = .here va m') :
      WindowRun m' ((va - va % 4096, pageAlign len) :: live)
  | unmap {m : Machine} {live : List (ℕ × ℕ)} {va len : ℕ} (h : WindowRun m live)
      (mapped : (va - va % 4096, pageAlign len) ∈ live) :
      WindowRun (kernelUnmap va len m) (live.erase (va - va % 4096, pageAlign len))
  | other {m m' : Machine} {live : List (ℕ × ℕ)} (h : WindowRun m live) (vaNext : m'.vaNext = m.vaNext)
      (vaMin : m'.vaMin = m.vaMin) (vaMax : m'.vaMax = m.vaMax) : WindowRun m' live

structure Bumped (m : Machine) (live : List (ℕ × ℕ)) : Prop where
  vaMin : m.vaMin = 0xff000000
  vaMax : m.vaMax = 0xff000000 + 15 * 2 ^ 20
  low : m.vaMin ≤ m.vaNext
  high : m.vaNext ≤ m.vaMax
  aligned : m.vaNext % 4096 = 0
  live : ∀ r ∈ live, r.1 + r.2 ≤ m.vaNext

section Runs

variable {m m' : Machine} {pa len va base : ℕ} {cache : Bool} {live : List (ℕ × ℕ)}

structure InTable (len va base : ℕ) : Prop where
  above : va ≤ base
  below : base + len < 0xff000000 + 15 * 2 ^ 20
  table : base / 2 ^ 20 = (base + len) / 2 ^ 20
  aligned : base % 4096 = 0

theorem Bumped.placed (h : Bumped m live) (hr : m.Room pa len) :
    InTable (pageAlign len) m.vaNext (windowBase (pageAlign len) m.vaNext) := by
  obtain ⟨-, -, small, below⟩ := hr
  obtain ⟨-, vaMax, -, high, aligned, -⟩ := h
  rw [vaMax] at below
  refine ⟨?_, below, ?_, ?_⟩
  all_goals
    clear below
    generalize pageAlign len = l at *
    unfold windowBase
    split_ifs with hsame
    all_goals omega

theorem Bumped.windowPlace_room (h : Bumped m live) (hr : m.Room pa len) :
    windowPlace m.vaMax (pageAlign len) m.vaNext = some (windowBase (pageAlign len) m.vaNext) := by
  obtain ⟨-, -, small, below⟩ := hr
  obtain ⟨-, vaMax, -, high, -, -⟩ := h
  unfold windowBase at below ⊢
  unfold windowPlace l1x
  simp only
  rw [vaMax] at high below ⊢
  generalize pageAlign len = l at *
  by_cases hsame : m.vaNext / 2 ^ 20 = (m.vaNext + l) / 2 ^ 20
  · rw [if_pos hsame] at below ⊢
    rw [if_neg (by omega), if_neg (by omega)]
  · rw [if_neg hsame] at below ⊢
    rw [if_neg (by omega), if_pos (by omega), if_neg (by omega), Nat.mod_eq_of_lt (by omega)]

theorem Bumped.maps (h : Bumped m live) (hr : m.Room pa len) (cache : Bool) :
    ∃ m', MapsAt m pa len cache live (windowBase (pageAlign len) m.vaNext) m' := by
  obtain ⟨above, below, table, aligned⟩ := h.placed hr
  have hplace := h.windowPlace_room hr
  obtain ⟨-, pages, small, -⟩ := hr
  obtain ⟨vaMin, vaMax, low, high, -, hlive⟩ := h
  generalize windowBase (pageAlign len) m.vaNext = base at *
  have hcount : m.tableCount = 15 := by
    unfold Machine.tableCount
    omega
  have hpages : pageCount (pageAlign len) ≤ 256 := by
    unfold pageCount
    omega
  have hin : ¬ (l1x base < l1x m.vaMin ∨ m.tableCount ≤ l1x base - l1x m.vaMin ∨
      1024 < l2x base + pageCount (pageAlign len)) := by
    rw [hcount, vaMin]
    unfold l1x l2x
    omega
  obtain ⟨m', hrun⟩ : ∃ m', kernelMap pa len cache m = .here (base + pa % 4096) m' := by
    unfold kernelMap
    simp only [hplace]
    rw [if_neg hin]
    exact ⟨_, rfl⟩
  refine ⟨m', hrun, ⟨by omega, by omega⟩, pages, fun x hx hx' => ?_, fun r hr => .inl ((hlive r hr).trans above)⟩
  rw [hcount, vaMin]
  unfold l1x
  omega

theorem kernelMap_vaNext (h : kernelMap pa len cache m = .here va m') : ∃ y,
    windowPlace m.vaMax (pageAlign len) m.vaNext = some y ∧ va = y + pa % 4096 ∧
      m'.vaNext = (y + pageAlign len) % 2 ^ 32 ∧ m'.vaMin = m.vaMin ∧ m'.vaMax = m.vaMax := by
  unfold kernelMap at h
  simp only at h
  cases hp : windowPlace m.vaMax (pageAlign len) m.vaNext with
  | none =>
    rw [hp] at h
    cases h
  | some y =>
    rw [hp] at h
    simp only at h
    split_ifs at h
    cases h
    exact ⟨y, rfl, rfl, rfl, rfl, rfl⟩

theorem Bumped.map (h : Bumped m live) (hr : m.Room pa len) (hk : kernelMap pa len cache m = .here va m') :
    Bumped m' ((va - va % 4096, pageAlign len) :: live) := by
  obtain ⟨y, hplace, rfl, hnext, hmin, hmax⟩ := kernelMap_vaNext hk
  rw [h.windowPlace_room hr] at hplace
  obtain ⟨above, below, table, aligned⟩ := h.placed hr
  rw [Option.some.inj hplace] at above below table aligned
  obtain ⟨vaMin, vaMax, low, high, haligned, hlive⟩ := h
  have hdvd : pageAlign len % 4096 = 0 := pageAlign_dvd
  have hnext' : m'.vaNext = y + pageAlign len := hnext.trans (Nat.mod_eq_of_lt (by omega))
  refine ⟨hmin.trans vaMin, hmax.trans vaMax, by omega, by omega, by omega, ?_⟩
  intro r hr
  rcases List.mem_cons.mp hr with rfl | hr
  · simp only
    omega
  · exact (hlive r hr).trans (by omega)

theorem WindowRun.bumped (h : WindowRun m live) : Bumped m live := by
  induction h with
  | start booted =>
    obtain ⟨vaMin, vaMax, ⟨kernelLen, haligned, hnext⟩, room⟩ := booted
    refine ⟨vaMin, vaMax, by omega, room, by omega, fun r hr => ?_⟩
    obtain rfl := List.mem_singleton.mp hr
    simp only
    omega
  | map _ room run ih => exact ih.map room run
  | unmap _ _ ih =>
    obtain ⟨vaMin, vaMax, low, high, aligned, hlive⟩ := ih
    exact ⟨vaMin, vaMax, low, high, aligned, fun r hr => hlive r (List.mem_of_mem_erase hr)⟩
  | other _ hnext hmin hmax ih =>
    obtain ⟨vaMin, vaMax, low, high, aligned, hlive⟩ := ih
    refine ⟨hmin.trans vaMin, hmax.trans vaMax, by omega, by omega, by omega, fun r hr => ?_⟩
    rw [hnext]
    exact hlive r hr

theorem Bumped.room (h : Bumped m live) (hlen : 0 < len) (hm : MapsAt m pa len cache live base m') :
    m.Room pa len := by
  obtain ⟨y, hplace, hbase, -, -, -⟩ := kernelMap_vaNext hm.run
  obtain rfl : base = y := Nat.add_right_cancel hbase
  obtain ⟨vaMin, vaMax, low, high, -, -⟩ := h
  have hin := hm.inside
  have hpages := hm.pages
  have hplain : len + 4095 < 2 ^ 32 := by
    unfold pageAlign at hpages
    omega
  have hpos : 0 < pageAlign len := Nat.lt_of_lt_of_le hlen ((Nat.le_add_left _ _).trans hpages)
  have hplaced : pageAlign len < 2 ^ 20 ∧ windowBase (pageAlign len) m.vaNext + pageAlign len < m.vaMax := by
    clear hpages hm hbase hplain
    unfold windowBase
    unfold windowPlace l1x at hplace
    simp only at hplace
    rw [vaMin] at hin
    rw [vaMax] at hin high hplace ⊢
    generalize pageAlign len = l at *
    split_ifs at hplace with h1 h2 h3
    · obtain rfl := Option.some.inj hplace
      rw [if_neg (by omega)]
      omega
    · obtain rfl := Option.some.inj hplace
      rw [if_pos (by omega)]
      omega
  exact ⟨hplain, hpages, hplaced.1, hplaced.2⟩

/-- In every run in which there was room at each mapping: where there is room, `kernel_map` comes back with pages
of the window that nothing else lies in and that one of the kernel's tables covers; and nowhere else. -/
theorem kernel_mapping_window (h : WindowRun m live) (pa len : ℕ) (cache : Bool) :
    (m.Room pa len → ∃ base m', MapsAt m pa len cache live base m') ∧
    (0 < len → (∃ base m', MapsAt m pa len cache live base m') → m.Room pa len) := by
  refine ⟨fun hr => ⟨_, h.bumped.maps hr cache⟩, fun hlen hm => ?_⟩
  obtain ⟨base, m', hm⟩ := hm
  exact h.bumped.room hlen hm

theorem WindowRun.round (len : ℕ) (h : WindowRun m live) (hr : m.Room 0 len) : ∃ m', WindowRun m' live ∧
    m'.vaNext = windowBase (pageAlign len) m.vaNext + pageAlign len := by
  obtain ⟨m', hm⟩ := h.bumped.maps hr true
  obtain ⟨y, hplace, -, hnext, -, -⟩ := kernelMap_vaNext hm.run
  rw [h.bumped.windowPlace_room hr] at hplace
  obtain rfl := Option.some.inj hplace
  have hbelow := (h.bumped.placed hr).below
  rw [Nat.mod_eq_of_lt (by omega)] at hnext
  have hrun := (h.map hr hm.run).unmap List.mem_cons_self
  rw [List.erase_cons_head] at hrun
  exact ⟨_, hrun, hnext⟩

end Runs

def bootedMachine : Machine where
  kernel := .boot fun _ => 0
  phys _ := 0
  vaNext := 0xff014000
  vaMin := 0xff000000
  vaMax := 0xff000000 + 15 * 2 ^ 20
  kernelL1 := 0x61000
  kernelL2 := 0x65000

theorem bootedMachine_booted : Booted bootedMachine :=
  ⟨rfl, rfl, ⟨0, rfl, rfl⟩, by decide⟩

theorem kernel_mapping_window_boot : ∃ base m', MapsAt bootedMachine 0x60010000 0x4000 true
    [(bootedMachine.vaMin, bootedMachine.vaNext - bootedMachine.vaMin)] base m' :=
  (kernel_mapping_window (.start bootedMachine_booted) 0x60010000 0x4000 true).1
    ⟨by decide, by decide, by decide, by decide⟩

theorem kernelMap_none {m : Machine} {pa len : ℕ} {cache : Bool}
    (h : windowPlace m.vaMax (pageAlign len) m.vaNext = none) : kernelMap pa len cache m = .panic := by
  unfold kernelMap
  simp only
  rw [h]

theorem kernel_mapping_exhausted : ∃ m, WindowRun m [(0xff000000, 0x14000)] ∧
    kernelMap 0x60100000 0xff000 true m = .panic := by
  have hsize : pageAlign 0xff000 = 0xff000 := by decide
  have hrounds : ∀ n ≤ 13, ∃ m, WindowRun m [(0xff000000, 0x14000)] ∧
      m.vaNext = 0xff1ff000 + n * 0x100000 := by
    intro n hn
    induction n with
    | zero =>
      obtain ⟨m, hrun, hnext⟩ := WindowRun.round 0xff000 (.start bootedMachine_booted)
        ⟨by decide, by decide, by decide, by decide⟩
      have hbase : windowBase (pageAlign 0xff000) bootedMachine.vaNext = 0xff100000 := by decide
      rw [hbase, hsize] at hnext
      exact ⟨m, hrun, by omega⟩
    | succ n ih =>
      obtain ⟨m, hrun, hnext⟩ := ih (by omega)
      have hmax := hrun.bumped.vaMax
      have hbase : windowBase (pageAlign 0xff000) m.vaNext = 0xff200000 + n * 0x100000 := by
        unfold windowBase
        rw [hsize, hnext, if_neg (by omega)]
        omega
      obtain ⟨m', hrun', hnext'⟩ := hrun.round 0xff000
        ⟨by decide, by decide, by decide, by rw [hbase, hsize, hmax]; omega⟩
      refine ⟨m', hrun', ?_⟩
      rw [hnext', hbase, hsize]
      omega
  obtain ⟨m, hrun, hnext⟩ := hrounds 13 le_rfl
  refine ⟨m, hrun, kernelMap_none ?_⟩
  rw [hrun.bumped.vaMax, hnext, hsize]
  exact if_pos (by omega)

end Agatha.Sys
