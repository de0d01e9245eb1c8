import Agatha.Sys.Calls

namespace Agatha.Sys

open Kernel Library Library.Bytes

def Machine.InWindow (m : Machine) (x : ℕ) : Prop :=
  m.kernelL2 ≤ x ∧ x < m.kernelL2 + 4096 * m.tableCount

structure Beside (m m' : Machine) : Prop where
  kernel : m'.kernel = m.kernel
  vaMin : m'.vaMin = m.vaMin
  vaMax : m'.vaMax = m.vaMax
  l1 : m'.kernelL1 = m.kernelL1
  l2 : m'.kernelL2 = m.kernelL2
  aligned : m.vaNext % 4096 = 0 → m'.vaNext % 4096 = 0
  phys : ∀ x, ¬ m.InWindow x → m'.phys x = m.phys x

structure Held (m : Machine) (va len : ℕ) : Prop where
  low : l1x m.vaMin ≤ l1x va
  high : l1x va < l1x m.vaMin + m.tableCount
  page : l2x va + pageCount len ≤ 1024

section Window

variable {m m' m'' : Machine} {va len pa x n l2 ap : ℕ} {cache : Bool} {phys : Bytes}

theorem Beside.refl : Beside m m := ⟨rfl, rfl, rfl, rfl, rfl, id, fun _ _ => rfl⟩

theorem Beside.inWindow (h : Beside m m') : m'.InWindow x ↔ m.InWindow x := by
  unfold Machine.InWindow Machine.tableCount
  rw [h.vaMin, h.vaMax, h.l2]

theorem Beside.trans (h : Beside m m') (h' : Beside m' m'') : Beside m m'' := by
  refine ⟨h'.kernel.trans h.kernel, h'.vaMin.trans h.vaMin, h'.vaMax.trans h.vaMax,
    h'.l1.trans h.l1, h'.l2.trans h.l2, fun hm => h'.aligned (h.aligned hm), fun x hx => ?_⟩
  rw [h'.phys x (mt h.inWindow.mp hx), h.phys x hx]

theorem Beside.get32 (h : Beside m m') (hx : ∀ i < 4, ¬ m.InWindow (x + i)) :
    m'.phys.get32 x = m.phys.get32 x := by
  apply get32_congr
  intro i h1 h2
  rw [h.phys]
  have hi := hx (i - x) (by omega)
  rwa [show x + (i - x) = i by omega] at hi

theorem Held.congr (h : Held m va len) (h1 : m'.vaMin = m.vaMin) (h2 : m'.vaMax = m.vaMax) :
    Held m' va len := by
  obtain ⟨low, high, page⟩ := h
  refine ⟨?_, ?_, page⟩
  · rw [h1]
    exact low
  · unfold Machine.tableCount at high ⊢
    rw [h1, h2]
    exact high

theorem mapPages_outside (hx : x < l2 + 4 * l2x va ∨ l2 + 4 * (l2x va + n) ≤ x) :
    mapPages l2 pa va ap cache n phys x = phys x := by
  induction n with
  | zero => rfl
  | succ n ih =>
    unfold mapPages
    rw [put32_outside x (by omega)]
    exact ih (by omega)

theorem unmapPages_outside (hx : x < l2 + 4 * l2x va ∨ l2 + 4 * (l2x va + n) ≤ x) :
    unmapPages l2 va n phys x = phys x := by
  induction n with
  | zero => rfl
  | succ n ih =>
    unfold unmapPages
    rw [put32_outside x (by omega)]
    exact ih (by omega)

theorem Held.inside (h : Held m va len) : m.kernelL2 ≤ m.windowTable va ∧
    m.windowTable va + 4 * (l2x va + pageCount len) ≤ m.kernelL2 + 4096 * m.tableCount := by
  obtain ⟨low, high, page⟩ := h
  unfold Machine.windowTable
  omega

theorem kernelUnmap_beside (h : Held m va len) : Beside m (kernelUnmap va len m) := by
  refine ⟨rfl, rfl, rfl, rfl, rfl, id, fun x hx => ?_⟩
  have hin := h.inside
  unfold Machine.InWindow at hx
  apply unmapPages_outside
  omega

theorem pageCount_pageAlign (hlen : len + 4095 < 2 ^ 32) :
    pageCount (pageAlign len) = pageCount len := by
  unfold pageCount pageAlign
  omega

theorem l1x_within (h : x % 4096 = 0) : l1x (x + pa % 4096) = l1x x := by
  unfold l1x
  omega

theorem l2x_within (h : x % 4096 = 0) : l2x (x + pa % 4096) = l2x x := by
  unfold l2x
  omega

theorem l1x_lt : l1x va < 4096 := by
  unfold l1x
  omega

theorem l2x_lt : l2x va < 256 := by
  unfold l2x
  omega

def windowNext (vaMax len va : ℕ) : Option ℕ :=
  (windowPlace vaMax (pageAlign len) va).map fun va => (va + pageAlign len) % 2 ^ 32

theorem kernelMap_here (hal : m.vaNext % 4096 = 0) (h : kernelMap pa len cache m = .here va m') :
    Beside m m' ∧ (len + 4095 < 2 ^ 32 → Held m' va len) ∧
      windowNext m.vaMax len m.vaNext = some m'.vaNext := by
  unfold kernelMap at h
  simp only at h
  unfold windowNext
  cases hp : windowPlace m.vaMax (pageAlign len) m.vaNext with
  | none =>
    rw [hp] at h
    cases h
  | some y =>
    rw [hp] at h
    simp only at h
    split_ifs at h with hbad
    cases h
    obtain ⟨hlow, hhigh, hpage⟩ : l1x m.vaMin ≤ l1x y ∧ l1x y - l1x m.vaMin < m.tableCount ∧
        l2x y + pageCount (pageAlign len) ≤ 1024 := by omega
    have hy := windowPlace_aligned hp hal
    have hheld : Held m y (pageAlign len) := ⟨hlow, by omega, hpage⟩
    refine ⟨⟨rfl, rfl, rfl, rfl, rfl, fun _ => ?_, fun x hx => ?_⟩, fun hlen => ?_, rfl⟩
    · have hlen : pageAlign len % 4096 = 0 := pageAlign_dvd
      change (y + pageAlign len) % 2 ^ 32 % 4096 = 0
      omega
    · have hin := hheld.inside
      unfold Machine.InWindow at hx
      apply mapPages_outside
      omega
    · refine ⟨?_, ?_, ?_⟩
      · change l1x m.vaMin ≤ l1x (y + pa % 4096)
        rw [l1x_within hy]
        exact hlow
      · change l1x (y + pa % 4096) < l1x m.vaMin + m.tableCount
        rw [l1x_within hy]
        omega
      · rw [l2x_within hy, ← pageCount_pageAlign hlen]
        exact hpage

end Window

end Agatha.Sys
