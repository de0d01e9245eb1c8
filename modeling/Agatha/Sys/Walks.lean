import Agatha.Library.Areas
import Agatha.Sys.Window

namespace Agatha.Sys

open Kernel Library Library.Bytes Library.Areas

def l1At (tpa va i : ℕ) : ℕ := tpa + 4 * l1x (va + 4096 * i)

def l1Entry (m : Machine) (tpa va i : ℕ) : ℕ := m.phys.get32 (l1At tpa va i)

def l2At (m : Machine) (tpa va i : ℕ) : ℕ := l1pa (l1Entry m tpa va i) + 4 * l2x (va + 4096 * i)

def l2Entry (m : Machine) (tpa va i : ℕ) : ℕ := m.phys.get32 (l2At m tpa va i)

def Room (vaMax : ℕ) : List ℕ → ℕ → Prop
  | [], _ => True
  | len :: lens, va => ∃ va', windowNext vaMax len va = some va' ∧ Room vaMax lens va'

def openings (va : ℕ) : ℕ → ℕ → Option ℕ → List ℕ
  | 0, _, _ => []
  | n + 1, i, x =>
    if x = some (l1x (va + 4096 * i)) then openings va n (i + 1) x
    else 4096 :: openings va n (i + 1) (some (l1x (va + 4096 * i)))

structure Laid (m : Machine) (tpa va len n : ℕ) : Prop where
  short : len + 4095 < 2 ^ 32
  count : n ≤ pageCount len
  l1 : ∀ i < n, ∀ b < 4, ¬ m.InWindow (l1At tpa va i + b)
  l2 : ∀ i < n, ∀ b < 4, ¬ m.InWindow (l2At m tpa va i + b)
  apart : ∀ i j, i < j → j < n → Apart (l2At m tpa va i) 4 (l1At tpa va j) 4 ∧
    Apart (l2At m tpa va i) 4 (l2At m tpa va j) 4

/-- A walk over `n` pages that has come to page `i` and holds the table `x`: what it will read is as before the
call, and the window has room for the tables to come. -/
structure Walk (m₀ : Machine) (tpa va n i : ℕ) (x : Option ℕ) (m : Machine) : Prop where
  vaMin : m.vaMin = m₀.vaMin
  vaMax : m.vaMax = m₀.vaMax
  kernelL2 : m.kernelL2 = m₀.kernelL2
  aligned : m.vaNext % 4096 = 0
  room : Room m.vaMax (openings va (n - i) i x) m.vaNext
  l1 : ∀ j, i ≤ j → j < n → m.phys.get32 (l1At tpa va j) = l1Entry m₀ tpa va j
  l2 : ∀ j, i ≤ j → j < n → m.phys.get32 (l2At m₀ tpa va j) = l2Entry m₀ tpa va j

structure Holds (m₀ : Machine) (tpa : ℕ) (t : OpenTable) (m : Machine) : Prop where
  pa : t.pa = l1pa (m₀.phys.get32 (tpa + 4 * t.x))
  held : Held m t.va 4096

section Walks

variable {m₀ m m' : Machine} {tpa va len n i : ℕ} {x : Option ℕ} {t : OpenTable} {l2 : Option OpenTable}

theorem Walk.window {y : ℕ} (h : Walk m₀ tpa va n i x m) : m.InWindow y ↔ m₀.InWindow y := by
  unfold Machine.InWindow Machine.tableCount
  rw [h.vaMin, h.vaMax, h.kernelL2]

theorem Walk.beside (h : Walk m₀ tpa va n i x m) (hl : Laid m₀ tpa va len n) (hb : Beside m m')
    {y : Option ℕ} (hroom : Room m'.vaMax (openings va (n - i) i y) m'.vaNext) :
    Walk m₀ tpa va n i y m' := by
  refine ⟨hb.vaMin.trans h.vaMin, hb.vaMax.trans h.vaMax, hb.l2.trans h.kernelL2,
    hb.aligned h.aligned, hroom, fun j hij hj => ?_, fun j hij hj => ?_⟩
  · rw [hb.get32 fun b hb' => mt h.window.mp (hl.l1 j hj b hb')]
    exact h.l1 j hij hj
  · rw [hb.get32 fun b hb' => mt h.window.mp (hl.l2 j hj b hb')]
    exact h.l2 j hij hj

theorem openings_step (hi : i < n) :
    openings va (n - i) i x = if x = some (l1x (va + 4096 * i)) then openings va (n - (i + 1)) (i + 1) x
      else 4096 :: openings va (n - (i + 1)) (i + 1) (some (l1x (va + 4096 * i))) := by
  have hn : n - i = (n - (i + 1)) + 1 := by omega
  rw [hn]
  rfl

theorem Walk.letGo (h : Walk m₀ tpa va n i x m) (hl : Laid m₀ tpa va len n)
    (ht : ∀ t, l2 = some t → Holds m₀ tpa t m) : Walk m₀ tpa va n i x (letGo l2 m) := by
  cases l2 with
  | none => exact h
  | some t => exact h.beside hl (kernelUnmap_beside (ht t rfl).held) h.room

theorem Walk.write {v : ℕ} (h : Walk m₀ tpa va n i (some t.x) m) (hl : Laid m₀ tpa va len n)
    (hi : i < n) (hx : t.x = l1x (va + 4096 * i)) :
    Walk m₀ tpa va n (i + 1) (some t.x)
      { m with phys := m.phys.put32 (l2At m₀ tpa va i) v } := by
  refine ⟨h.vaMin, h.vaMax, h.kernelL2, h.aligned, ?_, fun j hij hj => ?_, fun j hij hj => ?_⟩
  · have hroom := h.room
    rw [openings_step hi, if_pos (congrArg some hx)] at hroom
    exact hroom
  · have hap := (hl.apart i j (by omega) hj).1
    unfold Apart at hap
    change (m.phys.put32 _ v).get32 _ = _
    rw [get32_put32_ne (by omega)]
    exact h.l1 j (by omega) hj
  · have hap := (hl.apart i j (by omega) hj).2
    unfold Apart at hap
    change (m.phys.put32 _ v).get32 _ = _
    rw [get32_put32_ne (by omega)]
    exact h.l2 j (by omega) hj

theorem Holds.write {v a : ℕ} (ht : Holds m₀ tpa t m) :
    Holds m₀ tpa t { m with phys := m.phys.put32 a v } := ⟨ht.pa, ht.held.congr rfl rfl⟩

theorem page_next (hshort : len + 4095 < 2 ^ 32) (hi : i < pageCount len) :
    (4096 * i + 4096) % 2 ^ 32 = 4096 * (i + 1) := by
  unfold pageCount at hi
  omega

theorem page_iff : len ≤ 4096 * i ↔ ¬ i < pageCount len := by
  unfold pageCount
  omega

def firstPa (m : Machine) (tpa va : ℕ) : ℕ → ℕ
  | 0 => 0
  | i + 1 => if firstPa m tpa va i = 0 then l2pa (l2Entry m tpa va i) else firstPa m tpa va i

/-- The walk of `sys_frame_unmap` goes on past page `i`. -/
def Continuous (m : Machine) (tpa va i : ℕ) : Prop :=
  firstPa m tpa va i = 0 ∨ l2pa (l2Entry m tpa va i) = (firstPa m tpa va i + 4096 * i) % 2 ^ 32

theorem l2Entry_congr (h : m'.phys = m.phys) : l2Entry m' tpa va i = l2Entry m tpa va i := by
  unfold l2Entry l2At l1Entry
  rw [h]

theorem continuous_congr (h : m'.phys = m.phys) : Continuous m' tpa va i ↔ Continuous m tpa va i := by
  have hfirst : firstPa m' tpa va i = firstPa m tpa va i := by
    induction i with
    | zero => rfl
    | succ i ih =>
      unfold firstPa
      rw [ih, l2Entry_congr h]
  unfold Continuous
  rw [hfirst, l2Entry_congr h]

end Walks

end Agatha.Sys
