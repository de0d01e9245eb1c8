import Mathlib.Data.Nat.ModEq
import Mathlib.Algebra.BigOperators.Group.List.Basic
import Mathlib.Algebra.Order.BigOperators.Group.List

namespace Agatha.Library.OnesComplement

def add (m a b : ℕ) : ℕ := if a + b > m then a + b - m else a + b

def sum (m : ℕ) (ws : List ℕ) : ℕ := ws.foldl (add m) 0

variable {m a b w : ℕ} {ws : List ℕ}

theorem add_modEq : add m a b ≡ a + b [MOD m] := by
  unfold add
  split_ifs with h
  · have hback : a + b - m + m ≡ a + b [MOD m] := by rw [Nat.sub_add_cancel (Nat.le_of_lt h)]
    exact Nat.add_modEq_right.symm.trans hback
  · rfl

theorem add_le (ha : a ≤ m) (hb : b ≤ m) : add m a b ≤ m := by
  unfold add
  split_ifs <;> omega

theorem add_eq_zero : add m a b = 0 ↔ a = 0 ∧ b = 0 := by
  unfold add
  split_ifs <;> omega

theorem foldl_modEq : ws.foldl (add m) a ≡ a + ws.sum [MOD m] := by
  induction ws generalizing a with
  | nil => rfl
  | cons w ws ih =>
    rw [List.foldl_cons, List.sum_cons, ← Nat.add_assoc]
    exact ih.trans (add_modEq.add_right _)

theorem foldl_le (ha : a ≤ m) (hw : ∀ w ∈ ws, w ≤ m) : ws.foldl (add m) a ≤ m := by
  induction ws generalizing a with
  | nil => exact ha
  | cons w ws ih =>
    exact ih (add_le ha (hw w List.mem_cons_self)) fun v hv => hw v (List.mem_cons_of_mem _ hv)

theorem foldl_eq_zero : ws.foldl (add m) a = 0 ↔ a + ws.sum = 0 := by
  induction ws generalizing a with
  | nil => rfl
  | cons w ws ih =>
    rw [List.foldl_cons, ih, List.sum_cons, Nat.add_eq_zero_iff, add_eq_zero]
    omega

theorem sum_eq_ones (hm : 0 < m) (hw : ∀ w ∈ ws, w ≤ m) : sum m ws = m ↔ m ∣ ws.sum ∧ 0 < ws.sum := by
  have hle : sum m ws ≤ m := foldl_le (Nat.zero_le m) hw
  have hmod : sum m ws ≡ ws.sum [MOD m] := by
    rw [← Nat.zero_add ws.sum]
    exact foldl_modEq
  have hzero : sum m ws = 0 ↔ ws.sum = 0 := by
    rw [← Nat.zero_add ws.sum]
    exact foldl_eq_zero
  constructor
  · intro h
    rw [h] at hmod hzero
    exact ⟨(Nat.modEq_zero_iff_dvd.mp (hmod.symm.trans (Nat.modEq_zero_iff_dvd.mpr dvd_rfl))), by omega⟩
  · rintro ⟨hdvd, hpos⟩
    have hd : m ∣ sum m ws := (hmod.dvd_iff dvd_rfl).mpr hdvd
    exact Nat.le_antisymm hle (Nat.le_of_dvd (by omega) hd)

end Agatha.Library.OnesComplement
