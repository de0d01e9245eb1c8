import Mathlib.Algebra.GroupWithZero.Nat
import Mathlib.Data.Nat.Basic

namespace Agatha.Library

theorem neZero_two : NeZero 2 := ⟨by decide⟩

attribute [local instance] neZero_two

def turn (n : ℕ) : Fin 2 := Fin.ofNat 2 n

def newest (m : ℕ) : Option ℕ → Option ℕ → Option (Fin 2)
  | some a, some b => if a = (b + 1) % m then some 0 else if b = (a + 1) % m then some 1 else none
  | some _, none => some 0
  | none, some _ => some 1
  | none, none => none

structure Alternating (m : ℕ) (slot : Fin 2 → Option ℕ) (last : ℕ) : Prop where
  lt : last < m
  current : slot (turn last) = some last
  older : ∀ n, slot (turn (last + 1)) = some n → n < m ∧ (n + 1) % m = last

section Turns

variable {m n last : ℕ} {slot slot' : Fin 2 → Option ℕ}

theorem turn_val : (turn n).val = n % 2 := rfl

theorem turn_mod (hm : 2 ∣ m) : turn (n % m) = turn n := by
  apply Fin.ext
  rw [turn_val, turn_val]
  exact Nat.mod_mod_of_dvd n hm

theorem turn_add_two : turn (n + 2) = turn n := by
  apply Fin.ext
  rw [turn_val, turn_val]
  omega

theorem turn_ne : turn n ≠ turn (n + 1) := by
  intro h
  have hval := congrArg Fin.val h
  rw [turn_val, turn_val] at hval
  omega

theorem Alternating.first (hm : 2 ≤ m) (h0 : slot 0 = some 0) (h1 : slot 1 = none) :
    Alternating m slot 0 := by
  refine ⟨by omega, h0, ?_⟩
  intro n hn
  have hnone : slot (turn (0 + 1)) = none := h1
  rw [hnone] at hn
  cases hn

theorem Alternating.write (h : Alternating m slot last) (hm : 2 ∣ m)
    (hnew : slot' (turn (last + 1)) = some ((last + 1) % m))
    (hother : slot' (turn last) = slot (turn last)) : Alternating m slot' ((last + 1) % m) := by
  have hpos : 0 < m := Nat.lt_of_le_of_lt (Nat.zero_le last) h.lt
  refine ⟨Nat.mod_lt _ hpos, ?_, ?_⟩
  · rw [turn_mod hm]
    exact hnew
  · intro n hn
    have hturn : turn ((last + 1) % m + 1) = turn last := by
      rw [← turn_mod hm, Nat.mod_add_mod, turn_mod hm, turn_add_two]
    rw [hturn, hother, h.current] at hn
    cases hn
    exact ⟨h.lt, rfl⟩

theorem Alternating.cut (h : Alternating m slot last)
    (hcut : slot' (turn (last + 1)) = slot (turn (last + 1)) ∨ slot' (turn (last + 1)) = none)
    (hother : slot' (turn last) = slot (turn last)) : Alternating m slot' last := by
  refine ⟨h.lt, hother.trans h.current, ?_⟩
  intro n hn
  rcases hcut with hsame | hnone
  · exact h.older n (hsame ▸ hn)
  · rw [hnone] at hn
    cases hn

theorem Alternating.newest_eq (h : Alternating m slot last) (hm : 2 < m) :
    newest m (slot 0) (slot 1) = some (turn last) := by
  have hlt := h.lt
  -- which of the two is the older one
  rcases Nat.mod_two_eq_zero_or_one last with hpar | hpar
  · have hcur : turn last = 0 := Fin.ext hpar
    have hold : turn (last + 1) = 1 := Fin.ext (by rw [turn_val]; exact (by omega : (last + 1) % 2 = 1))
    have hcurrent := h.current
    have holder := h.older
    rw [hcur] at hcurrent ⊢
    rw [hold] at holder
    rw [hcurrent]
    cases hs : slot 1 with
    | none => rfl
    | some n => exact if_pos (holder n hs).2.symm
  · have hcur : turn last = 1 := Fin.ext hpar
    have hold : turn (last + 1) = 0 := Fin.ext (by rw [turn_val]; exact (by omega : (last + 1) % 2 = 0))
    have hcurrent := h.current
    have holder := h.older
    rw [hcur] at hcurrent ⊢
    rw [hold] at holder
    rw [hcurrent]
    cases hs : slot 0 with
    | none => rfl
    | some n =>
      obtain ⟨hn, hsucc⟩ := holder n hs
      have hne : n ≠ (last + 1) % m := by
        rcases Nat.lt_or_ge (n + 1) m with hnm | hnm
        · rw [Nat.mod_eq_of_lt hnm] at hsucc
          rcases Nat.lt_or_ge (last + 1) m with hlm | hlm
          · rw [Nat.mod_eq_of_lt hlm]
            omega
          · rw [show last + 1 = m by omega, Nat.mod_self]
            omega
        · rw [show n + 1 = m by omega, Nat.mod_self] at hsucc
          rw [← hsucc, Nat.mod_eq_of_lt (by omega)]
          omega
      have hif : newest m (some n) (some last) = _ := if_neg hne
      rw [hif]
      exact if_pos hsucc.symm

end Turns

end Agatha.Library
