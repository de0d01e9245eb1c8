import Mathlib.Data.List.TakeDrop
import Mathlib.Data.Nat.Notation
import Mathlib.Tactic.Common

namespace Agatha.Library.Ring

variable {α : Type} {N s e k n : ℕ} {buf : ℕ → α} {bs : List α}

def held (N s e : ℕ) : ℕ := if s ≤ e then e - s else e + N - s

def window (N : ℕ) (buf : ℕ → α) (s n : ℕ) : List α := (List.range n).map fun i => buf ((s + i) % N)

def contents (N : ℕ) (buf : ℕ → α) (s e : ℕ) : List α := window N buf s (held N s e)

def place (buf : ℕ → α) (e : ℕ) (bs : List α) (i : ℕ) : α :=
  if h : i - e < bs.length then if e ≤ i then bs[i - e] else buf i else buf i

theorem window_add : window N buf s (k + n) = window N buf s k ++ window N buf (s + k) n := by
  induction n with
  | zero => simp [window]
  | succ n ih =>
    simp only [window, ← Nat.add_assoc, List.range_succ, List.map_append] at ih ⊢
    rw [ih, List.append_assoc]
    simp only [List.map_cons, List.map_nil, Nat.add_assoc]

theorem window_mod : window N buf (s % N) n = window N buf s n := by
  simp only [window, Nat.mod_add_mod]

theorem place_of_lt {i : ℕ} (h : i < e) : place buf e bs i = buf i := by
  unfold place
  split_ifs <;> first | omega | rfl

theorem place_of_ge {i : ℕ} (h : e + bs.length ≤ i) : place buf e bs i = buf i := by
  unfold place
  split_ifs <;> first | omega | rfl

theorem place_add {i : ℕ} (h : i < bs.length) : place buf e bs (e + i) = bs[i] := by
  simp [place, h]

theorem window_place (h : e + bs.length ≤ N) : window N (place buf e bs) e bs.length = bs := by
  apply List.ext_getElem
  · simp [window]
  · intro i hi hi'
    simp only [window, List.getElem_map, List.getElem_range]
    rw [Nat.mod_eq_of_lt (by omega), place_add hi']

theorem held_eq_zero (hs : s < N) : held N s e = 0 ↔ s = e := by
  unfold held
  split_ifs <;> omega

theorem held_pop (he : e < N) (hk : s + k ≤ N) (h : k ≤ held N s e) : held N ((s + k) % N) e = held N s e - k := by
  obtain hlt | heq := Nat.lt_or_eq_of_le hk
  · rw [Nat.mod_eq_of_lt hlt]
    unfold held at *
    split_ifs at * <;> omega
  · rw [heq, Nat.mod_self]
    unfold held at *
    split_ifs at * <;> omega

theorem contents_pop (he : e < N) (hk : s + k ≤ N) (h : k ≤ held N s e) :
    contents N buf s e = window N buf s k ++ contents N buf ((s + k) % N) e := by
  unfold contents
  rw [held_pop he hk h, window_mod, ← window_add, Nat.add_sub_cancel' h]

section Moves

variable (hs : s < N) (he : e < N)

include hs he

theorem held_lt : held N s e < N := by
  unfold held
  split_ifs <;> omega

theorem add_held_mod : (s + held N s e) % N = e := by
  unfold held
  split_ifs with h
  · rw [Nat.mod_eq_of_lt] <;> omega
  · rw [show s + (e + N - s) = e + N by omega, Nat.add_mod_right, Nat.mod_eq_of_lt he]

theorem held_push (hk : e + k ≤ N) (h : held N s e + k < N) : held N s ((e + k) % N) = held N s e + k := by
  obtain hlt | heq := Nat.lt_or_eq_of_le hk
  · rw [Nat.mod_eq_of_lt hlt]
    unfold held at *
    split_ifs at * <;> omega
  · rw [heq, Nat.mod_self]
    unfold held at *
    split_ifs at * <;> omega

theorem contents_push (hk : e + bs.length ≤ N) (h : held N s e + bs.length < N) :
    contents N (place buf e bs) s ((e + bs.length) % N) = contents N buf s e ++ bs := by
  unfold contents
  rw [held_push hs he hk h, window_add]
  congr 1
  · apply List.map_congr_left
    intro i hi
    have hi : i < held N s e := List.mem_range.mp hi
    unfold held at hi h
    split_ifs at hi h with hse
    · rw [Nat.mod_eq_of_lt (by omega)]
      exact place_of_lt (by omega)
    · obtain hlt | hge := Nat.lt_or_ge (s + i) N
      · rw [Nat.mod_eq_of_lt hlt]
        exact place_of_ge (by omega)
      · rw [Nat.mod_eq_sub_mod hge, Nat.mod_eq_of_lt (by omega)]
        exact place_of_lt (by omega)
  · rw [← window_mod, add_held_mod hs he, window_place hk]

end Moves

theorem length_contents : (contents N buf s e).length = held N s e := by
  simp [contents, window]

end Agatha.Library.Ring
