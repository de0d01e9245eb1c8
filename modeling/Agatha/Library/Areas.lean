import Mathlib.Data.Set.Basic

namespace Agatha.Library.Areas

def Apart (a n b m : ℕ) : Prop := a + n ≤ b ∨ b + m ≤ a

structure Packed (L : Set ℕ) (len : ℕ → ℕ) (cover : Set ℕ) : Prop where
  apart : ∀ a ∈ L, ∀ b ∈ L, a ≠ b → Apart a (len a) b (len b)
  inside : ∀ a ∈ L, ∀ x, a ≤ x → x < a + len a → x ∈ cover

variable {L L' D N cover cover' : Set ℕ} {len len' : ℕ → ℕ} {a b n m s : ℕ}

theorem Apart.symm (h : Apart a n b m) : Apart b m a n := h.elim .inr .inl

theorem Apart.mono {p i q j : ℕ} (h : Apart a n b m) (h1 : a ≤ p) (h2 : p + i ≤ a + n) (h3 : b ≤ q)
    (h4 : q + j ≤ b + m) : Apart p i q j := by
  unfold Apart at *
  omega

theorem Packed.carve (h : Packed L len cover)
    (hL : ∀ a, a ∈ L' ↔ (a ∈ L ∧ a ∉ D) ∨ a ∈ N)
    (hout : ∀ a ∈ L, a ∉ D → Apart a (len a) s n) (hlen : ∀ a ∈ L, a ∉ D → len' a = len a)
    (hN : ∀ a ∈ N, s ≤ a ∧ a + len' a ≤ s + n)
    (hNN : ∀ a ∈ N, ∀ b ∈ N, a ≠ b → Apart a (len' a) b (len' b))
    (hcover : ∀ x ∈ cover, x ∈ cover') (hs : ∀ x, s ≤ x → x < s + n → x ∈ cover') :
    Packed L' len' cover' := by
  constructor
  · intro a ha b hb hab
    rcases (hL a).mp ha with ⟨ha, had⟩ | ha <;> rcases (hL b).mp hb with ⟨hb, hbd⟩ | hb
    · rw [hlen a ha had, hlen b hb hbd]
      exact h.apart a ha b hb hab
    · rw [hlen a ha had]
      exact (hout a ha had).mono (Nat.le_refl _) (Nat.le_refl _) (hN b hb).1 (hN b hb).2
    · rw [hlen b hb hbd]
      exact ((hout b hb hbd).mono (Nat.le_refl _) (Nat.le_refl _) (hN a ha).1 (hN a ha).2).symm
    · exact hNN a ha b hb hab
  · intro a ha x hax hx
    rcases (hL a).mp ha with ⟨ha, had⟩ | ha
    · rw [hlen a ha had] at hx
      exact hcover x (h.inside a ha x hax hx)
    · obtain ⟨h1, h2⟩ := hN a ha
      exact hs x (by omega) (by omega)

end Agatha.Library.Areas
