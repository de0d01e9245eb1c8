import Mathlib.Data.List.Induction

namespace Agatha.Library.SignalWord

variable {w : ℕ}

inductive Move (w : ℕ)
  | raise (s : BitVec w)
  | take (s : BitVec w)

def Move.apply (x : BitVec w) : Move w → BitVec w
  | .raise s => x ||| s
  | .take _ => 0

def pending (l : List (Move w)) : BitVec w := l.foldl Move.apply 0

def Exact (l : List (Move w)) : Prop := ∀ l₁ s l₂, l = l₁ ++ .take s :: l₂ → s = pending l₁

variable {l l₁ l₂ : List (Move w)} {m : Move w} {s : BitVec w} {i : ℕ}

@[simp] theorem pending_nil : pending ([] : List (Move w)) = 0 := rfl

@[simp] theorem pending_concat : pending (l ++ [m]) = m.apply (pending l) := by
  simp [pending]

theorem Exact.nil : Exact ([] : List (Move w)) := by
  intro l₁ s l₂ h
  simp at h

theorem Exact.concat (h : Exact l) (hm : ∀ s, m = .take s → s = pending l) :
    Exact (l ++ [m]) := by
  intro l₁ s l₂ he
  rcases List.eq_nil_or_concat l₂ with rfl | ⟨l₃, m', rfl⟩
  · obtain ⟨rfl, hms⟩ := List.append_inj' he rfl
    exact hm s (List.singleton_inj.mp hms)
  · have he' : l ++ [m] = (l₁ ++ .take s :: l₃) ++ [m'] := by
      rw [he, List.concat_eq_append]
      simp
    obtain ⟨rfl, -⟩ := List.append_inj' he' rfl
    exact h l₁ s l₃ rfl

theorem raised_bit (h : Exact (l₁ ++ .raise s :: l₂)) (hi : s.getLsbD i = true) :
    (pending (l₁ ++ .raise s :: l₂)).getLsbD i = true ∨
      ∃ t, Move.take t ∈ l₂ ∧ t.getLsbD i = true := by
  induction l₂ using List.reverseRecOn with
  | nil =>
    left
    rw [pending_concat]
    simp [Move.apply, hi]
  | append_singleton l₂ m ih =>
    have hcons : l₁ ++ .raise s :: (l₂ ++ [m]) = (l₁ ++ .raise s :: l₂) ++ [m] := by simp
    rw [hcons] at h ⊢
    have hl : Exact (l₁ ++ .raise s :: l₂) := fun a t b he => h a t (b ++ [m]) (by rw [he]; simp)
    rcases ih hl with hp | ⟨t, ht, hti⟩
    · cases m with
      | raise s' =>
        left
        rw [pending_concat]
        simp [Move.apply, hp]
      | take t =>
        refine .inr ⟨t, by simp, ?_⟩
        rw [h (l₁ ++ .raise s :: l₂) t [] rfl]
        exact hp
    · exact .inr ⟨t, List.mem_append_left _ ht, hti⟩

theorem pending_bit (hi : (pending l).getLsbD i = true) :
    ∃ l₁ s l₂, l = l₁ ++ .raise s :: l₂ ∧ s.getLsbD i = true ∧ ∀ t, Move.take t ∉ l₂ := by
  induction l using List.reverseRecOn with
  | nil => simp at hi
  | append_singleton l m ih =>
    rw [pending_concat] at hi
    cases m with
    | take t => simp [Move.apply] at hi
    | raise s =>
      simp only [Move.apply, BitVec.getLsbD_or, Bool.or_eq_true] at hi
      rcases hi with hi | hi
      · obtain ⟨l₁, s', l₂, rfl, hs', hl₂⟩ := ih hi
        refine ⟨l₁, s', l₂ ++ [.raise s], by simp, hs', fun t ht => ?_⟩
        rcases List.mem_append.mp ht with ht | ht
        · exact hl₂ t ht
        · simp at ht
      · exact ⟨l, s, [], rfl, hi, fun t ht => by simp at ht⟩

end Agatha.Library.SignalWord
