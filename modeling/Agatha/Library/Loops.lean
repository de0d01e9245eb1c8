import Mathlib.Data.Nat.Find

namespace Agatha.Library.Loops

variable {σ β : Type*}

def loop (stop : ℕ → σ → Option β) (step : ℕ → σ → σ) : ℕ → ℕ → σ → Option (β × ℕ × σ)
  | 0, _, _ => none
  | fuel + 1, i, s =>
    match stop i s with
    | some b => some (b, i, s)
    | none => loop stop step fuel (i + 1) (step i s)

def after (step : ℕ → σ → σ) (s : σ) : ℕ → σ
  | 0 => s
  | n + 1 => step n (after step s n)

def Ends (stop : ℕ → σ → Option β) (step : ℕ → σ → σ) (s : σ) (n : ℕ) (b : β) : Prop :=
  stop n (after step s n) = some b ∧ ∀ m < n, stop m (after step s m) = none

variable {stop : ℕ → σ → Option β} {step : ℕ → σ → σ} {s : σ} {b b' : β} {n n' i fuel : ℕ}

@[simp] theorem after_zero : after step s 0 = s := rfl

theorem after_succ : after step s (n + 1) = step n (after step s n) := rfl

theorem Ends.unique (h : Ends stop step s n b) (h' : Ends stop step s n' b') : n = n' ∧ b = b' := by
  have hn : n = n' := by
    by_contra hne
    rcases Nat.lt_or_gt_of_ne hne with hlt | hlt
    · exact absurd (h.1.symm.trans (h'.2 n hlt)) (by simp)
    · exact absurd (h'.1.symm.trans (h.2 n' hlt)) (by simp)
  subst hn
  exact ⟨rfl, Option.some.inj (h.1.symm.trans h'.1)⟩

theorem loop_after (h : ∀ m < i, stop m (after step s m) = none) {r : β × ℕ × σ}
    (hr : loop stop step fuel i (after step s i) = some r) :
    Ends stop step s r.2.1 r.1 ∧ r.2.2 = after step s r.2.1 := by
  induction fuel generalizing i with
  | zero => cases hr
  | succ fuel ih =>
    unfold loop at hr
    cases hstop : stop i (after step s i) with
    | some b =>
      rw [hstop] at hr
      cases hr
      exact ⟨⟨hstop, h⟩, rfl⟩
    | none =>
      rw [hstop] at hr
      refine ih (fun m hm => ?_) hr
      rcases Nat.lt_succ_iff_lt_or_eq.mp hm with hm | rfl
      · exact h m hm
      · exact hstop

theorem loop_of_ends (h : Ends stop step s n b) (hi : i ≤ n) :
    loop stop step (n + 1 - i) i (after step s i) = some (b, n, after step s n) := by
  obtain ⟨k, rfl⟩ := Nat.exists_eq_add_of_le hi
  clear hi
  induction k generalizing i with
  | zero =>
    rw [Nat.add_zero, Nat.add_sub_cancel_left]
    unfold loop
    rw [show stop i (after step s i) = some b from h.1]
    rfl
  | succ k ih =>
    rw [show i + (k + 1) + 1 - i = k + 1 + 1 by omega]
    unfold loop
    rw [h.2 i (by omega)]
    have hnext := ih (i := i + 1) (by rwa [Nat.add_right_comm])
    rw [show i + 1 + k + 1 - (i + 1) = k + 1 by omega, Nat.add_right_comm] at hnext
    exact hnext

theorem Ends.loop (h : Ends stop step s n b) :
    Loops.loop stop step (n + 1) 0 s = some (b, n, after step s n) := loop_of_ends h (Nat.zero_le n)

theorem loop_iff {r : β × ℕ × σ} : (∃ fuel, loop stop step fuel 0 s = some r) ↔
    Ends stop step s r.2.1 r.1 ∧ r.2.2 = after step s r.2.1 := by
  constructor
  · rintro ⟨fuel, hr⟩
    exact loop_after (fun m hm => absurd hm (Nat.not_lt_zero m)) hr
  · rintro ⟨h, hs⟩
    refine ⟨r.2.1 + 1, ?_⟩
    have hrun := h.loop
    rw [← hs] at hrun
    exact hrun

theorem loop_mono {fuel' : ℕ} {r : β × ℕ × σ} (hr : loop stop step fuel i s = some r) (h : fuel ≤ fuel') :
    loop stop step fuel' i s = some r := by
  induction fuel generalizing fuel' i s with
  | zero => cases hr
  | succ fuel ih =>
    obtain ⟨k, rfl⟩ : ∃ k, fuel' = k + 1 := ⟨fuel' - 1, by omega⟩
    unfold loop at hr ⊢
    cases hstop : stop i s with
    | some b =>
      rw [hstop] at hr
      exact hr
    | none =>
      rw [hstop] at hr
      exact ih hr (by omega)

theorem exists_ends (h : (stop n (after step s n)).isSome) : ∃ m ≤ n, ∃ b, Ends stop step s m b := by
  have hex : ∃ m, (stop m (after step s m)).isSome := ⟨n, h⟩
  classical
  obtain ⟨b, hb⟩ := Option.isSome_iff_exists.mp (Nat.find_spec hex)
  refine ⟨Nat.find hex, Nat.find_min' hex h, b, hb, fun m hm => ?_⟩
  exact Option.not_isSome_iff_eq_none.mp (Nat.find_min hex hm)

theorem ends_within_iff {bound : ℕ} : (∃ n ≤ bound, ∃ b, Ends stop step s n b) ↔
    ∃ n ≤ bound, (stop n (after step s n)).isSome := by
  constructor
  · rintro ⟨n, hn, b, h, -⟩
    exact ⟨n, hn, h ▸ rfl⟩
  · rintro ⟨n, hn, h⟩
    obtain ⟨m, hm, b, hends⟩ := exists_ends h
    exact ⟨m, Nat.le_trans hm hn, b, hends⟩

theorem within_iff {bound : ℕ} : (∃ fuel r, loop stop step fuel 0 s = some r ∧ r.2.1 ≤ bound) ↔
    ∃ n ≤ bound, (stop n (after step s n)).isSome := by
  rw [← ends_within_iff]
  constructor
  · rintro ⟨fuel, r, hr, hle⟩
    exact ⟨r.2.1, hle, r.1, (loop_iff.mp ⟨fuel, hr⟩).1⟩
  · rintro ⟨n, hn, b, h⟩
    exact ⟨n + 1, _, h.loop, hn⟩

theorem within_map_iff {γ : Type*} {bound : ℕ} (f : β × ℕ × σ → γ) (count : γ → ℕ)
    (hf : ∀ r, count (f r) = r.2.1) :
    (∃ fuel c, (loop stop step fuel 0 s).map f = some c ∧ count c ≤ bound) ↔
      ∃ n ≤ bound, (stop n (after step s n)).isSome := by
  rw [← within_iff]
  constructor
  · rintro ⟨fuel, c, hc, hle⟩
    obtain ⟨r, hr, rfl⟩ := Option.map_eq_some_iff.mp hc
    exact ⟨fuel, r, hr, hf r ▸ hle⟩
  · rintro ⟨fuel, r, hr, hle⟩
    exact ⟨fuel, f r, by rw [hr, Option.map_some], (hf r).symm ▸ hle⟩

end Agatha.Library.Loops
