import Mathlib.Data.List.Perm.Basic
import Mathlib.Data.List.Pairwise
import Agatha.Library.Areas

namespace Agatha.Library.Cutting

open Areas

structure Area where
  start : ℕ
  len : ℕ
  deriving DecidableEq

def Area.Disjoint (x y : Area) : Prop := Apart x.start x.len y.start y.len

def Area.Has (a : Area) (x : ℕ) : Prop := a.start ≤ x ∧ x < a.start + a.len

def Covers (l : List Area) (x : ℕ) : Prop := ∃ a ∈ l, a.Has x

structure Tidy (l : List Area) : Prop where
  disjoint : l.Pairwise Area.Disjoint
  pos : ∀ a ∈ l, 0 < a.len

structure Recut (l l' : List Area) : Prop where
  tidy : ∀ r, Tidy (l ++ r) → Tidy (l' ++ r)
  covers : ∀ x, Covers l' x ↔ Covers l x

variable {l l' l'' r : List Area} {a n m : ℕ} {x y : Area}

theorem Area.Disjoint.symm (h : x.Disjoint y) : y.Disjoint x := Apart.symm h

theorem Tidy.perm (h : Tidy l) (hp : l.Perm l') : Tidy l' :=
  ⟨(hp.pairwise_iff Area.Disjoint.symm).mp h.disjoint, fun a ha => h.pos a (hp.mem_iff.mpr ha)⟩

theorem Recut.refl : Recut l l := ⟨fun _ => id, fun _ => Iff.rfl⟩

theorem Recut.trans (h : Recut l l') (h' : Recut l' l'') : Recut l l'' :=
  ⟨fun r ht => h'.tidy r (h.tidy r ht), fun x => (h'.covers x).trans (h.covers x)⟩

theorem Recut.of_perm (h : l.Perm l') : Recut l l' := by
  refine ⟨fun r ht => ht.perm (h.append_right r), fun x => ?_⟩
  unfold Covers
  constructor
  · exact fun ⟨a, ha, hx⟩ => ⟨a, h.mem_iff.mpr ha, hx⟩
  · exact fun ⟨a, ha, hx⟩ => ⟨a, h.mem_iff.mp ha, hx⟩

theorem covers_append {x : ℕ} : Covers (l ++ r) x ↔ Covers l x ∨ Covers r x := by
  unfold Covers
  simp only [List.mem_append, or_and_right, exists_or]

theorem Recut.append (h : Recut l l') : Recut (l ++ r) (l' ++ r) := by
  refine ⟨fun s ht => ?_, fun x => ?_⟩
  · rw [List.append_assoc] at ht ⊢
    exact h.tidy _ ht
  · rw [covers_append, covers_append, h.covers x]

theorem Recut.cons (h : Recut l l') : Recut (x :: l) (x :: l') := by
  have hleft : (x :: l).Perm (l ++ [x]) := (List.perm_append_singleton x l).symm
  exact (Recut.of_perm hleft).trans (h.append.trans (Recut.of_perm (List.perm_append_singleton x l')))

theorem tidy_cons : Tidy (x :: l) ↔ 0 < x.len ∧ (∀ y ∈ l, x.Disjoint y) ∧ Tidy l := by
  constructor
  · intro h
    obtain ⟨hx, hl⟩ := List.pairwise_cons.mp h.disjoint
    exact ⟨h.pos x List.mem_cons_self, hx, hl, fun a ha => h.pos a (List.mem_cons_of_mem _ ha)⟩
  · rintro ⟨hx, hd, hl⟩
    refine ⟨List.pairwise_cons.mpr ⟨hd, hl.disjoint⟩, fun a ha => ?_⟩
    rcases List.mem_cons.mp ha with rfl | ha
    · exact hx
    · exact hl.pos a ha

theorem covers_cons {x : ℕ} {y : Area} : Covers (y :: l) x ↔ y.Has x ∨ Covers l x := by
  unfold Covers
  simp only [List.mem_cons, exists_eq_or_imp]

theorem Recut.join : Recut (⟨a, n⟩ :: ⟨a + n, m⟩ :: l) (⟨a, n + m⟩ :: l) := by
  refine ⟨fun r ht => ?_, fun x => ?_⟩
  · obtain ⟨hn, hdn, ht⟩ := tidy_cons.mp ht
    obtain ⟨hm, hdm, ht⟩ := tidy_cons.mp ht
    refine tidy_cons.mpr ⟨Nat.add_pos_left hn m, fun y hy => ?_, ht⟩
    have h1 := hdn y (List.mem_cons_of_mem _ hy)
    have h2 := hdm y hy
    have hpos := ht.pos y hy
    unfold Area.Disjoint Apart at *
    dsimp only at *
    omega
  · rw [covers_cons, covers_cons, covers_cons, ← or_assoc]
    apply or_congr_left
    unfold Area.Has
    dsimp only
    omega

theorem Recut.split (hn : 0 < n) (hm : 0 < m) :
    Recut (⟨a, n + m⟩ :: l) (⟨a, n⟩ :: ⟨a + n, m⟩ :: l) := by
  refine ⟨fun r ht => ?_, fun x => ?_⟩
  · obtain ⟨-, hd, ht⟩ := tidy_cons.mp ht
    refine tidy_cons.mpr ⟨hn, fun y hy => ?_, tidy_cons.mpr ⟨hm, fun y hy => ?_, ht⟩⟩
    · rcases List.mem_cons.mp hy with rfl | hy
      · unfold Area.Disjoint Apart
        exact .inl (Nat.le_refl _)
      · have h1 := hd y hy
        unfold Area.Disjoint Apart at *
        dsimp only at *
        omega
    · have h1 := hd y hy
      unfold Area.Disjoint Apart at *
      dsimp only at *
      omega
  · rw [covers_cons, covers_cons, covers_cons, ← or_assoc]
    apply or_congr_left
    unfold Area.Has
    dsimp only
    omega

theorem disjoint_of_has (hx : 0 < x.len) (hy : 0 < y.len) (h : ∀ p, x.Has p → ¬y.Has p) :
    x.Disjoint y := by
  have h1 := h x.start
  have h2 := h y.start
  unfold Area.Has at h1 h2
  unfold Area.Disjoint Apart
  omega

theorem Area.Disjoint.not_has (h : x.Disjoint y) {p : ℕ} (hp : x.Has p) : ¬y.Has p := by
  unfold Area.Disjoint Apart at h
  unfold Area.Has at *
  omega

end Agatha.Library.Cutting
