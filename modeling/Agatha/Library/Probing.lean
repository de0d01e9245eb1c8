import Mathlib.Data.List.Range
import Mathlib.Logic.Function.Basic

namespace Agatha.Library.Probing

inductive Slot (K : Type) where
  | free
  | dead
  | used (k : K)
  deriving DecidableEq

def probe (n h j : ℕ) : ℕ := (h + j) % n

def rank (n h s : ℕ) : ℕ := (s + n - h) % n

def search (test : ℕ → Bool) (n h : ℕ) : Option ℕ :=
  ((List.range n).map (probe n h)).find? test

section Ring

variable {n h j s : ℕ} {test : ℕ → Bool}

theorem probe_lt (hn : 0 < n) : probe n h j < n := Nat.mod_lt _ hn

theorem rank_lt (hs : s < n) : rank n h s < n := Nat.mod_lt _ (by omega)

theorem probe_rank (hh : h < n) (hs : s < n) : probe n h (rank n h s) = s := by
  unfold probe rank
  rw [Nat.add_mod_mod, show h + (s + n - h) = s + n by omega, Nat.add_mod_right, Nat.mod_eq_of_lt hs]

theorem rank_probe (hh : h < n) (hj : j < n) : rank n h (probe n h j) = j := by
  unfold rank probe
  by_cases hw : h + j < n
  · rw [Nat.mod_eq_of_lt hw, show h + j + n - h = j + n by omega, Nat.add_mod_right,
      Nat.mod_eq_of_lt hj]
  · have hmod : (h + j) % n = h + j - n := by
      rw [Nat.mod_eq_sub_mod (by omega), Nat.mod_eq_of_lt (by omega)]
    rw [hmod, show h + j - n + n - h = j by omega, Nat.mod_eq_of_lt hj]

theorem search_eq_some (hh : h < n) : search test n h = some s ↔
    s < n ∧ test s = true ∧ ∀ j < rank n h s, test (probe n h j) = false := by
  unfold search
  rw [List.find?_map, Option.map_eq_some_iff]
  constructor
  · rintro ⟨j, hj, rfl⟩
    rw [List.find?_range_eq_some] at hj
    obtain ⟨ht, hjn, hall⟩ := hj
    rw [List.mem_range] at hjn
    refine ⟨probe_lt (by omega), ht, fun i hi => ?_⟩
    rw [rank_probe hh hjn] at hi
    simpa using hall i hi
  · rintro ⟨hs, ht, hall⟩
    refine ⟨rank n h s, ?_, probe_rank hh hs⟩
    rw [List.find?_range_eq_some]
    refine ⟨by rw [Function.comp_apply, probe_rank hh hs, ht], List.mem_range.mpr (rank_lt hs),
      fun i hi => ?_⟩
    simpa using hall i hi

theorem search_eq_none (hh : h < n) : search test n h = none ↔ ∀ s < n, test s = false := by
  unfold search
  rw [List.find?_eq_none]
  constructor
  · intro hall s hs
    have hmem : s ∈ (List.range n).map (probe n h) :=
      List.mem_map.mpr ⟨rank n h s, List.mem_range.mpr (rank_lt hs), probe_rank hh hs⟩
    simpa using hall s hmem
  · intro hall s hs
    obtain ⟨j, hj, rfl⟩ := List.mem_map.mp hs
    simpa using hall _ (probe_lt (by omega))

end Ring

variable {K : Type}

structure Probed (hash : K → ℕ) (n : ℕ) (t : ℕ → Slot K) : Prop where
  unique : ∀ k s s', s < n → s' < n → t s = .used k → t s' = .used k → s = s'
  reach : ∀ k s, s < n → t s = .used k → ∀ j < rank n (hash k) s, t (probe n (hash k) j) ≠ .free

def lookup [DecidableEq K] (hash : K → ℕ) (n : ℕ) (t : ℕ → Slot K) (k : K) : Option ℕ :=
  match search (fun s => t s = .free ∨ t s = .used k) n (hash k) with
  | none => none
  | some s => if t s = .free then none else some s

def Slot.vacant : Slot K → Bool
  | .used _ => false
  | _ => true

def vacancy (hash : K → ℕ) (n : ℕ) (t : ℕ → Slot K) (k : K) : Option ℕ :=
  search (fun s => (t s).vacant) n (hash k)

section Table

variable {hash : K → ℕ} {n s : ℕ} {t : ℕ → Slot K} {k k' : K}

theorem Slot.vacant_eq_false {x : Slot K} : x.vacant = false ↔ ∃ k, x = .used k := by
  cases x with
  | free => simp [vacant]
  | dead => simp [vacant]
  | used k => simp [vacant]

theorem Probed.lookup_eq_some [DecidableEq K] (h : Probed hash n t) (hh : hash k < n) :
    lookup hash n t k = some s ↔ s < n ∧ t s = .used k := by
  unfold lookup
  constructor
  · intro hs
    split at hs
    · cases hs
    · rename_i s' hfind
      obtain ⟨hlt, htest, -⟩ := (search_eq_some hh).mp hfind
      split_ifs at hs with hfree
      cases hs
      exact ⟨hlt, (of_decide_eq_true htest).resolve_left hfree⟩
  · rintro ⟨hs, hu⟩
    have hfind : search (fun s => t s = .free ∨ t s = .used k) n (hash k) = some s := by
      rw [search_eq_some hh]
      refine ⟨hs, by simp [hu], fun j hj => ?_⟩
      have hlt := rank_lt (h := hash k) hs
      apply decide_eq_false
      rintro (hfree | hused)
      · exact h.reach k s hs hu j hj hfree
      · have he := h.unique k _ s (probe_lt (by omega)) hs hused hu
        have hrank := rank_probe hh (Nat.lt_trans hj hlt)
        rw [he] at hrank
        omega
    rw [hfind]
    simp [hu]

theorem Probed.lookup_congr [DecidableEq K] {t' : ℕ → Slot K} (h : Probed hash n t)
    (h' : Probed hash n t') (hh : hash k < n) (hsame : ∀ s < n, t s = .used k ↔ t' s = .used k) :
    lookup hash n t' k = lookup hash n t k := by
  apply Option.ext
  intro s
  rw [h'.lookup_eq_some hh, h.lookup_eq_some hh]
  constructor
  · exact fun ⟨hs, hu⟩ => ⟨hs, (hsame s hs).mpr hu⟩
  · exact fun ⟨hs, hu⟩ => ⟨hs, (hsame s hs).mp hu⟩

theorem vacancy_eq_some (hh : hash k < n) : vacancy hash n t k = some s ↔
    s < n ∧ (t s).vacant = true ∧ ∀ j < rank n (hash k) s, (t (probe n (hash k) j)).vacant = false :=
  search_eq_some hh

theorem vacancy_eq_none (hh : hash k < n) : vacancy hash n t k = none ↔
    ∀ s < n, ∃ k', t s = .used k' := by
  unfold vacancy
  rw [search_eq_none hh]
  simp only [Slot.vacant_eq_false]

theorem Probed.fresh (hfree : ∀ s < n, t s = .free) : Probed hash n t := by
  constructor
  · intro k s s' hs _ hu
    rw [hfree s hs] at hu
    cases hu
  · intro k s hs hu
    rw [hfree s hs] at hu
    cases hu

theorem Probed.insert (h : Probed hash n t) (hh : hash k < n) (hnew : ∀ s < n, t s ≠ .used k)
    (hs : vacancy hash n t k = some s) : Probed hash n (Function.update t s (.used k)) := by
  obtain ⟨hlt, hvac, hbefore⟩ := (vacancy_eq_some hh).mp hs
  have hkeep : ∀ s', t s' ≠ .free → Function.update t s (.used k) s' ≠ .free := by
    intro s' hs'
    by_cases he : s' = s
    · rw [he, Function.update_self]
      simp
    · rwa [Function.update_of_ne he]
  have hold : ∀ k' s', s' < n → Function.update t s (.used k) s' = .used k' →
      s' = s ∧ k' = k ∨ s' ≠ s ∧ t s' = .used k' := by
    intro k' s' _ hu
    by_cases he : s' = s
    · rw [he, Function.update_self] at hu
      cases hu
      exact .inl ⟨he, rfl⟩
    · rw [Function.update_of_ne he] at hu
      exact .inr ⟨he, hu⟩
  constructor
  · intro k' a b ha hb hua hub
    rcases hold k' a ha hua with ⟨ha', hk⟩ | ⟨-, hua⟩ <;>
      rcases hold k' b hb hub with ⟨hb', hk'⟩ | ⟨-, hub⟩
    · rw [ha', hb']
    · exact absurd (hk ▸ hub) (hnew b hb)
    · exact absurd (hk' ▸ hua) (hnew a ha)
    · exact h.unique k' a b ha hb hua hub
  · intro k' s' hs' hu j hj
    apply hkeep
    rcases hold k' s' hs' hu with ⟨rfl, rfl⟩ | ⟨-, hu⟩
    · obtain ⟨k'', hk''⟩ := Slot.vacant_eq_false.mp (hbefore j hj)
      rw [hk'']
      simp
    · exact h.reach k' s' hs' hu j hj

theorem Probed.remove (h : Probed hash n t) :
    Probed hash n (Function.update t s .dead) := by
  have hold : ∀ k' s', Function.update t s .dead s' = .used k' → t s' = .used k' := by
    intro k' s' hu
    by_cases he : s' = s
    · rw [he, Function.update_self] at hu
      cases hu
    · rwa [Function.update_of_ne he] at hu
  constructor
  · exact fun k a b ha hb hua hub => h.unique k a b ha hb (hold k a hua) (hold k b hub)
  · intro k s' hs' hu j hj
    by_cases he : probe n (hash k) j = s
    · rw [he, Function.update_self]
      simp
    · rw [Function.update_of_ne he]
      exact h.reach k s' hs' (hold k s' hu) j hj

end Table

end Agatha.Library.Probing
