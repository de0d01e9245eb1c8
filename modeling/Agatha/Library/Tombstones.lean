import Agatha.Library.Probing

namespace Agatha.Library.Probing

variable {K : Type} {hash : K → ℕ} {n s : ℕ} {t t' : ℕ → Slot K} {label : ℕ → K} {k : K}

structure Unmet (hash : K → ℕ) (n : ℕ) (t : ℕ → Slot K) (label : ℕ → K) : Prop where
  last : ∀ k, ∀ s < n, t s = .used k → label s = k
  first : ∀ k, ∀ s < n, t s = .used k → ∀ j < rank n (hash k) s, label (probe n (hash k) j) ≠ k

theorem Slot.used_ne_free : Slot.used k ≠ .free := by
  intro h
  cases h

theorem Unmet.insert (h : Unmet hash n t label) (hh : hash k < n) (hnew : ∀ s < n, t s ≠ .used k)
    (hs : vacancy hash n t k = some s) :
    Unmet hash n (Function.update t s (.used k)) (Function.update label s k) := by
  obtain ⟨hlt, -, hbefore⟩ := (vacancy_eq_some hh).mp hs
  have hn : 0 < n := by omega
  constructor
  · intro k' s' hs' hu
    by_cases he : s' = s
    · rw [he, Function.update_self] at hu ⊢
      injection hu
    · rw [Function.update_of_ne he] at hu ⊢
      exact h.last k' s' hs' hu
  · intro k' s' hs' hu j hj
    by_cases he : s' = s
    · -- the slots before a vacancy have other keys
      rw [he, Function.update_self] at hu
      injection hu with hk
      subst hk
      rw [he] at hj
      obtain ⟨k'', hk''⟩ := Slot.vacant_eq_false.mp (hbefore j hj)
      have hlast := rank_lt (h := hash k) hlt
      have hne : probe n (hash k) j ≠ s := by
        intro hp
        have hrank := rank_probe hh (Nat.lt_trans hj hlast)
        rw [hp] at hrank
        omega
      rw [Function.update_of_ne hne, h.last k'' _ (probe_lt hn) hk'']
      rintro rfl
      exact hnew _ (probe_lt hn) hk''
    · rw [Function.update_of_ne he] at hu
      by_cases hp : probe n (hash k') j = s
      · rw [hp, Function.update_self]
        rintro rfl
        exact hnew s' hs' hu
      · rw [Function.update_of_ne hp]
        exact h.first k' s' hs' hu j hj

theorem Unmet.remove (h : Unmet hash n t label) : Unmet hash n (Function.update t s .dead) label := by
  have hold : ∀ k s', Function.update t s .dead s' = .used k → t s' = .used k := by
    intro k s' hu
    by_cases he : s' = s
    · rw [he, Function.update_self] at hu
      cases hu
    · rwa [Function.update_of_ne he] at hu
  exact ⟨fun k s' hs' hu => h.last k s' hs' (hold k s' hu), fun k s' hs' hu => h.first k s' hs' (hold k s' hu)⟩

theorem Unmet.lookup_revived [DecidableEq K] (h : Unmet hash n t label) (hp : Probed hash n t) (hh : hash k < n)
    (ht : ∀ s < n, t s ≠ .free → t' s = .used (label s)) (hs : lookup hash n t k = some s) :
    lookup hash n t' k = some s := by
  obtain ⟨hlt, hu⟩ := (hp.lookup_eq_some hh).mp hs
  have hused : t' s = .used k := by
    rw [ht s hlt (by rw [hu]; exact Slot.used_ne_free), h.last k s hlt hu]
  have hfind : search (fun s => t' s = .free ∨ t' s = .used k) n (hash k) = some s := by
    rw [search_eq_some hh]
    refine ⟨hlt, decide_eq_true (.inr hused), fun j hj => decide_eq_false ?_⟩
    rw [ht _ (probe_lt (by omega)) (hp.reach k s hlt hu j hj)]
    rintro (hfree | hother)
    · cases hfree
    · injection hother with hkey
      exact h.first k s hlt hu j hj hkey
  unfold lookup
  rw [hfind]
  exact if_neg (by rw [hused]; exact Slot.used_ne_free)

end Agatha.Library.Probing
