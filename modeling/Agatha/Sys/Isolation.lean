import Agatha.Library.Areas
import Agatha.Sys.Window

namespace Agatha.Sys

open Kernel Library Library.Bytes Library.Areas

structure Frames where
  pa : ℕ → ℕ
  len : ℕ → ℕ
  type : ℕ → ℕ

def framesOf (mem : Bytes) : Frames := ⟨framePa mem, frameLen mem, frameType mem⟩

def Frames.setType (x : Frames) (f type : ℕ) : Frames :=
  { x with type := Function.update x.type f type }

def IsTable (F T : Set ℕ) (x : Frames) (p : ℕ) : Prop :=
  p % 4096 = 0 ∧ (p ∈ T ∨ ∃ f ∈ F, x.type f = frameL2 ∧ x.pa f ≤ p ∧ p + 4096 ≤ x.pa f + x.len f)

def IsEntry (F T : Set ℕ) (x : Frames) (e : ℕ) : Prop := e = 0 ∨ IsTable F T x (l1pa e)

structure OffKernel (m : Machine) (a n : ℕ) : Prop where
  l1 : Apart a n m.kernelL1 0x4000
  l2 : Apart a n m.kernelL2 (4096 * m.tableCount)

structure Placed (F T : Set ℕ) (x : Frames) (m : Machine) : Prop where
  frame : ∀ f ∈ F, (x.pa f % 4096 = 0 ∧ x.len f % 4096 = 0) ∧ x.pa f + x.len f ≤ 2 ^ 32
  apart : ∀ f ∈ F, ∀ f' ∈ F, f ≠ f' → Apart (x.pa f) (x.len f) (x.pa f') (x.len f')
  off : ∀ f ∈ F, OffKernel m (x.pa f) (x.len f)
  boot : ∀ p ∈ T, OffKernel m p 4096 ∧ ∀ f ∈ F, Apart p 4096 (x.pa f) (x.len f)
  kernel : Apart m.kernelL1 0x4000 m.kernelL2 (4096 * m.tableCount)
  next : m.vaNext % 4096 = 0
  low : l1x m.vaMin ≤ 0x1000

structure Windowing (F T : Set ℕ) (x : Frames) (m : Machine) (a : ℕ) : Prop where
  window : ∀ i, l1x m.vaMin ≤ i → i < 0x1000 →
    m.phys.get32 (a + 4 * i) = m.phys.get32 (m.kernelL1 + 4 * i)
  entries : ∀ i < l1x m.vaMin, IsEntry F T x (m.phys.get32 (a + 4 * i))

structure Tables (F T : Set ℕ) (x : Frames) (m : Machine) : Prop where
  placed : Placed F T x m
  l1 : ∀ f ∈ F, x.type f = frameL1 → x.len f = 0x4000 ∧ Windowing F T x m (x.pa f)
  own : ∀ i < l1x m.vaMin, IsEntry F T x (m.phys.get32 (m.kernelL1 + 4 * i))

section Tables

variable {F T : Set ℕ} {x y : Frames} {m m' : Machine} {f a p n i : ℕ} {phys : Bytes}

theorem IsTable.mono (h : IsTable F T x p) (hpa : y.pa = x.pa) (hlen : y.len = x.len)
    (ht : ∀ f ∈ F, x.type f = frameL2 → y.type f = frameL2) : IsTable F T y p := by
  obtain ⟨hp, h | ⟨f, hf, htype, h1, h2⟩⟩ := h
  · exact ⟨hp, .inl h⟩
  · exact ⟨hp, .inr ⟨f, hf, ht f hf htype, by rw [hpa]; exact h1, by rw [hpa, hlen]; exact h2⟩⟩

theorem Placed.same (h : Placed F T x m) (hpa : y.pa = x.pa) (hlen : y.len = x.len)
    (h1 : m'.kernelL1 = m.kernelL1) (h2 : m'.kernelL2 = m.kernelL2) (h3 : m'.vaMin = m.vaMin)
    (h4 : m'.vaMax = m.vaMax) (hnext : m'.vaNext % 4096 = 0) : Placed F T y m' := by
  have hcount : m'.tableCount = m.tableCount := by
    unfold Machine.tableCount
    rw [h3, h4]
  have hoff : ∀ {a n}, OffKernel m a n → OffKernel m' a n := by
    rintro a n ⟨o1, o2⟩
    exact ⟨by rw [h1]; exact o1, by rw [h2, hcount]; exact o2⟩
  refine ⟨?_, ?_, ?_, ?_, ?_, hnext, by rw [h3]; exact h.low⟩
  · rw [hpa, hlen]
    exact h.frame
  · rw [hpa, hlen]
    exact h.apart
  · rw [hpa, hlen]
    exact fun f hf => hoff (h.off f hf)
  · rw [hpa, hlen]
    exact fun p hp => ⟨hoff (h.boot p hp).1, (h.boot p hp).2⟩
  · rw [h1, h2, hcount]
    exact h.kernel

theorem IsTable.apart (h : Placed F T x m) (hp : IsTable F T x p) : OffKernel m p 4096 ∧
    ∀ f ∈ F, x.type f ≠ frameL2 → Apart p 4096 (x.pa f) (x.len f) := by
  obtain ⟨_, hp | ⟨g, hg, htype, h1, h2⟩⟩ := hp
  · exact ⟨(h.boot p hp).1, fun f hf _ => (h.boot p hp).2 f hf⟩
  · obtain ⟨o1, o2⟩ := h.off g hg
    refine ⟨⟨?_, ?_⟩, fun f hf hne => ?_⟩
    · unfold Apart at *
      omega
    · unfold Apart at *
      omega
    · have hgf : g ≠ f := fun he => hne (he ▸ htype)
      have hap := h.apart g hg f hf hgf
      unfold Apart at *
      omega

theorem Tables.congr (h : Tables F T x m) (hp : Placed F T x m') (h1 : m'.kernelL1 = m.kernelL1)
    (h3 : m'.vaMin = m.vaMin) (hk : Agree m'.phys m.phys m.kernelL1 0x4000)
    (hf : ∀ f ∈ F, x.type f = frameL1 → Agree m'.phys m.phys (x.pa f) 0x4000) : Tables F T x m' := by
  have hlow := h.placed.low
  have hown : ∀ i < 0x1000, m'.phys.get32 (m'.kernelL1 + 4 * i) =
      m.phys.get32 (m.kernelL1 + 4 * i) := by
    intro i hi
    rw [h1]
    exact get32_congr (hk.mono (by omega) (by omega))
  refine ⟨hp, fun f hF ht => ?_, fun i hi => ?_⟩
  · obtain ⟨hlen, hw, he⟩ := h.l1 f hF ht
    have hsame : ∀ i < 0x1000, m'.phys.get32 (x.pa f + 4 * i) = m.phys.get32 (x.pa f + 4 * i) :=
      fun i hi => get32_congr ((hf f hF ht).mono (by omega) (by omega))
    refine ⟨hlen, fun i h1' h2' => ?_, fun i hi => ?_⟩
    · rw [hsame i h2', hown i h2', hw i (h3 ▸ h1') h2']
    · rw [h3] at hi
      rw [hsame i (by omega)]
      exact he i hi
  · rw [h3] at hi
    rw [hown i (by omega)]
    exact h.own i hi

theorem Tables.beside (h : Tables F T x m) (hb : Beside m m') : Tables F T x m' := by
  have hp : Placed F T x m' := h.placed.same rfl rfl hb.l1 hb.l2 hb.vaMin hb.vaMax
    (hb.aligned h.placed.next)
  have hout : ∀ {a n}, Apart a n m.kernelL2 (4096 * m.tableCount) → Agree m'.phys m.phys a n := by
    intro a n hap z h1 h2
    apply hb.phys
    unfold Machine.InWindow
    unfold Apart at hap
    omega
  refine h.congr hp hb.l1 hb.vaMin (hout h.placed.kernel) fun f hF ht => ?_
  have hoff := (h.placed.off f hF).2
  rw [(h.l1 f hF ht).1] at hoff
  exact hout hoff

theorem Tables.writeTable {v : ℕ} (h : Tables F T x m) (hp : IsTable F T x p) (ha : p ≤ a)
    (hap : a + 4 ≤ p + 4096) : Tables F T x { m with phys := m.phys.put32 a v } := by
  obtain ⟨hoff, hframes⟩ := hp.apart h.placed
  have hout : ∀ {b n}, Apart p 4096 b n → Agree (m.phys.put32 a v) m.phys b n := by
    intro b n hb z h1 h2
    unfold Apart at hb
    exact put32_outside z (by omega)
  refine h.congr (h.placed.same rfl rfl rfl rfl rfl rfl h.placed.next) rfl rfl (hout hoff.l1) ?_
  intro f hF ht
  have hne : x.type f ≠ frameL2 := by
    rw [ht]
    decide
  have hb := hframes f hF hne
  rw [(h.l1 f hF ht).1] at hb
  exact hout hb

theorem Tables.l1Setup (h : Tables F T x m) (hf : f ∈ F) (ht : x.type f = frameMem)
    (hlen : x.len f = 0x4000) : Tables F T (x.setType f frameL1)
      { m with phys := m.phys.copy (x.pa f) m.phys m.kernelL1 0x4000 } := by
  have hoff := h.placed.off f hf
  rw [hlen] at hoff
  have hentry : ∀ {e}, IsEntry F T x e → IsEntry F T (x.setType f frameL1) e := by
    rintro e (he | he)
    · exact .inl he
    · refine .inr (he.mono rfl rfl fun g hg hl2 => ?_)
      have hgf : g ≠ f := by
        rintro rfl
        rw [ht] at hl2
        cases hl2
      exact (Function.update_of_ne hgf _ _).trans hl2
  have hout : ∀ {b n}, Apart (x.pa f) 0x4000 b n →
      Agree (m.phys.copy (x.pa f) m.phys m.kernelL1 0x4000) m.phys b n := by
    intro b n hb z h1 h2
    unfold Apart at hb
    exact copy_outside z (by omega)
  have hcopy : ∀ i < 0x1000, (m.phys.copy (x.pa f) m.phys m.kernelL1 0x4000).get32
      (x.pa f + 4 * i) = m.phys.get32 (m.kernelL1 + 4 * i) := by
    intro i hi
    have hbyte : ∀ j, 4 * i ≤ j → j < 4 * i + 4 →
        m.phys.copy (x.pa f) m.phys m.kernelL1 0x4000 (x.pa f + j) = m.phys (m.kernelL1 + j) := by
      intro j h1 h2
      rw [copy_inside _ (by omega) (by omega)]
      congr 1
      omega
    unfold Bytes.get32
    rw [hbyte _ (le_refl _) (by omega), show x.pa f + 4 * i + 1 = x.pa f + (4 * i + 1) by omega,
      show x.pa f + 4 * i + 2 = x.pa f + (4 * i + 2) by omega,
      show x.pa f + 4 * i + 3 = x.pa f + (4 * i + 3) by omega, hbyte _ (by omega) (by omega),
      hbyte _ (by omega) (by omega), hbyte _ (by omega) (by omega)]
    rfl
  have hlow := h.placed.low
  have hown : ∀ i < 0x1000, (m.phys.copy (x.pa f) m.phys m.kernelL1 0x4000).get32
      (m.kernelL1 + 4 * i) = m.phys.get32 (m.kernelL1 + 4 * i) :=
    fun i hi => get32_congr ((hout hoff.l1).mono (by omega) (by omega))
  refine ⟨h.placed.same rfl rfl rfl rfl rfl rfl h.placed.next, fun g hg hl1 => ?_, fun i hi => ?_⟩
  · by_cases hgf : g = f
    · subst hgf
      refine ⟨hlen, fun i h1 h2 => ?_, fun i hi => ?_⟩
      · exact (hcopy i h2).trans (hown i h2).symm
      · change i < l1x m.vaMin at hi
        change IsEntry _ _ _ ((m.phys.copy (x.pa g) m.phys m.kernelL1 0x4000).get32 (x.pa g + 4 * i))
        rw [hcopy i (by omega)]
        exact hentry (h.own i hi)
    · have hl1' : x.type g = frameL1 := by
        rw [← hl1]
        exact (Function.update_of_ne hgf _ _).symm
      obtain ⟨hglen, hw, he⟩ := h.l1 g hg hl1'
      have hap := h.placed.apart f hf g hg (Ne.symm hgf)
      rw [hlen, hglen] at hap
      have hsame : ∀ i < 0x1000, (m.phys.copy (x.pa f) m.phys m.kernelL1 0x4000).get32
          (x.pa g + 4 * i) = m.phys.get32 (x.pa g + 4 * i) :=
        fun i hi => get32_congr ((hout hap).mono (by omega) (by omega))
      refine ⟨hglen, fun i h1 h2 => ?_, fun i hi => ?_⟩
      · exact (hsame i h2).trans ((hw i h1 h2).trans (hown i h2).symm)
      · change i < l1x m.vaMin at hi
        change IsEntry _ _ _ ((m.phys.copy (x.pa f) m.phys m.kernelL1 0x4000).get32 (x.pa g + 4 * i))
        rw [hsame i (by omega)]
        exact hentry (he i hi)
  · change i < l1x m.vaMin at hi
    change IsEntry _ _ _ ((m.phys.copy (x.pa f) m.phys m.kernelL1 0x4000).get32 (m.kernelL1 + 4 * i))
    rw [hown i (by omega)]
    exact hentry (h.own i hi)

theorem mapL2_outside {l1 pa va : ℕ} {z : ℕ}
    (hz : z < l1 + 4 * l1x va ∨ l1 + 4 * (l1x va + n) ≤ z) : mapL2 l1 pa va n phys z = phys z := by
  induction n with
  | zero => rfl
  | succ n ih =>
    unfold mapL2
    rw [put32_outside z (by omega)]
    exact ih (by omega)

theorem mapL2_inside {l1 pa va : ℕ} (hi : i < n) : (mapL2 l1 pa va n phys).get32
    (l1 + 4 * (l1x va + i)) = ((pa + 4096 * i) ||| l1Coarse) % 2 ^ 32 := by
  induction n with
  | zero => omega
  | succ n ih =>
    unfold mapL2
    by_cases h : i = n
    · subst h
      rw [get32_put32_same]
    · rw [get32_put32_ne (by omega)]
      exact ih (by omega)

theorem coarse_pa {v : ℕ} (h : v % 4096 = 0) (hv : v < 2 ^ 32) :
    l1pa ((v ||| l1Coarse) % 2 ^ 32) = v := by
  have hor : v ||| 1 = v + 1 := by
    have h2 : v = 2 ^ 1 * (v / 2) := by omega
    rw [h2]
    exact (Nat.two_pow_add_eq_or_of_lt (by decide) _).symm
  unfold l1pa l1Coarse
  rw [hor]
  omega

theorem Tables.l2Map {tf ff va : ℕ} (h : Tables F T x m) (ht : tf ∈ F) (hf : ff ∈ F)
    (htype : x.type tf = frameL1) (hmem : x.type ff = frameMem)
    (hva : l1x va + pageCount (x.len ff) ≤ l1x m.vaMin) :
    Tables F T (x.setType ff frameL2) { m with
      phys := mapL2 (x.pa tf) (x.pa ff) va (pageCount (x.len ff))
        (m.phys.fill (x.pa ff) (x.len ff) 0) } := by
  have hne : tf ≠ ff := by
    rintro rfl
    rw [htype] at hmem
    cases hmem
  obtain ⟨htlen, htw, hte⟩ := h.l1 tf ht htype
  have hlow := h.placed.low
  have hentry : ∀ {e}, IsEntry F T x e → IsEntry F T (x.setType ff frameL2) e := by
    rintro e (he | he)
    · exact .inl he
    · refine .inr (he.mono rfl rfl fun g hg hl2 => ?_)
      by_cases hgf : g = ff
      · subst hgf
        exact Function.update_self _ _ _
      · exact (Function.update_of_ne hgf _ _).trans hl2
  -- what is written lies in the two frames only
  have hout : ∀ {b n}, Apart (x.pa ff) (x.len ff) b n → Apart (x.pa tf) 0x4000 b n →
      Agree (mapL2 (x.pa tf) (x.pa ff) va (pageCount (x.len ff))
        (m.phys.fill (x.pa ff) (x.len ff) 0)) m.phys b n := by
    intro b n hb hb' z h1 h2
    unfold Apart at hb hb'
    rw [mapL2_outside (by omega), fill_outside z (by omega)]
  have hoff := h.placed.off tf ht
  rw [htlen] at hoff
  have hown : ∀ i < 0x1000, (mapL2 (x.pa tf) (x.pa ff) va (pageCount (x.len ff))
      (m.phys.fill (x.pa ff) (x.len ff) 0)).get32 (m.kernelL1 + 4 * i) =
      m.phys.get32 (m.kernelL1 + 4 * i) :=
    fun i hi => get32_congr ((hout (h.placed.off ff hf).l1 hoff.l1).mono (by omega) (by omega))
  have hself : ∀ i < 0x1000, i < l1x va ∨ l1x va + pageCount (x.len ff) ≤ i →
      (mapL2 (x.pa tf) (x.pa ff) va (pageCount (x.len ff))
        (m.phys.fill (x.pa ff) (x.len ff) 0)).get32 (x.pa tf + 4 * i) =
      m.phys.get32 (x.pa tf + 4 * i) := by
    intro i hi hout'
    have hap := h.placed.apart ff hf tf ht (Ne.symm hne)
    rw [htlen] at hap
    apply get32_congr
    intro z h1 h2
    unfold Apart at hap
    rw [mapL2_outside (by omega), fill_outside z (by omega)]
  refine ⟨h.placed.same rfl rfl rfl rfl rfl rfl h.placed.next, fun g hg hl1 => ?_, fun i hi => ?_⟩
  · have hgf : g ≠ ff := by
      rintro rfl
      have : frameL2 = frameL1 := (Function.update_self _ _ _).symm.trans hl1
      cases this
    have hl1' : x.type g = frameL1 := (Function.update_of_ne hgf _ _).symm.trans hl1
    obtain ⟨hglen, hw, he⟩ := h.l1 g hg hl1'
    by_cases hgt : g = tf
    · subst hgt
      refine ⟨hglen, fun i h1 h2 => ?_, fun i hi => ?_⟩
      · change l1x m.vaMin ≤ i at h1
        exact (hself i h2 (by omega)).trans ((hw i h1 h2).trans (hown i h2).symm)
      · change i < l1x m.vaMin at hi
        change IsEntry _ _ _ ((mapL2 _ _ _ _ _).get32 (x.pa g + 4 * i))
        by_cases hin : l1x va ≤ i ∧ i < l1x va + pageCount (x.len ff)
        · obtain ⟨j, rfl⟩ : ∃ j, i = l1x va + j := ⟨i - l1x va, by omega⟩
          obtain ⟨⟨hpa, hmul⟩, hfit⟩ := h.placed.frame ff hf
          have hj : 4096 * j + 4096 ≤ x.len ff := by
            have := hin.2
            unfold pageCount at this
            omega
          rw [mapL2_inside (by omega)]
          right
          rw [coarse_pa (by omega) (by omega)]
          exact ⟨by omega, .inr ⟨ff, hf, Function.update_self _ _ _, Nat.le_add_right _ _, by
            change x.pa ff + 4096 * j + 4096 ≤ x.pa ff + x.len ff
            omega⟩⟩
        · rw [hself i (by omega) (by omega)]
          exact hentry (he i hi)
    · have hap := h.placed.apart ff hf g hg (Ne.symm hgf)
      have hap' := h.placed.apart tf ht g hg (Ne.symm hgt)
      rw [hglen] at hap hap'
      rw [htlen] at hap'
      have hsame : ∀ i < 0x1000, (mapL2 (x.pa tf) (x.pa ff) va (pageCount (x.len ff))
          (m.phys.fill (x.pa ff) (x.len ff) 0)).get32 (x.pa g + 4 * i) =
          m.phys.get32 (x.pa g + 4 * i) :=
        fun i hi => get32_congr ((hout hap hap').mono (by omega) (by omega))
      refine ⟨hglen, fun i h1 h2 => ?_, fun i hi => ?_⟩
      · exact (hsame i h2).trans ((hw i h1 h2).trans (hown i h2).symm)
      · change i < l1x m.vaMin at hi
        change IsEntry _ _ _ ((mapL2 _ _ _ _ _).get32 (x.pa g + 4 * i))
        rw [hsame i (by omega)]
        exact hentry (he i hi)
  · change i < l1x m.vaMin at hi
    change IsEntry _ _ _ ((mapL2 _ _ _ _ _).get32 (m.kernelL1 + 4 * i))
    rw [hown i (by omega)]
    exact hentry (h.own i hi)

end Tables

end Agatha.Sys
