import Agatha.Sys.Isolation
import Agatha.Sys.ObjectCalls
import Agatha.Sys.Walks

namespace Agatha.Sys

open Kernel Library Library.Bytes Library.Areas

def Fits (vaMin vaMax : ℕ) : List ℕ → ℕ → Prop
  | [], _ => True
  | len :: lens, va => ∀ y, windowPlace vaMax (pageAlign len) va = some y →
      (l1x vaMin ≤ l1x y ∧ l1x y - l1x vaMin < (vaMax - vaMin) / 2 ^ 20 ∧
        l2x y + pageCount (pageAlign len) ≤ 1024) ∧
      Fits vaMin vaMax lens ((y + pageAlign len) % 2 ^ 32)

structure Fixed (m m' : Machine) : Prop where
  kernel : m'.kernel = m.kernel
  vaMin : m'.vaMin = m.vaMin
  vaMax : m'.vaMax = m.vaMax
  l2 : m'.kernelL2 = m.kernelL2

def OffWindow (m : Machine) (wrote : List (ℕ × ℕ)) : Prop :=
  ∀ w ∈ wrote, Apart w.1 w.2 m.kernelL2 (4096 * m.tableCount)

section Loops

variable {F T : Set ℕ} {x : Frames} {m m₀ m' m'' : Machine} {pa len va i tf bits l1 fuel first : ℕ}
variable {cache : Bool} {l2 : Option OpenTable} {E : Ending → Prop} {lens : List ℕ}
variable {f : ℕ → Machine → Ending} {g : OpenTable → Machine → Ending}
variable {done : List (ℕ × ℕ) → Machine → Ending} {wrote : List (ℕ × ℕ)}

theorem Fixed.refl : Fixed m m := ⟨rfl, rfl, rfl, rfl⟩

theorem Fixed.trans (h : Fixed m m') (h' : Fixed m' m'') : Fixed m m'' :=
  ⟨h'.kernel.trans h.kernel, h'.vaMin.trans h.vaMin, h'.vaMax.trans h.vaMax, h'.l2.trans h.l2⟩

theorem Beside.fixed (h : Beside m m') : Fixed m m' := ⟨h.kernel, h.vaMin, h.vaMax, h.l2⟩

theorem Fixed.offWindow (h : Fixed m m') : OffWindow m' wrote ↔ OffWindow m wrote := by
  unfold OffWindow Machine.tableCount
  rw [h.vaMin, h.vaMax, h.l2]

theorem kernelMap_fits (hal : m.vaNext % 4096 = 0)
    (hfits : Fits m.vaMin m.vaMax (len :: lens) m.vaNext) (hp : E .panic)
    (hf : ∀ va m', Beside m m' → (len + 4095 < 2 ^ 32 → Held m' va len) →
      Fits m'.vaMin m'.vaMax lens m'.vaNext → E (f va m')) :
    E ((kernelMap pa len cache m).andThen f) := by
  cases hm : kernelMap pa len cache m with
  | panic => exact hp
  | astray =>
    unfold kernelMap at hm
    simp only at hm
    cases hw : windowPlace m.vaMax (pageAlign len) m.vaNext with
    | none =>
      rw [hw] at hm
      cases hm
    | some y =>
      obtain ⟨⟨h1, h2, h3⟩, -⟩ := hfits y hw
      rw [hw] at hm
      simp only at hm
      rw [if_neg (by unfold Machine.tableCount; omega)] at hm
      cases hm
  | here va m' =>
    obtain ⟨hb, hheld, hnext⟩ := kernelMap_here hal hm
    apply hf va m' hb hheld
    unfold windowNext at hnext
    cases hw : windowPlace m.vaMax (pageAlign len) m.vaNext with
    | none =>
      rw [hw] at hnext
      cases hnext
    | some y =>
      rw [hw] at hnext
      have hrest := (hfits y hw).2
      rw [hb.vaMin, hb.vaMax, ← Option.some.inj hnext]
      exact hrest

theorem openTable_tables (hp : E .panic) (h : Tables F T x m) (ht : tf ∈ F)
    (htype : x.type tf = frameL1) (hi : i < pageCount len)
    (hva : l1x (va + 4096 * i) < l1x m.vaMin)
    (hfits : Fits m.vaMin m.vaMax (openings va (pageCount len - i) i (l2.map OpenTable.x)) m.vaNext)
    (hl2 : ∀ t, l2 = some t → IsTable F T x t.pa ∧ Held m t.va 4096)
    (hg : ∀ t m', t.x = l1x (va + 4096 * i) → IsTable F T x t.pa → Held m' t.va 4096 →
      Tables F T x m' → Fixed m m' → Fits m'.vaMin m'.vaMax
        (openings va (pageCount len - (i + 1)) (i + 1) (some t.x)) m'.vaNext → E (g t m')) :
    E (openTable (x.pa tf) (va + 4096 * i) g l2 m) := by
  rw [openings_step hi] at hfits
  have hnext : ∀ {m'}, Tables F T x m' → Fixed m m' → Fits m'.vaMin m'.vaMax
      (4096 :: openings va (pageCount len - (i + 1)) (i + 1) (some (l1x (va + 4096 * i))))
      m'.vaNext → E (nextTable (x.pa tf) (va + 4096 * i) g m') := by
    intro m' h hfix hfits
    have hentry := (h.l1 tf ht htype).2.entries (l1x (va + 4096 * i)) (hfix.vaMin ▸ hva)
    unfold nextTable
    simp only
    by_cases h0 : m'.phys.get32 (x.pa tf + 4 * l1x (va + 4096 * i)) = 0
    · rw [if_pos h0]
      exact hp
    · rw [if_neg h0]
      apply kernelMap_fits h.placed.next hfits hp
      intro va' m'' hb hheld hfits
      exact hg _ _ rfl (hentry.resolve_left h0) (hheld (by decide)) (h.beside hb)
        (hfix.trans hb.fixed) hfits
  unfold openTable
  cases l2 with
  | none =>
    rw [if_neg nofun] at hfits
    exact hnext h Fixed.refl hfits
  | some t =>
    obtain ⟨htab, hheld⟩ := hl2 t rfl
    rw [Option.map_some] at hfits
    simp only
    by_cases hx : t.x = l1x (va + 4096 * i)
    · rw [if_pos hx]
      rw [if_pos (congrArg some hx)] at hfits
      exact hg t m hx htab hheld h Fixed.refl hfits
    · rw [if_neg hx]
      rw [if_neg fun he => hx (Option.some.inj he)] at hfits
      have hb : Beside m (letGo (some t) m) := kernelUnmap_beside hheld
      exact hnext (h.beside hb) hb.fixed hfits

theorem closeTables_beside {l1 : ℕ} (hl1 : Held m l1 0x4000)
    (hl2 : ∀ t, l2 = some t → Held m t.va 4096) : Beside m (closeTables l1 l2 m) := by
  have hb : Beside m (letGo l2 m) := by
    cases l2 with
    | none => exact Beside.refl
    | some t => exact kernelUnmap_beside (hl2 t rfl)
  exact hb.trans (kernelUnmap_beside (hl1.congr hb.vaMin hb.vaMax))

theorem IsTable.place {p : ℕ} (hp : IsTable F T x p) (h : Placed F T x m) :
    ¬ 4096 < p % 4096 + 4 * l2x va + 4 ∧
      Apart (p + 4 * l2x va) 4 m.kernelL2 (4096 * m.tableCount) := by
  have hoff := (hp.apart h).1.l2
  have h1 := hp.1
  have h2 := @l2x_lt va
  unfold Apart at *
  omega

theorem OffWindow.concat {a n : ℕ} (h : OffWindow m₀ wrote) (hfix : Fixed m₀ m)
    (hoff : Apart a n m.kernelL2 (4096 * m.tableCount)) : OffWindow m₀ (wrote ++ [(a, n)]) := by
  intro w hw
  rcases List.mem_append.mp hw with hw | hw
  · exact h w hw
  · have hone : OffWindow m [(a, n)] := fun w hw => List.mem_singleton.mp hw ▸ hoff
    exact hfix.offWindow.mp hone w hw

theorem closed_tables (hd : ∀ wrote m, Tables F T x m → Fixed m₀ m → OffWindow m₀ wrote → E (done wrote m))
    (h : Tables F T x m) (hfix : Fixed m₀ m) (hwrote : OffWindow m₀ wrote) (hl1 : Held m₀ l1 0x4000)
    (hl2 : ∀ t, l2 = some t → Held m t.va 4096) : E (done wrote (closeTables l1 l2 m)) := by
  have hb := closeTables_beside (hl1.congr hfix.vaMin hfix.vaMax) hl2
  exact hd _ _ (h.beside hb) (hfix.trans hb.fixed) hwrote

theorem frameMapLoop_tables (hp : E .panic) (hs : E .stuck) (ht : tf ∈ F)
    (htype : x.type tf = frameL1) (hlen : len + 4095 < 2 ^ 32)
    (hva : ∀ j < pageCount len, l1x (va + 4096 * j) < l1x m₀.vaMin)
    (hd : ∀ wrote m, Tables F T x m → Fixed m₀ m → OffWindow m₀ wrote → E (done wrote m))
    (h : Tables F T x m) (hfix : Fixed m₀ m) (hwrote : OffWindow m₀ wrote)
    (hfits : Fits m.vaMin m.vaMax (openings va (pageCount len - i) i (l2.map OpenTable.x)) m.vaNext)
    (hl1 : Held m₀ l1 0x4000) (hl2 : ∀ t, l2 = some t → IsTable F T x t.pa ∧ Held m t.va 4096) :
    E (frameMapLoop (x.pa tf) va pa len bits l1 done fuel (4096 * i) l2 wrote m) := by
  induction fuel generalizing i l2 wrote m with
  | zero => exact hs
  | succ fuel ih =>
    unfold frameMapLoop
    by_cases hend : len ≤ 4096 * i
    · rw [if_pos hend]
      exact closed_tables hd h hfix hwrote hl1 fun t ht => (hl2 t ht).2
    · rw [if_neg hend]
      have hi : i < pageCount len := not_not.mp (mt page_iff.mpr hend)
      apply openTable_tables hp h ht htype hi (hfix.vaMin ▸ hva i hi) hfits hl2
      intro t m' _ htab hheld h hfix' hfits
      obtain ⟨hin, hoff⟩ := @IsTable.place F T x m' (va + 4096 * i) _ htab h.placed
      simp only
      rw [if_neg hin, page_next hlen hi]
      split
      · exact hp
      · apply ih
        · exact h.writeTable htab (Nat.le_add_right _ _) (by have := @l2x_lt (va + 4096 * i); omega)
        · exact hfix.trans ⟨hfix'.kernel, hfix'.vaMin, hfix'.vaMax, hfix'.l2⟩
        · exact hwrote.concat (hfix.trans hfix') hoff
        · exact hfits
        · rintro _ ⟨⟩
          exact ⟨htab, hheld.congr rfl rfl⟩

theorem frameUnmapLoop_tables (hp : E .panic) (hs : E .stuck) (ht : tf ∈ F)
    (htype : x.type tf = frameL1) (hlen : len + 4095 < 2 ^ 32)
    (hva : ∀ j < pageCount len, l1x (va + 4096 * j) < l1x m₀.vaMin)
    (hd : ∀ wrote m, Tables F T x m → Fixed m₀ m → OffWindow m₀ wrote → E (done wrote m))
    (h : Tables F T x m) (hfix : Fixed m₀ m) (hwrote : OffWindow m₀ wrote)
    (hfits : Fits m.vaMin m.vaMax (openings va (pageCount len - i) i (l2.map OpenTable.x)) m.vaNext)
    (hl1 : Held m₀ l1 0x4000) (hl2 : ∀ t, l2 = some t → IsTable F T x t.pa ∧ Held m t.va 4096) :
    E (frameUnmapLoop (x.pa tf) va len l1 done fuel (4096 * i) first l2 wrote m) := by
  induction fuel generalizing i l2 wrote m first with
  | zero => exact hs
  | succ fuel ih =>
    unfold frameUnmapLoop
    by_cases hend : len ≤ 4096 * i
    · rw [if_pos hend]
      exact closed_tables hd h hfix hwrote hl1 fun t ht => (hl2 t ht).2
    · rw [if_neg hend]
      have hi : i < pageCount len := not_not.mp (mt page_iff.mpr hend)
      apply openTable_tables hp h ht htype hi (hfix.vaMin ▸ hva i hi) hfits hl2
      intro t m' _ htab hheld h hfix' hfits
      obtain ⟨hin, hoff⟩ := @IsTable.place F T x m' (va + 4096 * i) _ htab h.placed
      simp only
      rw [if_neg hin, page_next hlen hi]
      split
      · exact hp
      · split
        · apply closed_tables hd h (hfix.trans hfix') hwrote hl1
          rintro _ ⟨⟩
          exact hheld
        · apply ih
          · exact h.writeTable htab (Nat.le_add_right _ _) (by have := @l2x_lt (va + 4096 * i); omega)
          · exact hfix.trans ⟨hfix'.kernel, hfix'.vaMin, hfix'.vaMax, hfix'.l2⟩
          · exact hwrote.concat (hfix.trans hfix') hoff
          · exact hfits
          · rintro _ ⟨⟩
            exact ⟨htab, hheld.congr rfl rfl⟩

end Loops

structure Isolated (F T : Set ℕ) (m : Machine) : Prop where
  objects : ∀ f ∈ F, ∀ f' ∈ F, f ≠ f' → Apart f 28 f' 28
  next : ∀ f ∈ F, frameNext m.kernel.mem f = 0 ∨ frameNext m.kernel.mem f ∈ F
  tables : Tables F T (framesOf m.kernel.mem) m

def OffFrames (F : Set ℕ) (c : ℕ) : Prop := ∀ f ∈ F, Apart c 8 f 28

def Sound (F : Set ℕ) (u : Addr) (cid : ℤ) (m : Machine) : Prop :=
  ∀ c, findFrame u cid m = some c → capObj m.kernel.mem c ∈ F ∧ OffFrames F c

structure BelowWindow (m : Machine) (va len : ℕ) : Prop where
  short : len + 4095 < 2 ^ 32
  below : ∀ i < pageCount len, l1x (va + 4096 * i) < l1x m.vaMin
  fits : Fits m.vaMin m.vaMax (0x4000 :: openings va (pageCount len) 0 none) m.vaNext

inductive FrameCall
  | l1Setup (cid : ℤ)
  | l2Map (tid cid : ℤ) (va : ℕ)
  | map (tid cid : ℤ) (va : ℕ) (cache : Bool)
  | unmap (tid nid : ℤ) (va : ℕ)

def FrameCall.run (fuel : ℕ) (u : Addr) (m : Machine) : FrameCall → Ending
  | .l1Setup cid => sysFrameL1Setup u cid m
  | .l2Map tid cid va => sysFrameL2Map u tid cid va m
  | .map tid cid va cache => sysFrameMap fuel u tid cid va cache m
  | .unmap tid nid va => sysFrameUnmap fuel u tid nid va m

def FrameCall.Below (F : Set ℕ) (u : Addr) (m : Machine) : FrameCall → Prop
  | .l1Setup cid => Sound F u cid m ∧ Fits m.vaMin m.vaMax [0x4000] m.vaNext
  | .l2Map tid cid va => (Sound F u tid m ∧ Sound F u cid m) ∧ ∀ tc fc,
      findFrame u tid m = some tc → findFrame u cid m = some fc →
      frameType m.kernel.mem (capObj m.kernel.mem tc) = frameL1 →
      frameType m.kernel.mem (capObj m.kernel.mem fc) = frameMem →
      l1x va + pageCount (frameLen m.kernel.mem (capObj m.kernel.mem fc)) ≤ l1x m.vaMin ∧
      Fits m.vaMin m.vaMax [0x4000, frameLen m.kernel.mem (capObj m.kernel.mem fc)] m.vaNext
  | .map tid cid va _ => (Sound F u tid m ∧ Sound F u cid m) ∧ ∀ tc fc,
      findFrame u tid m = some tc → findFrame u cid m = some fc →
      frameType m.kernel.mem (capObj m.kernel.mem tc) = frameL1 →
      (frameType m.kernel.mem (capObj m.kernel.mem fc) = frameMem ∨
        frameType m.kernel.mem (capObj m.kernel.mem fc) = frameDev) →
      BelowWindow m va (frameLen m.kernel.mem (capObj m.kernel.mem fc))
  | .unmap tid nid va => (Sound F u tid m ∧
        ∀ c, procFindCapType u nid 0 0 m.kernel = some c → OffFrames F c) ∧
      ∀ tc fuel f, findFrame u tid m = some tc →
      frameType m.kernel.mem (capObj m.kernel.mem tc) = frameL1 →
      findMapped va m.kernel.mem fuel (capObj m.kernel.mem tc + 24) = some (some f) →
      BelowWindow m va (frameLen m.kernel.mem (m.kernel.mem.get32 f))

section Objects

variable {F T : Set ℕ} {x y : Frames} {m m' : Machine} {mem : Bytes} {f g c v d e p q tf ff va : ℕ}

theorem Tables.agree (h : Tables F T x m) (hpa : ∀ f ∈ F, y.pa f = x.pa f)
    (hlen : ∀ f ∈ F, y.len f = x.len f) (ht : ∀ f ∈ F, y.type f = x.type f) : Tables F T y m := by
  have hentry : ∀ {e}, IsEntry F T x e → IsEntry F T y e := by
    rintro e (he | ⟨hp, he | ⟨f, hf, h1, h2, h3⟩⟩)
    · exact .inl he
    · exact .inr ⟨hp, .inl he⟩
    · refine .inr ⟨hp, .inr ⟨f, hf, (ht f hf).trans h1, ?_, ?_⟩⟩
      · rw [hpa f hf]
        exact h2
      · rw [hpa f hf, hlen f hf]
        exact h3
  obtain ⟨⟨hframe, hapart, hoff, hboot, hkernel, hnext, hlow⟩, hl1, hown⟩ := h
  refine ⟨⟨?_, ?_, ?_, ?_, hkernel, hnext, hlow⟩, ?_, fun i hi => hentry (hown i hi)⟩
  · intro f hf
    rw [hpa f hf, hlen f hf]
    exact hframe f hf
  · intro f hf f' hf' hne
    rw [hpa f hf, hlen f hf, hpa f' hf', hlen f' hf']
    exact hapart f hf f' hf' hne
  · intro f hf
    rw [hpa f hf, hlen f hf]
    exact hoff f hf
  · intro p hp
    refine ⟨(hboot p hp).1, fun f hf => ?_⟩
    rw [hpa f hf, hlen f hf]
    exact (hboot p hp).2 f hf
  · intro f hf htype
    rw [ht f hf] at htype
    obtain ⟨h1, h2, h3⟩ := hl1 f hf htype
    rw [hlen f hf]
    refine ⟨h1, ?_, ?_⟩
    · rw [hpa f hf]
      exact h2
    · rw [hpa f hf]
      exact fun i hi => hentry (h3 i hi)

theorem frame_put (hobj : ∀ f ∈ F, ∀ f' ∈ F, f ≠ f' → Apart f 28 f' 28) (hf : f ∈ F) (hg : g ∈ F)
    (hd : d + 4 ≤ 28) (he : e + 4 ≤ 28) (hne : f ≠ g ∨ e + 4 ≤ d ∨ d + 4 ≤ e) :
    (mem.put32 (g + d) v).get32 (f + e) = mem.get32 (f + e) := by
  apply get32_put32_ne
  by_cases hfg : f = g
  · omega
  · have hap := hobj f hf g hg hfg
    unfold Apart at hap
    omega

theorem frame_slot (hc : OffFrames F c) (hf : f ∈ F) (he : e + 4 ≤ 28) :
    (setCap c p q mem).get32 (f + e) = mem.get32 (f + e) := by
  have hap := hc f hf
  unfold Apart at hap
  unfold setCap
  rw [get32_put32_ne (by omega), get32_put32_ne (by omega)]

structure SameFrames (F : Set ℕ) (mem mem' : Bytes) : Prop where
  pa : ∀ f ∈ F, framePa mem' f = framePa mem f
  len : ∀ f ∈ F, frameLen mem' f = frameLen mem f
  type : ∀ f ∈ F, frameType mem' f = frameType mem f

theorem pushFrame_same (hobj : ∀ f ∈ F, ∀ f' ∈ F, f ≠ f' → Apart f 28 f' 28) (ht : tf ∈ F)
    (hf : ff ∈ F) (hc : OffFrames F c) :
    SameFrames F mem (setCap c p q (pushFrame tf ff va mem)) := by
  unfold pushFrame
  refine ⟨fun f hf' => ?_, fun f hf' => ?_, fun f hf' => ?_⟩
  · unfold framePa
    rw [frame_slot hc hf' (by omega), frame_put hobj hf' ht (by omega) (by omega) (by omega),
      frame_put hobj hf' hf (by omega) (by omega) (by omega),
      frame_put hobj hf' hf (by omega) (by omega) (by omega)]
  · unfold frameLen
    rw [frame_slot hc hf' (by omega), frame_put hobj hf' ht (by omega) (by omega) (by omega),
      frame_put hobj hf' hf (by omega) (by omega) (by omega),
      frame_put hobj hf' hf (by omega) (by omega) (by omega)]
  · unfold frameType
    rw [frame_slot hc hf' (by omega), frame_put hobj hf' ht (by omega) (by omega) (by omega),
      frame_put hobj hf' hf (by omega) (by omega) (by omega),
      frame_put hobj hf' hf (by omega) (by omega) (by omega)]

theorem pushFrame_next (hobj : ∀ f ∈ F, ∀ f' ∈ F, f ≠ f' → Apart f 28 f' 28) (ht : tf ∈ F)
    (hf : ff ∈ F) (hc : OffFrames F c) (hlt : ff < 2 ^ 32)
    (h : ∀ f ∈ F, frameNext mem f = 0 ∨ frameNext mem f ∈ F) (hg : g ∈ F) :
    frameNext (setCap c p q (pushFrame tf ff va mem)) g = 0 ∨
      frameNext (setCap c p q (pushFrame tf ff va mem)) g ∈ F := by
  unfold pushFrame frameNext
  rw [frame_slot hc hg (by omega)]
  by_cases hgt : g = tf
  · right
    rw [hgt, get32_put32_same, Nat.mod_eq_of_lt hlt]
    exact hf
  · rw [frame_put hobj hg ht (by omega) (by omega) (.inl hgt)]
    by_cases hgf : g = ff
    · rw [hgf, get32_put32_same, Nat.mod_eq_of_lt get32_lt,
        frame_put hobj ht hf (by omega) (by omega) (by omega)]
      exact h tf ht
    · rw [frame_put hobj hg hf (by omega) (by omega) (.inl hgf),
        frame_put hobj hg hf (by omega) (by omega) (.inl hgf)]
      exact h g hg

theorem findMapped_link {fuel l : ℕ} (h : ∀ f ∈ F, frameNext mem f = 0 ∨ frameNext mem f ∈ F)
    (hf : f ∈ F) (hr : findMapped va mem fuel (f + 24) = some (some l)) :
    ∃ g ∈ F, l = g + 24 ∧ mem.get32 l ∈ F := by
  induction fuel generalizing f with
  | zero => cases hr
  | succ fuel ih =>
    unfold findMapped at hr
    simp only at hr
    split_ifs at hr with h0 hm
    · cases hr
    · cases hr
      exact ⟨f, hf, rfl, (h f hf).resolve_left h0⟩
    · exact ih ((h f hf).resolve_left h0) hr

end Objects

theorem Owned.sound {boot : List (ℕ × ℕ)} {g : List Making} {m : Machine} {u : Addr} {cid : ℤ}
    (h : Owned boot m.kernel g) (hc : CidOk cid) :
    Sound {f | f ∈ live boot g ∧ objType m.kernel.mem f = objFrame} u cid m := by
  intro c hf
  unfold findFrame procFindCapType at hf
  cases hp : procFindCap u cid m.kernel with
  | none =>
    rw [hp] at hf
    cases hf
  | some a =>
    rw [hp] at hf
    simp only at hf
    split_ifs at hf with h1 h2
    cases hf
    have hne : capPerm m.kernel.mem c ≠ 0 := by
      intro h0
      rw [h0] at h1
      exact h1 (by decide)
    have htype : objType m.kernel.mem (capObj m.kernel.mem c) = objFrame := by
      by_contra ht
      exact h2 ⟨hne, ht⟩
    refine ⟨⟨h.obj hc hp hne, htype⟩, ?_⟩
    rintro f ⟨hlive, hframe⟩
    obtain ⟨l, hl, hlist, hlow, hhigh, -⟩ := (procFindCap_slot h hc hp).within
    have hne' : l ≠ f := by
      rintro rfl
      rw [hlist] at hframe
      cases hframe
    have hap := h.part.packed.apart l hl f hlive hne'
    have hlen : objLen m.kernel.mem f = 28 := by
      unfold objLen
      rw [hframe]
      rfl
    unfold Apart at *
    omega

/-- How a call ends that keeps the tables isolated: nothing is written outside a table, and in the
window's tables nothing but by `kernel_map` and `kernel_unmap`. -/
def Ending.Contained (F T : Set ℕ) (m : Machine) : Ending → Prop
  | .ret _ wrote m' => Isolated F T m' ∧ OffWindow m wrote
  | .sched _ _ => False
  | .panic => True
  | .astray => False
  | .stuck => True

section Calls

variable {F T : Set ℕ} {m m' m₀ : Machine} {u : Addr} {tid cid nid : ℤ} {va fuel : ℕ}

theorem Isolated.err (h : Isolated F T m) : (Ending.ret ERR [] m).Contained F T m :=
  ⟨h, fun _ hw => absurd hw List.not_mem_nil⟩

theorem Tables.setMem {x : Frames} {mem : Bytes} (h : Tables F T x m) :
    Tables F T x (m.setMem mem) :=
  h.congr (h.placed.same rfl rfl rfl rfl rfl rfl h.placed.next) rfl rfl (fun _ _ _ => rfl)
    fun _ _ _ _ _ _ => rfl

theorem Frames.setType_same {x : Frames} {f t : ℕ} : (x.setType f t).type f = t :=
  Function.update_self ..

theorem Frames.setType_ne {x : Frames} {f g t : ℕ} (h : g ≠ f) :
    (x.setType f t).type g = x.type g := Function.update_of_ne h ..

theorem Isolated.of {x : Frames} {mem : Bytes}
    (hobj : ∀ f ∈ F, ∀ f' ∈ F, f ≠ f' → Apart f 28 f' 28) (h : Tables F T x m)
    (hpa : ∀ f ∈ F, framePa mem f = x.pa f) (hlen : ∀ f ∈ F, frameLen mem f = x.len f)
    (ht : ∀ f ∈ F, frameType mem f = x.type f)
    (hnext : ∀ f ∈ F, frameNext mem f = 0 ∨ frameNext mem f ∈ F) : Isolated F T (m.setMem mem) :=
  ⟨hobj, hnext, h.setMem.agree hpa hlen ht⟩

theorem l1Setup_mem {mem : Bytes} {f : ℕ} (h : Isolated F T m) (hf : f ∈ F)
    (hm : Tables F T ((framesOf m.kernel.mem).setType f frameL1) m')
    (hmem : mem = m.kernel.mem) :
    Isolated F T (m'.setMem (((mem.put32 (f + 16) frameL1).put32 (f + 20) 0).put32 (f + 24) 0)) := by
  subst hmem
  have hobj := h.objects
  refine Isolated.of hobj hm (fun g hg => ?_) (fun g hg => ?_) (fun g hg => ?_) fun g hg => ?_
  · unfold framePa
    rw [frame_put hobj hg hf (by omega) (by omega) (by omega),
      frame_put hobj hg hf (by omega) (by omega) (by omega),
      frame_put hobj hg hf (by omega) (by omega) (by omega)]
    rfl
  · unfold frameLen
    rw [frame_put hobj hg hf (by omega) (by omega) (by omega),
      frame_put hobj hg hf (by omega) (by omega) (by omega),
      frame_put hobj hg hf (by omega) (by omega) (by omega)]
    rfl
  · unfold frameType
    rw [frame_put hobj hg hf (by omega) (by omega) (by omega),
      frame_put hobj hg hf (by omega) (by omega) (by omega)]
    by_cases hgf : g = f
    · subst hgf
      rw [get32_put32_same, Frames.setType_same]
      rfl
    · rw [frame_put hobj hg hf (by omega) (by omega) (.inl hgf), Frames.setType_ne hgf]
      rfl
  · unfold frameNext
    by_cases hgf : g = f
    · left
      rw [hgf, get32_put32_same]
      rfl
    · rw [frame_put hobj hg hf (by omega) (by omega) (.inl hgf),
        frame_put hobj hg hf (by omega) (by omega) (.inl hgf),
        frame_put hobj hg hf (by omega) (by omega) (.inl hgf)]
      exact h.next g hg

theorem sysFrameL1Setup_contained (h : Isolated F T m)
    (hb : (FrameCall.l1Setup cid).Below F u m) : (sysFrameL1Setup u cid m).Contained F T m := by
  obtain ⟨hsound, hfits⟩ := hb
  unfold sysFrameL1Setup frameL1SetupAt
  cases hc : findFrame u cid m with
  | none => exact h.err
  | some c =>
    obtain ⟨hf, hoff⟩ := hsound c hc
    simp only
    generalize capObj m.kernel.mem c = f at hf
    split
    · exact h.err
    · rename_i htype
      split
      · exact h.err
      · split
        · exact h.err
        · rename_i hlen
          have htype : frameType m.kernel.mem f = frameMem := not_not.mp htype
          have hlen : frameLen m.kernel.mem f = 0x4000 := not_not.mp hlen
          apply kernelMap_fits h.tables.placed.next hfits trivial
          intro va m' hb hheld _
          have hcopy := (h.tables.beside hb).l1Setup hf htype hlen
          have hheld : Held m' va 0x4000 := hheld (by decide)
          have hdone := hcopy.beside (kernelUnmap_beside (hheld.congr rfl rfl))
          refine ⟨l1Setup_mem h hf hdone (congrArg Kernel.mem hb.kernel), fun w hw => ?_⟩
          rw [List.mem_singleton.mp hw]
          have hk := (h.tables.placed.off f hf).l2
          change Apart (framePa m.kernel.mem f) 0x4000 _ _
          rw [← hlen]
          exact hk

theorem l2Map_mem {mem : Bytes} {tf ff c : ℕ} (h : Isolated F T m) (ht : tf ∈ F) (hf : ff ∈ F)
    (hne : tf ≠ ff) (hc : OffFrames F c) (hlt : ff < 2 ^ 32)
    (hm : Tables F T ((framesOf m.kernel.mem).setType ff frameL2) m')
    (hmem : mem = m.kernel.mem) :
    Isolated F T (m'.setMem (setCap c 0 0 (pushFrame tf ff va (mem.put32 (ff + 16) frameL2)))) := by
  subst hmem
  have hobj := h.objects
  obtain ⟨hpa, hlen, htype⟩ := @pushFrame_same F (m.kernel.mem.put32 (ff + 16) frameL2) c 0 0 tf ff va
    hobj ht hf hc
  have hnext : ∀ g ∈ F, frameNext (m.kernel.mem.put32 (ff + 16) frameL2) g = 0 ∨
      frameNext (m.kernel.mem.put32 (ff + 16) frameL2) g ∈ F := by
    intro g hg
    unfold frameNext
    rw [frame_put hobj hg hf (by omega) (by omega) (by omega)]
    exact h.next g hg
  refine Isolated.of hobj hm (fun g hg => ?_) (fun g hg => ?_) (fun g hg => ?_) fun g hg => ?_
  · rw [hpa g hg]
    exact frame_put hobj hg hf (by omega) (by omega) (by omega)
  · rw [hlen g hg]
    exact frame_put hobj hg hf (by omega) (by omega) (by omega)
  · rw [htype g hg]
    unfold frameType
    by_cases hgf : g = ff
    · subst hgf
      rw [get32_put32_same, Frames.setType_same]
      rfl
    · rw [frame_put hobj hg hf (by omega) (by omega) (.inl hgf), Frames.setType_ne hgf]
      rfl
  · exact pushFrame_next hobj ht hf hc hlt hnext hg

theorem sysFrameL2Map_contained (h : Isolated F T m)
    (hb : (FrameCall.l2Map tid cid va).Below F u m) :
    (sysFrameL2Map u tid cid va m).Contained F T m := by
  obtain ⟨⟨hsound, hsound'⟩, hbelow⟩ := hb
  unfold sysFrameL2Map frameL2MapAt
  split
  · rename_i tc fc htc hfc
    obtain ⟨ht, -⟩ := hsound tc htc
    obtain ⟨hf, hoff⟩ := hsound' fc hfc
    have hlt : capObj m.kernel.mem fc < 2 ^ 32 := get32_lt
    have hbelow := hbelow tc fc htc hfc
    simp only
    generalize capObj m.kernel.mem tc = tf at ht hbelow
    generalize capObj m.kernel.mem fc = ff at hf hbelow hlt
    split
    · exact h.err
    · rename_i hl1
      split
      · exact h.err
      · rename_i hmem
        have hl1 : frameType m.kernel.mem tf = frameL1 := not_not.mp hl1
        have hmem : frameType m.kernel.mem ff = frameMem := not_not.mp hmem
        obtain ⟨hva, hfits⟩ := hbelow hl1 hmem
        have hlow := h.tables.placed.low
        have hshort : frameLen m.kernel.mem ff + 4095 < 2 ^ 32 := by
          unfold pageCount at hva
          omega
        have hne : tf ≠ ff := by
          rintro rfl
          rw [hl1] at hmem
          cases hmem
        apply kernelMap_fits h.tables.placed.next hfits trivial
        intro l1 m₁ hb₁ hheld₁ hfits
        have htab₁ := h.tables.beside hb₁
        apply kernelMap_fits htab₁.placed.next hfits trivial
        intro l2 m₂ hb₂ hheld₂ _
        rw [if_neg (by omega)]
        have hvaMin : m₂.vaMin = m.vaMin := hb₂.vaMin.trans hb₁.vaMin
        have hmap := (htab₁.beside hb₂).l2Map ht hf hl1 hmem (hvaMin ▸ hva)
        have hheld₂ : Held m₂ l2 (frameLen m.kernel.mem ff) := hheld₂ hshort
        have hheld₁ : Held m₁ l1 0x4000 := hheld₁ (by decide)
        have hdone := hmap.beside (kernelUnmap_beside (hheld₂.congr rfl rfl))
        have hdone := hdone.beside (kernelUnmap_beside (hheld₁.congr hb₂.vaMin hb₂.vaMax))
        have hkernel : m₂.kernel.mem = m.kernel.mem :=
          congrArg Kernel.mem (hb₂.kernel.trans hb₁.kernel)
        refine ⟨l2Map_mem h ht hf hne hoff hlt hdone hkernel, fun w hw => ?_⟩
        rcases List.mem_cons.mp hw with rfl | hw
        · exact (h.tables.placed.off ff hf).l2
        · rw [List.mem_singleton.mp hw]
          have hk := (h.tables.placed.off tf ht).l2
          have htlen := (h.tables.l1 tf ht hl1).1
          change frameLen m.kernel.mem tf = 0x4000 at htlen
          change Apart (framePa m.kernel.mem tf) (frameLen m.kernel.mem tf) _ _ at hk
          rw [htlen] at hk
          change Apart (framePa m.kernel.mem tf + 4 * l1x va) _ _ _
          unfold Apart at *
          omega
  · exact h.err

theorem sysFrameMap_contained {cache : Bool} (h : Isolated F T m)
    (hb : (FrameCall.map tid cid va cache).Below F u m) :
    (sysFrameMap fuel u tid cid va cache m).Contained F T m := by
  obtain ⟨⟨hsound, hsound'⟩, hbelow⟩ := hb
  unfold sysFrameMap frameMapAt
  split
  · rename_i tc fc htc hfc
    obtain ⟨ht, -⟩ := hsound tc htc
    obtain ⟨hf, hoff⟩ := hsound' fc hfc
    have hlt : capObj m.kernel.mem fc < 2 ^ 32 := get32_lt
    have hbelow := hbelow tc fc htc hfc
    simp only
    generalize capObj m.kernel.mem tc = tf at ht hbelow
    generalize capObj m.kernel.mem fc = ff at hf hbelow hlt
    split
    · exact h.err
    · rename_i hl1
      split
      · exact h.err
      · rename_i htype
        have hl1 : frameType m.kernel.mem tf = frameL1 := not_not.mp hl1
        obtain ⟨hshort, hpages, hfits⟩ := hbelow hl1 (by tauto)
        apply kernelMap_fits h.tables.placed.next hfits trivial
        intro l1 m₁ hb₁ hheld₁ hfits
        have hheld : Held m l1 0x4000 := (hheld₁ (by decide)).congr hb₁.vaMin.symm hb₁.vaMax.symm
        rw [hb₁.kernel]
        refine @frameMapLoop_tables F T (framesOf m.kernel.mem) m₁ m _ _ va 0 tf _ l1 fuel none
          (Ending.Contained F T m) _ [] trivial trivial ht hl1 hshort hpages ?_
          (h.tables.beside hb₁) hb₁.fixed (fun _ hw => absurd hw List.not_mem_nil) hfits hheld nofun
        intro wrote m' htab hfix hwrote
        refine ⟨?_, hwrote⟩
        have hkernel : m'.kernel.mem = m.kernel.mem := congrArg Kernel.mem hfix.kernel
        rw [hkernel]
        obtain ⟨hpa, hlen, hty⟩ := @pushFrame_same F m.kernel.mem fc 0 0 tf ff va h.objects ht hf hoff
        exact Isolated.of h.objects htab hpa hlen hty fun g hg =>
          pushFrame_next h.objects ht hf hoff hlt h.next hg
  · exact h.err

theorem unlink_same {mem : Bytes} {v g ff : ℕ} (hobj : ∀ f ∈ F, ∀ f' ∈ F, f ≠ f' → Apart f 28 f' 28) (hg : g ∈ F)
    (hf : ff ∈ F) : SameFrames F mem (((mem.put32 (g + 24) v).put32 (ff + 24) 0).put32 (ff + 20) 0) := by
  refine ⟨fun f hF => ?_, fun f hF => ?_, fun f hF => ?_⟩
  · unfold framePa
    rw [frame_put hobj hF hf (by omega) (by omega) (by omega), frame_put hobj hF hf (by omega) (by omega) (by omega),
      frame_put hobj hF hg (by omega) (by omega) (by omega)]
  · unfold frameLen
    rw [frame_put hobj hF hf (by omega) (by omega) (by omega), frame_put hobj hF hf (by omega) (by omega) (by omega),
      frame_put hobj hF hg (by omega) (by omega) (by omega)]
  · unfold frameType
    rw [frame_put hobj hF hf (by omega) (by omega) (by omega), frame_put hobj hF hf (by omega) (by omega) (by omega),
      frame_put hobj hF hg (by omega) (by omega) (by omega)]

theorem unlink_isolated {l : ℕ} (h : Isolated F T m) {g ff : ℕ} (hg : g ∈ F) (hl : l = g + 24)
    (hf : ff ∈ F) : Isolated F T (m.setMem (((m.kernel.mem.put32 l
      (frameNext m.kernel.mem ff)).put32 (ff + 24) 0).put32 (ff + 20) 0)) := by
  subst hl
  have hobj := h.objects
  obtain ⟨hpa, hlen, htype⟩ := @unlink_same F m.kernel.mem (frameNext m.kernel.mem ff) g ff hobj hg hf
  refine Isolated.of hobj h.tables hpa hlen htype fun f hF => ?_
  · unfold frameNext
    rw [frame_put hobj hF hf (by omega) (by omega) (by omega)]
    by_cases hff : f = ff
    · left
      rw [hff, get32_put32_same]
      rfl
    · rw [frame_put hobj hF hf (by omega) (by omega) (.inl hff)]
      by_cases hfg : f = g
      · rw [hfg, get32_put32_same, Nat.mod_eq_of_lt get32_lt]
        exact h.next ff hf
      · rw [frame_put hobj hF hg (by omega) (by omega) (.inl hfg)]
        exact h.next f hF

theorem slot_isolated {c p q : ℕ} {mem : Bytes} (h : Isolated F T m)
    (hm : Tables F T (framesOf m.kernel.mem) m') (hc : OffFrames F c) (hmem : mem = m.kernel.mem) :
    Isolated F T (m'.setMem (setCap c p q mem)) := by
  subst hmem
  refine Isolated.of h.objects hm (fun f hf => ?_) (fun f hf => ?_) (fun f hf => ?_) fun f hf => ?_
  · exact frame_slot hc hf (by omega)
  · exact frame_slot hc hf (by omega)
  · exact frame_slot hc hf (by omega)
  · unfold frameNext
    rw [frame_slot hc hf (by omega)]
    exact h.next f hf

theorem sysFrameUnmap_contained (h : Isolated F T m)
    (hb : (FrameCall.unmap tid nid va).Below F u m) :
    (sysFrameUnmap fuel u tid nid va m).Contained F T m := by
  obtain ⟨⟨hsound, hslot⟩, hbelow⟩ := hb
  unfold sysFrameUnmap frameUnmapAt
  split
  · rename_i tc fc htc hfc
    obtain ⟨ht, -⟩ := hsound tc htc
    have hoff := hslot fc hfc
    have hbelow := fun fuel f => hbelow tc fuel f htc
    simp only
    generalize capObj m.kernel.mem tc = tf at ht hbelow
    split
    · exact h.err
    · rename_i hl1
      split
      · trivial
      · exact h.err
      · rename_i l hl
        obtain ⟨g, hg, hlink, hf⟩ := findMapped_link h.next ht hl
        have hbelow := hbelow fuel l (not_not.mp hl1) hl
        generalize m.kernel.mem.get32 l = ff at hf hbelow
        have h₁ := unlink_isolated h hg hlink hf
        have hsame := @unlink_same F m.kernel.mem (frameNext m.kernel.mem ff) g ff h.objects hg hf
        rw [← hlink] at hsame
        have htf : frameType (((m.kernel.mem.put32 l (frameNext m.kernel.mem ff)).put32
            (ff + 24) 0).put32 (ff + 20) 0) tf = frameL1 := (hsame.type tf ht).trans (not_not.mp hl1)
        have hlen : frameLen (((m.kernel.mem.put32 l (frameNext m.kernel.mem ff)).put32
            (ff + 24) 0).put32 (ff + 20) 0) ff = frameLen m.kernel.mem ff := hsame.len ff hf
        rw [← hlen] at hbelow
        have hbelow₁ : BelowWindow (m.setMem (((m.kernel.mem.put32 l
            (frameNext m.kernel.mem ff)).put32 (ff + 24) 0).put32 (ff + 20) 0)) va (frameLen
              (((m.kernel.mem.put32 l (frameNext m.kernel.mem ff)).put32 (ff + 24) 0).put32
                (ff + 20) 0) ff) := ⟨hbelow.short, hbelow.below, hbelow.fits⟩
        have hwindow : ∀ wrote, OffWindow (m.setMem (((m.kernel.mem.put32 l
            (frameNext m.kernel.mem ff)).put32 (ff + 24) 0).put32 (ff + 20) 0)) wrote →
            OffWindow m wrote := fun _ hw => hw
        generalize ((m.kernel.mem.put32 l (frameNext m.kernel.mem ff)).put32 (ff + 24) 0).put32
          (ff + 20) 0 = mem at *
        obtain ⟨hshort, hpages, hfits⟩ := hbelow₁
        apply kernelMap_fits h₁.tables.placed.next hfits trivial
        intro l1 m₁ hb₁ hheld₁ hfits
        have hheld : Held (m.setMem mem) l1 0x4000 :=
          (hheld₁ (by decide)).congr hb₁.vaMin.symm hb₁.vaMax.symm
        rw [hb₁.kernel]
        refine @frameUnmapLoop_tables F T (framesOf mem) m₁ (m.setMem mem) _ va 0 tf l1 fuel 0 none
          (Ending.Contained F T m) _ [] trivial trivial ht htf hshort hpages ?_
          (h₁.tables.beside hb₁) hb₁.fixed (fun _ hw => absurd hw List.not_mem_nil) hfits hheld nofun
        intro wrote m' htab hfix hwrote
        exact ⟨slot_isolated h₁ htab hoff (congrArg Kernel.mem hfix.kernel), hwindow _ hwrote⟩
  · exact h.err

theorem FrameCall.run_contained {c : FrameCall} (h : Isolated F T m) (hb : c.Below F u m) :
    (c.run fuel u m).Contained F T m := by
  cases c with
  | l1Setup cid => exact sysFrameL1Setup_contained h hb
  | l2Map tid cid va => exact sysFrameL2Map_contained h hb
  | map tid cid va cache => exact sysFrameMap_contained h hb
  | unmap tid nid va => exact sysFrameUnmap_contained h hb

def FrameStep (P : Addr → Machine → FrameCall → Prop) (m m' : Machine) : Prop :=
  ∃ u c fuel r wrote, P u m c ∧ c.run fuel u m = .ret r wrote m'

def FrameReach (P : Addr → Machine → FrameCall → Prop) : Machine → Machine → Prop :=
  Relation.ReflTransGen (FrameStep P)

theorem FrameReach.isolated (h : Isolated F T m₀)
    (hs : FrameReach (fun u m c => c.Below F u m) m₀ m) : Isolated F T m := by
  induction hs with
  | refl => exact h
  | tail _ hstep ih =>
    obtain ⟨u, c, fuel, r, wrote, hb, hrun⟩ := hstep
    have hc := @FrameCall.run_contained F T _ u fuel c ih hb
    rw [hrun] at hc
    exact hc.1

/-- In a run of calls below the window every L1 frame keeps the kernel's entries for the window, and
the next such call goes nowhere outside its tables, nor into those of the window. -/
theorem kernel_window_isolated (h : Isolated F T m₀)
    (hs : FrameReach (fun u m c => c.Below F u m) m₀ m) :
    (∀ f ∈ F, frameType m.kernel.mem f = frameL1 → ∀ i, l1x m.vaMin ≤ i → i < 0x1000 →
      m.phys.get32 (framePa m.kernel.mem f + 4 * i) = m.phys.get32 (m.kernelL1 + 4 * i)) ∧
    ∀ u (c : FrameCall) fuel, c.Below F u m → c.run fuel u m ≠ .astray ∧
      ∀ r wrote m', c.run fuel u m = .ret r wrote m' → OffWindow m wrote := by
  have hm := hs.isolated h
  refine ⟨fun f hf ht => (hm.tables.l1 f hf ht).2.window, fun u c fuel hb => ?_⟩
  have hc := @FrameCall.run_contained F T m u fuel c hm hb
  constructor
  · intro ha
    rw [ha] at hc
    exact hc
  · intro r wrote m' hrun
    rw [hrun] at hc
    exact hc.2

end Calls

def twoFrames : Bytes :=
  let mem := put32 (fun _ => 0) 8196 2
  let mem := setCap 8216 3 20480 (setCap 8208 3 16384 mem)
  let mem := (mem.put32 16388 5).put32 16392 0x10000
  let mem := (mem.put32 16396 0x4000).put32 16400 3
  let mem := (mem.put32 20484 5).put32 20488 0x20000
  (mem.put32 20492 0x1000).put32 20496 1

def windowPhys : Bytes :=
  let mem := (put32 (fun _ => 0) 0x12000 0x108001).put32 0x12004 0x109001
  (mem.put32 0x102000 0x108001).put32 0x102004 0x109001

theorem windowPhys_zero {a : ℕ} (h : a + 4 ≤ 0x12000 ∨ 0x12008 ≤ a ∧ a + 4 ≤ 0x102000 ∨ 0x102008 ≤ a) :
    windowPhys.get32 a = 0 := by
  unfold windowPhys
  simp only
  rw [get32_put32_ne (by omega), get32_put32_ne (by omega), get32_put32_ne (by omega), get32_put32_ne (by omega)]
  rfl

theorem windowPhys_window {i : ℕ} (h : 0x800 ≤ i) (hi : i < 0x1000) :
    windowPhys.get32 (0x10000 + 4 * i) = windowPhys.get32 (0x100000 + 4 * i) := by
  rcases Nat.lt_or_ge i 0x802 with hlow | hhigh
  · obtain rfl | rfl : i = 0x800 ∨ i = 0x801 := by omega
    · decide +kernel
    · decide +kernel
  · rw [windowPhys_zero (by omega), windowPhys_zero (by omega)]

def twoFrameMachine : Machine where
  kernel :=
    { Kernel.boot twoFrames with
      proc := fun p => if p = 4096 then { Proc.zero with capRoot := some 8192 } else .zero
      up := some 4096 }
  phys := windowPhys
  vaNext := 0x80002000
  vaMin := 0x80000000
  vaMax := 0x80200000
  kernelL1 := 0x100000
  kernelL2 := 0x108000

def twoFrameSet : Set ℕ := {f | f = 16384 ∨ f = 20480}

theorem twoFrameMachine_isolated : Isolated twoFrameSet ∅ twoFrameMachine := by
  refine ⟨?_, ?_, ⟨⟨?_, ?_, ?_, nofun, ?_, by decide, by decide⟩, ?_, ?_⟩⟩
  · rintro f (rfl | rfl) g (rfl | rfl) hne <;> first | exact absurd rfl hne | (unfold Apart; decide)
  · rintro f (rfl | rfl)
    · exact .inl (by decide +kernel)
    · exact .inl (by decide +kernel)
  · rintro f (rfl | rfl)
    · decide +kernel
    · decide +kernel
  · have h1 : framePa twoFrames 16384 = 0x10000 ∧ frameLen twoFrames 16384 = 0x4000 ∧
        framePa twoFrames 20480 = 0x20000 ∧ frameLen twoFrames 20480 = 0x1000 := by decide +kernel
    rintro f (rfl | rfl) g (rfl | rfl) hne
    · exact absurd rfl hne
    · change Apart (framePa twoFrames _) (frameLen twoFrames _) (framePa twoFrames _) (frameLen twoFrames _)
      rw [h1.1, h1.2.1, h1.2.2.1, h1.2.2.2]
      unfold Apart
      decide
    · change Apart (framePa twoFrames _) (frameLen twoFrames _) (framePa twoFrames _) (frameLen twoFrames _)
      rw [h1.1, h1.2.1, h1.2.2.1, h1.2.2.2]
      unfold Apart
      decide
    · exact absurd rfl hne
  · have h1 : framePa twoFrames 16384 = 0x10000 ∧ frameLen twoFrames 16384 = 0x4000 ∧
        framePa twoFrames 20480 = 0x20000 ∧ frameLen twoFrames 20480 = 0x1000 := by decide +kernel
    rintro f (rfl | rfl)
    · constructor <;>
      · change Apart (framePa twoFrames _) (frameLen twoFrames _) _ _
        rw [h1.1, h1.2.1]
        unfold Apart
        decide
    · constructor <;>
      · change Apart (framePa twoFrames _) (frameLen twoFrames _) _ _
        rw [h1.2.2.1, h1.2.2.2]
        unfold Apart
        decide
  · unfold Apart
    decide
  · rintro f (rfl | rfl) ht
    · have hpa : framePa twoFrames 16384 = 0x10000 := by decide +kernel
      refine ⟨by decide +kernel, fun i hi hi' => ?_, fun i hi => .inl ?_⟩
      · change windowPhys.get32 (framePa twoFrames 16384 + 4 * i) = _
        rw [hpa]
        exact windowPhys_window hi hi'
      · change i < 0x800 at hi
        change windowPhys.get32 (framePa twoFrames 16384 + 4 * i) = 0
        rw [hpa]
        exact windowPhys_zero (by omega)
    · exact absurd ht (by decide +kernel)
  · intro i hi
    change i < 0x800 at hi
    exact .inl (windowPhys_zero (a := 0x100000 + 4 * i) (by omega))

theorem twoFrameMachine_sound : Sound twoFrameSet 4096 4096 twoFrameMachine ∧
    Sound twoFrameSet 4096 8192 twoFrameMachine := by
  have h1 : findFrame 4096 4096 twoFrameMachine = some 8208 := by decide +kernel
  have h2 : findFrame 4096 8192 twoFrameMachine = some 8216 := by decide +kernel
  constructor
  · intro c hc
    cases h1.symm.trans hc
    refine ⟨.inl (by decide +kernel), ?_⟩
    rintro f (rfl | rfl) <;> (unfold Apart; decide)
  · intro c hc
    cases h2.symm.trans hc
    refine ⟨.inr (by decide +kernel), ?_⟩
    rintro f (rfl | rfl) <;> (unfold Apart; decide)

def callTo (fuel : ℕ) (u : Addr) (c : FrameCall) (m : Machine) : Machine :=
  match c.run fuel u m with
  | .ret _ _ m' => m'
  | _ => m

theorem callTo_reach {P : Addr → Machine → FrameCall → Prop} {fuel : ℕ} {u : Addr} {c : FrameCall}
    {m : Machine} (h : P u m c) : FrameReach P m (callTo fuel u c m) := by
  unfold callTo
  cases hx : c.run fuel u m with
  | ret r wrote m' => exact .tail .refl ⟨u, c, fuel, r, wrote, h, hx⟩
  | _ => exact .refl

theorem twoFrameMachine_below :
    (FrameCall.l2Map 4096 8192 0).Below twoFrameSet 4096 twoFrameMachine := by
  refine ⟨twoFrameMachine_sound, ?_⟩
  have h1 : findFrame 4096 4096 twoFrameMachine = some 8208 := by decide +kernel
  have h2 : findFrame 4096 8192 twoFrameMachine = some 8216 := by decide +kernel
  rintro tc fc htc hfc - -
  cases h1.symm.trans htc
  cases h2.symm.trans hfc
  have hlen : frameLen twoFrameMachine.kernel.mem (capObj twoFrameMachine.kernel.mem 8216) = 0x1000 := by
    decide +kernel
  rw [hlen]
  refine ⟨by decide, fun y hy => ⟨?_, fun z hz => ⟨?_, trivial⟩⟩⟩
  · cases (show windowPlace twoFrameMachine.vaMax (pageAlign 0x4000) twoFrameMachine.vaNext =
      some 0x80002000 by decide).symm.trans hy
    decide
  · cases (show windowPlace twoFrameMachine.vaMax (pageAlign 0x4000) twoFrameMachine.vaNext =
      some 0x80002000 by decide).symm.trans hy
    cases (show windowPlace twoFrameMachine.vaMax (pageAlign 0x1000)
      ((0x80002000 + pageAlign 0x4000) % 2 ^ 32) = some 0x80006000 by decide).symm.trans hz
    decide

theorem kernel_window_isolated_l2Map :
    (callTo 0 4096 (.l2Map 4096 8192 0) twoFrameMachine).phys.get32 0x10000 = 0x20001 ∧
    (callTo 0 4096 (.l2Map 4096 8192 0) twoFrameMachine).phys.get32 (0x100000 + 4 * 0x800) = 0x108001 ∧
    (callTo 0 4096 (.l2Map 4096 8192 0) twoFrameMachine).phys.get32
      (framePa (callTo 0 4096 (.l2Map 4096 8192 0) twoFrameMachine).kernel.mem 16384 + 4 * 0x800) =
    (callTo 0 4096 (.l2Map 4096 8192 0) twoFrameMachine).phys.get32
      ((callTo 0 4096 (.l2Map 4096 8192 0) twoFrameMachine).kernelL1 + 4 * 0x800) := by
  have htype : frameType (callTo 0 4096 (.l2Map 4096 8192 0) twoFrameMachine).kernel.mem 16384 = frameL1 := by
    decide +kernel
  have hfirst : l1x (callTo 0 4096 (.l2Map 4096 8192 0) twoFrameMachine).vaMin ≤ 0x800 := by decide +kernel
  refine ⟨by decide +kernel, by decide +kernel, ?_⟩
  exact (kernel_window_isolated twoFrameMachine_isolated (callTo_reach twoFrameMachine_below)).1
    16384 (.inl rfl) htype 0x800 hfirst (by decide)

theorem kernel_window_entered : ∃ m, FrameReach (fun _ _ _ => True) twoFrameMachine m ∧
    frameType m.kernel.mem 16384 = frameL1 ∧ l1x m.vaMin ≤ 0x800 ∧
    m.phys.get32 (framePa m.kernel.mem 16384 + 4 * 0x800) ≠
      m.phys.get32 (m.kernelL1 + 4 * 0x800) := by
  refine ⟨callTo 0 4096 (.l2Map 4096 8192 0x80000000) twoFrameMachine, callTo_reach trivial, ?_, ?_, ?_⟩
  · decide +kernel
  · decide +kernel
  · decide +kernel

end Agatha.Sys
