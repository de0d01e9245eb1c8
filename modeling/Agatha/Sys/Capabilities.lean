import Agatha.Sys.Calls
import Agatha.Sys.ObjectGrants

namespace Agatha.Sys

open Kernel Library Library.Bytes Library.Areas

structure MovesTo (S : Set ℕ) (mem mem' : Bytes) (a b : ℕ) : Prop where
  slot : b ∈ S
  free : capPerm mem b = 0
  perm : capPerm mem' b = capPerm mem a
  obj : capObj mem' b = capObj mem a
  only : ∀ c ∈ S, capPerm mem c = 0 → capPerm mem' c ≠ 0 → capObj mem' c = capObj mem a → c = b

/-- Every capability in the slots `S` stays where it is, or its slot is empty afterwards: then it has moved to one that
was empty, or the slot is one of `used`. -/
def CapsKept (S used : Set ℕ) (mem mem' : Bytes) : Prop :=
  ∀ a ∈ S, capPerm mem a ≠ 0 →
    (capPerm mem' a = capPerm mem a ∧ capObj mem' a = capObj mem a) ∨
    (capPerm mem' a = 0 ∧ ((∃ b, MovesTo S mem mem' a b) ∨ a ∈ used))

def OnList (mem : Bytes) (L M : Set ℕ) (f : ℕ) : Prop :=
  f ∈ M ∨ f ∈ L ∧ objType mem f = objFrame ∧ frameType mem f = frameL1

structure FrameLists (mem : Bytes) (L M : Set ℕ) : Prop where
  live : ∀ f ∈ M, f ∈ L ∧ objType mem f = objFrame ∧ frameType mem f ≠ frameL1
  unnamed : ∀ f ∈ M, ∀ a, IsSlot mem L a → capPerm mem a ≠ 0 → capObj mem a ≠ f
  next : ∀ f, OnList mem L M f → frameNext mem f ≠ 0 → frameNext mem f ∈ M
  once : ∀ f f', OnList mem L M f → OnList mem L M f' → frameNext mem f ≠ 0 →
    frameNext mem f = frameNext mem f' → f = f'

structure Effect (mem mem' : Bytes) (L L' W D : Set ℕ) : Prop where
  slot : ∀ a, IsSlot mem L a → a ∉ W → Agree mem' mem a 8
  old : ∀ a, IsSlot mem' L' a → capPerm mem' a ≠ 0 → IsSlot mem L a
  typed : ∀ o ∈ L, objType mem o ≠ objUntyped → o ∈ L' ∧ objType mem' o = objType mem o
  rest : ∀ f ∈ L, objType mem f = objFrame → f ∉ D → Agree mem' mem f 28
  table : ∀ f ∈ L', objType mem' f = objFrame → frameType mem' f = frameL1 →
    f ∈ L ∧ objType mem f = objFrame

section Effects

variable {mem mem' : Bytes} {L L' M W D O S used cover : Set ℕ} {origin : ℕ → ℕ} {a b c f o s n : ℕ}

theorem slot_congr (h : Agree mem' mem a 8) : capPerm mem' a = capPerm mem a ∧ capObj mem' a = capObj mem a :=
  ⟨get32_congr (h.mono (by omega) (by omega)), get32_congr (h.mono (by omega) (by omega))⟩

theorem frame_congr (h : Agree mem' mem f 28) : objType mem' f = objType mem f ∧
    frameType mem' f = frameType mem f ∧ frameNext mem' f = frameNext mem f :=
  ⟨get32_congr (h.mono (by omega) (by omega)), get32_congr (h.mono (by omega) (by omega)),
    get32_congr (h.mono (by omega) (by omega))⟩

theorem objLen_frame (h : objType mem f = objFrame) : objLen mem f = 28 := by
  unfold objLen
  rw [h]
  rfl

theorem Partition.slot_off (h : Partition mem L cover origin) (ha : IsSlot mem L a) (ho : o ∈ L)
    (ht : objType mem o ≠ objCaplist) : Apart a 8 o (objLen mem o) := by
  obtain ⟨c, hc, htc, h1, h2, -⟩ := ha.within
  have hne : c ≠ o := by
    rintro rfl
    exact ht htc
  have hap := h.packed.apart c hc o ho hne
  unfold Apart at hap ⊢
  omega

theorem Effect.of_writes (h : Partition mem L cover origin) (hW : ∀ w ∈ W, IsSlot mem L w)
    (hD : ∀ d ∈ D, d ∈ L ∧ objType mem d ≠ objCaplist) (hO : ∀ o ∈ O, objType mem o = objUntyped)
    (hs : ∀ c ∈ L, c ∉ O → Apart c (objLen mem c) s n) (hL : ∀ c ∈ L, c ∉ O → c ∈ L')
    (hN : ∀ c ∈ L', (c ∈ L ∧ c ∉ O) ∨
      (objType mem' c = objCaplist → ∀ i < clistCaps, capPerm mem' (capSlot c i) = 0) ∧
        (objType mem' c = objFrame → frameType mem' c ≠ frameL1))
    (hout : ∀ x, (∀ w ∈ W, x < w ∨ w + 8 ≤ x) → (∀ d ∈ D, x < d + 8 ∨ d + objLen mem d ≤ x) →
      (x < s ∨ s + n ≤ x) → mem' x = mem x) : Effect mem mem' L L' W D := by
  have hlarge : ∀ c ∈ L, 12 ≤ objLen mem c := h.large
  have hhead : ∀ c ∈ L, c ∉ O → objType mem' c = objType mem c := by
    intro c hc hco
    have hcs := hs c hc hco
    have hcl := hlarge c hc
    apply get32_congr
    intro x h1 h2
    apply hout
    · exact fun w hw => h.head_apart (hW w hw) hc (by omega) (.inl (by omega))
    · intro d hd
      by_cases hdc : d = c
      · omega
      · have hap := h.packed.apart d (hD d hd).1 c hc hdc
        unfold Apart at hap
        omega
    · unfold Apart at hcs
      omega
  have hnot : ∀ c, objType mem c ≠ objUntyped → c ∉ O := fun c hc hco => hc (hO c hco)
  refine ⟨?_, ?_, ?_, ?_, ?_⟩
  · intro a ha haW x h1 h2
    apply hout
    · intro w hw
      have hap := h.slot_apart ha (hW w hw) fun he => haW (he ▸ hw)
      unfold Apart at hap
      omega
    · intro d hd
      have hap := h.slot_off ha (hD d hd).1 (hD d hd).2
      unfold Apart at hap
      omega
    · obtain ⟨c, hc, ht, h3, h4, -⟩ := ha.within
      have hap := hs c hc (hnot c (by rw [ht]; decide))
      unfold Apart at hap
      omega
  · rintro a ⟨c, hc, ht, i, hi, rfl⟩ hp
    rcases hN c hc with ⟨hcL, hcO⟩ | ⟨hempty, -⟩
    · exact ⟨c, hcL, (hhead c hcL hcO).symm.trans ht, i, hi, rfl⟩
    · exact absurd (hempty ht i hi) hp
  · intro c hc ht
    exact ⟨hL c hc (hnot c ht), hhead c hc (hnot c ht)⟩
  · intro f hf ht hfD x h1 h2
    have hfO := hnot f (by rw [ht]; decide)
    have hlen := objLen_frame ht
    apply hout
    · exact fun w hw => h.head_apart (hW w hw) hf (by omega) (.inr ⟨by rw [ht]; decide, by omega⟩)
    · intro d hd
      have hap := h.packed.apart d (hD d hd).1 f hf fun he => hfD (he ▸ hd)
      unfold Apart at hap
      omega
    · have hap := hs f hf hfO
      unfold Apart at hap
      omega
  · intro f hf ht ht'
    rcases hN f hf with ⟨hfL, hfO⟩ | ⟨-, hnew⟩
    · exact ⟨hfL, (hhead f hfL hfO).symm.trans ht⟩
    · exact absurd ht' (hnew ht)

theorem Effect.frame (h : Effect mem mem' L L' W D) (hf : f ∈ L) (ht : objType mem f = objFrame) :
    f ∈ L' ∧ objType mem' f = objFrame := by
  obtain ⟨hf', ht'⟩ := h.typed f hf (by rw [ht]; decide)
  exact ⟨hf', ht'.trans ht⟩

theorem IsSlot.stays (h : ∀ o ∈ L, objType mem o ≠ objUntyped → o ∈ L' ∧ objType mem' o = objType mem o)
    (ha : IsSlot mem L a) : IsSlot mem' L' a := by
  obtain ⟨c, hc, ht, hi⟩ := ha
  obtain ⟨hc', ht'⟩ := h c hc (by rw [ht]; decide)
  exact ⟨c, hc', ht'.trans ht, hi⟩

theorem Effect.of_agree (h : Partition mem L cover origin) (ha : ∀ o ∈ L, Agree mem' mem o (objLen mem o)) :
    Effect mem mem' L L ∅ ∅ := by
  have htype : ∀ o ∈ L, objType mem' o = objType mem o := by
    intro o ho
    have hlarge := h.large o ho
    exact objType_congr ((ha o ho).mono (by omega) (by omega))
  refine ⟨?_, ?_, ?_, ?_, ?_⟩
  · intro a hslot _
    obtain ⟨c, hc, -, h1, h2, -⟩ := hslot.within
    exact (ha c hc).mono (by omega) (by omega)
  · rintro a ⟨c, hc, ht, hi⟩ _
    exact ⟨c, hc, (htype c hc).symm.trans ht, hi⟩
  · exact fun c hc _ => ⟨hc, htype c hc⟩
  · intro f hf ht _
    have hlen := ha f hf
    rw [objLen_frame ht] at hlen
    exact hlen
  · exact fun f hf ht _ => ⟨hf, (htype f hf).symm.trans ht⟩

theorem Effect.kept (h : Effect mem mem' L L' W D)
    (hW : ∀ w ∈ W, capPerm mem w = 0 ∨ w ∈ used ∧ capPerm mem' w = 0) :
    CapsKept {a | IsSlot mem L a} used mem mem' := by
  intro a ha hp
  by_cases haW : a ∈ W
  · rcases hW a haW with h0 | ⟨hu, h0⟩
    · exact absurd h0 hp
    · exact .inr ⟨h0, .inr hu⟩
  · exact .inl (slot_congr (h.slot a ha haW))

theorem Effect.moved (h : Effect mem mem' L L' {a, b} D) (hb : IsSlot mem L b) (hpb : capPerm mem b = 0)
    (ha : capPerm mem' a = 0) (hp : capPerm mem' b = capPerm mem a) (ho : capObj mem' b = capObj mem a) :
    CapsKept {a | IsSlot mem L a} used mem mem' := by
  intro c hc hpc
  by_cases hca : c = a
  · subst hca
    refine .inr ⟨ha, .inl ⟨b, hb, hpb, hp, ho, fun d hd hpd hpd' _ => ?_⟩⟩
    by_contra hdb
    by_cases hdc : d = c
    · rw [hdc] at hpd'
      exact hpd' ha
    · have hsame := slot_congr (h.slot d hd fun hw => hw.elim hdc hdb)
      exact hpd' (hsame.1.trans hpd)
  · have hcb : c ≠ b := by
      rintro rfl
      exact hpc hpb
    exact .inl (slot_congr (h.slot c hc fun hw => hw.elim hca hcb))

theorem Effect.unnamed (h : Effect mem mem' L L' W D)
    (hl : ∀ f ∈ M, ∀ a, IsSlot mem L a → capPerm mem a ≠ 0 → capObj mem a ≠ f)
    (hW : ∀ w ∈ W, capPerm mem' w ≠ 0 → capObj mem' w ∉ M) :
    ∀ f ∈ M, ∀ a, IsSlot mem' L' a → capPerm mem' a ≠ 0 → capObj mem' a ≠ f := by
  intro f hf a ha hp he
  by_cases haW : a ∈ W
  · exact hW a haW hp (he ▸ hf)
  · have hold := h.old a ha hp
    obtain ⟨h1, h2⟩ := slot_congr (h.slot a hold haW)
    exact hl f hf a hold (h1 ▸ hp) (h2 ▸ he)

theorem FrameLists.keep (hl : FrameLists mem L M) (h : Effect mem mem' L L' W D)
    (hW : ∀ w ∈ W, capPerm mem' w ≠ 0 → capObj mem' w ∉ M)
    (hD : ∀ f ∈ D, f ∈ L → objType mem f = objFrame → ¬ OnList mem L M f ∧
      (frameType mem' f = frameL1 → frameNext mem' f = 0)) : FrameLists mem' L' M := by
  have hM : ∀ f ∈ M, f ∉ D := by
    intro f hf hd
    obtain ⟨h1, h2, -⟩ := hl.live f hf
    exact (hD f hd h1 h2).1 (.inl hf)
  have hsame : ∀ f, OnList mem' L' M f →
      frameNext mem' f = 0 ∨ OnList mem L M f ∧ frameNext mem' f = frameNext mem f := by
    rintro f (hf | ⟨hf, ht, ht'⟩)
    · obtain ⟨h1, h2, -⟩ := hl.live f hf
      exact .inr ⟨.inl hf, (frame_congr (h.rest f h1 h2 (hM f hf))).2.2⟩
    · obtain ⟨h1, h2⟩ := h.table f hf ht ht'
      by_cases hd : f ∈ D
      · exact .inl ((hD f hd h1 h2).2 ht')
      · obtain ⟨-, h4, h5⟩ := frame_congr (h.rest f h1 h2 hd)
        exact .inr ⟨.inr ⟨h1, h2, h4 ▸ ht'⟩, h5⟩
  refine ⟨?_, h.unnamed hl.unnamed hW, ?_, ?_⟩
  · intro f hf
    obtain ⟨h1, h2, h3⟩ := hl.live f hf
    obtain ⟨h4, h5⟩ := h.frame h1 h2
    refine ⟨h4, h5, ?_⟩
    rw [(frame_congr (h.rest f h1 h2 (hM f hf))).2.1]
    exact h3
  · intro f hf hne
    rcases hsame f hf with h0 | ⟨hon, hn⟩
    · exact absurd h0 hne
    · rw [hn] at hne ⊢
      exact hl.next f hon hne
  · intro f f' hf hf' hne he
    rcases hsame f hf with h0 | ⟨hon, hn⟩
    · exact absurd h0 hne
    rcases hsame f' hf' with h0 | ⟨hon', hn'⟩
    · exact absurd (he.trans h0) hne
    rw [hn] at hne he
    rw [hn'] at he
    exact hl.once f f' hon hon' hne he

theorem FrameLists.push (hl : FrameLists mem L M) (h : Effect mem mem' L L' W {o, c})
    (hW : ∀ w ∈ W, capPerm mem' w ≠ 0 → capObj mem' w ∉ M)
    (hfree : ∀ a, IsSlot mem' L' a → capPerm mem' a ≠ 0 → capObj mem' a ≠ c)
    (ho : o ∈ L ∧ objType mem o = objFrame ∧ frameType mem o = frameL1)
    (hc : c ∈ L ∧ objType mem c = objFrame) (hcon : ¬ OnList mem L M c)
    (ht : frameType mem' c ≠ frameL1) (hno : frameNext mem' o = c) (hnc : frameNext mem' c = frameNext mem o) :
    FrameLists mem' L' (insert c M) := by
  have hoM : o ∉ M := fun hm => (hl.live o hm).2.2 ho.2.2
  have hcM : c ∉ M := fun hm => hcon (.inl hm)
  have hsame : ∀ f, OnList mem' L' (insert c M) f → f = o ∨ f = c ∨
      f ≠ o ∧ OnList mem L M f ∧ frameNext mem' f = frameNext mem f := by
    intro f hf
    by_cases hfo : f = o
    · exact .inl hfo
    by_cases hfc : f = c
    · exact .inr (.inl hfc)
    have hd : f ∉ ({o, c} : Set ℕ) := fun hd => hd.elim hfo hfc
    rcases hf with hf | ⟨hf, ht, ht'⟩
    · have hf := hf.resolve_left hfc
      obtain ⟨h1, h2, -⟩ := hl.live f hf
      exact .inr (.inr ⟨hfo, .inl hf, (frame_congr (h.rest f h1 h2 hd)).2.2⟩)
    · obtain ⟨h1, h2⟩ := h.table f hf ht ht'
      obtain ⟨-, h4, h5⟩ := frame_congr (h.rest f h1 h2 hd)
      exact .inr (.inr ⟨hfo, .inr ⟨h1, h2, h4 ▸ ht'⟩, h5⟩)
  have hoon : OnList mem L M o := .inr ho
  have hnext : ∀ f, OnList mem L M f → frameNext mem f ≠ 0 → frameNext mem f ≠ c := by
    intro f hon hne he
    exact hcM (he ▸ hl.next f hon hne)
  refine ⟨?_, ?_, ?_, ?_⟩
  · rintro f (rfl | hf)
    · obtain ⟨h1, h2⟩ := h.frame hc.1 hc.2
      exact ⟨h1, h2, ht⟩
    · obtain ⟨h1, h2, h3⟩ := hl.live f hf
      obtain ⟨h4, h5⟩ := h.frame h1 h2
      refine ⟨h4, h5, ?_⟩
      have hd : f ∉ ({o, c} : Set ℕ) := by
        rintro (rfl | rfl)
        · exact hoM hf
        · exact hcM hf
      rw [(frame_congr (h.rest f h1 h2 hd)).2.1]
      exact h3
  · rintro f (rfl | hf)
    · exact hfree
    · exact h.unnamed hl.unnamed hW f hf
  · intro f hf hne
    rcases hsame f hf with rfl | rfl | ⟨-, hon, hn⟩
    · rw [hno]
      exact .inl rfl
    · rw [hnc] at hne ⊢
      exact .inr (hl.next o hoon hne)
    · rw [hn] at hne ⊢
      exact .inr (hl.next f hon hne)
  · -- a frame that was on a list does not go on with `c`, and only the table went on as `c` does now
    have hone : ∀ f f', OnList mem' L' (insert c M) f' → f' ≠ f → f = o ∨ f = c →
        frameNext mem' f ≠ 0 → frameNext mem' f ≠ frameNext mem' f' := by
      rintro f f' hf' hff (rfl | rfl) hne he
      · rcases hsame f' hf' with rfl | rfl | ⟨-, hon, hn⟩
        · exact hff rfl
        · rw [hnc] at he
          rw [he] at hne
          exact hnext _ hoon hne (he.symm.trans hno)
        · rw [hn] at he
          rw [he] at hne
          exact hnext f' hon hne (he.symm.trans hno)
      · rcases hsame f' hf' with rfl | rfl | ⟨hfo, hon, hn⟩
        · rw [hno] at he
          rw [hnc] at hne he
          exact hnext _ hoon hne he
        · exact hff rfl
        · rw [hnc] at hne he
          exact hfo (hl.once o f' hoon hon hne (he.trans hn)).symm
    intro f f' hf hf' hne he
    by_contra hff
    rcases hsame f hf with hfo | hfc | ⟨-, hon, hn⟩
    · exact hone f f' hf' (Ne.symm hff) (.inl hfo) hne he
    · exact hone f f' hf' (Ne.symm hff) (.inr hfc) hne he
    rcases hsame f' hf' with hfo | hfc | ⟨-, hon', hn'⟩
    · exact hone f' f hf hff (.inl hfo) (he ▸ hne) he.symm
    · exact hone f' f hf hff (.inr hfc) (he ▸ hne) he.symm
    · exact hff (hl.once f f' hon hon' (hn ▸ hne) (hn.symm.trans (he.trans hn')))

theorem FrameLists.take (hl : FrameLists mem L M) (h : Effect mem mem' L L' W {o, c})
    (hW : ∀ w ∈ W, capPerm mem' w ≠ 0 → capObj mem' w ∉ M \ {c})
    (ho : OnList mem L M o) (hoc : frameNext mem o = c) (hc : c ∈ M) (hc0 : c ≠ 0)
    (hto : frameType mem' o = frameType mem o) (htc : frameType mem' c = frameType mem c)
    (hno : o ≠ c → frameNext mem' o = frameNext mem c) :
    FrameLists mem' L' (M \ {c}) := by
  have hctype := (hl.live c hc).2.2
  have hframe : ∀ f ∈ L, objType mem f = objFrame → frameType mem' f = frameType mem f := by
    intro f hf ht
    by_cases hd : f ∈ ({o, c} : Set ℕ)
    · rcases hd with rfl | rfl
      · exact hto
      · exact htc
    · exact (frame_congr (h.rest f hf ht hd)).2.1
  have hcon : OnList mem L M c := .inl hc
  -- what is on a list now was before, and goes on as it did unless it went on with `c`
  have hsame : ∀ f, OnList mem' L' (M \ {c}) f → f ≠ c ∧ OnList mem L M f ∧
      (f = o ∧ frameNext mem' f = frameNext mem c ∨ f ≠ o ∧ frameNext mem' f = frameNext mem f) := by
    intro f hf
    have hon : f ≠ c ∧ OnList mem L M f ∧ f ∈ L ∧ objType mem f = objFrame := by
      rcases hf with ⟨hf, hfc⟩ | ⟨hf, ht, ht'⟩
      · obtain ⟨h1, h2, -⟩ := hl.live f hf
        exact ⟨hfc, .inl hf, h1, h2⟩
      · obtain ⟨h1, h2⟩ := h.table f hf ht ht'
        rw [hframe f h1 h2] at ht'
        refine ⟨?_, .inr ⟨h1, h2, ht'⟩, h1, h2⟩
        rintro rfl
        exact hctype ht'
    obtain ⟨hfc, hon, h1, h2⟩ := hon
    refine ⟨hfc, hon, ?_⟩
    by_cases hfo : f = o
    · subst hfo
      exact .inl ⟨rfl, hno hfc⟩
    · exact .inr ⟨hfo, (frame_congr (h.rest f h1 h2 fun hd => hd.elim hfo hfc)).2.2⟩
  refine ⟨?_, h.unnamed (fun f hf => hl.unnamed f hf.1) hW, ?_, ?_⟩
  · rintro f ⟨hf, hfc⟩
    obtain ⟨h1, h2, h3⟩ := hl.live f hf
    obtain ⟨h4, h5⟩ := h.frame h1 h2
    exact ⟨h4, h5, hframe f h1 h2 ▸ h3⟩
  · intro f hf hne
    obtain ⟨hfc, hon, ⟨rfl, hn⟩ | ⟨hfo, hn⟩⟩ := hsame f hf
    · rw [hn] at hne ⊢
      refine ⟨hl.next c hcon hne, ?_⟩
      intro he
      exact hfc (hl.once f c ho hcon (hoc ▸ hc0) (hoc.trans he.symm))
    · rw [hn] at hne ⊢
      refine ⟨hl.next f hon hne, ?_⟩
      intro he
      exact hfo (hl.once f o hon ho hne (he.trans hoc.symm))
  · intro f f' hf hf' hne he
    obtain ⟨hfc, hon, ⟨rfl, hn⟩ | ⟨hfo, hn⟩⟩ := hsame f hf <;>
      obtain ⟨hfc', hon', ⟨rfl, hn'⟩ | ⟨hfo', hn'⟩⟩ := hsame f' hf'
    · rfl
    · rw [hn] at hne he
      exact absurd (hl.once c f' hcon hon' hne (he.trans hn')).symm hfc'
    · rw [hn] at hne he
      exact absurd (hl.once f c hon hcon hne (he.trans hn')) hfc
    · exact hl.once f f' hon hon' (hn ▸ hne) (hn.symm.trans (he.trans hn'))

end Effects

end Agatha.Sys
