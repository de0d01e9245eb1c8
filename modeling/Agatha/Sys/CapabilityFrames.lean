import Agatha.Sys.CapabilityCalls

namespace Agatha.Sys

open Kernel Library Library.Bytes Library.Areas

section Lists

variable {mem : Bytes} {L M : Set ℕ} {p f va fuel : ℕ}

theorem FrameLists.on_live (hl : FrameLists mem L M) (h : OnList mem L M f) : f ∈ L ∧ objType mem f = objFrame := by
  rcases h with h | ⟨h1, h2, -⟩
  · obtain ⟨h1, h2, -⟩ := hl.live f h
    exact ⟨h1, h2⟩
  · exact ⟨h1, h2⟩

theorem findMapped_spec (hl : FrameLists mem L M) (hp : OnList mem L M p)
    (h : findMapped va mem fuel (p + 24) = some (some f)) :
    ∃ q, OnList mem L M q ∧ f = q + 24 ∧ frameNext mem q ≠ 0 := by
  induction fuel generalizing p with
  | zero => cases h
  | succ fuel ih =>
    unfold findMapped at h
    change (if frameNext mem p = 0 then some none
      else if frameType mem (frameNext mem p) ≠ frameL2 ∧ frameVa mem (frameNext mem p) = va then some (some (p + 24))
      else findMapped va mem fuel (frameNext mem p + 24)) = _ at h
    split_ifs at h with h0 hva
    · cases h
    · cases h
      exact ⟨p, hp, rfl, h0⟩
    · exact ih (.inl (hl.next p hp h0)) h

end Lists

section Frames

variable {boot : List (ℕ × ℕ)} {k : Kernel} {g : List Making} {u : Addr} {M : Set ℕ} {m : Machine}
  {tid cid nid : ℤ} {c f va fuel tc fc tf ff p : ℕ} {cache : Bool} {mem : Bytes}

theorem findFrame_slot (h : Owned boot m.kernel g) (hc : CidOk cid) (hf : findFrame u cid m = some c) :
    IsSlot m.kernel.mem (live boot g) c ∧ capPerm m.kernel.mem c ≠ 0 ∧
      objType m.kernel.mem (capObj m.kernel.mem c) = objFrame ∧ procFindCap u cid m.kernel = some c := by
  unfold findFrame procFindCapType at hf
  cases hp : procFindCap u cid m.kernel with
  | none =>
    rw [hp] at hf
    cases hf
  | some b =>
    simp only [hp] at hf
    split_ifs at hf with h1 h2
    cases hf
    have hperm : capPerm m.kernel.mem c ≠ 0 := by
      intro h0
      rw [h0] at h1
      exact h1 (by decide)
    refine ⟨procFindCap_slot h hc hp, hperm, ?_, rfl⟩
    by_contra ht
    exact h2 ⟨hperm, ht⟩

theorem frames_apart (h : Owned boot k g) (ht : tf ∈ live boot g) (hf : ff ∈ live boot g)
    (htt : objType k.mem tf = objFrame) (htf : objType k.mem ff = objFrame) (hne : tf ≠ ff) :
    Apart tf 28 ff 28 := by
  have hap := h.part.packed.apart tf ht ff hf hne
  rwa [objLen_frame htt, objLen_frame htf] at hap

theorem sysFrameL1Setup_orderly (h : Owned boot m.kernel g) (hl : FrameLists m.kernel.mem (live boot g) M)
    (hc : CidOk cid) : (sysFrameL1Setup u cid m).All fun m' => Orderly boot g g ∅ ∅ m.kernel m'.kernel := by
  unfold sysFrameL1Setup frameL1SetupAt
  split
  · exact .same hl h rfl
  rename_i c hf
  obtain ⟨hslot, hp, htype, -⟩ := findFrame_slot h hc hf
  have hlive := h.part.named c hslot hp
  simp only
  by_cases hmem : frameType m.kernel.mem (capObj m.kernel.mem c) ≠ frameMem
  · rw [if_pos hmem]
    exact .same hl h rfl
  rw [if_neg hmem]
  have hoff := hl.off hslot hp (by rw [not_not.mp hmem]; decide)
  split
  · exact .same hl h rfl
  split
  · exact .same hl h rfl
  apply kernelMap_all (Q := fun m' => m'.kernel = m.kernel) Ending.all_tolerant windowed_kernel rfl
  intro va m' hm'
  change Orderly boot g g ∅ ∅ m.kernel
    { m'.kernel with
      mem := ((m'.kernel.mem.put32 (capObj m.kernel.mem c + 16) frameL1).put32 (capObj m.kernel.mem c + 20) 0).put32
        (capObj m.kernel.mem c + 24) 0 }
  rw [hm']
  generalize capObj m.kernel.mem c = f at *
  have hlen := objLen_frame htype
  obtain ⟨h₁, ht₁⟩ := @Owned.frame boot m.kernel g f (f + 16) frameL1 h hlive htype (by omega) (by omega)
  obtain ⟨h₂, ht₂⟩ := @Owned.frame boot _ g f (f + 20) 0 h₁ hlive ht₁ (by omega) (by omega)
  obtain ⟨h₃, -⟩ := @Owned.frame boot _ g f (f + 24) 0 h₂ hlive ht₂ (by omega) (by omega)
  apply Orderly.of_object h hl h₃ hlive
  · rw [htype]
    decide
  · intro x hx
    exact (put32_outside x (by omega)).trans ((put32_outside x (by omega)).trans (put32_outside x (by omega)))
  · exact fun _ => ⟨hoff, fun _ => get32_put32_same⟩

theorem Effect.of_frames {W : Set ℕ} (h : Owned boot k g) (hp : p ∈ live boot g) (htp : objType k.mem p = objFrame)
    (hf : f ∈ live boot g) (htf : objType k.mem f = objFrame) (hW : ∀ w ∈ W, IsSlot k.mem (live boot g) w)
    (hout : ∀ x, (∀ w ∈ W, x < w ∨ w + 8 ≤ x) → (x < p + 8 ∨ p + 28 ≤ x) → (x < f + 8 ∨ f + 28 ≤ x) →
      mem x = k.mem x) : Effect k.mem mem (live boot g) (live boot g) W {p, f} := by
  apply Effect.of_slots h.part hW
  · rintro d (rfl | rfl)
    · exact ⟨hp, by rw [htp]; decide⟩
    · exact ⟨hf, by rw [htf]; decide⟩
  · intro x hw hd
    have h1 := hd p (.inl rfl)
    have h2 := hd f (.inr rfl)
    rw [objLen_frame htp] at h1
    rw [objLen_frame htf] at h2
    exact hout x hw h1 h2

theorem slot_of_frames (h : Owned boot k g) (hp : p ∈ live boot g) (htp : objType k.mem p = objFrame)
    (hf : f ∈ live boot g) (htf : objType k.mem f = objFrame) (hc : IsSlot k.mem (live boot g) c)
    (hout : ∀ x, (x < p + 8 ∨ p + 28 ≤ x) → (x < f + 8 ∨ f + 28 ≤ x) → mem x = k.mem x) :
    IsSlot mem (live boot g) c := by
  obtain ⟨l, hl, htl, i, hi, rfl⟩ := hc
  refine ⟨l, hl, ?_, i, hi, rfl⟩
  rw [← htl]
  apply get32_congr
  intro x h1 h2
  have hlp := h.part.packed.apart l hl p hp (by rintro rfl; rw [htl] at htp; cases htp)
  have hlf := h.part.packed.apart l hl f hf (by rintro rfl; rw [htl] at htf; cases htf)
  rw [objLen_caplist htl, objLen_frame htp] at hlp
  rw [objLen_caplist htl, objLen_frame htf] at hlf
  unfold Apart at hlp hlf
  exact hout x (by omega) (by omega)

/-- The frame `ff` of the slot `fc` is to be put on the list of the L1 table `tf` of the slot `tc`; in `mem` its type
and address are set already. -/
structure Pushing (boot : List (ℕ × ℕ)) (k : Kernel) (g : List Making) (M : Set ℕ) (tc fc tf ff : ℕ) (mem : Bytes) :
    Prop where
  owned : Owned boot k g
  lists : FrameLists k.mem (live boot g) M
  slotTable : IsSlot k.mem (live boot g) tc
  permTable : capPerm k.mem tc ≠ 0
  objTable : capObj k.mem tc = tf
  typeTable : objType k.mem tf = objFrame
  isTable : frameType k.mem tf = frameL1
  slot : IsSlot k.mem (live boot g) fc
  perm : capPerm k.mem fc ≠ 0
  obj : capObj k.mem fc = ff
  type : objType k.mem ff = objFrame
  notTable : frameType k.mem ff ≠ frameL1
  set : Owned boot { k with mem := mem } g
  setType : frameType mem ff ≠ frameL1
  same : ∀ x, x < ff + 16 ∨ ff + 20 ≤ x → mem x = k.mem x

section Pushing

variable {tf ff : ℕ} (h : Pushing boot k g M tc fc tf ff mem)

include h

theorem Pushing.liveTable : tf ∈ Sys.live boot g := h.objTable ▸ h.owned.part.named tc h.slotTable h.permTable

theorem Pushing.live : ff ∈ Sys.live boot g := h.obj ▸ h.owned.part.named fc h.slot h.perm

theorem Pushing.off : ¬OnList k.mem (Sys.live boot g) M ff :=
  h.obj ▸ h.lists.off h.slot h.perm (by rw [h.obj]; exact h.notTable)

theorem Pushing.unique {a : ℕ} (ha : IsSlot k.mem (Sys.live boot g) a) (hp : capPerm k.mem a ≠ 0)
    (ho : capObj k.mem a = ff) : a = fc :=
  h.owned.part.unique a fc ha h.slot hp h.perm (ho.trans h.obj.symm) (by rw [ho, h.type]; decide)

theorem Pushing.apart : Apart tf 28 ff 28 := by
  apply frames_apart h.owned h.liveTable h.live h.typeTable h.type
  intro he
  exact h.notTable (he ▸ h.isTable)

theorem Pushing.slotApart : Apart fc 8 tf 28 ∧ Apart fc 8 ff 28 := by
  have hst := h.owned.part.slot_off h.slot h.liveTable (by rw [h.typeTable]; decide)
  have hsf := h.owned.part.slot_off h.slot h.live (by rw [h.type]; decide)
  rw [objLen_frame h.typeTable] at hst
  rw [objLen_frame h.type] at hsf
  exact ⟨hst, hsf⟩

theorem Pushing.mem_eq (va : ℕ) : pushFrame tf ff va mem =
    ((mem.put32 (ff + 20) va).put32 (ff + 24) (frameNext k.mem tf)).put32 (tf + 24) ff := by
  have hap := h.apart
  unfold Apart at hap
  have hnext : frameNext (mem.put32 (ff + 20) va) tf = frameNext k.mem tf := by
    apply get32_congr
    intro x h1 h2
    rw [put32_outside x (by omega), h.same x (by omega)]
  unfold pushFrame
  simp only
  rw [hnext]

theorem Pushing.outside (va : ℕ) {x : ℕ} (h1 : x < tf + 8 ∨ tf + 28 ≤ x) (h2 : x < ff + 8 ∨ ff + 28 ≤ x) :
    pushFrame tf ff va mem x = k.mem x := by
  rw [h.mem_eq, put32_outside x (by omega), put32_outside x (by omega), put32_outside x (by omega),
    h.same x (by omega)]

theorem Pushing.next_table (va : ℕ) : frameNext (pushFrame tf ff va mem) tf = ff := by
  rw [h.mem_eq]
  exact get32_put32_same.trans (Nat.mod_eq_of_lt (h.owned.part.addr_lt h.live))

theorem Pushing.next_frame (va : ℕ) : frameNext (pushFrame tf ff va mem) ff = frameNext k.mem tf := by
  have hap := h.apart
  unfold Apart at hap
  have hlt : frameNext k.mem tf < 2 ^ 32 := get32_lt
  have hsame : frameNext (((mem.put32 (ff + 20) va).put32 (ff + 24) (frameNext k.mem tf)).put32 (tf + 24) ff) ff =
      frameNext ((mem.put32 (ff + 20) va).put32 (ff + 24) (frameNext k.mem tf)) ff := get32_put32_ne (by omega)
  rw [h.mem_eq, hsame]
  exact get32_put32_same.trans (Nat.mod_eq_of_lt hlt)

theorem Pushing.frameType (va : ℕ) : Sys.frameType (pushFrame tf ff va mem) ff = Sys.frameType mem ff := by
  have hap := h.apart
  unfold Apart at hap
  rw [h.mem_eq]
  apply get32_congr
  intro x h1 h2
  rw [put32_outside x (by omega), put32_outside x (by omega), put32_outside x (by omega)]

theorem Pushing.ownedAfter (va : ℕ) : Owned boot { k with mem := pushFrame tf ff va mem } g := by
  have hap := h.apart
  unfold Apart at hap
  have htf₀ : objType mem ff = objFrame := by
    rw [← h.type]
    exact get32_congr fun x h1 h2 => h.same x (by omega)
  obtain ⟨h₁, ht₁⟩ := @Owned.frame boot _ g ff (ff + 20) va h.set h.live htf₀ (by omega) (by omega)
  obtain ⟨h₂, -⟩ := @Owned.frame boot _ g ff (ff + 24) (frameNext k.mem tf) h₁ h.live ht₁ (by omega) (by omega)
  have htt₂ : objType ((mem.put32 (ff + 20) va).put32 (ff + 24) (frameNext k.mem tf)) tf = objFrame := by
    rw [← h.typeTable]
    apply get32_congr
    intro x h1 h2
    rw [put32_outside x (by omega), put32_outside x (by omega), h.same x (by omega)]
  obtain ⟨h₃, -⟩ := @Owned.frame boot _ g tf (tf + 24) ff h₂ h.liveTable htt₂ (by omega) (by omega)
  rw [h.mem_eq]
  exact h₃

theorem Pushing.effect (va : ℕ) : Effect k.mem (setCap fc 0 0 (pushFrame tf ff va mem)) (Sys.live boot g)
    (Sys.live boot g) {fc} {tf, ff} := by
  apply Effect.of_frames h.owned h.liveTable h.typeTable h.live h.type
  · rintro w rfl
    exact h.slot
  · intro x hw h1 h2
    rw [setCap_outside (hw fc rfl)]
    exact h.outside va h1 h2

theorem Pushing.orderly (va : ℕ) :
    Orderly boot g g {fc} ∅ k { k with mem := setCap fc 0 0 (pushFrame tf ff va mem) } := by
  obtain ⟨hst, hsf⟩ := h.slotApart
  unfold Apart at hst hsf
  have he := h.effect va
  have hafter := h.ownedAfter va
  have hslot := slot_of_frames h.owned h.liveTable h.typeTable h.live h.type h.slot fun x h1 h2 =>
    h.outside va h1 h2
  have howned : Owned boot { k with mem := setCap fc 0 0 (pushFrame tf ff va mem) } g :=
    hafter.setSlots (hafter.part.clear hslot) fun x hx => setCap_mem hslot hx
  have hword : ∀ o, (o + 4 ≤ fc ∨ fc + 8 ≤ o) →
      (setCap fc 0 0 (pushFrame tf ff va mem)).get32 o = (pushFrame tf ff va mem).get32 o := fun o ho =>
    get32_congr fun x h1 h2 => setCap_outside (by omega)
  have hp0 : capPerm (setCap fc 0 0 (pushFrame tf ff va mem)) fc = 0 := setCap_perm
  refine ⟨howned, ⟨insert ff M, ?_⟩, he.kept ?_, he.typed, he.filled ?_⟩
  · apply h.lists.push he
    · rintro w rfl hp
      exact absurd hp0 hp
    · intro a ha hp ho
      have haf : a ≠ fc := by
        rintro rfl
        exact hp hp0
      have hold := he.old a ha hp
      obtain ⟨h1, h2⟩ := slot_congr (he.slot a hold haf)
      exact haf (h.unique hold (h1 ▸ hp) (h2 ▸ ho))
    · exact ⟨h.liveTable, h.typeTable, h.isTable⟩
    · exact ⟨h.live, h.type⟩
    · exact h.off
    · have hsame : Sys.frameType (setCap fc 0 0 (pushFrame tf ff va mem)) ff =
          Sys.frameType (pushFrame tf ff va mem) ff := hword _ (by omega)
      rw [hsame, h.frameType]
      exact h.setType
    · exact (hword (tf + 24) (by omega)).trans (h.next_table va)
    · exact (hword (ff + 24) (by omega)).trans (h.next_frame va)
  · rintro w rfl
    exact .inr ⟨rfl, hp0⟩
  · rintro w rfl
    exact .inr hp0

end Pushing

theorem Orderly.mono {g' : List Making} {k' : Kernel} {used used' fill fill' : Set ℕ}
    (h : Orderly boot g g' used fill k k') (hu : used ⊆ used') (hf : fill ⊆ fill') :
    Orderly boot g g' used' fill' k k' := by
  refine ⟨h.owned, h.lists, fun a ha hp => ?_, h.typed, fun a ha h0 hfill => h.filled a ha h0 fun hw => hfill (hf hw)⟩
  rcases h.kept a ha hp with h1 | ⟨h0, h1 | h1⟩
  · exact .inl h1
  · exact .inr ⟨h0, .inl h1⟩
  · exact .inr ⟨h0, .inr (hu h1)⟩

theorem sysFrameL2Map_orderly (h : Owned boot m.kernel g) (hl : FrameLists m.kernel.mem (live boot g) M)
    (ht : CidOk tid) (hc : CidOk cid) : (sysFrameL2Map u tid cid va m).All fun m' =>
      Orderly boot g g {c | procFindCap u cid m.kernel = some c} ∅ m.kernel m'.kernel := by
  unfold sysFrameL2Map frameL2MapAt
  split
  · rename_i tc fc htc hfc
    obtain ⟨hst, hpt, htt, -⟩ := findFrame_slot h ht htc
    obtain ⟨hsf, hpf, htf, hfound⟩ := findFrame_slot h hc hfc
    have hlf := h.part.named fc hsf hpf
    simp only
    by_cases hl1 : frameType m.kernel.mem (capObj m.kernel.mem tc) ≠ frameL1
    · rw [if_pos hl1]
      exact .same hl h rfl
    rw [if_neg hl1]
    by_cases hmem : frameType m.kernel.mem (capObj m.kernel.mem fc) ≠ frameMem
    · rw [if_pos hmem]
      exact .same hl h rfl
    rw [if_neg hmem]
    apply kernelMap_all (Q := fun m' => m'.kernel = m.kernel) Ending.all_tolerant windowed_kernel rfl
    intro l1 m₁ hm₁
    apply kernelMap_all (Q := fun m' => m'.kernel = m.kernel) Ending.all_tolerant windowed_kernel hm₁
    intro l2 m₂ hm₂
    split
    · trivial
    obtain ⟨ff, hff⟩ : ∃ f : ℕ, capObj m.kernel.mem fc = f := ⟨_, rfl⟩
    change Orderly boot g g _ _ m.kernel
      { m₂.kernel with
        mem := setCap fc 0 0 (pushFrame (capObj m.kernel.mem tc) (capObj m.kernel.mem fc) va
          (m₂.kernel.mem.put32 (capObj m.kernel.mem fc + 16) frameL2)) }
    rw [hm₂]
    rw [hff] at htf hmem hlf ⊢
    obtain ⟨h₀, -⟩ := @Owned.frame boot m.kernel g ff (ff + 16) frameL2 h hlf htf (by omega) (by omega)
    have hpush : Pushing boot m.kernel g M tc fc (capObj m.kernel.mem tc) ff (m.kernel.mem.put32 (ff + 16) frameL2) := by
      refine ⟨h, hl, hst, hpt, rfl, htt, not_not.mp hl1, hsf, hpf, hff, htf, ?_, h₀, ?_,
        fun x hx => put32_outside x (by omega)⟩
      · rw [not_not.mp hmem]
        decide
      · have hl2 : frameType (m.kernel.mem.put32 (ff + 16) frameL2) ff = frameL2 := get32_put32_same
        rw [hl2]
        decide
    refine (hpush.orderly va).mono ?_ subset_rfl
    rintro w rfl
    exact hfound
  · exact .same hl h rfl

theorem sysFrameMap_orderly (h : Owned boot m.kernel g) (hl : FrameLists m.kernel.mem (live boot g) M)
    (ht : CidOk tid) (hc : CidOk cid) : (sysFrameMap fuel u tid cid va cache m).All fun m' =>
      Orderly boot g g {c | procFindCap u cid m.kernel = some c} ∅ m.kernel m'.kernel := by
  unfold sysFrameMap frameMapAt
  split
  · rename_i tc fc htc hfc
    obtain ⟨hst, hpt, htt, -⟩ := findFrame_slot h ht htc
    obtain ⟨hsf, hpf, htf, hfound⟩ := findFrame_slot h hc hfc
    simp only
    by_cases hl1 : frameType m.kernel.mem (capObj m.kernel.mem tc) ≠ frameL1
    · rw [if_pos hl1]
      exact .same hl h rfl
    rw [if_neg hl1]
    by_cases hmem : frameType m.kernel.mem (capObj m.kernel.mem fc) ≠ frameMem ∧
        frameType m.kernel.mem (capObj m.kernel.mem fc) ≠ frameDev
    · rw [if_pos hmem]
      exact .same hl h rfl
    rw [if_neg hmem]
    have hnot : frameType m.kernel.mem (capObj m.kernel.mem fc) ≠ frameL1 := by
      intro he
      rw [he] at hmem
      exact hmem ⟨by decide, by decide⟩
    apply kernelMap_all (Q := fun m' => m'.kernel = m.kernel) Ending.all_tolerant windowed_kernel rfl
    intro l1 m₁ hm₁
    apply frameMapLoop_all (Q := fun m' => m'.kernel = m.kernel) Ending.all_tolerant windowed_kernel _ hm₁
    intro wrote m₂ hm₂
    change Orderly boot g g _ _ m.kernel
      { m₂.kernel with
        mem := setCap fc 0 0 (pushFrame (capObj m.kernel.mem tc) (capObj m.kernel.mem fc) va m₂.kernel.mem) }
    rw [hm₂]
    have hpush : Pushing boot m.kernel g M tc fc _ _ m.kernel.mem :=
      ⟨h, hl, hst, hpt, rfl, htt, not_not.mp hl1, hsf, hpf, rfl, htf, hnot, h, hnot, fun _ _ => rfl⟩
    refine (hpush.orderly va).mono ?_ subset_rfl
    rintro w rfl
    exact hfound
  · exact .same hl h rfl

theorem takeFrame_orderly (h : Owned boot k g) (hl : FrameLists k.mem (live boot g) M)
    (hp : OnList k.mem (live boot g) M p) (hpf : frameNext k.mem p = ff) (hf0 : ff ≠ 0)
    (hfc : IsSlot k.mem (live boot g) fc) (hfree : capPerm k.mem fc = 0) :
    Orderly boot g g ∅ {fc} k
      { k with
        mem := setCap fc (capRead ||| capWrite) ff
          (((k.mem.put32 (p + 24) (frameNext k.mem ff)).put32 (ff + 24) 0).put32 (ff + 20) 0) } := by
  have hM : ff ∈ M := hpf ▸ hl.next p hp (by rw [hpf]; exact hf0)
  obtain ⟨hlp, htp⟩ := hl.on_live hp
  obtain ⟨hlf, htf, -⟩ := hl.live ff hM
  have hsp := h.part.slot_off hfc hlp (by rw [htp]; decide)
  have hsf := h.part.slot_off hfc hlf (by rw [htf]; decide)
  rw [objLen_frame htp] at hsp
  rw [objLen_frame htf] at hsf
  have hap : p = ff ∨ Apart p 28 ff 28 := by
    by_cases hne : p = ff
    · exact .inl hne
    · exact .inr (frames_apart h hlp hlf htp htf hne)
  unfold Apart at hap hsp hsf
  obtain ⟨h₁, -⟩ := @Owned.frame boot k g p (p + 24) (frameNext k.mem ff) h hlp htp (by omega) (by omega)
  have htf₁ : objType (k.mem.put32 (p + 24) (frameNext k.mem ff)) ff = objFrame := by
    rw [← htf]
    exact get32_congr fun x h1 h2 => put32_outside x (by omega)
  obtain ⟨h₂, htf₂⟩ := @Owned.frame boot _ g ff (ff + 24) 0 h₁ hlf htf₁ (by omega) (by omega)
  obtain ⟨h₃, htf₃⟩ := @Owned.frame boot _ g ff (ff + 20) 0 h₂ hlf htf₂ (by omega) (by omega)
  obtain ⟨mem₃, hmem₃⟩ : ∃ mem' : Bytes,
      ((k.mem.put32 (p + 24) (frameNext k.mem ff)).put32 (ff + 24) 0).put32 (ff + 20) 0 = mem' := ⟨_, rfl⟩
  have hout : ∀ x, (x < p + 8 ∨ p + 28 ≤ x) → (x < ff + 8 ∨ ff + 28 ≤ x) → mem₃ x = k.mem x := by
    intro x h1 h2
    rw [← hmem₃, put32_outside x (by omega), put32_outside x (by omega), put32_outside x (by omega)]
  have htypes : frameType mem₃ p = frameType k.mem p ∧ frameType mem₃ ff = frameType k.mem ff := by
    rw [← hmem₃]
    constructor <;>
    · apply get32_congr
      intro x h1 h2
      rw [put32_outside x (by omega), put32_outside x (by omega), put32_outside x (by omega)]
  have hnext : p ≠ ff → frameNext mem₃ p = frameNext k.mem ff := by
    intro hne
    have hlt32 : frameNext k.mem ff < 2 ^ 32 := get32_lt
    have hsame : frameNext mem₃ p = frameNext (k.mem.put32 (p + 24) (frameNext k.mem ff)) p := by
      rw [← hmem₃]
      apply get32_congr
      intro x h1 h2
      rw [put32_outside x (by omega), put32_outside x (by omega)]
    rw [hsame]
    exact get32_put32_same.trans (Nat.mod_eq_of_lt hlt32)
  change Owned boot
    { k with mem := ((k.mem.put32 (p + 24) (frameNext k.mem ff)).put32 (ff + 24) 0).put32 (ff + 20) 0 } g at h₃
  change objType (((k.mem.put32 (p + 24) (frameNext k.mem ff)).put32 (ff + 24) 0).put32 (ff + 20) 0) ff = _ at htf₃
  rw [hmem₃] at h₃ htf₃ ⊢
  have hslot₃ := slot_of_frames h hlp htp hlf htf hfc hout
  have he₃ : Effect k.mem mem₃ (live boot g) (live boot g) ∅ {p, ff} :=
    Effect.of_frames h hlp htp hlf htf (fun w hw => absurd hw (Set.notMem_empty w)) fun x _ h1 h2 => hout x h1 h2
  have hunnamed := he₃.unnamed hl.unnamed fun w hw => absurd hw (Set.notMem_empty w)
  have howned : Owned boot { k with mem := setCap fc (capRead ||| capWrite) ff mem₃ } g := by
    apply h₃.setSlots
    · apply h₃.part.name hslot₃ hlf
      intro a ha _ hpa ho
      exact absurd ho (hunnamed ff hM a ha hpa)
    · exact fun x hx => setCap_mem hslot₃ hx
  have he : Effect k.mem (setCap fc (capRead ||| capWrite) ff mem₃) (live boot g) (live boot g) {fc} {p, ff} := by
    apply Effect.of_frames h hlp htp hlf htf
    · rintro w rfl
      exact hfc
    · intro x hw h1 h2
      rw [setCap_outside (hw fc rfl)]
      exact hout x h1 h2
  have hword : ∀ o, (o + 4 ≤ fc ∨ fc + 8 ≤ o) →
      (setCap fc (capRead ||| capWrite) ff mem₃).get32 o = mem₃.get32 o := fun o ho =>
    get32_congr fun x h1 h2 => setCap_outside (by omega)
  refine ⟨howned, ⟨M \ {ff}, ?_⟩, he.kept ?_, he.typed, he.filled ?_⟩
  · apply hl.take he _ hp hpf hM hf0
    · exact (hword (p + 16) (by omega)).trans htypes.1
    · exact (hword (ff + 16) (by omega)).trans htypes.2
    · exact fun hne => (hword (p + 24) (by omega)).trans (hnext hne)
    · rintro w rfl _
      rw [setCap_obj, Nat.mod_eq_of_lt (h.part.addr_lt hlf)]
      exact fun hw => hw.2 rfl
  · rintro w rfl
    exact .inl hfree
  · rintro w rfl
    exact .inl rfl

theorem sysFrameUnmap_orderly (h : Owned boot m.kernel g) (hl : FrameLists m.kernel.mem (live boot g) M)
    (ht : CidOk tid) (hn : CidOk nid)
    (hempty : ∀ c, procFindCap u nid m.kernel = some c → capPerm m.kernel.mem c = 0) :
    (sysFrameUnmap fuel u tid nid va m).All fun m' =>
      Orderly boot g g ∅ {c | procFindCap u nid m.kernel = some c} m.kernel m'.kernel := by
  unfold sysFrameUnmap frameUnmapAt
  split
  · rename_i tc fc htc hfc
    obtain ⟨hst, hpt, htt, -⟩ := findFrame_slot h ht htc
    have hfound : procFindCap u nid m.kernel = some fc := by
      unfold procFindCapType at hfc
      cases hp : procFindCap u nid m.kernel with
      | none =>
        rw [hp] at hfc
        cases hfc
      | some b =>
        simp only [hp] at hfc
        split_ifs at hfc
        cases hfc
        rfl
    simp only
    by_cases hl1 : frameType m.kernel.mem (capObj m.kernel.mem tc) ≠ frameL1
    · rw [if_pos hl1]
      exact .same hl h rfl
    rw [if_neg hl1]
    have hon : OnList m.kernel.mem (live boot g) M (capObj m.kernel.mem tc) :=
      .inr ⟨h.part.named tc hst hpt, htt, not_not.mp hl1⟩
    split
    · trivial
    · exact .same hl h rfl
    · rename_i f hfm
      obtain ⟨q, hq, rfl, hq0⟩ := findMapped_spec hl hon hfm
      have htake := takeFrame_orderly h hl hq rfl hq0 (procFindCap_slot h hn hfound) (hempty fc hfound)
      apply kernelMap_all (Q := fun m' => m'.kernel =
        { m.kernel with
          mem := ((m.kernel.mem.put32 (q + 24) (frameNext m.kernel.mem (frameNext m.kernel.mem q))).put32
            (frameNext m.kernel.mem q + 24) 0).put32 (frameNext m.kernel.mem q + 20) 0 })
        Ending.all_tolerant (fun _ _ _ _ hm => hm) rfl
      intro l1 m₁ hm₁
      apply frameUnmapLoop_all (Q := fun m' => m'.kernel = m₁.kernel) Ending.all_tolerant windowed_kernel _ rfl
      intro wrote m₂ hm₂
      change Orderly boot g g ∅ _ m.kernel
        { m₂.kernel with
          mem := setCap fc (capRead ||| capWrite) (frameNext m.kernel.mem q) m₂.kernel.mem }
      rw [hm₂, hm₁]
      refine htake.mono subset_rfl ?_
      rintro w rfl
      exact hfound
  · exact .same hl h rfl

end Frames

end Agatha.Sys
