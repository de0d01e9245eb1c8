import Agatha.Sys.ObjectCalls

namespace Agatha.Sys

open Kernel Library Library.Bytes Library.Areas

section Mapped

variable {boot : List (ℕ × ℕ)} {k k' : Kernel} {g ev : List Making} {u : Addr}
variable {mem : Bytes} {cid nid fid r : ℤ} {n a b c f o len : ℕ}

theorem isPageDoubled_large {len fuel : ℕ} (h : isPageDoubled len fuel n = some true)
    (hn : 4096 ∣ n) (h0 : n = 0 → len ≠ 0) : 4096 ≤ len := by
  induction fuel generalizing n with
  | zero => cases h
  | succ fuel ih =>
    unfold isPageDoubled at h
    by_cases h1 : n > len
    · rw [if_pos h1] at h
      cases h
    · rw [if_neg h1] at h
      by_cases h2 : n = len
      · have hpos : n ≠ 0 := fun h3 => h0 h3 (h2 ▸ h3)
        have hle := Nat.le_of_dvd (Nat.pos_of_ne_zero hpos) hn
        omega
      · rw [if_neg h2] at h
        exact ih h (by omega) (by omega)

theorem Fresh.out (hf : Fresh boot g o len) (h : Owned boot k g) (hlen : 0 < len)
    (ha : a ∈ live boot g) : Apart a (objLen k.mem a) o len := by
  have hl := h.part.large a ha
  have hin := h.part.packed.inside a ha
  unfold Apart
  by_contra hno
  by_cases hao : a < o
  · have := hf.apart o (hin o (by omega) (by omega))
    omega
  · have := hf.apart a (hin a (by omega) (by omega))
    omega

theorem Fresh.new (hf : Fresh boot g o len) (h : Owned boot k g) (hlen : 0 < len) :
    o ∉ live boot g := by
  intro ho
  have hl := h.part.large o ho
  have := hf.apart o (h.part.packed.inside o ho o (by omega) (by omega))
  omega

theorem Owned.mapped (h : Owned boot k g) (hf : Fresh boot g o len) (hlen : 4096 ≤ len)
    (hlt : len < 2 ^ 32) (hmem : ∀ x, x < o ∨ o + len ≤ x → mem x = k.mem x)
    (ht : objType mem o = objUntyped) (hl : untypedLen mem o = len) :
    Owned boot { k with mem := mem } (g ++ [.mapped o len]) ∧
      (∀ a, IsSlot k.mem (live boot g) a → IsSlot mem (live boot (g ++ [.mapped o len])) a) ∧
      (∀ a ∈ live boot g, objType mem a = objType k.mem a) ∧
      ∀ a, IsSlot mem (live boot (g ++ [.mapped o len])) a → capPerm mem a ≠ 0 →
        capObj mem a ∈ live boot g := by
  have hlo : objLen mem o = len := (objLen_untyped ht).trans hl
  have hnew := hf.new h (by omega)
  have horigin : origin boot (g ++ [.mapped o len]) = Function.update (origin boot g) o len :=
    origin_concat
  have hx : ∀ a, a ∈ live boot (g ++ [.mapped o len]) ↔
      (a ∈ live boot g ∧ a ∉ (∅ : Set ℕ)) ∨ a ∈ ({o} : Set ℕ) := by
    intro a
    rw [live_concat, Set.mem_singleton_iff]
    change a = o ∨ a ∈ live boot g ↔ _
    simp [or_comm]
  have hout : ∀ a ∈ live boot g, a ∉ (∅ : Set ℕ) → Apart a (objLen k.mem a) o len :=
    fun a ha _ => hf.out h (by omega) ha
  have hempty : ∀ a ∈ ({o} : Set ℕ), objType mem a = objCaplist →
      ∀ i < clistCaps, capPerm mem (capSlot a i) = 0 := by
    rintro a rfl hal
    rw [ht] at hal
    cases hal
  refine ⟨?_, ?_, ?_, ?_⟩
  · apply h.carve hx hmem hout
    · exact fun _ ha => absurd ha (Set.notMem_empty _)
    · rintro a rfl
      omega
    · rintro a rfl b rfl hab
      exact absurd rfl hab
    · rintro a rfl
      omega
    · rintro a rfl
      rw [ht]
      decide
    · rintro a rfl
      rw [hlo, horigin, Function.update_self]
    · exact hempty
    · exact fun _ _ _ ha => absurd ha (Set.notMem_empty _)
    · intro a ha _
      have hao : a ≠ o := fun he => hnew (he ▸ ha)
      rw [horigin, Function.update_of_ne hao]
    · exact hf.fits.1
    · exact hf.fits.2
    · exact fun a ha => cover_mono ha
    · exact fun a h1 h2 => .inr ⟨o, len, by simp, h1, h2⟩
  · exact fun a ha => h.part.carve_isSlot hmem (fun b hb hbo => (hx b).mpr (.inl ⟨hb, hbo⟩)) hout
      (fun b hb => absurd hb (Set.notMem_empty _)) ha
  · intro a ha
    apply objType_congr
    intro x h1 h2
    have hap := hf.out h (by omega) ha
    have hlarge := h.part.large a ha
    unfold Apart at hap
    exact hmem x (by omega)
  · intro a ha hp
    obtain ⟨ha', hpe, hoe⟩ := h.part.carve_slots hmem hx hout hempty ha hp
    rw [hoe]
    exact h.part.named a ha' (hpe ▸ hp)

theorem Owned.frame {v : ℕ} (h : Owned boot k g) (hf : f ∈ live boot g)
    (ht : objType k.mem f = objFrame) (h1 : f + 8 ≤ o) (h2 : o + 4 ≤ f + 28) :
    Owned boot { k with mem := k.mem.put32 o v } g ∧ objType (k.mem.put32 o v) f = objFrame := by
  have htype : objType (k.mem.put32 o v) f = objFrame := by
    rw [← ht]
    exact get32_put32_ne (by omega)
  have hlen : ∀ mem : Bytes, objType mem f = objFrame → objLen mem f = 28 := by
    intro mem hm
    unfold objLen
    rw [hm]
    rfl
  refine ⟨?_, htype⟩
  apply h.rewrite hf
  · rw [ht]
    decide
  · exact fun _ => Iff.rfl
  · intro a ha
    rw [hlen _ ht] at ha
    exact put32_outside a (by omega)
  · rw [hlen _ ht, hlen _ htype]
  · rw [hlen _ htype]
    decide
  · rw [htype]
    decide
  · rw [hlen _ htype, ← hlen _ ht]
    exact h.part.origin f hf
  · intro hal
    rw [htype] at hal
    cases hal
  · exact fun _ _ => rfl
  · exact fun _ ha => ha

theorem sysObjCreate_cases {fuel : ℕ} (hr : sysObjCreate fuel o u fid nid k = some (r, ev, k')) :
    (ev = [] ∧ k' = k) ∨ ∃ fc nc, procFindCap u fid k = some fc ∧ capPerm k.mem fc ≠ 0 ∧
      objType k.mem (capObj k.mem fc) = objFrame ∧ frameType k.mem (capObj k.mem fc) = frameMem ∧
      procFindCap u nid k = some nc ∧ capPerm k.mem nc = 0 ∧
      isPageDoubled (frameLen k.mem (capObj k.mem fc)) fuel 4096 = some true ∧ o ≠ 0 ∧
      some (OK, [.mapped o (frameLen k.mem (capObj k.mem fc))],
        { k with
          mem := setCap fc 0 0 ((setCap nc (capWrite ||| capRead) o
            (objUntypedInit o (frameLen k.mem (capObj k.mem fc))
              (((k.mem.fill o (frameLen k.mem (capObj k.mem fc)) 0).put32 o 0).put32 (o + 4) objUntyped))).put32
                (capObj k.mem fc + 16) frameKobj) }) = some (r, ev, k') := by
  unfold sysObjCreate at hr
  cases hf : procFindCap u fid k with
  | none =>
    rw [hf] at hr
    exact .inl (err_same hr)
  | some fc =>
    cases hfn : procFindCap u nid k with
    | none =>
      rw [hf, hfn] at hr
      exact .inl (err_same hr)
    | some nc =>
      rcases hd : isPageDoubled (frameLen k.mem (capObj k.mem fc)) fuel 4096 with _ | _ | _
      · simp only [hf, hfn, hd] at hr
        split_ifs at hr <;> exact .inl (err_same hr)
      · simp only [hf, hfn, hd] at hr
        split_ifs at hr <;> exact .inl (err_same hr)
      · simp only [hf, hfn, hd] at hr
        split_ifs at hr with hnp hp ht htf ho0
        · exact .inl (err_same hr)
        · exact .inl (err_same hr)
        · exact .inl (err_same hr)
        · exact .inl (err_same hr)
        · exact .inl (err_same hr)
        · have hpf := land_ne_zero fun h0 => hp (.inl h0)
          exact .inr ⟨fc, nc, rfl, hpf, not_not.mp ht, not_not.mp htf, rfl, not_not.mp hnp, hd, ho0, hr⟩

theorem sysObjCreate_owned {fuel : ℕ} (h : Owned boot k g) (hc : CidOk fid) (hn : CidOk nid)
    (hfresh : ∀ len, .mapped o len ∈ ev → Fresh boot g o len)
    (hr : sysObjCreate fuel o u fid nid k = some (r, ev, k')) : Owned boot k' (g ++ ev) := by
  rcases sysObjCreate_cases hr with ⟨rfl, rfl⟩ | ⟨fc, nc, hf, hpf, htype, htf, hfn, hnp, hd, ho0, hk⟩
  · rw [List.append_nil]
    exact h
  · cases hk
    have hslotf := procFindCap_slot h hc hf
    have hslotn := procFindCap_slot h hn hfn
    have hlive := h.obj hc hf hpf
    obtain ⟨f, hff⟩ : ∃ f : ℕ, capObj k.mem fc = f := ⟨_, rfl⟩
    rw [hff] at hd htype hlive hfresh ⊢
    have hlarge : 4096 ≤ frameLen k.mem f := isPageDoubled_large hd (by decide) (by omega)
    have hlt : frameLen k.mem f < 2 ^ 32 := get32_lt
    generalize frameLen k.mem f = len at hlarge hlt hfresh ⊢
    have hfr := hfresh len (List.mem_singleton_self _)
    have hhead : ((k.mem.fill o len 0).put32 o 0).put32 (o + 4) objUntyped =
        setHead o objUntyped 0 (k.mem.fill o len 0) := put32_comm (by omega)
    have hlen : untypedLen (objUntypedInit o len
        (setHead o objUntyped 0 (k.mem.fill o len 0))) o = len := by
      rw [← objLen_untyped untyped_type, untyped_len hlt]
    rw [hhead]
    obtain ⟨hown, hslots, htypes, hnames⟩ := h.mapped hfr hlarge hlt (fun x hx => by
      rw [untyped_outside (by omega), fill_outside x hx]) untyped_type hlen
    generalize objUntypedInit o len (setHead o objUntyped 0 (k.mem.fill o len 0)) = mem₁ at *
    have hnew : o ∈ live boot (g ++ [.mapped o len]) := by
      rw [live_concat]
      exact .inl rfl
    have hlive₁ : f ∈ live boot (g ++ [.mapped o len]) := by
      rw [live_concat]
      exact .inr hlive
    -- the new object gets its name, and then the frame loses its own
    have hmem₂ : ∀ x, (∀ a, IsSlot mem₁ (live boot (g ++ [.mapped o len])) a →
        x < a ∨ a + 8 ≤ x) → setCap nc (capWrite ||| capRead) o mem₁ x = mem₁ x := fun x hx =>
      setCap_mem (hslots nc hslotn) hx
    have hown₂ : Owned boot { k with mem := setCap nc (capWrite ||| capRead) o mem₁ }
        (g ++ [.mapped o len]) := by
      apply hown.setSlots _ hmem₂
      apply hown.part.name (hslots nc hslotn) hnew
      intro a ha _ hpa hoa
      exact absurd (hoa ▸ hnames a ha hpa) (hfr.new h (by omega))
    have htype₂ : objType (setCap nc (capWrite ||| capRead) o mem₁) f = objFrame :=
      ((hown.part.same_objects hmem₂ hlive₁).1.trans (htypes f hlive)).trans htype
    have hslot₂ := (hown.part.isSlot_iff hmem₂).mpr (hslots fc hslotf)
    generalize setCap nc (capWrite ||| capRead) o mem₁ = mem₂ at hown₂ htype₂ hslot₂ ⊢
    have hlenf : objLen mem₂ f = 28 := by
      unfold objLen
      rw [htype₂]
      rfl
    have hty : objType mem₂ f ≠ objCaplist := by
      rw [htype₂]
      decide
    have h16 := hown₂.part.head_apart hslot₂ hlive₁ (x := f + 16) (by omega)
      (.inr ⟨hty, by rw [hlenf]; omega⟩)
    have h19 := hown₂.part.head_apart hslot₂ hlive₁ (x := f + 19) (by omega)
      (.inr ⟨hty, by rw [hlenf]; omega⟩)
    rw [setCap_put32 (by omega)]
    have hmem₃ : ∀ x, (∀ a, IsSlot mem₂ (live boot (g ++ [.mapped o len])) a →
        x < a ∨ a + 8 ≤ x) → setCap fc 0 0 mem₂ x = mem₂ x := fun x hx => setCap_mem hslot₂ hx
    have hown₃ : Owned boot { k with mem := setCap fc 0 0 mem₂ } (g ++ [.mapped o len]) :=
      hown₂.setSlots (hown₂.part.clear hslot₂) hmem₃
    have htype₃ : objType (setCap fc 0 0 mem₂) f = objFrame :=
      (hown₂.part.same_objects hmem₃ hlive₁).1.trans htype₂
    exact (hown₃.frame hlive₁ htype₃ (by omega) (by omega)).1

theorem sysFrameSetup_cases {type pa : ℕ} (hr : sysFrameSetup u cid type pa len k = some (r, ev, k')) :
    ev = [] ∧ (k' = k ∨ ∃ c, procFindCap u cid k = some c ∧ objType k.mem (capObj k.mem c) = objFrame ∧
      frameType k.mem (capObj k.mem c) = frameNone ∧
      k' = { k with
        mem := (((k.mem.put32 (capObj k.mem c + 16) type).put32 (capObj k.mem c + 8) pa).put32
          (capObj k.mem c + 12) len).put32 (capObj k.mem c + 24) 0 }) := by
  unfold sysFrameSetup at hr
  cases hf : procFindCap u cid k with
  | none =>
    simp only [hf] at hr
    split_ifs at hr <;> exact ⟨(err_same hr).1, .inl (err_same hr).2⟩
  | some c =>
    simp only [hf] at hr
    split_ifs at hr with h1 h2 ht h4
    · exact ⟨(err_same hr).1, .inl (err_same hr).2⟩
    · exact ⟨(err_same hr).1, .inl (err_same hr).2⟩
    · exact ⟨(err_same hr).1, .inl (err_same hr).2⟩
    · cases hr
      exact ⟨rfl, .inr ⟨c, rfl, not_not.mp ht, not_not.mp h4, rfl⟩⟩

theorem sysFrameSetup_owned {type pa : ℕ} (h : Owned boot k g) (hc : CidOk cid)
    (hp : ∀ c, procFindCap u cid k = some c → capPerm k.mem c ≠ 0)
    (hr : sysFrameSetup u cid type pa len k = some (r, ev, k')) : Owned boot k' (g ++ ev) := by
  obtain ⟨rfl, rfl | ⟨c, hf, htype, -, rfl⟩⟩ := sysFrameSetup_cases hr
  · rw [List.append_nil]
    exact h
  · rw [List.append_nil]
    have hlive := h.obj hc hf (hp c hf)
    obtain ⟨f, hff⟩ : ∃ f : ℕ, capObj k.mem c = f := ⟨_, rfl⟩
    rw [hff] at htype hlive ⊢
    obtain ⟨hown, htype⟩ := h.frame (o := f + 16) (v := type) hlive htype (by omega) (by omega)
    obtain ⟨hown, htype⟩ := hown.frame (o := f + 8) (v := pa) hlive htype (by omega) (by omega)
    obtain ⟨hown, htype⟩ := hown.frame (o := f + 12) (v := len) hlive htype (by omega) (by omega)
    exact (hown.frame hlive htype (by omega) (by omega)).1

theorem sysEndpointConnect_cases (hr : sysEndpointConnect u cid nid k = some (r, ev, k')) :
    ev = [] ∧ (k' = k ∨ ∃ c n, procFindCap u cid k = some c ∧ capPerm k.mem c ≠ 0 ∧
      objType k.mem (capObj k.mem c) = objEndpoint ∧ procFindCap u nid k = some n ∧ capPerm k.mem n = 0 ∧
      k' = { k with mem := setCap n capWrite (capObj k.mem c) k.mem }) := by
  unfold sysEndpointConnect at hr
  cases hf : procFindCap u cid k with
  | none =>
    rw [hf] at hr
    exact ⟨(err_same hr).1, .inl (err_same hr).2⟩
  | some c =>
    cases hfn : procFindCap u nid k with
    | none =>
      simp only [hf, hfn] at hr
      split_ifs at hr <;> exact ⟨(err_same hr).1, .inl (err_same hr).2⟩
    | some n =>
      simp only [hf, hfn] at hr
      split_ifs at hr with hp ht hnp
      · exact ⟨(err_same hr).1, .inl (err_same hr).2⟩
      · exact ⟨(err_same hr).1, .inl (err_same hr).2⟩
      · exact ⟨(err_same hr).1, .inl (err_same hr).2⟩
      · cases hr
        have hpc : capPerm k.mem c ≠ 0 := by
          intro h0
          rw [h0] at hp
          exact hp ⟨Nat.zero_and _, Nat.zero_and _⟩
        exact ⟨rfl, .inr ⟨c, n, rfl, hpc, not_not.mp ht, rfl, not_not.mp hnp, rfl⟩⟩

theorem sysEndpointConnect_owned (h : Owned boot k g) (hc : CidOk cid) (hn : CidOk nid)
    (hr : sysEndpointConnect u cid nid k = some (r, ev, k')) : Owned boot k' (g ++ ev) := by
  obtain ⟨rfl, rfl | ⟨c, n, hf, hpc, ht, hfn, -, rfl⟩⟩ := sysEndpointConnect_cases hr
  · rw [List.append_nil]
    exact h
  · rw [List.append_nil]
    have hslot := procFindCap_slot h hn hfn
    apply h.setSlots _ fun x hx => setCap_mem hslot hx
    exact h.part.name hslot (h.obj hc hf hpc) fun _ _ _ _ _ => ht

end Mapped

section Pointers

variable {boot : List (ℕ × ℕ)} {k k' : Kernel} {g : List Making} {u p e : Addr} {x : Proc}

theorem Owned.setEndpoint (h : Owned boot k g) (y : Endpoint) : Owned boot (k.setEndpoint e y) g :=
  ⟨h.part, h.root, h.give, h.accept⟩

theorem Owned.setProc (h : Owned boot k g)
    (hroot : ∀ l, x.capRoot = some l → l ∈ live boot g ∧ objType k.mem l = objCaplist)
    (hgive : ∀ a, x.give = some a → IsSlot k.mem (live boot g) a)
    (haccept : ∀ e a, x.label = .recv e (some a) → IsSlot k.mem (live boot g) a) :
    Owned boot (k.setProc p x) g := by
  refine ⟨h.part, fun r l hl => ?_, fun r a ha => ?_, fun r e a ha => ?_⟩
  · rw [setProc_proc] at hl
    split_ifs at hl
    · exact hroot l hl
    · exact h.root r l hl
  · rw [setProc_proc] at ha
    split_ifs at ha
    · exact hgive a ha
    · exact h.give r a ha
  · rw [setProc_proc] at ha
    split_ifs at ha
    · exact haccept e a ha
    · exact h.accept r e a ha

theorem Owned.setProc_keeps (h : Owned boot k g) (hroot : x.capRoot = (k.proc p).capRoot)
    (hgive : x.give = (k.proc p).give) (hlabel : x.label = (k.proc p).label) :
    Owned boot (k.setProc p x) g :=
  h.setProc (fun l hl => h.root p l (hroot ▸ hl)) (fun a ha => h.give p a (hgive ▸ ha))
    fun e a ha => h.accept p e a (hlabel ▸ ha)

theorem Owned.setLabel (h : Owned boot k g) {l : Context}
    (hl : ∀ e a, l = .recv e (some a) → IsSlot k.mem (live boot g) a) :
    Owned boot (k.setProc p { k.proc p with label := l }) g :=
  h.setProc (fun l hl => h.root p l hl) (fun a ha => h.give p a ha) hl

theorem Owned.procReady (h : Owned boot k g) : Owned boot (procReady p k) g := by
  have hready : Owned boot (k.setProc p { k.proc p with state := .ready }) g :=
    h.setProc_keeps rfl rfl rfl
  exact hready.sched SchedOnly.procReady

theorem findTyped_slot {usable : ℕ → Bool} {t a : ℕ} {c : ℤ} (h : Owned boot k g) (hc : CidOk c)
    (h0 : usable 0 = false) (hf : findTyped u c usable t k = some a) :
    IsSlot k.mem (live boot g) a ∧ capPerm k.mem a ≠ 0 ∧ objType k.mem (capObj k.mem a) = t := by
  unfold findTyped at hf
  cases hp : procFindCap u c k with
  | none =>
    rw [hp] at hf
    cases hf
  | some b =>
    simp only [hp] at hf
    split_ifs at hf with hu ht
    cases hf
    refine ⟨procFindCap_slot h hc hp, fun hz => ?_, not_not.mp ht⟩
    rw [hz] at hu
    exact hu h0

theorem findTyped_find {usable : ℕ → Bool} {t a : ℕ} {c : ℤ} (hf : findTyped u c usable t k = some a) :
    procFindCap u c k = some a := by
  unfold findTyped at hf
  cases hp : procFindCap u c k with
  | none =>
    rw [hp] at hf
    cases hf
  | some b =>
    simp only [hp] at hf
    split_ifs at hf
    exact hf

theorem findTyped_setProc {usable : ℕ → Bool} {t : ℕ} {c : ℤ}
    (hroot : x.capRoot = (k.proc p).capRoot) :
    findTyped u c usable t (k.setProc p x) = findTyped u c usable t k := by
  have hu : ((k.setProc p x).proc u).capRoot = (k.proc u).capRoot := by
    rw [setProc_proc]
    split_ifs with hup
    · rw [hroot, hup]
    · rfl
  unfold findTyped procFindCap
  rw [hu]
  rfl

end Pointers

section Passing

variable {boot : List (ℕ × ℕ)} {k k' : Kernel} {g ev : List Making} {u : Addr} {a b p : ℕ}
variable {cid vspace clist eid r : ℤ} {mem : Bytes}

theorem passCap_eq {dst src : ℕ} :
    passCap dst src p mem = setCap dst p (capObj mem src) mem := setCap_swap

theorem dropCap_eq {c : ℕ} : dropCap c mem = setCap c 0 0 mem := setCap_swap

theorem Owned.pass (h : Owned boot k g) (ha : IsSlot k.mem (live boot g) a)
    (hb : IsSlot k.mem (live boot g) b) (hp : capPerm k.mem a ≠ 0) (hab : a ≠ b) :
    Owned boot { k with mem := setCap a 0 0 (setCap b p (capObj k.mem a) k.mem) } g ∧
      ∀ s, IsSlot k.mem (live boot g) s →
        IsSlot (setCap a 0 0 (setCap b p (capObj k.mem a) k.mem)) (live boot g) s ∧
          (s ≠ a → s ≠ b →
            capPerm (setCap a 0 0 (setCap b p (capObj k.mem a) k.mem)) s = capPerm k.mem s ∧
              capObj (setCap a 0 0 (setCap b p (capObj k.mem a) k.mem)) s = capObj k.mem s) := by
  have hmem : ∀ x, (∀ s, IsSlot k.mem (live boot g) s → x < s ∨ s + 8 ≤ x) →
      setCap a 0 0 (setCap b p (capObj k.mem a) k.mem) x = k.mem x := by
    intro x hx
    rw [setCap_outside (hx a ha), setCap_outside (hx b hb)]
  refine ⟨h.setSlots (h.part.pass ha hb hp hab) hmem, fun s hs =>
    ⟨(h.part.isSlot_iff hmem).mpr hs, fun hsa hsb => ?_⟩⟩
  obtain ⟨h1, h2⟩ := @setCap_apart (setCap b p (capObj k.mem a) k.mem) s a 0 0
    (h.part.slot_apart hs ha hsa)
  obtain ⟨h3, h4⟩ := @setCap_apart k.mem s b p (capObj k.mem a) (h.part.slot_apart hs hb hsb)
  exact ⟨h1.trans h3, h2.trans h4⟩

theorem procGiveRoot_owned {o v r e : ℕ} (h : Owned boot k g) (hv : IsSlot k.mem (live boot g) v)
    (hr : IsSlot k.mem (live boot g) r) (he : IsSlot k.mem (live boot g) e)
    (hpv : capPerm k.mem v ≠ 0) (hpr : capPerm k.mem r ≠ 0) (hpe : capPerm k.mem e ≠ 0)
    (htv : objType k.mem (capObj k.mem v) = objFrame)
    (htr : objType k.mem (capObj k.mem r) = objCaplist)
    (hte : objType k.mem (capObj k.mem e) = objEndpoint)
    (hapart : ∀ i < 3, r ≠ capSlot (capObj k.mem r) i ∧ v ≠ capSlot (capObj k.mem r) i ∧
      e ≠ capSlot (capObj k.mem r) i) : Owned boot (procGiveRoot o v r e k) g := by
  obtain ⟨l, hl⟩ : ∃ l : ℕ, capObj k.mem r = l := ⟨_, rfl⟩
  have hlive : l ∈ live boot g := hl ▸ h.part.named r hr hpr
  rw [hl] at htr hapart
  have hd : ∀ i < 3, IsSlot k.mem (live boot g) (capSlot l i) := fun i hi =>
    ⟨l, hlive, htr, i, lt_trans hi (by decide), rfl⟩
  have hd01 : capSlot l 1 ≠ capSlot l 0 := by
    unfold capSlot
    omega
  have hd02 : capSlot l 2 ≠ capSlot l 0 := by
    unfold capSlot
    omega
  have hd12 : capSlot l 1 ≠ capSlot l 2 := by
    unfold capSlot
    omega
  obtain ⟨h0r, h0v, h0e⟩ := hapart 0 (by decide)
  obtain ⟨h1r, h1v, h1e⟩ := hapart 1 (by decide)
  obtain ⟨h2r, h2v, h2e⟩ := hapart 2 (by decide)
  -- the three objects have different types, so their slots are not the same
  have hvr : v ≠ r := by
    rintro rfl
    rw [hl, htr] at htv
    cases htv
  have hve : v ≠ e := by
    rintro rfl
    rw [hte] at htv
    cases htv
  have hre : r ≠ e := by
    rintro rfl
    rw [hl, htr] at hte
    cases hte
  have hown : Owned boot (k.setProc o { k.proc o with capRoot := some l }) g := by
    apply h.setProc
    · rintro l' ⟨⟩
      exact ⟨hlive, htr⟩
    · exact fun a ha => h.give o a ha
    · exact fun e a ha => h.accept o e a ha
  set p₃ := capRead ||| capWrite
  obtain ⟨own₁, slots₁⟩ := hown.pass (p := p₃) hr (hd 0 (by decide)) hpr h0r
  obtain ⟨hv₁, hkv₁⟩ := slots₁ v hv
  obtain ⟨he₁, hke₁⟩ := slots₁ e he
  obtain ⟨hpv₁, hov₁⟩ := hkv₁ hvr h0v
  obtain ⟨hpe₁, hoe₁⟩ := hke₁ hre.symm h0e
  obtain ⟨own₂, slots₂⟩ := own₁.pass (p := p₃) hv₁ (slots₁ _ (hd 2 (by decide))).1
    (hpv₁ ▸ hpv) h2v
  obtain ⟨he₂, hke₂⟩ := slots₂ e he₁
  obtain ⟨hpe₂, hoe₂⟩ := hke₂ hve.symm h2e
  obtain ⟨own₃, -⟩ := own₂.pass (p := capWrite) he₂
    (slots₂ _ (slots₁ _ (hd 1 (by decide))).1).1 (hpe₂ ▸ hpe₁ ▸ hpe) h1e
  have hd₀ := hd 0 (by decide)
  have hd₁ := hd 1 (by decide)
  have hd₂ := hd 2 (by decide)
  have hvA : capObj (setCap (capSlot l 0) p₃ l k.mem) v = capObj k.mem v :=
    (h.part.setCap_other hv hd₀ h0v).2
  have heB : capObj (setCap (capSlot l 2) p₃ (capObj k.mem v) (setCap (capSlot l 0) p₃ l k.mem)) e =
      capObj k.mem e :=
    (setCap_apart (h.part.slot_apart he hd₂ h2e)).2.trans (h.part.setCap_other he hd₀ h0e).2
  have hmem : (procGiveRoot o v r e k).mem = setCap e 0 0 (setCap (capSlot l 1) capWrite
      (capObj k.mem e) (setCap v 0 0 (setCap (capSlot l 2) p₃ (capObj k.mem v)
        (setCap r 0 0 (setCap (capSlot l 0) p₃ l k.mem))))) := by
    unfold procGiveRoot
    simp only [passCap_eq, dropCap_eq, setProc_mem, hl]
    rw [hvA, heB, setCap_comm (h.part.slot_apart hr hv hvr.symm),
      setCap_comm (h.part.slot_apart hr hd₁ h1r), setCap_comm (h.part.slot_apart hr hd₂ h2r),
      setCap_comm (h.part.slot_apart hv hd₁ h1v)]
  rw [hoe₂, hoe₁, hov₁] at own₃
  have hk : procGiveRoot o v r e k = { k.setProc o { k.proc o with capRoot := some l } with
      mem := (procGiveRoot o v r e k).mem } := by
    unfold procGiveRoot
    rw [hl]
  rw [hk, hmem]
  simp only [setProc_mem, hl] at own₃
  exact own₃

theorem sysProcSetup_cases (hr : sysProcSetup u cid vspace clist eid k = some (r, ev, k')) :
    ev = [] ∧ (k' = k ∨ ∃ c v, findTyped u vspace readWrite objFrame k = some v ∧
      (k' = k.setProc (capObj k.mem c) { k.proc (capObj k.mem c) with vspace := framePa k.mem (capObj k.mem v) } ∨
        ∃ l e, findTyped u clist readWrite objCaplist k = some l ∧
          findTyped u eid (fun perm => perm &&& capWrite ≠ 0) objEndpoint k = some e ∧
          k' = procGiveRoot (capObj k.mem c) v l e
            (k.setProc (capObj k.mem c) { k.proc (capObj k.mem c) with vspace := framePa k.mem (capObj k.mem v) }))) := by
  unfold sysProcSetup at hr
  cases hfc : findTyped u cid (fun perm => perm ≠ 0) objProc k with
  | none =>
    rw [hfc] at hr
    cases hr
    exact ⟨rfl, .inl rfl⟩
  | some c =>
    cases hfv : findTyped u vspace readWrite objFrame k with
    | none =>
      rw [hfc, hfv] at hr
      cases hr
      exact ⟨rfl, .inl rfl⟩
    | some v =>
      simp only [hfc, hfv] at hr
      have hfind := @findTyped_setProc k u (capObj k.mem c)
        { k.proc (capObj k.mem c) with vspace := framePa k.mem (capObj k.mem v) }
      rw [hfind rfl, hfind rfl] at hr
      split at hr
      · rename_i l e hfl hfe
        cases hr
        exact ⟨rfl, .inr ⟨c, v, rfl, .inr ⟨l, e, hfl, hfe, rfl⟩⟩⟩
      · cases hr
        exact ⟨rfl, .inr ⟨c, v, rfl, .inl rfl⟩⟩

theorem sysProcSetup_owned (h : Owned boot k g) (hv : CidOk vspace)
    (hl : CidOk clist) (he : CidOk eid)
    (hapart : ∀ r x, procFindCap u clist k = some r → procFindCap u vspace k = some x ∨
      procFindCap u clist k = some x ∨ procFindCap u eid k = some x →
      ∀ i < 3, x ≠ capSlot (capObj k.mem r) i)
    (hr : sysProcSetup u cid vspace clist eid k = some (r, ev, k')) : Owned boot k' (g ++ ev) := by
  obtain ⟨rfl, rfl | ⟨c, v, hfv, hk⟩⟩ := sysProcSetup_cases hr
  · rw [List.append_nil]
    exact h
  · rw [List.append_nil]
    obtain ⟨hsv, hpv, htv⟩ := findTyped_slot h hv rfl hfv
    have hown : Owned boot (k.setProc (capObj k.mem c) { k.proc (capObj k.mem c) with
        vspace := framePa k.mem (capObj k.mem v) }) g := h.setProc_keeps rfl rfl rfl
    rcases hk with rfl | ⟨r, e, hfr, hfe, rfl⟩
    · exact hown
    · obtain ⟨hsr, hpr, htr⟩ := findTyped_slot h hl rfl hfr
      obtain ⟨hse, hpe, hte⟩ := findTyped_slot h he rfl hfe
      apply procGiveRoot_owned hown hsv hsr hse hpv hpr hpe htv htr hte
      intro i hi
      have hr' := findTyped_find hfr
      exact ⟨hapart r r hr' (.inr (.inl hr')) i hi, hapart r v hr' (.inl (findTyped_find hfv)) i hi,
        hapart r e hr' (.inr (.inr (findTyped_find hfe))) i hi⟩

end Passing

def Outcome.Owned (boot : List (ℕ × ℕ)) (g : List Making) : Outcome → Prop
  | .ret _ _ k => Sys.Owned boot k g
  | .sched _ k => Sys.Owned boot k g
  | .panic => True
  | .stuck => True

section Messages

variable {boot : List (ℕ × ℕ)} {k k' : Kernel} {g : List Making} {u p e : Addr}
variable {fuel : ℕ} {o n : Option Addr} {rq m : Bytes} {dest cid pid : ℤ} {s : BitVec 32} {a b : ℕ}

theorem callSchedule_owned (h : Owned boot k g) {l : Context}
    (hl : ∀ e a, l = .recv e (some a) → IsSlot k.mem (live boot g) a) :
    (callSchedule u l n k).Owned boot g := h.setLabel hl

theorem Owned.move (h : Owned boot k g) (ha : IsSlot k.mem (live boot g) a)
    (hb : IsSlot k.mem (live boot g) b) (hp : capPerm k.mem a ≠ 0) :
    Owned boot { k with mem := moveCap a b k.mem } g := by
  apply h.setSlots (h.part.move ha hb hp)
  intro x hx
  have hxa := hx a ha
  have hxb := hx b hb
  unfold moveCap
  rw [put32_outside x (by omega), put32_outside x (by omega), put32_outside x (by omega),
    put32_outside x (by omega)]

theorem endpointGetPending_owned {x : Event} (h : Owned boot k g)
    (ho : ∀ a, o = some a → IsSlot k.mem (live boot g) a)
    (hr : endpointGetPending fuel u e o k = .found x k') : Owned boot k' g := by
  unfold endpointGetPending at hr
  by_cases hs : (k.endpoint e).signal ≠ 0
  · rw [if_pos hs] at hr
    cases hr
    exact h.setEndpoint _
  · rw [if_neg hs] at hr
    split at hr
    · cases hr
    · cases hr
    · rename_i p _
      set k₁ := k.setProc p { k.proc p with state := .blockReply } with hk₁
      have hown : Owned boot k₁ g := h.setProc_keeps rfl rfl rfl
      have hgive : (k₁.proc p).give = (k.proc p).give := by rw [hk₁, setProc_proc_same]
      simp only [hgive] at hr
      cases hg : (k.proc p).give with
      | none =>
        rw [hg] at hr
        injection hr with _ hk
        rw [← hk]
        exact hown
      | some a =>
        simp only [hg] at hr
        by_cases hz : k₁.mem.get32 a = 0
        · rw [if_pos hz] at hr
          injection hr with _ hk
          rw [← hk]
          exact hown
        · rw [if_neg hz] at hr
          cases o with
          | none => cases hr
          | some b =>
            injection hr with _ hk
            rw [← hk]
            exact hown.move (h.give p a hg) (ho b rfl) hz

theorem recvLoop_owned (h : Owned boot k g)
    (ho : ∀ a, o = some a → IsSlot k.mem (live boot g) a) :
    (recvLoop fuel u e o k).Owned boot g := by
  unfold recvLoop
  by_cases hb : (k.proc u).boundSignal ≠ 0
  · rw [if_pos hb]
    exact h.setProc_keeps rfl rfl rfl
  · rw [if_neg hb]
    split
    · trivial
    · trivial
    · rename_i hr
      exact (endpointGetPending_owned h ho hr).setEndpoint _
    · by_cases hw : (k.endpoint e).rwait ≠ none
      · rw [if_pos hw]
        trivial
      · rw [if_neg hw]
        have hown : Owned boot ((k.setEndpoint e { k.endpoint e with rwait := some u }).setProc u
            { k.proc u with state := .blockRecv }) g := (h.setEndpoint _).setProc_keeps rfl rfl rfl
        apply callSchedule_owned hown
        rintro _ a ⟨⟩
        exact ho a rfl

theorem recv_owned (h : Owned boot k g) (ho : ∀ a, o = some a → IsSlot k.mem (live boot g) a) :
    (recv fuel u e o k).Owned boot g := by
  unfold recv
  split_ifs
  · exact h
  · exact recvLoop_owned h ho

theorem enqueueWaiting_owned (h : Owned boot k g) : Owned boot (enqueueWaiting u e k) g := by
  have h₁ : Owned boot (k.setProc u { k.proc u with wprev := (k.endpoint e).waiting.tail }) g :=
    h.setProc_keeps rfl rfl rfl
  unfold enqueueWaiting
  apply Owned.setEndpoint
  apply Owned.setProc_keeps
  · split
    · exact h₁.setProc_keeps rfl rfl rfl
    · exact h₁.setEndpoint _
  · rfl
  · rfl
  · rfl

theorem mesg_owned (h : Owned boot k g) (ho : ∀ a, o = some a → IsSlot k.mem (live boot g) a) :
    (mesg u e rq o k).Owned boot g := by
  have h₁ : Owned boot (k.setProc u { k.proc u with m := rq, give := o, state := .blockSend }) g :=
    h.setProc (fun l hl => h.root u l hl) ho fun e a ha => h.accept u e a ha
  have h₂ : Owned boot (enqueueWaiting u e
      (k.setProc u { k.proc u with m := rq, give := o, state := .blockSend })) g :=
    enqueueWaiting_owned h₁
  unfold mesg
  simp only
  split
  · apply callSchedule_owned h₂.procReady
    rintro _ _ ⟨⟩
  · apply callSchedule_owned h₂
    rintro _ _ ⟨⟩

theorem unlink_owned (h : Owned boot k g) : Owned boot (unlinkPrev e p (unlinkNext e p k)) g := by
  have h₁ : Owned boot (unlinkNext e p k) g := by
    unfold unlinkNext
    split
    · exact h.setProc_keeps rfl rfl rfl
    · exact h.setEndpoint _
  unfold unlinkPrev
  split
  · exact h₁.setProc_keeps rfl rfl rfl
  · exact h₁.setEndpoint _

theorem unlink_mem : (unlinkPrev e p (unlinkNext e p k)).mem = k.mem := by
  have h₁ : (unlinkNext e p k).mem = k.mem := by
    unfold unlinkNext
    split <;> rfl
  rw [← h₁]
  unfold unlinkPrev
  split <;> rfl

theorem reply_owned (h : Owned boot k g)
    (ho : ∀ a, o = some a → IsSlot k.mem (live boot g) a ∧ capPerm k.mem a ≠ 0) :
    (reply fuel u e pid m o k).Owned boot g := by
  unfold reply
  split
  · trivial
  · exact h
  · rename_i p _
    have h₁ : Owned boot (unlinkPrev e p (unlinkNext e p k)) g := unlink_owned h
    have hmem : (unlinkPrev e p (unlinkNext e p k)).mem = k.mem := unlink_mem
    generalize unlinkPrev e p (unlinkNext e p k) = k₁ at h₁ hmem
    set k₂ := k₁.setProc p { k₁.proc p with m := m } with hk₂
    have h₂ : Owned boot k₂ g := h₁.setProc_keeps rfl rfl rfl
    apply callSchedule_owned
    · apply Owned.procReady
      split
      · rename_i a b hg
        obtain ⟨ha, hp⟩ := ho a rfl
        rw [← hmem] at ha hp
        exact h₂.move ha (h₂.give p b hg) hp
      · exact h₂
    · rintro _ _ ⟨⟩

theorem signal_owned (h : Owned boot k g) : (signal u e s k).Owned boot g := by
  unfold signal
  split
  · rename_i p _
    have h₁ : Owned boot (k.setProc p { k.proc p with boundSignal := (k.proc p).boundSignal ||| s }) g :=
      h.setProc_keeps rfl rfl rfl
    simp only
    split_ifs
    · apply callSchedule_owned h₁.procReady
      rintro _ _ ⟨⟩
    · exact h₁
  · have h₁ : Owned boot (k.setEndpoint e { k.endpoint e with
        signal := (k.endpoint e).signal ||| s }) g := h.setEndpoint _
    simp only
    split
    · apply callSchedule_owned h₁.procReady
      rintro _ _ ⟨⟩
    · exact h₁

theorem resume_owned (h : Owned boot k g) : (resume fuel u k).Owned boot g := by
  have h₁ : Owned boot (k.setProc u { k.proc u with label := .user }) g := by
    apply h.setLabel
    rintro _ _ ⟨⟩
  unfold resume
  simp only
  split
  · rename_i e o hl
    apply recvLoop_owned (h₁.setEndpoint _)
    rintro a rfl
    exact h.accept u e a hl
  · exact h₁
  · exact h₁
  · exact h

theorem offered (h : Owned boot k g) (hc : CidOk cid) {c : Addr} (hf : procFindCap u cid k = some c) :
    ∀ a, some c = some a → IsSlot k.mem (live boot g) a := by
  rintro a ⟨⟩
  exact procFindCap_slot h hc hf

theorem sysMesg_owned (h : Owned boot k g) (hc : CidOk cid) :
    (sysMesg u dest rq cid k).Owned boot g := by
  unfold sysMesg
  split
  · exact h
  · split_ifs
    · exact mesg_owned h fun _ ha => by cases ha
    · split
      · exact h
      · rename_i hf
        exact mesg_owned h (offered h hc hf)

theorem sysRecv_owned (h : Owned boot k g) (hc : CidOk cid) :
    (sysRecv fuel u dest cid k).Owned boot g := by
  unfold sysRecv
  split
  · exact h
  · split_ifs
    · exact recv_owned h fun _ ha => by cases ha
    · split
      · exact h
      · rename_i hf
        split_ifs
        · exact h
        · exact recv_owned h (offered h hc hf)

theorem sysReply_owned (h : Owned boot k g) (hc : CidOk cid) :
    (sysReply fuel u dest pid m cid k).Owned boot g := by
  unfold sysReply
  split
  · exact h
  · split_ifs
    · exact reply_owned h fun _ ha => by cases ha
    · split
      · exact h
      · rename_i hf
        split_ifs with hp
        · exact reply_owned h fun _ ha => by cases ha
        · apply reply_owned h
          rintro a ⟨⟩
          exact ⟨procFindCap_slot h hc hf, hp⟩

theorem sysSignal_owned (h : Owned boot k g) : (sysSignal u dest s k).Owned boot g := by
  unfold sysSignal
  split
  · exact h
  · exact signal_owned h

end Messages

end Agatha.Sys
