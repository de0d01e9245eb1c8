import Agatha.Sys.Capabilities

namespace Agatha.Sys

open Kernel Library Library.Bytes Library.Areas

/-- The call leaves the objects and the lists of mapped frames in order, only the capabilities in the slots `used` are
gone, and only the slots `fill` have new ones. -/
structure Orderly (boot : List (ℕ × ℕ)) (g g' : List Making) (used fill : Set ℕ) (k k' : Kernel) : Prop where
  owned : Owned boot k' g'
  lists : ∃ M, FrameLists k'.mem (live boot g') M
  kept : CapsKept {a | IsSlot k.mem (live boot g) a} used k.mem k'.mem
  typed : ∀ o ∈ live boot g, objType k.mem o ≠ objUntyped → o ∈ live boot g' ∧ objType k'.mem o = objType k.mem o
  filled : ∀ a, IsSlot k.mem (live boot g) a → capPerm k.mem a = 0 → a ∉ fill → capPerm k'.mem a = 0

section Tools

variable {boot : List (ℕ × ℕ)} {k k' : Kernel} {g g' ev : List Making} {u : Addr} {M W D used fill : Set ℕ}
  {mem mem' : Bytes} {L cover : Set ℕ} {origin : ℕ → ℕ} {o a r : ℕ} {cid res : ℤ}

theorem CapsKept.refl {S : Set ℕ} : CapsKept S used mem mem := fun _ _ _ => .inl ⟨rfl, rfl⟩

theorem Orderly.same (hl : FrameLists k.mem (live boot g) M) (h : Owned boot k' g) (hmem : k'.mem = k.mem) :
    Orderly boot g g used fill k k' := by
  refine ⟨h, ⟨M, ?_⟩, ?_, ?_, ?_⟩
  · rw [hmem]
    exact hl
  · rw [hmem]
    exact .refl
  · rw [hmem]
    exact fun o ho _ => ⟨ho, rfl⟩
  · rw [hmem]
    exact fun a _ h0 _ => h0

theorem Orderly.err (h : Owned boot k g) (hl : FrameLists k.mem (live boot g) M)
    (hr : Result.err k = some (res, ev, k')) : Orderly boot g (g ++ ev) used fill k k' := by
  cases hr
  rw [List.append_nil]
  exact .same hl h rfl

theorem Effect.filled (h : Effect mem mem' L L' W D) (hF : ∀ w ∈ W, w ∈ fill ∨ capPerm mem' w = 0) (a : ℕ)
    (ha : IsSlot mem L a) (h0 : capPerm mem a = 0) (hfill : a ∉ fill) : capPerm mem' a = 0 := by
  by_cases haW : a ∈ W
  · exact (hF a haW).resolve_left hfill
  · exact (slot_congr (h.slot a ha haW)).1.trans h0

theorem Orderly.of_effect (h : Owned boot k' g') (hl : FrameLists k.mem (live boot g) M)
    (he : Effect k.mem k'.mem (live boot g) (live boot g') W D)
    (hW : ∀ w ∈ W, capPerm k.mem w = 0 ∨ w ∈ used ∧ capPerm k'.mem w = 0)
    (hF : ∀ w ∈ W, w ∈ fill ∨ capPerm k'.mem w = 0)
    (hW' : ∀ w ∈ W, capPerm k'.mem w ≠ 0 → capObj k'.mem w ∉ M)
    (hD : ∀ f ∈ D, f ∈ live boot g → objType k.mem f = objFrame → ¬ OnList k.mem (live boot g) M f ∧
      (frameType k'.mem f = frameL1 → frameNext k'.mem f = 0)) : Orderly boot g g' used fill k k' :=
  ⟨h, ⟨M, hl.keep he hW' hD⟩, he.kept hW, he.typed, he.filled hF⟩

theorem Effect.of_slots (h : Partition mem L cover origin) (hW : ∀ w ∈ W, IsSlot mem L w)
    (hD : ∀ d ∈ D, d ∈ L ∧ objType mem d ≠ objCaplist)
    (hout : ∀ x, (∀ w ∈ W, x < w ∨ w + 8 ≤ x) → (∀ d ∈ D, x < d + 8 ∨ d + objLen mem d ≤ x) →
      mem' x = mem x) : Effect mem mem' L L W D := by
  have hnone : ∀ c, c ∉ (∅ : Set ℕ) := Set.notMem_empty
  apply Effect.of_writes (O := ∅) (s := 0) (n := 0) h hW hD
  · exact fun o ho => absurd ho (hnone o)
  · exact fun c _ _ => .inr (Nat.zero_le c)
  · exact fun c hc _ => hc
  · exact fun c hc => .inl ⟨hc, hnone c⟩
  · exact fun x hw hd _ => hout x hw hd

theorem Orderly.of_object (h : Owned boot k g) (hl : FrameLists k.mem (live boot g) M)
    (h' : Owned boot { k with mem := mem } g) (ho : o ∈ live boot g) (ht : objType k.mem o ≠ objCaplist)
    (hmem : ∀ x, x < o + 8 ∨ o + objLen k.mem o ≤ x → mem x = k.mem x)
    (hf : objType k.mem o = objFrame → ¬ OnList k.mem (live boot g) M o ∧
      (frameType mem o = frameL1 → frameNext mem o = 0)) : Orderly boot g g used fill k { k with mem := mem } := by
  have hnone : ∀ w, w ∉ (∅ : Set ℕ) := Set.notMem_empty
  have he : Effect k.mem mem (live boot g) (live boot g) ∅ {o} := by
    apply Effect.of_slots h.part
    · exact fun w hw => absurd hw (hnone w)
    · rintro d rfl
      exact ⟨ho, ht⟩
    · exact fun x _ hd => hmem x (hd o rfl)
  apply Orderly.of_effect h' hl he
  · exact fun w hw => absurd hw (hnone w)
  · exact fun w hw => absurd hw (hnone w)
  · exact fun w hw => absurd hw (hnone w)
  · rintro d rfl _ htype
    exact hf htype

theorem FrameLists.not_frame (hl : FrameLists mem L M) (ht : objType mem o ≠ objFrame) : o ∉ M := by
  intro ho
  exact ht (hl.live o ho).2.1

theorem FrameLists.named (hl : FrameLists mem L M) (ha : IsSlot mem L a) (hp : capPerm mem a ≠ 0) :
    capObj mem a ∉ M := by
  intro ho
  exact hl.unnamed _ ho a ha hp rfl

theorem FrameLists.off (hl : FrameLists mem L M) (ha : IsSlot mem L a) (hp : capPerm mem a ≠ 0)
    (ht : frameType mem (capObj mem a) ≠ frameL1) : ¬ OnList mem L M (capObj mem a) := by
  rintro (hm | ⟨-, -, ht'⟩)
  · exact hl.named ha hp hm
  · exact ht ht'

end Tools

section Objects

variable {boot : List (ℕ × ℕ)} {k k' : Kernel} {g ev : List Making} {u : Addr} {M : Set ℕ}
  {cid nid res type : ℤ} {n : ℕ} {systick : ℤ}

theorem sysEndpointConnect_orderly (h : Owned boot k g) (hl : FrameLists k.mem (live boot g) M)
    (hc : CidOk cid) (hn : CidOk nid) (hr : sysEndpointConnect u cid nid k = some (res, ev, k')) :
    Orderly boot g (g ++ ev) ∅ {c | procFindCap u nid k = some c} k k' := by
  have howned := sysEndpointConnect_owned h hc hn hr
  obtain ⟨rfl, rfl | ⟨c, n, hf, hpc, htype, hfn, hnp, rfl⟩⟩ := sysEndpointConnect_cases hr
  · rw [List.append_nil]
    exact .same hl h rfl
  · rw [List.append_nil] at howned ⊢
    have hslot := procFindCap_slot h hn hfn
    have ho := h.obj hc hf hpc
    have he : Effect k.mem (setCap n capWrite (capObj k.mem c) k.mem) (live boot g) (live boot g) {n} ∅ := by
      apply Effect.of_slots h.part
      · rintro w rfl
        exact hslot
      · exact fun d hd => absurd hd (Set.notMem_empty d)
      · exact fun x hw _ => setCap_outside (hw n rfl)
    apply Orderly.of_effect howned hl he
    · rintro w rfl
      exact .inl hnp
    · rintro w rfl
      exact .inl hfn
    · rintro w rfl _
      change capObj (setCap w capWrite (capObj k.mem c) k.mem) w ∉ M
      rw [setCap_obj, Nat.mod_eq_of_lt (h.part.addr_lt ho)]
      apply hl.not_frame
      rw [htype]
      decide
    · exact fun f hf => absurd hf (Set.notMem_empty f)

theorem sysFrameSetup_orderly {ty pa len : ℕ} (h : Owned boot k g) (hl : FrameLists k.mem (live boot g) M)
    (hc : CidOk cid) (hp : ∀ c, procFindCap u cid k = some c → capPerm k.mem c ≠ 0)
    (hr : sysFrameSetup u cid ty pa len k = some (res, ev, k')) : Orderly boot g (g ++ ev) ∅ ∅ k k' := by
  have howned := sysFrameSetup_owned h hc hp hr
  obtain ⟨rfl, rfl | ⟨c, hf, htype, hnone, rfl⟩⟩ := sysFrameSetup_cases hr
  · rw [List.append_nil]
    exact .same hl h rfl
  · rw [List.append_nil] at howned ⊢
    have hslot := procFindCap_slot h hc hf
    have hlive := h.obj hc hf (hp c hf)
    have hoff := hl.off hslot (hp c hf) (by rw [hnone]; decide)
    obtain ⟨f, hff⟩ : ∃ f : ℕ, capObj k.mem c = f := ⟨_, rfl⟩
    rw [hff] at htype hlive hoff howned ⊢
    have hlen := objLen_frame htype
    apply Orderly.of_object h hl howned hlive
    · rw [htype]
      decide
    · intro x hx
      rw [put32_outside x (by omega), put32_outside x (by omega), put32_outside x (by omega),
        put32_outside x (by omega)]
    · exact fun _ => ⟨hoff, fun _ => get32_put32_same⟩

theorem objInit_frame {t o : ℕ} (ht : t < objTypeN)
    (hf : objType (objInit systick t o n { k with mem := setHead o t 1 k.mem }).mem o = objFrame) :
    frameType (objInit systick t o n { k with mem := setHead o t 1 k.mem }).mem o ≠ frameL1 := by
  rw [objInit_type o n k systick ht] at hf
  subst hf
  have hnone : frameType (objInit systick objFrame o n { k with mem := setHead o objFrame 1 k.mem }).mem o =
      frameNone := get32_put32_same
  rw [hnone]
  decide

theorem sysObjRetype_orderly (h : Owned boot k g) (hl : FrameLists k.mem (live boot g) M) (hc : CidOk cid)
    (hclean : type = objCaplist → ∀ c, procFindCap u cid k = some c →
      ∀ i, 255 ≤ i → i < clistCaps → capPerm k.mem (capSlot (capObj k.mem c) i) = 0)
    (hr : sysObjRetype systick u cid type n k = some (res, ev, k')) : Orderly boot g (g ++ ev) ∅ ∅ k k' := by
  have howned : 0 ≤ type ∧ type < objTypeN → Owned boot k' (g ++ ev) := fun ht =>
    sysObjRetype_owned h hc ht hclean hr
  unfold sysObjRetype at hr
  by_cases hrange : type < 0 ∨ objTypeN < type
  · rw [if_pos hrange] at hr
    exact .err h hl hr
  rw [if_neg hrange] at hr
  cases hf : procFindCap u cid k with
  | none =>
    rw [hf] at hr
    exact .err h hl hr
  | some c =>
    rw [hf] at hr
    simp only at hr
    split_ifs at hr with hp hu hn hs hlen
    · exact .err h hl hr
    · exact .err h hl hr
    · exact .err h hl hr
    · exact .err h hl hr
    have howned := howned (by unfold objTypeN at *; omega)
    cases hr
    have htype : objType k.mem (capObj k.mem c) = objUntyped := not_not.mp hu
    have ho := h.obj hc hf hp
    have hclean' : type.toNat = objCaplist → ∀ i, 255 ≤ i → i < clistCaps →
        capPerm k.mem (capSlot (capObj k.mem c) i) = 0 := by
      intro ht
      exact hclean (by unfold objCaplist at *; omega) c hf
    have ht : type.toNat < objTypeN := by
      unfold objTypeN at *
      omega
    generalize type.toNat = t at *
    generalize capObj k.mem c = o at *
    have holen : objLen k.mem o = untypedLen k.mem o := objLen_untyped htype
    have hlive : live boot (g ++ [.retyped o (untypedLen k.mem o)]) = live boot g := live_concat
    have he : Effect k.mem (objInit systick t o n { k with mem := setHead o t 1 k.mem }).mem (live boot g)
        (live boot (g ++ [.retyped o (untypedLen k.mem o)])) ∅ ∅ := by
      rw [hlive]
      apply Effect.of_writes (O := {o}) (s := o) (n := objLen k.mem o) h.part
      · exact fun w hw => absurd hw (Set.notMem_empty w)
      · exact fun d hd => absurd hd (Set.notMem_empty d)
      · rintro _ rfl
        exact htype
      · exact fun a ha hao => h.apart ho ha hao
      · exact fun a ha _ => ha
      · intro a ha
        by_cases hao : a = o
        · subst hao
          exact .inr ⟨fun hf => objInit_empty ht hf hclean', fun hf => objInit_frame ht hf⟩
        · exact .inl ⟨ha, hao⟩
      · exact fun x _ _ hx => objInit_outside hs (by omega)
    apply Orderly.of_effect howned hl he
    · exact fun w hw => absurd hw (Set.notMem_empty w)
    · exact fun w hw => absurd hw (Set.notMem_empty w)
    · exact fun w hw => absurd hw (Set.notMem_empty w)
    · exact fun f hf => absurd hf (Set.notMem_empty f)

theorem untyped_new {o : ℕ} {mem : Bytes} (ht : objType mem o = objUntyped) :
    (objType mem o = objCaplist → ∀ i < clistCaps, capPerm mem (capSlot o i) = 0) ∧
      (objType mem o = objFrame → frameType mem o ≠ frameL1) := by
  rw [ht]
  exact ⟨nofun, nofun⟩

theorem sysObjSplit_orderly (h : Owned boot k g) (hl : FrameLists k.mem (live boot g) M) (hc : CidOk cid)
    (hn : CidOk nid) (hr : sysObjSplit u cid nid k = some (res, ev, k')) :
    Orderly boot g (g ++ ev) ∅ {c | procFindCap u nid k = some c} k k' := by
  have howned := sysObjSplit_owned h hc hn hr
  rcases sysObjSplit_cases hr with ⟨rfl, rfl⟩ | ⟨c, nc, hf, hpc, htype, hfn, hnp, hlen, hk⟩
  · rw [List.append_nil]
    exact .same hl h rfl
  · cases hk
    have hslot := procFindCap_slot h hn hfn
    have ho := h.obj hc hf hpc
    obtain ⟨o, hoc⟩ : ∃ o : ℕ, capObj k.mem c = o := ⟨_, rfl⟩
    rw [hoc] at htype ho hlen howned ⊢
    have holen : objLen k.mem o = untypedLen k.mem o := objLen_untyped htype
    obtain ⟨hpos, hfit⟩ := h.part.fits o ho
    rw [holen] at hfit
    generalize hL : untypedLen k.mem o = len at *
    rw [Nat.mod_eq_of_lt (by omega : o + len / 2 < 2 ^ 32), setCap_swap] at howned ⊢
    obtain ⟨mem₁, hmem₁⟩ : ∃ mem : Bytes, objUntypedInit o (len / 2) (setHead o objUntyped 1
        (objUntypedInit (o + len / 2) (len / 2) (setHead (o + len / 2) objUntyped 1 k.mem))) = mem := ⟨_, rfl⟩
    have hhalf : objType mem₁ (o + len / 2) = objUntyped := by
      rw [← hmem₁]
      exact (objType_congr fun x h1 h2 => untyped_outside (by omega)).trans untyped_type
    have hwhole : objType mem₁ o = objUntyped := hmem₁ ▸ untyped_type
    change Owned boot
      { k with
        mem := setCap nc (capRead ||| capWrite) (o + len / 2) (objUntypedInit o (len / 2)
          (setHead o objUntyped 1 (objUntypedInit (o + len / 2) (len / 2)
            (setHead (o + len / 2) objUntyped 1 k.mem)))) } _ at howned
    change Orderly boot g _ ∅ _ k
      { k with
        mem := setCap nc (capRead ||| capWrite) (o + len / 2) (objUntypedInit o (len / 2)
          (setHead o objUntyped 1 (objUntypedInit (o + len / 2) (len / 2)
            (setHead (o + len / 2) objUntyped 1 k.mem)))) }
    rw [hmem₁] at howned ⊢
    have hnew : o + len / 2 ∉ live boot g := h.not_within ho (by omega) (by omega)
    have hlive : ∀ a, a ∈ live boot (g ++ [.split o (o + len / 2) len]) ↔ a = o + len / 2 ∨ a ∈ live boot g := by
      intro a
      rw [live_concat]
      rfl
    have hstays : ∀ a, a = o ∨ a = o + len / 2 →
        objType (setCap nc (capRead ||| capWrite) (o + len / 2) mem₁) a = objUntyped := by
      have hap := h.part.slot_off hslot ho (by rw [htype]; decide)
      unfold Apart at hap
      intro a ha
      have hsame : objType (setCap nc (capRead ||| capWrite) (o + len / 2) mem₁) a = objType mem₁ a := by
        apply get32_congr
        intro x h1 h2
        exact setCap_outside (by omega)
      rcases ha with rfl | rfl
      · exact hsame.trans hwhole
      · exact hsame.trans hhalf
    have he : Effect k.mem (setCap nc (capRead ||| capWrite) (o + len / 2) mem₁) (live boot g)
        (live boot (g ++ [.split o (o + len / 2) len])) {nc} ∅ := by
      apply Effect.of_writes (O := {o}) (s := o) (n := objLen k.mem o) h.part
      · rintro w rfl
        exact hslot
      · exact fun d hd => absurd hd (Set.notMem_empty d)
      · rintro _ rfl
        exact htype
      · exact fun a ha hao => h.apart ho ha hao
      · exact fun a ha _ => (hlive a).mpr (.inr ha)
      · intro a ha
        by_cases hao : a = o ∨ a = o + len / 2
        · exact .inr (untyped_new (hstays a hao))
        · have ha := ((hlive a).mp ha).resolve_left fun he => hao (.inr he)
          exact .inl ⟨ha, fun he => hao (.inl he)⟩
      · intro x hw _ hx
        rw [setCap_outside (hw nc rfl), ← hmem₁, untyped_outside (by omega), untyped_outside (by omega)]
    apply Orderly.of_effect howned hl he
    · rintro w rfl
      exact .inl hnp
    · rintro w rfl
      exact .inl hfn
    · rintro w rfl _
      change capObj (setCap w (capRead ||| capWrite) (o + len / 2) mem₁) w ∉ M
      rw [setCap_obj, Nat.mod_eq_of_lt (by omega)]
      exact fun hm => hnew (hl.live _ hm).1
    · exact fun f hf => absurd hf (Set.notMem_empty f)

theorem sysObjMerge_orderly {cidL cidH : ℤ} (h : Owned boot k g) (hl : FrameLists k.mem (live boot g) M)
    (hcl : CidOk cidL) (hch : CidOk cidH)
    (hpl : ∀ c, procFindCap u cidL k = some c → capPerm k.mem c ≠ 0)
    (hph : ∀ c, procFindCap u cidH k = some c → capPerm k.mem c ≠ 0)
    (hr : sysObjMerge u cidL cidH k = some (res, ev, k')) :
    Orderly boot g (g ++ ev) {c | procFindCap u cidH k = some c} ∅ k k' := by
  have howned := sysObjMerge_owned h hcl hch hpl hph hr
  rcases sysObjMerge_cases h hcl hch hpl hph hr with ⟨rfl, rfl⟩ | ⟨c, o, n, hf, hm, rfl, rfl⟩
  · rw [List.append_nil]
    exact .same hl h rfl
  · have hn := hm.large
    have hlive : ∀ a, a ∈ live boot (g ++ [.merged o (o + n) (n + n)]) ↔ a ∈ live boot g ∧ a ≠ o + n := by
      intro a
      rw [live_concat]
      rfl
    have hstays : objType (setCap c 0 0 (k.mem.put32 (o + 8) (n + n))) o = objUntyped := by
      have hap := h.part.slot_off hm.slot hm.low (by rw [hm.lowType]; decide)
      rw [hm.lowLen] at hap
      unfold Apart at hap
      rw [← hm.lowType]
      apply get32_congr
      intro x h1 h2
      rw [setCap_outside (by omega), put32_outside x (by omega)]
    have he : Effect k.mem (setCap c 0 0 (k.mem.put32 (o + 8) (n + n))) (live boot g)
        (live boot (g ++ [.merged o (o + n) (n + n)])) {c} ∅ := by
      apply Effect.of_writes (O := {o, o + n}) (s := o) (n := n + n) h.part
      · rintro w rfl
        exact hm.slot
      · exact fun d hd => absurd hd (Set.notMem_empty d)
      · rintro _ (rfl | rfl)
        · exact hm.lowType
        · exact hm.highType
      · exact fun a ha hao => hm.apart h ha hao
      · exact fun a ha hao => (hlive a).mpr ⟨ha, fun he => hao (.inr he)⟩
      · intro a ha
        obtain ⟨ha, hah⟩ := (hlive a).mp ha
        by_cases hal : a = o
        · subst hal
          exact .inr (untyped_new hstays)
        · exact .inl ⟨ha, fun he => he.elim hal hah⟩
      · intro x hw _ hx
        rw [setCap_outside (hw c rfl), put32_outside x (by omega)]
    apply Orderly.of_effect howned hl he
    · rintro w rfl
      exact .inr ⟨hf, setCap_perm⟩
    · rintro w rfl
      exact .inr setCap_perm
    · rintro w rfl hp
      exact absurd setCap_perm hp
    · exact fun f hf => absurd hf (Set.notMem_empty f)

/-- Untyped memory `o`, as `mem` has it, is made of the frame `f` of the slot `fc`, and named by the empty slot `nc`. -/
structure Creating (boot : List (ℕ × ℕ)) (g : List Making) (k : Kernel) (fc nc f o len : ℕ) (mem : Bytes) : Prop where
  owned : Owned boot k g
  slotFrame : IsSlot k.mem (live boot g) fc
  slotNew : IsSlot k.mem (live boot g) nc
  ne : nc ≠ fc
  live : f ∈ live boot g
  type : objType k.mem f = objFrame
  fresh : Fresh boot g o len
  large : 4096 ≤ len
  outside : ∀ x, x < o ∨ o + len ≤ x → mem x = k.mem x
  typeNew : objType mem o = objUntyped

section Creating

variable {fc nc f o len : ℕ} {mem : Bytes} (h : Creating boot g k fc nc f o len mem)

include h

theorem Creating.out {a : ℕ} (ha : a ∈ Sys.live boot g) : Apart a (objLen k.mem a) o len :=
  h.fresh.out h.owned (Nat.lt_of_lt_of_le (by decide) h.large) ha

theorem Creating.slotOut {a : ℕ} (ha : IsSlot k.mem (Sys.live boot g) a) : Apart a 8 o len := by
  obtain ⟨c, hc, -, h1, h2, -⟩ := ha.within
  exact (h.out hc).mono (by omega) (by omega) le_rfl le_rfl

theorem Creating.slotFrameOff {a : ℕ} (ha : IsSlot k.mem (Sys.live boot g) a) : Apart a 8 f 28 := by
  have hoff := h.owned.part.slot_off ha h.live (by rw [h.type]; decide)
  rwa [objLen_frame h.type] at hoff

theorem Creating.frameOut : Apart f 28 o len := objLen_frame h.type ▸ h.out h.live

theorem Creating.stays :
    objType (setCap fc 0 0 ((setCap nc (capWrite ||| capRead) o mem).put32 (f + 16) frameKobj)) o = objUntyped := by
  have hfc := h.slotOut h.slotFrame
  have hnc := h.slotOut h.slotNew
  have hf := h.frameOut
  have hlarge := h.large
  unfold Apart at hfc hnc hf
  rw [← h.typeNew]
  apply get32_congr
  intro x h1 h2
  rw [setCap_outside (by omega), put32_outside x (by omega), setCap_outside (by omega)]

theorem Creating.effect : Effect k.mem
    (setCap fc 0 0 ((setCap nc (capWrite ||| capRead) o mem).put32 (f + 16) frameKobj)) (Sys.live boot g)
    (Sys.live boot (g ++ [.mapped o len])) {nc, fc} {f} := by
  have hin : ∀ a, a ∈ Sys.live boot (g ++ [.mapped o len]) ↔ a = o ∨ a ∈ Sys.live boot g := by
    intro a
    rw [live_concat]
    rfl
  apply Effect.of_writes (O := ∅) (s := o) (n := len) h.owned.part
  · rintro w (rfl | rfl)
    · exact h.slotNew
    · exact h.slotFrame
  · rintro d rfl
    exact ⟨h.live, by rw [h.type]; decide⟩
  · exact fun a ha => absurd ha (Set.notMem_empty a)
  · exact fun a ha _ => h.out ha
  · exact fun a ha _ => (hin a).mpr (.inr ha)
  · intro a ha
    rcases (hin a).mp ha with rfl | ha
    · exact .inr (untyped_new h.stays)
    · exact .inl ⟨ha, Set.notMem_empty a⟩
  · intro x hw hdx hx
    have hxf := hdx f rfl
    rw [objLen_frame h.type] at hxf
    rw [setCap_outside (hw fc (.inr rfl)), put32_outside x (by omega), setCap_outside (hw nc (.inl rfl)),
      h.outside x hx]

theorem Creating.obj_new :
    capObj (setCap fc 0 0 ((setCap nc (capWrite ||| capRead) o mem).put32 (f + 16) frameKobj)) nc = o := by
  have hnf := h.slotFrameOff h.slotNew
  have hap := h.owned.part.slot_apart h.slotNew h.slotFrame h.ne
  have hfit := h.fresh.fits.2
  have hlarge := h.large
  unfold Apart at hnf hap
  have hsame : capObj (setCap fc 0 0 ((setCap nc (capWrite ||| capRead) o mem).put32 (f + 16) frameKobj)) nc =
      capObj (setCap nc (capWrite ||| capRead) o mem) nc := by
    apply get32_congr
    intro x h1 h2
    rw [setCap_outside (by omega), put32_outside x (by omega)]
  rw [hsame, setCap_obj, Nat.mod_eq_of_lt (by omega)]

theorem Creating.frameType_kobj :
    frameType (setCap fc 0 0 ((setCap nc (capWrite ||| capRead) o mem).put32 (f + 16) frameKobj)) f = frameKobj := by
  have hff := h.slotFrameOff h.slotFrame
  unfold Apart at hff
  have hsame : frameType (setCap fc 0 0 ((setCap nc (capWrite ||| capRead) o mem).put32 (f + 16) frameKobj)) f =
      frameType ((setCap nc (capWrite ||| capRead) o mem).put32 (f + 16) frameKobj) f := by
    apply get32_congr
    intro x h1 h2
    exact setCap_outside (by omega)
  exact hsame.trans get32_put32_same

end Creating

theorem sysObjCreate_orderly {fuel o : ℕ} {fid : ℤ} (h : Owned boot k g)
    (hl : FrameLists k.mem (live boot g) M) (hc : CidOk fid) (hn : CidOk nid)
    (hfresh : ∀ len, .mapped o len ∈ ev → Fresh boot g o len)
    (hr : sysObjCreate fuel o u fid nid k = some (res, ev, k')) :
    Orderly boot g (g ++ ev) {c | procFindCap u fid k = some c} {c | procFindCap u nid k = some c} k k' := by
  have howned := sysObjCreate_owned h hc hn hfresh hr
  rcases sysObjCreate_cases hr with ⟨rfl, rfl⟩ | ⟨fc, nc, hf, hpf, htype, htf, hfn, hnp, hd, ho0, hk⟩
  · rw [List.append_nil]
    exact .same hl h rfl
  · cases hk
    have hslotf := procFindCap_slot h hc hf
    have hoff := hl.off hslotf hpf (by rw [htf]; decide)
    have hne : nc ≠ fc := by
      rintro rfl
      exact hpf hnp
    have hlive := h.obj hc hf hpf
    obtain ⟨f, hff⟩ : ∃ f : ℕ, capObj k.mem fc = f := ⟨_, rfl⟩
    rw [hff] at hd htype hlive hoff hfresh howned ⊢
    have hlarge : 4096 ≤ frameLen k.mem f := isPageDoubled_large hd (by decide) (by omega)
    generalize frameLen k.mem f = len at *
    have hfr := hfresh len (List.mem_singleton_self _)
    have hhead : ((k.mem.fill o len 0).put32 o 0).put32 (o + 4) objUntyped =
        setHead o objUntyped 0 (k.mem.fill o len 0) := put32_comm (by omega)
    rw [hhead] at howned ⊢
    obtain ⟨mem, hmem⟩ : ∃ mem : Bytes, objUntypedInit o len (setHead o objUntyped 0 (k.mem.fill o len 0)) = mem :=
      ⟨_, rfl⟩
    have hout : ∀ x, x < o ∨ o + len ≤ x → mem x = k.mem x := by
      intro x hx
      rw [← hmem, untyped_outside (by omega), fill_outside x hx]
    have hcr : Creating boot g k fc nc f o len mem :=
      ⟨h, hslotf, procFindCap_slot h hn hfn, hne, hlive, htype, hfr, hlarge, hout, hmem ▸ untyped_type⟩
    rw [hmem] at howned ⊢
    apply Orderly.of_effect howned hl hcr.effect
    · rintro w (rfl | rfl)
      · exact .inl hnp
      · exact .inr ⟨hf, setCap_perm⟩
    · rintro w (rfl | rfl)
      · exact .inl hfn
      · exact .inr setCap_perm
    · rintro w (rfl | rfl) hp'
      · rw [hcr.obj_new]
        exact fun hm => hfr.new h (by omega) (hl.live o hm).1
      · exact absurd setCap_perm hp'
    · rintro d rfl _ _
      exact ⟨hoff, fun ht => absurd (hcr.frameType_kobj.symm.trans ht) (by decide)⟩

end Objects

section Passing

variable {boot : List (ℕ × ℕ)} {k k' : Kernel} {g ev : List Making} {u : Addr} {M : Set ℕ}
  {cid vspace clist eid res : ℤ} {o v r e l : ℕ} {mem : Bytes}

theorem procGiveRoot_effect (h : Owned boot k g) (hl : FrameLists k.mem (live boot g) M)
    (hv : IsSlot k.mem (live boot g) v) (hr : IsSlot k.mem (live boot g) r) (he : IsSlot k.mem (live boot g) e)
    (hpv : capPerm k.mem v ≠ 0) (hpr : capPerm k.mem r ≠ 0) (hpe : capPerm k.mem e ≠ 0)
    (htr : objType k.mem (capObj k.mem r) = objCaplist)
    (hte : objType k.mem (capObj k.mem e) = objEndpoint)
    (hempty : ∀ i < 3, capPerm k.mem (capSlot (capObj k.mem r) i) = 0) :
    ∃ W, Effect k.mem (procGiveRoot o v r e k).mem (live boot g) (live boot g) W ∅ ∧
      (∀ w ∈ W, (∃ i < 3, w = capSlot (capObj k.mem r) i) ∨
        w ∈ ({v, r, e} : Set ℕ) ∧ capPerm (procGiveRoot o v r e k).mem w = 0) ∧
      ∀ w ∈ W, capPerm (procGiveRoot o v r e k).mem w ≠ 0 → capObj (procGiveRoot o v r e k).mem w ∉ M := by
  have hlive := h.part.named r hr hpr
  have hne := h.part.named e he hpe
  have hnv := h.part.named v hv hpv
  have hlm := hl.named hr hpr
  have hvm := hl.named hv hpv
  have hem := hl.named he hpe
  obtain ⟨l, hrl⟩ : ∃ l : ℕ, capObj k.mem r = l := ⟨_, rfl⟩
  rw [hrl] at htr hempty hlive hlm
  have hd : ∀ i < 3, IsSlot k.mem (live boot g) (capSlot l i) := fun i hi =>
    ⟨l, hlive, htr, i, lt_trans hi (by decide), rfl⟩
  have hother : ∀ i < 3, ∀ a, IsSlot k.mem (live boot g) a → capPerm k.mem a ≠ 0 → Apart (capSlot l i) 8 a 8 := by
    intro i hi a ha hp
    apply h.part.slot_apart (hd i hi) ha
    rintro rfl
    exact hp (hempty i hi)
  have hmem : (procGiveRoot o v r e k).mem = setCap e 0 0 (setCap r 0 0 (setCap v 0 0
      (setCap (capSlot l 1) capWrite (capObj k.mem e) (setCap (capSlot l 2) (capRead ||| capWrite) (capObj k.mem v)
        (setCap (capSlot l 0) (capRead ||| capWrite) l k.mem))))) := by
    have h0v := (hother 0 (by decide) v hv hpv).symm
    have h0e := (hother 0 (by decide) e he hpe).symm
    have h2e := (hother 2 (by decide) e he hpe).symm
    unfold procGiveRoot
    simp only [passCap_eq, dropCap_eq, setProc_mem, hrl]
    rw [(setCap_apart h2e).2, (setCap_apart h0e).2, (setCap_apart h0v).2]
  rw [hmem]
  have hkeep : ∀ i < 3, ∀ m : Bytes, capObj (setCap e 0 0 (setCap r 0 0 (setCap v 0 0 m))) (capSlot l i) =
      capObj m (capSlot l i) := by
    intro i hi m
    rw [(setCap_apart (hother i hi e he hpe)).2, (setCap_apart (hother i hi r hr hpr)).2,
      (setCap_apart (hother i hi v hv hpv)).2]
  have hmod : ∀ x ∈ live boot g, x % 2 ^ 32 = x := fun x hx => Nat.mod_eq_of_lt (h.part.addr_lt hx)
  have hcleared : ∀ w, w = v ∨ w = r ∨ w = e → ∀ m : Bytes,
      capPerm (setCap e 0 0 (setCap r 0 0 (setCap v 0 0 m))) w = 0 := by
    intro w hw m
    by_cases hwe : w = e
    · rw [hwe]
      exact setCap_perm
    by_cases hwr : w = r
    · rw [hwr] at hwe ⊢
      rw [(setCap_apart (h.part.slot_apart hr he hwe)).1]
      exact setCap_perm
    · have hwv : w = v := hw.resolve_right fun h => h.elim hwr hwe
      rw [hwv] at hwe hwr ⊢
      rw [(setCap_apart (h.part.slot_apart hv he hwe)).1, (setCap_apart (h.part.slot_apart hv hr hwr)).1]
      exact setCap_perm
  refine ⟨{capSlot l 0, capSlot l 1, capSlot l 2, v, r, e}, ?_, ?_, ?_⟩
  · apply Effect.of_slots h.part
    · rintro w (rfl | rfl | rfl | rfl | rfl | rfl)
      · exact hd 0 (by decide)
      · exact hd 1 (by decide)
      · exact hd 2 (by decide)
      · exact hv
      · exact hr
      · exact he
    · exact fun d hd => absurd hd (Set.notMem_empty d)
    · intro x hx _
      have h0 := hx (capSlot l 0) (by simp)
      have h1 := hx (capSlot l 1) (by simp)
      have h2 := hx (capSlot l 2) (by simp)
      rw [setCap_outside (hx e (by simp)), setCap_outside (hx r (by simp)), setCap_outside (hx v (by simp)),
        setCap_outside h1, setCap_outside h2, setCap_outside h0]
  · rintro w (rfl | rfl | rfl | hw)
    · exact .inl ⟨0, by decide, by rw [hrl]⟩
    · exact .inl ⟨1, by decide, by rw [hrl]⟩
    · exact .inl ⟨2, by decide, by rw [hrl]⟩
    · exact .inr ⟨hw, hcleared w hw _⟩
  · have h01 : Apart (capSlot l 0) 8 (capSlot l 1) 8 := by
      unfold Apart capSlot
      omega
    have h02 : Apart (capSlot l 0) 8 (capSlot l 2) 8 := by
      unfold Apart capSlot
      omega
    have h12 : Apart (capSlot l 2) 8 (capSlot l 1) 8 := by
      unfold Apart capSlot
      omega
    rintro w (rfl | rfl | rfl | hw) hp
    · rw [hkeep 0 (by decide), (setCap_apart h01).2, (setCap_apart h02).2, setCap_obj, hmod l hlive]
      exact hlm
    · rw [hkeep 1 (by decide), setCap_obj, hmod _ hne]
      exact hem
    · rw [hkeep 2 (by decide), (setCap_apart h12).2, setCap_obj, hmod _ hnv]
      exact hvm
    · exact absurd (hcleared w hw _) hp

theorem sysProcSetup_orderly (h : Owned boot k g) (hl : FrameLists k.mem (live boot g) M) (hv : CidOk vspace)
    (hc : CidOk clist) (he : CidOk eid)
    (hempty : ∀ r, procFindCap u clist k = some r → ∀ i < 3, capPerm k.mem (capSlot (capObj k.mem r) i) = 0)
    (hr : sysProcSetup u cid vspace clist eid k = some (res, ev, k')) : Orderly boot g (g ++ ev)
      {c | procFindCap u vspace k = some c ∨ procFindCap u clist k = some c ∨ procFindCap u eid k = some c}
      {c | ∃ r, procFindCap u clist k = some r ∧ ∃ i < 3, c = capSlot (capObj k.mem r) i} k k' := by
  obtain ⟨rfl, rfl | ⟨c, v, hfv, hk⟩⟩ := sysProcSetup_cases hr
  · rw [List.append_nil]
    exact .same hl h rfl
  · rw [List.append_nil]
    obtain ⟨hsv, hpv, htv⟩ := findTyped_slot h hv rfl hfv
    set k₁ := k.setProc (capObj k.mem c) { k.proc (capObj k.mem c) with
      vspace := framePa k.mem (capObj k.mem v) } with hk₁
    have hown : Owned boot k₁ g := h.setProc_keeps rfl rfl rfl
    rcases hk with rfl | ⟨r, e, hfr, hfe, rfl⟩
    · exact .same hl hown rfl
    · obtain ⟨hsr, hpr, htr⟩ := findTyped_slot h hc rfl hfr
      obtain ⟨hse, hpe, hte⟩ := findTyped_slot h he rfl hfe
      have hzero := hempty r (findTyped_find hfr)
      have hne : ∀ i < 3, ∀ a, capPerm k.mem a ≠ 0 → a ≠ capSlot (capObj k.mem r) i := by
        rintro i hi _ hp rfl
        exact hp (hzero i hi)
      have howned : Owned boot (procGiveRoot (capObj k.mem c) v r e k₁) g := by
        apply procGiveRoot_owned hown hsv hsr hse hpv hpr hpe htv htr hte
        exact fun i hi => ⟨hne i hi r hpr, hne i hi v hpv, hne i hi e hpe⟩
      obtain ⟨W, heff, hW, hW'⟩ :=
        @procGiveRoot_effect boot k₁ g M (capObj k.mem c) v r e hown hl hsv hsr hse hpv hpr hpe htr hte hzero
      refine Orderly.of_effect howned hl heff ?_ ?_ hW' fun f hf => absurd hf (Set.notMem_empty f)
      · intro w hw
        rcases hW w hw with ⟨i, hi, rfl⟩ | ⟨rfl | rfl | rfl, h0⟩
        · exact .inl (hzero i hi)
        · exact .inr ⟨.inl (findTyped_find hfv), h0⟩
        · exact .inr ⟨.inr (.inl (findTyped_find hfr)), h0⟩
        · exact .inr ⟨.inr (.inr (findTyped_find hfe)), h0⟩
      · intro w hw
        rcases hW w hw with hi | ⟨-, h0⟩
        · exact .inl ⟨r, findTyped_find hfr, hi⟩
        · exact .inr h0

end Passing

def Outcome.Mem (Q : Bytes → Prop) : Outcome → Prop
  | .ret _ _ k => Q k.mem
  | .sched _ k => Q k.mem
  | .panic => True
  | .stuck => True

def Outcome.Orderly (boot : List (ℕ × ℕ)) (g : List Making) (fill : Set ℕ) (k : Kernel) : Outcome → Prop
  | .ret _ _ k' => Sys.Orderly boot g g ∅ fill k k'
  | .sched _ k' => Sys.Orderly boot g g ∅ fill k k'
  | .panic => True
  | .stuck => True

def Moved (mem : Bytes) (L fill : Set ℕ) (mem' : Bytes) : Prop :=
  ∃ a, ∃ b ∈ fill, IsSlot mem L a ∧ IsSlot mem L b ∧ capPerm mem a ≠ 0 ∧ capPerm mem b = 0 ∧ mem' = moveCap a b mem

section Messages

variable {boot : List (ℕ × ℕ)} {k k' : Kernel} {g : List Making} {u p e : Addr} {M fill : Set ℕ} {x : Outcome}
  {fuel : ℕ} {o n : Option Addr} {rq m : Bytes} {dest cid pid : ℤ} {s : BitVec 32} {a b : ℕ} {Q : Bytes → Prop}
  {l : Context}

theorem Orderly.moved (h : Owned boot k g) (hl : FrameLists k.mem (live boot g) M) (h' : Owned boot k' g)
    (hm : Moved k.mem (live boot g) fill k'.mem) : Orderly boot g g ∅ fill k k' := by
  obtain ⟨a, b, hfill, ha, hb, hpa, hpb, hmem⟩ := hm
  have hab : a ≠ b := by
    rintro rfl
    exact hpa hpb
  have hap := h.part.slot_apart ha hb hab
  have hobj : capObj k.mem a % 2 ^ 32 = capObj k.mem a :=
    Nat.mod_eq_of_lt (h.part.addr_lt (h.part.named a ha hpa))
  have hperm : capPerm k.mem a % 2 ^ 32 = capPerm k.mem a := Nat.mod_eq_of_lt get32_lt
  rw [moveCap_eq (.inr hap)] at hmem
  have he : Effect k.mem k'.mem (live boot g) (live boot g) {a, b} ∅ := by
    apply Effect.of_slots h.part
    · rintro w (rfl | rfl)
      · exact ha
      · exact hb
    · exact fun d hd => absurd hd (Set.notMem_empty d)
    · intro x hx _
      rw [hmem, setCap_outside (hx a (.inl rfl)), setCap_outside (hx b (.inr rfl))]
  have hpa' : capPerm k'.mem a = 0 := by
    rw [hmem]
    exact setCap_perm
  have hpb' : capPerm k'.mem b = capPerm k.mem a := by
    rw [hmem, (setCap_apart hap.symm).1, setCap_perm, hperm]
  have hob' : capObj k'.mem b = capObj k.mem a := by
    rw [hmem, (setCap_apart hap.symm).2, setCap_obj, hobj]
  refine ⟨h', ⟨M, hl.keep he ?_ fun f hf => absurd hf (Set.notMem_empty f)⟩, ?_, he.typed, he.filled ?_⟩
  · rintro w (rfl | rfl) hp
    · exact absurd hpa' hp
    · rw [hob']
      exact hl.named ha hpa
  · exact he.moved hb hpb hpa' hpb' hob'
  · rintro w (rfl | rfl)
    · exact .inr hpa'
    · exact .inl hfill

theorem Outcome.Orderly.of_mem (h : Sys.Owned boot k g) (hl : FrameLists k.mem (live boot g) M)
    (hx : x.Owned boot g) (hm : x.Mem fun mem => mem = k.mem ∨ Moved k.mem (live boot g) fill mem) :
    x.Orderly boot g fill k := by
  cases x with
  | ret r ev k' =>
    rcases hm with hm | hm
    · exact .same hl hx hm
    · exact .moved h hl hx hm
  | sched n k' =>
    rcases hm with hm | hm
    · exact .same hl hx hm
    · exact .moved h hl hx hm
  | panic => trivial
  | stuck => trivial

theorem procReady_mem : (procReady p k).mem = k.mem := SchedOnly.procReady.mem

theorem callSchedule_mem (h : Q k.mem) : (callSchedule u l n k).Mem Q := h

theorem enqueueWaiting_mem : (enqueueWaiting u e k).mem = k.mem := by
  unfold enqueueWaiting
  cases (k.endpoint e).waiting.tail <;> rfl

theorem mesg_mem (h : Q k.mem) : (mesg u e rq o k).Mem Q := by
  unfold mesg
  simp only
  split
  · apply callSchedule_mem
    rw [procReady_mem, enqueueWaiting_mem]
    exact h
  · apply callSchedule_mem
    rw [enqueueWaiting_mem]
    exact h

theorem signal_mem (h : Q k.mem) : (signal u e s k).Mem Q := by
  unfold signal
  split
  · simp only
    split_ifs
    · apply callSchedule_mem
      rw [procReady_mem]
      exact h
    · exact h
  · simp only
    split
    · apply callSchedule_mem
      rw [procReady_mem]
      exact h
    · exact h

theorem endpointGetPending_mem {x : Event}
    (hmove : ∀ p a b, (k.proc p).give = some a → capPerm k.mem a ≠ 0 → o = some b → Q (moveCap a b k.mem))
    (h : Q k.mem) (hr : endpointGetPending fuel u e o k = .found x k') : Q k'.mem := by
  unfold endpointGetPending at hr
  by_cases hs : (k.endpoint e).signal ≠ 0
  · rw [if_pos hs] at hr
    cases hr
    exact h
  rw [if_neg hs] at hr
  split at hr
  · cases hr
  · cases hr
  rename_i p _
  simp only [setProc_proc_same] at hr
  cases hg : (k.proc p).give with
  | none =>
    rw [hg] at hr
    injection hr with _ hk
    rw [← hk]
    exact h
  | some a =>
    simp only [hg] at hr
    split_ifs at hr with hz
    · injection hr with _ hk
      rw [← hk]
      exact h
    · cases o with
      | none => cases hr
      | some b =>
        injection hr with _ hk
        rw [← hk]
        exact hmove p a b hg hz rfl

theorem recvLoop_mem
    (hmove : ∀ p a b, (k.proc p).give = some a → capPerm k.mem a ≠ 0 → o = some b → Q (moveCap a b k.mem))
    (h : Q k.mem) : (recvLoop fuel u e o k).Mem Q := by
  unfold recvLoop
  by_cases hb : (k.proc u).boundSignal ≠ 0
  · rw [if_pos hb]
    exact h
  rw [if_neg hb]
  split
  · trivial
  · trivial
  · rename_i k' hr
    have hmem : Q k'.mem := endpointGetPending_mem hmove h hr
    exact hmem
  · by_cases hw : (k.endpoint e).rwait ≠ none
    · rw [if_pos hw]
      trivial
    · rw [if_neg hw]
      exact callSchedule_mem h

theorem findWaiting_test {test : Proc → Bool} {q : Option Addr} (h : findWaiting test fuel q k = some (some p)) :
    test (k.proc p) = true := by
  induction fuel generalizing q with
  | zero => cases h
  | succ fuel ih =>
    cases q with
    | none => cases h
    | some r =>
      unfold findWaiting at h
      split_ifs at h with ht
      · cases h
        exact ht
      · exact ih h

theorem unlink_give (r : Addr) : ((unlinkPrev e p (unlinkNext e p k)).proc r).give = (k.proc r).give := by
  have hset : ∀ (k : Kernel) (s : Addr) (x : Proc), x.give = (k.proc s).give →
      ((k.setProc s x).proc r).give = (k.proc r).give := by
    intro k s x hx
    rw [setProc_proc]
    split_ifs with hr
    · rw [hx, hr]
    · rfl
  have hnext : ((unlinkNext e p k).proc r).give = (k.proc r).give := by
    unfold unlinkNext
    split
    · exact hset k _ _ rfl
    · rfl
  rw [← hnext]
  unfold unlinkPrev
  split
  · exact hset _ _ _ rfl
  · rfl

theorem reply_mem
    (hmove : ∀ p a b, (k.proc p).state = .blockReply → (k.proc p).pid = pid → (k.proc p).give = some b →
      o = some a → Q (moveCap a b k.mem))
    (h : Q k.mem) : (reply fuel u e pid m o k).Mem Q := by
  unfold reply
  split
  · trivial
  · exact h
  rename_i p hf
  have htest := findWaiting_test hf
  simp only [Bool.and_eq_true, decide_eq_true_eq] at htest
  have hgive := @unlink_give k p e p
  have hmem : (unlinkPrev e p (unlinkNext e p k)).mem = k.mem := unlink_mem
  generalize unlinkPrev e p (unlinkNext e p k) = k₁ at *
  apply callSchedule_mem
  rw [procReady_mem]
  simp only [setProc_proc_same]
  split
  · rename_i a b hg
    change Q (moveCap a b k₁.mem)
    rw [hmem]
    exact hmove p a b htest.1 htest.2 (hgive.symm.trans hg) rfl
  · change Q k₁.mem
    rw [hmem]
    exact h

theorem sysMesg_orderly (h : Owned boot k g) (hl : FrameLists k.mem (live boot g) M) (hc : CidOk cid) :
    (sysMesg u dest rq cid k).Orderly boot g ∅ k := by
  apply Outcome.Orderly.of_mem h hl (sysMesg_owned h hc)
  unfold sysMesg
  split
  · exact .inl rfl
  · split_ifs
    · exact mesg_mem (.inl rfl)
    · split
      · exact .inl rfl
      · exact mesg_mem (.inl rfl)

theorem sysRecv_orderly (h : Owned boot k g) (hl : FrameLists k.mem (live boot g) M) (hc : CidOk cid) :
    (sysRecv fuel u dest cid k).Orderly boot g {c | cid ≠ 0 ∧ procFindCap u cid k = some c} k := by
  have hrecv : ∀ e o, (∀ b, o = some b → (cid ≠ 0 ∧ procFindCap u cid k = some b) ∧ capPerm k.mem b = 0) →
      (recv fuel u e o k).Mem fun mem =>
        mem = k.mem ∨ Moved k.mem (live boot g) {c | cid ≠ 0 ∧ procFindCap u cid k = some c} mem := by
    intro e o ho
    unfold recv
    split_ifs
    · exact .inl rfl
    · apply recvLoop_mem _ (.inl rfl)
      intro p a b hg hp hob
      obtain ⟨hb, hpb⟩ := ho b hob
      exact .inr ⟨a, b, hb, h.give p a hg, procFindCap_slot h hc hb.2, hp, hpb, rfl⟩
  apply Outcome.Orderly.of_mem h hl (sysRecv_owned h hc)
  unfold sysRecv
  split
  · exact .inl rfl
  · by_cases h0 : cid = 0
    · rw [if_pos h0]
      exact hrecv _ _ fun b hb => by cases hb
    rw [if_neg h0]
    split
    · exact .inl rfl
    · rename_i c hf
      by_cases hp : capPerm k.mem c ≠ 0
      · rw [if_pos hp]
        exact .inl rfl
      · rw [if_neg hp]
        apply hrecv
        rintro b ⟨⟩
        exact ⟨⟨h0, hf⟩, not_not.mp hp⟩

theorem resume_orderly (h : Owned boot k g) (hl : FrameLists k.mem (live boot g) M)
    (hempty : ∀ e a, (k.proc u).label = .recv e (some a) → capPerm k.mem a = 0) :
    (resume fuel u k).Orderly boot g {c | ∃ e, (k.proc u).label = .recv e (some c)} k := by
  apply Outcome.Orderly.of_mem h hl (resume_owned h)
  unfold resume
  simp only
  split
  · rename_i e o hlabel
    apply recvLoop_mem _ (.inl rfl)
    intro p a b hg hp hob
    subst hob
    have hgive : (k.proc p).give = some a := by
      rw [← hg]
      change _ = ((k.setProc u { k.proc u with label := .user }).proc p).give
      rw [setProc_proc]
      split_ifs with hpu
      · rw [hpu]
      · rfl
    exact .inr ⟨a, b, ⟨e, hlabel⟩, h.give p a hgive, h.accept u e b hlabel, hp, hempty e b hlabel, rfl⟩
  · exact .inl rfl
  · exact .inl rfl
  · exact .inl rfl

theorem sysReply_orderly (h : Owned boot k g) (hl : FrameLists k.mem (live boot g) M) (hc : CidOk cid)
    (hempty : cid ≠ 0 → ∀ p b, (k.proc p).state = .blockReply → (k.proc p).pid = pid → (k.proc p).give = some b →
      capPerm k.mem b = 0) : (sysReply fuel u dest pid m cid k).Orderly boot g {c | cid ≠ 0 ∧
        ∃ p, (k.proc p).state = .blockReply ∧ (k.proc p).pid = pid ∧ (k.proc p).give = some c} k := by
  have hreply : ∀ e o, (∀ a, o = some a → cid ≠ 0 ∧ IsSlot k.mem (live boot g) a ∧ capPerm k.mem a ≠ 0) →
      (reply fuel u e pid m o k).Mem fun mem => mem = k.mem ∨ Moved k.mem (live boot g) {c | cid ≠ 0 ∧
        ∃ p, (k.proc p).state = .blockReply ∧ (k.proc p).pid = pid ∧ (k.proc p).give = some c} mem := by
    intro e o ho
    apply reply_mem _ (.inl rfl)
    intro p a b hs hpid hg hoa
    obtain ⟨h0, ha, hpa⟩ := ho a hoa
    exact .inr ⟨a, b, ⟨h0, p, hs, hpid, hg⟩, ha, h.give p b hg, hpa, hempty h0 p b hs hpid hg, rfl⟩
  apply Outcome.Orderly.of_mem h hl (sysReply_owned h hc)
  unfold sysReply
  split
  · exact .inl rfl
  · by_cases h0 : cid = 0
    · rw [if_pos h0]
      exact hreply _ _ fun a ha => by cases ha
    rw [if_neg h0]
    split
    · exact .inl rfl
    · rename_i c hf
      by_cases hp : capPerm k.mem c = 0
      · rw [if_pos hp]
        exact hreply _ _ fun a ha => by cases ha
      · rw [if_neg hp]
        apply hreply
        rintro a ⟨⟩
        exact ⟨h0, procFindCap_slot h hc hf, hp⟩

theorem sysSignal_orderly (h : Owned boot k g) (hl : FrameLists k.mem (live boot g) M) :
    (sysSignal u dest s k).Orderly boot g ∅ k := by
  apply Outcome.Orderly.of_mem h hl (sysSignal_owned h)
  unfold sysSignal
  split
  · exact .inl rfl
  · exact signal_mem (.inl rfl)

theorem signal_orderly (h : Owned boot k g) (hl : FrameLists k.mem (live boot g) M) :
    (signal u e s k).Orderly boot g ∅ k := .of_mem h hl (signal_owned h) (signal_mem (.inl rfl))

theorem yield_orderly (h : Owned boot k g) (hl : FrameLists k.mem (live boot g) M) :
    (callSchedule u .ret none k).Orderly boot g ∅ k := by
  apply Outcome.Orderly.of_mem h hl
  · apply callSchedule_owned h
    rintro _ _ ⟨⟩
  · exact .inl rfl

theorem Owned.procFault (h : Owned boot k g) : Owned boot (procFault p k) g := by
  have h₁ : Owned boot (k.setProc p { k.proc p with state := .fault }) g := h.setProc_keeps rfl rfl rfl
  unfold Sys.procFault
  simp only
  split
  · exact h₁.sched SchedOnly.removeFromList
  · exact h₁

theorem procFault_mem : (procFault p k).mem = k.mem := by
  unfold procFault
  simp only
  split
  · exact SchedOnly.removeFromList.mem
  · rfl

theorem exit_orderly (h : Owned boot k g) (hl : FrameLists k.mem (live boot g) M) :
    (callSchedule u .user none (procFault u k)).Orderly boot g ∅ k := by
  apply Outcome.Orderly.of_mem h hl
  · apply callSchedule_owned h.procFault
    rintro _ _ ⟨⟩
  · exact .inl procFault_mem

theorem sysEndpointBind_orderly (h : Owned boot k g) (hl : FrameLists k.mem (live boot g) M) :
    (sysEndpointBind u cid k).Orderly boot g ∅ k := by
  unfold sysEndpointBind
  split
  · exact .same hl h rfl
  · unfold endpointBind
    split_ifs
    · exact .same hl h rfl
    · exact .same hl (h.setEndpoint _) rfl

theorem sysEndpointUnbind_orderly (h : Owned boot k g) (hl : FrameLists k.mem (live boot g) M) :
    (sysEndpointUnbind u cid k).Orderly boot g ∅ k := by
  unfold sysEndpointUnbind
  split
  · exact .same hl h rfl
  · unfold endpointUnbind
    split_ifs
    · exact .same hl h rfl
    · exact .same hl (h.setEndpoint _) rfl

theorem sysProcSetPriority_orderly {priority : ℕ} (h : Owned boot k g) (hl : FrameLists k.mem (live boot g) M) :
    (sysProcSetPriority u cid priority k).Orderly boot g ∅ k := by
  unfold sysProcSetPriority
  split
  · exact .same hl h rfl
  · rename_i c _
    unfold procSetPriority
    simp only
    generalize (if priority > priorityMax then priorityMax else priority) = q
    have h₁ : Owned boot (k.setProc (capObj k.mem c) { k.proc (capObj k.mem c) with priority := q }) g :=
      h.setProc_keeps rfl rfl rfl
    split
    · exact .same hl (h₁.sched (SchedOnly.removeFromList.trans SchedOnly.addToListTail))
        (SchedOnly.removeFromList.trans SchedOnly.addToListTail).mem
    · exact .same hl h₁ rfl

theorem sysProcStart_orderly (h : Owned boot k g) (hl : FrameLists k.mem (live boot g) M) :
    (sysProcStart u cid k).Orderly boot g ∅ k := by
  unfold sysProcStart
  split
  · exact .same hl h rfl
  · split_ifs
    · trivial
    · exact .same hl h rfl
    · rename_i o _ _ _
      have h₁ : Owned boot (k.setProc o { k.proc o with label := .user }) g := by
        apply h.setLabel
        rintro _ _ ⟨⟩
      exact .same hl h₁.procReady procReady_mem

end Messages

section Interrupts

variable {boot : List (ℕ × ℕ)} {k : Kernel} {g : List Making} {u o x v : ℕ} {M : Set ℕ} {cid iid eid : ℤ}
  {irqn s : ℕ} {mem : Bytes}

theorem Owned.intr (h : Owned boot k g) (ho : o ∈ live boot g) (ht : objType k.mem o = objIntr)
    (h1 : o + 8 ≤ x) (h2 : x + 4 ≤ o + 20) :
    Owned boot { k with mem := k.mem.put32 x v } g ∧ objType (k.mem.put32 x v) o = objIntr := by
  have htype : objType (k.mem.put32 x v) o = objIntr := by
    rw [← ht]
    exact get32_put32_ne (by omega)
  have hlen : ∀ mem : Bytes, objType mem o = objIntr → objLen mem o = 20 := by
    intro mem hm
    unfold objLen
    rw [hm]
    rfl
  refine ⟨?_, htype⟩
  apply h.rewrite ho
  · rw [ht]
    decide
  · exact fun _ => Iff.rfl
  · intro a ha
    rw [hlen _ ht] at ha
    exact put32_outside a (by omega)
  · rw [hlen _ ht, hlen _ htype]
  · rw [hlen _ htype]
    decide
  · rw [htype]
    decide
  · rw [hlen _ htype, ← hlen _ ht]
    exact h.part.origin o ho
  · intro hal
    rw [htype] at hal
    cases hal
  · exact fun _ _ => rfl
  · exact fun _ ha => ha

theorem Orderly.intr (h : Owned boot k g) (hl : FrameLists k.mem (live boot g) M)
    (h' : Owned boot { k with mem := mem } g) (ho : o ∈ live boot g) (ht : objType k.mem o = objIntr)
    (hmem : ∀ x, x < o + 8 ∨ o + 20 ≤ x → mem x = k.mem x) : Orderly boot g g ∅ ∅ k { k with mem := mem } := by
  have hlen : objLen k.mem o = 20 := by
    unfold objLen
    rw [ht]
    rfl
  apply Orderly.of_object h hl h' ho
  · rw [ht]
    decide
  · rw [hlen]
    exact hmem
  · intro hf
    rw [ht] at hf
    cases hf

theorem Owned.given {given : ℕ → Bool} (h : Owned boot k g) :
    Owned boot { k with userHandlerGiven := given } g := ⟨h.part, h.root, h.give, h.accept⟩

theorem sysIntrInit_orderly (h : Owned boot k g) (hl : FrameLists k.mem (live boot g) M) (hc : CidOk cid)
    (hp : ∀ c, procFindCap u cid k = some c → capPerm k.mem c ≠ 0) :
    (sysIntrInit u cid irqn k).Orderly boot g ∅ k := by
  unfold sysIntrInit findObject intrCapClaim
  cases hf : procFindCap u cid k with
  | none =>
    simp only [Option.map_none]
    split_ifs <;> exact .same hl h rfl
  | some c =>
    simp only [Option.map_some]
    split_ifs with h1 h2 ht h4 h5
    · exact .same hl h rfl
    · trivial
    · exact .same hl h rfl
    · trivial
    · exact .same hl h rfl
    have ho := h.obj hc hf (hp c hf)
    have htype : objType k.mem (capObj k.mem c) = objIntr := not_not.mp ht
    have hput : Orderly boot g g ∅ ∅ k
        { k with mem := k.mem.put32 (capObj k.mem c + 8) irqn } := by
      refine Orderly.intr h hl (h.intr ho htype ?_ ?_).1 ho htype ?_
      · omega
      · omega
      · exact fun x hx => put32_outside x (by omega)
    exact ⟨hput.owned.given, hput.lists, hput.kept, hput.typed, hput.filled⟩

theorem sysIntrConnect_orderly (h : Owned boot k g) (hl : FrameLists k.mem (live boot g) M) (hc : CidOk iid)
    (hp : ∀ c, procFindCap u iid k = some c → capPerm k.mem c ≠ 0) :
    (sysIntrConnect u iid eid s k).Orderly boot g ∅ k := by
  unfold sysIntrConnect
  split
  · rename_i i e hf _
    simp only
    split_ifs with h1 ht h3 h4 h5 h6
    · trivial
    · exact .same hl h rfl
    · trivial
    · exact .same hl h rfl
    · exact .same hl h rfl
    · trivial
    have ho := h.obj hc hf (hp i hf)
    have htype : objType k.mem (capObj k.mem i) = objIntr := not_not.mp ht
    generalize capObj k.mem i = o at *
    obtain ⟨h₁, ht₁⟩ := @Owned.intr boot k g o (o + 12) (capObj k.mem e) h ho htype (by omega) (by omega)
    obtain ⟨h₂, -⟩ := @Owned.intr boot _ g o (o + 16) s h₁ ho ht₁ (by omega) (by omega)
    apply Orderly.intr h hl h₂ ho htype
    intro x hx
    exact (put32_outside x (by omega)).trans (put32_outside x (by omega))
  · exact .same hl h rfl

theorem sysIntrAck_orderly (h : Owned boot k g) (hl : FrameLists k.mem (live boot g) M) :
    (sysIntrAck u iid k).Orderly boot g ∅ k := by
  unfold sysIntrAck
  split
  · exact .same hl h rfl
  · split_ifs
    · trivial
    · exact .same hl h rfl
    · trivial
    · exact .same hl h rfl

theorem sysFrameInfo_orderly (h : Owned boot k g) (hl : FrameLists k.mem (live boot g) M) :
    (sysFrameInfo u cid k).Orderly boot g ∅ k := by
  unfold sysFrameInfo
  split <;> exact .same hl h rfl

end Interrupts

end Agatha.Sys
