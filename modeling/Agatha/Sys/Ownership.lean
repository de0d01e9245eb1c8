import Agatha.Library.Areas
import Agatha.Sys.Objects

namespace Agatha.Sys

open Kernel Library Library.Bytes Library.Areas

def objLen (mem : Bytes) (o : ℕ) : ℕ :=
  match objType mem o with
  | 0 => untypedLen mem o
  | 1 => 28
  | 2 => 4088
  | 3 => 1224
  | 4 => 20
  | _ => 28

def IsSlot (mem : Bytes) (L : Set ℕ) (a : ℕ) : Prop :=
  ∃ c ∈ L, objType mem c = objCaplist ∧ ∃ i < clistCaps, a = capSlot c i

/-- The objects `L` have areas of their own within `cover`, none larger than what it was made of
(`origin`), and the slots of the capability lists among them name objects of `L`. -/
structure Partition (mem : Bytes) (L cover : Set ℕ) (origin : ℕ → ℕ) : Prop where
  packed : Packed L (objLen mem) cover
  fits : ∀ o ∈ L, 0 < o ∧ o + objLen mem o ≤ 2 ^ 32
  large : ∀ o ∈ L, 12 ≤ objLen mem o
  typed : ∀ o ∈ L, objType mem o < objTypeN
  origin : ∀ o ∈ L, objLen mem o ≤ origin o
  named : ∀ a, IsSlot mem L a → capPerm mem a ≠ 0 → capObj mem a ∈ L
  unique : ∀ a b, IsSlot mem L a → IsSlot mem L b → capPerm mem a ≠ 0 → capPerm mem b ≠ 0 →
    capObj mem a = capObj mem b → objType mem (capObj mem a) ≠ objEndpoint → a = b

section Slots

variable {mem mem' : Bytes} {L L' D N cover cover' : Set ℕ} {origin origin' : ℕ → ℕ}
variable {a b c o p q x s n : ℕ}

theorem objType_congr (h : Agree mem mem' o 12) : objType mem o = objType mem' o :=
  get32_congr (h.mono (by omega) (by omega))

theorem objLen_congr (h : Agree mem mem' o 12) : objLen mem o = objLen mem' o := by
  have hlen : untypedLen mem o = untypedLen mem' o := get32_congr (h.mono (by omega) (by omega))
  unfold objLen
  rw [objType_congr h, hlen]

theorem objLen_caplist (h : objType mem c = objCaplist) : objLen mem c = 4088 := by
  unfold objLen
  rw [h]
  rfl

theorem objLen_untyped (h : objType mem o = objUntyped) : objLen mem o = untypedLen mem o := by
  unfold objLen
  rw [h]
  rfl

theorem IsSlot.within (h : IsSlot mem L a) : ∃ c ∈ L, objType mem c = objCaplist ∧
    c + 8 ≤ a ∧ a + 8 ≤ c + objLen mem c ∧ (a - c) % 8 = 0 := by
  obtain ⟨c, hc, ht, i, hi, rfl⟩ := h
  refine ⟨c, hc, ht, ?_⟩
  rw [objLen_caplist ht]
  unfold capSlot clistCaps at *
  omega

theorem Partition.slot_apart (h : Partition mem L cover origin) (ha : IsSlot mem L a)
    (hb : IsSlot mem L b) (hab : a ≠ b) : Apart a 8 b 8 := by
  obtain ⟨c, hc, -, h1, h2, h3⟩ := ha.within
  obtain ⟨d, hd, -, h4, h5, h6⟩ := hb.within
  unfold Apart
  by_cases hcd : c = d
  · subst hcd
    omega
  · have := h.packed.apart c hc d hd hcd
    unfold Apart at this
    omega

theorem Partition.head_apart (h : Partition mem L cover origin) (ha : IsSlot mem L a)
    (ho : o ∈ L) (hx : o ≤ x) (hx' : x < o + 8 ∨ objType mem o ≠ objCaplist ∧ x < o + objLen mem o) :
    x < a ∨ a + 8 ≤ x := by
  obtain ⟨c, hc, ht, h1, h2, h3⟩ := ha.within
  by_cases hco : c = o
  · subst hco
    rcases hx' with hx' | ⟨hx', -⟩
    · omega
    · exact absurd ht hx'
  · have hap := h.packed.apart c hc o ho hco
    have hl := h.large o ho
    unfold Apart at hap
    omega

theorem Partition.addr_lt (h : Partition mem L cover origin) (ho : o ∈ L) : o < 2 ^ 32 := by
  have h1 := (h.fits o ho).2
  have h2 := h.large o ho
  omega

theorem Partition.same_objects (h : Partition mem L cover origin)
    (hmem : ∀ x, (∀ a, IsSlot mem L a → x < a ∨ a + 8 ≤ x) → mem' x = mem x) (ho : o ∈ L) :
    objType mem' o = objType mem o ∧ objLen mem' o = objLen mem o := by
  have hhead : Agree mem' mem o 8 := fun x h1 h2 =>
    hmem x fun a ha => h.head_apart ha ho h1 (.inl h2)
  have htype : objType mem' o = objType mem o := get32_congr (hhead.mono (by omega) (by omega))
  refine ⟨htype, ?_⟩
  by_cases hu : objType mem o = objUntyped
  · have hlen : untypedLen mem' o = untypedLen mem o := by
      apply get32_congr
      intro x h1 h2
      refine hmem x fun a ha => h.head_apart ha ho (by omega) (.inr ⟨?_, ?_⟩)
      · rw [hu]
        decide
      · have := h.large o ho
        omega
    rw [objLen_untyped hu, objLen_untyped (htype.trans hu), hlen]
  · unfold objLen
    rw [htype]
    have : objType mem o ≠ 0 := hu
    split <;> first | contradiction | rfl

theorem Partition.isSlot_iff (h : Partition mem L cover origin)
    (hmem : ∀ x, (∀ a, IsSlot mem L a → x < a ∨ a + 8 ≤ x) → mem' x = mem x) :
    IsSlot mem' L a ↔ IsSlot mem L a := by
  constructor
  · rintro ⟨c, hc, ht, hi⟩
    exact ⟨c, hc, (h.same_objects hmem hc).1 ▸ ht, hi⟩
  · rintro ⟨c, hc, ht, hi⟩
    exact ⟨c, hc, (h.same_objects hmem hc).1.trans ht, hi⟩

theorem Partition.slots (h : Partition mem L cover origin)
    (hmem : ∀ x, (∀ a, IsSlot mem L a → x < a ∨ a + 8 ≤ x) → mem' x = mem x)
    (hnamed : ∀ a, IsSlot mem L a → capPerm mem' a ≠ 0 → capObj mem' a ∈ L)
    (hunique : ∀ a b, IsSlot mem L a → IsSlot mem L b → capPerm mem' a ≠ 0 →
      capPerm mem' b ≠ 0 → capObj mem' a = capObj mem' b →
      objType mem (capObj mem' a) ≠ objEndpoint → a = b) : Partition mem' L cover origin := by
  have hobj : ∀ o ∈ L, objType mem' o = objType mem o ∧ objLen mem' o = objLen mem o :=
    fun o ho => h.same_objects hmem ho
  refine ⟨⟨?_, ?_⟩, ?_, ?_, ?_, ?_, ?_, ?_⟩
  · intro a ha b hb hab
    rw [(hobj a ha).2, (hobj b hb).2]
    exact h.packed.apart a ha b hb hab
  · intro a ha
    rw [(hobj a ha).2]
    exact h.packed.inside a ha
  · intro o ho
    rw [(hobj o ho).2]
    exact h.fits o ho
  · intro o ho
    rw [(hobj o ho).2]
    exact h.large o ho
  · intro o ho
    rw [(hobj o ho).1]
    exact h.typed o ho
  · intro o ho
    rw [(hobj o ho).2]
    exact h.origin o ho
  · exact fun a ha => hnamed a ((h.isSlot_iff hmem).mp ha)
  · intro a b ha hb hpa hpb hab ht
    have ha' := (h.isSlot_iff hmem).mp ha
    rw [(hobj _ (hnamed a ha' hpa)).1] at ht
    exact hunique a b ha' ((h.isSlot_iff hmem).mp hb) hpa hpb hab ht

theorem Partition.carve_slots (h : Partition mem L cover origin)
    (hmem : ∀ x, x < s ∨ s + n ≤ x → mem' x = mem x)
    (hL : ∀ a, a ∈ L' ↔ (a ∈ L ∧ a ∉ D) ∨ a ∈ N)
    (hout : ∀ a ∈ L, a ∉ D → Apart a (objLen mem a) s n)
    (hempty : ∀ a ∈ N, objType mem' a = objCaplist →
      ∀ i < clistCaps, capPerm mem' (capSlot a i) = 0)
    (ha : IsSlot mem' L' a) (hp : capPerm mem' a ≠ 0) : IsSlot mem L a ∧
      capPerm mem' a = capPerm mem a ∧ capObj mem' a = capObj mem a := by
  obtain ⟨c, hc, ht, i, hi, rfl⟩ := ha
  rcases (hL c).mp hc with ⟨hc, hcd⟩ | hc
  · have hagree : ∀ x, c ≤ x → x < c + objLen mem c → mem' x = mem x := by
      intro x h1 h2
      have := hout c hc hcd
      unfold Apart at this
      exact hmem x (by omega)
    have hl := h.large c hc
    have htype : objType mem' c = objType mem c :=
      objType_congr fun x h1 h2 => hagree x h1 (by omega)
    rw [htype] at ht
    have hlen := objLen_caplist ht
    have hw : Agree mem' mem (capSlot c i) 8 := by
      intro x h1 h2
      unfold capSlot clistCaps at *
      exact hagree x (by omega) (by omega)
    exact ⟨⟨c, hc, ht, i, hi, rfl⟩, get32_congr (hw.mono (by omega) (by omega)),
      get32_congr (hw.mono (by omega) (by omega))⟩
  · exact absurd (hempty c hc ht i hi) hp

theorem Partition.carve (h : Partition mem L cover origin)
    (hmem : ∀ x, x < s ∨ s + n ≤ x → mem' x = mem x)
    (hL : ∀ a, a ∈ L' ↔ (a ∈ L ∧ a ∉ D) ∨ a ∈ N)
    (hout : ∀ a ∈ L, a ∉ D → Apart a (objLen mem a) s n)
    (hD : ∀ a ∈ D, objType mem a ≠ objCaplist ∧ objType mem a ≠ objEndpoint)
    (hN : ∀ a ∈ N, s ≤ a ∧ a + objLen mem' a ≤ s + n)
    (hNN : ∀ a ∈ N, ∀ b ∈ N, a ≠ b → Apart a (objLen mem' a) b (objLen mem' b))
    (hlarge : ∀ a ∈ N, 12 ≤ objLen mem' a) (htyped : ∀ a ∈ N, objType mem' a < objTypeN)
    (horigin : ∀ a ∈ N, objLen mem' a ≤ origin' a)
    (hempty : ∀ a ∈ N, objType mem' a = objCaplist →
      ∀ i < clistCaps, capPerm mem' (capSlot a i) = 0)
    (hkept : ∀ a, IsSlot mem L a → capPerm mem a ≠ 0 → capObj mem a ∈ D → capObj mem a ∈ N)
    (hsame : ∀ a ∈ L, a ∉ D → origin' a = origin a)
    (hs : 0 < s) (hsn : s + n ≤ 2 ^ 32) (hcover : ∀ x ∈ cover, x ∈ cover')
    (hscover : ∀ x, s ≤ x → x < s + n → x ∈ cover') : Partition mem' L' cover' origin' := by
  have hagree : ∀ a ∈ L, a ∉ D → ∀ x, a ≤ x → x < a + objLen mem a → mem' x = mem x := by
    intro a ha had x h1 h2
    have := hout a ha had
    unfold Apart at this
    exact hmem x (by omega)
  have hobj : ∀ a ∈ L, a ∉ D → objType mem' a = objType mem a ∧ objLen mem' a = objLen mem a := by
    intro a ha had
    have hl := h.large a ha
    have : Agree mem' mem a 12 := fun x h1 h2 => hagree a ha had x h1 (by omega)
    exact ⟨objType_congr this, objLen_congr this⟩
  have hslot : ∀ a, IsSlot mem' L' a → capPerm mem' a ≠ 0 → IsSlot mem L a ∧
      capPerm mem' a = capPerm mem a ∧ capObj mem' a = capObj mem a :=
    fun a ha hp => h.carve_slots hmem hL hout hempty ha hp
  have hnamed : ∀ a, IsSlot mem L a → capPerm mem a ≠ 0 → capObj mem a ∈ L' := by
    intro a ha hp
    have ho := h.named a ha hp
    by_cases hd : capObj mem a ∈ D
    · exact (hL _).mpr (.inr (hkept a ha hp hd))
    · exact (hL _).mpr (.inl ⟨ho, hd⟩)
  have hfits : ∀ o ∈ L', 0 < o ∧ o + objLen mem' o ≤ 2 ^ 32 := by
    intro o ho
    rcases (hL o).mp ho with ⟨ho, hod⟩ | ho
    · rw [(hobj o ho hod).2]
      exact h.fits o ho
    · have := hN o ho
      omega
  refine ⟨h.packed.carve hL hout (fun a ha had => (hobj a ha had).2) hN hNN hcover hscover,
    hfits, ?_, ?_, ?_, ?_, ?_⟩
  · intro o ho
    rcases (hL o).mp ho with ⟨ho, hod⟩ | ho
    · rw [(hobj o ho hod).2]
      exact h.large o ho
    · exact hlarge o ho
  · intro o ho
    rcases (hL o).mp ho with ⟨ho, hod⟩ | ho
    · rw [(hobj o ho hod).1]
      exact h.typed o ho
    · exact htyped o ho
  · intro o ho
    rcases (hL o).mp ho with ⟨ho, hod⟩ | ho
    · rw [(hobj o ho hod).2, hsame o ho hod]
      exact h.origin o ho
    · exact horigin o ho
  · intro a ha hp
    obtain ⟨ha', hpe, hoe⟩ := hslot a ha hp
    rw [hoe]
    exact hnamed a ha' (hpe ▸ hp)
  · intro a b ha hb hpa hpb hab ht
    obtain ⟨ha', hpae, hoae⟩ := hslot a ha hpa
    obtain ⟨hb', hpbe, hobe⟩ := hslot b hb hpb
    rw [hoae, hobe] at hab
    rw [hoae] at ht
    refine h.unique a b ha' hb' (hpae ▸ hpa) (hpbe ▸ hpb) hab ?_
    by_cases hd : capObj mem a ∈ D
    · exact (hD _ hd).2
    · rwa [(hobj _ (h.named a ha' (hpae ▸ hpa)) hd).1] at ht

theorem Partition.carve_isSlot (h : Partition mem L cover origin)
    (hmem : ∀ x, x < s ∨ s + n ≤ x → mem' x = mem x)
    (hL : ∀ a ∈ L, a ∉ D → a ∈ L')
    (hout : ∀ a ∈ L, a ∉ D → Apart a (objLen mem a) s n)
    (hD : ∀ a ∈ D, objType mem a ≠ objCaplist) (ha : IsSlot mem L a) : IsSlot mem' L' a := by
  obtain ⟨c, hc, ht, hi⟩ := ha
  have hcd : c ∉ D := fun hd => hD c hd ht
  refine ⟨c, hL c hc hcd, ?_, hi⟩
  rw [← ht]
  apply objType_congr
  intro x h1 h2
  have hl := h.large c hc
  have := hout c hc hcd
  unfold Apart at this
  exact hmem x (by omega)

theorem setCap_outside (hx : x < c ∨ c + 8 ≤ x) : setCap c p q mem x = mem x := by
  unfold setCap
  rw [put32_outside x (by omega), put32_outside x (by omega)]

theorem setCap_perm : capPerm (setCap c p q mem) c = p % 2 ^ 32 := by
  unfold capPerm setCap
  rw [get32_put32_ne (by omega), get32_put32_same]

theorem setCap_obj : capObj (setCap c p q mem) c = q % 2 ^ 32 := by
  unfold capObj setCap
  rw [get32_put32_same]

theorem setCap_apart (h : Apart a 8 c 8) : capPerm (setCap c p q mem) a = capPerm mem a ∧
    capObj (setCap c p q mem) a = capObj mem a := by
  unfold Apart at h
  have hw : Agree (setCap c p q mem) mem a 8 := fun x h1 h2 => setCap_outside (by omega)
  exact ⟨get32_congr (hw.mono (by omega) (by omega)), get32_congr (hw.mono (by omega) (by omega))⟩

theorem Partition.setCap_other (h : Partition mem L cover origin) (ha : IsSlot mem L a)
    (hc : IsSlot mem L c) (hac : a ≠ c) : capPerm (setCap c p q mem) a = capPerm mem a ∧
    capObj (setCap c p q mem) a = capObj mem a :=
  setCap_apart (h.slot_apart ha hc hac)

theorem setCap_mem (hc : IsSlot mem L c)
    (hx : ∀ a, IsSlot mem L a → x < a ∨ a + 8 ≤ x) : setCap c p q mem x = mem x :=
  setCap_outside (hx c hc)

theorem Partition.clear (h : Partition mem L cover origin) (hc : IsSlot mem L c) :
    Partition (setCap c 0 0 mem) L cover origin := by
  have hne : ∀ a, capPerm (setCap c 0 0 mem) a ≠ 0 → a ≠ c := by
    rintro a ha rfl
    rw [setCap_perm] at ha
    exact ha rfl
  refine h.slots (fun x hx => setCap_mem hc hx) (fun a ha hp => ?_) fun a b ha hb hpa hpb hab ht => ?_
  · obtain ⟨hpe, hoe⟩ := h.setCap_other (p := 0) (q := 0) ha hc (hne a hp)
    rw [hoe]
    exact h.named a ha (hpe ▸ hp)
  · obtain ⟨hpae, hoae⟩ := h.setCap_other (p := 0) (q := 0) ha hc (hne a hpa)
    obtain ⟨hpbe, hobe⟩ := h.setCap_other (p := 0) (q := 0) hb hc (hne b hpb)
    rw [hoae] at ht
    exact h.unique a b ha hb (hpae ▸ hpa) (hpbe ▸ hpb) (hoae ▸ hobe ▸ hab) ht

theorem Partition.name (h : Partition mem L cover origin) (hc : IsSlot mem L c) (ho : o ∈ L)
    (hfree : ∀ a, IsSlot mem L a → a ≠ c → capPerm mem a ≠ 0 → capObj mem a = o →
      objType mem o = objEndpoint) : Partition (setCap c p o mem) L cover origin := by
  have hobj : capObj (setCap c p o mem) c = o := by
    rw [setCap_obj, Nat.mod_eq_of_lt (h.addr_lt ho)]
  refine h.slots (fun x hx => setCap_mem hc hx) (fun a ha hp => ?_) fun a b ha hb hpa hpb hab ht => ?_
  · by_cases hac : a = c
    · rw [hac, hobj]
      exact ho
    · obtain ⟨hpe, hoe⟩ := h.setCap_other (p := p) (q := o) ha hc hac
      rw [hoe]
      exact h.named a ha (hpe ▸ hp)
  · by_contra hne
    by_cases hac : a = c
    · have hbc : b ≠ c := fun he => hne (hac.trans he.symm)
      obtain ⟨hpbe, hobe⟩ := h.setCap_other (p := p) (q := o) hb hc hbc
      rw [hac, hobj] at ht hab
      exact ht (hfree b hb hbc (hpbe ▸ hpb) (hobe ▸ hab.symm))
    · obtain ⟨hpae, hoae⟩ := h.setCap_other (p := p) (q := o) ha hc hac
      by_cases hbc : b = c
      · rw [hbc, hobj, hoae] at hab
        rw [hoae, hab] at ht
        exact ht (hfree a ha hac (hpae ▸ hpa) hab)
      · obtain ⟨hpbe, hobe⟩ := h.setCap_other (p := p) (q := o) hb hc hbc
        rw [hoae] at ht
        exact hne (h.unique a b ha hb (hpae ▸ hpa) (hpbe ▸ hpb) (hoae ▸ hobe ▸ hab) ht)

theorem moveCap_eq (h : a = b ∨ Apart a 8 b 8) :
    moveCap a b mem = setCap a 0 0 (setCap b (capPerm mem a) (capObj mem a) mem) := by
  unfold moveCap setCap capPerm capObj
  unfold Apart at h
  simp only
  rw [get32_put32_ne (by omega)]

theorem setCap_comm {t : ℕ} (h : Apart a 8 b 8) :
    setCap a p q (setCap b s t mem) = setCap b s t (setCap a p q mem) := by
  unfold Apart at h
  unfold setCap
  rw [put32_comm (b := mem.put32 b s) (by omega), put32_comm (b := mem) (by omega),
    put32_comm (by omega), put32_comm (b := mem.put32 a p) (by omega)]

theorem Partition.pass (h : Partition mem L cover origin) (ha : IsSlot mem L a)
    (hb : IsSlot mem L b) (hp : capPerm mem a ≠ 0) (hab : a ≠ b) :
    Partition (setCap a 0 0 (setCap b p (capObj mem a) mem)) L cover origin := by
  set mem₁ := setCap b p (capObj mem a) mem with hmem₁
  have hnew : ∀ r, IsSlot mem L r → r ≠ a → r ≠ b →
      capPerm (setCap a 0 0 mem₁) r = capPerm mem r ∧
        capObj (setCap a 0 0 mem₁) r = capObj mem r := by
    intro r hr hra hrb
    obtain ⟨h1, h2⟩ := @setCap_apart mem₁ r a 0 0 (h.slot_apart hr ha hra)
    obtain ⟨h3, h4⟩ := h.setCap_other (p := p) (q := capObj mem a) hr hb hrb
    exact ⟨h1.trans h3, h2.trans h4⟩
  have hbnew : capObj (setCap a 0 0 mem₁) b = capObj mem a := by
    rw [(@setCap_apart mem₁ b a 0 0 (h.slot_apart hb ha (Ne.symm hab))).2, hmem₁, setCap_obj,
      Nat.mod_eq_of_lt (h.addr_lt (h.named a ha hp))]
  have hanew : ∀ r, capPerm (setCap a 0 0 mem₁) r ≠ 0 → r ≠ a := by
    rintro r hr rfl
    rw [setCap_perm] at hr
    exact hr rfl
  -- every slot in use afterwards holds what some slot held before, and no two the same one's
  have hfrom : ∀ r, IsSlot mem L r → capPerm (setCap a 0 0 mem₁) r ≠ 0 →
      ∃ r', IsSlot mem L r' ∧ capPerm mem r' ≠ 0 ∧ capObj (setCap a 0 0 mem₁) r = capObj mem r' ∧
        r' = if r = b then a else r := by
    intro r hr hpr
    by_cases hrb : r = b
    · exact ⟨a, ha, hp, by rw [hrb, hbnew], by rw [if_pos hrb]⟩
    · obtain ⟨h1, h2⟩ := hnew r hr (hanew r hpr) hrb
      exact ⟨r, hr, h1 ▸ hpr, h2, by rw [if_neg hrb]⟩
  refine h.slots ?_ ?_ ?_
  · intro x hx
    rw [setCap_mem ((h.isSlot_iff fun x hx => setCap_mem hb hx).mpr ha) fun r hr =>
      hx r ((h.isSlot_iff fun x hx => setCap_mem hb hx).mp hr)]
    exact setCap_mem hb hx
  · intro r hr hpr
    obtain ⟨r', hr', hpr', ho, -⟩ := hfrom r hr hpr
    rw [ho]
    exact h.named r' hr' hpr'
  · intro r t hr ht hpr hpt hrt htype
    obtain ⟨r', hr', hpr', hor, her⟩ := hfrom r hr hpr
    obtain ⟨t', ht', hpt', hot, het⟩ := hfrom t ht hpt
    rw [hor] at htype
    have heq := h.unique r' t' hr' ht' hpr' hpt' (hor ▸ hot ▸ hrt) htype
    rw [her, het] at heq
    have hra := hanew r hpr
    have hta := hanew t hpt
    split_ifs at heq with h1 h2
    · rw [h1, h2]
    · exact absurd heq.symm hta
    · exact absurd heq hra
    · exact heq

theorem Partition.move (h : Partition mem L cover origin) (ha : IsSlot mem L a)
    (hb : IsSlot mem L b) (hp : capPerm mem a ≠ 0) : Partition (moveCap a b mem) L cover origin := by
  by_cases hab : a = b
  · subst hab
    rw [moveCap_eq (.inl rfl)]
    have hname : Partition (setCap a (capPerm mem a) (capObj mem a) mem) L cover origin := by
      refine h.name ha (h.named a ha hp) fun b hb hne hpb hob => ?_
      by_contra ht
      exact hne (h.unique b a hb ha hpb hp hob (hob ▸ ht))
    exact hname.clear ((h.isSlot_iff fun x hx => setCap_mem ha hx).mpr ha)
  · rw [moveCap_eq (.inr (h.slot_apart ha hb hab))]
    exact h.pass ha hb hp hab

end Slots

end Agatha.Sys
