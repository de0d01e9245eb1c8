import Agatha.Sys.Ownership
import Agatha.Sys.IpcScheduler

namespace Agatha.Sys

open Kernel Library Library.Bytes Library.Areas

def Making.live (L : Set ℕ) : Making → Set ℕ
  | .mapped o _ => {a | a = o ∨ a ∈ L}
  | .split _ no _ => {a | a = no ∨ a ∈ L}
  | .merged _ oh _ => {a | a ∈ L ∧ a ≠ oh}
  | .retyped _ _ => L

def Making.origin (f : ℕ → ℕ) : Making → ℕ → ℕ
  | .mapped o len => Function.update f o len
  | .split o no len => Function.update (Function.update f o len) no len
  | .merged ol _ len => Function.update f ol len
  | .retyped o len => Function.update f o len

def live (boot : List (ℕ × ℕ)) (g : List Making) : Set ℕ :=
  g.foldl Making.live {a | ∃ len, (a, len) ∈ boot}

def origin (boot : List (ℕ × ℕ)) (g : List Making) : ℕ → ℕ :=
  g.foldl Making.origin fun a => (boot.lookup a).getD 0

def cover (boot : List (ℕ × ℕ)) (g : List Making) : Set ℕ :=
  {x | (∃ r ∈ boot, r.1 ≤ x ∧ x < r.1 + r.2) ∨ ∃ o len, .mapped o len ∈ g ∧ o ≤ x ∧ x < o + len}

structure Owned (boot : List (ℕ × ℕ)) (k : Kernel) (g : List Making) : Prop where
  part : Partition k.mem (live boot g) (cover boot g) (origin boot g)
  root : ∀ u l, (k.proc u).capRoot = some l → l ∈ live boot g ∧ objType k.mem l = objCaplist
  give : ∀ p a, (k.proc p).give = some a → IsSlot k.mem (live boot g) a
  accept : ∀ p e a, (k.proc p).label = .recv e (some a) → IsSlot k.mem (live boot g) a

structure CidOk (cid : ℤ) : Prop where
  base : 0 ≤ cid / 4096 ∧ cid / 4096 < clistCaps
  sub : cid % 4096 < clistCaps

structure Fresh (boot : List (ℕ × ℕ)) (g : List Making) (o len : ℕ) : Prop where
  apart : ∀ x ∈ cover boot g, x < o ∨ o + len ≤ x
  fits : 0 < o ∧ o + len ≤ 2 ^ 32

section Ledger

variable {boot : List (ℕ × ℕ)} {g : List Making} {x : Making}

theorem live_concat : live boot (g ++ [x]) = x.live (live boot g) := by
  simp [live]

theorem origin_concat : origin boot (g ++ [x]) = x.origin (origin boot g) := by
  simp [origin]

theorem cover_mono {a : ℕ} (h : a ∈ cover boot g) : a ∈ cover boot (g ++ [x]) := by
  rcases h with h | ⟨o, len, hm, h⟩
  · exact .inl h
  · exact .inr ⟨o, len, List.mem_append_left _ hm, h⟩

end Ledger

section Lookup

variable {boot : List (ℕ × ℕ)} {k : Kernel} {g : List Making} {u : Addr} {cid : ℤ} {a : ℕ}

theorem procFindCap_slot (h : Owned boot k g) (hc : CidOk cid)
    (hf : procFindCap u cid k = some a) : IsSlot k.mem (live boot g) a := by
  unfold procFindCap at hf
  cases hl : (k.proc u).capRoot with
  | none => rw [hl] at hf; cases hf
  | some l =>
    rw [hl] at hf
    obtain ⟨hlive, htype⟩ := h.root u l hl
    have hfit := (h.part.fits l hlive).2
    rw [objLen_caplist htype] at hfit
    obtain ⟨⟨h0, h1⟩, h2⟩ := hc
    have hsub := Int.emod_nonneg cid (show (4096 : ℤ) ≠ 0 by decide)
    unfold clistCaps at h1 h2
    have hbase : (((l : ℤ) + 8 + 8 * (cid / 4096)) % 2 ^ 32).toNat =
        capSlot l (cid / 4096).toNat := by
      unfold capSlot
      omega
    have hslot : IsSlot k.mem (live boot g) (capSlot l (cid / 4096).toNat) :=
      ⟨l, hlive, htype, (cid / 4096).toNat, by unfold clistCaps; omega, rfl⟩
    simp only [hbase] at hf
    split_ifs at hf with hge hs hr ht
    · cases hf
      exact hslot
    · cases hf
      have hp : capPerm k.mem (capSlot l (cid / 4096).toNat) ≠ 0 := by
        intro h0
        rw [h0] at hr
        exact hr (Nat.zero_and _)
      refine ⟨_, h.part.named _ hslot hp, not_not.mp ht, (cid % 4096).toNat, ?_, rfl⟩
      unfold clistCaps
      omega

theorem Owned.obj (h : Owned boot k g) (hc : CidOk cid) (hf : procFindCap u cid k = some a)
    (hp : capPerm k.mem a ≠ 0) : capObj k.mem a ∈ live boot g :=
  h.part.named a (procFindCap_slot h hc hf) hp

theorem land_ne_zero {perm mask : ℕ} (h : ¬ perm &&& mask = 0) : perm ≠ 0 := by
  rintro rfl
  exact h (Nat.zero_and _)

end Lookup

section Writes

variable {boot : List (ℕ × ℕ)} {k k' : Kernel} {g g' : List Making} {mem : Bytes}

theorem Owned.setMem (h : Owned boot k g)
    (hpart : Partition mem (live boot g') (cover boot g') (origin boot g'))
    (hslot : ∀ a, IsSlot k.mem (live boot g) a → IsSlot mem (live boot g') a)
    (hlist : ∀ l ∈ live boot g, objType k.mem l = objCaplist →
      l ∈ live boot g' ∧ objType mem l = objCaplist) : Owned boot { k with mem := mem } g' :=
  ⟨hpart, fun u l hl => hlist l (h.root u l hl).1 (h.root u l hl).2,
    fun p a ha => hslot a (h.give p a ha), fun p e a ha => hslot a (h.accept p e a ha)⟩

theorem Owned.setSlots (h : Owned boot k g)
    (hpart : Partition mem (live boot g) (cover boot g) (origin boot g))
    (hmem : ∀ x, (∀ a, IsSlot k.mem (live boot g) a → x < a ∨ a + 8 ≤ x) → mem x = k.mem x) :
    Owned boot { k with mem := mem } g :=
  h.setMem hpart (fun _ ha => (h.part.isSlot_iff hmem).mpr ha)
    fun _ hl ht => ⟨hl, (h.part.same_objects hmem hl).1.trans ht⟩

theorem Owned.congr (h : Owned boot k g) (hmem : k'.mem = k.mem)
    (hroot : ∀ u, (k'.proc u).capRoot = (k.proc u).capRoot ∨ (k'.proc u).capRoot = none)
    (hgive : ∀ p a, (k'.proc p).give = some a → IsSlot k.mem (live boot g) a)
    (haccept : ∀ p e a, (k'.proc p).label = .recv e (some a) → IsSlot k.mem (live boot g) a) :
    Owned boot k' g := by
  refine ⟨hmem ▸ h.part, fun u l hl => ?_, fun p a ha => ?_, fun p e a ha => ?_⟩
  · rw [hmem]
    rcases hroot u with hu | hu
    · exact h.root u l (hu ▸ hl)
    · rw [hu] at hl
      cases hl
  · rw [hmem]
    exact hgive p a ha
  · rw [hmem]
    exact haccept p e a ha

theorem Owned.sched (h : Owned boot k g) (hk : SchedOnly k k') : Owned boot k' g := by
  apply h.congr hk.mem
  · intro u
    rw [hk.proc u]
    exact .inl rfl
  · intro p a ha
    rw [hk.proc p] at ha
    exact h.give p a ha
  · intro p e a ha
    rw [hk.proc p] at ha
    exact h.accept p e a ha

end Writes

section Inits

variable {mem : Bytes} {o l n i j t x refs : ℕ} {k : Kernel} {systick : ℤ}

theorem setHead_outside (hx : x < o ∨ o + 8 ≤ x) : setHead o t refs mem x = mem x := by
  unfold setHead
  rw [put32_outside x (by omega), put32_outside x (by omega)]

theorem setHead_type (ht : t < 2 ^ 32) : objType (setHead o t refs mem) o = t := by
  unfold objType setHead
  rw [get32_put32_ne (by omega), get32_put32_same, Nat.mod_eq_of_lt ht]

theorem objCaplistInit_outside (hx : x < l + 8 ∨ l + 8 + 8 * i ≤ x) :
    objCaplistInit l i mem x = mem x := by
  induction i with
  | zero => rfl
  | succ i ih =>
    unfold objCaplistInit
    rw [setCap_outside (by unfold capSlot; omega), ih (by omega)]

theorem objCaplistInit_slot (hj : j < i) : capPerm (objCaplistInit l i mem) (capSlot l j) = 0 := by
  induction i with
  | zero => omega
  | succ i ih =>
    unfold objCaplistInit
    by_cases hji : j = i
    · rw [hji, setCap_perm]
      rfl
    · rw [(setCap_apart (by unfold Apart capSlot; omega)).1, ih (by omega)]

theorem objCaplistInit_stale (hj : i ≤ j) :
    capPerm (objCaplistInit l i (setHead l t refs mem)) (capSlot l j) = capPerm mem (capSlot l j) := by
  apply get32_congr
  intro y h1 h2
  unfold capSlot at h1
  rw [objCaplistInit_outside (by omega), setHead_outside (by omega)]

theorem objInit_outside (hs : objSize t n ≠ 0) (hx : x < o ∨ o + objSize t n ≤ x) :
    (objInit systick t o n { k with mem := setHead o t 1 k.mem }).mem x = k.mem x := by
  unfold objSize at hs hx
  unfold objInit
  split <;> simp only at hs hx
  · split_ifs at hs hx
    · exact absurd rfl hs
    · change objUntypedInit o n (setHead o 0 1 k.mem) x = k.mem x
      unfold objUntypedInit
      rw [put32_outside x (by omega), setHead_outside (by omega)]
  · split_ifs at hs hx
    · exact absurd rfl hs
    · exact setHead_outside (by omega)
  · split_ifs at hs hx
    · exact absurd rfl hs
    · change objCaplistInit o 255 (setHead o 2 1 k.mem) x = k.mem x
      rw [objCaplistInit_outside (by omega), setHead_outside (by omega)]
  · split_ifs at hs hx
    · exact absurd rfl hs
    · exact setHead_outside (by omega)
  · change objIntrInit o (setHead o 4 1 k.mem) x = k.mem x
    unfold objIntrInit
    rw [put32_outside x (by omega), put32_outside x (by omega), put32_outside x (by omega),
      setHead_outside (by omega)]
  · change objFrameInit o (setHead o _ 1 k.mem) x = k.mem x
    unfold objFrameInit
    rw [put32_outside x (by omega), put32_outside x (by omega), put32_outside x (by omega),
      setHead_outside (by omega)]

theorem objInit_head (hx1 : o ≤ x) (hx2 : x < o + 8) :
    (objInit systick t o n { k with mem := setHead o t 1 k.mem }).mem x = setHead o t 1 k.mem x := by
  unfold objInit
  split
  · exact put32_outside x (by omega)
  · rfl
  · exact objCaplistInit_outside (by omega)
  · rfl
  · change objIntrInit o (setHead o 4 1 k.mem) x = _
    unfold objIntrInit
    rw [put32_outside x (by omega), put32_outside x (by omega), put32_outside x (by omega)]
  · change objFrameInit o (setHead o _ 1 k.mem) x = _
    unfold objFrameInit
    rw [put32_outside x (by omega), put32_outside x (by omega), put32_outside x (by omega)]

variable (o n k systick) in
theorem objInit_type (ht : t < objTypeN) :
    objType (objInit systick t o n { k with mem := setHead o t 1 k.mem }).mem o = t := by
  have hagree : Agree (objInit systick t o n { k with mem := setHead o t 1 k.mem }).mem
      (setHead o t 1 k.mem) o 8 := fun x h1 h2 => objInit_head h1 h2
  have ht' : t < 2 ^ 32 := lt_trans ht (by decide)
  have hword : objType (objInit systick t o n { k with mem := setHead o t 1 k.mem }).mem o =
      objType (setHead o t 1 k.mem) o := get32_congr (hagree.mono (by omega) (by omega))
  rw [hword, setHead_type ht']

variable (o k systick) in
theorem objInit_len (ht : t < objTypeN) (hs : objSize t n ≠ 0) (hn : objSize t n < 2 ^ 32) :
    objLen (objInit systick t o n { k with mem := setHead o t 1 k.mem }).mem o = objSize t n := by
  have htype := objInit_type o n k systick ht
  unfold objLen
  rw [htype]
  unfold objSize at hs hn ⊢
  unfold objTypeN at ht
  split <;> simp only at hs hn ⊢
  · split_ifs at hs hn ⊢
    · exact absurd rfl hs
    · change get32 (put32 (setHead o 0 1 k.mem) (o + 8) n) (o + 8) = n
      rw [get32_put32_same, Nat.mod_eq_of_lt hn]
  all_goals
    split_ifs at hs <;> first | contradiction | skip
    try (rename_i h; rw [if_neg h])

theorem objSize_large (hs : objSize t n ≠ 0) : 12 ≤ objSize t n := by
  revert hs
  unfold objSize
  split <;> intro hs
  · split_ifs at hs ⊢ <;> omega
  · split_ifs at hs ⊢ <;> omega
  · split_ifs at hs ⊢ <;> omega
  · split_ifs at hs ⊢ <;> omega
  · omega
  · omega

theorem untyped_outside (hx : x < o ∨ o + 12 ≤ x) :
    objUntypedInit o n (setHead o objUntyped refs mem) x = mem x := by
  unfold objUntypedInit
  rw [put32_outside x (by omega), setHead_outside (by omega)]

theorem untyped_type : objType (objUntypedInit o n (setHead o objUntyped refs mem)) o = objUntyped := by
  unfold objType objUntypedInit
  rw [get32_put32_ne (by omega)]
  exact setHead_type (by decide)

theorem untyped_len (hn : n < 2 ^ 32) :
    objLen (objUntypedInit o n (setHead o objUntyped refs mem)) o = n := by
  rw [objLen_untyped untyped_type]
  unfold untypedLen objUntypedInit
  rw [get32_put32_same, Nat.mod_eq_of_lt hn]

end Inits

section Calls

variable {boot : List (ℕ × ℕ)} {k k' : Kernel} {g g' ev : List Making} {u : Addr} {systick : ℤ}
variable {mem : Bytes} {D N : Set ℕ} {cid nid type r : ℤ} {n a c o s m : ℕ}

theorem err_same (hr : Result.err k = some (r, ev, k')) : ev = [] ∧ k' = k := by
  cases hr
  exact ⟨rfl, rfl⟩

theorem check_cases {fails : Prop} [Decidable fails] {rest : Result}
    (hr : (if fails then .err k else rest) = some (r, ev, k')) :
    (ev = [] ∧ k' = k) ∨ ¬fails ∧ rest = some (r, ev, k') := by
  split_ifs at hr with hf
  · exact .inl (err_same hr)
  · exact .inr ⟨hf, hr⟩

theorem Owned.err (h : Owned boot k g) (hr : Result.err k = some (r, ev, k')) :
    Owned boot k' (g ++ ev) := by
  cases hr
  rw [List.append_nil]
  exact h

theorem Owned.carve (h : Owned boot k g)
    (hx : ∀ a, a ∈ live boot g' ↔ (a ∈ live boot g ∧ a ∉ D) ∨ a ∈ N)
    (hmem : ∀ a, a < s ∨ s + m ≤ a → mem a = k.mem a)
    (hout : ∀ a ∈ live boot g, a ∉ D → Apart a (objLen k.mem a) s m)
    (hD : ∀ a ∈ D, objType k.mem a ≠ objCaplist ∧ objType k.mem a ≠ objEndpoint)
    (hN : ∀ a ∈ N, s ≤ a ∧ a + objLen mem a ≤ s + m)
    (hNN : ∀ a ∈ N, ∀ b ∈ N, a ≠ b → Apart a (objLen mem a) b (objLen mem b))
    (hlarge : ∀ a ∈ N, 12 ≤ objLen mem a) (htyped : ∀ a ∈ N, objType mem a < objTypeN)
    (horigin : ∀ a ∈ N, objLen mem a ≤ origin boot g' a)
    (hempty : ∀ a ∈ N, objType mem a = objCaplist →
      ∀ i < clistCaps, capPerm mem (capSlot a i) = 0)
    (hkept : ∀ a, IsSlot k.mem (live boot g) a → capPerm k.mem a ≠ 0 → capObj k.mem a ∈ D →
      capObj k.mem a ∈ N)
    (hsame : ∀ a ∈ live boot g, a ∉ D → origin boot g' a = origin boot g a)
    (hs : 0 < s) (hsm : s + m ≤ 2 ^ 32) (hcover : ∀ a ∈ cover boot g, a ∈ cover boot g')
    (hscover : ∀ a, s ≤ a → a < s + m → a ∈ cover boot g') :
    Owned boot { k with mem := mem } g' := by
  have hpart : Partition mem (live boot g') (cover boot g') (origin boot g') :=
    h.part.carve hmem hx hout hD hN hNN hlarge htyped horigin hempty hkept hsame hs hsm hcover hscover
  apply h.setMem hpart
  · intro a ha
    exact h.part.carve_isSlot hmem (fun b hb hbo => (hx b).mpr (.inl ⟨hb, hbo⟩)) hout
      (fun b hb => (hD b hb).1) ha
  · intro l hl hlt
    have hlD : l ∉ D := fun hd => (hD l hd).1 hlt
    refine ⟨(hx l).mpr (.inl ⟨hl, hlD⟩), ?_⟩
    rw [← hlt]
    apply objType_congr
    intro y h1 h2
    have hap := hout l hl hlD
    have hlarge' := h.part.large l hl
    unfold Apart at hap
    exact hmem y (by omega)

theorem Owned.apart (h : Owned boot k g) (ho : o ∈ live boot g) {b : ℕ} (hb : b ∈ live boot g)
    (hbo : b ∉ ({o} : Set ℕ)) : Apart b (objLen k.mem b) o (objLen k.mem o) :=
  h.part.packed.apart b hb o ho fun he => hbo he

theorem Owned.not_within (h : Owned boot k g) (ho : o ∈ live boot g) (h1 : o < a)
    (h2 : a < o + objLen k.mem o) : a ∉ live boot g := by
  intro ha
  have hap := h.apart ho ha (by rw [Set.mem_singleton_iff]; omega)
  have hl := h.part.large a ha
  unfold Apart at hap
  omega

theorem Owned.rewrite (h : Owned boot k g) (ho : o ∈ live boot g)
    (ht : objType k.mem o ≠ objCaplist ∧ objType k.mem o ≠ objEndpoint)
    (hx : ∀ a, a ∈ live boot g' ↔ a ∈ live boot g)
    (hmem : ∀ a, a < o ∨ o + objLen k.mem o ≤ a → mem a = k.mem a)
    (hlen : objLen mem o ≤ objLen k.mem o) (hlarge : 12 ≤ objLen mem o)
    (htyped : objType mem o < objTypeN) (horigin : objLen mem o ≤ origin boot g' o)
    (hempty : objType mem o = objCaplist → ∀ i < clistCaps, capPerm mem (capSlot o i) = 0)
    (hsame : ∀ a, a ≠ o → origin boot g' a = origin boot g a)
    (hcover : ∀ a ∈ cover boot g, a ∈ cover boot g') : Owned boot { k with mem := mem } g' := by
  apply h.carve (D := {o}) (N := {o}) (s := o) (m := objLen k.mem o)
  · intro a
    rw [hx a, Set.mem_singleton_iff]
    by_cases hao : a = o
    · simp [hao, ho]
    · simp [hao]
  · exact hmem
  · exact fun b hb hbo => h.apart ho hb hbo
  · rintro a rfl
    exact ht
  · rintro a rfl
    omega
  · rintro a rfl b rfl hab
    exact absurd rfl hab
  · rintro a rfl
    exact hlarge
  · rintro a rfl
    exact htyped
  · rintro a rfl
    exact horigin
  · rintro a rfl
    exact hempty
  · exact fun _ _ _ hd => hd
  · exact fun a _ hao => hsame a hao
  · exact (h.part.fits o ho).1
  · exact (h.part.fits o ho).2
  · exact hcover
  · exact fun a h1 h2 => hcover a (h.part.packed.inside o ho a h1 h2)

theorem Owned.objInit {t : ℕ} (h : Owned boot
      { k with mem := (objInit systick t o n { k with mem := mem }).mem } g) :
    Owned boot (objInit systick t o n { k with mem := mem }) g := by
  by_cases ht : t = 3
  · subst ht
    have hproc : ∀ p, p ≠ o →
        (Sys.objInit systick 3 o n { k with mem := mem }).proc p = k.proc p := fun p hp => by
      simp [Sys.objInit, procInit, setProc_proc, hp]
    have hnew : (Sys.objInit systick 3 o n { k with mem := mem }).proc o = { Proc.zero with
        pid := k.nextpid, ts := systick } := by
      simp [Sys.objInit, procInit, Proc.zero]
    apply h.congr
    · rfl
    · intro p
      by_cases hp : p = o
      · right
        rw [hp, hnew]
        rfl
      · left
        rw [hproc p hp]
    · intro p a ha
      by_cases hp : p = o
      · rw [hp, hnew] at ha
        cases ha
      · rw [hproc p hp] at ha
        exact h.give p a ha
    · intro p e a ha
      by_cases hp : p = o
      · rw [hp, hnew] at ha
        cases ha
      · rw [hproc p hp] at ha
        exact h.accept p e a ha
  · have hproc : (Sys.objInit systick t o n { k with mem := mem }).proc = k.proc := by
      unfold Sys.objInit
      split <;> first | rfl | contradiction
    apply h.congr
    · rfl
    · exact fun p => .inl (by rw [hproc])
    · exact fun p a ha => h.give p a (hproc ▸ ha)
    · exact fun p e a ha => h.accept p e a (hproc ▸ ha)

theorem objInit_empty {t o : ℕ} (ht : t < objTypeN)
    (hf : objType (objInit systick t o n { k with mem := setHead o t 1 k.mem }).mem o = objCaplist)
    (hclean : t = objCaplist → ∀ i, 255 ≤ i → i < clistCaps → capPerm k.mem (capSlot o i) = 0) :
    ∀ i < clistCaps,
      capPerm (objInit systick t o n { k with mem := setHead o t 1 k.mem }).mem (capSlot o i) = 0 := by
  intro i hi
  rw [objInit_type o n k systick ht] at hf
  subst hf
  change capPerm (objCaplistInit o 255 (setHead o objCaplist 1 k.mem)) (capSlot o i) = 0
  by_cases hi' : i < 255
  · exact objCaplistInit_slot hi'
  · rw [objCaplistInit_stale (by omega)]
    exact hclean rfl i (by omega) hi

theorem sysObjRetype_owned (h : Owned boot k g) (hc : CidOk cid) (ht : 0 ≤ type ∧ type < objTypeN)
    (hclean : type = objCaplist → ∀ c, procFindCap u cid k = some c →
      ∀ i, 255 ≤ i → i < clistCaps → capPerm k.mem (capSlot (capObj k.mem c) i) = 0)
    (hr : sysObjRetype systick u cid type n k = some (r, ev, k')) : Owned boot k' (g ++ ev) := by
  unfold sysObjRetype at hr
  rw [if_neg (by omega)] at hr
  cases hf : procFindCap u cid k with
  | none =>
    rw [hf] at hr
    exact h.err hr
  | some c =>
    rw [hf] at hr
    simp only at hr
    split_ifs at hr with hp hu hn hs hl
    · exact h.err hr
    · exact h.err hr
    · exact h.err hr
    · exact h.err hr
    · cases hr
      have htype : objType k.mem (capObj k.mem c) = objUntyped := not_not.mp hu
      have ho := h.obj hc hf hp
      set o := capObj k.mem c with ho'
      set t := type.toNat with ht'
      have htt : t < objTypeN := by
        unfold objTypeN at ht ⊢
        omega
      have hlen : objLen k.mem o = untypedLen k.mem o := objLen_untyped htype
      have hlt : untypedLen k.mem o < 2 ^ 32 := get32_lt
      have hnewlen := objInit_len o k systick htt hs (by omega)
      have hnewtype := objInit_type o n k systick htt
      have horigin : origin boot (g ++ [.retyped o (untypedLen k.mem o)]) =
          Function.update (origin boot g) o (untypedLen k.mem o) := origin_concat
      apply Owned.objInit
      apply h.rewrite ho
      · rw [htype]
        decide
      · intro a
        rw [live_concat]
        rfl
      · exact fun a ha => objInit_outside hs (by omega)
      · rw [hnewlen]
        omega
      · rw [hnewlen]
        exact objSize_large hs
      · rw [hnewtype]
        exact htt
      · rw [hnewlen, horigin, Function.update_self]
        omega
      · intro hal i hi
        apply objInit_empty htt hal _ i hi
        intro hcap
        exact hclean (by unfold objCaplist at *; omega) c hf
      · intro a hao
        rw [horigin, Function.update_of_ne hao]
      · exact fun a ha => cover_mono ha

theorem setCap_swap {p b : ℕ} : (mem.put32 (c + 4) b).put32 c p = setCap c p b mem :=
  put32_comm (by omega)

theorem sysObjSplit_cases (hr : sysObjSplit u cid nid k = some (r, ev, k')) : (ev = [] ∧ k' = k) ∨ ∃ c nc,
    procFindCap u cid k = some c ∧ capPerm k.mem c ≠ 0 ∧ objType k.mem (capObj k.mem c) = objUntyped ∧
    procFindCap u nid k = some nc ∧ capPerm k.mem nc = 0 ∧ ¬ untypedLen k.mem (capObj k.mem c) / 2 < 12 ∧
    some (OK, [.split (capObj k.mem c) ((capObj k.mem c + untypedLen k.mem (capObj k.mem c) / 2) % 2 ^ 32)
        (untypedLen k.mem (capObj k.mem c))],
      { k with
        mem := (((setHead (capObj k.mem c) objUntyped 1
          ((setHead ((capObj k.mem c + untypedLen k.mem (capObj k.mem c) / 2) % 2 ^ 32) objUntyped 1 k.mem).put32
            ((capObj k.mem c + untypedLen k.mem (capObj k.mem c) / 2) % 2 ^ 32 + 8)
            (untypedLen k.mem (capObj k.mem c) / 2))).put32 (capObj k.mem c + 8)
              (untypedLen k.mem (capObj k.mem c) / 2)).put32 (nc + 4)
            ((capObj k.mem c + untypedLen k.mem (capObj k.mem c) / 2) % 2 ^ 32)).put32 nc (capRead ||| capWrite) }) =
      some (r, ev, k') := by
  unfold sysObjSplit at hr
  cases hf : procFindCap u cid k with
  | none =>
    rw [hf] at hr
    exact .inl (err_same hr)
  | some c =>
    cases hfn : procFindCap u nid k with
    | none =>
      simp only [hf, hfn] at hr
      split_ifs at hr <;> exact .inl (err_same hr)
    | some nc =>
      simp only [hf, hfn] at hr
      split_ifs at hr with hp hu hnp hl
      · exact .inl (err_same hr)
      · exact .inl (err_same hr)
      · exact .inl (err_same hr)
      · exact .inl (err_same hr)
      · exact .inr ⟨c, nc, rfl, land_ne_zero hp, not_not.mp hu, rfl, not_not.mp hnp, hl, hr⟩

theorem sysObjSplit_owned (h : Owned boot k g) (hc : CidOk cid) (hn : CidOk nid)
    (hr : sysObjSplit u cid nid k = some (r, ev, k')) : Owned boot k' (g ++ ev) := by
  rcases sysObjSplit_cases hr with ⟨rfl, rfl⟩ | ⟨c, nc, hf, hpc, htype, hfn, hnp, hl, hk⟩
  · rw [List.append_nil]
    exact h
  · cases hk
    have ho := h.obj hc hf hpc
    obtain ⟨o, hoc⟩ : ∃ o : ℕ, capObj k.mem c = o := ⟨_, rfl⟩
    rw [hoc] at htype ho hl ⊢
    have hlen : objLen k.mem o = untypedLen k.mem o := objLen_untyped htype
    obtain ⟨hpos, hfit⟩ := h.part.fits o ho
    rw [hlen] at hfit
    generalize hL : untypedLen k.mem o = L at hlen hfit hl ⊢
    rw [Nat.mod_eq_of_lt (by omega : o + L / 2 < 2 ^ 32), setCap_swap]
    set mem₁ := objUntypedInit o (L / 2) (setHead o objUntyped 1
      (objUntypedInit (o + L / 2) (L / 2) (setHead (o + L / 2) objUntyped 1 k.mem))) with hmem₁
    have hlo : objLen mem₁ o = L / 2 := untyped_len (by omega)
    have hagree : Agree mem₁ (objUntypedInit (o + L / 2) (L / 2)
        (setHead (o + L / 2) objUntyped 1 k.mem)) (o + L / 2) 12 := fun x h1 h2 =>
      untyped_outside (by omega)
    have hlno : objLen mem₁ (o + L / 2) = L / 2 :=
      (objLen_congr hagree).trans (untyped_len (by omega))
    have htno : objType mem₁ (o + L / 2) = objUntyped := (objType_congr hagree).trans untyped_type
    have hto : objType mem₁ o = objUntyped := untyped_type
    have horigin : origin boot (g ++ [.split o (o + L / 2) L]) =
        Function.update (Function.update (origin boot g) o L) (o + L / 2) L := origin_concat
    have hnew : o + L / 2 ∉ live boot g := h.not_within ho (by omega) (by omega)
    have hx : ∀ a, a ∈ live boot (g ++ [.split o (o + L / 2) L]) ↔
        (a ∈ live boot g ∧ a ∉ ({o} : Set ℕ)) ∨ a ∈ ({o, o + L / 2} : Set ℕ) := by
      intro a
      rw [live_concat]
      change a = o + L / 2 ∨ a ∈ live boot g ↔ _
      rw [Set.mem_singleton_iff, Set.mem_insert_iff, Set.mem_singleton_iff]
      by_cases hao : a = o
      · simp [hao, ho]
      · simp [hao, or_comm]
    have hmem : ∀ a, a < o ∨ o + objLen k.mem o ≤ a → mem₁ a = k.mem a := by
      intro a ha
      rw [hmem₁, untyped_outside (by omega), untyped_outside (by omega)]
    have hout : ∀ a ∈ live boot g, a ∉ ({o} : Set ℕ) →
        Apart a (objLen k.mem a) o (objLen k.mem o) := fun a ha hao => h.apart ho ha hao
    have hD : ∀ a ∈ ({o} : Set ℕ), objType k.mem a ≠ objCaplist ∧
        objType k.mem a ≠ objEndpoint := by
      rintro a rfl
      rw [htype]
      decide
    have hempty : ∀ a ∈ ({o, o + L / 2} : Set ℕ), objType mem₁ a = objCaplist →
        ∀ i < clistCaps, capPerm mem₁ (capSlot a i) = 0 := by
      rintro a (rfl | rfl) hal
      · rw [hto] at hal
        cases hal
      · rw [htno] at hal
        cases hal
    have hcarve : Owned boot { k with mem := mem₁ } (g ++ [.split o (o + L / 2) L]) := by
      apply h.carve hx hmem hout hD
      · rintro a (rfl | rfl) <;> omega
      · rintro a (rfl | rfl) b (rfl | rfl) hab <;> unfold Apart <;> omega
      · rintro a (rfl | rfl) <;> omega
      · rintro a (rfl | rfl)
        · rw [hto]
          decide
        · rw [htno]
          decide
      · rintro a (rfl | rfl)
        · rw [hlo, horigin, Function.update_of_ne (by omega), Function.update_self]
          omega
        · rw [hlno, horigin, Function.update_self]
          omega
      · exact hempty
      · exact fun _ _ _ hd => .inl hd
      · intro a ha hao
        have han : a ≠ o + L / 2 := fun he => hnew (he ▸ ha)
        rw [horigin, Function.update_of_ne han, Function.update_of_ne hao]
      · exact hpos
      · omega
      · exact fun a ha => cover_mono ha
      · exact fun a h1 h2 => cover_mono (h.part.packed.inside o ho a h1 h2)
    have hslot : IsSlot mem₁ (live boot (g ++ [.split o (o + L / 2) L])) nc :=
      h.part.carve_isSlot hmem (fun b hb hbo => (hx b).mpr (.inl ⟨hb, hbo⟩)) hout
        (fun b hb => (hD b hb).1) (procFindCap_slot h hn hfn)
    apply hcarve.setSlots
    · apply hcarve.part.name hslot
      · exact (hx _).mpr (.inr (.inr rfl))
      · intro a ha _ hpa hoa
        obtain ⟨ha', hpe, hoe⟩ := h.part.carve_slots hmem hx hout hempty ha hpa
        have hold := h.part.named a ha' (hpe ▸ hpa)
        rw [← hoe, hoa] at hold
        exact absurd hold hnew
    · exact fun x hx => setCap_mem hslot hx

theorem setCap_put32 {p b v : ℕ} (hoc : o + 4 ≤ c ∨ c + 8 ≤ o) :
    setCap c p b (mem.put32 o v) = (setCap c p b mem).put32 o v := by
  unfold setCap
  rw [put32_comm (b := mem) (by omega), put32_comm (by omega)]

theorem Owned.cleared (h : Owned boot k g) (hc : IsSlot k.mem (live boot g) c)
    (hp : capPerm k.mem c ≠ 0) (ht : objType k.mem (capObj k.mem c) ≠ objEndpoint)
    (a : ℕ) (ha : IsSlot k.mem (live boot g) a) (hpa : capPerm (setCap c 0 0 k.mem) a ≠ 0) :
    capObj (setCap c 0 0 k.mem) a ≠ capObj k.mem c := by
  intro hoa
  have hac : a ≠ c := by
    rintro rfl
    rw [setCap_perm] at hpa
    exact hpa rfl
  obtain ⟨hpe, hoe⟩ := h.part.setCap_other (p := 0) (q := 0) ha hc hac
  rw [hoe] at hoa
  exact hac (h.part.unique a c ha hc (hpe ▸ hpa) hp hoa (hoa ▸ ht))

structure Mergeable (boot : List (ℕ × ℕ)) (g : List Making) (k : Kernel) (c o n : ℕ) : Prop where
  slot : IsSlot k.mem (live boot g) c
  perm : capPerm k.mem c ≠ 0
  obj : capObj k.mem c = o + n
  low : o ∈ live boot g
  high : o + n ∈ live boot g
  lowType : objType k.mem o = objUntyped
  highType : objType k.mem (o + n) = objUntyped
  lowLen : objLen k.mem o = n
  highLen : objLen k.mem (o + n) = n
  pos : 0 < o
  large : 12 ≤ n
  fit : o + n + n ≤ 2 ^ 32

theorem Mergeable.apart (h : Owned boot k g) (hm : Mergeable boot g k c o n) (ha : a ∈ live boot g)
    (hao : a ∉ ({o, o + n} : Set ℕ)) : Apart a (objLen k.mem a) o (n + n) := by
  have hlow := h.part.packed.apart a ha o hm.low fun he => hao (.inl he)
  have hhigh := h.part.packed.apart a ha (o + n) hm.high fun he => hao (.inr he)
  have hlarge := h.part.large a ha
  have hn := hm.large
  rw [hm.lowLen] at hlow
  rw [hm.highLen] at hhigh
  unfold Apart at *
  omega

theorem sysObjMerge_cases {cidL cidH : ℤ} (h : Owned boot k g) (hcl : CidOk cidL) (hch : CidOk cidH)
    (hpl : ∀ c, procFindCap u cidL k = some c → capPerm k.mem c ≠ 0)
    (hph : ∀ c, procFindCap u cidH k = some c → capPerm k.mem c ≠ 0)
    (hr : sysObjMerge u cidL cidH k = some (r, ev, k')) : (ev = [] ∧ k' = k) ∨ ∃ c o n,
    procFindCap u cidH k = some c ∧ Mergeable boot g k c o n ∧ ev = [.merged o (o + n) (n + n)] ∧
      k' = { k with mem := setCap c 0 0 (k.mem.put32 (o + 8) (n + n)) } := by
  unfold sysObjMerge at hr
  cases hfl : procFindCap u cidL k with
  | none =>
    rw [hfl] at hr
    exact .inl (err_same hr)
  | some cl =>
    cases hfh : procFindCap u cidH k with
    | none =>
      rw [hfl, hfh] at hr
      exact .inl (err_same hr)
    | some c =>
      simp only [hfl, hfh] at hr
      obtain ⟨-, hr⟩ := Option.ite_none_left_eq_some.mp hr
      obtain hsame | ⟨htl, hr⟩ := check_cases hr
      · exact .inl hsame
      obtain ⟨-, hr⟩ := Option.ite_none_left_eq_some.mp hr
      obtain hsame | ⟨hth, hr⟩ := check_cases hr
      · exact .inl hsame
      obtain hsame | ⟨-, hr⟩ := check_cases hr
      · exact .inl hsame
      obtain hsame | ⟨-, hr⟩ := check_cases hr
      · exact .inl hsame
      obtain hsame | ⟨hlen, hr⟩ := check_cases hr
      · exact .inl hsame
      obtain hsame | ⟨hadj, hr⟩ := check_cases hr
      · exact .inl hsame
      have hlow := h.obj hcl hfl (hpl cl hfl)
      have hhigh := h.obj hch hfh (hph c hfh)
      obtain ⟨o, ho⟩ : ∃ o : ℕ, capObj k.mem cl = o := ⟨_, rfl⟩
      obtain ⟨o', ho'⟩ : ∃ o : ℕ, capObj k.mem c = o := ⟨_, rfl⟩
      obtain ⟨n, hn⟩ : ∃ n : ℕ, untypedLen k.mem o = n := ⟨_, rfl⟩
      rw [ho] at htl hlen hadj hlow hr
      rw [ho'] at hth hlen hadj hhigh hr
      have hlow' := objLen_untyped (not_not.mp htl)
      have hhigh' := (objLen_untyped (not_not.mp hth)).trans (not_not.mp hlen).symm
      rw [← not_not.mp hlen, hn] at hr
      rw [hn] at hadj hlow' hhigh'
      obtain ⟨hpos, hfit⟩ := h.part.fits o hlow
      obtain ⟨hpos', hfit'⟩ := h.part.fits o' hhigh
      have hlarge := h.part.large o hlow
      rw [hlow'] at hfit hlarge
      rw [hhigh'] at hfit'
      have hnext : (o + n) % 2 ^ 32 = o' := not_not.mp hadj
      obtain rfl : o' = o + n := by omega
      cases hr
      exact .inr ⟨c, o, n, rfl, ⟨procFindCap_slot h hch hfh, hph c hfh, ho', hlow, hhigh, not_not.mp htl,
        not_not.mp hth, hlow', hhigh', hpos, hlarge, hfit'⟩, rfl, by rw [setCap_swap]⟩

theorem Mergeable.owned (h : Owned boot k g) (hm : Mergeable boot g k c o n) :
    Owned boot { k with mem := setCap c 0 0 (k.mem.put32 (o + 8) (n + n)) } (g ++ [.merged o (o + n) (n + n)]) := by
  have hn := hm.large
  have hfit := hm.fit
  have hlow := hm.lowLen
  have hty : objType k.mem o ≠ objCaplist := by
    rw [hm.lowType]
    decide
  have h8 := h.part.head_apart hm.slot hm.low (x := o + 8) (by omega) (.inr ⟨hty, by omega⟩)
  have h11 := h.part.head_apart hm.slot hm.low (x := o + 11) (by omega) (.inr ⟨hty, by omega⟩)
  rw [setCap_put32 (by omega)]
  have hcleared := h.cleared hm.slot hm.perm (by rw [hm.obj, hm.highType]; decide)
  rw [hm.obj] at hcleared
  have hmem₁ : ∀ x, (∀ a, IsSlot k.mem (live boot g) a → x < a ∨ a + 8 ≤ x) →
      setCap c 0 0 k.mem x = k.mem x := fun x hx => setCap_mem hm.slot hx
  have hown : Owned boot { k with mem := setCap c 0 0 k.mem } g :=
    h.setSlots (h.part.clear hm.slot) hmem₁
  have hsame : ∀ o ∈ live boot g, objType (setCap c 0 0 k.mem) o = objType k.mem o ∧
      objLen (setCap c 0 0 k.mem) o = objLen k.mem o := fun o ho =>
    h.part.same_objects hmem₁ ho
  have hslot₁ : ∀ a, IsSlot (setCap c 0 0 k.mem) (live boot g) a →
      IsSlot k.mem (live boot g) a := fun a => (h.part.isSlot_iff hmem₁).mp
  generalize setCap c 0 0 k.mem = mem₁ at hcleared hown hsame hslot₁ ⊢
  have htype : objType (mem₁.put32 (o + 8) (n + n)) o = objUntyped := by
    rw [← hm.lowType, ← (hsame o hm.low).1]
    exact get32_put32_ne (by omega)
  have hlen : objLen (mem₁.put32 (o + 8) (n + n)) o = n + n := by
    rw [objLen_untyped htype]
    unfold untypedLen
    rw [get32_put32_same, Nat.mod_eq_of_lt (by have hpos := hm.pos; omega)]
  have horigin : origin boot (g ++ [.merged o (o + n) (n + n)]) =
      Function.update (origin boot g) o (n + n) := origin_concat
  apply hown.carve (D := {o, o + n}) (N := {o}) (s := o) (m := n + n)
  · intro a
    rw [live_concat, Set.mem_insert_iff, Set.mem_singleton_iff, Set.mem_singleton_iff]
    change a ∈ live boot g ∧ a ≠ o + n ↔ _
    by_cases hao : a = o
    · have hne : n ≠ 0 := by omega
      simp [hao, hm.low, hne]
    · simp [hao]
  · intro a ha
    exact put32_outside a (by omega)
  · intro a ha hao
    change Apart a (objLen mem₁ a) o (n + n)
    rw [(hsame a ha).2]
    exact hm.apart h ha hao
  · rintro a (rfl | rfl)
    · change objType mem₁ a ≠ objCaplist ∧ objType mem₁ a ≠ objEndpoint
      rw [(hsame a hm.low).1, hm.lowType]
      decide
    · change objType mem₁ (o + n) ≠ objCaplist ∧ objType mem₁ (o + n) ≠ objEndpoint
      rw [(hsame _ hm.high).1, hm.highType]
      decide
  · rintro a rfl
    omega
  · rintro a rfl b rfl hab
    exact absurd rfl hab
  · rintro a rfl
    omega
  · rintro a rfl
    rw [htype]
    decide
  · rintro a rfl
    rw [hlen, horigin, Function.update_self]
  · rintro a rfl hal
    rw [htype] at hal
    cases hal
  · rintro a ha hpa (hd | hd)
    · exact hd
    · exact absurd hd (hcleared a (hslot₁ a ha) hpa)
  · intro a ha hao
    rw [horigin, Function.update_of_ne fun he => hao (.inl he)]
  · exact hm.pos
  · omega
  · exact fun a ha => cover_mono ha
  · intro a h1 h2
    apply cover_mono
    by_cases hao : a < o + n
    · exact h.part.packed.inside o hm.low a h1 (by omega)
    · exact h.part.packed.inside (o + n) hm.high a (by omega) (by rw [hm.highLen]; omega)

theorem sysObjMerge_owned {cidL cidH : ℤ} (h : Owned boot k g) (hcl : CidOk cidL) (hch : CidOk cidH)
    (hpl : ∀ c, procFindCap u cidL k = some c → capPerm k.mem c ≠ 0)
    (hph : ∀ c, procFindCap u cidH k = some c → capPerm k.mem c ≠ 0)
    (hr : sysObjMerge u cidL cidH k = some (r, ev, k')) : Owned boot k' (g ++ ev) := by
  rcases sysObjMerge_cases h hcl hch hpl hph hr with ⟨rfl, rfl⟩ | ⟨c, o, n, -, hm, rfl, rfl⟩
  · rw [List.append_nil]
    exact h
  · exact hm.owned h

end Calls

end Agatha.Sys
