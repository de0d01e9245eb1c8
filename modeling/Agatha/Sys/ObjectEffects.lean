import Agatha.Sys.ObjectGrants

namespace Agatha.Sys

open Kernel Library Library.Bytes Library.Areas

def objRoom (boot : List (ℕ × ℕ)) (s : Kernel × List Making) (o : ℕ) : ℕ :=
  if objType s.1.mem o = objUntyped then objLen s.1.mem o else origin boot s.2 o

structure Process (boot : List (ℕ × ℕ)) (u l : ℕ) (s : Kernel × List Making) : Prop where
  owned : Owned boot s.1 s.2
  root : (s.1.proc u).capRoot = some l
  live : u ∈ live boot s.2
  proc : objType s.1.mem u = objProc

structure Names (boot : List (ℕ × ℕ)) (l i : ℕ) (s : Kernel × List Making) (t len : ℕ) : Prop where
  perm : capPerm s.1.mem (capSlot l i) = capWrite ||| capRead
  type : objType s.1.mem (capObj s.1.mem (capSlot l i)) = t
  room : objRoom boot s (capObj s.1.mem (capSlot l i)) = len
  clean : t = objUntyped → len = 4096 → ∀ o x : ℕ, capObj s.1.mem (capSlot l i) = o →
    o + 12 ≤ x → x < o + 4096 → s.1.mem x = 0

def Untouched (mem mem' : Bytes) (o : ℕ) : Prop :=
  ∀ x, o ≤ x → x < o + 8 ∨ objType mem o ≠ objCaplist ∧ x < o + objLen mem o → mem' x = mem x

structure Keeps (boot : List (ℕ × ℕ)) (l i : ℕ) (s s' : Kernel × List Making) : Prop where
  perm : capPerm s'.1.mem (capSlot l i) = capPerm s.1.mem (capSlot l i)
  obj : capObj s'.1.mem (capSlot l i) = capObj s.1.mem (capSlot l i)
  object : capPerm s.1.mem (capSlot l i) ≠ 0 → Untouched s.1.mem s'.1.mem (capObj s.1.mem (capSlot l i)) ∧
    origin boot s'.2 (capObj s.1.mem (capSlot l i)) = origin boot s.2 (capObj s.1.mem (capSlot l i))

section Objects

variable {boot : List (ℕ × ℕ)} {k : Kernel} {g : List Making} {s s' : Kernel × List Making}
variable {mem mem' : Bytes} {u l i j n o t m : ℕ}

theorem Untouched.type (h : Untouched mem mem' o) : objType mem' o = objType mem o := by
  apply get32_congr
  intro x h1 h2
  exact h x (by omega) (.inl (by omega))

theorem Untouched.len (h : Untouched mem mem' o) (hl : 12 ≤ objLen mem o) : objLen mem' o = objLen mem o := by
  by_cases hc : objType mem o = objCaplist
  · rw [objLen_caplist hc, objLen_caplist (h.type.trans hc)]
  · apply objLen_congr
    intro x h1 h2
    exact h x h1 (.inr ⟨hc, by omega⟩)

theorem slots_apart (hij : i ≠ j) : Apart (capSlot l i) 8 (capSlot l j) 8 := by
  unfold Apart capSlot
  omega

theorem Process.slot (h : Process boot u l s) (hi : i < clistCaps) :
    IsSlot s.1.mem (Sys.live boot s.2) (capSlot l i) := by
  obtain ⟨hl, ht⟩ := h.owned.root u l h.root
  exact ⟨l, hl, ht, i, hi, rfl⟩

theorem Process.named (h : Process boot u l s) (hi : i < clistCaps) (hp : capPerm s.1.mem (capSlot l i) ≠ 0) :
    capObj s.1.mem (capSlot l i) ∈ Sys.live boot s.2 :=
  h.owned.part.named _ (h.slot hi) hp

theorem cidOk (hi : i < clistCaps) : CidOk ((i * 4096 : ℕ) : ℤ) := by
  unfold clistCaps at hi
  refine ⟨?_, ?_⟩
  · unfold clistCaps
    omega
  · unfold clistCaps
    omega

theorem Process.find (h : Process boot u l s) (hi : i < clistCaps) :
    procFindCap u ((i * 4096 : ℕ) : ℤ) s.1 = some (capSlot l i) := by
  obtain ⟨hl, ht⟩ := h.owned.root u l h.root
  have hfit := (h.owned.part.fits l hl).2
  rw [objLen_caplist ht] at hfit
  unfold clistCaps at hi
  have hbase : (((i * 4096 : ℕ) : ℤ)) / 4096 = i := by omega
  have hsub : (((i * 4096 : ℕ) : ℤ)) % 4096 = 0 := by omega
  have hslot : (((l : ℤ) + 8 + 8 * (i : ℤ)) % 2 ^ 32).toNat = capSlot l i := by
    unfold capSlot
    omega
  unfold procFindCap
  rw [h.root]
  simp only [hbase, hsub, hslot]
  rw [if_neg (by unfold clistCaps; omega)]
  rfl

theorem Process.obj_ne (h : Process boot u l s) (hi : i < clistCaps) (hn : n < clistCaps) (hin : n ≠ i)
    (hpi : capPerm s.1.mem (capSlot l i) ≠ 0) (hpn : capPerm s.1.mem (capSlot l n) ≠ 0)
    (ht : objType s.1.mem (capObj s.1.mem (capSlot l i)) ≠ objEndpoint) :
    capObj s.1.mem (capSlot l n) ≠ capObj s.1.mem (capSlot l i) := by
  intro he
  have hslots := h.owned.part.unique _ _ (h.slot hi) (h.slot hn) hpi hpn he.symm ht
  unfold capSlot at hslots
  omega

theorem Names.perm_ne (h : Names boot l i s t m) : capPerm s.1.mem (capSlot l i) ≠ 0 := by
  rw [h.perm]
  decide

theorem Names.length (h : Names boot l i s objUntyped m) (ho : capObj s.1.mem (capSlot l i) = o) :
    objType s.1.mem o = objUntyped ∧ objLen s.1.mem o = m := by
  have htype : objType s.1.mem o = objUntyped := ho ▸ h.type
  have hroom := h.room
  unfold objRoom at hroom
  rw [ho, if_pos htype] at hroom
  exact ⟨htype, hroom⟩

theorem Process.ne (h : Process boot u l s) (ht : objType s.1.mem o ≠ objProc) : u ≠ o := by
  rintro rfl
  exact ht h.proc

theorem Names.keep (h : Names boot l i s t m) (hp : Process boot u l s) (hi : i < clistCaps)
    (hk : Keeps boot l i s s') : Names boot l i s' t m := by
  obtain ⟨hsame, horigin⟩ := hk.object h.perm_ne
  have hlarge := hp.owned.part.large _ (hp.named hi h.perm_ne)
  refine ⟨hk.perm.trans h.perm, ?_, ?_, ?_⟩
  · rw [hk.obj, hsame.type]
    exact h.type
  · rw [hk.obj, ← h.room]
    unfold objRoom
    rw [hsame.type, hsame.len hlarge, horigin]
  · intro ht hlen o x ho h1 h2
    rw [hk.obj] at ho
    have htype := h.type.trans ht
    have hroom := h.room
    unfold objRoom at hroom
    rw [if_pos htype] at hroom
    rw [ho] at hsame htype hroom
    rw [hsame x (by omega) (.inr ⟨by rw [htype]; decide, by omega⟩)]
    exact h.clean ht hlen o x ho h1 h2

theorem Keeps.refl : Keeps boot l i s s := ⟨rfl, rfl, fun _ => ⟨fun _ _ _ => rfl, rfl⟩⟩

theorem Process.untouched (h : Process boot u l s) (ho : o ∈ Sys.live boot s.2) {a : ℕ}
    (hap : Apart o (objLen s.1.mem o) a m)
    (hmem : ∀ x, x < a ∨ a + m ≤ x → (∀ c, IsSlot s.1.mem (Sys.live boot s.2) c → x < c ∨ c + 8 ≤ x) →
      mem x = s.1.mem x) : Untouched s.1.mem mem o := by
  intro x h1 h2
  have hlarge := h.owned.part.large o ho
  apply hmem
  · unfold Apart at hap
    omega
  · intro c hc
    exact h.owned.part.head_apart hc ho h1 h2

theorem Process.slot_apart (h : Process boot u l s) (hi : i < clistCaps) (ho : o ∈ Sys.live boot s.2)
    (ht : objType s.1.mem o ≠ objCaplist) : Apart (capSlot l i) 8 o (objLen s.1.mem o) := by
  obtain ⟨hl, htl⟩ := h.owned.root u l h.root
  have hap := h.owned.part.packed.apart l hl o ho (by
    rintro rfl
    exact ht htl)
  rw [objLen_caplist htl] at hap
  unfold clistCaps at hi
  unfold Apart capSlot at *
  omega

theorem Process.after {k' : Kernel} {g' : List Making} (h : Process boot u l s) (hown : Owned boot k' g')
    (hroot : (k'.proc u).capRoot = (s.1.proc u).capRoot) (hlive : u ∈ Sys.live boot g')
    (hsame : Untouched s.1.mem k'.mem u) : Process boot u l (k', g') :=
  ⟨hown, hroot.trans h.root, hlive, hsame.type.trans h.proc⟩

theorem Process.keeps (h : Process boot u l s) (hi : i < clistCaps) (ho : capObj s.1.mem (capSlot l i) = o)
    (hp : capPerm s.1.mem (capSlot l i) ≠ 0) (ht : objType s.1.mem o ≠ objEndpoint)
    (hn : n < clistCaps) (hni : n ≠ i) (hslot : Agree s'.1.mem s.1.mem (capSlot l n) 8)
    (hobj : ∀ b ∈ Sys.live boot s.2, b ≠ o → Untouched s.1.mem s'.1.mem b ∧ origin boot s'.2 b = origin boot s.2 b) :
    Keeps boot l n s s' := by
  refine ⟨get32_congr (hslot.mono (by omega) (by omega)), get32_congr (hslot.mono (by omega) (by omega)), fun hpn => ?_⟩
  apply hobj _ (h.named hn hpn)
  rw [← ho]
  exact h.obj_ne hi hn hni hp hpn (ho ▸ ht)

end Objects

section Split

variable {boot : List (ℕ × ℕ)} {s : Kernel × List Making} {u l i j m : ℕ}

def splitMem (o m : ℕ) (mem : Bytes) : Bytes :=
  objUntypedInit o (m / 2) (setHead o objUntyped 1
    (objUntypedInit (o + m / 2) (m / 2) (setHead (o + m / 2) objUntyped 1 mem)))

theorem splitMem_outside {o x : ℕ} {mem : Bytes} (hm : 24 ≤ m) (hx : x < o ∨ o + m ≤ x) :
    splitMem o m mem x = mem x := by
  unfold splitMem
  rw [untyped_outside (by omega), untyped_outside (by omega)]

theorem splitMem_low (o : ℕ) (mem : Bytes) (hm : m < 2 ^ 32) :
    objType (splitMem o m mem) o = objUntyped ∧ objLen (splitMem o m mem) o = m / 2 :=
  ⟨untyped_type, untyped_len (by omega)⟩

theorem splitMem_high (o : ℕ) (mem : Bytes) (hm : m < 2 ^ 32) (hl : 24 ≤ m) :
    objType (splitMem o m mem) (o + m / 2) = objUntyped ∧ objLen (splitMem o m mem) (o + m / 2) = m / 2 := by
  have hagree : Agree (splitMem o m mem) (objUntypedInit (o + m / 2) (m / 2)
      (setHead (o + m / 2) objUntyped 1 mem)) (o + m / 2) 12 := fun x h1 h2 => untyped_outside (by omega)
  exact ⟨(objType_congr hagree).trans untyped_type, (objLen_congr hagree).trans (untyped_len (by omega))⟩

theorem sysObjSplit_runs {o : ℕ} (h : Process boot u l s) (hi : i < clistCaps) (hj : j < clistCaps)
    (hold : Names boot l i s objUntyped m) (ho : capObj s.1.mem (capSlot l i) = o) (hm : 24 ≤ m)
    (hfree : capPerm s.1.mem (capSlot l j) = 0) :
    sysObjSplit u ((i * 4096 : ℕ) : ℤ) ((j * 4096 : ℕ) : ℤ) s.1 = some (OK, [.split o (o + m / 2) m],
      { s.1 with mem := setCap (capSlot l j) (capRead ||| capWrite) (o + m / 2) (splitMem o m s.1.mem) }) := by
  obtain ⟨htype, hlen⟩ := hold.length ho
  have hfit := (h.owned.part.fits o (ho ▸ h.named hi hold.perm_ne)).2
  have hunt : untypedLen s.1.mem o = m := (objLen_untyped htype).symm.trans hlen
  rw [hlen] at hfit
  unfold sysObjSplit
  rw [h.find hi, h.find hj]
  simp only [ho, hold.perm, htype, hfree, hunt]
  rw [if_neg (by decide), if_neg (by simp), if_neg (by simp), if_neg (by omega),
    Nat.mod_eq_of_lt (by omega : o + m / 2 < 2 ^ 32), setCap_swap]
  rfl

theorem names_untyped {o : ℕ} (hp : capPerm s.1.mem (capSlot l i) = capWrite ||| capRead)
    (ho : capObj s.1.mem (capSlot l i) = o) (ht : objType s.1.mem o = objUntyped) (hl : objLen s.1.mem o = m)
    (hclean : m = 4096 → ∀ x, o + 12 ≤ x → x < o + 4096 → s.1.mem x = 0) : Names boot l i s objUntyped m := by
  refine ⟨hp, ho ▸ ht, ?_, ?_⟩
  · unfold objRoom
    rw [ho, if_pos ht, hl]
  · intro _ hm o' x ho' h1 h2
    have hoo : o = o' := ho.symm.trans ho'
    exact hclean hm x (by omega) (by omega)

theorem sysObjSplit_effect (h : Process boot u l s) (hi : i < clistCaps) (hj : j < clistCaps)
    (hold : Names boot l i s objUntyped m) (hm : 24 ≤ m) (hpage : m ≤ 4096)
    (hfree : capPerm s.1.mem (capSlot l j) = 0) :
    ∃ ev k', sysObjSplit u ((i * 4096 : ℕ) : ℤ) ((j * 4096 : ℕ) : ℤ) s.1 = some (OK, ev, k') ∧
      Process boot u l (k', s.2 ++ ev) ∧
      (∀ n < clistCaps, n ≠ i → n ≠ j → Keeps boot l n s (k', s.2 ++ ev)) ∧
      Names boot l i (k', s.2 ++ ev) objUntyped (m / 2) ∧ Names boot l j (k', s.2 ++ ev) objUntyped (m / 2) ∧
      capObj k'.mem (capSlot l i) = capObj s.1.mem (capSlot l i) ∧
      capObj k'.mem (capSlot l j) ∉ Sys.live boot s.2 := by
  obtain ⟨o, ho⟩ : ∃ o : ℕ, capObj s.1.mem (capSlot l i) = o := ⟨_, rfl⟩
  have hrun := sysObjSplit_runs h hi hj hold ho hm hfree
  obtain ⟨htype, hlen⟩ := hold.length ho
  have hlive : o ∈ Sys.live boot s.2 := ho ▸ h.named hi hold.perm_ne
  have hfit := (h.owned.part.fits o hlive).2
  rw [hlen] at hfit
  have hij : i ≠ j := by
    rintro rfl
    exact hold.perm_ne hfree
  have hcap : objType s.1.mem o ≠ objCaplist := by
    rw [htype]
    decide
  have hnew : o + m / 2 ∉ Sys.live boot s.2 := h.owned.not_within hlive (by omega) (by omega)
  have hown := sysObjSplit_owned h.owned (cidOk hi) (cidOk hj) hrun
  have hslot (n : ℕ) (hn : n < clistCaps) : Apart (capSlot l n) 8 o m := hlen ▸ h.slot_apart hn hlive hcap
  obtain ⟨mem, hmem⟩ : ∃ mem, mem = setCap (capSlot l j) (capRead ||| capWrite) (o + m / 2)
    (splitMem o m s.1.mem) := ⟨_, rfl⟩
  rw [← hmem] at hrun hown
  have hout : ∀ x, x < o ∨ o + m ≤ x → (∀ c, IsSlot s.1.mem (Sys.live boot s.2) c → x < c ∨ c + 8 ≤ x) →
      mem x = s.1.mem x := by
    intro x hx hc
    rw [hmem, setCap_outside (hc _ (h.slot hj)), splitMem_outside hm hx]
  have hsame (b : ℕ) (hb : b ∈ Sys.live boot s.2) (hbo : b ≠ o) : Untouched s.1.mem mem b :=
    h.untouched hb (hlen ▸ h.owned.part.packed.apart b hb o hlive hbo) hout
  have hagree (n : ℕ) (hn : n < clistCaps) (hnj : n ≠ j) : Agree mem s.1.mem (capSlot l n) 8 := by
    intro x h1 h2
    have hap := hslot n hn
    have hapj := slots_apart (l := l) hnj
    unfold Apart at hap hapj
    rw [hmem, setCap_outside (by omega), splitMem_outside hm (by omega)]
  have hhalf (b : ℕ) (hb : o ≤ b) (hbm : b + 12 ≤ o + m) : Agree mem (splitMem o m s.1.mem) b 12 := by
    intro x h1 h2
    have hap := hslot j hj
    unfold Apart at hap
    rw [hmem, setCap_outside (by omega)]
  obtain ⟨htlow, hllow⟩ := splitMem_low o s.1.mem (m := m) (by omega)
  obtain ⟨hthigh, hlhigh⟩ := splitMem_high o s.1.mem (m := m) (by omega) hm
  have hobji : capObj mem (capSlot l i) = o :=
    (get32_congr ((hagree i hi hij).mono (by omega) (by omega))).trans ho
  have hobjj : capObj mem (capSlot l j) = o + m / 2 := by
    rw [hmem, setCap_obj, Nat.mod_eq_of_lt (by omega)]
  refine ⟨_, _, hrun, ?_, ?_, ?_, ?_, hobji.trans ho.symm, ?_⟩
  · apply h.after hown rfl
    · rw [live_concat]
      exact .inr h.live
    · exact hsame u h.live (h.ne (by rw [htype]; decide))
  · intro n hn hni hnj
    refine h.keeps hi ho hold.perm_ne (by rw [htype]; decide) hn hni (hagree n hn hnj) fun b hbl hbo => ?_
    have hbh : b ≠ o + m / 2 := by
      rintro rfl
      exact hnew hbl
    refine ⟨hsame b hbl hbo, ?_⟩
    rw [origin_concat]
    show Function.update (Function.update (origin boot s.2) o m) (o + m / 2) m b = origin boot s.2 b
    rw [Function.update_of_ne hbh, Function.update_of_ne hbo]
  · apply names_untyped _ hobji
    · rw [objType_congr (hhalf o (by omega) (by omega)), htlow]
    · rw [objLen_congr (hhalf o (by omega) (by omega)), hllow]
    · intro hm'
      omega
    · exact (get32_congr ((hagree i hi hij).mono (by omega) (by omega))).trans hold.perm
  · apply names_untyped _ hobjj
    · rw [objType_congr (hhalf _ (by omega) (by omega)), hthigh]
    · rw [objLen_congr (hhalf _ (by omega) (by omega)), hlhigh]
    · intro hm'
      omega
    · show capPerm mem _ = _
      rw [hmem, setCap_perm]
      rfl
  · show capObj mem _ ∉ _
    rw [hobjj]
    exact hnew

end Split

section Retype

variable {boot : List (ℕ × ℕ)} {s : Kernel × List Making} {u l i m t : ℕ}

theorem objInit_proc {systick : ℤ} {o n : ℕ} {k : Kernel} (hu : u ≠ o) : (objInit systick t o n k).proc u = k.proc u := by
  unfold objInit
  split <;> simp [procInit, setProc_proc, hu]

theorem objSize_one (ht : 0 < t ∧ t < objTypeN) : objSize t 1 ≠ 0 := by
  unfold objTypeN at ht
  obtain rfl | rfl | rfl | rfl | rfl : t = 1 ∨ t = 2 ∨ t = 3 ∨ t = 4 ∨ t = 5 := by omega
  all_goals decide

theorem sysObjRetype_runs (systick : ℤ) {o : ℕ} (h : Process boot u l s) (hi : i < clistCaps)
    (hold : Names boot l i s objUntyped m) (ho : capObj s.1.mem (capSlot l i) = o)
    (ht : 0 < t ∧ t < objTypeN) (hsize : objSize t 1 ≤ m) :
    sysObjRetype systick u ((i * 4096 : ℕ) : ℤ) (t : ℤ) 1 s.1 = some (OK, [.retyped o m],
      objInit systick t o 1 { s.1 with mem := setHead o t 1 s.1.mem }) := by
  obtain ⟨htype, hlen⟩ := hold.length ho
  have hunt : untypedLen s.1.mem o = m := (objLen_untyped htype).symm.trans hlen
  unfold sysObjRetype
  rw [if_neg (by omega), h.find hi]
  simp only [ho, hold.perm, htype, hunt, Int.toNat_natCast]
  rw [if_neg (by decide), if_neg (by simp), if_neg (by omega), if_neg (objSize_one ht), if_neg (by omega)]

theorem sysObjRetype_effect (systick : ℤ) (h : Process boot u l s) (hi : i < clistCaps) (hold : Names boot l i s objUntyped m)
    (ht : 0 < t ∧ t < objTypeN) (hsize : objSize t 1 ≤ m) (hpage : t = objCaplist → m = 4096) :
    ∃ ev k', sysObjRetype systick u ((i * 4096 : ℕ) : ℤ) (t : ℤ) 1 s.1 = some (OK, ev, k') ∧
      Process boot u l (k', s.2 ++ ev) ∧ (∀ n < clistCaps, n ≠ i → Keeps boot l n s (k', s.2 ++ ev)) ∧
      Names boot l i (k', s.2 ++ ev) t m ∧
      capObj k'.mem (capSlot l i) = capObj s.1.mem (capSlot l i) := by
  obtain ⟨o, ho⟩ : ∃ o : ℕ, capObj s.1.mem (capSlot l i) = o := ⟨_, rfl⟩
  have hrun := sysObjRetype_runs systick h hi hold ho ht hsize
  obtain ⟨htype, hlen⟩ := hold.length ho
  have hlive : o ∈ Sys.live boot s.2 := ho ▸ h.named hi hold.perm_ne
  have hcap : objType s.1.mem o ≠ objCaplist := by
    rw [htype]
    decide
  have huo : u ≠ o := h.ne (by rw [htype]; decide)
  have hclean : ((t : ℤ) = (objCaplist : ℤ)) → ∀ c, procFindCap u ((i * 4096 : ℕ) : ℤ) s.1 = some c →
      ∀ j, 255 ≤ j → j < clistCaps → capPerm s.1.mem (capSlot (capObj s.1.mem c) j) = 0 := by
    intro htc c hc j h1 h2
    rw [h.find hi] at hc
    cases hc
    rw [ho]
    unfold clistCaps at h2
    have hzero := hold.clean rfl (hpage (by exact_mod_cast htc)) o
    have hbyte (x : ℕ) (hx1 : o + 12 ≤ x) (hx2 : x < o + 4096) : s.1.mem x = 0 := hzero x ho hx1 hx2
    unfold capPerm Bytes.get32 capSlot
    rw [hbyte _ (by omega) (by omega), hbyte _ (by omega) (by omega), hbyte _ (by omega) (by omega),
      hbyte _ (by omega) (by omega)]
    rfl
  have hown := sysObjRetype_owned h.owned (cidOk hi) ⟨by omega, by exact_mod_cast ht.2⟩ hclean hrun
  obtain ⟨k', hk⟩ : ∃ k', k' = objInit systick t o 1 { s.1 with mem := setHead o t 1 s.1.mem } := ⟨_, rfl⟩
  rw [← hk] at hrun hown
  have hout (x : ℕ) (hx : x < o ∨ o + m ≤ x) : k'.mem x = s.1.mem x := by
    rw [hk]
    exact objInit_outside (objSize_one ht) (by omega)
  have hsame (b : ℕ) (hb : b ∈ Sys.live boot s.2) (hbo : b ≠ o) : Untouched s.1.mem k'.mem b :=
    h.untouched hb (hlen ▸ h.owned.part.packed.apart b hb o hlive hbo) fun x hx _ => hout x hx
  have hagree (n : ℕ) (hn : n < clistCaps) : Agree k'.mem s.1.mem (capSlot l n) 8 := by
    intro x h1 h2
    have hap := h.slot_apart hn hlive hcap
    rw [hlen] at hap
    unfold Apart at hap
    exact hout x (by omega)
  have hobj : capObj k'.mem (capSlot l i) = o :=
    (get32_congr ((hagree i hi).mono (by omega) (by omega))).trans ho
  have hnew : objType k'.mem o = t := by
    rw [hk]
    exact objInit_type o 1 s.1 systick ht.2
  refine ⟨_, _, hrun, ?_, ?_, ⟨?_, ?_, ?_, ?_⟩, hobj.trans ho.symm⟩
  · apply h.after hown
    · rw [hk, objInit_proc huo]
    · rw [live_concat]
      exact h.live
    · exact hsame u h.live huo
  · intro n hn hni
    refine h.keeps hi ho hold.perm_ne (by rw [htype]; decide) hn hni (hagree n hn) fun b hbl hbo => ?_
    refine ⟨hsame b hbl hbo, ?_⟩
    rw [origin_concat]
    show Function.update (origin boot s.2) o m b = origin boot s.2 b
    rw [Function.update_of_ne hbo]
  · exact (get32_congr ((hagree i hi).mono (by omega) (by omega))).trans hold.perm
  · show objType k'.mem (capObj k'.mem _) = t
    rw [hobj, hnew]
  · show objRoom boot (k', _) (capObj k'.mem _) = m
    unfold objRoom
    rw [hobj, hnew, if_neg (by unfold objUntyped; omega), origin_concat]
    exact Function.update_self ..
  · intro h0
    unfold objUntyped at h0
    omega

end Retype

section Create

variable {boot : List (ℕ × ℕ)} {s : Kernel × List Making} {u l i j o f : ℕ}

structure NamesFrame (l i : ℕ) (s : Kernel × List Making) (len : ℕ) : Prop where
  perm : capPerm s.1.mem (capSlot l i) = capWrite ||| capRead
  type : objType s.1.mem (capObj s.1.mem (capSlot l i)) = objFrame
  frame : frameType s.1.mem (capObj s.1.mem (capSlot l i)) = frameMem
  length : frameLen s.1.mem (capObj s.1.mem (capSlot l i)) = len

def pageMem (o : ℕ) (mem : Bytes) : Bytes :=
  objUntypedInit o 4096 (setHead o objUntyped 0 (mem.fill o 4096 0))

theorem pageMem_outside {x : ℕ} {mem : Bytes} (hx : x < o ∨ o + 4096 ≤ x) : pageMem o mem x = mem x := by
  unfold pageMem
  rw [untyped_outside (by omega), fill_outside x hx]

theorem pageMem_clean {x : ℕ} {mem : Bytes} (h1 : o + 12 ≤ x) (h2 : x < o + 4096) : pageMem o mem x = 0 := by
  unfold pageMem
  rw [untyped_outside (by omega), fill_inside x (by omega) h2]

def createMem (o f fc nc : ℕ) (mem : Bytes) : Bytes :=
  setCap fc 0 0 ((setCap nc (capWrite ||| capRead) o (pageMem o mem)).put32 (f + 16) frameKobj)

theorem createMem_outside {fc nc x : ℕ} {mem : Bytes} (hf : x < f + 16 ∨ f + 20 ≤ x)
    (hfc : x < fc ∨ fc + 8 ≤ x) (hnc : x < nc ∨ nc + 8 ≤ x) : createMem o f fc nc mem x = pageMem o mem x := by
  unfold createMem
  rw [setCap_outside hfc, put32_outside x (by omega), setCap_outside hnc]

theorem sysObjCreate_runs (fuel : ℕ) (h : Process boot u l s) (hi : i < clistCaps) (hj : j < clistCaps)
    (hframe : NamesFrame l i s 4096) (hf : capObj s.1.mem (capSlot l i) = f)
    (hfree : capPerm s.1.mem (capSlot l j) = 0) (ho : o ≠ 0) :
    sysObjCreate (fuel + 1) o u ((i * 4096 : ℕ) : ℤ) ((j * 4096 : ℕ) : ℤ) s.1 = some (OK, [.mapped o 4096],
      { s.1 with mem := createMem o f (capSlot l i) (capSlot l j) s.1.mem }) := by
  have htype := hframe.type
  have hmem := hframe.frame
  have hlen := hframe.length
  rw [hf] at htype hmem hlen
  have hpage : isPageDoubled 4096 (fuel + 1) 4096 = some true := rfl
  have hhead : ((s.1.mem.fill o 4096 0).put32 o 0).put32 (o + 4) objUntyped =
      setHead o objUntyped 0 (s.1.mem.fill o 4096 0) := put32_comm (by omega)
  unfold sysObjCreate
  rw [h.find hi, h.find hj]
  simp only [hf, hframe.perm, htype, hmem, hlen, hfree, hpage]
  rw [if_neg (by simp), if_neg (by decide), if_neg (by simp), if_neg (by simp), if_neg ho, hhead]
  rfl

/-- A process turns the frame `f` of one page, which its slot `i` names, into the untyped memory `o` of its empty
slot `j`. -/
structure Creates (boot : List (ℕ × ℕ)) (u l i j o f : ℕ) (s : Kernel × List Making) : Prop where
  proc : Process boot u l s
  ltFrame : i < clistCaps
  ltNew : j < clistCaps
  frame : NamesFrame l i s 4096
  obj : capObj s.1.mem (capSlot l i) = f
  free : capPerm s.1.mem (capSlot l j) = 0
  fresh : Fresh boot s.2 o 4096

section Creates

variable {b n : ℕ} (h : Creates boot u l i j o f s)

include h

theorem Creates.perm : capPerm s.1.mem (capSlot l i) ≠ 0 := by
  rw [h.frame.perm]
  decide

theorem Creates.ne : i ≠ j := by
  rintro rfl
  exact h.perm h.free

theorem Creates.type : objType s.1.mem f = objFrame := h.obj ▸ h.frame.type

theorem Creates.live : f ∈ Sys.live boot s.2 := h.obj ▸ h.proc.named h.ltFrame h.perm

theorem Creates.len : objLen s.1.mem f = 28 := by
  unfold objLen
  rw [h.type]
  rfl

theorem Creates.notList : objType s.1.mem f ≠ objCaplist := by
  rw [h.type]
  decide

theorem Creates.new : o ∉ Sys.live boot s.2 := h.fresh.new h.proc.owned (by omega)

theorem Creates.out (hb : b ∈ Sys.live boot s.2) : Apart b (objLen s.1.mem b) o 4096 :=
  h.fresh.out h.proc.owned (by omega) hb

theorem Creates.slot (hn : n < clistCaps) : Apart (capSlot l n) 8 o 4096 ∧ Apart (capSlot l n) 8 f 28 := by
  obtain ⟨hl, htl⟩ := h.proc.owned.root u l h.proc.root
  have hap := h.out hl
  rw [objLen_caplist htl] at hap
  refine ⟨?_, h.len ▸ h.proc.slot_apart hn h.live h.notList⟩
  unfold clistCaps at hn
  unfold Apart capSlot at *
  omega

/-- Other objects keep all but their slots. -/
theorem Creates.same (hb : b ∈ Sys.live boot s.2) (hbf : b ≠ f) :
    Untouched s.1.mem (createMem o f (capSlot l i) (capSlot l j) s.1.mem) b := by
  intro x h1 h2
  have hap := h.out hb
  have hapf := h.proc.owned.part.packed.apart b hb f h.live hbf
  have hlarge := h.proc.owned.part.large b hb
  rw [h.len] at hapf
  unfold Apart at hap hapf
  rw [createMem_outside (by omega) (h.proc.owned.part.head_apart (h.proc.slot h.ltFrame) hb h1 h2)
    (h.proc.owned.part.head_apart (h.proc.slot h.ltNew) hb h1 h2), pageMem_outside (by omega)]

theorem Creates.slots (hn : n < clistCaps) (hni : n ≠ i) (hnj : n ≠ j) :
    Agree (createMem o f (capSlot l i) (capSlot l j) s.1.mem) s.1.mem (capSlot l n) 8 := by
  intro x h1 h2
  obtain ⟨hap, hapf⟩ := h.slot hn
  have hapi := slots_apart (l := l) hni
  have hapj := slots_apart (l := l) hnj
  unfold Apart at hap hapf hapi hapj
  rw [createMem_outside (by omega) (by omega) (by omega), pageMem_outside (by omega)]

theorem Creates.page : Agree (createMem o f (capSlot l i) (capSlot l j) s.1.mem) (pageMem o s.1.mem) o 4096 := by
  intro x h1 h2
  obtain ⟨hapi, -⟩ := h.slot h.ltFrame
  obtain ⟨hapj, -⟩ := h.slot h.ltNew
  have hapf := h.out h.live
  rw [h.len] at hapf
  unfold Apart at hapi hapj hapf
  rw [createMem_outside (by omega) (by omega) (by omega)]

theorem Creates.named : Agree (createMem o f (capSlot l i) (capSlot l j) s.1.mem)
    (setCap (capSlot l j) (capWrite ||| capRead) o (pageMem o s.1.mem)) (capSlot l j) 8 := by
  intro x h1 h2
  obtain ⟨-, hapf⟩ := h.slot h.ltNew
  have hapi := slots_apart (l := l) h.ne
  unfold Apart at hapf hapi
  unfold createMem
  rw [setCap_outside (by omega), put32_outside x (by omega)]

theorem Creates.capObj_new :
    capObj (createMem o f (capSlot l i) (capSlot l j) s.1.mem) (capSlot l j) = o := by
  have hobj : capObj (setCap (capSlot l j) (capWrite ||| capRead) o (pageMem o s.1.mem)) (capSlot l j) = o := by
    have hfits := h.fresh.fits.2
    rw [setCap_obj, Nat.mod_eq_of_lt (by omega)]
  exact (get32_congr (h.named.mono (by omega) (by omega))).trans hobj

theorem Creates.capPerm_new :
    capPerm (createMem o f (capSlot l i) (capSlot l j) s.1.mem) (capSlot l j) = capWrite ||| capRead := by
  have hperm : capPerm (setCap (capSlot l j) (capWrite ||| capRead) o (pageMem o s.1.mem)) (capSlot l j) =
      capWrite ||| capRead := setCap_perm
  exact (get32_congr (h.named.mono (by omega) (by omega))).trans hperm

end Creates

theorem sysObjCreate_effect (fuel : ℕ) (h : Process boot u l s) (hi : i < clistCaps) (hj : j < clistCaps)
    (hframe : NamesFrame l i s 4096) (hfree : capPerm s.1.mem (capSlot l j) = 0)
    (hfresh : Fresh boot s.2 o 4096) :
    ∃ ev k', sysObjCreate (fuel + 1) o u ((i * 4096 : ℕ) : ℤ) ((j * 4096 : ℕ) : ℤ) s.1 = some (OK, ev, k') ∧
      Process boot u l (k', s.2 ++ ev) ∧
      (∀ n < clistCaps, n ≠ i → n ≠ j → Keeps boot l n s (k', s.2 ++ ev)) ∧
      Names boot l j (k', s.2 ++ ev) objUntyped 4096 ∧ capObj k'.mem (capSlot l j) ∉ Sys.live boot s.2 := by
  obtain ⟨f, hf⟩ : ∃ f : ℕ, capObj s.1.mem (capSlot l i) = f := ⟨_, rfl⟩
  have hc : Creates boot u l i j o f s := ⟨h, hi, hj, hframe, hf, hfree, hfresh⟩
  have hrun := sysObjCreate_runs fuel h hi hj hframe hf hfree (Nat.ne_of_gt hfresh.fits.1)
  have hown : Owned boot _ (s.2 ++ [.mapped o 4096]) :=
    sysObjCreate_owned h.owned (cidOk hi) (cidOk hj) (fun len hl => by
      cases List.mem_singleton.mp hl
      exact hfresh) hrun
  have hsame := fun b => @Creates.same boot s u l i j o f b hc
  have hslots := fun n => @Creates.slots boot s u l i j o f n hc
  have hpage := hc.page
  have hobj := hc.capObj_new
  have hperm := hc.capPerm_new
  generalize createMem o f (capSlot l i) (capSlot l j) s.1.mem = mem at *
  refine ⟨_, _, hrun, ?_, ?_, ?_, ?_⟩
  · apply h.after hown rfl
    · rw [live_concat]
      exact .inr h.live
    · exact hsame u h.live (h.ne (by rw [hc.type]; decide))
  · intro n hn hni hnj
    refine h.keeps hi hf hc.perm (by rw [hc.type]; decide) hn hni (hslots n hn hni hnj) fun b hbl hbf => ?_
    have hbo : b ≠ o := by
      rintro rfl
      exact hc.new hbl
    refine ⟨hsame b hbl hbf, ?_⟩
    rw [origin_concat]
    show Function.update (origin boot s.2) o 4096 b = origin boot s.2 b
    rw [Function.update_of_ne hbo]
  · apply names_untyped _ hobj
    · rw [objType_congr (hpage.mono (by omega) (by omega))]
      exact untyped_type
    · rw [objLen_congr (hpage.mono (by omega) (by omega))]
      exact untyped_len (by decide)
    · intro _ x h1 h2
      show mem x = 0
      rw [hpage x (by omega) h2, pageMem_clean h1 h2]
    · exact hperm
  · show capObj mem _ ∉ _
    rw [hobj]
    exact hc.new

end Create

end Agatha.Sys
