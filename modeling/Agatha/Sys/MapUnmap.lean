import Agatha.Sys.CapabilityRuns
import Agatha.Sys.Mappings
import Agatha.Sys.Panics

namespace Agatha.Sys

open Kernel Library Library.Bytes Library.Areas

def walkLens (va len : ℕ) : List ℕ := 0x4000 :: openings va (pageCount len) 0 none

def mappedEntry (mem : Bytes) (ff : Addr) (cache : Bool) (i : ℕ) : ℕ :=
  (framePa mem ff + 4096 * i) ||| pageBits apRwRw (if frameType mem ff = frameDev then false else cache)

structure Mappable (u : Addr) (tid cid : ℤ) (va : ℕ) (m : Machine) (tc tf fc ff : Addr) : Prop where
  tid : findFrame u tid m = some tc
  cid : findFrame u cid m = some fc
  table : capObj m.kernel.mem tc = tf
  frame : capObj m.kernel.mem fc = ff
  l1 : frameType m.kernel.mem tf = frameL1
  type : frameType m.kernel.mem ff = frameMem ∨ frameType m.kernel.mem ff = frameDev
  pa : framePa m.kernel.mem ff % 4096 = 0 ∧ framePa m.kernel.mem ff ≠ 0
  len : 0 < frameLen m.kernel.mem ff
  tables : Tabled m (framePa m.kernel.mem tf) va (frameLen m.kernel.mem ff)
  free : ∀ i < pageCount (frameLen m.kernel.mem ff), l2Entry m (framePa m.kernel.mem tf) va i = 0

section Calls

variable {m m' : Machine} {u : Addr} {tid cid nid : ℤ} {va fuel tc fc nc tf ff f tpa len pa : ℕ} {cache : Bool}

theorem Shows.refl (h₀ : Bumped m []) : Shows m m.phys [] m := ⟨rfl, rfl, rfl, h₀, le_refl _, fun _ _ => rfl, nofun⟩

theorem l1_paged : Paged 0x4000 := ⟨by decide, by decide, by decide⟩

theorem sysFrameMap_comes (cache : Bool) (h₀ : Bumped m []) (hv : m.Vacant) (h : Mappable u tid cid va m tc tf fc ff)
    (hfuel : pageCount (frameLen m.kernel.mem ff) < fuel) :
    (¬ Placeable m.vaMax (walkLens va (frameLen m.kernel.mem ff)) m.vaNext ∧ (sysFrameMap fuel u tid cid va cache m).Lost) ∨
    (Placeable m.vaMax (walkLens va (frameLen m.kernel.mem ff)) m.vaNext ∧ ∃ wrote m',
      sysFrameMap fuel u tid cid va cache m =
        .ret OK wrote (m'.setMem (setCap fc 0 0 (pushFrame tf ff va m.kernel.mem))) ∧
      m'.vaNext = windowAfter (walkLens va (frameLen m.kernel.mem ff)) m.vaNext ∧
      Shows m (setPages m (framePa m.kernel.mem tf) va (mappedEntry m.kernel.mem ff cache)
        (pageCount (frameLen m.kernel.mem ff))) [] m') := by
  obtain ⟨htid, hcid, rfl, rfl, hl1, htype, -, -, hT, hfree⟩ := h
  have hnot : ¬ (frameType m.kernel.mem (capObj m.kernel.mem fc) ≠ frameMem ∧
      frameType m.kernel.mem (capObj m.kernel.mem fc) ≠ frameDev) := by tauto
  unfold sysFrameMap frameMapAt
  rw [htid, hcid]
  simp only
  rw [if_neg (not_not.mpr hl1), if_neg hnot]
  by_cases hfit : windowBase 0x4000 m.vaNext + 0x4000 < m.vaMax
  · obtain ⟨l1, m', hmap, hshows, hnext⟩ :=
      (Shows.refl h₀).map (framePa m.kernel.mem (capObj m.kernel.mem tc)) true h₀ hv l1_paged hfit
    have hcomes := frameMapLoop_stands (framePa m.kernel.mem (capObj m.kernel.mem fc)) (pageBits apRwRw
        (if frameType m.kernel.mem (capObj m.kernel.mem fc) = frameDev then false else cache)) fuel
      (fun wrote m' => .ret OK wrote (m'.setMem (setCap fc 0 0
        (pushFrame (capObj m.kernel.mem tc) (capObj m.kernel.mem fc) va m'.kernel.mem)))) [] h₀ hv hT get32_lt hfree
      (Nat.zero_le _) (by omega) (.start hshows)
    rw [hmap]
    simp only [Mapping.andThen, hshows.kernel]
    unfold Comes at hcomes
    rw [hnext, Nat.mul_zero] at hcomes
    rcases hcomes with ⟨hno, hlost⟩ | ⟨hyes, wrote, m₁, he, hva, hshows₁⟩
    · exact .inl ⟨fun hall => hno hall.2, hlost⟩
    · rw [hshows₁.kernel] at he
      exact .inr ⟨⟨hfit, hyes⟩, wrote, m₁, he, hva, hshows₁⟩
  · exact .inl ⟨fun hall => hfit hall.1, kernelMap_lost h₀ l1_paged hfit _⟩

/-- `sys_frame_unmap` finds an L1 frame, an empty slot, and behind the link `f` the frame `ff` at `va`, which is mapped
from `pa` on. The machine `m₀` is the one when `ff` has been taken off the list. -/
structure Unmappable (u : Addr) (tid nid : ℤ) (va fuel : ℕ) (m : Machine) (tc tf nc ff f : Addr) (pa : ℕ)
    (m₀ : Machine) : Prop where
  tid : findFrame u tid m = some tc
  nid : procFindCapType u nid 0 0 m.kernel = some nc
  table : capObj m.kernel.mem tc = tf
  l1 : frameType m.kernel.mem tf = frameL1
  found : findMapped va m.kernel.mem fuel (tf + 24) = some (some f)
  frame : m.kernel.mem.get32 f = ff
  unlinked : m.setMem (unlinkFrame f m.kernel.mem) = m₀
  first : pa ≠ 0 ∧ pa < 2 ^ 32
  tables : Tabled m₀ (framePa m₀.kernel.mem tf) va (frameLen m₀.kernel.mem ff)
  mapped : ∀ i < pageCount (frameLen m₀.kernel.mem ff), l2Entry m₀ (framePa m₀.kernel.mem tf) va i ≠ 0 ∧
    l2pa (l2Entry m₀ (framePa m₀.kernel.mem tf) va i) = (pa + 4096 * i) % 2 ^ 32

theorem sysFrameUnmap_comes {m₀ : Machine} (h₀ : Bumped m₀ []) (hv : m₀.Vacant)
    (h : Unmappable u tid nid va fuel m tc tf nc ff f pa m₀) (hfuel : pageCount (frameLen m₀.kernel.mem ff) < fuel) :
    (¬ Placeable m₀.vaMax (walkLens va (frameLen m₀.kernel.mem ff)) m₀.vaNext ∧ (sysFrameUnmap fuel u tid nid va m).Lost) ∨
    (Placeable m₀.vaMax (walkLens va (frameLen m₀.kernel.mem ff)) m₀.vaNext ∧ ∃ wrote m',
      sysFrameUnmap fuel u tid nid va m =
        .ret OK wrote (m'.setMem (setCap nc (capRead ||| capWrite) ff m₀.kernel.mem)) ∧
      Shows m₀ (setPages m₀ (framePa m₀.kernel.mem tf) va (fun _ => 0) (pageCount (frameLen m₀.kernel.mem ff))) [] m') := by
  obtain ⟨htid, hnid, rfl, hl1, hfound, rfl, hunlinked, hpa, hT, hmapped⟩ := h
  have hmem : ((m.kernel.mem.put32 f (frameNext m.kernel.mem (m.kernel.mem.get32 f))).put32
      (m.kernel.mem.get32 f + 24) 0).put32 (m.kernel.mem.get32 f + 20) 0 = unlinkFrame f m.kernel.mem := rfl
  unfold sysFrameUnmap frameUnmapAt
  rw [htid, hnid]
  simp only
  rw [if_neg (not_not.mpr hl1), hfound]
  simp only
  rw [hmem, hunlinked]
  by_cases hfit : windowBase 0x4000 m₀.vaNext + 0x4000 < m₀.vaMax
  · obtain ⟨l1, m', hmap, hshows, hnext⟩ :=
      (Shows.refl h₀).map (framePa m₀.kernel.mem (capObj m.kernel.mem tc)) true h₀ hv l1_paged hfit
    have hcomes := frameUnmapLoop_stands fuel
      (fun wrote m' => .ret OK wrote (m'.setMem (setCap nc (capRead ||| capWrite) (m.kernel.mem.get32 f) m'.kernel.mem)))
      [] h₀ hv hT get32_lt hpa hmapped (Nat.zero_le _) (by omega) (.start hshows)
    rw [hmap]
    simp only [Mapping.andThen, hshows.kernel]
    unfold Comes at hcomes
    rw [hnext, Nat.mul_zero, if_pos rfl] at hcomes
    rcases hcomes with ⟨hno, hlost⟩ | ⟨hyes, wrote, m₁, he, hva, hshows₁⟩
    · exact .inl ⟨fun hall => hno hall.2, hlost⟩
    · rw [hshows₁.kernel] at he
      exact .inr ⟨⟨hfit, hyes⟩, wrote, m₁, he, hshows₁⟩
  · exact .inl ⟨fun hall => hfit hall.1, kernelMap_lost h₀ l1_paged hfit _⟩

end Calls

section Memory

variable {boot : List (ℕ × ℕ)} {g : List Making} {k : Kernel} {u : Addr} {cid : ℤ} {a tc fc nc tf ff va x o : ℕ}
  {mem b : Bytes}

/-- Two frames and a slot that names the second: what the calls write lies apart, and apart from all other slots and
from the heads of the capability lists. -/
structure Pushed (boot : List (ℕ × ℕ)) (g : List Making) (k : Kernel) (tf ff fc : Addr) (mem : Bytes) : Prop where
  slot : IsSlot k.mem (live boot g) fc
  used : capPerm k.mem fc ≠ 0
  names : capObj k.mem fc = ff
  table : tf ∈ live boot g ∧ objType k.mem tf = objFrame
  frame : ff ∈ live boot g ∧ objType k.mem ff = objFrame
  apart : tf ≠ ff
  outside : ∀ x, ¬ Within (fc, 8) x → ¬ Within (tf + 24, 4) x → ¬ Within (ff + 20, 8) x → mem x = k.mem x

theorem Within.widen {r s : ℕ × ℕ} (h : Within r x) (h1 : s.1 ≤ r.1) (h2 : r.1 + r.2 ≤ s.1 + s.2) : Within s x :=
  ⟨h1.trans h.1, Nat.lt_of_lt_of_le h.2 h2⟩

theorem Pushed.slot_same (h : Pushed boot g k tf ff fc mem) (ho : Owned boot k g)
    (ha : IsSlot k.mem (live boot g) a) (hne : a ≠ fc) : capPerm mem a = capPerm k.mem a ∧ capObj mem a = capObj k.mem a := by
  have h1 := ho.part.slot_apart ha h.slot hne
  have h2 := ho.part.slot_off ha h.table.1 (by rw [h.table.2]; decide)
  have h3 := ho.part.slot_off ha h.frame.1 (by rw [h.frame.2]; decide)
  rw [objLen_frame h.table.2] at h2
  rw [objLen_frame h.frame.2] at h3
  unfold Apart at h1 h2 h3
  have hsame : Agree mem k.mem a 8 := fun x hx1 hx2 => h.outside x (by rw [within_iff]; omega)
    (by rw [within_iff]; omega) (by rw [within_iff]; omega)
  exact ⟨get32_congr (hsame.mono (by omega) (by omega)), get32_congr (hsame.mono (by omega) (by omega))⟩

theorem Pushed.head_same (h : Pushed boot g k tf ff fc mem) (ho : Owned boot k g) (hl : o ∈ live boot g) (hx : o ≤ x)
    (hx' : x < o + 8 ∨ objType k.mem o = objFrame ∧ x < o + 20) : mem x = k.mem x := by
  have hslot : x < fc ∨ fc + 8 ≤ x := by
    apply ho.part.head_apart h.slot hl hx
    refine hx'.imp_right fun hf => ⟨by rw [hf.1]; decide, ?_⟩
    rw [objLen_frame hf.1]
    omega
  have hlen := ho.part.large o hl
  have hoff : ∀ f ∈ live boot g, objType k.mem f = objFrame → ¬ Within (f + 20, 8) x := by
    intro f hf ht hin
    rw [within_iff] at hin
    by_cases he : o = f
    · omega
    · have hap := ho.part.packed.apart o hl f hf he
      rw [objLen_frame ht] at hap
      unfold Apart at hap
      rcases hx' with hx' | ⟨hx', hlt⟩
      · omega
      · rw [objLen_frame hx'] at hap
        omega
  exact h.outside x (by rw [within_iff]; omega) (fun hin => hoff tf h.table.1 h.table.2 (hin.widen (by omega) (by omega)))
    (hoff ff h.frame.1 h.frame.2)

theorem Pushed.find_same (h : Pushed boot g k tf ff fc mem) (ho : Owned boot k g) (hc : CidOk cid)
    (hf : procFindCap u cid k = some a) : procFindCap u cid { k with mem := mem } = some a := by
  unfold procFindCap at hf ⊢
  cases hl : (k.proc u).capRoot with
  | none =>
    rw [hl] at hf
    cases hf
  | some l =>
    rw [hl] at hf
    obtain ⟨hlive, htype⟩ := ho.root u l hl
    have hfit := (ho.part.fits l hlive).2
    rw [objLen_caplist htype] at hfit
    obtain ⟨⟨h0, h1⟩, h2⟩ := hc
    unfold clistCaps at h1
    have hbase : (((l : ℤ) + 8 + 8 * (cid / 4096)) % 2 ^ 32).toNat = capSlot l (cid / 4096).toNat := by
      unfold capSlot
      omega
    have hslot : IsSlot k.mem (live boot g) (capSlot l (cid / 4096).toNat) :=
      ⟨l, hlive, htype, (cid / 4096).toNat, by unfold clistCaps; omega, rfl⟩
    simp only [hbase] at hf ⊢
    split_ifs at hf with hge hs hr ht hsub
    · rw [if_neg hge, if_pos hs]
      exact hf
    · have hperm : capPerm k.mem (capSlot l (cid / 4096).toNat) ≠ 0 := land_ne_zero hr
      have hne : capSlot l (cid / 4096).toNat ≠ fc := by
        intro he
        rw [he, h.names, h.frame.2] at ht
        exact ht (by decide)
      obtain ⟨hp, hobj⟩ := h.slot_same ho hslot hne
      have hnamed := ho.part.named _ hslot hperm
      have htype' : objType mem (capObj k.mem (capSlot l (cid / 4096).toNat)) =
          objType k.mem (capObj k.mem (capSlot l (cid / 4096).toNat)) :=
        get32_congr fun x h1 h2 => h.head_same ho hnamed (by omega) (.inl (by omega))
      rw [if_neg hge, if_neg hs, hp, if_neg hr, hobj, htype', if_neg ht, if_neg hsub]
      exact hf

structure Mapped (k : Kernel) (tf ff fc va : ℕ) (mem : Bytes) : Prop where
  empty : capPerm mem fc = 0
  head : frameNext mem tf = ff
  va : frameVa mem ff = va
  next : frameNext mem ff = frameNext k.mem tf

theorem pushFrame_outside (h1 : ¬ Within (tf + 24, 4) x) (h2 : ¬ Within (ff + 20, 8) x) :
    pushFrame tf ff va mem x = mem x := by
  unfold Within at h1 h2
  simp only at h1 h2
  unfold pushFrame
  rw [put32_outside x (by omega), put32_outside x (by omega), put32_outside x (by omega)]

theorem Owned.pushed (ho : Owned boot k g) (hslot : IsSlot k.mem (live boot g) fc) (hused : capPerm k.mem fc ≠ 0)
    (hnames : capObj k.mem fc = ff) (ht : tf ∈ live boot g ∧ objType k.mem tf = objFrame)
    (hf : objType k.mem ff = objFrame) (hne : tf ≠ ff) (hva : va < 2 ^ 32) :
    Pushed boot g k tf ff fc (setCap fc 0 0 (pushFrame tf ff va k.mem)) ∧
      Mapped k tf ff fc va (setCap fc 0 0 (pushFrame tf ff va k.mem)) := by
  have hl : ff ∈ live boot g := hnames ▸ ho.part.named fc hslot hused
  have hlt : ff < 2 ^ 32 := ho.part.addr_lt hl
  have hap := frames_apart ho ht.1 hl ht.2 hf hne
  have h1 := ho.part.slot_off hslot ht.1 (by rw [ht.2]; decide)
  have h2 := ho.part.slot_off hslot hl (by rw [hf]; decide)
  rw [objLen_frame ht.2] at h1
  rw [objLen_frame hf] at h2
  unfold Apart at hap h1 h2
  have hword : ∀ o, (o + 4 ≤ fc ∨ fc + 8 ≤ o) →
      (setCap fc 0 0 (pushFrame tf ff va k.mem)).get32 o = (pushFrame tf ff va k.mem).get32 o :=
    fun o ho => get32_congr fun x h3 h4 => setCap_outside (by omega)
  have hnext : frameNext (k.mem.put32 (ff + 20) va) tf = frameNext k.mem tf := get32_put32_ne (by omega)
  refine ⟨⟨hslot, hused, hnames, ht, ⟨hl, hf⟩, hne, fun x hx hx1 hx2 => ?_⟩, ⟨setCap_perm, ?_, ?_, ?_⟩⟩
  · rw [within_iff] at hx
    rw [setCap_outside (by omega), pushFrame_outside hx1 hx2]
  · refine (hword (tf + 24) (by omega)).trans ?_
    unfold pushFrame
    rw [get32_put32_same, Nat.mod_eq_of_lt hlt]
  · refine (hword (ff + 20) (by omega)).trans ?_
    unfold pushFrame
    simp only
    rw [get32_put32_ne (by omega), get32_put32_ne (by omega), get32_put32_same, Nat.mod_eq_of_lt hva]
  · refine (hword (ff + 24) (by omega)).trans ?_
    unfold pushFrame
    simp only
    rw [hnext, get32_put32_ne (by omega), get32_put32_same]
    exact Nat.mod_eq_of_lt get32_lt

theorem Pushed.unlink (ho : Owned boot k g) (h : Pushed boot g k tf ff fc mem) (hm : Mapped k tf ff fc va mem)
    (hx : ¬ Within (fc, 8) x) (hx' : ¬ Within (ff + 20, 8) x) : unlinkFrame (tf + 24) mem x = k.mem x := by
  have hap := frames_apart ho h.table.1 h.frame.1 h.table.2 h.frame.2 h.apart
  have hhead : mem.get32 (tf + 24) = ff := hm.head
  have hin := hx'
  rw [within_iff] at hin
  unfold Apart at hap
  unfold unlinkFrame
  rw [hhead, hm.next]
  rw [put32_outside x (by omega), put32_outside x (by omega)]
  by_cases hlink : Within (tf + 24, 4) x
  · obtain ⟨h1, h2⟩ := hlink
    rw [put32_inside (c := k.mem) x h1 h2]
    exact congrFun put32_get32 x
  · have hout := hlink
    rw [within_iff] at hout
    rw [put32_outside x (by omega)]
    exact h.outside x hx hlink hx'

end Memory

section Entries

variable {m m₀ m' : Machine} {tpa va len i : ℕ} {v : ℕ → ℕ}

theorem Tabled.congr (h : Tabled m tpa va len) (hentry : ∀ i, l1Entry m₀ tpa va i = l1Entry m tpa va i)
    (hwindow : ∀ x, m₀.InWindow x ↔ m.InWindow x) : Tabled m₀ tpa va len := by
  obtain ⟨aligned, length, bound, there, coarse, l1Outside, l2Outside, l1Apart, l2Apart⟩ := h
  refine ⟨aligned, length, bound, ?_, ?_, fun b hb => mt (hwindow _).mp (l1Outside b hb), ?_, ?_, ?_⟩
  · intro i hi
    rw [hentry]
    exact there i hi
  · intro i hi
    rw [hentry]
    exact coarse i hi
  · intro i hi b hb
    rw [hentry, hwindow]
    exact l2Outside i hi b hb
  · intro i hi
    rw [hentry]
    exact l1Apart i hi
  · intro i hi j hj
    rw [hentry, hentry]
    exact l2Apart i hi j hj

theorem Shows.window_iff (h₀ : Bumped m []) {P : Bytes} (h : Shows m P [] m') {x : ℕ} : m'.InWindow x ↔ m.InWindow x := by
  obtain ⟨hmin, hmax, -⟩ := h.tables 0 h₀
  unfold Machine.InWindow Machine.tableCount
  rw [hmin, hmax, h.l2]

theorem Shows.phys_eq {P : Bytes} (h : Shows m P [] m') : m'.phys = P := funext fun x => h.phys x nofun

theorem Shows.vacant {P : Bytes} (h₀ : Bumped m []) (hv : m.Vacant) (hP : ∀ x, m.InWindow x → P x = m.phys x)
    (h : Shows m P [] m') : m'.Vacant := by
  intro y hy hy' b hb
  obtain ⟨hmin, hmax, -, hcount, htable⟩ := h.tables y h₀
  have hnext := h.next
  rw [htable, h.phys_eq, hP]
  · exact hv y (by omega) (by omega) b hb
  · obtain ⟨vaMin, vaMax, low, high, -⟩ := h₀
    have hlow : l1x 0xff000000 ≤ l1x y ∧ l1x y < l1x 0xff000000 + 15 := by
      unfold l1x
      omega
    have hl2 := @l2x_lt y
    unfold Machine.InWindow Machine.windowTable
    rw [hcount, vaMin]
    omega

theorem pageBits_lt (cache : Bool) : 0 < pageBits apRwRw cache ∧ pageBits apRwRw cache < 512 := by
  cases cache <;> decide

theorem entry_page (bits x : ℕ) (hx : x % 4096 = 0) (hb : 0 < bits ∧ bits < 512) :
    (x ||| bits) % 2 ^ 32 ≠ 0 ∧ l2pa ((x ||| bits) % 2 ^ 32) = x % 2 ^ 32 := by
  have hor : x ||| bits = x + bits := by
    have hlt : bits < 2 ^ 12 := by omega
    have hsum := Nat.two_pow_add_eq_or_of_lt hlt (x / 4096)
    have hdiv : 2 ^ 12 * (x / 4096) = x := by omega
    rw [hdiv] at hsum
    exact hsum.symm
  rw [hor]
  unfold l2pa
  omega

theorem setPages_clear (hT : Tabled m tpa va len) (hfree : ∀ i < pageCount len, l2Entry m tpa va i = 0)
    (hphys : m₀.phys = setPages m tpa va v (pageCount len)) (hT₀ : Tabled m₀ tpa va len) :
    setPages m₀ tpa va (fun _ => 0) (pageCount len) = m.phys := by
  have hat : ∀ i, l2At m₀ tpa va i = l2At m tpa va i := by
    intro i
    unfold l2At l1Entry
    rw [hphys, setPages_l1 hT (le_refl _)]
    rfl
  funext x
  by_cases hx : ∃ i < pageCount len, l2At m tpa va i ≤ x ∧ x < l2At m tpa va i + 4
  · obtain ⟨i, hi, h1, h2⟩ := hx
    have hcleared := setPages_behind (v := fun _ => 0) hT₀ (le_refl _) hi
    rw [hat] at hcleared
    rw [get32_zero hcleared x h1 h2]
    exact (get32_zero (hfree i hi) x h1 h2).symm
  · push Not at hx
    rw [setPages_outside fun j hj => ?_, hphys, setPages_outside fun j hj => ?_]
    · have hj' := hx j hj
      omega
    · rw [hat]
      have hj' := hx j hj
      omega

end Entries

structure Restored (m : Machine) (tf ff fc nc : Addr) (m' : Machine) : Prop where
  phys : m'.phys = m.phys
  kernel : m'.kernel = { m.kernel with mem := m'.kernel.mem }
  list : frameNext m'.kernel.mem tf = frameNext m.kernel.mem tf
  frame : frameType m'.kernel.mem ff = frameType m.kernel.mem ff ∧ framePa m'.kernel.mem ff = framePa m.kernel.mem ff ∧
    frameLen m'.kernel.mem ff = frameLen m.kernel.mem ff
  cap : capPerm m'.kernel.mem nc = capRead ||| capWrite ∧ capObj m'.kernel.mem nc = ff
  elsewhere : ∀ x, ¬ Within (fc, 8) x → ¬ Within (nc, 8) x → ¬ Within (ff + 20, 8) x →
    m'.kernel.mem x = m.kernel.mem x

def Spared (m : Machine) (tpa va len : ℕ) (m₁ m₂ : Machine) : Prop :=
  ∀ x, (∀ i < pageCount len, ¬ Within (l2At m tpa va i, 4) x) → m₂.phys x = m₁.phys x

section Identity

variable {boot : List (ℕ × ℕ)} {g : List Making} {m m' : Machine} {u : Addr} {tid cid nid : ℤ}
  {va fuel c tc fc nc tf ff : ℕ} {cache : Bool} {mem : Bytes}

theorem Pushed.findFrame_same (h : Pushed boot g m.kernel tf ff fc mem) (ho : Owned boot m.kernel g) (hc : CidOk cid)
    (hf : findFrame u cid m = some c) (hne : c ≠ fc) (hk : m'.kernel = { m.kernel with mem := mem }) :
    findFrame u cid m' = some c := by
  obtain ⟨hslot, hperm, htype, hfound⟩ := findFrame_slot ho hc hf
  obtain ⟨hp, hobj⟩ := h.slot_same ho hslot hne
  have hnamed := ho.part.named c hslot hperm
  have htype' : objType mem (capObj m.kernel.mem c) = objType m.kernel.mem (capObj m.kernel.mem c) :=
    get32_congr fun x h1 h2 => h.head_same ho hnamed (by omega) (.inl (by omega))
  unfold findFrame procFindCapType at hf ⊢
  rw [hfound] at hf
  rw [hk, h.find_same ho hc hfound]
  simp only [hp, hobj, htype']
  exact hf

theorem Pushed.findEmpty_same (h : Pushed boot g m.kernel tf ff fc mem) (ho : Owned boot m.kernel g) (hc : CidOk nid)
    (hf : procFindCap u nid m.kernel = some nc) (hempty : capPerm mem nc = 0)
    (hk : m'.kernel = { m.kernel with mem := mem }) : procFindCapType u nid 0 0 m'.kernel = some nc := by
  unfold procFindCapType
  rw [hk, h.find_same ho hc hf]
  simp only
  rw [if_neg (by rw [Nat.and_zero]; exact not_not.mpr rfl), if_neg fun hn => hn.1 hempty]

theorem Mapped.found (h : Mapped m.kernel tf ff fc va mem) (hff : ff ≠ 0) (htype : frameType mem ff ≠ frameL2)
    (hfuel : 0 < fuel) : findMapped va mem fuel (tf + 24) = some (some (tf + 24)) := by
  obtain ⟨fuel, rfl⟩ : ∃ n, fuel = n + 1 := Nat.exists_eq_add_of_le' hfuel
  have hhead : mem.get32 (tf + 24) = ff := h.head
  unfold findMapped
  simp only [hhead]
  rw [if_neg hff, if_pos ⟨htype, h.va⟩]

theorem Mappable.unmappable (ho : Owned boot m.kernel g) (h₀ : Bumped m []) (ht : CidOk tid)
    (hc : CidOk cid) (hn : CidOk nid) (h : Mappable u tid cid va m tc tf fc ff)
    (hnc : procFindCap u nid m.kernel = some nc) (hempty : nc = fc ∨ capPerm m.kernel.mem nc = 0) (hfuel : 0 < fuel)
    (hshows : Shows m (setPages m (framePa m.kernel.mem tf) va (mappedEntry m.kernel.mem ff cache)
      (pageCount (frameLen m.kernel.mem ff))) [] m') :
    Unmappable u tid nid va fuel (m'.setMem (setCap fc 0 0 (pushFrame tf ff va m.kernel.mem))) tc tf nc ff (tf + 24)
        (framePa m.kernel.mem ff)
        (m'.setMem (unlinkFrame (tf + 24) (setCap fc 0 0 (pushFrame tf ff va m.kernel.mem)))) ∧
      Pushed boot g m.kernel tf ff fc (unlinkFrame (tf + 24) (setCap fc 0 0 (pushFrame tf ff va m.kernel.mem))) ∧
      ∀ x, ¬ Within (fc, 8) x → ¬ Within (ff + 20, 8) x →
        unlinkFrame (tf + 24) (setCap fc 0 0 (pushFrame tf ff va m.kernel.mem)) x = m.kernel.mem x := by
  obtain ⟨hslot, hused, hfobj, -⟩ := findFrame_slot ho hc h.cid
  obtain ⟨htslot, htused, htobj, -⟩ := findFrame_slot ho ht h.tid
  rw [h.frame] at hfobj
  rw [h.table] at htobj
  have htl : tf ∈ live boot g := h.table ▸ ho.part.named tc htslot htused
  have hfl : ff ∈ live boot g := h.frame ▸ ho.part.named fc hslot hused
  have hne : tf ≠ ff := by
    rintro rfl
    have hl1 := h.l1
    rcases h.type with htype | htype
    · rw [hl1] at htype
      cases htype
    · rw [hl1] at htype
      cases htype
  have hslots : tc ≠ fc := by
    rintro rfl
    exact hne (h.table.symm.trans h.frame)
  have hva : va < 2 ^ 32 := by
    have hbound := h.tables.bound
    have hpos := h.len
    omega
  obtain ⟨hpush, hmapped⟩ := ho.pushed hslot hused h.frame ⟨htl, htobj⟩ hfobj hne hva
  generalize setCap fc 0 0 (pushFrame tf ff va m.kernel.mem) = mem at *
  have hunlink : ∀ x, ¬ Within (fc, 8) x → ¬ Within (ff + 20, 8) x → unlinkFrame (tf + 24) mem x = m.kernel.mem x :=
    fun x hx hx' => hpush.unlink ho hmapped hx hx'
  have hpush' : Pushed boot g m.kernel tf ff fc (unlinkFrame (tf + 24) mem) :=
    ⟨hpush.slot, hpush.used, hpush.names, hpush.table, hpush.frame, hpush.apart, fun x hx _ hx' => hunlink x hx hx'⟩
  refine ⟨?_, hpush', hunlink⟩
  have hk : (m'.setMem mem).kernel = { m.kernel with mem := mem } := by
    change { m'.kernel with mem := mem } = _
    rw [hshows.kernel]
  have hpa : framePa (unlinkFrame (tf + 24) mem) tf = framePa m.kernel.mem tf :=
    get32_congr fun x h1 h2 => hpush'.head_same ho htl (by omega) (.inr ⟨htobj, by omega⟩)
  have hlen : frameLen (unlinkFrame (tf + 24) mem) ff = frameLen m.kernel.mem ff :=
    get32_congr fun x h1 h2 => hpush'.head_same ho hfl (by omega) (.inr ⟨hfobj, by omega⟩)
  have htype : frameType mem ff = frameType m.kernel.mem ff :=
    get32_congr fun x h1 h2 => hpush.head_same ho hfl (by omega) (.inr ⟨hfobj, by omega⟩)
  have hl1 : frameType mem tf = frameType m.kernel.mem tf :=
    get32_congr fun x h1 h2 => hpush.head_same ho htl (by omega) (.inr ⟨htobj, by omega⟩)
  have hnslot := procFindCap_slot ho hn hnc
  have hfree : capPerm mem nc = 0 := by
    by_cases he : nc = fc
    · rw [he]
      exact hmapped.empty
    · rw [(hpush.slot_same ho hnslot he).1]
      exact hempty.resolve_left he
  have hentry : ∀ i, l1Entry (m'.setMem (unlinkFrame (tf + 24) mem)) (framePa m.kernel.mem tf) va i =
      l1Entry m (framePa m.kernel.mem tf) va i := by
    intro i
    change m'.phys.get32 _ = _
    rw [hshows.phys_eq]
    exact setPages_l1 h.tables (le_refl _)
  refine ⟨hpush.findFrame_same ho ht h.tid hslots hk, hpush.findEmpty_same ho hn hnc hfree hk,
    (hpush.slot_same ho htslot hslots).2.trans h.table, hl1.trans h.l1, hmapped.found ?_ ?_ hfuel, hmapped.head, rfl,
    ⟨h.pa.2, get32_lt⟩, ?_, ?_⟩
  · exact Nat.pos_iff_ne_zero.mp (ho.part.fits ff hfl).1
  · rw [htype]
    rcases h.type with h1 | h1
    · rw [h1]
      decide
    · rw [h1]
      decide
  · change Tabled _ (framePa (unlinkFrame (tf + 24) mem) tf) va (frameLen (unlinkFrame (tf + 24) mem) ff)
    rw [hpa, hlen]
    exact h.tables.congr hentry fun x => hshows.window_iff h₀
  · change ∀ i < pageCount (frameLen (unlinkFrame (tf + 24) mem) ff),
      l2Entry _ (framePa (unlinkFrame (tf + 24) mem) tf) va i ≠ 0 ∧
        l2pa (l2Entry _ (framePa (unlinkFrame (tf + 24) mem) tf) va i) = _
    rw [hpa, hlen]
    intro i hi
    have hread : l2Entry (m'.setMem (unlinkFrame (tf + 24) mem)) (framePa m.kernel.mem tf) va i =
        mappedEntry m.kernel.mem ff cache i % 2 ^ 32 := by
      unfold l2Entry l2At
      rw [hentry]
      change m'.phys.get32 _ = _
      rw [hshows.phys_eq]
      exact setPages_behind h.tables (le_refl _) hi
    rw [hread]
    have haligned := h.pa.1
    exact entry_page _ _ (by omega) (pageBits_lt _)

theorem Shows.spared {tpa len : ℕ} {v : ℕ → ℕ} (h : Shows m (setPages m tpa va v (pageCount len)) [] m') :
    Spared m tpa va len m (m'.setMem mem) := by
  intro x hx
  change m'.phys x = m.phys x
  rw [h.phys_eq]
  apply setPages_outside
  intro j hj
  have hout := hx j hj
  unfold Within at hout
  omega

theorem Pushed.restored (h : Pushed boot g m.kernel tf ff fc mem) (ho : Owned boot m.kernel g)
    (hnc : IsSlot m.kernel.mem (live boot g) nc)
    (hsame : ∀ x, ¬ Within (fc, 8) x → ¬ Within (ff + 20, 8) x → mem x = m.kernel.mem x) (hphys : m'.phys = m.phys)
    (hk : m'.kernel = { m.kernel with mem := mem }) :
    Restored m tf ff fc nc (m'.setMem (setCap nc (capRead ||| capWrite) ff mem)) := by
  obtain ⟨htl, htobj⟩ := h.table
  obtain ⟨hfl, hfobj⟩ := h.frame
  have hap := frames_apart ho htl hfl htobj hfobj h.apart
  unfold Apart at hap
  have helse : ∀ x, ¬ Within (fc, 8) x → ¬ Within (nc, 8) x → ¬ Within (ff + 20, 8) x →
      setCap nc (capRead ||| capWrite) ff mem x = m.kernel.mem x := by
    intro x h1 h2 h3
    have hout := h2
    rw [within_iff] at hout
    rw [setCap_outside (by omega)]
    exact hsame x h1 h3
  have hslot : ∀ c, IsSlot m.kernel.mem (live boot g) c → ∀ f ∈ live boot g, objType m.kernel.mem f = objFrame →
      ∀ x, f ≤ x → x < f + 28 → ¬ Within (c, 8) x := by
    intro c hc f hf ht x h1 h2 hin
    have hoff := ho.part.slot_off hc hf (by rw [ht]; decide)
    rw [objLen_frame ht] at hoff
    unfold Apart at hoff
    rw [within_iff] at hin
    omega
  have hframe : ∀ o, ff ≤ o → o + 4 ≤ ff + 20 →
      (setCap nc (capRead ||| capWrite) ff mem).get32 o = m.kernel.mem.get32 o := fun o h1 h2 =>
    get32_congr fun x h3 h4 => helse x (hslot fc h.slot ff hfl hfobj x (by omega) (by omega))
      (hslot nc hnc ff hfl hfobj x (by omega) (by omega)) fun hin => by
        rw [within_iff] at hin
        omega
  refine ⟨hphys, ?_, ?_, ⟨hframe _ (by omega) (by omega), hframe _ (by omega) (by omega),
    hframe _ (by omega) (by omega)⟩, ⟨setCap_perm, ?_⟩, helse⟩
  · simp only [Machine.setMem, hk]
  · exact get32_congr fun x h3 h4 => helse x (hslot fc h.slot tf htl htobj x (by omega) (by omega))
      (hslot nc hnc tf htl htobj x (by omega) (by omega)) fun hin => by
        rw [within_iff] at hin
        omega
  · exact setCap_obj.trans (Nat.mod_eq_of_lt (ho.part.addr_lt hfl))

/-- A frame that is mapped and unmapped again leaves everything as it was, just if `kernel_map` finds a place in the
window for each table of both walks. -/
theorem map_unmap_identity (cache : Bool) (ho : Owned boot m.kernel g) (h₀ : Bumped m []) (hv : m.Vacant) (ht : CidOk tid)
    (hc : CidOk cid) (hn : CidOk nid) (h : Mappable u tid cid va m tc tf fc ff)
    (hnc : procFindCap u nid m.kernel = some nc) (hempty : nc = fc ∨ capPerm m.kernel.mem nc = 0)
    (hfuel : pageCount (frameLen m.kernel.mem ff) < fuel) :
    (∃ wrote m₁ wrote' m₂, sysFrameMap fuel u tid cid va cache m = .ret OK wrote m₁ ∧
      sysFrameUnmap fuel u tid nid va m₁ = .ret OK wrote' m₂ ∧
      Spared m (framePa m.kernel.mem tf) va (frameLen m.kernel.mem ff) m m₁ ∧
      Spared m (framePa m.kernel.mem tf) va (frameLen m.kernel.mem ff) m₁ m₂ ∧ Restored m tf ff fc nc m₂) ↔
      Placeable m.vaMax (walkLens va (frameLen m.kernel.mem ff) ++ walkLens va (frameLen m.kernel.mem ff)) m.vaNext := by
  rw [placeable_append]
  rcases sysFrameMap_comes cache h₀ hv h hfuel with ⟨hno, hlost⟩ | ⟨hyes, wrote, m', hrun, hnext, hshows⟩
  · refine iff_of_false ?_ fun hall => hno hall.1
    rintro ⟨wrote, m₁, -, -, hrun, -⟩
    rw [hrun] at hlost
    rcases hlost with hlost | hlost <;> cases hlost
  obtain ⟨hun, hpush, hsame⟩ := h.unmappable ho h₀ ht hc hn hnc hempty (Nat.zero_lt_of_lt hfuel) hshows
  generalize setCap fc 0 0 (pushFrame tf ff va m.kernel.mem) = mem at *
  have hP : ∀ x, m.InWindow x → setPages m (framePa m.kernel.mem tf) va (mappedEntry m.kernel.mem ff cache)
      (pageCount (frameLen m.kernel.mem ff)) x = m.phys x := fun x hx => setPages_window h.tables (le_refl _) hx
  have h₀' : Bumped (m'.setMem (unlinkFrame (tf + 24) mem)) [] := by
    obtain ⟨vaMin, vaMax, low, high, aligned, -⟩ := hshows.window
    exact ⟨vaMin, vaMax, low, high, aligned, nofun⟩
  have hvacant : m'.Vacant := hshows.vacant h₀ hv hP
  have hv' : (m'.setMem (unlinkFrame (tf + 24) mem)).Vacant := hvacant
  obtain ⟨htl, htobj⟩ := hpush.table
  obtain ⟨hfl, hfobj⟩ := hpush.frame
  have hpa : framePa (m'.setMem (unlinkFrame (tf + 24) mem)).kernel.mem tf = framePa m.kernel.mem tf :=
    get32_congr fun x h1 h2 => hpush.head_same ho htl (by omega) (.inr ⟨htobj, by omega⟩)
  have hlen : frameLen (m'.setMem (unlinkFrame (tf + 24) mem)).kernel.mem ff = frameLen m.kernel.mem ff :=
    get32_congr fun x h1 h2 => hpush.head_same ho hfl (by omega) (.inr ⟨hfobj, by omega⟩)
  have hmax : (m'.setMem (unlinkFrame (tf + 24) mem)).vaMax = m.vaMax := (hshows.tables 0 h₀).2.1
  have hva : (m'.setMem (unlinkFrame (tf + 24) mem)).vaNext =
      windowAfter (walkLens va (frameLen m.kernel.mem ff)) m.vaNext := hnext
  have hcomes := sysFrameUnmap_comes h₀' hv' hun (by rw [hlen]; exact hfuel)
  have hT := hun.tables
  rw [hpa, hlen] at hcomes hT
  rw [hmax, hva] at hcomes
  rcases hcomes with ⟨hno, hlost⟩ | ⟨hyes', wrote', m'', hrun', hshows'⟩
  · refine iff_of_false ?_ fun hall => hno hall.2
    rintro ⟨wrote₁, m₁, wrote₂, m₂, hr, hr', -⟩
    rw [hrun] at hr
    cases hr
    rw [hr'] at hlost
    rcases hlost with hlost | hlost <;> cases hlost
  have hphys : m''.phys = m.phys :=
    hshows'.phys_eq.trans (setPages_clear h.tables h.free hshows.phys_eq hT)
  have hspared : Spared m (framePa m.kernel.mem tf) va (frameLen m.kernel.mem ff) m (m'.setMem mem) := hshows.spared
  refine iff_of_true ⟨wrote, _, wrote', _, hrun, hrun', hspared, fun x hx => ?_, ?_⟩ ⟨hyes, hyes'⟩
  · rw [hspared x hx]
    exact congrFun hphys x
  · refine hpush.restored ho (procFindCap_slot ho hn hnc) hsame hphys ?_
    rw [hshows'.kernel]
    simp only [Machine.setMem, hshows.kernel]

end Identity

@[irreducible] def pagesFrame : Machine × List Making :=
  capTurn 500 0 4096 (.call (.frameSetup 12288 1 0x200000 0x2000))
    (capTurn 500 0 4096 (.call (.objRetype 12288 5 1)) (lowMachine, []))

def pagesMachine : Machine where
  kernel := pagesFrame.1.kernel
  phys := (put32 (fun _ => 0) 0x10000 0x20001).put32 0x10004 0x21001
  vaNext := 0xff014000
  vaMin := 0xff000000
  vaMax := 0xff000000 + 15 * 2 ^ 20
  kernelL1 := 0x61000
  kernelL2 := 0x65000

theorem pagesFrame_reach : CapReach (fun u m t => t.Careful u m.kernel) 500 lowRoot lowMachine pagesFrame := by
  have hretype : (Turn.call (.objRetype 12288 5 1)).made 500 0 4096 lowMachine = [.retyped 12288 4096] := by
    decide +kernel
  have hperm : ∀ c, procFindCap 4096 12288 (capTurn 500 0 4096 (.call (.objRetype 12288 5 1)) (lowMachine, [])).1.kernel =
      some c → capPerm (capTurn 500 0 4096 (.call (.objRetype 12288 5 1)) (lowMachine, [])).1.kernel.mem c ≠ 0 := by
    intro c hc
    have hfound : procFindCap 4096 12288 (capTurn 500 0 4096 (.call (.objRetype 12288 5 1)) (lowMachine, [])).1.kernel =
        some 8224 := by decide +kernel
    rw [hfound] at hc
    cases hc
    decide +kernel
  unfold pagesFrame
  refine capTurn_reach (capTurn_reach .refl rfl ⟨⟨⟨by decide, by decide⟩, ?_⟩, ?_⟩ rfl ?_) (by decide +kernel)
    ⟨⟨⟨by decide, by decide⟩, hperm⟩, ?_⟩ rfl ?_
  · exact fun h => absurd h (by decide)
  · exact fun _ _ _ => by decide
  · rw [hretype]
    simp
  · exact fun _ _ _ => by decide +kernel
  · exact fun _ _ => List.not_mem_nil

example : frameLen pagesMachine.kernel.mem 12288 = 0x2000 := by decide +kernel

theorem pagesMachine_owned : Owned lowRoot.objects pagesMachine.kernel pagesFrame.2 :=
  (pagesFrame_reach.lists lowRoot_placed ⟨rfl, by decide⟩).1

theorem pagesMachine_window : Bumped pagesMachine [] := ⟨rfl, rfl, by decide, by decide, by decide, nofun⟩

theorem pagesMachine_vacant : pagesMachine.Vacant := by
  intro y hy hy' b hb
  have hlow : l1x 0xff000000 ≤ l1x y := by
    change 0xff014000 ≤ y at hy
    change y < 0xff000000 + 15 * 2 ^ 20 at hy'
    unfold l1x
    omega
  change (put32 (put32 (fun _ => 0) 0x10000 0x20001) 0x10004 0x21001)
    (0x65000 + 4096 * (l1x y - l1x 0xff000000) + 4 * l2x y + b) = 0
  rw [put32_outside _ (by omega), put32_outside _ (by omega)]

theorem pagesMachine_entries : l1Entry pagesMachine 0x10000 0xff000 0 = 0x20001 ∧
    l1Entry pagesMachine 0x10000 0xff000 1 = 0x21001 := by
  constructor <;> decide +kernel

theorem pagesMachine_mappable : Mappable 4096 8192 12288 0xff000 pagesMachine 8216 16384 8224 12288 := by
  have hpa : framePa pagesMachine.kernel.mem 16384 = 0x10000 := by decide +kernel
  have hlen : frameLen pagesMachine.kernel.mem 12288 = 0x2000 := by decide +kernel
  have hcount : pageCount 0x2000 = 2 := by decide
  obtain ⟨h0, h1⟩ := pagesMachine_entries
  have hcases : ∀ {P : ℕ → Prop}, P 0 → P 1 → ∀ i < 2, P i := by
    intro P p0 p1 i hi
    obtain rfl | rfl : i = 0 ∨ i = 1 := by omega
    · exact p0
    · exact p1
  have hwindow : ∀ x, x < 0x65000 → ¬ pagesMachine.InWindow x := fun x hx hin => absurd hin.1 (not_le.mpr hx)
  refine ⟨by decide +kernel, by decide +kernel, by decide +kernel, by decide +kernel, by decide +kernel,
    .inl (by decide +kernel), by decide +kernel, by decide +kernel, ?_, ?_⟩
  · rw [hpa, hlen]
    refine ⟨by decide, by decide, by decide, ?_, ?_, fun b hb => hwindow _ (by omega), ?_, ?_, ?_⟩
    all_goals rw [hcount]
    · exact hcases (by rw [h0]; decide) (by rw [h1]; decide)
    · exact hcases (by rw [h0]; decide) (by rw [h1]; decide)
    · refine hcases (fun b hb => hwindow _ ?_) fun b hb => hwindow _ ?_
      · rw [h0]
        unfold l1pa
        omega
      · rw [h1]
        unfold l1pa
        omega
    · unfold Apart
      exact hcases (by rw [h0]; decide) (by rw [h1]; decide)
    · unfold Apart
      refine hcases (hcases (fun h => absurd rfl h) fun _ => ?_) (hcases (fun _ => ?_) fun h => absurd rfl h)
      · rw [h0, h1]
        decide
      · rw [h0, h1]
        decide
  · rw [hpa, hlen, hcount]
    exact hcases (by decide +kernel) (by decide +kernel)

theorem map_unmap_identity_pages : ∃ wrote m₁ wrote' m₂,
    sysFrameMap 3 4096 8192 12288 0xff000 true pagesMachine = .ret OK wrote m₁ ∧
    sysFrameUnmap 3 4096 8192 12288 0xff000 m₁ = .ret OK wrote' m₂ ∧
    Restored pagesMachine 16384 12288 8224 8224 m₂ := by
  have hlen : frameLen pagesMachine.kernel.mem 12288 = 0x2000 := by decide +kernel
  have hfuel : pageCount (frameLen pagesMachine.kernel.mem 12288) < 3 := by
    rw [hlen]
    decide
  have hnid : procFindCap 4096 12288 pagesMachine.kernel = some 8224 := by decide +kernel
  have hplace : Placeable pagesMachine.vaMax (walkLens 0xff000 0x2000 ++ walkLens 0xff000 0x2000)
      pagesMachine.vaNext := by
    have hlens : walkLens 0xff000 0x2000 = [0x4000, 4096, 4096] := by decide
    rw [hlens]
    exact ⟨by decide, by decide, by decide, by decide, by decide, by decide, trivial⟩
  obtain ⟨wrote, m₁, wrote', m₂, hmap, hunmap, -, -, hrestored⟩ := (map_unmap_identity true pagesMachine_owned
    pagesMachine_window pagesMachine_vacant ⟨by decide, by decide⟩ ⟨by decide, by decide⟩ ⟨by decide, by decide⟩
    pagesMachine_mappable hnid (.inl rfl) hfuel).mpr (hlen.symm ▸ hplace)
  exact ⟨wrote, m₁, wrote', m₂, hmap, hunmap, hrestored⟩

theorem Mappable.late {m : Machine} {u : Addr} {tid cid : ℤ} {va tc tf fc ff : ℕ} (next : ℕ)
    (h : Mappable u tid cid va m tc tf fc ff) : Mappable u tid cid va { m with vaNext := next } tc tf fc ff :=
  ⟨h.tid, h.cid, h.table, h.frame, h.l1, h.type, h.pa, h.len, h.tables.congr (fun _ => rfl) fun _ => Iff.rfl, h.free⟩

theorem map_unmap_panics :
    Mappable 4096 8192 12288 0xff000 { pagesMachine with vaNext := 0xffeff000 } 8216 16384 8224 12288 ∧
    sysFrameMap 3 4096 8192 12288 0xff000 true { pagesMachine with vaNext := 0xffeff000 } = .panic :=
  ⟨pagesMachine_mappable.late _, Ending.eq_panic (by decide +kernel)⟩

end Agatha.Sys
