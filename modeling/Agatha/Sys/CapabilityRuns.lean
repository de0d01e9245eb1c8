import Agatha.Sys.Atomic
import Agatha.Sys.CapabilityFrames

namespace Agatha.Sys

open Kernel Library Library.Bytes Library.Areas

def Empty (u : Addr) (cid : ℤ) (k : Kernel) : Prop :=
  ∀ c, procFindCap u cid k = some c → capPerm k.mem c = 0

def SysCall.Careful (u : Addr) (k : Kernel) : SysCall → Prop
  | .objCreate fid nid => CidOk fid ∧ CidOk nid
  | .objRetype cid type n => CidOk cid ∧ (ObjCall.retype cid type n).Clean u k
  | .objSplit cid nid => CidOk cid ∧ CidOk nid
  | .objMerge cidL cidH => (CidOk cidL ∧ NonEmpty u cidL k) ∧ CidOk cidH ∧ NonEmpty u cidH k
  | .mesg _ _ cid => CidOk cid
  | .recv _ cid => CidOk cid
  | .reply _ pid _ cid => CidOk cid ∧ (cid ≠ 0 → ∀ p b, (k.proc p).state = .blockReply → (k.proc p).pid = pid →
      (k.proc p).give = some b → capPerm k.mem b = 0)
  | .endpointConnect cid nid => CidOk cid ∧ CidOk nid
  | .procSetup _ vspace clist eid => (CidOk vspace ∧ CidOk clist ∧ CidOk eid) ∧
      ∀ r, procFindCap u clist k = some r → ∀ i < 3, capPerm k.mem (capSlot (capObj k.mem r) i) = 0
  | .intrInit cid _ => CidOk cid ∧ NonEmpty u cid k
  | .intrConnect iid _ _ => CidOk iid ∧ NonEmpty u iid k
  | .frameSetup cid _ _ _ => CidOk cid ∧ NonEmpty u cid k
  | .frameL1Setup cid => CidOk cid
  | .frameL2Map tid cid _ => CidOk tid ∧ CidOk cid
  | .frameMap tid cid _ _ => CidOk tid ∧ CidOk cid
  | .frameUnmap tid nid _ => CidOk tid ∧ CidOk nid ∧ Empty u nid k
  | _ => True

def SysCall.Listed (u : Addr) (k : Kernel) (c : SysCall) : Prop :=
  ∀ cid ∈ c.lookups u k, cid / 4096 < clistCaps → (k.proc u).capRoot ≠ none

def Turn.Careful (u : Addr) (k : Kernel) : Turn → Prop
  | .call c => c.Careful u k ∧ c.Listed u k
  | .resume => ∀ e a, (k.proc u).label = .recv e (some a) → capPerm k.mem a = 0
  | .interrupt _ _ => True

def SysCall.used (u : Addr) (k : Kernel) : SysCall → Set ℕ
  | .objCreate fid _ => {c | procFindCap u fid k = some c}
  | .objMerge _ cidH => {c | procFindCap u cidH k = some c}
  | .procSetup _ vspace clist eid =>
    {c | procFindCap u vspace k = some c ∨ procFindCap u clist k = some c ∨ procFindCap u eid k = some c}
  | .frameL2Map _ cid _ => {c | procFindCap u cid k = some c}
  | .frameMap _ cid _ _ => {c | procFindCap u cid k = some c}
  | _ => ∅

def Turn.used (u : Addr) (k : Kernel) : Turn → Set ℕ
  | .call c => c.used u k
  | _ => ∅

def Turn.fills (u : Addr) (k : Kernel) : Turn → Set ℕ
  | .call (.objCreate _ nid) | .call (.objSplit _ nid) | .call (.endpointConnect _ nid) | .call (.frameUnmap _ nid _) =>
    {c | procFindCap u nid k = some c}
  | .call (.procSetup _ _ clist _) =>
    {c | ∃ r, procFindCap u clist k = some r ∧ ∃ i < 3, c = capSlot (capObj k.mem r) i}
  | .call (.recv _ cid) => {c | cid ≠ 0 ∧ procFindCap u cid k = some c}
  | .call (.reply _ pid _ cid) =>
    {c | cid ≠ 0 ∧ ∃ p, (k.proc p).state = .blockReply ∧ (k.proc p).pid = pid ∧ (k.proc p).give = some c}
  | .resume => {c | ∃ e, (k.proc u).label = .recv e (some c)}
  | _ => ∅

/-- The lengths of what the kernel stores through pointers of the process before it comes back: `pid` and `m` of `recv`,
`rp` of `mesg`, and `type`, `pa` and `len` of `sys_frame_info`. -/
def Turn.stores (u : Addr) (k : Kernel) : Turn → List ℕ
  | .call (.recv _ _) => [4, messageLen]
  | .call (.frameInfo _) => [4, 4, 4]
  | .resume =>
    match (k.proc u).label with
    | .recv _ _ => [4, messageLen]
    | .mesg _ => [messageLen]
    | _ => []
  | _ => []

structure Stored (L : Set ℕ) (places : List (ℕ × ℕ)) (mem mem' : Bytes) : Prop where
  beside : ∀ o ∈ L, ∀ p ∈ places, Apart o (objLen mem o) p.1 p.2
  rest : ∀ x, (∀ p ∈ places, x < p.1 ∨ p.1 + p.2 ≤ x) → mem' x = mem x

def Result.made : Result → List Making
  | some (_, ev, _) => ev
  | none => []

def objCreated (fuel : ℕ) (u : Addr) (fid nid : ℤ) (m : Machine) : List Making :=
  match sysObjCreate fuel 1 u fid nid m.kernel with
  | some (_, [.mapped _ len], _) =>
    match procFindCap u fid m.kernel with
    | none => []
    | some fc =>
      match kernelMap (framePa m.kernel.mem (capObj m.kernel.mem fc)) len true m with
      | .here o _ => Result.made (sysObjCreate fuel o u fid nid m.kernel)
      | _ => []
  | x => Result.made x

def Turn.made (systick : ℤ) (fuel : ℕ) (u : Addr) (m : Machine) : Turn → List Making
  | .call (.objCreate fid nid) => objCreated fuel u fid nid m
  | .call (.objRetype cid type n) => Result.made (sysObjRetype systick u cid type n m.kernel)
  | .call (.objSplit cid nid) => Result.made (sysObjSplit u cid nid m.kernel)
  | .call (.objMerge cidL cidH) => Result.made (sysObjMerge u cidL cidH m.kernel)
  | _ => []

section Turns

variable {boot : List (ℕ × ℕ)} {g : List Making} {u : Addr} {M : Set ℕ} {m : Machine} {t : Turn} {c : SysCall}
  {systick : ℤ} {fuel : ℕ} {k k' : Kernel} {used fill : Set ℕ} {fid nid : ℤ}

theorem Outcome.Orderly.ending {x : Outcome} (h : x.Orderly boot g fill m.kernel) :
    (Ending.ofOutcome m x).All fun m' => Sys.Orderly boot g g used fill m.kernel m'.kernel := by
  cases x with
  | ret r ev k => exact Sys.Orderly.mono h (Set.empty_subset used) subset_rfl
  | sched n k => exact Sys.Orderly.mono h (Set.empty_subset used) subset_rfl
  | panic => trivial
  | stuck => trivial

theorem Result.orderly {x : Result} {m' : Machine}
    (h : ∀ r ev k', x = some (r, ev, k') → Orderly boot g (g ++ ev) used fill m.kernel k') :
    (Ending.ofResult m' x).All fun m' => Orderly boot g (g ++ Result.made x) used fill m.kernel m'.kernel := by
  cases x with
  | none => trivial
  | some y =>
    obtain ⟨r, ev, k'⟩ := y
    exact h r ev k' rfl

theorem sysObjCreate_made {o : ℕ} {r : ℤ} {ev : List Making} (h : sysObjCreate fuel o u fid nid k = some (r, ev, k')) :
    ev = [] ∨ ∃ len, ev = [.mapped o len] := by
  rcases sysObjCreate_cases h with ⟨hev, -⟩ | ⟨_, _, -, -, -, -, -, -, -, -, hk⟩
  · exact .inl hev
  · cases hk
    exact .inr ⟨_, rfl⟩

theorem objCreate_orderly (h : Owned boot m.kernel g) (hl : FrameLists m.kernel.mem (live boot g) M)
    (hc : CidOk fid) (hn : CidOk nid)
    (hfresh : ∀ o len, .mapped o len ∈ objCreated fuel u fid nid m → Fresh boot g o len) :
    (objCreate fuel u fid nid m).All fun m' => Orderly boot g (g ++ objCreated fuel u fid nid m)
      {c | procFindCap u fid m.kernel = some c} {c | procFindCap u nid m.kernel = some c} m.kernel m'.kernel := by
  unfold objCreated at hfresh ⊢
  unfold objCreate
  cases hone : sysObjCreate fuel 1 u fid nid m.kernel with
  | none => trivial
  | some x =>
    obtain ⟨r, ev, k'⟩ := x
    rcases sysObjCreate_made hone with rfl | ⟨len, rfl⟩
    · exact sysObjCreate_orderly h hl hc hn (fun len hlen => absurd hlen List.not_mem_nil) hone
    · rw [hone] at hfresh
      simp only at hfresh ⊢
      cases hfc : procFindCap u fid m.kernel with
      | none => trivial
      | some fc =>
        simp only [hfc] at hfresh ⊢
        cases hmap : kernelMap (framePa m.kernel.mem (capObj m.kernel.mem fc)) len true m with
        | here o m' =>
          simp only [hmap] at hfresh ⊢
          change (Ending.ofResult m' (sysObjCreate fuel o u fid nid m'.kernel)).All _
          rw [kernelMap_kernel hmap]
          apply Result.orderly
          intro r ev k' hr
          rw [hr] at hfresh
          rw [← hfc]
          exact sysObjCreate_orderly h hl hc hn (fun len hlen => hfresh o len hlen) hr
        | panic => trivial
        | astray => trivial

theorem Result.made_eq_nil {x : Result} (h : ∀ r ev k', x = some (r, ev, k') → ev = []) : x.made = [] := by
  cases x with
  | none => rfl
  | some y => exact h _ _ _ rfl

theorem sysProcSetup_made {cid vspace clist eid : ℤ} : Result.made (sysProcSetup u cid vspace clist eid k) = [] :=
  Result.made_eq_nil fun _ _ _ hr => (sysProcSetup_cases hr).1

theorem SysCall.run_orderly (h : Owned boot m.kernel g) (hl : FrameLists m.kernel.mem (live boot g) M)
    (hc : c.Careful u m.kernel)
    (hfresh : ∀ o len, .mapped o len ∈ (Turn.call c).made systick fuel u m → Fresh boot g o len) :
    (c.run systick fuel u m).All fun m' =>
      Orderly boot g (g ++ (Turn.call c).made systick fuel u m) (c.used u m.kernel) ((Turn.call c).fills u m.kernel)
        m.kernel m'.kernel := by
  have hnone : g ++ [] = g := List.append_nil g
  have hout : ∀ {used fill} {x : Outcome}, x.Orderly boot g fill m.kernel →
      (Ending.ofOutcome m x).All fun m' => Orderly boot g (g ++ []) used fill m.kernel m'.kernel := by
    intro used fill x hx
    rw [hnone]
    exact hx.ending
  apply SysCall.run_of trivial
  cases c with
  | objCreate fid nid => exact objCreate_orderly h hl hc.1 hc.2 hfresh
  | objRetype cid type n =>
    apply Result.orderly
    exact fun _ _ _ hr => sysObjRetype_orderly h hl hc.1 hc.2 hr
  | objSplit cid nid =>
    apply Result.orderly
    exact fun _ _ _ hr => sysObjSplit_orderly h hl hc.1 hc.2 hr
  | objMerge cidL cidH =>
    apply Result.orderly
    exact fun _ _ _ hr => sysObjMerge_orderly h hl hc.1.1 hc.2.1 hc.1.2 hc.2.2 hr
  | endpointConnect cid nid =>
    have hcall : (Ending.ofResult m (sysEndpointConnect u cid nid m.kernel)).All fun m' =>
        Orderly boot g (g ++ Result.made (sysEndpointConnect u cid nid m.kernel)) ∅
          {c | procFindCap u nid m.kernel = some c} m.kernel m'.kernel :=
      Result.orderly fun _ _ _ hr => sysEndpointConnect_orderly h hl hc.1 hc.2 hr
    rw [Result.made_eq_nil fun _ _ _ hr => (sysEndpointConnect_cases hr).1] at hcall
    exact hcall
  | procSetup cid vspace clist eid =>
    have hcall : (Ending.ofResult m (sysProcSetup u cid vspace clist eid m.kernel)).All fun m' =>
        Orderly boot g (g ++ Result.made (sysProcSetup u cid vspace clist eid m.kernel))
          ((SysCall.procSetup cid vspace clist eid).used u m.kernel)
          ((Turn.call (.procSetup cid vspace clist eid)).fills u m.kernel) m.kernel m'.kernel :=
      Result.orderly fun _ _ _ hr => sysProcSetup_orderly h hl hc.1.1 hc.1.2.1 hc.1.2.2 hc.2 hr
    rw [sysProcSetup_made] at hcall
    exact hcall
  | frameSetup cid type pa len =>
    have hcall : (Ending.ofResult m (sysFrameSetup u cid type pa len m.kernel)).All fun m' =>
        Orderly boot g (g ++ Result.made (sysFrameSetup u cid type pa len m.kernel)) ∅ ∅ m.kernel m'.kernel :=
      Result.orderly fun _ _ _ hr => sysFrameSetup_orderly h hl hc.1 hc.2 hr
    rw [Result.made_eq_nil fun _ _ _ hr => (sysFrameSetup_cases hr).1] at hcall
    exact hcall
  | yield => exact hout (yield_orderly h hl)
  | exit => exact hout (exit_orderly h hl)
  | mesg dest rq cid => exact hout (sysMesg_orderly h hl hc)
  | recv dest cid => exact hout (sysRecv_orderly h hl hc)
  | reply dest pid b cid => exact hout (sysReply_orderly h hl hc.1 hc.2)
  | signal dest s => exact hout (sysSignal_orderly h hl)
  | endpointBind cid => exact hout (sysEndpointBind_orderly h hl)
  | endpointUnbind cid => exact hout (sysEndpointUnbind_orderly h hl)
  | procSetPriority cid priority => exact hout (sysProcSetPriority_orderly h hl)
  | procStart cid => exact hout (sysProcStart_orderly h hl)
  | intrInit cid irqn => exact hout (sysIntrInit_orderly h hl hc.1 hc.2)
  | intrConnect iid eid s => exact hout (sysIntrConnect_orderly h hl hc.1 hc.2)
  | intrAck iid => exact hout (sysIntrAck_orderly h hl)
  | frameInfo cid => exact hout (sysFrameInfo_orderly h hl)
  | frameL1Setup cid =>
    change (sysFrameL1Setup u cid m).All fun m' => Orderly boot g (g ++ []) ∅ ∅ m.kernel m'.kernel
    rw [hnone]
    exact sysFrameL1Setup_orderly h hl hc
  | frameL2Map tid cid va =>
    change (sysFrameL2Map u tid cid va m).All fun m' => Orderly boot g (g ++ []) _ ∅ m.kernel m'.kernel
    rw [hnone]
    exact sysFrameL2Map_orderly h hl hc.1 hc.2
  | frameMap tid cid va cache =>
    change (sysFrameMap fuel u tid cid va cache m).All fun m' => Orderly boot g (g ++ []) _ ∅ m.kernel m'.kernel
    rw [hnone]
    exact sysFrameMap_orderly h hl hc.1 hc.2
  | frameUnmap tid nid va =>
    change (sysFrameUnmap fuel u tid nid va m).All fun m' => Orderly boot g (g ++ []) ∅ _ m.kernel m'.kernel
    rw [hnone]
    exact sysFrameUnmap_orderly h hl hc.1 hc.2.1 hc.2.2

theorem Turn.run_orderly (h : Owned boot m.kernel g) (hl : FrameLists m.kernel.mem (live boot g) M)
    (hc : t.Careful u m.kernel) (hfresh : ∀ o len, .mapped o len ∈ t.made systick fuel u m → Fresh boot g o len) :
    (t.run systick fuel u m).All fun m' =>
      Orderly boot g (g ++ t.made systick fuel u m) (t.used u m.kernel) (t.fills u m.kernel) m.kernel m'.kernel := by
  have hnone : g ++ [] = g := List.append_nil g
  cases t with
  | call c =>
    change (if (m.kernel.proc u).label = .user then c.run systick fuel u m else .stuck).All _
    split_ifs
    · exact SysCall.run_orderly h hl hc.1 hfresh
    · trivial
  | resume =>
    change (Ending.ofOutcome m (Sys.resume fuel u m.kernel)).All fun m' => Orderly boot g (g ++ []) ∅ _ _ _
    rw [hnone]
    exact (resume_orderly h hl hc).ending
  | interrupt e s =>
    change (Ending.ofOutcome m (signal u e s m.kernel)).All fun m' => Orderly boot g (g ++ []) ∅ _ _ _
    rw [hnone]
    exact (signal_orderly h hl).ending

end Turns

/-- One turn, with the ledger of what was made. What `sys_obj_create` maps is memory that nothing has had before, and
what a process points to is beside the objects. -/
inductive CapStep (P : Addr → Machine → Turn → Prop) (systick : ℤ) (boot : List (ℕ × ℕ)) :
    Machine × List Making → Machine × List Making → Prop
  | ret {m m' : Machine} {g : List Making} {u : Addr} {t : Turn} {fuel : ℕ} {r : ℤ} {wrote places : List (ℕ × ℕ)}
      {mem : Bytes} (running : m.kernel.up = some u) (meets : P u m t)
      (fresh : ∀ o len, .mapped o len ∈ t.made systick fuel u m → Fresh boot g o len)
      (runs : t.run systick fuel u m = .ret r wrote m') (lengths : places.map Prod.snd = t.stores u m.kernel)
      (stored : Stored (live boot (g ++ t.made systick fuel u m)) places m'.kernel.mem mem) :
      CapStep P systick boot (m, g) (m'.setMem mem, g ++ t.made systick fuel u m)
  | sched {m m' : Machine} {g : List Making} {k : Kernel} {u : Addr} {t : Turn} {fuel : ℕ} {n : Option Addr}
      (running : m.kernel.up = some u) (meets : P u m t)
      (fresh : ∀ o len, .mapped o len ∈ t.made systick fuel u m → Fresh boot g o len)
      (runs : t.run systick fuel u m = .sched n m') (switch : SchedOnly m'.kernel k) :
      CapStep P systick boot (m, g) ({ m' with kernel := k }, g ++ t.made systick fuel u m)

def CapReach (P : Addr → Machine → Turn → Prop) (systick : ℤ) (r : Root) (m₀ : Machine) :
    Machine × List Making → Prop :=
  Relation.ReflTransGen (CapStep P systick r.objects) (m₀, [])

section Runs

variable {P : Addr → Machine → Turn → Prop} {systick : ℤ} {r : Root} {mem : Bytes} {m₀ : Machine} {u : Addr}
  {t : Turn} {fuel : ℕ} {s s' : Machine × List Making} {boot : List (ℕ × ℕ)}

theorem initRoot_outside {x : ℕ} (h : r.Placed) (hx : x < r.caplist + 8 ∨ r.caplist + 4096 ≤ x) :
    (initRoot systick r mem).mem x = r.heads mem x := by
  rw [initRoot_mem h]
  have hout : ∀ i < 4, x < capSlot r.caplist i ∨ capSlot r.caplist i + 8 ≤ x := by
    intro i hi
    unfold capSlot
    omega
  rw [setCap_outside (hout 3 (by omega)), setCap_outside (hout 2 (by omega)), setCap_outside (hout 0 (by omega))]

theorem Root.heads_next (h : r.Placed) : frameNext (r.heads mem) r.l1 = 0 := by
  obtain ⟨h1, h2, h3, h4, h5, h6⟩ := h.pairs
  unfold Apart at *
  have hzero : (((mem.fill r.proc 4096 0).fill r.caplist 4096 0).fill r.untyped 4096 0 |>.fill r.l1 28 0).get32
      (r.l1 + 24) = 0 := get32_fill_zero (by omega) (by omega)
  rw [← hzero]
  apply get32_congr
  intro x hx1 hx2
  unfold heads
  rw [untyped_outside (by omega), put32_outside x (by omega), put32_outside x (by omega),
    put32_outside x (by omega), setHead_outside (by omega), objCaplistInit_outside (by omega),
    setHead_outside (by omega), setHead_outside (by omega)]

theorem initRoot_types (h : r.Placed) : objType (initRoot systick r mem).mem r.proc = objProc ∧
    objType (initRoot systick r mem).mem r.caplist = objCaplist ∧
    objType (initRoot systick r mem).mem r.untyped = objUntyped := by
  obtain ⟨h1, h2, h3, h4, h5, h6⟩ := h.pairs
  obtain ⟨tp, tc, tu, tl⟩ := @Root.heads_type r mem h
  have hsame : ∀ o, Agree (initRoot systick r mem).mem (r.heads mem) o 8 →
      objType (initRoot systick r mem).mem o = objType (r.heads mem) o := by
    intro o ho
    exact get32_congr (ho.mono (by omega) (by omega))
  unfold Apart at *
  refine ⟨?_, ?_, ?_⟩
  · rw [hsame _ fun x hx1 hx2 => initRoot_outside h (by omega), tp]
  · rw [hsame _ fun x hx1 hx2 => initRoot_outside h (by omega), tc]
  · rw [hsame _ fun x hx1 hx2 => initRoot_outside h (by omega), tu]

theorem initRoot_lists (h : r.Placed) : FrameLists (initRoot systick r mem).mem (live r.objects []) ∅ := by
  obtain ⟨h1, h2, h3, h4, h5, h6⟩ := h.pairs
  have htypes := @initRoot_types systick r mem h
  have hnext : ∀ f, f ∈ live r.objects [] → objType (initRoot systick r mem).mem f = objFrame →
      frameNext (initRoot systick r mem).mem f = 0 := by
    intro f hf ht
    rcases Root.mem_live.mp hf with rfl | rfl | rfl | rfl
    · rw [htypes.1] at ht
      cases ht
    · rw [htypes.2.1] at ht
      cases ht
    · rw [htypes.2.2] at ht
      cases ht
    · unfold Apart at *
      have hroot : frameNext (initRoot systick r mem).mem r.l1 = frameNext (r.heads mem) r.l1 :=
        get32_congr fun x hx1 hx2 => initRoot_outside h (by omega)
      rw [hroot, Root.heads_next h]
  have hnone : ∀ f, OnList (initRoot systick r mem).mem (live r.objects []) ∅ f →
      frameNext (initRoot systick r mem).mem f = 0 := by
    rintro f (hf | ⟨hf, ht, -⟩)
    · exact absurd hf (Set.notMem_empty f)
    · exact hnext f hf ht
  refine ⟨?_, ?_, ?_, ?_⟩
  · exact fun f hf => absurd hf (Set.notMem_empty f)
  · exact fun f hf => absurd hf (Set.notMem_empty f)
  · exact fun f hf hne => absurd (hnone f hf) hne
  · exact fun f f' hf _ hne => absurd (hnone f hf) hne

theorem Stored.agree {L : Set ℕ} {places : List (ℕ × ℕ)} {mem mem' : Bytes} (h : Stored L places mem mem') {o : ℕ}
    (ho : o ∈ L) : Agree mem' mem o (objLen mem o) := by
  intro x h1 h2
  apply h.rest
  intro p hp
  have hap := h.beside o ho p hp
  unfold Apart at hap
  omega

theorem Stored.refl {L : Set ℕ} {mem : Bytes} : Stored L [] mem mem := ⟨nofun, fun _ _ => rfl⟩

theorem Stored.owned {g : List Making} {k : Kernel} {places : List (ℕ × ℕ)} (h : Owned boot k g)
    (hs : Stored (live boot g) places k.mem mem) : Owned boot { k with mem := mem } g := by
  have he : Effect k.mem mem (live boot g) (live boot g) ∅ ∅ := .of_agree h.part fun o ho => hs.agree ho
  have hword : ∀ o ∈ live boot g, objType mem o = objType k.mem o ∧ objLen mem o = objLen k.mem o := by
    intro o ho
    have hlarge := h.part.large o ho
    have hagree := (hs.agree ho).mono (le_refl o) (show o + 12 ≤ o + objLen k.mem o by omega)
    exact ⟨objType_congr hagree, objLen_congr hagree⟩
  have hold : ∀ a, IsSlot mem (live boot g) a → IsSlot k.mem (live boot g) a := by
    rintro a ⟨c, hc, ht, hi⟩
    exact ⟨c, hc, (hword c hc).1.symm.trans ht, hi⟩
  have hslot : ∀ a, IsSlot mem (live boot g) a → capPerm mem a = capPerm k.mem a ∧ capObj mem a = capObj k.mem a :=
    fun a ha => slot_congr (he.slot a (hold a ha) (Set.notMem_empty a))
  refine h.setMem ⟨⟨?_, ?_⟩, ?_, ?_, ?_, ?_, ?_, ?_⟩ (fun a ha => ha.stays he.typed)
    fun l hl ht => ⟨hl, (hword l hl).1.trans ht⟩
  · intro a ha b hb hab
    rw [(hword a ha).2, (hword b hb).2]
    exact h.part.packed.apart a ha b hb hab
  · intro a ha
    rw [(hword a ha).2]
    exact h.part.packed.inside a ha
  · intro o ho
    rw [(hword o ho).2]
    exact h.part.fits o ho
  · intro o ho
    rw [(hword o ho).2]
    exact h.part.large o ho
  · intro o ho
    rw [(hword o ho).1]
    exact h.part.typed o ho
  · intro o ho
    rw [(hword o ho).2]
    exact h.part.origin o ho
  · intro a ha hp
    rw [(hslot a ha).1] at hp
    rw [(hslot a ha).2]
    exact h.part.named a (hold a ha) hp
  · intro a b ha hb hpa hpb ho ht
    rw [(hslot a ha).1] at hpa
    rw [(hslot b hb).1] at hpb
    rw [(hslot a ha).2, (hslot b hb).2] at ho
    rw [(hslot a ha).2, (hword _ (h.part.named a (hold a ha) hpa)).1] at ht
    exact h.part.unique a b (hold a ha) (hold b hb) hpa hpb ho ht

theorem Stored.lists {g : List Making} {k : Kernel} {places : List (ℕ × ℕ)} {M : Set ℕ} (h : Owned boot k g)
    (hl : FrameLists k.mem (live boot g) M) (hs : Stored (live boot g) places k.mem mem) :
    FrameLists mem (live boot g) M := by
  have he : Effect k.mem mem (live boot g) (live boot g) ∅ ∅ := .of_agree h.part fun o ho => hs.agree ho
  exact hl.keep he (fun w hw => absurd hw (Set.notMem_empty w)) fun f hf => absurd hf (Set.notMem_empty f)

theorem Stored.kept {g g' : List Making} {k k' : Kernel} {used fill : Set ℕ} {places : List (ℕ × ℕ)}
    (h : Orderly boot g g' used fill k k') (hs : Stored (live boot g') places k'.mem mem) :
    CapsKept {a | IsSlot k.mem (live boot g) a} used k.mem mem := by
  have he : Effect k'.mem mem (live boot g') (live boot g') ∅ ∅ := .of_agree h.owned.part fun o ho => hs.agree ho
  have hslot : ∀ a, IsSlot k.mem (live boot g) a → capPerm mem a = capPerm k'.mem a ∧ capObj mem a = capObj k'.mem a :=
    fun a ha => slot_congr (he.slot a (ha.stays h.typed) (Set.notMem_empty a))
  intro a ha hp
  rw [(hslot a ha).1, (hslot a ha).2]
  rcases h.kept a ha hp with hkept | ⟨h0, ⟨b, hb⟩ | hu⟩
  · exact .inl hkept
  · have hsb := hslot b hb.slot
    refine .inr ⟨h0, .inl ⟨b, hb.slot, hb.free, hsb.1.trans hb.perm, hsb.2.trans hb.obj, ?_⟩⟩
    intro c hc hpc hpc' ho
    rw [(hslot c hc).1] at hpc'
    rw [(hslot c hc).2] at ho
    exact hb.only c hc hpc hpc' ho
  · exact .inr ⟨h0, .inr hu⟩

theorem CapStep.lists (h : Owned boot s.1.kernel s.2) (hl : ∃ M, FrameLists s.1.kernel.mem (live boot s.2) M)
    (hs : CapStep (fun u m t => t.Careful u m.kernel) systick boot s s') :
    Owned boot s'.1.kernel s'.2 ∧ ∃ M, FrameLists s'.1.kernel.mem (live boot s'.2) M := by
  obtain ⟨M, hl⟩ := hl
  cases hs with
  | ret running meets fresh runs lengths stored =>
    have hrun := Turn.run_orderly h hl meets fresh
    rw [runs] at hrun
    obtain ⟨M', hl'⟩ := hrun.lists
    exact ⟨stored.owned hrun.owned, M', stored.lists hrun.owned hl'⟩
  | sched running meets fresh runs switch =>
    have hrun := Turn.run_orderly h hl meets fresh
    rw [runs] at hrun
    refine ⟨hrun.owned.sched switch, ?_⟩
    rw [switch.mem]
    exact hrun.lists

theorem CapReach.lists (hr : r.Placed) (hb : m₀.Booted systick r mem)
    (hs : CapReach (fun u m t => t.Careful u m.kernel) systick r m₀ s) :
    Owned r.objects s.1.kernel s.2 ∧ ∃ M, FrameLists s.1.kernel.mem (live r.objects s.2) M := by
  induction hs with
  | refl =>
    rw [hb.kernel]
    exact ⟨(initRoot_owned hr).sched ⟨fun _ => rfl, rfl, rfl, rfl, rfl, rfl⟩, ∅, initRoot_lists hr⟩
  | tail _ hstep ih => exact hstep.lists ih.1 ih.2

theorem CapReach.numbered (hb : m₀.Booted systick r mem) (hs : CapReach P systick r m₀ s) : Numbered s.1 := by
  induction hs with
  | refl => exact SysReach.numbered ⟨m₀, hb, .refl⟩
  | tail _ hstep ih =>
    cases hstep with
    | @ret m m' g u t fuel r wrote places mem running meets fresh runs lengths stored =>
      have hrun : (t.run systick fuel u m).All Numbered := Turn.run_numbered ih
      rw [runs] at hrun
      exact hrun
    | @sched m m' g k u t fuel n running meets fresh runs switch =>
      have hrun : (t.run systick fuel u m).All Numbered := Turn.run_numbered ih
      rw [runs] at hrun
      exact ⟨hrun.1.sched switch, hrun.2⟩

theorem CapReach.mono {Q : Addr → Machine → Turn → Prop} (hs : CapReach P systick r m₀ s)
    (h : ∀ u m t, P u m t → Q u m t) : CapReach Q systick r m₀ s := by
  induction hs with
  | refl => exact .refl
  | tail _ hstep ih =>
    refine ih.tail ?_
    cases hstep with
    | ret running meets fresh runs lengths stored =>
      exact .ret running (h _ _ _ meets) fresh runs lengths stored
    | sched running meets fresh runs switch => exact .sched running (h _ _ _ meets) fresh runs switch

def capTurn (systick : ℤ) (fuel : ℕ) (u : Addr) (t : Turn) (s : Machine × List Making) : Machine × List Making :=
  match t.run systick fuel u s.1 with
  | .ret _ _ m' => (m', s.2 ++ t.made systick fuel u s.1)
  | _ => s

theorem capTurn_reach (hs : CapReach P systick r m₀ s) (running : s.1.kernel.up = some u)
    (meets : P u s.1 t) (hstores : t.stores u s.1.kernel = [])
    (hnone : ∀ o len, Making.mapped o len ∉ t.made systick fuel u s.1) :
    CapReach P systick r m₀ (capTurn systick fuel u t s) := by
  unfold capTurn
  cases hx : t.run systick fuel u s.1 with
  | ret r wrote m' =>
    have hlengths : ([] : List (ℕ × ℕ)).map Prod.snd = t.stores u s.1.kernel := hstores.symm
    exact hs.tail (.ret running meets (fun o len ho => absurd ho (hnone o len)) hx hlengths .refl)
  | _ => exact hs

end Runs

end Agatha.Sys
