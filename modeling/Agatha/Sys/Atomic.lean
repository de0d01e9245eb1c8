import Agatha.Sys.Numbers
import Agatha.Sys.ObjectRuns

namespace Agatha.Sys

open Kernel Library Library.Bytes

def SysCall.Editing : SysCall → Prop
  | .objCreate _ _ | .objRetype _ _ _ | .objSplit _ _ | .objMerge _ _ | .procSetup _ _ _ _ => True
  | .frameL1Setup _ | .frameL2Map _ _ _ | .frameMap _ _ _ _ | .frameUnmap _ _ _ => True
  | _ => False

/-- `sys_proc_setup` gives the process another address space and then finds that one of the last
two capabilities is no good. -/
def SysCall.CutShort (u : Addr) (k : Kernel) : SysCall → Prop
  | .procSetup cid vspace clist eid =>
    ∃ c v, findTyped u cid (fun perm => perm ≠ 0) objProc k = some c ∧
      findTyped u vspace readWrite objFrame k = some v ∧
      (findTyped u clist readWrite objCaplist k = none ∨
        findTyped u eid (fun perm => perm &&& capWrite ≠ 0) objEndpoint k = none) ∧
      (k.proc (capObj k.mem c)).vspace ≠ framePa k.mem (capObj k.mem v)
  | _ => False

def Result.Whole (k : Kernel) : Result → Prop
  | some (r, _, k') => r = ERR → k' = k
  | none => True

def Ending.Whole (m : Machine) : Ending → Prop
  | .ret r wrote m' => r = ERR → m' = m ∧ wrote = []
  | _ => True

section Results

variable {k : Kernel} {m m' : Machine} {u : Addr} {systick cid nid type : ℤ} {n fuel : ℕ}
variable {wrote : List (ℕ × ℕ)}

theorem ok_ne_err : OK ≠ ERR := by decide

theorem Result.whole_err : Result.Whole k (.err k) := fun _ => rfl

theorem Result.whole_ok {ev : List Making} {k' : Kernel} : Result.Whole k (some (OK, ev, k')) :=
  fun h => absurd h ok_ne_err

theorem Ending.whole_err : Ending.Whole m (.ret ERR [] m) := fun _ => ⟨rfl, rfl⟩

theorem Ending.whole_ok : Ending.Whole m (.ret OK wrote m') := fun h => absurd h ok_ne_err

theorem Ending.whole_tolerant : Tolerant (Ending.Whole m) := ⟨trivial, trivial, trivial⟩

theorem Ending.whole_result {y : Result} (h : y.Whole m.kernel) : (Ending.ofResult m y).Whole m := by
  cases y with
  | none => trivial
  | some x =>
    intro hr
    have hk : x.2.2 = m.kernel := h hr
    exact ⟨by rw [hk], rfl⟩

theorem sysObjRetype_whole : Result.Whole k (sysObjRetype systick u cid type n k) := by
  unfold sysObjRetype
  split
  · exact Result.whole_err
  · split
    · exact Result.whole_err
    · simp only
      repeat' first | exact Result.whole_err | exact Result.whole_ok | trivial | split

theorem sysObjSplit_whole : Result.Whole k (sysObjSplit u cid nid k) := by
  unfold sysObjSplit
  repeat' first | exact Result.whole_err | exact Result.whole_ok | split | simp only

theorem sysObjMerge_whole : Result.Whole k (sysObjMerge u cid nid k) := by
  unfold sysObjMerge
  repeat' first | exact Result.whole_err | exact Result.whole_ok | trivial | split | simp only

theorem sysObjCreate_again {o len r : ℕ} {x : ℤ} {k' : Kernel} (ho : o ≠ 0)
    (h : sysObjCreate fuel 1 u cid nid k = some (x, [.mapped r len], k')) :
    ∃ ev k'', sysObjCreate fuel o u cid nid k = some (OK, ev, k'') := by
  unfold sysObjCreate at h ⊢
  cases hf : procFindCap u cid k with
  | none => rw [hf] at h; cases h
  | some fc =>
    cases hn : procFindCap u nid k with
    | none => rw [hf, hn] at h; cases h
    | some nc =>
      rw [hf, hn] at h
      simp only at h ⊢
      split at h
      · cases h
      · rename_i h1
        split at h
        · cases h
        · rename_i h2
          split at h
          · cases h
          · rename_i h3
            split at h
            · cases h
            · rename_i h4
              cases hd : isPageDoubled (frameLen k.mem (capObj k.mem fc)) fuel 4096 with
              | none => rw [hd] at h; cases h
              | some b =>
                cases b with
                | false => rw [hd] at h; cases h
                | true =>
                  rw [if_neg h1, if_neg h2, if_neg h3, if_neg h4]
                  simp only [if_neg ho]
                  exact ⟨_, _, rfl⟩

theorem kernelMap_ne_zero {pa len va : ℕ} {cache : Bool} (hw : 0 < l1x m.vaMin)
    (h : kernelMap pa len cache m = .here va m') : va ≠ 0 := by
  unfold kernelMap at h
  simp only at h
  cases hp : windowPlace m.vaMax (pageAlign len) m.vaNext with
  | none => rw [hp] at h; cases h
  | some x =>
    rw [hp] at h
    simp only at h
    split_ifs at h with ha
    cases h
    rintro h0
    have hx : x = 0 := by omega
    apply ha
    left
    rw [hx]
    exact hw

theorem objCreate_whole (hw : 0 < l1x m.vaMin) : (objCreate fuel u cid nid m).Whole m := by
  have herr : ∀ o, o = 0 ∨ Result.Whole m.kernel (sysObjCreate fuel o u cid nid m.kernel) := by
    intro o
    by_cases ho : o = 0
    · exact .inl ho
    · right
      unfold sysObjCreate
      repeat' first
        | exact Result.whole_err | exact Result.whole_ok | trivial | split | simp only
  unfold objCreate
  split
  · rename_i x _ len _ hx
    split
    · trivial
    · cases hm : kernelMap _ len true m with
      | panic => trivial
      | astray => trivial
      | here va m' =>
        have hva := kernelMap_ne_zero hw hm
        have hk : m'.kernel = m.kernel := by
          unfold kernelMap at hm
          simp only at hm
          split at hm
          · cases hm
          · split_ifs at hm
            cases hm
            rfl
        obtain ⟨ev, k, hok⟩ := sysObjCreate_again hva hx
        change (Ending.ofResult m' (sysObjCreate fuel va u cid nid m'.kernel)).Whole m
        rw [hk, hok]
        exact Ending.whole_ok
  · obtain h | h := herr 1
    · cases h
    · exact Ending.whole_result h

theorem sysFrameL1Setup_whole : (sysFrameL1Setup u cid m).Whole m := by
  unfold sysFrameL1Setup frameL1SetupAt
  split
  · exact Ending.whole_err
  · simp only
    split
    · exact Ending.whole_err
    · split
      · exact Ending.whole_err
      · split
        · exact Ending.whole_err
        · apply kernelMap_all (Q := fun _ => True) Ending.whole_tolerant
            (fun _ _ _ _ _ => trivial) trivial
          intro va _ _
          exact Ending.whole_ok

theorem sysFrameL2Map_whole {va : ℕ} : (sysFrameL2Map u cid nid va m).Whole m := by
  unfold sysFrameL2Map frameL2MapAt
  split
  · simp only
    split
    · exact Ending.whole_err
    · split
      · exact Ending.whole_err
      · apply kernelMap_all (Q := fun _ => True) Ending.whole_tolerant
          (fun _ _ _ _ _ => trivial) trivial
        intro l1 _ _
        apply kernelMap_all (Q := fun _ => True) Ending.whole_tolerant
          (fun _ _ _ _ _ => trivial) trivial
        intro l2 _ _
        split
        · trivial
        · exact Ending.whole_ok
  · exact Ending.whole_err

theorem sysFrameMap_whole {va : ℕ} {cache : Bool} : (sysFrameMap fuel u cid nid va cache m).Whole m := by
  unfold sysFrameMap frameMapAt
  split
  · simp only
    split
    · exact Ending.whole_err
    · split
      · exact Ending.whole_err
      · apply kernelMap_all (Q := fun _ => True) Ending.whole_tolerant
          (fun _ _ _ _ _ => trivial) trivial
        intro l1 _ _
        apply frameMapLoop_all (Q := fun _ => True) Ending.whole_tolerant
          (fun _ _ _ _ _ => trivial) _ trivial
        intro wrote _ _
        exact Ending.whole_ok
  · exact Ending.whole_err

theorem sysFrameUnmap_whole {va : ℕ} : (sysFrameUnmap fuel u cid nid va m).Whole m := by
  unfold sysFrameUnmap frameUnmapAt
  split
  · simp only
    split
    · exact Ending.whole_err
    · split
      · trivial
      · exact Ending.whole_err
      · apply kernelMap_all (Q := fun _ => True) Ending.whole_tolerant
          (fun _ _ _ _ _ => trivial) trivial
        intro l1 _ _
        apply frameUnmapLoop_all (Q := fun _ => True) Ending.whole_tolerant
          (fun _ _ _ _ _ => trivial) _ trivial
        intro wrote _ _
        exact Ending.whole_ok
  · exact Ending.whole_err

theorem setProc_vspace {o pa : ℕ} :
    k.setProc o { k.proc o with vspace := pa } = k ↔ (k.proc o).vspace = pa := by
  constructor
  · intro h
    have hv : ((k.setProc o { k.proc o with vspace := pa }).proc o).vspace = pa := by
      rw [setProc_proc_same]
    rw [h] at hv
    exact hv
  · rintro rfl
    unfold Kernel.setProc
    rw [Function.update_eq_self]

theorem sysProcSetup_whole {vspace clist eid : ℤ} {ev : List Making} {k' : Kernel}
    (hpid : EachProc (fun pid _ => 0 ≤ pid) k)
    (hr : sysProcSetup u cid vspace clist eid k = some (ERR, ev, k')) :
    k' = k ↔ ¬ (SysCall.procSetup cid vspace clist eid).CutShort u k := by
  unfold sysProcSetup at hr
  unfold SysCall.CutShort
  cases hc : findTyped u cid (fun perm => perm ≠ 0) objProc k with
  | none =>
    rw [hc] at hr
    cases hr
    refine ⟨fun _ => ?_, fun _ => rfl⟩
    rintro ⟨c, v, h, _⟩
    cases hc.symm.trans h
  | some c =>
    rw [hc] at hr
    cases hv : findTyped u vspace readWrite objFrame k with
    | none =>
      rw [hv] at hr
      cases hr
      refine ⟨fun _ => ?_, fun _ => rfl⟩
      rintro ⟨c, v, _, h, _⟩
      cases hv.symm.trans h
    | some v =>
      rw [hv] at hr
      simp only at hr
      have hsame := @findTyped_setProc k u (capObj k.mem c)
        { k.proc (capObj k.mem c) with vspace := framePa k.mem (capObj k.mem v) }
      rw [hsame rfl, hsame rfl] at hr
      cases hl : findTyped u clist readWrite objCaplist k with
      | none =>
        rw [hl] at hr
        cases hr
        rw [setProc_vspace, ← not_ne_iff]
        apply not_congr
        constructor
        · intro hne
          exact ⟨c, v, hc, hv, .inl hl, hne⟩
        · rintro ⟨c', v', hc', hv', _, hne⟩
          cases hc.symm.trans hc'
          cases hv.symm.trans hv'
          exact hne
      | some r =>
        rw [hl] at hr
        cases he : findTyped u eid (fun perm => perm &&& capWrite ≠ 0) objEndpoint k with
        | none =>
          rw [he] at hr
          cases hr
          rw [setProc_vspace, ← not_ne_iff]
          apply not_congr
          constructor
          · intro hne
            exact ⟨c, v, hc, hv, .inr he, hne⟩
          · rintro ⟨c', v', hc', hv', _, hne⟩
            cases hc.symm.trans hc'
            cases hv.symm.trans hv'
            exact hne
        | some e =>
          rw [he] at hr
          have hres := congrArg (fun y => y.map fun z => z.1) hr
          simp only [Option.map_some, setProc_proc_same, Option.some.injEq] at hres
          have hp := hpid (capObj k.mem c)
          rw [hres] at hp
          exact absurd hp (by decide)

end Results

structure Machine.Booted (systick : ℤ) (r : Root) (mem : Bytes) (m : Machine) : Prop where
  kernel : m.kernel = { initRoot systick r mem with up := some r.proc }
  window : 0 < l1x m.vaMin

def SysReach (systick : ℤ) (r : Root) (mem : Bytes) (m : Machine) : Prop :=
  ∃ m₀, Machine.Booted systick r mem m₀ ∧ TurnReach (fun _ _ _ => True) systick m₀ m

section Runs

variable {systick : ℤ} {r : Root} {mem : Bytes} {m m' m₀ : Machine} {u : Addr} {c : SysCall}
variable {P : ℤ → ℕ → Prop} {fuel : ℕ} {wrote : List (ℕ × ℕ)} {t : Turn}

theorem initRoot_each (h0 : P 0 0) (h1 : P 1 1) :
    EachProc P { initRoot systick r mem with up := some r.proc } := by
  have hone : ∀ mem, EachProc P (procSetPriority r.proc 1 (procInit systick r.proc (.boot mem))) := by
    intro mem p
    have hpr : ∀ k : Kernel, (k.proc r.proc).slist = none → procSetPriority r.proc 1 k =
        k.setProc r.proc { k.proc r.proc with priority := 1 } := by
      intro k hk
      unfold procSetPriority
      simp [hk, priorityMax]
    rw [hpr _ (by unfold procInit; rw [setProc_proc_same]), setProc_proc]
    split_ifs with hp
    · unfold procInit
      rw [setProc_proc_same]
      exact h1
    · unfold procInit
      rw [setProc_proc, if_neg hp]
      exact h0
  intro p
  unfold initRoot
  apply EachProc.procReady
  apply EachProc.setMem
  apply EachProc.setProc (hone _)
  exact hone _ r.proc

theorem Ending.All.and {Q R : Machine → Prop} {x : Ending} (hq : x.All Q) (hr : x.All R) :
    x.All fun m => Q m ∧ R m := by
  cases x <;> first | exact ⟨hq, hr⟩ | trivial

def Numbered (m : Machine) : Prop := EachProc (fun pid _ => 0 ≤ pid) m.kernel ∧ 0 < l1x m.vaMin

theorem Turn.run_numbered (h : Numbered m) : (t.run systick fuel u m).All Numbered := by
  have hpid : (t.run systick fuel u m).All fun m => EachProc (fun pid _ => 0 ≤ pid) m.kernel :=
    Turn.run_each h.1 (Int.natCast_nonneg _) fun _ _ _ _ _ hi => hi
  have hwin : (t.run systick fuel u m).All fun m' => m'.vaMin = m.vaMin :=
    Turn.run_still (fun _ _ _ _ h => h) (fun _ _ h => h) rfl
  have hboth := hpid.and hwin
  cases hx : t.run systick fuel u m with
  | ret r wrote m' =>
    rw [hx] at hboth
    exact ⟨hboth.1, hboth.2 ▸ h.2⟩
  | sched n m' =>
    rw [hx] at hboth
    exact ⟨hboth.1, hboth.2 ▸ h.2⟩
  | panic => trivial
  | astray => trivial
  | stuck => trivial

theorem TurnReach.numbered {Q : Addr → Machine → Turn → Prop} (h : Numbered m₀)
    (hs : TurnReach Q systick m₀ m) : Numbered m :=
  hs.all h (fun _ _ _ _ _ h => Turn.run_numbered h) fun _ _ h hk => ⟨h.1.sched hk, h.2⟩

theorem SysReach.numbered (hs : SysReach systick r mem m) : Numbered m := by
  obtain ⟨m₀, hboot, hrun⟩ := hs
  refine hrun.numbered ⟨?_, hboot.window⟩
  rw [hboot.kernel]
  exact initRoot_each (le_refl 0) (Int.one_nonneg)

theorem failed_calls_change_nothing (hs : SysReach systick r mem m) (hc : c.Editing)
    (hr : c.run systick fuel u m = .ret ERR wrote m') :
    (m' = m ∧ wrote = []) ↔ ¬ c.CutShort u m.kernel := by
  obtain ⟨hpid, hwin⟩ := hs.numbered
  rw [SysCall.run_body (by rw [hr]; exact nofun)] at hr
  have hwhole : ∀ {x : Ending}, x.Whole m → x = .ret ERR wrote m' → m' = m ∧ wrote = [] := by
    rintro x hx rfl
    exact hx rfl
  have hnever : (m' = m ∧ wrote = []) → ((m' = m ∧ wrote = []) ↔ ¬ False) := by
    intro h
    simpa using h
  cases c with
  | objCreate fid nid => exact hnever (hwhole (objCreate_whole hwin) hr)
  | objRetype cid type n => exact hnever (hwhole (Ending.whole_result sysObjRetype_whole) hr)
  | objSplit cid nid => exact hnever (hwhole (Ending.whole_result sysObjSplit_whole) hr)
  | objMerge cidL cidH => exact hnever (hwhole (Ending.whole_result sysObjMerge_whole) hr)
  | frameL1Setup cid => exact hnever (hwhole sysFrameL1Setup_whole hr)
  | frameL2Map tid cid va => exact hnever (hwhole sysFrameL2Map_whole hr)
  | frameMap tid cid va cache => exact hnever (hwhole sysFrameMap_whole hr)
  | frameUnmap tid nid va => exact hnever (hwhole sysFrameUnmap_whole hr)
  | procSetup cid vspace clist eid =>
    have hr' : Ending.ofResult m (sysProcSetup u cid vspace clist eid m.kernel) =
      .ret ERR wrote m' := hr
    cases hy : sysProcSetup u cid vspace clist eid m.kernel with
    | none =>
      rw [hy] at hr'
      cases hr'
    | some y =>
      rw [hy] at hr'
      obtain ⟨res, ev, k'⟩ := y
      cases hr'
      rw [← sysProcSetup_whole hpid hy]
      constructor
      · rintro ⟨h, _⟩
        exact congrArg Machine.kernel h
      · rintro rfl
        exact ⟨rfl, rfl⟩
  | _ => exact absurd hc id

end Runs

def lowMachine : Machine where
  kernel := { initRoot 500 lowRoot (fun _ => 0) with up := some 4096 }
  phys := fun _ => 0
  vaNext := 0x80002000
  vaMin := 0x80000000
  vaMax := 0x80200000
  kernelL1 := 0x100000
  kernelL2 := 0x108000

theorem lowMachine_reach : SysReach 500 lowRoot (fun _ => 0) lowMachine :=
  ⟨lowMachine, ⟨rfl, by decide⟩, .refl⟩

def Ending.look {α : Type} (f : Machine → α) : Ending → Option (ℤ × α)
  | .ret r _ m => some (r, f m)
  | _ => none

theorem Ending.look_ret {α : Type} {x : Ending} {f : Machine → α} {r : ℤ} {y : α} (h : x.look f = some (r, y)) :
    ∃ wrote m, x = .ret r wrote m ∧ f m = y := by
  cases x with
  | ret r' wrote m =>
    cases h
    exact ⟨wrote, m, rfl, rfl⟩
  | _ => cases h

theorem failed_calls_change_nothing_split : ∃ wrote m',
    (SysCall.objSplit 12288 8192).run 500 0 4096 lowMachine = .ret ERR wrote m' ∧
    procFindCap 4096 12288 lowMachine.kernel = some 8224 ∧
    objType lowMachine.kernel.mem (capObj lowMachine.kernel.mem 8224) = objUntyped ∧ m' = lowMachine ∧ wrote = [] := by
  have hlook : ((SysCall.objSplit 12288 8192).run 500 0 4096 lowMachine).look (fun _ => ()) = some (ERR, ()) := by
    decide +kernel
  obtain ⟨wrote, m', hrun, -⟩ := Ending.look_ret hlook
  have hediting : (SysCall.objSplit 12288 8192).Editing := trivial
  refine ⟨wrote, m', hrun, by decide +kernel, by decide +kernel, ?_⟩
  exact (failed_calls_change_nothing lowMachine_reach hediting hrun).mpr id

section Turns

variable {P : Addr → Machine → Turn → Prop} {systick : ℤ} {fuel : ℕ} {u : Addr} {m m₀ : Machine}
variable {t : Turn}

def turnTo (systick : ℤ) (fuel : ℕ) (u : Addr) (t : Turn) (m : Machine) : Machine :=
  match t.run systick fuel u m with
  | .ret _ _ m' => m'
  | _ => m

theorem turnTo_reach (hs : TurnReach P systick m₀ m) (running : m.kernel.up = some u)
    (meets : P u m t) : TurnReach P systick m₀ (turnTo systick fuel u t m) := by
  unfold turnTo
  cases hx : t.run systick fuel u m with
  | ret r wrote m' => exact hs.tail (.ret running meets hx)
  | _ => exact hs

end Turns

@[irreducible] def lowProc : Machine :=
  turnTo 500 0 4096 (.call (.objRetype 12288 3 1)) lowMachine

theorem lowProc_reach : SysReach 500 lowRoot (fun _ => 0) lowProc := by
  unfold lowProc
  exact ⟨lowMachine, ⟨rfl, by decide⟩, turnTo_reach .refl rfl trivial⟩

theorem failed_setup_changes : ¬ ∀ (m m' : Machine) (wrote : List (ℕ × ℕ)) (c : SysCall),
    SysReach 500 lowRoot (fun _ => 0) m → c.Editing → c.run 500 0 4096 m = .ret ERR wrote m' →
    m' = m ∧ wrote = [] := by
  intro h
  have hlook : ((SysCall.procSetup 12288 8192 16384 16384).run 500 0 4096 lowProc).look
      (fun m => (m.kernel.proc 12288).vspace) = some (ERR, 65536) := by decide +kernel
  have hbefore : (lowProc.kernel.proc 12288).vspace = 0 := by decide +kernel
  obtain ⟨wrote, m', hrun, hafter⟩ := Ending.look_ret hlook
  obtain ⟨rfl, _⟩ := h lowProc m' wrote (.procSetup 12288 8192 16384 16384) lowProc_reach trivial hrun
  rw [hbefore] at hafter
  cases hafter

end Agatha.Sys
