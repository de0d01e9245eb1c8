import Agatha.Sys.Atomic
import Agatha.Sys.Walks

namespace Agatha.Sys

open Kernel Library Library.Bytes

def RecvCalm (u e : Addr) (o : Option Addr) (k : Kernel) : Prop :=
  (k.proc u).boundSignal ≠ 0 ∨ (k.endpoint e).signal ≠ 0 ∨ ∀ fuel,
    (∀ p g, findWaiting (fun x => x.state = .blockSend) fuel (k.endpoint e).waiting.head k =
      some (some p) → (k.proc p).give = some g → capPerm k.mem g ≠ 0 → o ≠ none) ∧
    (findWaiting (fun x => x.state = .blockSend) fuel (k.endpoint e).waiting.head k = some none →
      (k.endpoint e).rwait = none)

def Creatable (u : Addr) (fid nid : ℤ) (k : Kernel) (f : Addr) : Prop :=
  ∃ fc nc, procFindCap u fid k = some fc ∧ procFindCap u nid k = some nc ∧ capObj k.mem fc = f ∧
    capPerm k.mem nc = 0 ∧ ¬ (capPerm k.mem fc &&& capWrite = 0 ∨ capPerm k.mem fc &&& capRead = 0) ∧
    objType k.mem f = objFrame ∧ frameType k.mem f = frameMem ∧
    ∃ fuel, isPageDoubled (frameLen k.mem f) fuel 4096 = some true

structure MapCalm (m : Machine) (tpa va len : ℕ) : Prop where
  room : Room m.vaMax (0x4000 :: openings va (pageCount len) 0 none) m.vaNext
  laid : Laid m tpa va len (pageCount len)
  table : ∀ i < pageCount len, l1Entry m tpa va i ≠ 0
  free : ∀ i < pageCount len, l2Entry m tpa va i = 0

structure UnmapCalm (m : Machine) (tpa va len n : ℕ) : Prop where
  room : Room m.vaMax (0x4000 :: openings va n 0 none) m.vaNext
  laid : Laid m tpa va len n
  stops : n < pageCount len → ∃ j < n, ¬ Continuous m tpa va j
  mapped : ∀ i < n, l1Entry m tpa va i ≠ 0 ∧ l2Entry m tpa va i ≠ 0

/-- The memory when `sys_frame_unmap` has taken the frame behind the link `f` off its list. -/
def unlinkFrame (f : Addr) (mem : Bytes) : Bytes :=
  let ff := mem.get32 f
  ((mem.put32 f (frameNext mem ff)).put32 (ff + 24) 0).put32 (ff + 20) 0

def SysCall.Calm (u : Addr) (m : Machine) : SysCall → Prop
  | .recv dest cid => ∀ e, findEndpoint u dest capRead m.kernel = some e →
      ¬ ((m.kernel.endpoint e).bound ≠ none ∧ (m.kernel.endpoint e).bound ≠ some u) →
      (cid = 0 → RecvCalm u e none m.kernel) ∧
      ∀ o, cid ≠ 0 → procFindCap u cid m.kernel = some o → capPerm m.kernel.mem o = 0 →
        RecvCalm u e (some o) m.kernel
  | .objCreate fid nid => ∀ f, Creatable u fid nid m.kernel f →
      Room m.vaMax [frameLen m.kernel.mem f] m.vaNext
  | .frameL1Setup cid => ∀ c, findFrame u cid m = some c →
      frameType m.kernel.mem (capObj m.kernel.mem c) = frameMem →
      framePa m.kernel.mem (capObj m.kernel.mem c) % 0x4000 = 0 →
      frameLen m.kernel.mem (capObj m.kernel.mem c) = 0x4000 → Room m.vaMax [0x4000] m.vaNext
  | .frameL2Map tid cid _ => ∀ tc fc, findFrame u tid m = some tc → findFrame u cid m = some fc →
      frameType m.kernel.mem (capObj m.kernel.mem tc) = frameL1 →
      frameType m.kernel.mem (capObj m.kernel.mem fc) = frameMem →
      Room m.vaMax [0x4000, frameLen m.kernel.mem (capObj m.kernel.mem fc)] m.vaNext
  | .frameMap tid cid va _ => ∀ tc fc, findFrame u tid m = some tc → findFrame u cid m = some fc →
      frameType m.kernel.mem (capObj m.kernel.mem tc) = frameL1 →
      (frameType m.kernel.mem (capObj m.kernel.mem fc) = frameMem ∨
        frameType m.kernel.mem (capObj m.kernel.mem fc) = frameDev) →
      MapCalm m (framePa m.kernel.mem (capObj m.kernel.mem tc)) va
        (frameLen m.kernel.mem (capObj m.kernel.mem fc))
  | .frameUnmap tid nid va => ∀ tc fc, findFrame u tid m = some tc →
      procFindCapType u nid 0 0 m.kernel = some fc →
      frameType m.kernel.mem (capObj m.kernel.mem tc) = frameL1 → ∀ fuel f,
      findMapped va m.kernel.mem fuel (capObj m.kernel.mem tc + 24) = some (some f) →
      ∃ n, UnmapCalm (m.setMem (unlinkFrame f m.kernel.mem))
        (framePa (unlinkFrame f m.kernel.mem) (capObj m.kernel.mem tc)) va
        (frameLen (unlinkFrame f m.kernel.mem) (m.kernel.mem.get32 f)) n
  | _ => True

def ResumeCalm (u : Addr) (k : Kernel) : Prop :=
  ∀ e o, (k.proc u).label = .recv e o →
    RecvCalm u e o ((k.setProc u { k.proc u with label := .user }).setEndpoint e
      { k.endpoint e with rwait := none })

def Turn.Calm (u : Addr) (m : Machine) : Turn → Prop
  | .call c => c.Calm u m
  | .resume => ResumeCalm u m.kernel
  | .interrupt _ _ => True

section Calm

variable {u p e : Addr} {k : Kernel} {m : Machine} {fuel : ℕ} {o n : Option Addr}
variable {systick fid nid cid dest tid pid : ℤ} {va tpa len : ℕ} {t : Turn} {rq b : Bytes}
variable {s : BitVec 32} {f : ℕ → Machine → Ending}

theorem endpointGetPending_calm (hs : ¬ (k.endpoint e).signal ≠ 0)
    (hg : ∀ p g, findWaiting (fun x => x.state = .blockSend) fuel (k.endpoint e).waiting.head k =
      some (some p) → (k.proc p).give = some g → capPerm k.mem g ≠ 0 → o ≠ none) :
    endpointGetPending fuel u e o k ≠ .panic := by
  unfold endpointGetPending
  rw [if_neg hs]
  split
  · exact nofun
  · exact nofun
  · rename_i p hp
    simp only [setProc_proc_same, setProc_mem]
    cases hgive : (k.proc p).give with
    | none => exact nofun
    | some g =>
      simp only
      by_cases hperm : k.mem.get32 g = 0
      · rw [if_pos hperm]
        exact nofun
      · rw [if_neg hperm]
        have ho := hg p g hp hgive hperm
        cases o with
        | none => exact absurd rfl ho
        | some _ => exact nofun

theorem endpointGetPending_none (h : endpointGetPending fuel u e o k = .nothing) :
    findWaiting (fun x => x.state = .blockSend) fuel (k.endpoint e).waiting.head k =
      some none := by
  unfold endpointGetPending at h
  split at h
  · cases h
  · split at h
    · cases h
    · assumption
    · simp only at h
      split at h
      · cases h
      · split at h
        · cases h
        · split at h <;> cases h

theorem recvLoop_calm (h : RecvCalm u e o k) : recvLoop fuel u e o k ≠ .panic := by
  unfold recvLoop
  by_cases hb : (k.proc u).boundSignal ≠ 0
  · rw [if_pos hb]
    exact nofun
  · rw [if_neg hb]
    by_cases hs : (k.endpoint e).signal ≠ 0
    · have hpend : endpointGetPending fuel u e o k = .found
          (.endpointSignal u e (k.endpoint e).signal)
          (k.setEndpoint e { k.endpoint e with signal := 0 }) := by
        unfold endpointGetPending
        rw [if_pos hs]
      rw [hpend]
      exact nofun
    · obtain ⟨hg, hw⟩ := ((h.resolve_left hb).resolve_left hs) fuel
      have hpend := endpointGetPending_calm (u := u) hs hg
      split
      · contradiction
      · exact nofun
      · exact nofun
      · rename_i hnone
        have hwait := hw (endpointGetPending_none hnone)
        rw [if_neg (not_not.mpr hwait)]
        exact nofun

theorem resume_calm (h : ResumeCalm u k) : resume fuel u k ≠ .panic := by
  unfold resume
  simp only
  split
  · rename_i e o hl
    exact recvLoop_calm (h e o hl)
  · exact nofun
  · exact nofun
  · exact nofun

end Calm

def Ending.isPanic : Ending → Bool
  | .panic => true
  | _ => false

theorem Ending.eq_panic {x : Ending} (h : x.isPanic = true) : x = .panic := by
  cases x with
  | panic => rfl
  | _ => cases h

end Agatha.Sys
