import Agatha.Sys.ProcStarts
import Agatha.Sys.CapabilityRuns
import Agatha.Sys.Panics

namespace Agatha.Sys

open Kernel Library

structure Gives (k : Kernel) (p e c : Addr) : Prop where
  label : (k.proc p).label = .mesg e
  state : (k.proc p).state = .blockSend
  give : (k.proc p).give = some c

def Bare (k : Kernel) (e : Addr) : Prop := ∃ q, (k.proc q).label = .recv e none

def Unoffered (k : Kernel) (c : Addr) : Prop := ∀ p e, Bare k e → ¬ Gives k p e c

def Joined (k : Kernel) (e : Addr) : Prop := ∃ p, (k.proc p).mesgOn = some e ∨ (k.proc p).recvOn = some e

structure Loosens (k k' : Kernel) : Prop where
  label : ∀ p, (k'.proc p).label = (k.proc p).label ∨ (k'.proc p).label = .user ∨ (k'.proc p).label = .ret
  gives : ∀ p e c, Gives k' p e c → Gives k p e c
  procs : k'.procs = k.procs

/-- The calls that processes are in afterwards: on endpoints of `E`, with nothing new on offer but empty slots of `S`
that are not filled. The processes of `new` are made. -/
structure Manners (E S fill new : Set ℕ) (k k' : Kernel) : Prop where
  procs : ∀ i p, k'.procs i = some p → (∃ j, k.procs j = some p) ∨ p ∈ new
  joined : ∀ e, Joined k' e → Joined k e ∨ e ∈ E
  offers : ∀ p e c, Bare k' e → Gives k' p e c →
    Bare k e ∧ Gives k p e c ∨ c ∈ S ∧ capPerm k.mem c = 0 ∧ c ∉ fill
  accepts : ∀ q e c, (k'.proc q).label = .recv e (some c) → Unoffered k' c

structure Aside (k k' : Kernel) : Prop where
  proc : k'.proc = k.proc
  endpoint : k'.endpoint = k.endpoint
  procs : k'.procs = k.procs
  nextpid : k'.nextpid = k.nextpid

def Outcome.All (Q : Kernel → Prop) : Outcome → Prop
  | .ret _ _ k => Q k
  | .sched _ k => Q k
  | .panic => True
  | .stuck => True

section Loosening

variable {k k' k'' k₀ : Kernel} {E S fill new : Set ℕ} {p q u e c : Addr} {x : Proc} {y : Endpoint} {fuel : ℕ}
  {o n : Option Addr} {l : Context} {m mem rq : Bytes} {pid : ℤ} {s : BitVec 32} {ev : Event}

theorem Outcome.All.mono {Q R : Kernel → Prop} {out : Outcome} (h : out.All Q) (hQ : ∀ k, Q k → R k) : out.All R := by
  cases out with
  | ret r ev k => exact hQ k h
  | sched n k => exact hQ k h
  | panic => trivial
  | stuck => trivial

theorem Outcome.All.ending {Q : Kernel → Prop} {out : Outcome} {m : Machine} (h : out.All Q) :
    (Ending.ofOutcome m out).All fun m' => Q m'.kernel := by
  cases out with
  | ret r ev k => exact h
  | sched n k => exact h
  | panic => trivial
  | stuck => trivial

theorem Loosens.of_proc (hp : k'.proc = k.proc) (hprocs : k'.procs = k.procs) : Loosens k k' := by
  refine ⟨fun p => ?_, fun p e c h => ?_, hprocs⟩
  · rw [hp]
    exact .inl rfl
  · exact ⟨hp ▸ h.label, hp ▸ h.state, hp ▸ h.give⟩

theorem Loosens.refl : Loosens k k := .of_proc rfl rfl

theorem Aside.refl : Aside k k := ⟨rfl, rfl, rfl, rfl⟩

theorem Aside.trans (h : Aside k k') (h' : Aside k' k'') : Aside k k'' :=
  ⟨h'.proc.trans h.proc, h'.endpoint.trans h.endpoint, h'.procs.trans h.procs, h'.nextpid.trans h.nextpid⟩

theorem Aside.setMem : Aside k { k with mem := mem } := ⟨rfl, rfl, rfl, rfl⟩

theorem Aside.loosens (h : Aside k k') : Loosens k k' := .of_proc h.proc h.procs

theorem Aside.lawful {W : Addr → List Addr} (h : Aside k k') (hW : Lawful k W) : Lawful k' W := by
  obtain ⟨hp, he, hprocs, hnext⟩ := h
  refine ⟨hW.waiting.keep (fun p => ?_) (fun p _ => ?_) fun e => ?_, fun e p hr => ?_, fun p hs => ?_, fun i hi => ?_⟩
  · rw [hp]
  · rw [hp]
    exact ⟨rfl, rfl, rfl⟩
  · rw [he]
  · rw [he] at hr
    rw [hp]
    exact hW.rwait e p hr
  · rw [hp] at hs
    rw [hprocs]
    exact hW.made p hs
  · rw [hprocs]
    exact hW.above i (hnext ▸ hi)

theorem Loosens.trans (h : Loosens k k') (h' : Loosens k' k'') : Loosens k k'' := by
  refine ⟨fun p => ?_, fun p e c hg => h.gives p e c (h'.gives p e c hg), h'.procs.trans h.procs⟩
  rcases h'.label p with hp | hp
  · rw [hp]
    exact h.label p
  · exact .inr hp

theorem Loosens.setProc (hl : x.label = (k.proc p).label ∨ x.label = .user ∨ x.label = .ret)
    (hg : x.state = .blockSend → (k.proc p).state = .blockSend ∧ x.give = (k.proc p).give) :
    Loosens k (k.setProc p x) := by
  refine ⟨fun q => ?_, fun q e c h => ?_, rfl⟩
  · rw [setProc_proc]
    split_ifs with hq
    · rw [hq]
      exact hl
    · exact .inl rfl
  · obtain ⟨h1, h2, h3⟩ := h
    rw [setProc_proc] at h1 h2 h3
    split_ifs at h1 h2 h3 with hq
    · obtain ⟨hs, hgive⟩ := hg h2
      rw [hq]
      refine ⟨?_, hs, hgive ▸ h3⟩
      rcases hl with hl | hl | hl <;> rw [h1] at hl
      · exact hl.symm
      · cases hl
      · cases hl
    · exact ⟨h1, h2, h3⟩

theorem Loosens.sched (hk : SchedOnly k k') : Loosens k k' := by
  refine ⟨fun p => ?_, fun p e c h => ?_, hk.procs⟩
  · rw [hk.proc p]
    exact .inl rfl
  · obtain ⟨h1, h2, h3⟩ := h
    rw [hk.proc p] at h1 h2 h3
    exact ⟨h1, h2, h3⟩

theorem Loosens.bare (h : Loosens k k') (hb : Bare k' e) : Bare k e := by
  obtain ⟨q, hq⟩ := hb
  refine ⟨q, ?_⟩
  rcases h.label q with hl | hl | hl <;> rw [hl] at hq
  · exact hq
  · cases hq
  · cases hq

theorem Loosens.unoffered (h : Loosens k k') (hc : Unoffered k c) : Unoffered k' c :=
  fun p e hb hg => hc p e (h.bare hb) (h.gives p e c hg)

theorem Loosens.joined (h : Loosens k k') (hj : Joined k' e) : Joined k e := by
  obtain ⟨q, hq⟩ := hj
  refine ⟨q, ?_⟩
  unfold Proc.mesgOn Proc.recvOn at *
  rcases h.label q with hl | hl | hl <;> rw [hl] at hq
  · exact hq
  · rcases hq with hq | hq <;> cases hq
  · rcases hq with hq | hq <;> cases hq

theorem Loosens.accepts (h : Loosens k k') (hacc : ∀ q e c, (k.proc q).label = .recv e (some c) → Unoffered k c)
    {q e c : Addr} (hq : (k'.proc q).label = .recv e (some c)) : Unoffered k' c := by
  apply h.unoffered
  rcases h.label q with hl | hl | hl <;> rw [hl] at hq
  · exact hacc q e c hq
  · cases hq
  · cases hq

theorem Loosens.manners (h : Loosens k k')
    (hacc : ∀ q e c, (k.proc q).label = .recv e (some c) → Unoffered k c) : Manners E S fill new k k' where
  procs := fun i _ hp => .inl ⟨i, h.procs ▸ hp⟩
  joined := fun _ hj => .inl (h.joined hj)
  offers := fun _ _ _ hb hg => .inl ⟨h.bare hb, h.gives _ _ _ hg⟩
  accepts := fun _ _ _ hq => h.accepts hacc hq

theorem Manners.after (h : Loosens k k') (hm : Manners E S fill new k' k'') (hmem : k'.mem = k.mem) :
    Manners E S fill new k k'' := by
  refine ⟨fun i p hp => ?_, fun e hj => ?_, fun p e c hb hg => ?_, hm.accepts⟩
  · rw [← h.procs]
    exact hm.procs i p hp
  · exact (hm.joined e hj).imp_left h.joined
  · rw [← hmem]
    rcases hm.offers p e c hb hg with ⟨hb', hg'⟩ | hnew
    · exact .inl ⟨h.bare hb', h.gives p e c hg'⟩
    · exact .inr hnew

theorem procReady_loosens : Loosens k (procReady p k) := by
  have hset : Loosens k (k.setProc p { k.proc p with state := .ready }) := .setProc (.inl rfl) nofun
  exact hset.trans (.sched .procReady)

theorem Lawful.resumed {W : Addr → List Addr} (h : Lawful k W) (hs : (k.proc u).state = .ready)
    (hl : (k.proc u).label = .recv e o) : Lawful ((k.setEndpoint e { k.endpoint e with rwait := none }).setProc u
      { k.proc u with label := .user }) W := by
  have hclear : Lawful (k.setEndpoint e { k.endpoint e with rwait := none }) W := h.clear
  refine hclear.setProc Iff.rfl (fun hw => absurd hw (hs ▸ ready_not_waits)) (fun e' he' => ?_)
    fun _ => h.made u (by rw [hs]; decide)
  -- it was the receiver of no other endpoint
  have hon := (hclear.rwait e' u he').1
  obtain rfl : e = e' := by simpa [Proc.recvOn, hl, Context.recvOn] using hon
  rw [setEndpoint_endpoint_same] at he'
  cases he'

end Loosening

end Agatha.Sys
