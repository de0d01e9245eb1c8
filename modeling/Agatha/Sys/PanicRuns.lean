import Agatha.Sys.IsolationRuns
import Agatha.Sys.Offers

namespace Agatha.Sys

open Kernel Library Library.Bytes Library.Areas

structure Pages (m : Machine) (tpa va n : ℕ) (Q : ℕ → Prop) : Prop where
  below : ∀ i < n, l1x (va + 4096 * i) < l1x m.vaMin
  table : ∀ i < n, l1Entry m tpa va i ≠ 0
  entry : ∀ i < n, Q (l2Entry m tpa va i)
  own : ∀ i j, i < j → j < n → l2At m tpa va i ≠ l2At m tpa va j

def InOrder (m : Machine) (f : Addr) : Prop := ∃ F T, Isolated F T m ∧ f ∈ F

def FirstSender (k : Kernel) (e p : Addr) : Prop :=
  ∃ fuel, findWaiting (fun x => x.state = .blockSend) fuel (k.endpoint e).waiting.head k = some (some p)

def Receivable (u e : Addr) (o : Option Addr) (k : Kernel) : Prop :=
  (k.proc u).boundSignal ≠ 0 ∨ (k.endpoint e).signal ≠ 0 ∨
    (o = none → ∀ p c, FirstSender k e p → (k.proc p).give = some c → capPerm k.mem c = 0) ∧
    ((k.endpoint e).rwait ≠ none → ∃ p, (k.proc p).label = .mesg e ∧ (k.proc p).state = .blockSend)

def Accepts (u : Addr) (cid : ℤ) (k : Kernel) : Option Addr → Prop
  | none => cid = 0
  | some o => cid ≠ 0 ∧ procFindCap u cid k = some o ∧ capPerm k.mem o = 0

/-- The call leaves no process to receive what it does not accept, is no second receiver, and maps what is free, unmaps
what is mapped and has room for it in the window. -/
def SysCall.Polite (u : Addr) (m : Machine) : SysCall → Prop
  | .mesg dest _ cid => CidOk dest ∧ ∀ e c, findEndpoint u dest capWrite m.kernel = some e → cid ≠ 0 →
      procFindCap u cid m.kernel = some c → Bare m.kernel e →
      capPerm m.kernel.mem c = 0 ∧ ∀ q e', (m.kernel.proc q).label ≠ .recv e' (some c)
  | .recv dest cid => CidOk dest ∧ ∀ e o, findEndpoint u dest capRead m.kernel = some e →
      ((m.kernel.endpoint e).bound = none ∨ (m.kernel.endpoint e).bound = some u) →
      Accepts u cid m.kernel o → Receivable u e o m.kernel
  | .procStart cid => ∀ o, findObject u cid m.kernel = some o → objType m.kernel.mem o = objProc → Unlinked m.kernel o
  | .objCreate fid nid => (SysCall.objCreate fid nid).Calm u m
  | .frameL1Setup cid => (SysCall.frameL1Setup cid).Calm u m
  | .frameL2Map tid cid va => (SysCall.frameL2Map tid cid va).Calm u m
  | .frameMap tid cid va _ => ∀ tc fc, findFrame u tid m = some tc → findFrame u cid m = some fc →
      frameType m.kernel.mem (capObj m.kernel.mem tc) = frameL1 →
      (frameType m.kernel.mem (capObj m.kernel.mem fc) = frameMem ∨
        frameType m.kernel.mem (capObj m.kernel.mem fc) = frameDev) →
      InOrder m (capObj m.kernel.mem tc) ∧
      let len := frameLen m.kernel.mem (capObj m.kernel.mem fc)
      len + 4095 < 2 ^ 32 ∧ Room m.vaMax (0x4000 :: openings va (pageCount len) 0 none) m.vaNext ∧
        Pages m (framePa m.kernel.mem (capObj m.kernel.mem tc)) va (pageCount len) (· = 0)
  | .frameUnmap tid nid va => ∀ tc fc, findFrame u tid m = some tc →
      procFindCapType u nid 0 0 m.kernel = some fc →
      frameType m.kernel.mem (capObj m.kernel.mem tc) = frameL1 → ∀ fuel f,
      findMapped va m.kernel.mem fuel (capObj m.kernel.mem tc + 24) = some (some f) →
      InOrder m (capObj m.kernel.mem tc) ∧
      let len := frameLen m.kernel.mem (m.kernel.mem.get32 f)
      let tpa := framePa m.kernel.mem (capObj m.kernel.mem tc)
      len + 4095 < 2 ^ 32 ∧ ∃ n ≤ pageCount len, (n < pageCount len → ∃ j < n, ¬ Continuous m tpa va j) ∧
        Room m.vaMax (0x4000 :: openings va n 0 none) m.vaNext ∧ Pages m tpa va n (· ≠ 0)
  | _ => True

/-- What asks for no thought of the panics: the process can run, the call is careful, and it fills no slot that is on
offer to a process that accepts nothing. -/
structure Turn.Polite (u : Addr) (m : Machine) (t : Turn) : Prop where
  ready : (m.kernel.proc u).state = .ready
  careful : t.Careful u m.kernel
  fills : ∀ c, t = .call c → ∀ a ∈ t.fills u m.kernel, Unoffered m.kernel a
  call : ∀ c, t = .call c → c.Polite u m
  interrupt : ∀ e s, t = .interrupt e s → (m.kernel.proc u).label = .user

structure Peaceful (L : Set ℕ) (k : Kernel) : Prop where
  lawful : ∃ W, Lawful k W
  made : ∀ i p, k.procs i = some p → p ∈ L ∧ objType k.mem p = objProc
  joined : ∀ e, Joined k e → e ∈ L ∧ objType k.mem e = objEndpoint
  offers : ∀ p e c, Bare k e → Gives k p e c → capPerm k.mem c = 0
  accepts : ∀ q e c, (k.proc q).label = .recv e (some c) → Unoffered k c

section Walks

variable {F T : Set ℕ} {x : Frames} {m : Machine} {tf va len n : ℕ} {Q : ℕ → Prop}

theorem Tables.laid (h : Tables F T x m) (ht : tf ∈ F) (htype : x.type tf = frameL1) (hshort : len + 4095 < 2 ^ 32)
    (hn : n ≤ pageCount len) (hp : Pages m (x.pa tf) va n Q) : Laid m (x.pa tf) va len n := by
  obtain ⟨hlen, hw⟩ := h.l1 tf ht htype
  have hlow := h.placed.low
  have hoff := (h.placed.off tf ht).l2
  rw [hlen] at hoff
  have htable : ∀ i < n, IsTable F T x (l1pa (l1Entry m (x.pa tf) va i)) := fun i hi =>
    (hw.entries _ (hp.below i hi)).resolve_left (hp.table i hi)
  have hapart : ∀ i < n, Apart (l1pa (l1Entry m (x.pa tf) va i)) 4096 (x.pa tf) 0x4000 := by
    intro i hi
    have hap := ((htable i hi).apart h.placed).2 tf ht (by rw [htype]; decide)
    rwa [hlen] at hap
  refine ⟨hshort, hn, fun i hi b hb => ?_, fun i hi b hb => ?_, fun i j hij hj => ⟨?_, ?_⟩⟩
  · have hbelow := hp.below i hi
    unfold Machine.InWindow l1At
    unfold Apart at hoff
    omega
  · have hplace := (@IsTable.place F T x m (va + 4096 * i) _ (htable i hi) h.placed).2
    unfold Machine.InWindow l2At
    unfold Apart at hplace
    omega
  · have hap := hapart i (by omega)
    have hbelow := hp.below j hj
    have hx := @l2x_lt (va + 4096 * i)
    unfold l2At l1At
    unfold Apart at *
    omega
  · have hown := hp.own i j hij hj
    have h1 := (htable i (by omega)).1
    have h2 := (htable j hj).1
    unfold l2At at *
    unfold Apart
    omega

end Walks

section Turns

variable {L : Set ℕ} {k : Kernel} {m : Machine} {u e : Addr} {o : Option Addr} {c : SysCall} {t : Turn}
  {W : Addr → List Addr} {fuel : ℕ} {systick : ℤ}

theorem Receivable.calm (h : Lawful k W) (hr : Receivable u e o k) : RecvCalm u e o k := by
  rcases hr with hr | hr | ⟨hgive, hwait⟩
  · exact .inl hr
  · exact .inr (.inl hr)
  refine .inr (.inr fun fuel => ⟨?_, fun hnone => ?_⟩)
  · rintro p g hp hg hperm rfl
    exact hperm (hgive rfl p g ⟨fuel, hp⟩ hg)
  · by_contra hne
    obtain ⟨p, hl, hs⟩ := hwait hne
    have hmem : p ∈ W e := (h.waiting.mem_iff e p).mpr ⟨.inl hs, Proc.mesgOn_eq_some.mpr hl⟩
    have hspec := findWaiting_spec (h.waiting.lists.dll e).chain hnone p hmem
    rw [hs] at hspec
    cases hspec

theorem Peaceful.resume_calm (h : Peaceful L k) (hs : (k.proc u).state = .ready) : ResumeCalm u k := by
  obtain ⟨W, hW⟩ := h.lawful
  intro e o hl
  set k' := (k.setProc u { k.proc u with label := .user }).setEndpoint e { k.endpoint e with rwait := none } with hk'
  have hlawful : Lawful k' W := hW.resumed hs hl
  refine .inr (.inr fun fuel => ⟨?_, fun _ => ?_⟩)
  · rintro p g hp hg hperm rfl
    obtain ⟨ys, zs, hlist, htest, -⟩ := findWaiting_spec (hlawful.waiting.lists.dll e).chain hp
    have hmem : p ∈ W e := by
      rw [hlist]
      simp
    have hon := ((hW.waiting.mem_iff e p).mp hmem).2
    have hpu : p ≠ u := by
      rintro rfl
      rw [Proc.mesgOn_eq_some, hl] at hon
      cases hon
    have hproc : k'.proc p = k.proc p := by
      rw [hk', setEndpoint_proc, setProc_proc, if_neg hpu]
    rw [hproc] at htest hg
    have hgives : Gives k p e g := ⟨Proc.mesgOn_eq_some.mp hon, by simpa using htest, hg⟩
    exact hperm (h.offers p e g ⟨u, hl⟩ hgives)
  · rw [hk', setEndpoint_endpoint_same]

theorem SysCall.Polite.calm (h : Peaceful L m.kernel) (hp : c.Polite u m) : c.Calm u m := by
  obtain ⟨W, hW⟩ := h.lawful
  cases c with
  | recv dest cid =>
    intro e he hb
    have hbound : (m.kernel.endpoint e).bound = none ∨ (m.kernel.endpoint e).bound = some u := by
      by_cases hn : (m.kernel.endpoint e).bound = none
      · exact .inl hn
      · exact .inr (not_not.mp fun hne => hb ⟨hn, hne⟩)
    refine ⟨fun h0 => (hp.2 e none he hbound h0).calm hW, fun o h0 ho hperm => ?_⟩
    exact (hp.2 e (some o) he hbound ⟨h0, ho, hperm⟩).calm hW
  | frameMap tid cid va cache =>
    intro tc fc htc hfc hl1 htype
    obtain ⟨⟨F, T, hiso, ht⟩, hshort, hroom, hpages⟩ := hp tc fc htc hfc hl1 htype
    exact ⟨hroom, hiso.tables.laid ht hl1 hshort (le_refl _) hpages, hpages.table, hpages.entry⟩
  | frameUnmap tid nid va =>
    intro tc fc htc hfc hl1 fuel f hf
    obtain ⟨⟨F, T, hiso, ht⟩, hshort, n, hn, hstops, hroom, hpages⟩ := hp tc fc htc hfc hl1 fuel f hf
    obtain ⟨g, hg, rfl, hff⟩ := findMapped_link hiso.next ht hf
    have hsame : SameFrames F m.kernel.mem (unlinkFrame (g + 24) m.kernel.mem) := unlink_same hiso.objects hg hff
    have hiso' := unlink_isolated hiso hg rfl hff
    refine ⟨n, ?_⟩
    change UnmapCalm (m.setMem (unlinkFrame (g + 24) m.kernel.mem))
      (framePa (unlinkFrame (g + 24) m.kernel.mem) (capObj m.kernel.mem tc)) va
      (frameLen (unlinkFrame (g + 24) m.kernel.mem) (m.kernel.mem.get32 (g + 24))) n
    have hpa : framePa (unlinkFrame (g + 24) m.kernel.mem) (capObj m.kernel.mem tc) =
        framePa m.kernel.mem (capObj m.kernel.mem tc) := hsame.pa _ ht
    have hlen : frameLen (unlinkFrame (g + 24) m.kernel.mem) (m.kernel.mem.get32 (g + 24)) =
        frameLen m.kernel.mem (m.kernel.mem.get32 (g + 24)) := hsame.len _ hff
    have hl1' : frameType (unlinkFrame (g + 24) m.kernel.mem) (capObj m.kernel.mem tc) = frameL1 :=
      (hsame.type _ ht).trans hl1
    have hpages' : Pages (m.setMem (unlinkFrame (g + 24) m.kernel.mem))
        (framePa (unlinkFrame (g + 24) m.kernel.mem) (capObj m.kernel.mem tc)) va n (· ≠ 0) := by
      rw [hpa]
      exact ⟨hpages.below, hpages.table, hpages.entry, hpages.own⟩
    have hlaid : Laid (m.setMem (unlinkFrame (g + 24) m.kernel.mem))
        (framePa (unlinkFrame (g + 24) m.kernel.mem) (capObj m.kernel.mem tc)) va
        (frameLen m.kernel.mem (m.kernel.mem.get32 (g + 24))) n := hiso'.tables.laid ht hl1' hshort hn hpages'
    rw [hpa] at hlaid
    rw [hpa, hlen]
    have hstops' : n < pageCount (frameLen m.kernel.mem (m.kernel.mem.get32 (g + 24))) → ∃ j < n,
        ¬ Continuous (m.setMem (unlinkFrame (g + 24) m.kernel.mem))
          (framePa m.kernel.mem (capObj m.kernel.mem tc)) va j := by
      intro hlt
      obtain ⟨j, hj, hc⟩ := hstops hlt
      have hphys : (m.setMem (unlinkFrame (g + 24) m.kernel.mem)).phys = m.phys := rfl
      exact ⟨j, hj, mt (continuous_congr hphys).mp hc⟩
    exact ⟨hroom, hlaid, hstops', fun i hi => ⟨hpages.table i hi, hpages.entry i hi⟩⟩
  | objCreate fid nid => exact hp
  | frameL1Setup cid => exact hp
  | frameL2Map tid cid va => exact hp
  | _ => trivial

theorem Turn.Polite.calm (h : Peaceful L m.kernel) (hp : t.Polite u m) : t.Calm u m := by
  cases t with
  | call c => exact (hp.call c rfl).calm h
  | resume => exact h.resume_calm hp.ready
  | interrupt e s => trivial

end Turns

section Steps

variable {boot : List (ℕ × ℕ)} {g g' : List Making} {k k' : Kernel} {m : Machine} {u e : Addr} {c : SysCall} {t : Turn}
  {W : Addr → List Addr} {fuel n : ℕ} {systick : ℤ} {fill new used M : Set ℕ} {cid dest type r : ℤ} {ev : List Making}

def endpoints (boot : List (ℕ × ℕ)) (g : List Making) (k : Kernel) : Set ℕ :=
  {e | e ∈ live boot g ∧ objType k.mem e = objEndpoint}

def slots (boot : List (ℕ × ℕ)) (g : List Making) (k : Kernel) : Set ℕ := {a | IsSlot k.mem (live boot g) a}

theorem Peaceful.step (h : Peaceful (live boot g) k) (howned : Owned boot k g) (ho : Orderly boot g g' used fill k k')
    (hlawful : ∃ W, Lawful k' W) (hm : Manners (endpoints boot g k) (slots boot g k) fill new k k')
    (hnew : ∀ p ∈ new, p ∈ live boot g' ∧ objType k'.mem p = objProc) (hfill : ∀ c ∈ fill, Unoffered k c) :
    Peaceful (live boot g') k' := by
  have hstays : ∀ {o type}, o ∈ live boot g ∧ objType k.mem o = type → type ≠ objUntyped →
      o ∈ live boot g' ∧ objType k'.mem o = type := by
    rintro o _ ⟨hlive, rfl⟩ hne
    exact ho.typed o hlive hne
  refine ⟨hlawful, fun i p hp => ?_, fun e he => ?_, fun p e c hb hg => ?_, hm.accepts⟩
  · rcases hm.procs i p hp with ⟨j, hj⟩ | hp
    · exact hstays (h.made j p hj) (by decide)
    · exact hnew p hp
  · rcases hm.joined e he with he | he
    · exact hstays (h.joined e he) (by decide)
    · exact hstays he (by decide)
  · rcases hm.offers p e c hb hg with ⟨hb', hg'⟩ | ⟨hslot, hperm, hout⟩
    · refine ho.filled c (howned.give p c hg'.give) (h.offers p e c hb' hg') fun hc => ?_
      exact hfill c hc p e hb' hg'
    · exact ho.filled c hslot hperm hout

theorem Peaceful.loosen (h : Peaceful (live boot g) k) (hk : Loosens k k') :
    Manners (endpoints boot g k) (slots boot g k) fill new k k' := hk.manners h.accepts

end Steps

def Ending.Civil (boot : List (ℕ × ℕ)) (g g' : List Making) (fill : Set ℕ) (k : Kernel) (x : Ending) : Prop :=
  x.All fun m' => (∃ W, Lawful m'.kernel W) ∧ ∃ new,
    (∀ p ∈ new, p ∈ live boot g' ∧ objType m'.kernel.mem p = objProc) ∧
      Manners (endpoints boot g k) (slots boot g k) fill new k m'.kernel

section Calls

variable {boot : List (ℕ × ℕ)} {g g' : List Making} {k k' : Kernel} {m : Machine} {u e : Addr} {c : SysCall} {t : Turn}
  {W : Addr → List Addr} {fuel n : ℕ} {systick : ℤ} {fill M : Set ℕ} {cid dest type r : ℤ}
  {ev : List Making}

theorem Ending.All.civil {x : Ending} (h : x.All fun m' => ∃ W, Lawful m'.kernel W)
    (hm : x.All fun m' => Manners (endpoints boot g k) (slots boot g k) fill ∅ k m'.kernel) :
    x.Civil boot g g' fill k := by
  have hnone : ∀ m' : Machine, ∀ p ∈ (∅ : Set ℕ), p ∈ live boot g' ∧ objType m'.kernel.mem p = objProc :=
    fun _ p hp => absurd hp (Set.notMem_empty p)
  cases x with
  | ret r wrote m' => exact ⟨h, ∅, hnone m', hm⟩
  | sched n m' => exact ⟨h, ∅, hnone m', hm⟩
  | panic => trivial
  | astray => trivial
  | stuck => trivial

theorem Outcome.Obeys.civil {x : Outcome} (h : x.Obeys u)
    (hm : x.All (Manners (endpoints boot g k) (slots boot g k) fill ∅ k)) :
    (Ending.ofOutcome m x).Civil boot g g' fill k := by
  refine Ending.All.civil ?_ hm.ending
  cases x with
  | ret r ev k' => exact h.1
  | sched n k' => exact h
  | panic => trivial
  | stuck => trivial

theorem Ending.All.aside {x : Ending} (h : Peaceful (live boot g) k) (hx : x.All fun m' => Aside k m'.kernel) :
    x.Civil boot g g' fill k := by
  obtain ⟨W, hW⟩ := h.lawful
  cases x with
  | ret r wrote m' => exact Ending.All.civil (x := .ret r wrote m') ⟨W, hx.lawful hW⟩ (h.loosen hx.loosens)
  | sched n m' => exact Ending.All.civil (x := .sched n m') ⟨W, hx.lawful hW⟩ (h.loosen hx.loosens)
  | panic => trivial
  | astray => trivial
  | stuck => trivial

theorem Peaceful.err (h : Peaceful (live boot g) m.kernel) :
    (Ending.ofOutcome m (.ret ERR [] m.kernel)).Civil boot g g' fill m.kernel :=
  Ending.All.aside h (x := .ret _ _ _) .refl

theorem Result.aside {x : Result} (h : ∀ r ev k', x = some (r, ev, k') → Aside k k') :
    (Ending.ofResult m x).All fun m' => Aside k m'.kernel := by
  cases x with
  | none => trivial
  | some y => exact h _ _ _ rfl

theorem Peaceful.idle {o : ℕ} (h : Peaceful (live boot g) k) (hW : Lawful k W) (ho : objType k.mem o ≠ objEndpoint) :
    (k.endpoint o).waiting = ⟨none, none⟩ := by
  have hempty : W o = [] := by
    refine List.eq_nil_iff_forall_not_mem.mpr fun p hp => ho ?_
    exact (h.joined o ⟨p, .inl ((hW.waiting.mem_iff o p).mp hp).2⟩).2
  have hdll := hW.waiting.lists.dll o
  rw [hempty] at hdll
  have hhead : (k.endpoint o).waiting.head = none := hdll.head_eq
  have htail : (k.endpoint o).waiting.tail = none := hdll.tail_eq
  cases hw : (k.endpoint o).waiting
  rw [hw] at hhead htail
  simp only at hhead htail
  rw [hhead, htail]

end Calls

section Runs

variable {systick : ℤ} {r : Root} {mem : Bytes} {m m₀ m' : Machine} {s s' : Machine × List Making} {u : Addr} {t : Turn}
  {fuel : ℕ} {boot : List (ℕ × ℕ)} {L : Set ℕ} {k k' : Kernel} {g g' : List Making} {used fill : Set ℕ}
  {places : List (ℕ × ℕ)}

theorem Peaceful.calm (h : Peaceful L k) (hk : Loosens k k') (hlawful : ∃ W, Lawful k' W)
    (htype : ∀ o ∈ L, objType k'.mem o = objType k.mem o)
    (hperm : ∀ p c, (k.proc p).give = some c → capPerm k'.mem c = capPerm k.mem c) : Peaceful L k' where
  lawful := hlawful
  made := by
    intro i p hp
    obtain ⟨hlive, ht⟩ := h.made i p (hk.procs ▸ hp)
    exact ⟨hlive, (htype p hlive).trans ht⟩
  joined := by
    intro e he
    obtain ⟨hlive, ht⟩ := h.joined e (hk.joined he)
    exact ⟨hlive, (htype e hlive).trans ht⟩
  offers := by
    intro p e c hb hg
    have hg' := hk.gives p e c hg
    rw [hperm p c hg'.give]
    exact h.offers p e c (hk.bare hb) hg'
  accepts := fun _ _ _ hq => hk.accepts h.accepts hq

theorem Peaceful.sched (h : Peaceful L k) (hk : SchedOnly k k') : Peaceful L k' := by
  obtain ⟨W, hW⟩ := h.lawful
  refine h.calm (.sched hk) ⟨W, hW.sched hk⟩ (fun o _ => ?_) fun p c _ => ?_
  · rw [hk.mem]
  · rw [hk.mem]

theorem Peaceful.stored (h : Peaceful (live boot g) k) (howned : Owned boot k g)
    (hs : Stored (live boot g) places k.mem mem) : Peaceful (live boot g) { k with mem := mem } := by
  obtain ⟨W, hW⟩ := h.lawful
  have he : Effect k.mem mem (live boot g) (live boot g) ∅ ∅ := .of_agree howned.part fun o ho => hs.agree ho
  refine h.calm (.of_proc rfl rfl) ⟨W, hW.setMem mem⟩ (fun o ho => ?_) fun p c hg => ?_
  · have hlarge := howned.part.large o ho
    exact objType_congr ((hs.agree ho).mono (le_refl o) (show o + 12 ≤ o + objLen k.mem o by omega))
  · exact (slot_congr (he.slot c (howned.give p c hg) (Set.notMem_empty c))).1

theorem initRoot_loosens : (∃ W, Lawful (initRoot systick r mem) W) ∧
    (∀ p, ((initRoot systick r mem).proc p).label = .user ∨ ((initRoot systick r mem).proc p).label = .ret) ∧
    ∀ i p, (initRoot systick r mem).procs i = some p → p = r.proc := by
  unfold initRoot
  simp only
  generalize objCaplistInit r.caplist 255 _ = mem₀
  set k₀ := procInit systick r.proc (.boot mem₀) with hk₀
  have hlawful : Lawful k₀ fun _ => [] := by
    have hfresh : ∀ i, (Kernel.boot mem₀).procs i ≠ some r.proc := nofun
    have hinit : Lawful (procInit systick r.proc ((Kernel.boot mem₀).setProc r.proc .zero)) fun _ => [] :=
      boot_lawful.make hfresh
    have hzero : (Kernel.boot mem₀).setProc r.proc .zero = .boot mem₀ := by simp [Kernel.setProc, boot]
    rwa [hzero] at hinit
  obtain ⟨n, hk, -⟩ := procSetPriority_frame (k := k₀) (p := r.proc) 1
  have hset : Lawful (procSetPriority r.proc 1 k₀) fun _ => [] := by
    refine Lawful.sched ?_ hk
    exact hlawful.setProc Iff.rfl (fun _ => ⟨rfl, rfl, rfl⟩) (hlawful.rwait · _) (hlawful.made _)
  have hpriority : Loosens k₀ (k₀.setProc r.proc { k₀.proc r.proc with priority := n }) :=
    .setProc (.inl rfl) fun hs => ⟨hs, rfl⟩
  have hloose : Loosens k₀ (procSetPriority r.proc 1 k₀) := hpriority.trans (.sched hk)
  have hfault : ((procSetPriority r.proc 1 k₀).proc r.proc).state = .fault := by
    rw [hk.state, setProc_proc_same]
    change (k₀.proc r.proc).state = .fault
    rw [hk₀]
    unfold procInit
    rw [setProc_proc_same]
  have hmade : (procSetPriority r.proc 1 k₀).procs 1 = some r.proc := by
    rw [hloose.procs]
    rfl
  generalize procSetPriority r.proc 1 k₀ = k₁ at *
  have hroot : Loosens k₁ (k₁.setProc r.proc { k₁.proc r.proc with vspace := r.l1Pa, capRoot := some r.caplist }) :=
    .setProc (.inl rfl) fun hs => ⟨hs, rfl⟩
  have hlawful₂ : Lawful (k₁.setProc r.proc { k₁.proc r.proc with vspace := r.l1Pa, capRoot := some r.caplist })
      fun _ => [] := hset.setProc Iff.rfl (fun _ => ⟨rfl, rfl, rfl⟩) (hset.rwait · _) (hset.made _)
  have hfault₂ : ((k₁.setProc r.proc { k₁.proc r.proc with vspace := r.l1Pa, capRoot := some r.caplist }).proc
      r.proc).state = .fault := by
    rw [setProc_proc_same]
    exact hfault
  generalize k₁.setProc r.proc { k₁.proc r.proc with vspace := r.l1Pa, capRoot := some r.caplist } = k₂ at *
  have hready : ∀ mem, Lawful (procReady r.proc { k₂ with mem := mem }) (fun _ => []) ∧
      Loosens k₀ (procReady r.proc { k₂ with mem := mem }) := by
    intro mem
    constructor
    · refine (hlawful₂.setMem mem).wake ?_ ⟨1, ?_⟩
      · change ¬ (k₂.proc r.proc).state.Waits
        rw [hfault₂]
        decide
      · exact (congrFun hroot.procs 1).trans hmade
    · refine Loosens.trans ?_ procReady_loosens
      exact (hloose.trans hroot).trans (.of_proc rfl rfl)
  obtain ⟨hlawful₃, hloose₃⟩ := hready _
  refine ⟨⟨_, hlawful₃⟩, fun p => ?_, fun i p hp => ?_⟩
  · have huser : (k₀.proc p).label = .user := by
      rw [hk₀]
      unfold procInit
      rw [setProc_proc]
      split_ifs <;> rfl
    rcases hloose₃.label p with hl | hl
    · exact .inl (hl.trans huser)
    · exact hl
  · rw [hloose₃.procs, hk₀] at hp
    change Function.update (fun _ => none) 1 (some r.proc) i = some p at hp
    by_cases hi : i = 1
    · rw [hi, Function.update_self] at hp
      exact (Option.some.inj hp).symm
    · rw [Function.update_of_ne hi] at hp
      cases hp

theorem CapReach.aligned {P : Addr → Machine → Turn → Prop} (hal : m₀.vaNext % 4096 = 0)
    (hs : CapReach P systick r m₀ s) : s.1.vaNext % 4096 = 0 := by
  have hturn : ∀ {fuel u m x} {t : Turn}, t.run systick fuel u m = x → m.vaNext % 4096 = 0 →
      x.All fun m => m.vaNext % 4096 = 0 := by
    rintro fuel u m x t rfl hm
    exact Turn.run_still (Q := fun m => m.vaNext % 4096 = 0) (fun _ _ _ hva hm => hva hm)
      (fun _ _ hm => hm) hm
  induction hs with
  | refl => exact hal
  | tail _ hstep ih =>
    cases hstep with
    | ret running meets fresh runs lengths stored =>
      exact hturn runs ih
    | sched running meets fresh runs switch =>
      exact hturn runs ih

theorem Machine.Booted.unoffered {m : Machine} (hb : m.Booted systick r mem) (c : Addr) : Unoffered m.kernel c := by
  rintro p e ⟨q, hq⟩
  have hlabel : (m.kernel.proc q).label = .user ∨ (m.kernel.proc q).label = .ret := by
    rw [hb.kernel]
    exact (@initRoot_loosens systick r mem).2.1 q
  rcases hlabel with hl | hl <;> rw [hl] at hq <;> cases hq

end Runs

end Agatha.Sys
