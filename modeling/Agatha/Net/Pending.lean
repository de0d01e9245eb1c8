import Agatha.Net.ServerSteps
import Mathlib.Algebra.GroupWithZero.Nat
import Mathlib.Algebra.Order.BigOperators.Group.List
import Mathlib.Algebra.Order.Group.Nat

namespace Agatha.Net

def ArpRequest.isWriteOf (pid : ℤ) (r : ArpRequest) : Bool :=
  match r.func with
  | .udpWrite u => decide (u.procId = pid)
  | .connect .. => false

def bindingsPending (pid : ℤ) (bs : List (Binding TcpBinding)) : ℕ :=
  (bs.map fun b => if b.procId = pid then b.tcp.pending else 0).sum

def pendingOf (pid : ℤ) (bs : List (Binding TcpBinding)) (rs : List ArpRequest) : ℕ :=
  bindingsPending pid bs + rs.countP (ArpRequest.isWriteOf pid)

def waitsOf (pid : ℤ) (ws : List Client) : ℕ := ws.countP fun p => decide (p.pid = pid)

structure Settled (bs : List (Binding TcpBinding)) (rs : List ArpRequest) (ws : List Client) : Prop where
  proper : ∀ b ∈ bs, b.tcp.Proper
  once : ∀ pid, waitsOf pid ws ≤ 1
  pending : ∀ pid, pendingOf pid bs rs ≤ waitsOf pid ws
  accepts : ∀ r ∈ rs, ∀ u, r.func = .udpWrite u → ∃ p ∈ ws, p.pid = u.procId ∧ p.accepts = true

section Pending

variable {bs : List (Binding TcpBinding)} {rs : List ArpRequest} {ws ws' : List Client} {pid : ℤ}
  {b : Binding TcpBinding} {t t' : TcpBinding} {i : ℕ} {r : ArpRequest} {u : UdpWriteReq} {p : Client}

theorem bindingsPending_set (hi : bs[i]? = some b) (pid : ℤ) :
    bindingsPending pid (bs.set i { b with tcp := t' }) + (if b.procId = pid then b.tcp.pending else 0) =
      bindingsPending pid bs + (if b.procId = pid then t'.pending else 0) := by
  unfold bindingsPending
  induction bs generalizing i with
  | nil => cases hi
  | cons d bs ih =>
    cases i with
    | zero =>
      cases hi
      rw [List.set_cons_zero, List.map_cons, List.map_cons, List.sum_cons, List.sum_cons]
      dsimp only
      omega
    | succ i =>
      have hrec := ih (i := i) hi
      rw [List.set_cons_succ, List.map_cons, List.map_cons, List.sum_cons, List.sum_cons]
      omega

theorem waitsOf_eraseP (hp : p ∈ ws) (hpid : p.pid = pid) :
    waitsOf pid (ws.eraseP fun p => decide (p.pid = pid)) + 1 = waitsOf pid ws := by
  induction ws with
  | nil => cases hp
  | cons q ws ih =>
    unfold waitsOf at ih ⊢
    by_cases hq : q.pid = pid
    · rw [List.eraseP_cons_of_pos (by simpa using hq), List.countP_cons_of_pos (by simpa using hq)]
    · rw [List.eraseP_cons_of_neg (by simpa using hq), List.countP_cons_of_neg (by simpa using hq),
        List.countP_cons_of_neg (by simpa using hq)]
      apply ih
      rcases List.mem_cons.mp hp with rfl | hp
      · exact absurd hpid hq
      · exact hp

theorem waitsOf_eraseP_ne {pid' : ℤ} (h : pid' ≠ pid) :
    waitsOf pid' (ws.eraseP fun p => decide (p.pid = pid)) = waitsOf pid' ws := by
  induction ws with
  | nil => rfl
  | cons q ws ih =>
    unfold waitsOf at ih ⊢
    by_cases hq : q.pid = pid
    · have hq' : ¬ q.pid = pid' := fun e => h (e.symm.trans hq)
      rw [List.eraseP_cons_of_pos (by simpa using hq), List.countP_cons_of_neg (by simpa using hq')]
    · rw [List.eraseP_cons_of_neg (by simpa using hq), List.countP_cons, List.countP_cons, ih]

theorem exists_of_waitsOf_pos (h : 0 < waitsOf pid ws) : ∃ p ∈ ws, p.pid = pid := by
  obtain ⟨p, hp, hpid⟩ := List.countP_pos_iff.mp h
  exact ⟨p, hp, by simpa using hpid⟩

theorem pendingOf_pos (hr : r ∈ rs) (hu : r.func = .udpWrite u) : 0 < pendingOf u.procId bs rs := by
  apply Nat.add_pos_right
  refine List.countP_pos_iff.mpr ⟨r, hr, ?_⟩
  unfold ArpRequest.isWriteOf
  rw [hu]
  exact decide_eq_true rfl

theorem Settled.reply (h : Settled bs rs ws) (h0 : pendingOf pid bs rs = 0) :
    Settled bs rs (ws.eraseP fun p => decide (p.pid = pid)) := by
  refine ⟨h.proper, ?_, ?_, ?_⟩
  · intro pid'
    exact le_trans (List.Sublist.countP_le List.eraseP_sublist) (h.once pid')
  · intro pid'
    by_cases he : pid' = pid
    · rw [he, h0]
      exact Nat.zero_le _
    · rw [waitsOf_eraseP_ne he]
      exact h.pending pid'
  · intro r hr u hu
    obtain ⟨p, hp, hpid, hacc⟩ := h.accepts r hr u hu
    refine ⟨p, ?_, hpid, hacc⟩
    apply (List.mem_eraseP_of_neg _).mpr hp
    simp only [decide_eq_true_eq]
    intro he
    have hpos := @pendingOf_pos bs rs r u hr hu
    rw [← hpid, he, h0] at hpos
    exact absurd hpos (by decide)

theorem Settled.set (h : Settled bs rs ws) (hi : bs[i]? = some b) (ht : t'.Proper)
    (hle : pendingOf b.procId bs rs + t'.pending ≤ waitsOf b.procId ws + b.tcp.pending) :
    Settled (bs.set i { b with tcp := t' }) rs ws := by
  refine ⟨?_, h.once, ?_, h.accepts⟩
  · intro d hd
    rcases List.mem_or_eq_of_mem_set hd with hd | rfl
    · exact h.proper d hd
    · exact ht
  · intro pid
    have hset := @bindingsPending_set bs b t' i hi pid
    have hp := h.pending pid
    unfold pendingOf at hp hle ⊢
    split_ifs at hset with he
    · subst he
      omega
    · omega

theorem Settled.told (h : Settled bs rs ws) (hi : bs[i]? = some b) (ht : t'.Proper)
    (hlt : t'.pending + 1 ≤ b.tcp.pending) :
    Settled (bs.set i { b with tcp := t' }) rs (ws.eraseP fun p => decide (p.pid = b.procId)) := by
  have hset := h.set hi ht (by have := h.pending b.procId; omega)
  apply hset.reply
  have hnum := @bindingsPending_set bs b t' i hi b.procId
  have hp := h.pending b.procId
  have hone := h.once b.procId
  rw [if_pos rfl, if_pos rfl] at hnum
  unfold pendingOf at hp ⊢
  omega

theorem Settled.recv (h : Settled bs rs ws) {a : Bool} (hfree : ∀ p ∈ ws, p.pid ≠ pid) :
    Settled bs rs (ws ++ [⟨pid, a⟩]) ∧ pendingOf pid bs rs = 0 ∧ waitsOf pid (ws ++ [⟨pid, a⟩]) = 1 := by
  have hzero : waitsOf pid ws = 0 := by
    apply List.countP_eq_zero.mpr
    intro p hp
    simpa using hfree p hp
  have happ : ∀ pid', waitsOf pid' (ws ++ [⟨pid, a⟩]) = waitsOf pid' ws + if pid = pid' then 1 else 0 := by
    intro pid'
    unfold waitsOf
    rw [List.countP_append, List.countP_singleton]
    simp
  refine ⟨⟨h.proper, ?_, ?_, ?_⟩, ?_, ?_⟩
  · intro pid'
    rw [happ]
    split_ifs with he
    · rw [← he, hzero]
    · exact h.once pid'
  · intro pid'
    rw [happ]
    exact Nat.le_add_right_of_le (h.pending pid')
  · intro r hr u hu
    obtain ⟨p, hp, hpid, hacc⟩ := h.accepts r hr u hu
    exact ⟨p, List.mem_append_left _ hp, hpid, hacc⟩
  · have hle := h.pending pid
    omega
  · rw [happ, hzero, if_pos rfl]

theorem Settled.perm {rs' : List ArpRequest} (h : Settled bs rs ws) (hp : rs.Perm rs') : Settled bs rs' ws := by
  refine ⟨h.proper, h.once, ?_, ?_⟩
  · intro pid
    have hle := h.pending pid
    unfold pendingOf at hle ⊢
    rwa [← hp.countP_eq]
  · intro r hr
    exact h.accepts r (hp.mem_iff.mpr hr)

theorem Settled.tail (h : Settled bs (r :: rs) ws) : Settled bs rs ws := by
  refine ⟨h.proper, h.once, ?_, fun r hr => h.accepts r (List.mem_cons_of_mem _ hr)⟩
  intro pid
  have hle := h.pending pid
  unfold pendingOf at hle ⊢
  rw [List.countP_cons] at hle
  omega

theorem Settled.written (h : Settled bs (r :: rs) ws) (hu : r.func = .udpWrite u) :
    pendingOf u.procId bs rs = 0 := by
  have hle := h.pending u.procId
  have hone := h.once u.procId
  have his : r.isWriteOf u.procId = true := by
    unfold ArpRequest.isWriteOf
    rw [hu]
    exact decide_eq_true rfl
  unfold pendingOf at hle ⊢
  rw [List.countP_cons_of_pos his] at hle
  omega

theorem Settled.cons (h : Settled bs rs ws) (h0 : pendingOf u.procId bs rs = 0)
    (hacc : ∃ p ∈ ws, p.pid = u.procId ∧ p.accepts = true) {ip : List UInt8} :
    Settled bs (⟨ip, .udpWrite u⟩ :: rs) ws := by
  have hcons : ∀ pid, pendingOf pid bs (⟨ip, .udpWrite u⟩ :: rs) =
      pendingOf pid bs rs + if u.procId = pid then 1 else 0 := by
    intro pid
    unfold pendingOf
    rw [List.countP_cons]
    unfold ArpRequest.isWriteOf
    simp [Nat.add_assoc]
  refine ⟨h.proper, h.once, ?_, ?_⟩
  · intro pid
    rw [hcons]
    split_ifs with he
    · subst he
      obtain ⟨p, hp, hpid, -⟩ := hacc
      rw [h0]
      exact List.countP_pos_iff.mpr ⟨p, hp, by simpa using hpid⟩
    · exact h.pending pid
  · intro r hr v hv
    rcases List.mem_cons.mp hr with rfl | hr
    · cases hv
      exact hacc
    · exact h.accepts r hr v hv

theorem Settled.cons_connect (h : Settled bs rs ws) {ip : List UInt8} {bid : ℤ} {con : ℕ} :
    Settled bs (⟨ip, .connect bid con⟩ :: rs) ws := by
  refine ⟨h.proper, h.once, ?_, ?_⟩
  · intro pid
    have hle := h.pending pid
    unfold pendingOf at hle ⊢
    rwa [List.countP_cons_of_neg (by unfold ArpRequest.isWriteOf; simp)]
  · intro r hr v hv
    rcases List.mem_cons.mp hr with rfl | hr
    · cases hv
    · exact h.accepts r hr v hv

theorem bindingsPending_cons : bindingsPending pid (b :: bs) =
    (if b.procId = pid then b.tcp.pending else 0) + bindingsPending pid bs := by
  unfold bindingsPending
  rw [List.map_cons, List.sum_cons]

theorem Settled.bind (h : Settled bs rs ws) (hb : b.tcp = emptyTcp) : Settled (b :: bs) rs ws := by
  refine ⟨?_, h.once, ?_, h.accepts⟩
  · intro d hd
    rcases List.mem_cons.mp hd with rfl | hd
    · rw [hb]
      constructor
      · intro c hc
        cases hc
      · intro c hc
        cases hc
    · exact h.proper d hd
  · intro pid
    have hle := h.pending pid
    have h0 : b.tcp.pending = 0 := by
      rw [hb]
      rfl
    unfold pendingOf at hle ⊢
    rw [bindingsPending_cons, h0]
    simpa using hle

theorem Settled.unbind (h : Settled bs rs ws) (i : ℕ) : Settled (bs.eraseIdx i) rs ws := by
  refine ⟨fun b hb => h.proper b (List.mem_of_mem_eraseIdx hb), h.once, ?_, h.accepts⟩
  intro pid
  have hle := h.pending pid
  have hsub : bindingsPending pid (bs.eraseIdx i) ≤ bindingsPending pid bs :=
    ((List.eraseIdx_sublist bs i).map _).sum_le_sum fun _ _ => Nat.zero_le _
  unfold pendingOf at hle ⊢
  omega

end Pending

end Agatha.Net
