import Agatha.Net.Requests

namespace Agatha.Net

def TcpSeg.fin (t : TcpSeg) : Bool := hasFlag t.flags tcpFlagFin

def TcpState.early : TcpState → Bool
  | .listen | .synSent | .synReceived => true
  | _ => false

def Con.waits (c : Con) : Bool :=
  match c.state with
  | .synSent | .finWait1 | .finWait2 => true
  | .established => c.sending.any TcpSeg.fin
  | _ => false

def frameLen (len : ℕ) : ℕ := (14 + (20 + len)) % 2 ^ 32

def Plain (len n : ℕ) : Prop := n = 0 ∨ n = len

/-- The slot and the blocked processes stay, and all that is queued or sent was queued before or has no
data or `len` bytes; what ends the connection is not queued early. -/
structure Mild (len : ℕ) (x y : Con × Io) : Prop where
  same : y.1.binding = x.1.binding ∧ y.1.id = x.1.id
  segments : ∀ f ∈ x.2.segments, f ∈ y.2.segments
  sending : ∀ t ∈ y.1.sending, t ∈ x.1.sending ∨ Plain len t.len
  sent : ∀ n ∈ y.2.sent, n ∈ x.2.sent ∨ ∃ t : TcpSeg, (t ∈ x.1.sending ∨ Plain len t.len) ∧ n = frameLen (20 + t.len)
  slot : y.2.slot = x.2.slot
  waiting : y.2.waiting = x.2.waiting
  early : y.1.state.early = true →
    x.1.state.early = true ∧ ∀ t ∈ y.1.sending, t ∈ x.1.sending ∨ t.fin = false

structure Quiet (len : ℕ) (x y : Con × Io) : Prop extends Mild len x y where
  fins : ∀ t ∈ y.1.sending, t ∈ x.1.sending ∨ t.fin = false
  waits : y.1.waits = true → x.1.waits = true

structure Told (len : ℕ) (pid : ℤ) (x y : Con × Io) : Prop where
  mild : Mild len (x.1, x.2.reply pid) y
  waits : y.1.waits = false

section Steps

variable {w : World} {x y z : Con × Io} {c c' : Con} {io io' : Io} {pid : ℤ} {flags : ℕ} {t : TcpSeg}
  {l : List TcpSeg} {p : IpPkt} {mac : Option (List UInt8)} {seq ack len : ℕ} {data : List UInt8}

theorem Mild.refl (x : Con × Io) : Mild len x x := by
  constructor
  · exact ⟨rfl, rfl⟩
  · exact fun f hf => hf
  · exact fun t ht => .inl ht
  · exact fun n hn => .inl hn
  · rfl
  · rfl
  · exact fun h => ⟨h, fun t ht => .inl ht⟩

theorem Mild.trans (h : Mild len x y) (h' : Mild len y z) : Mild len x z := by
  constructor
  · exact ⟨h'.same.1.trans h.same.1, h'.same.2.trans h.same.2⟩
  · exact fun f hf => h'.segments f (h.segments f hf)
  · intro t ht
    rcases h'.sending t ht with ht | h0
    · exact h.sending t ht
    · exact .inr h0
  · intro n hn
    rcases h'.sent n hn with hn | ⟨t, ht | h0, rfl⟩
    · exact h.sent n hn
    · exact .inr ⟨t, h.sending t ht, rfl⟩
    · exact .inr ⟨t, .inr h0, rfl⟩
  · exact h'.slot.trans h.slot
  · exact h'.waiting.trans h.waiting
  · intro he
    obtain ⟨he', hf'⟩ := h'.early he
    obtain ⟨he'', hf⟩ := h.early he'
    refine ⟨he'', ?_⟩
    intro t ht
    rcases hf' t ht with ht | h0
    · exact hf t ht
    · exact .inr h0

theorem Quiet.refl (x : Con × Io) : Quiet len x x := ⟨.refl x, fun _ ht => .inl ht, id⟩

theorem Quiet.trans (h : Quiet len x y) (h' : Quiet len y z) : Quiet len x z := by
  refine ⟨h.toMild.trans h'.toMild, ?_, fun hw => h.waits (h'.waits hw)⟩
  intro t ht
  rcases h'.fins t ht with ht | h0
  · exact h.fins t ht
  · exact .inr h0

theorem Told.trans (h : Told len pid x y) (h' : Quiet len y z) : Told len pid x z := by
  refine ⟨h.mild.trans h'.toMild, ?_⟩
  cases hw : z.1.waits with
  | false => rfl
  | true => exact (h'.waits hw).symm.trans h.waits

theorem Quiet.waits_le (h : Quiet len x y) : y.1.waits.toNat ≤ x.1.waits.toNat := by
  cases hy : y.1.waits with
  | false => exact Nat.zero_le _
  | true => rw [h.waits hy]

theorem Mild.of_state (hid : c'.binding = c.binding ∧ c'.id = c.id) (hs : c'.sending = c.sending)
    (he : c'.state.early = true → c.state.early = true) : Mild len (c, io) (c', io) := by
  constructor
  · exact hid
  · exact fun f hf => hf
  · intro t ht
    exact .inl (hs ▸ ht)
  · exact fun n hn => .inl hn
  · rfl
  · rfl
  · exact fun h => ⟨he h, fun t ht => .inl (hs ▸ ht)⟩

theorem trimSending_subset (ht : t ∈ trimSending l) : t ∈ l := by
  induction l with
  | nil => cases ht
  | cons p next ih =>
    cases next with
    | nil => exact ht
    | cons o next =>
      unfold trimSending at ht
      split_ifs at ht
      · exact ht
      · exact List.mem_cons_of_mem _ (ih ht)

theorem sendIpv4Pkt_sent {len n : ℕ} (hn : n ∈ (io.sendIpv4Pkt w len).2.sent) : n ∈ io.sent ∨ n = frameLen len := by
  unfold Io.sendIpv4Pkt at hn
  split_ifs at hn
  · rcases List.mem_append.mp hn with hn | hn
    · exact .inl hn
    · exact .inr (List.mem_singleton.mp hn)
  · exact .inl hn

@[simp] theorem sendIpv4Pkt_slot {len : ℕ} : (io.sendIpv4Pkt w len).2.slot = io.slot := by
  unfold Io.sendIpv4Pkt
  split_ifs <;> rfl

@[simp] theorem sendIpv4Pkt_waiting {len : ℕ} : (io.sendIpv4Pkt w len).2.waiting = io.waiting := by
  unfold Io.sendIpv4Pkt
  split_ifs <;> rfl

theorem sendSegment_sent {f : TcpFrame} : (io.sendSegment w f).sent = (io.sendIpv4Pkt w (20 + f.len)).2.sent := by
  unfold Io.sendSegment
  dsimp only
  split_ifs <;> rfl

@[simp] theorem sendSegment_slot {f : TcpFrame} : (io.sendSegment w f).slot = io.slot := by
  rw [← @sendIpv4Pkt_slot w io (20 + f.len)]
  unfold Io.sendSegment
  dsimp only
  split_ifs <;> rfl

@[simp] theorem sendSegment_waiting {f : TcpFrame} : (io.sendSegment w f).waiting = io.waiting := by
  rw [← @sendIpv4Pkt_waiting w io (20 + f.len)]
  unfold Io.sendSegment
  dsimp only
  split_ifs <;> rfl

theorem sendSegment_segments {f : TcpFrame} :
    (io.sendSegment w f).segments = io.segments ++ if w.alloc io.calls = true then [f] else [] := by
  unfold Io.sendSegment Io.sendIpv4Pkt
  split_ifs
  · rfl
  · exact (List.append_nil _).symm

theorem sendSegment_mono {f g : TcpFrame} (hf : f ∈ io.segments) : f ∈ (io.sendSegment w g).segments := by
  rw [sendSegment_segments]
  exact List.mem_append_left _ hf

theorem waits_of_subset (hs : c'.state = c.state) (hsub : ∀ t ∈ c'.sending, t ∈ c.sending ∨ t.fin = false)
    (h : c'.waits = true) : c.waits = true := by
  unfold Con.waits at h ⊢
  rw [hs] at h
  split at h
  all_goals try exact h
  obtain ⟨t, ht, hf⟩ := List.any_eq_true.mp h
  rcases hsub t ht with ht | h0
  · exact List.any_eq_true.mpr ⟨t, ht, hf⟩
  · rw [hf] at h0
    cases h0

theorem sendTcpPkt_quiet (x : Con × Io) : Quiet len x (sendTcpPkt w x) := by
  obtain ⟨c, io⟩ := x
  have hsub : ∀ t ∈ trimSending c.sending, t ∈ c.sending := fun t => trimSending_subset
  unfold sendTcpPkt
  dsimp only
  generalize trimSending c.sending = l at hsub
  cases l with
  | nil =>
    refine ⟨⟨⟨rfl, rfl⟩, fun f hf => hf, ?_, fun n hn => .inl hn, rfl, rfl, fun he => ⟨he, ?_⟩⟩, ?_, ?_⟩
    · intro t ht
      cases ht
    · intro t ht
      cases ht
    · intro t ht
      cases ht
    · refine @waits_of_subset c { c with sending := [] } rfl ?_
      intro t ht
      cases ht
  | cons p next =>
    dsimp only
    have hp : p ∈ c.sending := hsub p List.mem_cons_self
    refine ⟨⟨⟨rfl, rfl⟩, fun f hf => sendSegment_mono hf, fun t ht => .inl (hsub t ht), ?_, sendSegment_slot,
      sendSegment_waiting, ?_⟩, fun t ht => .inl (hsub t ht), ?_⟩
    · intro n hn
      rcases sendIpv4Pkt_sent (sendSegment_sent ▸ hn) with hn | hn
      · exact .inl hn
      · exact .inr ⟨p, .inl hp, hn⟩
    · intro he
      refine ⟨?_, fun t ht => .inl (hsub t ht)⟩
      dsimp only at he ⊢
      split_ifs at he
      · split at he
        · cases he
        · cases he
        · exact he
      · exact he
    · intro hw
      by_cases hf : hasFlag p.flags tcpFlagFin = true
      · unfold Con.waits at hw ⊢
        rw [if_pos hf] at hw
        dsimp only at hw ⊢
        cases hs : c.state <;> rw [hs] at hw <;> simp_all
        exact ⟨p, hp, hf⟩
      · rw [if_neg hf] at hw
        exact @waits_of_subset c { c with sending := p :: next } rfl (fun t ht => .inl (hsub t ht)) hw

theorem addPkt_mild {n : ℕ} (hf : c.state.early = true → hasFlag flags tcpFlagFin = false) (hlen : Plain len n) :
    Mild len (c, io) (addPkt w flags n (c, io)) := by
  unfold addPkt
  dsimp only
  split_ifs
  · constructor
    · exact ⟨rfl, rfl⟩
    · exact fun f hf => hf
    · intro t ht
      rcases List.mem_append.mp ht with ht | ht
      · exact .inl ht
      · cases List.mem_singleton.mp ht
        exact .inr hlen
    · exact fun n hn => .inl hn
    · rfl
    · rfl
    · intro he
      refine ⟨he, ?_⟩
      intro t ht
      rcases List.mem_append.mp ht with ht | ht
      · exact .inl ht
      · cases List.mem_singleton.mp ht
        exact .inr (hf he)
  · exact ⟨⟨rfl, rfl⟩, fun f hf => hf, fun t ht => .inl ht, fun n hn => .inl hn, rfl, rfl,
      fun he => ⟨he, fun t ht => .inl ht⟩⟩

theorem addPkt_quiet {n : ℕ} (hf : hasFlag flags tcpFlagFin = false) (hlen : Plain len n) :
    Quiet len (c, io) (addPkt w flags n (c, io)) := by
  have hfins : ∀ t ∈ (addPkt w flags n (c, io)).1.sending, t ∈ c.sending ∨ t.fin = false := by
    unfold addPkt
    dsimp only
    split_ifs
    · intro t ht
      rcases List.mem_append.mp ht with ht | ht
      · exact .inl ht
      · cases List.mem_singleton.mp ht
        exact .inr hf
    · exact fun t ht => .inl ht
  refine ⟨addPkt_mild (fun _ => hf) hlen, hfins, waits_of_subset ?_ hfins⟩
  unfold addPkt
  dsimp only
  split_ifs <;> rfl

theorem ackAndSend_quiet (x : Con × Io) : Quiet len x (ackAndSend w x) :=
  (addPkt_quiet rfl (.inl rfl)).trans (sendTcpPkt_quiet _)

@[simp] theorem reply_slot : (io.reply pid).slot = io.slot := by
  unfold Io.reply
  split_ifs <;> rfl

@[simp] theorem reply_segments : (io.reply pid).segments = io.segments := by
  unfold Io.reply
  split_ifs <;> rfl

@[simp] theorem reply_sent : (io.reply pid).sent = io.sent := by
  unfold Io.reply
  split_ifs <;> rfl

theorem reply_waiting : (io.reply pid).waiting = io.waiting.eraseP fun p => decide (p.pid = pid) := by
  unfold Io.reply
  split_ifs with h
  · rfl
  · symm
    apply List.eraseP_of_forall_not
    intro p hp hpid
    exact h (List.any_eq_true.mpr ⟨p, hp, hpid⟩)

theorem Mild.reply (h : Mild len x y) (pid : ℤ) : Mild len (x.1, x.2.reply pid) (y.1, y.2.reply pid) := by
  refine ⟨h.same, ?_, h.sending, ?_, ?_, ?_, h.early⟩
  · dsimp only
    rw [reply_segments, reply_segments]
    exact h.segments
  · dsimp only
    rw [reply_sent, reply_sent]
    exact h.sent
  · dsimp only
    rw [reply_slot, reply_slot]
    exact h.slot
  · dsimp only
    rw [reply_waiting, reply_waiting, h.waiting]

theorem Quiet.of_state (hid : c'.binding = c.binding ∧ c'.id = c.id) (hs : c'.sending = c.sending)
    (he : c'.state.early = true → c.state.early = true)
    (hw : c'.waits = false) : Quiet len (c, io) (c', io) := by
  refine ⟨.of_state hid hs he, fun t ht => .inl (hs ▸ ht), ?_⟩
  intro h
  exact absurd (h.symm.trans hw) (by decide)

theorem trimSending_any : (trimSending l).any TcpSeg.fin = l.any TcpSeg.fin := by
  induction l with
  | nil => rfl
  | cons p next ih =>
    cases next with
    | nil => rfl
    | cons o next =>
      unfold trimSending
      split_ifs with h
      · rfl
      · have hp : p.fin = false := by
          unfold TcpSeg.fin
          simp only [not_or, Bool.not_eq_true] at h
          exact h.2.1
        rw [ih, List.any_cons (a := p), hp, Bool.false_or]

theorem dropAcked_any : (dropAcked ack l).any TcpSeg.fin = l.any TcpSeg.fin := by
  induction l with
  | nil => rfl
  | cons p next ih =>
    unfold dropAcked
    split_ifs with h
    · rfl
    · have hp : p.fin = false := by
        unfold TcpSeg.fin
        simp only [not_or, Bool.not_eq_true] at h
        exact h.2
      rw [ih, List.any_cons, hp, Bool.false_or]

theorem waits_congr (hs : c'.state = c.state) (hf : c'.sending.any TcpSeg.fin = c.sending.any TcpSeg.fin) :
    c'.waits = c.waits := by
  unfold Con.waits
  rw [hs, hf]

theorem sendTcpPkt_waits (x : Con × Io) : (sendTcpPkt w x).1.waits = x.1.waits := by
  obtain ⟨c, io⟩ := x
  have hany := @trimSending_any c.sending
  unfold sendTcpPkt
  dsimp only
  generalize trimSending c.sending = l at hany
  cases l with
  | nil => exact @waits_congr c { c with sending := [] } rfl hany
  | cons p next =>
    dsimp only
    by_cases hf : hasFlag p.flags tcpFlagFin = true
    · have hfin : (p :: next).any TcpSeg.fin = true := List.any_eq_true.mpr ⟨p, List.mem_cons_self, hf⟩
      rw [hfin] at hany
      rw [if_pos hf]
      unfold Con.waits
      cases hs : c.state <;> simp [hany.symm]
    · rw [if_neg hf]
      exact @waits_congr c { c with sending := p :: next } rfl hany

theorem addPkt_waits {n : ℕ} (hf : hasFlag flags tcpFlagFin = false) : (addPkt w flags n (c, io)).1.waits = c.waits := by
  unfold addPkt
  dsimp only
  split_ifs
  · refine @waits_congr c { c with sending := c.sending ++ [⟨c.nextSeq, flags, n⟩] } rfl ?_
    have hlast : TcpSeg.fin ⟨c.nextSeq, flags, n⟩ = false := hf
    rw [List.any_append, List.any_cons, hlast, List.any_nil, Bool.or_false, Bool.or_false]
  · rfl

theorem ackAndSend_waits (x : Con × Io) : (ackAndSend w x).1.waits = x.1.waits :=
  (sendTcpPkt_waits _).trans (addPkt_waits rfl)

def forgets (p : IpPkt) (c : Con) : Bool :=
  !hasFlag (tcpFlags p) tcpFlagRst && hasFlag (tcpFlags p) tcpFlagFin && decide (c.state = .established) && c.waits

structure Steady (len : ℕ) (forget : Prop) (x y : Con × Io) : Prop where
  quiet : Quiet len x y
  keeps : ¬ forget → y.1.waits = x.1.waits

theorem Steady.send {forget : Prop} (h : Steady len forget x y) : Steady len forget x (sendTcpPkt w y) :=
  ⟨h.quiet.trans (sendTcpPkt_quiet _), fun hf => (sendTcpPkt_waits y).trans (h.keeps hf)⟩

theorem handleTcpFin_spec : Steady len (c.state = .established ∧ c.waits = true) (c, io) (handleTcpFin w pid c io) ∨
    c.waits = true ∧ Told len pid (c, io) (handleTcpFin w pid c io) := by
  unfold handleTcpFin
  split
  · rename_i hs
    left
    dsimp only
    set c1 : Con := { c with state := .closeWait, rcv := { c.rcv with closing := true } }
    have hno : ¬ (c.state = .established ∧ c.waits = true) → c.waits = false := by
      intro hf
      cases hw : c.waits with
      | false => rfl
      | true => exact absurd ⟨hs, hw⟩ hf
    split_ifs
    · have hclose : Quiet len (c, io) (c1.bumpAck, io) := .of_state ⟨rfl, rfl⟩ rfl (fun h => by cases h) rfl
      exact ⟨hclose.trans (ackAndSend_quiet _), fun hf => (ackAndSend_waits _).trans (hno hf).symm⟩
    · exact ⟨.of_state ⟨rfl, rfl⟩ rfl (fun h => by cases h) rfl, fun hf => (hno hf).symm⟩
  · rename_i hs
    right
    have htold : Told len pid (c, io) ({ c.bumpAck with state := .timeWait }, io.reply pid) :=
      ⟨.of_state ⟨rfl, rfl⟩ rfl (fun h => by cases h), rfl⟩
    refine ⟨?_, htold.trans (ackAndSend_quiet _)⟩
    unfold Con.waits
    rw [hs]
  · rename_i hs
    right
    have htold : Told len pid (c, io) ({ c.bumpAck with state := .timeWait }, io.reply pid) :=
      ⟨.of_state ⟨rfl, rfl⟩ rfl (fun h => by cases h), rfl⟩
    refine ⟨?_, htold.trans (ackAndSend_quiet _)⟩
    unfold Con.waits
    rw [hs]
  · exact .inl ⟨ackAndSend_quiet _, fun _ => ackAndSend_waits _⟩
  · exact .inl ⟨.refl _, fun _ => rfl⟩

theorem waits_established (hs : c.state = .established) (hf : ∀ t ∈ c.sending, t.fin = false) : c.waits = false := by
  unfold Con.waits
  rw [hs]
  apply List.any_eq_false.mpr
  intro t ht
  rw [hf t ht]
  decide

theorem handleTcpSyn_spec {portSrc : ℕ} (hearly : c.state.early = true → ∀ t ∈ c.sending, t.fin = false) :
    Steady len False (c, io) (handleTcpSyn w pid p seq portSrc mac c io) ∨
      c.waits = true ∧ Told len pid (c, io) (handleTcpSyn w pid p seq portSrc mac c io) := by
  unfold handleTcpSyn
  split
  · rename_i hs
    right
    have hfin : ∀ t ∈ c.sending, t.fin = false := hearly (by rw [hs]; rfl)
    refine ⟨by unfold Con.waits; rw [hs], ?_⟩
    dsimp only
    set c1 : Con := { c with state := .established, rcv := { c.rcv with ack := (seq + 1) % 2 ^ 32 }
                             nextSeq := (c.nextSeq + 1) % 2 ^ 32 } with hc1
    have hc : Quiet len (c, io) (c1, io) :=
      .of_state ⟨rfl, rfl⟩ rfl (fun h => by cases h) (waits_established rfl hfin)
    have hq : Quiet len (c, io) (ackAndSend w (c1, io)) := hc.trans (ackAndSend_quiet _)
    generalize ackAndSend w (c1, io) = x at hq
    have hfins : ∀ t ∈ x.1.sending, t.fin = false := by
      intro t ht
      rcases hq.fins t ht with ht | h0
      · exact hfin t ht
      · exact h0
    constructor
    · have hset : Mild len (c, io) ({ x.1 with state := .established }, x.2) :=
        hq.toMild.trans (.of_state ⟨rfl, rfl⟩ rfl (fun h => by cases h))
      exact hset.reply pid
    · exact waits_established rfl hfins
  · rename_i hs
    left
    dsimp only
    split
    · exact ⟨.of_state ⟨rfl, rfl⟩ rfl id (by unfold Con.waits; rw [hs]), fun _ => waits_congr rfl rfl⟩
    · rename_i m
      have hnot : c.waits = false := by
        unfold Con.waits
        rw [hs]
      have hopen : Quiet len (c, io) ({ c with
          portRem := portSrc, addrRem := p.srcIpv4, macRem := m, state := .synReceived
          rcv := { c.rcv with ack := (seq + 1) % 2 ^ 32 } }, io) :=
        .of_state ⟨rfl, rfl⟩ rfl (fun _ => by rw [hs]; rfl) rfl
      refine ⟨(hopen.trans (addPkt_quiet rfl (.inl rfl))).trans (sendTcpPkt_quiet _), fun _ => ?_⟩
      exact ((sendTcpPkt_waits _).trans (addPkt_waits rfl)).trans hnot.symm
  · exact .inl ⟨.refl _, fun _ => rfl⟩

theorem insertReceivedFor_waits {q : TcpPkt} : (insertReceivedFor w q c io).1.waits = c.waits := by
  unfold insertReceivedFor
  split_ifs <;> rfl

theorem insertReceivedFor_quiet {q : TcpPkt} : Quiet len (c, io) (insertReceivedFor w q c io) := by
  have hio : ∀ io' : Io, io'.sent = io.sent → io'.segments = io.segments → io'.slot = io.slot →
      io'.waiting = io.waiting → ∀ rcv, Quiet len (c, io) ({ c with rcv := rcv }, io') := by
    intro io' h1 hseg h2 h3 rcv
    exact ⟨⟨⟨rfl, rfl⟩, fun f hf => hseg ▸ hf, fun t ht => .inl ht, fun n hn => .inl (h1 ▸ hn), h2, h3, fun he => ⟨he, fun t ht => .inl ht⟩⟩,
      fun t ht => .inl ht, id⟩
  unfold insertReceivedFor
  split_ifs
  · exact .refl _
  · exact hio io.next rfl rfl rfl rfl c.rcv
  · exact hio io.next.next rfl rfl rfl rfl c.rcv
  · exact hio io.next.next rfl rfl rfl rfl _

theorem handleTcpAckFor_spec {isListenCon : Bool}
    (hearly : c.state.early = true → ∀ t ∈ c.sending, t.fin = false) :
    ((handleTcpAckFor w pid isListenCon seq ack data c io).1 = false ∧
      Steady len False (c, io) (handleTcpAckFor w pid isListenCon seq ack data c io).2) ∨
    ((handleTcpAckFor w pid isListenCon seq ack data c io).1 = true ∧ isListenCon = true ∧
      Told len pid (c, io) (handleTcpAckFor w pid isListenCon seq ack data c io).2) := by
  unfold handleTcpAckFor
  split
  · rename_i hs
    have htail : Quiet len (c, io) ({ c with sending := c.sending.tail }, io) := by
      have hsub : ∀ t ∈ c.sending.tail, t ∈ c.sending ∨ t.fin = false := fun t ht => .inl (List.mem_of_mem_tail ht)
      refine ⟨⟨⟨rfl, rfl⟩, fun f hf => hf, fun t ht => .inl (List.mem_of_mem_tail ht), fun n hn => .inl hn, rfl, rfl,
        fun he => ⟨he, hsub⟩⟩, hsub, ?_⟩
      exact @waits_of_subset c { c with sending := c.sending.tail } rfl hsub
    split_ifs
    · refine .inl ⟨rfl, htail, fun _ => ?_⟩
      unfold Con.waits
      rw [hs]
    · exact .inl ⟨rfl, .refl _, fun _ => rfl⟩
  · rename_i hs
    split_ifs
    · left
      have hsub : ∀ t ∈ c.sending.tail, t ∈ c.sending ∨ t.fin = false := fun t ht => .inl (List.mem_of_mem_tail ht)
      have hold : c.waits = true := by
        unfold Con.waits
        rw [hs]
      exact ⟨rfl, ⟨⟨⟨rfl, rfl⟩, fun f hf => hf, fun t ht => .inl (List.mem_of_mem_tail ht), fun n hn => .inl hn, rfl,
        rfl, fun he => by cases he⟩, hsub, fun _ => hold⟩, fun _ => hold.symm⟩
    · exact .inl ⟨rfl, sendTcpPkt_quiet _, fun _ => sendTcpPkt_waits _⟩
  · rename_i hs
    dsimp only
    have hfin : ∀ t ∈ c.sending, t.fin = false := hearly (by rw [hs]; rfl)
    split_ifs with hl
    · right
      exact ⟨rfl, hl, .of_state ⟨rfl, rfl⟩ rfl (fun h => by cases h), waits_established rfl hfin⟩
    · left
      have hold : c.waits = false := by
        unfold Con.waits
        rw [hs]
      have hnow := @waits_established { c with state := .established, nextSeq := (c.nextSeq + 1) % 2 ^ 32 } rfl hfin
      exact ⟨rfl, .of_state ⟨rfl, rfl⟩ rfl (fun h => by cases h) hnow, fun _ => hnow.trans hold.symm⟩
  · left
    split_ifs
    · exact ⟨rfl, insertReceivedFor_quiet, fun _ => insertReceivedFor_waits⟩
    · exact ⟨rfl, ackAndSend_quiet _, fun _ => ackAndSend_waits _⟩
    · exact ⟨rfl, .refl _, fun _ => rfl⟩
  · exact .inl ⟨rfl, .refl _, fun _ => rfl⟩

theorem dropAcked_subset (ht : t ∈ dropAcked ack l) : t ∈ l := by
  induction l with
  | nil => cases ht
  | cons p next ih =>
    unfold dropAcked at ht
    split_ifs at ht
    · exact ht
    · exact List.mem_cons_of_mem _ (ih ht)

theorem conInput_spec {isListenCon : Bool}
    (hearly : c.state.early = true → ∀ t ∈ c.sending, t.fin = false) :
    ((conInput w pid isListenCon mac p c io).1 = false ∧
      (Steady len (forgets p c = true) (c, io) (conInput w pid isListenCon mac p c io).2 ∨
        c.waits = true ∧ Told len pid (c, io) (conInput w pid isListenCon mac p c io).2)) ∨
    ((conInput w pid isListenCon mac p c io).1 = true ∧ isListenCon = true ∧
      Told len pid (c, io) (conInput w pid isListenCon mac p c io).2) := by
  unfold conInput
  dsimp only
  set c1 : Con := if hasFlag (tcpFlags p) tcpFlagAck then { c with sending := dropAcked (tcpAck p) c.sending } else c
  have hstate : c1.state = c.state := by
    unfold c1
    split_ifs <;> rfl
  have hsame : c1.binding = c.binding ∧ c1.id = c.id := by
    unfold c1
    split_ifs <;> exact ⟨rfl, rfl⟩
  have hsub : ∀ t ∈ c1.sending, t ∈ c.sending := by
    unfold c1
    split_ifs
    · exact fun t => dropAcked_subset
    · exact fun t => id
  have hq : Quiet len (c, io) (c1, io) := by
    refine ⟨⟨hsame, fun f hf => hf, fun t ht => .inl (hsub t ht), fun n hn => .inl hn, rfl, rfl, ?_⟩,
      fun t ht => .inl (hsub t ht), ?_⟩
    · intro he
      exact ⟨hstate ▸ he, fun t ht => .inl (hsub t ht)⟩
    · exact waits_of_subset hstate fun t ht => .inl (hsub t ht)
  have hwaits1 : c1.waits = c.waits := by
    apply waits_congr hstate
    unfold c1
    split_ifs
    · exact dropAcked_any
    · rfl
  have hearly1 : c1.state.early = true → ∀ t ∈ c1.sending, t.fin = false := by
    intro he t ht
    exact hearly (hstate ▸ he) t (hsub t ht)
  have hto : ∀ y, Told len pid (c1, io) y → Told len pid (c, io) y := fun y h =>
    ⟨(hq.toMild.reply pid).trans h.mild, h.waits⟩
  have hfrom : ∀ {forget : Prop} y, Steady len forget (c1, io) y → (forget → forgets p c = true) →
      Steady len (forgets p c = true) (c, io) (sendTcpPkt w y) := fun y h hf =>
    Steady.send ⟨hq.trans h.quiet, fun hno => (h.keeps fun hx => hno (hf hx)).trans hwaits1⟩
  split_ifs with hrst hfin hsyn hack
  · exact .inl ⟨rfl, .inl (hfrom _ ⟨.refl _, fun _ => rfl⟩ False.elim)⟩
  · refine .inl ⟨rfl, ?_⟩
    rcases @handleTcpFin_spec w c1 io pid len with h | ⟨hw, h⟩
    · refine .inl (hfrom _ h ?_)
      rintro ⟨hs, hw⟩
      unfold forgets
      rw [hstate] at hs
      rw [hwaits1] at hw
      simp [hrst, hfin, hs, hw]
    · exact .inr ⟨hq.waits hw, (hto _ h).trans (sendTcpPkt_quiet _)⟩
  · refine .inl ⟨rfl, ?_⟩
    rcases @handleTcpSyn_spec w c1 io pid p mac (tcpSeq p) len (word p.data 0) hearly1 with h | ⟨hw, h⟩
    · exact .inl (hfrom _ h False.elim)
    · exact .inr ⟨hq.waits hw, (hto _ h).trans (sendTcpPkt_quiet _)⟩
  · rcases @handleTcpAckFor_spec w c1 io pid (tcpSeq p) (tcpAck p) len (tcpData p) isListenCon hearly1 with
      ⟨hm, h⟩ | ⟨hm, hl, h⟩
    · exact .inl ⟨hm, .inl (hfrom _ h False.elim)⟩
    · exact .inr ⟨hm, hl, (hto _ h).trans (sendTcpPkt_quiet _)⟩
  · exact .inl ⟨rfl, .inl (hfrom _ ⟨.refl _, fun _ => rfl⟩ False.elim)⟩

def TcpBinding.all (t : TcpBinding) : List Con := t.listenCon.toList ++ t.cons

def TcpBinding.pending (t : TcpBinding) : ℕ := t.cons.countP Con.waits + t.listenCon.toList.length

structure TcpBinding.Proper (t : TcpBinding) : Prop where
  early : ∀ c ∈ t.all, c.state.early = true → ∀ q ∈ c.sending, q.fin = false
  listens : ∀ c, t.listenCon = some c → c.waits = false

structure BindingStep (len : ℕ) (t : TcpBinding) (io : Io) (t' : TcpBinding) (io' : Io) : Prop where
  proper : t'.Proper
  queued : ∀ c' ∈ t'.all, ∀ q ∈ c'.sending, Plain len q.len ∨ ∃ c ∈ t.all, q ∈ c.sending
  sent : ∀ n ∈ io'.sent, n ∈ io.sent ∨
    ∃ q : TcpSeg, (Plain len q.len ∨ ∃ c ∈ t.all, q ∈ c.sending) ∧ n = frameLen (20 + q.len)
  slot : io'.slot = io.slot

variable {tb tb' : TcpBinding} {j : ℕ}

theorem early_of_mild (h : Mild len (c, io) (c', io')) (hc : c.state.early = true → ∀ q ∈ c.sending, q.fin = false)
    (he : c'.state.early = true) : ∀ q ∈ c'.sending, q.fin = false := by
  obtain ⟨hold, hnew⟩ := h.early he
  intro q hq
  rcases hnew q hq with hq | hf
  · exact hc hold q hq
  · exact hf

theorem BindingStep.of_mild (ht : tb.Proper) (hc : c ∈ tb.all) (h : Mild len (c, io) (c', io'))
    (hall : ∀ d ∈ tb'.all, d = c' ∨ d ∈ tb.all) (hl : ∀ d, tb'.listenCon = some d → d.waits = false) :
    BindingStep len tb io tb' io' := by
  have hqueue : ∀ q : TcpSeg, q ∈ c.sending ∨ Plain len q.len → Plain len q.len ∨ ∃ c ∈ tb.all, q ∈ c.sending := by
    rintro q (hq | h0)
    · exact .inr ⟨c, hc, hq⟩
    · exact .inl h0
  refine ⟨⟨?_, hl⟩, ?_, ?_, h.slot⟩
  · intro d hd
    rcases hall d hd with rfl | hd
    · exact fun he => early_of_mild h (ht.early c hc) he
    · exact ht.early d hd
  · intro d hd q hq
    rcases hall d hd with rfl | hd
    · exact hqueue q (h.sending q hq)
    · exact .inr ⟨d, hd, hq⟩
  · intro n hn
    rcases h.sent n hn with hn | ⟨q, hq, rfl⟩
    · exact .inl hn
    · exact .inr ⟨q, hqueue q hq, rfl⟩

theorem BindingStep.of_reply (h : BindingStep len tb (io.reply pid) tb' io') : BindingStep len tb io tb' io' := by
  refine ⟨h.proper, h.queued, ?_, ?_⟩
  · have hsent := h.sent
    rw [reply_sent] at hsent
    exact hsent
  · rw [h.slot, reply_slot]

theorem mem_all_of_get (hj : tb.cons[j]? = some c) : c ∈ tb.all :=
  List.mem_append_right _ (List.mem_of_getElem? hj)

theorem BindingStep.set (ht : tb.Proper) (hj : tb.cons[j]? = some c) (h : Mild len (c, io) (c', io')) :
    BindingStep len tb io (tb.setCon j c') io' := by
  refine .of_mild ht (mem_all_of_get hj) h ?_ ht.listens
  intro d hd
  rcases List.mem_append.mp hd with hd | hd
  · exact .inr (List.mem_append_left _ hd)
  · rcases List.mem_or_eq_of_mem_set hd with hd | rfl
    · exact .inr (List.mem_append_right _ hd)
    · exact .inl rfl

theorem pending_set (hj : tb.cons[j]? = some c) :
    (tb.setCon j c').pending + c.waits.toNat = tb.pending + c'.waits.toNat := by
  obtain ⟨hlt, rfl⟩ := List.getElem?_eq_some_iff.mp hj
  unfold TcpBinding.pending TcpBinding.setCon
  dsimp only
  rw [List.countP_set hlt]
  have hpos : tb.cons[j].waits = true → 0 < tb.cons.countP Con.waits := by
    intro h
    exact List.countP_pos_iff.mpr ⟨_, List.getElem_mem hlt, h⟩
  cases h1 : tb.cons[j].waits
  · cases h2 : c'.waits <;> simp
    omega
  · have := hpos h1
    cases h2 : c'.waits <;> simp <;> omega

def forgetsIn (p : IpPkt) (t : TcpBinding) : Prop := ∃ c, t.cons.find? (Con.isFrom p) = some c ∧ forgets p c = true

theorem find_of_findIdx {q : Con → Bool} {cs : List Con} (hj : cs.findIdx? q = some j) (hc : cs[j]? = some c) :
    cs.find? q = some c := by
  obtain ⟨hlt, hq, hno⟩ := List.findIdx?_eq_some_iff_getElem.mp hj
  obtain ⟨_, rfl⟩ := List.getElem?_eq_some_iff.mp hc
  refine List.find?_eq_some_iff_getElem.mpr ⟨hq, j, hlt, rfl, ?_⟩
  intro i hi
  simpa using hno i hi

theorem tcpInput_spec (ht : tb.Proper) :
    BindingStep len tb io (tcpInput w mac p pid tb io).1 (tcpInput w mac p pid tb io).2 ∧
    ((tcpInput w mac p pid tb io).2.waiting = io.waiting ∧
        (tcpInput w mac p pid tb io).1.pending ≤ tb.pending ∧
        (¬ forgetsIn p tb → (tcpInput w mac p pid tb io).1.pending = tb.pending) ∨
      (tcpInput w mac p pid tb io).2.waiting = (io.reply pid).waiting ∧
        (tcpInput w mac p pid tb io).1.pending + 1 = tb.pending) := by
  have hsame : BindingStep len tb io tb io :=
    ⟨ht, fun c hc q hq => .inr ⟨c, hc, hq⟩, fun n hn => .inl hn, rfl⟩
  unfold tcpInput
  split
  · split
    · exact ⟨hsame, .inl ⟨rfl, le_rfl, fun _ => rfl⟩⟩
    · rename_i j hfind _ c hj
      have hspec := @conInput_spec w c io pid p mac len false (ht.early c (mem_all_of_get hj))
      generalize conInput w pid false mac p c io = r at hspec
      obtain ⟨moved, c', io'⟩ := r
      dsimp only at hspec ⊢
      have hpend := @pending_set c c' tb j hj
      rcases hspec with ⟨-, hq | ⟨hw, htold⟩⟩ | ⟨-, hfalse, -⟩
      · refine ⟨.set ht hj hq.quiet.toMild, .inl ⟨hq.quiet.waiting, ?_, ?_⟩⟩
        · have hwaits : c'.waits.toNat ≤ c.waits.toNat := hq.quiet.waits_le
          omega
        · intro hno
          have hwaits : c'.waits = c.waits :=
            hq.keeps fun hf => hno ⟨c, find_of_findIdx hfind hj, hf⟩
          rw [hwaits] at hpend
          omega
      · have hstep : BindingStep len tb (io.reply pid) (tb.setCon j c') io' := .set ht hj htold.mild
        refine ⟨hstep.of_reply, .inr ⟨htold.mild.waiting, ?_⟩⟩
        · have hwaits := htold.waits
          dsimp only at hwaits
          rw [hw, hwaits] at hpend
          simp at hpend
          omega
      · cases hfalse
  · split
    · exact ⟨hsame, .inl ⟨rfl, le_rfl, fun _ => rfl⟩⟩
    · rename_i c hl
      split_ifs
      · exact ⟨hsame, .inl ⟨rfl, le_rfl, fun _ => rfl⟩⟩
      · have hc : c ∈ tb.all := List.mem_append_left _ (Option.mem_toList.mpr hl)
        have hspec := @conInput_spec w c io pid p mac len true (ht.early c hc)
        generalize conInput w pid true mac p c io = r at hspec
        obtain ⟨moved, c', io'⟩ := r
        dsimp only at hspec ⊢
        have hwaits := ht.listens c hl
        rcases hspec with ⟨rfl, hq | ⟨hw, -⟩⟩ | ⟨rfl, -, htold⟩
        · rw [if_neg (by decide)]
          have hcount : ({ tb with listenCon := some c' } : TcpBinding).pending = tb.pending := by
            unfold TcpBinding.pending
            rw [hl]
            rfl
          refine ⟨.of_mild ht hc hq.quiet.toMild ?_ ?_, .inl ⟨hq.quiet.waiting, hcount.le, fun _ => hcount⟩⟩
          · intro d hd
            rcases List.mem_append.mp hd with hd | hd
            · exact .inl (Option.mem_some.mp (Option.mem_toList.mp hd)).symm
            · exact .inr (List.mem_append_right _ hd)
          · rintro d ⟨⟩
            have hle : c'.waits.toNat ≤ c.waits.toNat := hq.quiet.waits_le
            rw [hwaits] at hle
            cases h : c'.waits with
            | false => rfl
            | true =>
              rw [h] at hle
              exact absurd hle (by decide)
        · rw [hwaits] at hw
          cases hw
        · rw [if_pos rfl]
          refine ⟨.of_reply (.of_mild ht hc htold.mild ?_ ?_), .inr ⟨htold.mild.waiting, ?_⟩⟩
          · intro d hd
            rcases List.mem_cons.mp hd with hd | hd
            · exact .inl hd
            · exact .inr (List.mem_append_right _ hd)
          · rintro d ⟨⟩
          · have hnow : c'.waits = false := htold.waits
            unfold TcpBinding.pending
            rw [hl]
            simp [hnow]

end Steps

end Agatha.Net
