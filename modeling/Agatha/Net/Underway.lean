import Agatha.Net.AcceptSlot
import Mathlib.Data.List.Nodup

namespace Agatha.Net

def Con.Sent (segs : List TcpFrame) (c : Con) (t : TcpSeg) : Prop :=
  ∃ f ∈ segs, f.binding = c.binding ∧ f.con = c.id ∧ f.seq = t.seq ∧ f.flags = t.flags ∧ f.len = t.len

def TcpSeg.syn (t : TcpSeg) : Bool := hasFlag t.flags tcpFlagSyn

def ArpRequest.opens (c : Con) (r : ArpRequest) : Prop := r.func = .connect c.binding c.id

structure Con.Underway (rs : List ArpRequest) (segs : List TcpFrame) (c : Con) : Prop where
  opening : c.state = .synSent →
    (∃ t, t.syn = true ∧ c.Sent segs t) ∨ ∃ t, t.syn = true ∧ c.sending = [t] ∧ ∃ r ∈ rs, r.opens c
  closing : c.state = .finWait1 → ∃ t, t.fin = true ∧ c.Sent segs t
  queued : c.state = .established → c.sending.any TcpSeg.fin = true → ∃ t next, c.sending = t :: next ∧ c.Sent segs t

def Con.Listens (segs : List TcpFrame) (c : Con) : Prop :=
  c.state = .listen ∧ c.sending = [] ∨ c.state = .synReceived ∧ ∃ t, t.syn = true ∧ c.Sent segs t

def Con.key (c : Con) : ℤ × ℕ := (c.binding, c.id)

structure TcpBinding.Numbered (bid : ℤ) (t : TcpBinding) : Prop where
  mine : ∀ k ∈ t.all.map Con.key, k.1 = bid ∧ k.2 < t.nextConId
  distinct : (t.all.map Con.key).Nodup

structure BindingUnderway (rs : List ArpRequest) (t : TcpBinding) (segs : List TcpFrame) : Prop where
  cons : ∀ c ∈ t.cons, c.Underway rs segs
  listens : ∀ c, t.listenCon = some c → c.Listens segs

structure Server.Underway (rs : List ArpRequest) (s : Server) : Prop where
  tcp : ∀ b ∈ s.net.bindings, BindingUnderway rs b.tcp s.io.segments
  distinct : (s.net.bindings.map Binding.id).Nodup
  below : ∀ b ∈ s.net.bindings, b.id < s.nBindingId
  numbered : ∀ b ∈ s.net.bindings, b.tcp.Numbered b.id

def Server.AllUnderway (s : Server) : Prop := s.Underway s.arpRequests

def opensCon (p : IpPkt) : Bool :=
  !hasFlag (tcpFlags p) tcpFlagRst && !hasFlag (tcpFlags p) tcpFlagFin && hasFlag (tcpFlags p) tcpFlagSyn

def losesSyn (segs : List TcpFrame) (p : IpPkt) (c : Con) : Prop :=
  c.state = .synSent ∧ (∀ t, t.syn = true → ¬ c.Sent segs t) ∧ opensCon p = false ∧
    hasFlag (tcpFlags p) tcpFlagAck = true ∧ dropAcked (tcpAck p) c.sending ≠ c.sending

/-- The segment leaves the clients of the binding something to wait for: none is forgotten, no SYN is lost, and
there is memory if it is the server's turn to send. -/
def SegmentTaken (w : World) (segs : List TcpFrame) (mac : Option (List UInt8)) (p : IpPkt) (t : TcpBinding) : Prop :=
  match t.cons.find? (Con.isFrom p) with
  | some c => forgets p c = false ∧ ¬ losesSyn segs p c ∧
      (c.state = .established → c.sending.any TcpSeg.fin = true → ∀ n, w.alloc n = true)
  | none => ∀ c, t.listenCon = some c → c.state = .listen → opensCon p = true → mac ≠ none → ∀ n, w.alloc n = true

def AddressTaken (w : World) (pkt : List UInt8) (s : Server) : Prop :=
  ∀ r ∈ s.arpRequests, r.ip = copyOut pkt 28 4 → ∀ n, w.alloc n = true

def PacketTaken (w : World) (p : IpPkt) (s : Server) : Prop :=
  p.protocol = ipTcp → ∀ i b, findBindingIp protoTcp (word p.data 2) s.net.bindings = some i →
    s.net.bindings[i]? = some b → SegmentTaken w s.io.segments (s.arpMatchIp p.srcIpv4) p b.tcp

def FrameTaken (heap : Heap) (w : World) (pkt : List UInt8) (s : Server) : Prop :=
  if word pkt 12 = 0x0806 then AddressTaken w pkt s
  else word pkt 12 = 0x0800 → ∀ p net, receiveIpv4 heap pkt s.net = (some p, net) → PacketTaken w p { s with net := net }

section Underway

variable {w : World} {s s' : Server} {io io' : Io} {pid bid : ℤ} {c c' d : Con} {i j len : ℕ} {x y : Con × Io}
  {b : Binding TcpBinding} {bs : List (Binding TcpBinding)} {rs rs' : List ArpRequest} {p : IpPkt}
  {segs segs' : List TcpFrame} {t : TcpSeg} {tb tb' : TcpBinding} {mac : Option (List UInt8)} {flags : ℕ}
  {ip m pkt : List UInt8} {r : ArpRequest} {u : UdpWriteReq} {heap : Heap}

theorem Con.Sent.mono (h : c.Sent segs t) (hc : c'.binding = c.binding ∧ c'.id = c.id)
    (hsegs : ∀ f ∈ segs, f ∈ segs') : c'.Sent segs' t := by
  obtain ⟨f, hf, h1, h2, h3⟩ := h
  exact ⟨f, hsegs f hf, h1.trans hc.1.symm, h2.trans hc.2.symm, h3⟩

theorem Con.Underway.mono (h : c.Underway rs segs) (hrs : ∀ r ∈ rs, r.opens c → r ∈ rs')
    (hsegs : ∀ f ∈ segs, f ∈ segs') : c.Underway rs' segs' := by
  refine ⟨?_, ?_, ?_⟩
  · intro hs
    rcases h.opening hs with ⟨t, ht, hsent⟩ | ⟨t, ht, hq, r, hr, ho⟩
    · exact .inl ⟨t, ht, hsent.mono ⟨rfl, rfl⟩ hsegs⟩
    · exact .inr ⟨t, ht, hq, r, hrs r hr ho, ho⟩
  · intro hs
    obtain ⟨t, ht, hsent⟩ := h.closing hs
    exact ⟨t, ht, hsent.mono ⟨rfl, rfl⟩ hsegs⟩
  · intro hs hf
    obtain ⟨t, next, hq, hsent⟩ := h.queued hs hf
    exact ⟨t, next, hq, hsent.mono ⟨rfl, rfl⟩ hsegs⟩

theorem Con.Listens.mono (h : c.Listens segs) (hsegs : ∀ f ∈ segs, f ∈ segs') : c.Listens segs' := by
  rcases h with h | ⟨hs, t, ht, hsent⟩
  · exact .inl h
  · exact .inr ⟨hs, t, ht, hsent.mono ⟨rfl, rfl⟩ hsegs⟩

theorem underway_of_not_waits (h : c.waits = false) : c.Underway rs segs := by
  unfold Con.waits at h
  refine ⟨?_, ?_, ?_⟩
  · intro hs
    rw [hs] at h
    cases h
  · intro hs
    rw [hs] at h
    cases h
  · intro hs hf
    rw [hs] at h
    exact absurd (hf.symm.trans h) (by decide)

theorem sent_last (h : w.alloc io.calls = true) :
    c.Sent (io.sendSegment w { binding := c.binding, con := c.id, addrRem := c.addrRem, portRem := c.portRem
                               seq := t.seq, ack := c.rcv.ack, flags := t.flags, len := t.len }).segments t := by
  rw [sendSegment_segments, if_pos h]
  exact ⟨_, List.mem_append_right _ (List.mem_singleton_self _), rfl, rfl, rfl, rfl, rfl⟩

theorem trimSending_syn (ht : t.syn = true) (l : List TcpSeg) : trimSending (t :: l) = t :: l := by
  cases l with
  | nil => rfl
  | cons o next =>
    unfold trimSending
    exact if_pos (.inr (.inr ht))

theorem sendTcpPkt_sending : (sendTcpPkt w (c, io)).1.sending = trimSending c.sending := by
  unfold sendTcpPkt
  dsimp only
  cases trimSending c.sending <;> rfl

theorem sendTcpPkt_state (h1 : c.state ≠ .established) (h2 : c.state ≠ .closeWait) :
    (sendTcpPkt w (c, io)).1.state = c.state := by
  unfold sendTcpPkt
  dsimp only
  split
  · rfl
  · dsimp only
    split_ifs
    · split
      · contradiction
      · contradiction
      · rfl
    · rfl

theorem sendTcpPkt_sent {next : List TcpSeg} (hq : trimSending c.sending = t :: next) (hal : w.alloc io.calls = true) :
    (sendTcpPkt w (c, io)).1.Sent (sendTcpPkt w (c, io)).2.segments t := by
  unfold sendTcpPkt
  dsimp only
  rw [hq]
  exact (sent_last hal).mono ⟨rfl, rfl⟩ fun f hf => hf

theorem sendTcpPkt_finWait (hs : c.state = .established) (h : (sendTcpPkt w (c, io)).1.state = .finWait1) :
    ∃ t next, trimSending c.sending = t :: next ∧ t.fin = true := by
  unfold sendTcpPkt at h
  dsimp only at h
  split at h
  · rw [hs] at h
    cases h
  · rename_i q next hq
    dsimp only at h
    split_ifs at h with hf
    · exact ⟨q, next, hq, hf⟩
    · rw [hs] at h
      cases h

theorem sendTcpPkt_established (hs : c.state = .established)
    (hal : c.sending.any TcpSeg.fin = true → w.alloc io.calls = true) :
    (sendTcpPkt w (c, io)).1.Underway rs (sendTcpPkt w (c, io)).2.segments := by
  have hany := @trimSending_any c.sending
  refine ⟨?_, ?_, ?_⟩
  · intro he
    obtain ⟨hearly, -⟩ := (@sendTcpPkt_quiet w 0 (c, io)).early (by rw [he]; rfl)
    dsimp only at hearly
    rw [hs] at hearly
    cases hearly
  · intro he
    obtain ⟨t, next, hq, ht⟩ := sendTcpPkt_finWait hs he
    have hfin : c.sending.any TcpSeg.fin = true := by
      rw [← hany, hq, List.any_cons, ht, Bool.true_or]
    exact ⟨t, ht, sendTcpPkt_sent hq (hal hfin)⟩
  · intro _ hf
    rw [sendTcpPkt_sending] at hf ⊢
    cases hq : trimSending c.sending with
    | nil =>
      rw [hq] at hf
      cases hf
    | cons t next => exact ⟨t, next, rfl, sendTcpPkt_sent hq (hal (hany.symm.trans hf))⟩

theorem sendTcpPkt_underway (hold : c.state ≠ .established → c.Underway rs io.segments)
    (hal : c.state = .established → c.sending.any TcpSeg.fin = true → w.alloc io.calls = true) :
    (sendTcpPkt w (c, io)).1.Underway rs (sendTcpPkt w (c, io)).2.segments := by
  by_cases hs : c.state = .established
  · exact sendTcpPkt_established hs (hal hs)
  by_cases hw : c.state = .closeWait
  · apply underway_of_not_waits
    rw [sendTcpPkt_waits]
    unfold Con.waits
    rw [hw]
  have h := hold hs
  have hstate := @sendTcpPkt_state w io c hs hw
  have hmild := (@sendTcpPkt_quiet w 0 (c, io)).toMild
  refine ⟨?_, ?_, ?_⟩
  · intro he
    rcases h.opening (hstate.symm.trans he) with ⟨t, ht, hsent⟩ | ⟨t, ht, hq, r, hr, ho⟩
    · exact .inl ⟨t, ht, hsent.mono hmild.same hmild.segments⟩
    · refine .inr ⟨t, ht, ?_, r, hr, ?_⟩
      · rw [sendTcpPkt_sending, hq]
        exact trimSending_syn ht []
      · unfold ArpRequest.opens
        rw [hmild.same.1, hmild.same.2]
        exact ho
  · intro he
    obtain ⟨t, ht, hsent⟩ := h.closing (hstate.symm.trans he)
    exact ⟨t, ht, hsent.mono hmild.same hmild.segments⟩
  · exact fun he => absurd (hstate.symm.trans he) hs

theorem underway_of_state (h1 : c.state ≠ .synSent) (h2 : c.state ≠ .finWait1) (h3 : c.state ≠ .established) :
    c.Underway rs segs :=
  ⟨fun h => absurd h h1, fun h => absurd h h2, fun h => absurd h h3⟩

theorem sendTcpPkt_syn (hs : c.state = .synSent) (ht : t.syn = true) (hq : c.sending = [t])
    (hal : w.alloc io.calls = true) :
    (sendTcpPkt w (c, io)).1.Underway rs (sendTcpPkt w (c, io)).2.segments := by
  have hstate : (sendTcpPkt w (c, io)).1.state = .synSent := by
    rw [sendTcpPkt_state (by rw [hs]; decide) (by rw [hs]; decide), hs]
  have hq' : trimSending c.sending = [t] := by
    rw [hq]
    exact trimSending_syn ht []
  refine ⟨fun _ => .inl ⟨t, ht, sendTcpPkt_sent hq' hal⟩, fun h => ?_, fun h => ?_⟩
  · rw [hstate] at h
    cases h
  · rw [hstate] at h
    cases h

theorem addPkt_of_alloc {n : ℕ} (hal : w.alloc io.calls = true) : addPkt w flags n (c, io) =
    ({ c with sending := c.sending ++ [{ seq := c.nextSeq, flags := flags, len := n }] }, io.next) := if_pos hal

theorem addPkt_sent {n : ℕ} (hq : c.sending = []) (h1 : w.alloc io.calls = true) (h2 : w.alloc io.next.calls = true) :
    (sendTcpPkt w (addPkt w flags n (c, io))).1.Sent (sendTcpPkt w (addPkt w flags n (c, io))).2.segments
      ⟨c.nextSeq, flags, n⟩ := by
  rw [addPkt_of_alloc h1]
  refine @sendTcpPkt_sent w io.next _ ⟨c.nextSeq, flags, n⟩ [] ?_ h2
  dsimp only
  rw [hq]
  rfl

theorem addPkt_state {n : ℕ} : (addPkt w flags n (c, io)).1.state = c.state := by
  unfold addPkt
  dsimp only
  split_ifs <;> rfl

theorem addPkt_any {n : ℕ} (hf : hasFlag flags tcpFlagFin = false) :
    (addPkt w flags n (c, io)).1.sending.any TcpSeg.fin = c.sending.any TcpSeg.fin := by
  unfold addPkt
  dsimp only
  split_ifs
  · have hlast : TcpSeg.fin ⟨c.nextSeq, flags, n⟩ = false := hf
    dsimp only
    rw [List.any_append, List.any_cons, hlast, List.any_nil, Bool.or_false, Bool.or_false]
  · rfl

theorem ackAndSend_underway (hs : c.state = .established)
    (hal : c.sending.any TcpSeg.fin = true → ∀ n, w.alloc n = true) :
    (ackAndSend w (c, io)).1.Underway rs (ackAndSend w (c, io)).2.segments := by
  have hstate : (addPkt w tcpFlagAck 0 (c, io)).1.state = c.state := addPkt_state
  have hany : (addPkt w tcpFlagAck 0 (c, io)).1.sending.any TcpSeg.fin = c.sending.any TcpSeg.fin := addPkt_any rfl
  unfold ackAndSend
  generalize addPkt w tcpFlagAck 0 (c, io) = x at hstate hany
  obtain ⟨c1, io1⟩ := x
  apply sendTcpPkt_underway
  · exact fun hne => absurd (hstate.trans hs) hne
  · exact fun _ hf => hal (hany.symm.trans hf) _

def Handled (rs : List ArpRequest) (c : Con) (x : Con × Io) : Prop :=
  (x.1.state ≠ .established → x.1.Underway rs x.2.segments) ∧
    (x.1.state = .established → x.1.sending.any TcpSeg.fin = true →
      c.state = .established ∧ c.sending.any TcpSeg.fin = true)

theorem Handled.of_not_waits (h : x.1.waits = false) : Handled rs c x := by
  refine ⟨fun _ => underway_of_not_waits h, ?_⟩
  intro hs hf
  unfold Con.waits at h
  rw [hs] at h
  exact absurd (hf.symm.trans h) (by decide)

theorem Handled.refl (h : c.state ≠ .established → c.Underway rs io.segments) : Handled rs c (c, io) :=
  ⟨h, fun hs hf => ⟨hs, hf⟩⟩

theorem handleTcpFin_handled (h : c.state ≠ .established → c.Underway rs io.segments) :
    Handled rs c (handleTcpFin w pid c io) := by
  unfold handleTcpFin
  split
  · dsimp only
    split_ifs
    · exact .of_not_waits ((ackAndSend_waits _).trans rfl)
    · exact .of_not_waits rfl
  · exact .of_not_waits ((ackAndSend_waits _).trans rfl)
  · exact .of_not_waits ((ackAndSend_waits _).trans rfl)
  · rename_i hs
    apply Handled.of_not_waits
    rw [ackAndSend_waits]
    unfold Con.waits
    rw [hs]
  · exact .refl h

theorem handleTcpSyn_opens {seq portSrc : ℕ} (hs : c.state = .synSent) (hfin : ∀ t ∈ c.sending, t.fin = false) :
    (handleTcpSyn w pid p seq portSrc mac c io).1.waits = false := by
  unfold handleTcpSyn
  rw [hs]
  dsimp only
  set c1 : Con := { c with state := .established, rcv := { c.rcv with ack := (seq + 1) % 2 ^ 32 }
                           nextSeq := (c.nextSeq + 1) % 2 ^ 32 }
  have hq : Quiet 0 (c1, io) (ackAndSend w (c1, io)) := ackAndSend_quiet _
  apply waits_established rfl
  intro t ht
  rcases hq.fins t ht with ht | h0
  · exact hfin t ht
  · exact h0

theorem handleTcpSyn_handled {seq portSrc : ℕ} (h : c.state ≠ .established → c.Underway rs io.segments)
    (hearly : c.state.early = true → ∀ t ∈ c.sending, t.fin = false) :
    Handled rs c (handleTcpSyn w pid p seq portSrc mac c io) := by
  by_cases hsyn : c.state = .synSent
  · exact .of_not_waits (handleTcpSyn_opens hsyn (hearly (by rw [hsyn]; rfl)))
  unfold handleTcpSyn
  split
  · contradiction
  · rename_i hs
    have hnot : ∀ c' : Con, c'.state = .listen ∨ c'.state = .synReceived → c'.waits = false := by
      intro c' h
      unfold Con.waits
      rcases h with h | h
      · rw [h]
      · rw [h]
    dsimp only
    split
    · exact .of_not_waits (hnot _ (.inl hs))
    · apply Handled.of_not_waits
      rw [sendTcpPkt_waits, addPkt_waits rfl]
      exact hnot _ (.inr rfl)
  · exact .refl h

theorem insertReceivedFor_same {q : TcpPkt} : (insertReceivedFor w q c io).1.state = c.state ∧
    (insertReceivedFor w q c io).1.sending = c.sending := by
  unfold insertReceivedFor
  split_ifs <;> exact ⟨rfl, rfl⟩

theorem handleTcpAckFor_handled {isListenCon : Bool} {seq ack : ℕ} {data : List UInt8}
    (h : c.state ≠ .established → c.Underway rs io.segments)
    (hearly : c.state.early = true → ∀ t ∈ c.sending, t.fin = false)
    (hal : c.state = .established → c.sending.any TcpSeg.fin = true → ∀ n, w.alloc n = true) :
    Handled rs c (handleTcpAckFor w pid isListenCon seq ack data c io).2 := by
  unfold handleTcpAckFor
  split
  · rename_i hs
    have hnot : ∀ c' : Con, c'.state = .lastAck → c'.waits = false := by
      intro c' h
      unfold Con.waits
      rw [h]
    split_ifs
    · exact .of_not_waits (hnot _ hs)
    · exact .of_not_waits (hnot _ hs)
  · rename_i hs
    split_ifs
    · exact ⟨fun _ => underway_of_state (fun h => by cases h) (fun h => by cases h) (fun h => by cases h),
        fun h => by cases h⟩
    · have hsend : (sendTcpPkt w (c, io)).1.Underway rs (sendTcpPkt w (c, io)).2.segments :=
        sendTcpPkt_underway h fun he => by rw [hs] at he; cases he
      refine ⟨fun _ => hsend, ?_⟩
      intro he
      dsimp only at he
      rw [sendTcpPkt_state (by rw [hs]; decide) (by rw [hs]; decide), hs] at he
      cases he
  · rename_i hs
    have hfin : ∀ t ∈ c.sending, t.fin = false := hearly (by rw [hs]; rfl)
    dsimp only
    split_ifs
    · exact .of_not_waits (waits_established rfl hfin)
    · exact .of_not_waits (waits_established rfl hfin)
  · rename_i hs
    split_ifs
    · obtain ⟨h1, h2⟩ := @insertReceivedFor_same w io c { seq := seq, data := data }
      refine ⟨fun hne => absurd (h1.trans hs) hne, ?_⟩
      dsimp only
      rw [h1, h2]
      exact fun he hf => ⟨he, hf⟩
    · refine ⟨fun _ => ackAndSend_underway hs (hal hs), ?_⟩
      intro he hf
      have hw := @ackAndSend_waits w (c, io)
      unfold Con.waits at hw
      dsimp only at hw he hf
      rw [he, hs] at hw
      exact ⟨hs, hw.symm.trans hf⟩
    · exact .refl h
  · exact .refl h

theorem handled_of_opens (hs : c.state = .synSent) (hfin : ∀ t ∈ c.sending, t.fin = false) (ho : opensCon p = true)
    {isListenCon : Bool} : (conInput w pid isListenCon mac p c io).2.1.waits = false := by
  unfold opensCon at ho
  simp only [Bool.and_eq_true, Bool.not_eq_true'] at ho
  obtain ⟨⟨hrst, hfinflag⟩, hsyn⟩ := ho
  unfold conInput
  dsimp only
  rw [if_neg (by rw [hrst]; decide), if_neg (by rw [hfinflag]; decide), if_pos hsyn]
  dsimp only
  rw [sendTcpPkt_waits]
  apply handleTcpSyn_opens
  · split_ifs
    · exact hs
    · exact hs
  · split_ifs
    · exact fun t ht => hfin t (dropAcked_subset ht)
    · exact hfin

theorem conInput_underway (h : c.Underway rs io.segments)
    (hearly : c.state.early = true → ∀ t ∈ c.sending, t.fin = false)
    (hlose : ¬ losesSyn io.segments p c)
    (hal : c.state = .established → c.sending.any TcpSeg.fin = true → ∀ n, w.alloc n = true) :
    (conInput w pid false mac p c io).2.1.Underway rs (conInput w pid false mac p c io).2.2.segments := by
  by_cases hopen : c.state = .synSent ∧ opensCon p = true
  · exact underway_of_not_waits (handled_of_opens hopen.1 (hearly (by rw [hopen.1]; rfl)) hopen.2)
  unfold conInput
  dsimp only
  set c1 : Con := if hasFlag (tcpFlags p) tcpFlagAck then { c with sending := dropAcked (tcpAck p) c.sending } else c
    with hc1
  have hstate : c1.state = c.state := by
    unfold c1
    split_ifs <;> rfl
  have hsub : ∀ t ∈ c1.sending, t ∈ c.sending := by
    unfold c1
    split_ifs
    · exact fun t => dropAcked_subset
    · exact fun t => id
  have hany : c1.sending.any TcpSeg.fin = c.sending.any TcpSeg.fin := by
    unfold c1
    split_ifs
    · exact dropAcked_any
    · rfl
  have hsame : c1.binding = c.binding ∧ c1.id = c.id := by
    unfold c1
    split_ifs <;> exact ⟨rfl, rfl⟩
  have hearly1 : c1.state.early = true → ∀ t ∈ c1.sending, t.fin = false :=
    fun he t ht => hearly (hstate ▸ he) t (hsub t ht)
  have hal1 : c1.state = .established → c1.sending.any TcpSeg.fin = true → ∀ n, w.alloc n = true :=
    fun he hf => hal (hstate ▸ he) (hany ▸ hf)
  have hold : c1.state ≠ .established → c1.Underway rs io.segments := by
    intro hne
    refine ⟨?_, ?_, fun he => absurd he hne⟩
    · intro he
      rcases h.opening (hstate ▸ he) with ⟨t, ht, hsent⟩ | ⟨t, ht, hq, r, hr, ho⟩
      · exact .inl ⟨t, ht, hsent.mono hsame fun f hf => hf⟩
      · by_cases hsent : ∃ t, t.syn = true ∧ c.Sent io.segments t
        · obtain ⟨t, ht, hsent⟩ := hsent
          exact .inl ⟨t, ht, hsent.mono hsame fun f hf => hf⟩
        · right
          refine ⟨t, ht, ?_, r, hr, ?_⟩
          · rw [← hq, hc1]
            split_ifs with hack
            · by_contra hne
              have hnot : opensCon p = false := by
                simpa [hstate.symm.trans he] using hopen
              exact hlose ⟨hstate ▸ he, fun t ht hs => hsent ⟨t, ht, hs⟩, hnot, hack, hne⟩
            · rfl
          · unfold ArpRequest.opens
            rw [hsame.1, hsame.2]
            exact ho
    · intro he
      obtain ⟨t, ht, hsent⟩ := h.closing (hstate ▸ he)
      exact ⟨t, ht, hsent.mono hsame fun f hf => hf⟩
  have hend : ∀ x : Con × Io, Handled rs c1 x →
      (sendTcpPkt w x).1.Underway rs (sendTcpPkt w x).2.segments := by
    intro x hx
    refine sendTcpPkt_underway hx.1 fun he hf => ?_
    obtain ⟨he1, hf1⟩ := hx.2 he hf
    exact hal1 he1 hf1 _
  split_ifs
  · exact hend _ (.refl hold)
  · exact hend _ (handleTcpFin_handled hold)
  · exact hend _ (handleTcpSyn_handled hold hearly1)
  · exact hend _ (handleTcpAckFor_handled hold hearly1 hal1)
  · exact hend _ (.refl hold)

theorem sendTcpPkt_listens (h : c.Listens io.segments) :
    (sendTcpPkt w (c, io)).1.Listens (sendTcpPkt w (c, io)).2.segments := by
  have hmild := (@sendTcpPkt_quiet w 0 (c, io)).toMild
  rcases h with ⟨hs, hq⟩ | ⟨hs, t, ht, hsent⟩
  · left
    rw [sendTcpPkt_state (by rw [hs]; decide) (by rw [hs]; decide), sendTcpPkt_sending, hq]
    exact ⟨hs, rfl⟩
  · right
    rw [sendTcpPkt_state (by rw [hs]; decide) (by rw [hs]; decide)]
    exact ⟨hs, t, ht, hsent.mono hmild.same hmild.segments⟩

theorem handleTcpFin_listens (h : c.Listens io.segments) :
    (handleTcpFin w pid c io).1.Listens (handleTcpFin w pid c io).2.segments := by
  have hsame : handleTcpFin w pid c io = (c, io) := by
    unfold handleTcpFin
    rcases h with ⟨hs, -⟩ | ⟨hs, -⟩
    · rw [hs]
    · rw [hs]
  rw [hsame]
  exact h

theorem handleTcpAckFor_listens {seq ack : ℕ} {data : List UInt8} (h : c.Listens io.segments)
    (hstay : (handleTcpAckFor w pid true seq ack data c io).1 = false) :
    (handleTcpAckFor w pid true seq ack data c io).2.1.Listens (handleTcpAckFor w pid true seq ack data c io).2.2.segments := by
  unfold handleTcpAckFor at hstay ⊢
  rcases h with ⟨hs, hq⟩ | ⟨hs, hsent⟩
  · rw [hs] at hstay ⊢
    exact .inl ⟨hs, hq⟩
  · rw [hs] at hstay
    cases hstay

theorem handleTcpSyn_listens {seq portSrc : ℕ} (h : c.Listens io.segments)
    (hal : c.state = .listen → mac ≠ none → ∀ n, w.alloc n = true) :
    (handleTcpSyn w pid p seq portSrc mac c io).1.Listens (handleTcpSyn w pid p seq portSrc mac c io).2.segments := by
  unfold handleTcpSyn
  split
  · rename_i hs
    rcases h with ⟨hs', -⟩ | ⟨hs', -⟩
    · rw [hs] at hs'
      cases hs'
    · rw [hs] at hs'
      cases hs'
  · rename_i hs
    have hq : c.sending = [] := by
      rcases h with ⟨-, hq⟩ | ⟨hs', -⟩
      · exact hq
      · rw [hs] at hs'
        cases hs'
    dsimp only
    split
    · exact .inl ⟨hs, hq⟩
    · rename_i m
      have hal' := hal hs (Option.some_ne_none m)
      have hsyn : TcpSeg.syn ⟨c.nextSeq, tcpFlagSyn + tcpFlagAck, 0⟩ = true := by
        show hasFlag (tcpFlagSyn + tcpFlagAck) tcpFlagSyn = true
        decide
      right
      refine ⟨?_, _, hsyn, addPkt_sent hq (hal' _) (hal' _)⟩
      rw [sendTcpPkt_state]
      · exact addPkt_state
      · rw [addPkt_state]
        exact fun h => by cases h
      · rw [addPkt_state]
        exact fun h => by cases h
  · exact h

theorem conInput_listens (h : c.Listens io.segments)
    (hal : c.state = .listen → opensCon p = true → mac ≠ none → ∀ n, w.alloc n = true)
    (hstay : (conInput w pid true mac p c io).1 = false) :
    (conInput w pid true mac p c io).2.1.Listens (conInput w pid true mac p c io).2.2.segments := by
  unfold conInput at hstay ⊢
  dsimp only at hstay ⊢
  set c1 : Con := if hasFlag (tcpFlags p) tcpFlagAck then { c with sending := dropAcked (tcpAck p) c.sending } else c
  have hstate : c1.state = c.state := by
    unfold c1
    split_ifs <;> rfl
  have h1 : c1.Listens io.segments := by
    rcases h with ⟨hs, hq⟩ | ⟨hs, t, ht, hsent⟩
    · refine .inl ⟨hstate.trans hs, ?_⟩
      unfold c1
      split_ifs
      · dsimp only
        rw [hq]
        rfl
      · exact hq
    · refine .inr ⟨hstate.trans hs, t, ht, hsent.mono ?_ fun f hf => hf⟩
      unfold c1
      split_ifs <;> exact ⟨rfl, rfl⟩
  split_ifs at hstay ⊢ with hrst hfin hsyn hack
  · exact sendTcpPkt_listens h1
  · exact sendTcpPkt_listens (handleTcpFin_listens h1)
  · apply sendTcpPkt_listens
    apply handleTcpSyn_listens h1
    intro hs hmac
    refine hal (hstate ▸ hs) ?_ hmac
    simp [opensCon, hrst, hfin, hsyn]
  · exact sendTcpPkt_listens (handleTcpAckFor_listens h1 hstay)
  · exact sendTcpPkt_listens h1

theorem conInput_same {isListenCon : Bool} (hearly : c.state.early = true → ∀ t ∈ c.sending, t.fin = false) :
    (conInput w pid isListenCon mac p c io).2.1.key = c.key ∧
      ∀ f ∈ io.segments, f ∈ (conInput w pid isListenCon mac p c io).2.2.segments := by
  have htold : ∀ y, Told 0 pid (c, io) y → y.1.key = c.key ∧ ∀ f ∈ io.segments, f ∈ y.2.segments := by
    intro y h
    have hsegs := h.mild.segments
    dsimp only at hsegs
    rw [reply_segments] at hsegs
    exact ⟨Prod.ext h.mild.same.1 h.mild.same.2, hsegs⟩
  rcases @conInput_spec w c io pid p mac 0 isListenCon hearly with ⟨-, h | ⟨-, h⟩⟩ | ⟨-, -, h⟩
  · exact ⟨Prod.ext h.quiet.same.1 h.quiet.same.2, h.quiet.segments⟩
  · exact htold _ h
  · exact htold _ h

theorem BindingUnderway.mono (h : BindingUnderway rs tb segs) (hrs : ∀ r ∈ rs, r ∈ rs') (hsegs : ∀ f ∈ segs, f ∈ segs') :
    BindingUnderway rs' tb segs' :=
  ⟨fun c hc => (h.cons c hc).mono (fun r hr _ => hrs r hr) hsegs, fun c hc => (h.listens c hc).mono hsegs⟩

theorem BindingUnderway.set (h : BindingUnderway rs tb segs) (hc : c'.Underway rs segs') (hsegs : ∀ f ∈ segs, f ∈ segs') :
    BindingUnderway rs (tb.setCon j c') segs' := by
  have hmono := h.mono (fun r hr => hr) hsegs
  refine ⟨?_, hmono.listens⟩
  intro d hd
  rcases List.mem_or_eq_of_mem_set hd with hd | rfl
  · exact hmono.cons d hd
  · exact hc

theorem tcpInput_underway (ht : tb.Proper) (h : BindingUnderway rs tb io.segments)
    (htaken : SegmentTaken w io.segments mac p tb) :
    BindingUnderway rs (tcpInput w mac p pid tb io).1 (tcpInput w mac p pid tb io).2.segments ∧
      (∀ f ∈ io.segments, f ∈ (tcpInput w mac p pid tb io).2.segments) ∧
      (tcpInput w mac p pid tb io).1.all.map Con.key = tb.all.map Con.key ∧
      (tcpInput w mac p pid tb io).1.nextConId = tb.nextConId := by
  have hsame : BindingUnderway rs tb io.segments ∧ (∀ f ∈ io.segments, f ∈ io.segments) ∧
      tb.all.map Con.key = tb.all.map Con.key ∧ tb.nextConId = tb.nextConId := ⟨h, fun f hf => hf, rfl, rfl⟩
  unfold tcpInput
  split
  · split
    · exact hsame
    · rename_i j hfind _ c hj
      unfold SegmentTaken at htaken
      rw [find_of_findIdx hfind hj] at htaken
      obtain ⟨-, hlose, hal⟩ := htaken
      have hearly := ht.early c (mem_all_of_get hj)
      have hnow := @conInput_underway w io pid c rs p mac (h.cons c (List.mem_of_getElem? hj)) hearly hlose hal
      obtain ⟨hkey, hsegs⟩ := @conInput_same w io pid c p mac false hearly
      generalize conInput w pid false mac p c io = r at hnow hkey hsegs
      obtain ⟨moved, c', io'⟩ := r
      refine ⟨h.set hnow hsegs, hsegs, ?_, rfl⟩
      unfold TcpBinding.all TcpBinding.setCon
      dsimp only
      rw [List.map_append, List.map_append, map_set_same hj hkey]
  · rename_i hnone
    split
    · exact hsame
    · rename_i c hl
      split_ifs with hfrom
      · exact hsame
      · have hno : tb.cons.find? (Con.isFrom p) = none := by
          apply List.find?_eq_none.mpr
          intro d hd
          rw [List.findIdx?_eq_none_iff.mp hnone d hd]
          decide
        unfold SegmentTaken at htaken
        rw [hno] at htaken
        have hearly := ht.early c (List.mem_append_left _ (Option.mem_toList.mpr hl))
        have hstays := @conInput_listens w io pid c p mac (h.listens c hl) (htaken c hl)
        have hspec := @conInput_spec w c io pid p mac 0 true hearly
        obtain ⟨hkey, hsegs⟩ := @conInput_same w io pid c p mac true hearly
        generalize conInput w pid true mac p c io = r at hstays hkey hsegs hspec
        obtain ⟨moved, c', io'⟩ := r
        dsimp only at hstays hkey hsegs hspec ⊢
        have hmono := h.mono (fun r hr => hr) hsegs
        have hkeys : c'.key :: tb.cons.map Con.key = tb.all.map Con.key := by
          unfold TcpBinding.all
          rw [hl, List.map_append, hkey]
          rfl
        cases moved with
        | false =>
          rw [if_neg (by decide)]
          refine ⟨⟨hmono.cons, ?_⟩, hsegs, hkeys, rfl⟩
          rintro d ⟨⟩
          exact hstays rfl
        | true =>
          rw [if_pos rfl]
          have hnot : c'.waits = false := by
            rcases hspec with ⟨hno, -⟩ | ⟨-, -, htold⟩
            · cases hno
            · exact htold.waits
          refine ⟨⟨?_, fun d hd => by cases hd⟩, hsegs, hkeys, rfl⟩
          intro d hd
          rcases List.mem_cons.mp hd with rfl | hd
          · exact underway_of_not_waits hnot
          · exact hmono.cons d hd

theorem TcpBinding.Numbered.congr (h : tb.Numbered bid) (hkeys : tb'.all.map Con.key = tb.all.map Con.key)
    (hnext : tb'.nextConId = tb.nextConId) : tb'.Numbered bid := by
  constructor
  · rw [hkeys, hnext]
    exact h.mine
  · rw [hkeys]
    exact h.distinct

theorem Server.Underway.mono (h : s.Underway rs) (hb : s'.net.bindings = s.net.bindings)
    (hn : s.nBindingId ≤ s'.nBindingId) (hrs : ∀ r ∈ rs, r ∈ rs') (hsegs : ∀ f ∈ s.io.segments, f ∈ s'.io.segments) :
    s'.Underway rs' := by
  refine ⟨?_, ?_, ?_, ?_⟩
  · rw [hb]
    exact fun b hmem => (h.tcp b hmem).mono hrs hsegs
  · rw [hb]
    exact h.distinct
  · rw [hb]
    exact fun b hmem => lt_of_lt_of_le (h.below b hmem) hn
  · rw [hb]
    exact h.numbered

theorem Server.Underway.setTcp (h : s.Underway rs) (hi : s.net.bindings[i]? = some b) (hu : BindingUnderway rs tb io.segments)
    (hn : tb.Numbered b.id) (hsegs : ∀ f ∈ s.io.segments, f ∈ io.segments) : (s.setTcp i b tb io).Underway rs := by
  have hmem : ∀ d ∈ s.net.bindings.set i { b with tcp := tb }, d ∈ s.net.bindings ∨ d = { b with tcp := tb } :=
    fun d hd => List.mem_or_eq_of_mem_set hd
  refine ⟨?_, ?_, ?_, ?_⟩
  · intro d hd
    rcases hmem d hd with hd | rfl
    · exact (h.tcp d hd).mono (fun r hr => hr) hsegs
    · exact hu
  · show ((s.net.bindings.set i { b with tcp := tb }).map Binding.id).Nodup
    have hid : Binding.id ({ b with tcp := tb } : Binding TcpBinding) = b.id := rfl
    rw [map_set_same hi hid]
    exact h.distinct
  · intro d hd
    rcases hmem d hd with hd | rfl
    · exact h.below d hd
    · exact h.below b (List.mem_of_getElem? hi)
  · intro d hd
    rcases hmem d hd with hd | rfl
    · exact h.numbered d hd
    · exact hn

theorem Server.Underway.key (h : s.Underway rs) (hb : b ∈ s.net.bindings) (hc : c ∈ b.tcp.cons) : c.binding = b.id :=
  ((h.numbered b hb).mine _ (List.mem_map_of_mem (List.mem_append_right _ hc))).1

theorem Server.Underway.unique {b' : Binding TcpBinding} (h : s.Underway rs) (hb : b ∈ s.net.bindings)
    (hc : c ∈ b.tcp.cons) (hb' : b' ∈ s.net.bindings) (hc' : c' ∈ b'.tcp.cons) (he : c.key = c'.key) : c = c' := by
  have hid : b.id = b'.id := by
    rw [← h.key hb hc, ← h.key hb' hc']
    exact congrArg Prod.fst he
  cases List.inj_on_of_nodup_map h.distinct hb hb' hid
  exact List.inj_on_of_nodup_map (h.numbered b hb).distinct (List.mem_append_right _ hc) (List.mem_append_right _ hc') he

theorem sendTcpPkt_resolved (h : c.Underway rs io.segments) (hal : w.alloc io.calls = true) :
    (sendTcpPkt w (c, io)).1.Underway rs' (sendTcpPkt w (c, io)).2.segments := by
  by_cases hs : c.state = .synSent
  · rcases h.opening hs with hsent | ⟨t, ht, hq, -⟩
    · apply sendTcpPkt_underway _ fun _ _ => hal
      refine fun _ => ⟨fun _ => .inl hsent, ?_, ?_⟩
      · intro he
        rw [hs] at he
        cases he
      · intro he
        rw [hs] at he
        cases he
    · exact sendTcpPkt_syn hs ht hq hal
  · apply sendTcpPkt_underway _ fun _ _ => hal
    exact fun _ => ⟨fun he => absurd he hs, h.closing, h.queued⟩

theorem not_opens {con : ℕ} (hf : r.func = .connect bid con) (hc : c.key ≠ (bid, con)) : ¬ r.opens c := by
  intro h
  unfold ArpRequest.opens at h
  rw [hf] at h
  injection h with h1 h2
  exact hc (Prod.ext h1.symm h2.symm)

theorem Server.Underway.done {con : ℕ} (h : s.Underway (r :: rs)) (hf : r.func = .connect bid con)
    (hdone : ∀ b ∈ s.net.bindings, ∀ c ∈ b.tcp.cons, c.key = (bid, con) → c.Underway rs s.io.segments) :
    s.Underway rs := by
  refine ⟨fun b hb => ⟨fun c hc => ?_, (h.tcp b hb).listens⟩, h.distinct, h.below, h.numbered⟩
  by_cases hkey : c.key = (bid, con)
  · exact hdone b hb c hc hkey
  · refine ((h.tcp b hb).cons c hc).mono (fun q hq ho => ?_) fun f hf => hf
    rcases List.mem_cons.mp hq with rfl | hq
    · exact absurd ho (not_opens hf hkey)
    · exact hq

theorem connectTcpArp_underway {con : ℕ} (h : s.Underway (r :: rs))
    (hf : r.func = .connect bid con) (hal : w.alloc s.io.calls = true) : (connectTcpArp w bid con m s).Underway rs := by
  unfold connectTcpArp
  split
  · rename_i hfind
    refine h.done hf fun b hb c hc hkey => ?_
    have hid := List.findIdx?_eq_none_iff.mp hfind b hb
    rw [← h.key hb hc] at hid
    exact absurd (congrArg Prod.fst hkey) (of_decide_eq_false hid)
  rename_i i hfind
  obtain ⟨hlt, hbid, -⟩ := List.findIdx?_eq_some_iff_getElem.mp hfind
  rw [List.getElem?_eq_getElem hlt]
  replace hbid : s.net.bindings[i].id = bid := of_decide_eq_true hbid
  have hi : s.net.bindings[i]? = some s.net.bindings[i] := List.getElem?_eq_getElem hlt
  generalize s.net.bindings[i] = b at hbid hi
  have hb := List.mem_of_getElem? hi
  dsimp only
  split
  · rename_i hno
    refine h.done hf fun b' hb' c hc hkey => ?_
    have hsame : b'.id = b.id := by
      rw [← h.key hb' hc, hbid]
      exact congrArg Prod.fst hkey
    cases List.inj_on_of_nodup_map h.distinct hb' hb hsame
    exact absurd (congrArg Prod.snd hkey) (of_decide_eq_false (List.findIdx?_eq_none_iff.mp hno c hc))
  rename_i j hfindc
  obtain ⟨hltc, hcid, -⟩ := List.findIdx?_eq_some_iff_getElem.mp hfindc
  rw [List.getElem?_eq_getElem hltc]
  replace hcid : b.tcp.cons[j].id = con := of_decide_eq_true hcid
  have hj : b.tcp.cons[j]? = some b.tcp.cons[j] := List.getElem?_eq_getElem hltc
  generalize b.tcp.cons[j] = c at hcid hj
  have hc := List.mem_of_getElem? hj
  have hold := (h.tcp b hb).cons c hc
  have hmac : ({ c with macRem := m } : Con).Underway (r :: rs) s.io.segments :=
    ⟨hold.opening, hold.closing, hold.queued⟩
  have hnow : ∀ rs', _ := fun rs' => @sendTcpPkt_resolved w s.io { c with macRem := m } (r :: rs) rs' hmac hal
  have hmild := (@sendTcpPkt_quiet w 0 ({ c with macRem := m }, s.io)).toMild
  dsimp only
  generalize sendTcpPkt w ({ c with macRem := m }, s.io) = x at hnow hmild
  obtain ⟨c', io'⟩ := x
  have hkey : c'.key = c.key := Prod.ext hmild.same.1 hmild.same.2
  have hset : (s.setTcp i b (b.tcp.setCon j c') io').Underway (r :: rs) := by
    apply h.setTcp hi ((h.tcp b hb).set (hnow _) hmild.segments) _ hmild.segments
    refine (h.numbered b hb).congr ?_ rfl
    unfold TcpBinding.all TcpBinding.setCon
    dsimp only
    rw [List.map_append, List.map_append, map_set_same hj hkey]
  refine hset.done hf fun b' hb' d hd hdkey => ?_
  have hmem : c' ∈ (b.tcp.setCon j c').cons := List.mem_set (List.getElem?_eq_some_iff.mp hj).1 c'
  have hbmem : { b with tcp := b.tcp.setCon j c' } ∈ s.net.bindings.set i { b with tcp := b.tcp.setCon j c' } :=
    List.mem_set (List.getElem?_eq_some_iff.mp hi).1 _
  have hkey' : c'.key = (bid, con) := by
    rw [hkey]
    exact Prod.ext ((h.key hb hc).trans hbid) hcid
  cases hset.unique hb' hd hbmem hmem (hdkey.trans hkey'.symm)
  exact hnow rs

theorem sendIpv4Pkt_segments : (io.sendIpv4Pkt w len).2.segments = io.segments := by
  unfold Io.sendIpv4Pkt
  split_ifs <;> rfl

theorem udpWriteFinish_segments : (udpWriteFinish w u io).segments = io.segments := by
  have hsent := @sendIpv4Pkt_segments w io (8 + u.len)
  unfold udpWriteFinish
  generalize io.sendIpv4Pkt w (8 + u.len) = x at hsent
  obtain ⟨sent, io'⟩ := x
  dsimp only
  split_ifs
  · rw [replyCap_segments, unmapAddr_segments]
    exact hsent
  · exact hsent

theorem ArpFunc.run_underway (h : s.Underway (r :: rs)) (hal : w.alloc s.io.calls = true) :
    (r.func.run w m s).Underway rs := by
  cases hf : r.func with
  | connect bid con => exact connectTcpArp_underway h hf hal
  | udpWrite u =>
    have hrest : s.Underway rs := by
      refine ⟨fun b hb => ⟨fun c hc => ?_, (h.tcp b hb).listens⟩, h.distinct, h.below, h.numbered⟩
      refine ((h.tcp b hb).cons c hc).mono (fun q hq ho => ?_) fun f hf => hf
      rcases List.mem_cons.mp hq with rfl | hq
      · unfold ArpRequest.opens at ho
        rw [hf] at ho
        cases ho
      · exact hq
    exact hrest.mono rfl le_rfl (fun r hr => hr) fun f hf => udpWriteFinish_segments.symm ▸ hf

theorem runRequests_underway {todo : List ArpRequest} (h : s.Underway (todo ++ s.arpRequests))
    (hal : ∀ r ∈ todo, ∀ n, w.alloc n = true) :
    (runRequests w m todo s).AllUnderway := by
  induction todo generalizing s with
  | nil => exact h
  | cons r next ih =>
    unfold runRequests
    apply ih
    · rw [ArpFunc.run_lists.2]
      exact ArpFunc.run_underway h (hal r List.mem_cons_self _)
    · exact fun r hr => hal r (List.mem_cons_of_mem _ hr)

theorem arpAddEntry_underway (h : s.AllUnderway) (hal : ∀ r ∈ s.arpRequests, r.ip = ip → ∀ n, w.alloc n = true) :
    (arpAddEntry w ip m s).AllUnderway := by
  have hsplit : ∀ r ∈ s.arpRequests,
      r ∈ s.arpRequests.filter (fun r => decide (r.ip = ip)) ++ s.arpRequests.filter fun r => decide (r.ip ≠ ip) := by
    intro r hr
    by_cases hip : r.ip = ip
    · exact List.mem_append_left _ (List.mem_filter.mpr ⟨hr, decide_eq_true hip⟩)
    · exact List.mem_append_right _ (List.mem_filter.mpr ⟨hr, decide_eq_true hip⟩)
  have htodo : ∀ r ∈ s.arpRequests.filter (fun r => decide (r.ip = ip)), ∀ n, w.alloc n = true := by
    intro r hr
    obtain ⟨hr, hip⟩ := List.mem_filter.mp hr
    exact hal r hr (of_decide_eq_true hip)
  unfold arpAddEntry
  dsimp only
  split
  · exact runRequests_underway (h.mono rfl le_rfl hsplit fun f hf => hf) htodo
  · split_ifs
    · exact runRequests_underway (h.mono rfl le_rfl hsplit fun f hf => hf) htodo
    · exact h.mono rfl le_rfl (fun r hr => hr) fun f hf => hf

theorem Server.Underway.withIo (h : s.Underway rs) (hsegs : io.segments = s.io.segments) :
    ({ s with io := io } : Server).Underway rs :=
  h.mono rfl le_rfl (fun _ hr => hr) fun _ hf => hsegs.symm ▸ hf

theorem handleArpRequest_underway (h : s.AllUnderway)
    (hal : ∀ r ∈ s.arpRequests, r.ip = ip → ∀ n, w.alloc n = true) :
    (handleArpRequest w m ip s).AllUnderway := by
  unfold handleArpRequest
  split_ifs
  · have hsent : ({ s with io := s.io.next.sendArp } : Server).Underway s.arpRequests := h.withIo rfl
    exact arpAddEntry_underway hsent hal
  · exact h.withIo rfl

theorem handleArp_underway (h : s.AllUnderway) (hal : AddressTaken w pkt s) :
    (handleArp w pkt s).AllUnderway := by
  have hrequest := @handleArpRequest_underway w s (copyOut pkt 28 4) (copyOut pkt 6 6) h hal
  have hentry := @arpAddEntry_underway w s (copyOut pkt 28 4) (copyOut pkt 22 6) h hal
  unfold handleArp
  dsimp only
  split_ifs
  · exact h
  · exact h
  · exact h
  · exact hrequest
  · exact h
  · exact hentry
  · exact h
  · exact h

theorem handleTcp_underway (h : s.AllUnderway) (hs : s.Settled)
    (hp : ∀ i b, findBindingIp protoTcp (word p.data 2) s.net.bindings = some i → s.net.bindings[i]? = some b →
      SegmentTaken w s.io.segments (s.arpMatchIp p.srcIpv4) p b.tcp) :
    (handleTcp w p s).AllUnderway := by
  unfold handleTcp
  split
  · exact h
  · rename_i i hfind
    split
    · exact h
    · rename_i b hi
      have hb := List.mem_of_getElem? hi
      obtain ⟨h1, h2, h3, h4⟩ := @tcpInput_underway w s.io b.procId s.arpRequests p b.tcp (s.arpMatchIp p.srcIpv4)
        (hs.proper b hb) (h.tcp b hb) (hp i b hfind hi)
      exact h.setTcp hi h1 ((h.numbered b hb).congr h3 h4) h2

theorem Server.Underway.congr {net : NetDev TcpBinding} (h : s.Underway rs)
    (hb : net.bindings.map (fun b => (b.id, b.tcp)) = s.net.bindings.map fun b => (b.id, b.tcp)) :
    ({ s with net := net } : Server).Underway rs := by
  have hmem : ∀ b ∈ net.bindings, ∃ d ∈ s.net.bindings, d.id = b.id ∧ d.tcp = b.tcp := by
    intro b hmem
    have hin : (b.id, b.tcp) ∈ s.net.bindings.map fun b => (b.id, b.tcp) := by
      rw [← hb]
      exact List.mem_map_of_mem hmem
    obtain ⟨d, hd, he⟩ := List.mem_map.mp hin
    injection he with h1 h2
    exact ⟨d, hd, h1, h2⟩
  refine ⟨?_, ?_, ?_, ?_⟩
  · intro b hmem'
    obtain ⟨d, hd, -, he⟩ := hmem b hmem'
    rw [← he]
    exact h.tcp d hd
  · have hids := congrArg (List.map Prod.fst) hb
    rw [List.map_map, List.map_map] at hids
    show (net.bindings.map Binding.id).Nodup
    have hids' : net.bindings.map Binding.id = s.net.bindings.map Binding.id := hids
    rw [hids']
    exact h.distinct
  · intro b hmem'
    obtain ⟨d, hd, he, -⟩ := hmem b hmem'
    rw [← he]
    exact h.below d hd
  · intro b hmem'
    obtain ⟨d, hd, h1, h2⟩ := hmem b hmem'
    rw [← h1, ← h2]
    exact h.numbered d hd

theorem handOver_underway (h : s.AllUnderway) (hs : s.Settled) (hp : PacketTaken w p s) :
    (s.handOver w p).AllUnderway := by
  unfold Server.handOver
  split_ifs with h1 h2 h3
  · unfold handleIcmp
    split_ifs
    · split
      · exact h
      · exact h.withIo sendIpv4Pkt_segments
    · exact h
  · exact handleTcp_underway h hs (hp h2)
  · exact h.congr handleUdp_ids
  · exact h

theorem netProcessPkt_underway (h : s.AllUnderway) (hs : s.Settled) (hp : FrameTaken heap w pkt s) :
    (s.netProcessPkt heap w pkt).AllUnderway := by
  unfold FrameTaken at hp
  unfold Server.netProcessPkt
  split_ifs at hp ⊢ with h6 h8
  · exact handleArp_underway h hp
  · have hnet : ∀ net' : NetDev TcpBinding, net'.bindings = s.net.bindings →
        ({ s with net := net' } : Server).Underway s.arpRequests ∧ ({ s with net := net' } : Server).Settled := by
      intro net' he
      constructor
      · exact h.mono he le_rfl (fun r hr => hr) fun f hf => hf
      · show Agatha.Net.Settled net'.bindings s.arpRequests s.io.waiting
        rw [he]
        exact hs
    split
    · rename_i net' hr
      exact (hnet net' (receiveIpv4_bindings hr)).1
    · rename_i p net' hr
      obtain ⟨h1, h2⟩ := hnet net' (receiveIpv4_bindings hr)
      exact handOver_underway h1 h2 (hp h8 p net' hr)
  · exact h

end Underway

end Agatha.Net
