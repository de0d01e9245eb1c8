import Agatha.Library.SignalWord
import Agatha.Sys.Rendezvous

namespace Agatha.Sys

open Kernel Library Library.LinkedList Library.SignalWord

def Event.pid : Event → Option ℤ
  | .call _ _ i _ => some i
  | .request _ _ i _ => some i
  | .reply _ _ i _ => some i
  | .answer _ i _ => some i
  | .returned _ i => some i
  | _ => none

def Event.received : Event → Option (Addr × Addr)
  | .request r e _ _ => some (r, e)
  | .boundSignal r e _ => some (r, e)
  | .endpointSignal r e _ => some (r, e)
  | _ => none

def callOn (e : Addr) : Event → Option (ℤ × Bytes)
  | .call _ e' i rq => if e' = e then some (i, rq) else none
  | _ => none

def requestOn (e : Addr) : Event → Option (ℤ × Bytes)
  | .request _ e' i m => if e' = e then some (i, m) else none
  | _ => none

def calls (e : Addr) (h : List Event) : List (ℤ × Bytes) := h.filterMap (callOn e)

def requests (e : Addr) (h : List Event) : List (ℤ × Bytes) := h.filterMap (requestOn e)

def queueUp (e : Addr) (l : List ℤ) : Event → List ℤ
  | .call _ e' i _ => if e' = e then l ++ [i] else l
  | .reply _ e' i _ => if e' = e then l.erase i else l
  | _ => l

def unanswered (e : Addr) (h : List Event) : List ℤ := h.foldl (queueUp e) []

def log (i : ℤ) (h : List Event) : List Event := h.filter fun ev => ev.pid = some i

structure Exchange where
  endpoint : Addr
  receiver : Addr
  replier : Addr
  request : Bytes
  reply : Bytes

def Exchange.events (p : Addr) (i : ℤ) (x : Exchange) : List Event :=
  [.call p x.endpoint i x.request, .request x.receiver x.endpoint i x.request,
    .reply x.replier x.endpoint i x.reply, .answer p i x.reply, .returned p i]

def Proc.progress (x : Proc) : ℕ :=
  if x.mesgOn = none then 0
  else match x.state with
    | .blockSend => 1
    | .blockReply => 2
    | _ => 3

def Logged (k : Kernel) (h : List Event) (i : ℤ) (p : Addr) : Prop :=
  ∃ (done : List Exchange) (x : Exchange),
    log i h = done.flatMap (Exchange.events p i) ++ (x.events p i).take (k.proc p).progress ∧
    ∀ e, (k.proc p).mesgOn = some e → x.endpoint = e ∧
      (k.proc p).m = if (k.proc p).state.Waits then x.request else x.reply

def sent (k : Kernel) (l : List Addr) : List (ℤ × Bytes) :=
  (l.filter fun p => (k.proc p).state = .blockSend).map fun p => ((k.proc p).pid, (k.proc p).m)

structure Exchanges (k : Kernel) (W : Addr → List Addr) (h : List Event) : Prop where
  unanswered : ∀ e, (W e).map (fun p => (k.proc p).pid) = unanswered e h
  calls : ∀ e, calls e h = requests e h ++ sent k (W e)
  logged : ∀ i p, k.procs i = some p → Logged k h i p
  unmade : ∀ i : ℤ, (∀ j p, k.procs j = some p → i ≠ j) → log i h = []

def endpointMove (e : Addr) : Event → Option (Move 32)
  | .signal e' none s => if e' = e then some (.raise s) else none
  | .endpointSignal _ e' s => if e' = e then some (.take s) else none
  | _ => none

def boundMove (p : Addr) : Event → Option (Move 32)
  | .signal _ (some q) s => if q = p then some (.raise s) else none
  | .boundSignal q _ s => if q = p then some (.take s) else none
  | _ => none

structure Signals (receiver : Addr → Addr) (k : Kernel) (h : List Event) : Prop where
  endpoint : ∀ e, (k.endpoint e).signal = pending (h.filterMap (endpointMove e))
  endpointExact : ∀ e, Exact (h.filterMap (endpointMove e))
  bound : ∀ p, (k.proc p).boundSignal = pending (h.filterMap (boundMove p))
  boundExact : ∀ p, Exact (h.filterMap (boundMove p))
  receives : ∀ ev ∈ h, ∀ r e, ev.received = some (r, e) → receiver e = r

section Histories

variable {h ev : List Event} {x : Event} {e p : Addr} {i : ℤ}

@[simp] theorem calls_singleton : calls e [x] = (callOn e x).toList := by
  cases hc : callOn e x <;> simp [calls, hc]

@[simp] theorem requests_singleton : requests e [x] = (requestOn e x).toList := by
  cases hc : requestOn e x <;> simp [requests, hc]

theorem calls_append : calls e (h ++ ev) = calls e h ++ calls e ev := List.filterMap_append ..

theorem requests_append : requests e (h ++ ev) = requests e h ++ requests e ev :=
  List.filterMap_append ..

theorem log_append : log i (h ++ ev) = log i h ++ log i ev := List.filter_append ..

theorem unanswered_concat : unanswered e (h ++ [x]) = queueUp e (unanswered e h) x := by
  simp [unanswered]

theorem unanswered_append : unanswered e (h ++ ev) = ev.foldl (queueUp e) (unanswered e h) :=
  List.foldl_append

theorem Event.no_message {l : List ℤ} (hx : x.pid = none) :
    callOn e x = none ∧ requestOn e x = none ∧ queueUp e l x = l := by
  cases x <;> first | exact ⟨rfl, rfl, rfl⟩ | cases hx

theorem Event.no_move (hx : x.pid ≠ none) : endpointMove e x = none ∧ boundMove p x = none := by
  cases x <;> first | exact ⟨rfl, rfl⟩ | exact absurd rfl hx

theorem messages_append (hev : ∀ x ∈ ev, x.pid = none) :
    calls e (h ++ ev) = calls e h ∧ requests e (h ++ ev) = requests e h ∧
      unanswered e (h ++ ev) = unanswered e h ∧ log i (h ++ ev) = log i h := by
  induction ev using List.reverseRecOn with
  | nil => simp
  | append_singleton ev x ih =>
    obtain ⟨hc, hr, hu, hl⟩ := ih fun y hy => hev y (by simp [hy])
    have hx := hev x (by simp)
    obtain ⟨hcx, hrx, hux⟩ := Event.no_message (e := e) (l := unanswered e (h ++ ev)) hx
    have hlx : log i [x] = [] := by simp [log, hx]
    rw [← List.append_assoc, calls_append, requests_append, unanswered_concat, log_append, hux,
      calls_singleton, requests_singleton, hcx, hrx, hlx]
    simp only [Option.toList_none, List.append_nil]
    exact ⟨hc, hr, hu, hl⟩

theorem moves_append (hev : ∀ x ∈ ev, x.pid ≠ none) :
    (h ++ ev).filterMap (endpointMove e) = h.filterMap (endpointMove e) ∧
      (h ++ ev).filterMap (boundMove p) = h.filterMap (boundMove p) := by
  have hnil : ev.filterMap (endpointMove e) = [] ∧ ev.filterMap (boundMove p) = [] := by
    constructor <;> refine List.filterMap_eq_nil_iff.mpr fun x hx => ?_
    · exact (Event.no_move (p := 0) (hev x hx)).1
    · exact (Event.no_move (e := 0) (hev x hx)).2
  simp [List.filterMap_append, hnil.1, hnil.2]

end Histories

section Frames

variable {k k' : Kernel} {W W' : Addr → List Addr} {h ev : List Event} {e p q u r : Addr} {i : ℤ}

theorem Logged.keep (hl : Logged k h i p) (hev : log i ev = [])
    (hm : (k'.proc p).mesgOn = (k.proc p).mesgOn)
    (hs : (k.proc p).mesgOn ≠ none → (k'.proc p).state = (k.proc p).state ∧
      (k'.proc p).m = (k.proc p).m) : Logged k' (h ++ ev) i p := by
  obtain ⟨done, x, hlog, hx⟩ := hl
  have hprogress : (k'.proc p).progress = (k.proc p).progress := by
    unfold Proc.progress
    rw [hm]
    by_cases hn : (k.proc p).mesgOn = none
    · rw [if_pos hn, if_pos hn]
    · rw [if_neg hn, if_neg hn, (hs hn).1]
  refine ⟨done, x, ?_, fun e he => ?_⟩
  · rw [log_append, hev, List.append_nil, hprogress, hlog]
  · rw [hm] at he
    obtain ⟨hstate, hmesg⟩ := hs fun hn => by rw [hn] at he; cases he
    rw [hstate, hmesg]
    exact hx e he

theorem Exchanges.keep (hx : Exchanges k W h) (hw : Waiting k W) (hev : ∀ x ∈ ev, x.pid = none)
    (hprocs : ∀ i p, k'.procs i = some p → k.procs i = some p)
    (hprocs' : ∀ i p, k.procs i = some p → k'.procs i = some p)
    (hpid : ∀ p, (k.proc p).mesgOn ≠ none → (k'.proc p).pid = (k.proc p).pid)
    (hm : ∀ p, (k'.proc p).mesgOn = (k.proc p).mesgOn)
    (hs : ∀ p, (k.proc p).mesgOn ≠ none → (k'.proc p).state = (k.proc p).state ∧
      (k'.proc p).m = (k.proc p).m) : Exchanges k' W (h ++ ev) := by
  have hmem : ∀ e, ∀ p ∈ W e, (k.proc p).mesgOn ≠ none := fun e p hp =>
    hw.calling p ((hw.mem_iff e p).mp hp).1
  refine ⟨fun e => ?_, fun e => ?_, fun i p hp => ?_, fun i hi => ?_⟩
  · rw [(messages_append (i := 0) hev).2.2.1, ← hx.unanswered e]
    exact List.map_congr_left fun p hp => hpid p (hmem e p hp)
  · rw [(messages_append (i := 0) hev).1, (messages_append (i := 0) hev).2.1, hx.calls e]
    congr 1
    unfold sent
    have hfilter : (W e).filter (fun p => (k'.proc p).state = .blockSend) =
        (W e).filter fun p => (k.proc p).state = .blockSend :=
      List.filter_congr fun p hp => by rw [(hs p (hmem e p hp)).1]
    rw [hfilter]
    refine List.map_congr_left fun p hp => ?_
    have hp' := hmem e p (List.mem_filter.mp hp).1
    rw [hpid p hp', (hs p hp').2]
  · refine (hx.logged i p (hprocs i p hp)).keep ?_ (hm p) (hs p)
    exact List.filter_eq_nil_iff.mpr fun x hxe => by simp [hev x hxe]
  · rw [(messages_append (e := 0) hev).2.2.2]
    exact hx.unmade i fun j p hp => hi j p (hprocs' j p hp)

theorem Exchanges.same (hx : Exchanges k W h) (hw : Waiting k W) (hprocs : k'.procs = k.procs)
    (hpid : ∀ p, (k.proc p).mesgOn ≠ none → (k'.proc p).pid = (k.proc p).pid)
    (hm : ∀ p, (k'.proc p).mesgOn = (k.proc p).mesgOn)
    (hs : ∀ p, (k.proc p).mesgOn ≠ none → (k'.proc p).state = (k.proc p).state ∧
      (k'.proc p).m = (k.proc p).m) : Exchanges k' W h := by
  have hkeep := @Exchanges.keep k k' W h [] hx hw nofun (fun _ _ hp => hprocs ▸ hp) (fun _ _ hp => hprocs.symm ▸ hp)
    hpid hm hs
  rwa [List.append_nil] at hkeep

theorem Made.pid_iff (hmade : Made k) (hp : k.procs r = some p) (hq : (k.proc q).state ≠ .fault) :
    (k.proc q).pid = r ↔ q = p := by
  obtain ⟨j, hj⟩ := hmade.started q hq
  rw [hmade.pid j q hj]
  refine ⟨fun he => ?_, fun he => ?_⟩
  · obtain rfl : j = r := by exact_mod_cast he
    exact Option.some.inj (hj.symm.trans hp)
  · subst he
    rw [← hmade.pid j q hj, hmade.pid r q hp]

end Frames

section Messages

variable {k k' : Kernel} {W : Addr → List Addr} {h : List Event} {e p q u r : Addr} {i : ℤ}
variable {ev : List Event} {m : Bytes}

theorem Exchanges.logs (hx : Exchanges k W h) (hmade : Made k) (hprocs : k'.procs = k.procs)
    (hev : ∀ x ∈ ev, x.pid = some (k.proc q).pid) (hq : (k.proc q).state ≠ .fault)
    (hm : ∀ p, p ≠ q → (k'.proc p).mesgOn = (k.proc p).mesgOn)
    (hs : ∀ p, p ≠ q → (k.proc p).mesgOn ≠ none → (k'.proc p).state = (k.proc p).state ∧
      (k'.proc p).m = (k.proc p).m)
    (hlog : Logged k h (k.proc q).pid q → Logged k' (h ++ ev) (k.proc q).pid q) :
    (∀ i p, k'.procs i = some p → Logged k' (h ++ ev) i p) ∧
      ∀ i : ℤ, (∀ j p, k'.procs j = some p → i ≠ j) → log i (h ++ ev) = [] := by
  obtain ⟨j, hj⟩ := hmade.started q hq
  constructor
  · intro i p hp
    rw [hprocs] at hp
    by_cases hpq : p = q
    · rw [hpq] at hp ⊢
      have hpid := hmade.pid i q hp
      rw [← hpid]
      exact hlog (hpid ▸ hx.logged i q hp)
    · refine (hx.logged i p hp).keep ?_ (hm p hpq) (hs p hpq)
      have hne : ¬ (k.proc q).pid = i := fun he => hpq ((hmade.pid_iff hp hq).mp he).symm
      exact List.filter_eq_nil_iff.mpr fun x hx => by simp [hev x hx, hne]
  · intro i hi
    rw [hprocs] at hi
    have hne : ¬ (k.proc q).pid = i := by
      rw [hmade.pid j q hj]
      exact fun he => hi j q hj he.symm
    rw [log_append, hx.unmade i hi, List.nil_append]
    exact List.filter_eq_nil_iff.mpr fun x hx => by simp [hev x hx, hne]

theorem sent_congr {l : List Addr} (hpid : ∀ p ∈ l, (k'.proc p).pid = (k.proc p).pid)
    (hs : ∀ p ∈ l, (k'.proc p).state = (k.proc p).state)
    (hm : ∀ p ∈ l, (k'.proc p).m = (k.proc p).m) : sent k' l = sent k l := by
  unfold sent
  rw [List.filter_congr fun p hp => by rw [hs p hp]]
  refine List.map_congr_left fun p hp => ?_
  have hp' := (List.mem_filter.mp hp).1
  rw [hpid p hp', hm p hp']

theorem sent_append {l l' : List Addr} : sent k (l ++ l') = sent k l ++ sent k l' := by
  simp [sent]

theorem sent_nil {l : List Addr} (hl : ∀ p ∈ l, (k.proc p).state ≠ .blockSend) :
    sent k l = [] := by
  unfold sent
  rw [List.filter_eq_nil_iff.mpr fun p hp => by simp [hl p hp]]
  rfl

theorem Exchanges.call (hx : Exchanges k W h) (hw : Waiting k W) (hmade : Made k)
    (hu : (k.proc u).state = .ready) (hun : (k.proc u).mesgOn = none)
    (hprocs : k'.procs = k.procs) (hpid : ∀ p, (k'.proc p).pid = (k.proc p).pid)
    (hm : ∀ p, p ≠ u → (k'.proc p).mesgOn = (k.proc p).mesgOn)
    (hs : ∀ p, p ≠ u → (k.proc p).mesgOn ≠ none → (k'.proc p).state = (k.proc p).state ∧
      (k'.proc p).m = (k.proc p).m)
    (hum : (k'.proc u).mesgOn = some e) (hus : (k'.proc u).state = .blockSend)
    (hub : (k'.proc u).m = m) :
    Exchanges k' (Function.update W e (W e ++ [u])) (h ++ [.call u e (k.proc u).pid m]) := by
  have hout : ∀ e', u ∉ W e' := by
    intro e' hm'
    rw [hw.mem_iff, hun] at hm'
    cases hm'.2
  have hmem : ∀ e', ∀ p ∈ W e', p ≠ u ∧ (k.proc p).mesgOn ≠ none := fun e' p hp =>
    ⟨fun he => hout e' (he ▸ hp), hw.calling p ((hw.mem_iff e' p).mp hp).1⟩
  have hsent : ∀ e', sent k' (W e') = sent k (W e') := fun e' =>
    sent_congr (fun p _ => hpid p) (fun p hp => (hs p (hmem e' p hp).1 (hmem e' p hp).2).1)
      (fun p hp => (hs p (hmem e' p hp).1 (hmem e' p hp).2).2)
  have hlog : Logged k h (k.proc u).pid u →
      Logged k' (h ++ [.call u e (k.proc u).pid m]) (k.proc u).pid u := by
    rintro ⟨done, x, hlog, -⟩
    refine ⟨done, ⟨e, 0, 0, m, m⟩, ?_, fun e' he' => ?_⟩
    · have h0 : (k.proc u).progress = 0 := by simp [Proc.progress, hun]
      have h1 : (k'.proc u).progress = 1 := by simp [Proc.progress, hum, hus]
      rw [log_append, hlog, h0, h1]
      simp [log, Event.pid, Exchange.events]
    · rw [hum] at he'
      refine ⟨Option.some.inj he', ?_⟩
      rw [hub, ite_self]
  obtain ⟨hlogged, hunmade⟩ := hx.logs (q := u) hmade hprocs
    (List.forall_mem_singleton.mpr rfl) (fun hf => by rw [hu] at hf; cases hf) hm hs hlog
  refine ⟨fun e' => ?_, fun e' => ?_, hlogged, hunmade⟩
  · rw [unanswered_concat, ← hx.unanswered e']
    have hmap : (W e').map (fun p => (k'.proc p).pid) = (W e').map fun p => (k.proc p).pid :=
      List.map_congr_left fun p _ => hpid p
    by_cases he : e' = e
    · subst he
      simp [queueUp, hpid]
    · simp [queueUp, hmap, he, Ne.symm he]
  · rw [calls_append, requests_append, hx.calls e']
    by_cases he : e' = e
    · subst he
      rw [Function.update_self, sent_append, hsent]
      simp [callOn, requestOn, sent, hus, hpid, hub]
    · rw [Function.update_of_ne he, hsent]
      simp [callOn, requestOn, Ne.symm he]

theorem Exchanges.request (hx : Exchanges k W h) (hw : Waiting k W) (hmade : Made k)
    {ys zs : List Addr} (hW : W e = ys ++ q :: zs) (hq : (k.proc q).state = .blockSend)
    (hys : ∀ p ∈ ys, (k.proc p).state ≠ .blockSend)
    (hprocs : k'.procs = k.procs) (hpid : ∀ p, (k'.proc p).pid = (k.proc p).pid)
    (hm : ∀ p, (k'.proc p).mesgOn = (k.proc p).mesgOn) (hb : ∀ p, (k'.proc p).m = (k.proc p).m)
    (hs : ∀ p, p ≠ q → (k.proc p).mesgOn ≠ none → (k'.proc p).state = (k.proc p).state)
    (hqs : (k'.proc q).state = .blockReply) :
    Exchanges k' W (h ++ [.request u e (k.proc q).pid (k.proc q).m]) := by
  have hqe : (k.proc q).mesgOn = some e := ((hw.mem_iff e q).mp (by simp [hW])).2
  have hcalling : ∀ e', ∀ p ∈ W e', (k.proc p).mesgOn ≠ none := fun e' p hp =>
    hw.calling p ((hw.mem_iff e' p).mp hp).1
  have hsent : ∀ e' l, (∀ p ∈ l, p ∈ W e') → q ∉ l → sent k' l = sent k l := fun e' l hl hql =>
    sent_congr (fun p _ => hpid p)
      (fun p hp => hs p (fun he => hql (he ▸ hp)) (hcalling e' p (hl p hp))) (fun p _ => hb p)
  have hlog : Logged k h (k.proc q).pid q →
      Logged k' (h ++ [.request u e (k.proc q).pid (k.proc q).m]) (k.proc q).pid q := by
    rintro ⟨done, x, hlog, hxm⟩
    have hw' : (k.proc q).state.Waits := .inl hq
    obtain ⟨hxe, hxb⟩ := hxm e hqe
    rw [if_pos hw'] at hxb
    refine ⟨done, { x with receiver := u }, ?_, fun e' he' => ?_⟩
    · have h1 : (k.proc q).progress = 1 := by simp [Proc.progress, hqe, hq]
      have h2 : (k'.proc q).progress = 2 := by simp [Proc.progress, hm, hqe, hqs]
      rw [log_append, hlog, h1, h2]
      simp [log, Event.pid, Exchange.events, hxe, hxb]
    · rw [hm, hqe] at he'
      refine ⟨hxe.trans (Option.some.inj he'), ?_⟩
      rw [hb, hqs, if_pos (.inr rfl)]
      exact hxb
  obtain ⟨hlogged, hunmade⟩ := hx.logs (q := q) hmade hprocs
    (List.forall_mem_singleton.mpr rfl) (fun hf => by rw [hq] at hf; cases hf) (fun p _ => hm p)
    (fun p hp hn => ⟨hs p hp hn, hb p⟩) hlog
  refine ⟨fun e' => ?_, fun e' => ?_, hlogged, hunmade⟩
  · rw [unanswered_concat, ← hx.unanswered e']
    simp only [queueUp]
    exact List.map_congr_left fun p _ => hpid p
  · rw [calls_append, requests_append, hx.calls e']
    by_cases he : e' = e
    · subst he
      have hnd := (hw.lists.dll e').nodup
      rw [hW] at hnd
      obtain ⟨-, hzs, hdis⟩ := List.nodup_append.mp hnd
      have hqzs : q ∉ zs := (List.nodup_cons.mp hzs).1
      have hys' : ∀ p ∈ ys, (k'.proc p).state ≠ .blockSend := by
        intro p hp
        rw [hs p (fun he => hdis p hp q List.mem_cons_self he) (hcalling e' p (by simp [hW, hp]))]
        exact hys p hp
      have hold : sent k (W e') = ((k.proc q).pid, (k.proc q).m) :: sent k zs := by
        rw [hW, sent_append, sent_nil hys]
        simp [sent, hq]
      have hnew : sent k' (W e') = sent k zs := by
        rw [hW, sent_append, sent_nil hys', ← hsent e' zs (fun p hp => by simp [hW, hp]) hqzs]
        simp [sent, hqs]
      rw [hold, hnew]
      simp [callOn, requestOn]
    · have hql : q ∉ W e' := by
        rw [hw.mem_iff, hqe]
        exact fun h => he (Option.some.inj h.2).symm
      rw [hsent e' (W e') (fun p hp => hp) hql]
      simp [callOn, requestOn, Ne.symm he]

theorem Exchanges.reply (hx : Exchanges k W h) (hw : Waiting k W) (hmade : Made k)
    (hqW : q ∈ W e) (hq : (k.proc q).state = .blockReply)
    (hprocs : k'.procs = k.procs) (hpid : ∀ p, (k'.proc p).pid = (k.proc p).pid)
    (hm : ∀ p, (k'.proc p).mesgOn = (k.proc p).mesgOn)
    (hs : ∀ p, p ≠ q → (k.proc p).mesgOn ≠ none → (k'.proc p).state = (k.proc p).state ∧
      (k'.proc p).m = (k.proc p).m)
    (hqs : (k'.proc q).state = .ready) (hqm : (k'.proc q).m = m) :
    Exchanges k' (Function.update W e ((W e).erase q)) (h ++ [.reply u e (k.proc q).pid m]) := by
  have hqe : (k.proc q).mesgOn = some e := ((hw.mem_iff e q).mp hqW).2
  have hcalling : ∀ e', ∀ p ∈ W e', (k.proc p).mesgOn ≠ none := fun e' p hp =>
    hw.calling p ((hw.mem_iff e' p).mp hp).1
  have hsent : ∀ e' l, (∀ p ∈ l, p ∈ W e') → q ∉ l → sent k' l = sent k l := fun e' l hl hql =>
    sent_congr (fun p _ => hpid p)
      (fun p hp => (hs p (fun he => hql (he ▸ hp)) (hcalling e' p (hl p hp))).1)
      (fun p hp => (hs p (fun he => hql (he ▸ hp)) (hcalling e' p (hl p hp))).2)
  have hfault : (k.proc q).state ≠ .fault := fun hf => by rw [hq] at hf; cases hf
  have hmap : ∀ l : List Addr, l.map (fun p => (k'.proc p).pid) = l.map fun p => (k.proc p).pid :=
    fun l => List.map_congr_left fun p _ => hpid p
  have hlog : Logged k h (k.proc q).pid q →
      Logged k' (h ++ [.reply u e (k.proc q).pid m]) (k.proc q).pid q := by
    rintro ⟨done, x, hlog, hxm⟩
    obtain ⟨hxe, hxb⟩ := hxm e hqe
    refine ⟨done, { x with replier := u, reply := m }, ?_, fun e' he' => ?_⟩
    · have h2 : (k.proc q).progress = 2 := by simp [Proc.progress, hqe, hq]
      have h3 : (k'.proc q).progress = 3 := by simp [Proc.progress, hm, hqe, hqs]
      rw [log_append, hlog, h2, h3]
      simp [log, Event.pid, Exchange.events, hxe]
    · rw [hm, hqe] at he'
      refine ⟨hxe.trans (Option.some.inj he'), ?_⟩
      rw [hqs, if_neg, hqm]
      rintro (hf | hf) <;> cases hf
  obtain ⟨hlogged, hunmade⟩ := hx.logs (q := q) hmade hprocs
    (List.forall_mem_singleton.mpr rfl) hfault (fun p _ => hm p) hs hlog
  have hout : ∀ e', e' ≠ e → q ∉ W e' := by
    intro e' he
    rw [hw.mem_iff, hqe]
    exact fun h => he (Option.some.inj h.2).symm
  refine ⟨fun e' => ?_, fun e' => ?_, hlogged, hunmade⟩
  · rw [unanswered_concat, ← hx.unanswered e', hmap]
    by_cases he : e' = e
    · subst he
      have hinj : ∀ p ∈ W e', (k.proc p).pid = (k.proc q).pid → p = q := by
        intro p hp hpq
        have hpf : (k.proc p).state ≠ .fault := by
          have := ((hw.mem_iff e' p).mp hp).1
          intro hf
          rw [hf] at this
          rcases this with h | h <;> cases h
        obtain ⟨j, hj⟩ := hmade.started q hfault
        exact (hmade.pid_iff hj hpf).mp (hpq.trans (hmade.pid j q hj))
      obtain ⟨ys, zs, hW⟩ := List.append_of_mem hqW
      have hnd := (hw.lists.dll e').nodup
      rw [hW] at hnd
      have hqys : q ∉ ys := fun hy =>
        (List.nodup_append.mp hnd).2.2 q hy q List.mem_cons_self rfl
      have hqys' : (k.proc q).pid ∉ ys.map fun p => (k.proc p).pid := by
        intro hy
        obtain ⟨p, hp, hpq⟩ := List.mem_map.mp hy
        exact hqys (hinj p (by simp [hW, hp]) hpq ▸ hp)
      rw [Function.update_self, hW, List.erase_append_right _ hqys]
      simp only [List.erase_cons_head, List.map_append, List.map_cons, queueUp, if_pos]
      rw [List.erase_append_right _ hqys', List.erase_cons_head]
    · simp [queueUp, he, Ne.symm he]
  · rw [calls_append, requests_append, hx.calls e']
    by_cases he : e' = e
    · subst he
      have herase : sent k' ((W e').erase q) = sent k (W e') := by
        obtain ⟨ys, zs, hW⟩ := List.append_of_mem hqW
        have hnd := (hw.lists.dll e').nodup
        rw [hW] at hnd
        obtain ⟨-, hzs, hdis⟩ := List.nodup_append.mp hnd
        have hqys : q ∉ ys := fun hy => hdis q hy q List.mem_cons_self rfl
        have hqzs : q ∉ zs := (List.nodup_cons.mp hzs).1
        rw [hW, List.erase_append_right _ hqys, List.erase_cons_head, sent_append, sent_append,
          hsent e' ys (fun p hp => by simp [hW, hp]) hqys,
          hsent e' zs (fun p hp => by simp [hW, hp]) hqzs]
        simp [sent, hq]
      rw [Function.update_self, herase]
      simp [callOn, requestOn]
    · rw [Function.update_of_ne he, hsent e' (W e') (fun p hp => hp) (hout e' he)]
      simp [callOn, requestOn]

theorem Exchanges.answer (hx : Exchanges k W h) (hw : Waiting k W) (hmade : Made k)
    (hu : (k.proc u).state = .ready) (hue : (k.proc u).mesgOn = some e)
    (hprocs : k'.procs = k.procs) (hpid : ∀ p, (k'.proc p).pid = (k.proc p).pid)
    (hm : ∀ p, p ≠ u → (k'.proc p).mesgOn = (k.proc p).mesgOn)
    (hs : ∀ p, p ≠ u → (k.proc p).mesgOn ≠ none → (k'.proc p).state = (k.proc p).state ∧
      (k'.proc p).m = (k.proc p).m) (hun : (k'.proc u).mesgOn = none) :
    Exchanges k' W
      (h ++ [.answer u (k.proc u).pid (k.proc u).m, .returned u (k.proc u).pid]) := by
  have hout : ∀ e', u ∉ W e' := by
    intro e' hm'
    rw [hw.mem_iff, hu] at hm'
    rcases hm'.1 with hf | hf <;> cases hf
  have hmem : ∀ e', ∀ p ∈ W e', p ≠ u ∧ (k.proc p).mesgOn ≠ none := fun e' p hp =>
    ⟨fun he => hout e' (he ▸ hp), hw.calling p ((hw.mem_iff e' p).mp hp).1⟩
  have hsent : ∀ e', sent k' (W e') = sent k (W e') := fun e' =>
    sent_congr (fun p _ => hpid p) (fun p hp => (hs p (hmem e' p hp).1 (hmem e' p hp).2).1)
      (fun p hp => (hs p (hmem e' p hp).1 (hmem e' p hp).2).2)
  have hlog : Logged k h (k.proc u).pid u →
      Logged k' (h ++ [.answer u (k.proc u).pid (k.proc u).m, .returned u (k.proc u).pid])
        (k.proc u).pid u := by
    rintro ⟨done, x, hlog, hxm⟩
    obtain ⟨hxe, hxb⟩ := hxm e hue
    have hnw : ¬ (k.proc u).state.Waits := by
      rw [hu]
      rintro (hf | hf) <;> cases hf
    rw [if_neg hnw] at hxb
    refine ⟨done ++ [x], x, ?_, fun e' he' => ?_⟩
    · have h3 : (k.proc u).progress = 3 := by simp [Proc.progress, hue, hu]
      have h0 : (k'.proc u).progress = 0 := by simp [Proc.progress, hun]
      rw [log_append, hlog, h3, h0]
      simp [log, Event.pid, Exchange.events, hxb]
    · rw [hun] at he'
      cases he'
  obtain ⟨hlogged, hunmade⟩ := hx.logs (q := u) hmade hprocs
    (by simp [Event.pid]) (fun hf => by rw [hu] at hf; cases hf) hm hs hlog
  refine ⟨fun e' => ?_, fun e' => ?_, hlogged, hunmade⟩
  · rw [unanswered_append, ← hx.unanswered e']
    simp only [List.foldl_cons, List.foldl_nil, queueUp]
    exact List.map_congr_left fun p _ => hpid p
  · rw [calls_append, requests_append, hx.calls e', hsent]
    simp [Sys.calls, Sys.requests, List.filterMap_cons, callOn, requestOn]

end Messages

section Words

variable {receiver : Addr → Addr} {k k' : Kernel} {h ev : List Event} {x : Event}

def moved (m : Option (Move 32)) (s : BitVec 32) : BitVec 32 := m.elim s (Move.apply s)

theorem Signals.keep (hs : Signals receiver k h) (hev : ∀ x ∈ ev, x.pid ≠ none)
    (hr : ∀ x ∈ ev, ∀ r e, x.received = some (r, e) → receiver e = r)
    (he : ∀ e, (k'.endpoint e).signal = (k.endpoint e).signal)
    (hb : ∀ p, (k'.proc p).boundSignal = (k.proc p).boundSignal) :
    Signals receiver k' (h ++ ev) := by
  have hmoves := fun e p => moves_append (h := h) (e := e) (p := p) hev
  refine ⟨fun e => ?_, fun e => ?_, fun p => ?_, fun p => ?_, fun x hx => ?_⟩
  · rw [(hmoves e 0).1, he]
    exact hs.endpoint e
  · rw [(hmoves e 0).1]
    exact hs.endpointExact e
  · rw [(hmoves 0 p).2, hb]
    exact hs.bound p
  · rw [(hmoves 0 p).2]
    exact hs.boundExact p
  · rcases List.mem_append.mp hx with hx | hx
    · exact hs.receives x hx
    · exact hr x hx

theorem Signals.same (hs : Signals receiver k h) (he : ∀ e, (k'.endpoint e).signal = (k.endpoint e).signal)
    (hb : ∀ p, (k'.proc p).boundSignal = (k.proc p).boundSignal) : Signals receiver k' h := by
  have hkeep := @Signals.keep receiver k k' h [] hs nofun nofun he hb
  rwa [List.append_nil] at hkeep

theorem Signals.message (hs : Signals receiver k h) (hx : x.pid ≠ none)
    (hr : ∀ r e, x.received = some (r, e) → receiver e = r)
    (he : ∀ e, (k'.endpoint e).signal = (k.endpoint e).signal)
    (hb : ∀ p, (k'.proc p).boundSignal = (k.proc p).boundSignal) : Signals receiver k' (h ++ [x]) := by
  apply hs.keep _ _ he hb
  · intro y hy
    rw [List.mem_singleton.mp hy]
    exact hx
  · intro y hy
    rw [List.mem_singleton.mp hy]
    exact hr

theorem Signals.move (hs : Signals receiver k h)
    (hr : ∀ r e, x.received = some (r, e) → receiver e = r)
    (he : ∀ e, (k'.endpoint e).signal = moved (endpointMove e x) (k.endpoint e).signal)
    (hb : ∀ p, (k'.proc p).boundSignal = moved (boundMove p x) (k.proc p).boundSignal)
    (het : ∀ e s, endpointMove e x = some (.take s) → s = (k.endpoint e).signal)
    (hbt : ∀ p s, boundMove p x = some (.take s) → s = (k.proc p).boundSignal) :
    Signals receiver k' (h ++ [x]) := by
  refine ⟨fun e => ?_, fun e => ?_, fun p => ?_, fun p => ?_, fun y hy => ?_⟩
  · rw [he, hs.endpoint e, List.filterMap_append]
    cases hm : endpointMove e x <;> simp [moved, hm]
  · rw [List.filterMap_append]
    cases hm : endpointMove e x with
    | none => simpa [hm] using hs.endpointExact e
    | some m =>
      have hexact := (hs.endpointExact e).concat (m := m) fun s hms => by
        rw [← hs.endpoint e]
        exact het e s (hms ▸ hm)
      simpa [hm] using hexact
  · rw [hb, hs.bound p, List.filterMap_append]
    cases hm : boundMove p x <;> simp [moved, hm]
  · rw [List.filterMap_append]
    cases hm : boundMove p x with
    | none => simpa [hm] using hs.boundExact p
    | some m =>
      have hexact := (hs.boundExact p).concat (m := m) fun s hms => by
        rw [← hs.bound p]
        exact hbt p s (hms ▸ hm)
      simpa [hm] using hexact
  · rcases List.mem_append.mp hy with hy | hy
    · exact hs.receives y hy
    · rw [List.mem_singleton.mp hy]
      exact hr

end Words

end Agatha.Sys
