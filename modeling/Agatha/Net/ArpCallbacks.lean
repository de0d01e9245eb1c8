import Agatha.Net.Server

/-!
The callbacks of `arp_request` (`lib/net/arp.c`), where every allocation succeeds. A callback may call
`arp_request` again, any number of times and for any address.
-/

namespace Agatha.Net.ArpCallbacks

/-- A call of `arp_request` that waits, by its number; the number stands for `func` and `arg`. -/
structure Request where
  id : ℕ
  ip : List UInt8

/-- What happens, in order: `arp_request` is called, `arp_add_entry` starts for a packet, a callback is
called, `arp_add_entry` returns. -/
inductive Event
  | asked (id : ℕ) (ip : List UInt8)
  | accepted (ip mac : List UInt8)
  | invoked (id : ℕ) (mac : List UInt8)
  | handled

structure Arp where
  entries : List ArpEntry
  requests : List Request
  asked : ℕ
  log : List Event

def init : Arp := ⟨[], [], 0, []⟩

def matchIp (ip : List UInt8) : List ArpEntry → Option (List UInt8)
  | [] => none
  | e :: next => if e.ip = ip then some e.mac else matchIp ip next

def setMac (ip mac : List UInt8) : List ArpEntry → List ArpEntry
  | [] => []
  | e :: next => if e.ip = ip then ⟨e.ip, mac⟩ :: next else e :: setMac ip mac next

def addEntry (ip mac : List UInt8) (entries : List ArpEntry) : List ArpEntry :=
  match matchIp ip entries with
  | some _ => setMac ip mac entries
  | none => ⟨ip, mac⟩ :: entries

def Arp.invoke (id : ℕ) (mac : List UInt8) (s : Arp) : Arp := { s with log := s.log ++ [.invoked id mac] }

def Arp.ask (ip : List UInt8) (s : Arp) : Arp :=
  { s with asked := s.asked + 1, log := s.log ++ [.asked s.asked ip] }

def Arp.queue (id : ℕ) (ip : List UInt8) (s : Arp) : Arp := { s with requests := ⟨id, ip⟩ :: s.requests }

/-- What a callback does until it returns: calls of `arp_request`, with what their callbacks do. -/
inductive Callback : Arp → Arp → Prop
  | done {s : Arp} : Callback s s
  | known {s t u : Arp} {ip mac : List UInt8} (h : matchIp ip s.entries = some mac)
      (func : Callback ((s.ask ip).invoke s.asked mac) t) (rest : Callback t u) : Callback s u
  | unknown {s t : Arp} {ip : List UInt8} (h : matchIp ip s.entries = none)
      (rest : Callback ((s.ask ip).queue s.asked ip) t) : Callback s t

/-- `arp_request`, in call `id`. -/
inductive ArpRequest (id : ℕ) (ip : List UInt8) : Arp → Arp → Prop
  | known {s t : Arp} {mac : List UInt8} (h : matchIp ip s.entries = some mac)
      (func : Callback (s.invoke id mac) t) : ArpRequest id ip s t
  | unknown {s : Arp} (h : matchIp ip s.entries = none) : ArpRequest id ip s (s.queue id ip)

/-- The requests that `r` has walked past when a callback returns. What the callback queued is in front
of them; where `r` still is the head of the list it will meet that too. -/
def passed (front next : List Request) (t : Arp) : List Request :=
  if front = [] then [] else t.requests.take (t.requests.length - next.length)

/-- The loop of `arp_add_entry`; `r` has walked past `front`. -/
inductive Walk (ip mac : List UInt8) : List Request → Arp → Arp → Prop
  | done {front : List Request} {s : Arp} (h : s.requests = front) : Walk ip mac front s s
  | skip {front next : List Request} {r : Request} {s t : Arp} (h : s.requests = front ++ r :: next)
      (hip : r.ip ≠ ip) (rest : Walk ip mac (front ++ [r]) s t) : Walk ip mac front s t
  | call {front next : List Request} {r : Request} {s t u : Arp} (h : s.requests = front ++ r :: next)
      (hip : r.ip = ip) (func : Callback ({ s with requests := front ++ next }.invoke r.id mac) t)
      (rest : Walk ip mac (passed front next t) t u) : Walk ip mac front s u

def Arp.accept (ip mac : List UInt8) (s : Arp) : Arp :=
  { s with entries := addEntry ip mac s.entries, log := s.log ++ [.accepted ip mac] }

def Arp.finish (s : Arp) : Arp := { s with log := s.log ++ [.handled] }

/-- The address and the MAC that `handle_arp` gives to `arp_add_entry`, if it gets there. -/
def accepted (mac ipv4 pkt : List UInt8) : Option (List UInt8 × List UInt8) :=
  let len := lenSub pkt.length 14
  if len < 8 then none
  else if len < 8 + byteAt pkt 18 * 2 + byteAt pkt 19 * 2 then none
  else if word pkt 14 ≠ 1 ∨ word pkt 16 ≠ 0x800 then none
  else if copyOut pkt 0 6 = List.replicate 6 0xff then
    if copyOut pkt 38 4 = ipv4 then some (copyOut pkt 28 4, copyOut pkt 6 6) else none
  else if copyOut pkt 0 6 = mac then
    if word pkt 20 = 2 then some (copyOut pkt 28 4, copyOut pkt 22 6) else none
  else none

/-- A call of `arp_request` from outside, or a packet. -/
inductive Step (mac ipv4 : List UInt8) : Arp → Arp → Prop
  | request {s t : Arp} (ip : List UInt8) (h : ArpRequest s.asked ip (s.ask ip) t) : Step mac ipv4 s t
  | dropped {s : Arp} (pkt : List UInt8) (h : accepted mac ipv4 pkt = none) : Step mac ipv4 s s
  | packet {s t : Arp} {ip src : List UInt8} (pkt : List UInt8) (h : accepted mac ipv4 pkt = some (ip, src))
      (walk : Walk ip src [] (s.accept ip src) t) : Step mac ipv4 s t.finish

inductive Run (mac ipv4 : List UInt8) : Arp → Prop
  | init : Run mac ipv4 init
  | step {s t : Arp} (run : Run mac ipv4 s) (h : Step mac ipv4 s t) : Run mac ipv4 t

def Event.id? : Event → Option ℕ
  | .asked id _ => some id
  | .invoked id _ => some id
  | _ => none

def cached (ip : List UInt8) : List Event → Option (List UInt8)
  | [] => none
  | .accepted ip' mac :: l => (cached ip l).or (if ip' = ip then some mac else none)
  | _ :: l => cached ip l

def NotInvoked (id : ℕ) (l : List Event) : Prop := ∀ mac, .invoked id mac ∉ l

def Absent (id : ℕ) (q : List Request) : Prop := ∀ r ∈ q, r.id ≠ id

def Immediate (id : ℕ) (mac : List UInt8) (after : List Event) : Prop :=
  ∃ rest, after = .invoked id mac :: rest ∧ NotInvoked id rest

def Quiet (id : ℕ) (ip : List UInt8) (l : List Event) : Prop :=
  (∀ mac, .accepted ip mac ∉ l) ∧ NotInvoked id l

def Due (id : ℕ) (ip mac : List UInt8) (l : List Event) : Prop :=
  ∃ front during, l = front ++ .accepted ip mac :: during ∧
    Quiet id ip front ∧ NotInvoked id during ∧ .handled ∉ during

def Called (id : ℕ) (ip mac : List UInt8) (l : List Event) : Prop :=
  ∃ due rest, l = due ++ .invoked id mac :: rest ∧ Due id ip mac due ∧ NotInvoked id rest ∧ .handled ∉ rest

def Settled (id : ℕ) (ip : List UInt8) (l : List Event) : Prop :=
  ∃ mac called later, l = called ++ .handled :: later ∧ Called id ip mac called ∧ NotInvoked id later

/-- What a call of `arp_request` comes to, by the events before and after it and the queue at the end. -/
structure Served (q : List Request) (id : ℕ) (ip : List UInt8) (before after : List Event) : Prop where
  fresh : ∀ e ∈ before, e.id? ≠ some id
  known : ∀ mac, cached ip before = some mac → Absent id q ∧ Immediate id mac after
  unknown : cached ip before = none →
    ⟨id, ip⟩ ∈ q ∧ Quiet id ip after ∨ Absent id q ∧ Settled id ip after

section Stages

variable {id : ℕ} {ip mac : List UInt8} {l es : List Event} {q q' : List Request}
  {w : Option (List UInt8 × List UInt8)}

structure Foreign (id : ℕ) (ip : List UInt8) (es : List Event) : Prop where
  accepted : ∀ mac, .accepted ip mac ∉ es
  invoked : NotInvoked id es
  handled : .handled ∉ es

theorem NotInvoked.append (h : NotInvoked id l) (he : NotInvoked id es) : NotInvoked id (l ++ es) :=
  fun mac hm => (List.mem_append.mp hm).elim (h mac) (he mac)

theorem Immediate.append (h : Immediate id mac l) (he : NotInvoked id es) : Immediate id mac (l ++ es) := by
  obtain ⟨rest, rfl, hrest⟩ := h
  exact ⟨rest ++ es, rfl, hrest.append he⟩

theorem Quiet.append (h : Quiet id ip l) (ha : ∀ mac, .accepted ip mac ∉ es) (he : NotInvoked id es) :
    Quiet id ip (l ++ es) :=
  ⟨fun mac hm => (List.mem_append.mp hm).elim (h.1 mac) (ha mac), h.2.append he⟩

theorem Quiet.accept (h : Quiet id ip l) : Due id ip mac (l ++ [.accepted ip mac]) :=
  ⟨l, [], rfl, h, fun _ => List.not_mem_nil, List.not_mem_nil⟩

theorem Due.append (h : Due id ip mac l) (he : NotInvoked id es) (hh : .handled ∉ es) :
    Due id ip mac (l ++ es) := by
  obtain ⟨front, during, rfl, hfront, hduring, hnot⟩ := h
  refine ⟨front, during ++ es, by simp, hfront, hduring.append he, ?_⟩
  simp [hnot, hh]

theorem Due.invoke (h : Due id ip mac l) : Called id ip mac (l ++ [.invoked id mac]) :=
  ⟨l, [], rfl, h, fun _ => List.not_mem_nil, List.not_mem_nil⟩

theorem Called.append (h : Called id ip mac l) (he : NotInvoked id es) (hh : .handled ∉ es) :
    Called id ip mac (l ++ es) := by
  obtain ⟨due, rest, rfl, hdue, hrest, hnot⟩ := h
  refine ⟨due, rest ++ es, by simp, hdue, hrest.append he, ?_⟩
  simp [hnot, hh]

theorem Called.finish (h : Called id ip mac l) : Settled id ip (l ++ [.handled]) :=
  ⟨mac, l, [], rfl, h, fun _ => List.not_mem_nil⟩

theorem Settled.append (h : Settled id ip l) (he : NotInvoked id es) : Settled id ip (l ++ es) := by
  obtain ⟨mac, called, later, rfl, hcalled, hlater⟩ := h
  exact ⟨mac, called, later ++ es, by simp, hcalled, hlater.append he⟩

/-- Where a call is that did not know its address; `w` is the packet that is being handled. -/
inductive Stage (w : Option (List UInt8 × List UInt8)) (q : List Request) (id : ℕ) (ip : List UInt8)
    (l : List Event) : Prop
  | waiting (hq : ⟨id, ip⟩ ∈ q) (hw : ∀ mac, w ≠ some (ip, mac)) (h : Quiet id ip l)
  | due (mac : List UInt8) (hq : ⟨id, ip⟩ ∈ q) (hw : w = some (ip, mac)) (h : Due id ip mac l)
  | called (mac : List UInt8) (hq : Absent id q) (hw : w = some (ip, mac)) (h : Called id ip mac l)
  | settled (hq : Absent id q) (h : Settled id ip l)

theorem Stage.append (h : Stage w q id ip l) (he : Foreign id ip es)
    (hq : ∀ r : Request, r.id = id → (r ∈ q' ↔ r ∈ q)) : Stage w q' id ip (l ++ es) := by
  have habsent : Absent id q → Absent id q' := fun ha r hr hid => ha r ((hq r hid).mp hr) hid
  cases h with
  | waiting hm hw h => exact .waiting ((hq _ rfl).mpr hm) hw (h.append he.accepted he.invoked)
  | due mac hm hw h => exact .due mac ((hq _ rfl).mpr hm) hw (h.append he.invoked he.handled)
  | called mac ha hw h => exact .called mac (habsent ha) hw (h.append he.invoked he.handled)
  | settled ha h => exact .settled (habsent ha) (h.append he.invoked)

theorem Stage.accept {ip' : List UInt8} (h : Stage none q id ip l) :
    Stage (some (ip', mac)) q id ip (l ++ [.accepted ip' mac]) := by
  have he : NotInvoked id [.accepted ip' mac] := by simp [NotInvoked]
  cases h with
  | waiting hm hw h =>
    by_cases hip : ip' = ip
    · subst hip
      exact .due mac hm rfl h.accept
    · exact .waiting hm (by simp [hip]) (h.append (by simp [Ne.symm hip]) he)
  | due mac hm hw h => cases hw
  | called mac ha hw h => cases hw
  | settled ha h => exact .settled ha (h.append he)

theorem Stage.finish {ip' : List UInt8} (h : Stage (some (ip', mac)) q id ip l) (hq : ∀ r ∈ q, r.ip ≠ ip') :
    Stage none q id ip (l ++ [.handled]) := by
  have he : NotInvoked id [.handled] := by simp [NotInvoked]
  cases h with
  | waiting hm hw h => exact .waiting hm (by simp) (h.append (by simp) he)
  | due mac hm hw h =>
    cases hw
    exact absurd rfl (hq _ hm)
  | called mac ha hw h => exact .settled ha h.finish
  | settled ha h => exact .settled ha (h.append he)

theorem absent_removed {front next : List Request} {r : Request}
    (h : ((front ++ r :: next).map Request.id).Nodup) : Absent r.id (front ++ next) := by
  rw [(List.perm_middle.map _).nodup_iff, List.map_cons, List.nodup_cons] at h
  exact fun x hx hid => h.1 (List.mem_map.mpr ⟨x, hx, hid⟩)

theorem mem_removed {front next : List Request} {r x : Request} (h : x.id ≠ r.id) :
    x ∈ front ++ next ↔ x ∈ front ++ r :: next := by
  have hne : x ≠ r := fun he => h (congrArg Request.id he)
  simp [hne]

theorem Stage.invoke {front next : List Request} {ip' : List UInt8} {r : Request}
    (h : Stage (some (ip', mac)) (front ++ r :: next) id ip l) (hip : r.ip = ip')
    (hnodup : ((front ++ r :: next).map Request.id).Nodup) :
    Stage (some (ip', mac)) (front ++ next) id ip (l ++ [.invoked r.id mac]) := by
  have hremoved := absent_removed hnodup
  by_cases hid : r.id = id
  · subst hid
    have hsame : ⟨r.id, ip⟩ ∈ front ++ r :: next → r.ip = ip := by
      intro hm
      by_contra hne
      have hm' : (⟨r.id, ip⟩ : Request) ∈ front ++ next := by
        have : (⟨r.id, ip⟩ : Request) ≠ r := fun he => hne (congrArg Request.ip he).symm
        simpa [this] using hm
      exact hremoved _ hm' rfl
    cases h with
    | waiting hm hw h => exact absurd rfl (hip ▸ hsame hm ▸ hw mac)
    | due mac' hm hw h =>
      cases hw
      exact .called _ hremoved rfl h.invoke
    | called mac' ha hw h => exact absurd rfl (ha r (by simp))
    | settled ha h => exact absurd rfl (ha r (by simp))
  · have he : Foreign id ip [.invoked r.id mac] := by
      constructor <;> simp [NotInvoked, Ne.symm hid]
    exact h.append he fun x hx => mem_removed (hx ▸ Ne.symm hid)

end Stages

theorem split_append {α : Type} {l es before after : List α} {x : α} (h : l ++ es = before ++ x :: after) :
    (∃ mid, after = mid ++ es ∧ l = before ++ x :: mid) ∨ ∃ mid, before = l ++ mid ∧ es = mid ++ x :: after := by
  obtain ⟨mid, hb, he⟩ | ⟨mid, hl, ha⟩ := List.append_eq_append_iff.mp h
  · exact .inr ⟨mid, hb, he⟩
  · cases mid with
    | nil => exact .inr ⟨[], by simpa using hl.symm, by simpa using ha.symm⟩
    | cons y mid =>
      obtain ⟨rfl, rfl⟩ := List.cons_eq_cons.mp ha
      exact .inl ⟨mid, rfl, hl⟩

theorem cached_append {ip : List UInt8} {l es : List Event} :
    cached ip (l ++ es) = (cached ip es).or (cached ip l) := by
  induction l with
  | nil => simp [cached]
  | cons e l ih => cases e <;> simp [cached, ih, Option.or_assoc]

section Entries

variable {ip mac : List UInt8} {entries : List ArpEntry}

theorem matchIp_setMac {old : List UInt8} (h : matchIp ip entries = some old) (x : List UInt8) :
    matchIp x (setMac ip mac entries) = if ip = x then some mac else matchIp x entries := by
  induction entries with
  | nil => cases h
  | cons e next ih =>
    unfold setMac
    by_cases he : e.ip = ip
    · by_cases hx : ip = x <;> simp [matchIp, he, hx]
    · have hrest := ih (by simpa [matchIp, he] using h)
      by_cases hx : e.ip = x
      · subst hx
        simp [matchIp, he, Ne.symm he]
      · simp [matchIp, he, hx, hrest]

theorem matchIp_addEntry (x : List UInt8) :
    matchIp x (addEntry ip mac entries) = if ip = x then some mac else matchIp x entries := by
  unfold addEntry
  cases h : matchIp ip entries with
  | none => simp [matchIp]
  | some old => exact matchIp_setMac h x

end Entries

structure Course (w : Option (List UInt8 × List UInt8)) (q : List Request) (id : ℕ) (ip : List UInt8)
    (before after : List Event) : Prop where
  fresh : ∀ e ∈ before, e.id? ≠ some id
  known : ∀ mac, cached ip before = some mac → Absent id q ∧ Immediate id mac after
  unknown : cached ip before = none → Stage w q id ip after

structure Inv (w : Option (List UInt8 × List UInt8)) (s : Arp) : Prop where
  entries : ∀ ip, matchIp ip s.entries = cached ip s.log
  current : ∀ ip mac, w = some (ip, mac) → matchIp ip s.entries = some mac
  ids : ∀ e ∈ s.log, ∀ id, e.id? = some id → id < s.asked
  queued : ∀ r ∈ s.requests, r.id < s.asked
  nodup : (s.requests.map Request.id).Nodup
  course : ∀ before id ip after, s.log = before ++ .asked id ip :: after →
    Course w s.requests id ip before after

section Moves

variable {w : Option (List UInt8 × List UInt8)} {s t : Arp} {ip mac : List UInt8} {id : ℕ}
  {before after es : List Event} {q q' : List Request}

theorem Course.append (h : Course w q id ip before after) (he : Foreign id ip es)
    (hq : ∀ r : Request, r.id = id → (r ∈ q' ↔ r ∈ q)) : Course w q' id ip before (after ++ es) where
  fresh := h.fresh
  known := by
    intro mac hc
    obtain ⟨ha, hi⟩ := h.known mac hc
    exact ⟨fun r hr hid => ha r ((hq r hid).mp hr) hid, hi.append he.invoked⟩
  unknown := fun hc => (h.unknown hc).append he hq

theorem Inv.asked_lt (h : Inv w s) (hl : s.log = before ++ .asked id ip :: after) : id < s.asked :=
  h.ids (.asked id ip) (by simp [hl]) id rfl

theorem Inv.absent (h : Inv w s) : Absent s.asked s.requests := fun r hr => (h.queued r hr).ne

theorem Inv.fresh (h : Inv w s) (e : Event) (he : e ∈ s.log) : e.id? ≠ some s.asked :=
  fun hid => (h.ids e he _ hid).ne rfl

theorem Inv.found (h : Inv w s) (hk : matchIp ip s.entries = some mac) :
    Inv w ((s.ask ip).invoke s.asked mac) where
  entries := by
    intro x
    simp [Arp.ask, Arp.invoke, cached_append, cached, h.entries]
  current := h.current
  ids := by
    intro e he id hid
    rw [Arp.invoke, Arp.ask, List.append_assoc] at he
    obtain he | he := List.mem_append.mp he
    · exact (h.ids e he id hid).trans (Nat.lt_succ_self _)
    · obtain rfl | rfl : e = _ ∨ e = _ := by simpa using he
      all_goals
        cases hid
        exact Nat.lt_succ_self _
  queued := fun r hr => (h.queued r hr).trans (Nat.lt_succ_self _)
  nodup := h.nodup
  course := by
    intro before id ip' after hl
    rw [Arp.invoke, Arp.ask, List.append_assoc] at hl
    obtain ⟨mid, rfl, hold⟩ | ⟨mid, rfl, hes⟩ := split_append hl
    · have hne := (h.asked_lt hold).ne
      refine (h.course before id ip' mid hold).append ⟨?_, ?_, ?_⟩ fun _ _ => Iff.rfl <;> simp [NotInvoked, hne]
    · obtain rfl : mid = [] := by
        cases mid with
        | nil => rfl
        | cons e mid => cases mid <;> simp at hes
      obtain ⟨⟨rfl, rfl⟩, rfl⟩ : (s.asked = id ∧ ip = ip') ∧ [.invoked s.asked mac] = after := by
        simpa using hes
      rw [List.append_nil]
      refine ⟨h.fresh, ?_, ?_⟩
      · intro mac' hc
        cases hk.symm.trans ((h.entries ip).trans hc)
        exact ⟨h.absent, [], rfl, fun _ => List.not_mem_nil⟩
      · intro hc
        cases hk.symm.trans ((h.entries ip).trans hc)

theorem Inv.queue (h : Inv w s) (hk : matchIp ip s.entries = none) : Inv w ((s.ask ip).queue s.asked ip) where
  entries := by
    intro x
    simp [Arp.ask, Arp.queue, cached_append, cached, h.entries]
  current := h.current
  ids := by
    intro e he id hid
    obtain he | he := List.mem_append.mp he
    · exact (h.ids e he id hid).trans (Nat.lt_succ_self _)
    · obtain rfl : e = _ := by simpa using he
      cases hid
      exact Nat.lt_succ_self _
  queued := by
    intro r hr
    obtain rfl | hr := List.mem_cons.mp hr
    · exact Nat.lt_succ_self _
    · exact (h.queued r hr).trans (Nat.lt_succ_self _)
  nodup := by
    refine List.nodup_cons.mpr ⟨?_, h.nodup⟩
    intro hm
    obtain ⟨r, hr, hid⟩ := List.mem_map.mp hm
    exact h.absent r hr hid
  course := by
    intro before id ip' after hl
    obtain ⟨mid, rfl, hold⟩ | ⟨mid, rfl, hes⟩ := split_append hl
    · have hne := (h.asked_lt hold).ne
      refine (h.course before id ip' mid hold).append ⟨?_, ?_, ?_⟩ ?_
      · simp
      · simp [NotInvoked]
      · simp
      · intro r hr
        have : r ≠ ⟨s.asked, ip⟩ := fun hr' => hne (hr.symm.trans (congrArg Request.id hr'))
        simp [Arp.ask, Arp.queue, this]
    · obtain rfl : mid = [] := by cases mid <;> simp at hes ⊢
      obtain ⟨⟨rfl, rfl⟩, rfl⟩ : (s.asked = id ∧ ip = ip') ∧ [] = after := by simpa using hes
      rw [List.append_nil]
      refine ⟨h.fresh, ?_, ?_⟩
      · intro mac' hc
        cases hk.symm.trans ((h.entries ip).trans hc)
      · intro _
        refine .waiting List.mem_cons_self (fun mac hw => ?_) ⟨by simp, fun _ => List.not_mem_nil⟩
        cases hk.symm.trans (h.current ip mac hw)

theorem split_last {e : Event} (he : ∀ id ip, e ≠ .asked id ip) {l : List Event}
    (h : l ++ [e] = before ++ .asked id ip :: after) :
    ∃ mid, after = mid ++ [e] ∧ l = before ++ .asked id ip :: mid := by
  obtain hold | ⟨mid, rfl, hes⟩ := split_append h
  · exact hold
  · cases mid with
    | nil => exact absurd (List.head_eq_of_cons_eq hes) (he id ip)
    | cons x mid => simp at hes

theorem Inv.accept (h : Inv none s) : Inv (some (ip, mac)) (s.accept ip mac) where
  entries := by
    intro x
    simp only [Arp.accept, matchIp_addEntry, cached_append, cached, h.entries, Option.none_or]
    by_cases hx : ip = x <;> simp [hx]
  current := by
    intro ip' mac' hw
    cases hw
    simp [Arp.accept, matchIp_addEntry]
  ids := by
    intro e he id hid
    obtain he | he := List.mem_append.mp he
    · exact h.ids e he id hid
    · obtain rfl : e = _ := by simpa using he
      cases hid
  queued := h.queued
  nodup := h.nodup
  course := by
    intro before id ip' after hl
    obtain ⟨mid, rfl, hold⟩ := split_last (by simp) hl
    obtain ⟨hfresh, hknown, hunknown⟩ := h.course before id ip' mid hold
    refine ⟨hfresh, ?_, fun hc => (hunknown hc).accept⟩
    intro mac' hc
    obtain ⟨ha, hi⟩ := hknown mac' hc
    exact ⟨ha, hi.append (by simp [NotInvoked])⟩

theorem Inv.invoke {front next : List Request} {r : Request} (h : Inv (some (ip, mac)) s)
    (hq : s.requests = front ++ r :: next) (hip : r.ip = ip) :
    Inv (some (ip, mac)) ({ s with requests := front ++ next }.invoke r.id mac) where
  entries := by
    intro x
    simp [Arp.invoke, cached_append, cached, h.entries]
  current := h.current
  ids := by
    intro e he id hid
    obtain he | he := List.mem_append.mp he
    · exact h.ids e he id hid
    · obtain rfl : e = _ := by simpa using he
      cases hid
      exact h.queued r (by simp [hq])
  queued := by
    intro x hx
    apply h.queued x
    rw [hq]
    exact List.mem_append.mpr ((List.mem_append.mp hx).imp_right (List.mem_cons_of_mem r))
  nodup := by
    have hn := h.nodup
    rw [hq, (List.perm_middle.map _).nodup_iff, List.map_cons] at hn
    exact (List.nodup_cons.mp hn).2
  course := by
    intro before id ip' after hl
    obtain ⟨mid, rfl, hold⟩ := split_last (by simp) hl
    obtain ⟨hfresh, hknown, hunknown⟩ := h.course before id ip' mid hold
    rw [hq] at hknown hunknown
    refine ⟨hfresh, ?_, fun hc => (hunknown hc).invoke hip (hq ▸ h.nodup)⟩
    intro mac' hc
    obtain ⟨ha, hi⟩ := hknown mac' hc
    have hne : r.id ≠ id := ha r (by simp)
    refine ⟨fun x hx hid => ?_, hi.append ?_⟩
    · exact ha x ((mem_removed (hid ▸ Ne.symm hne)).mp hx) hid
    · simp [NotInvoked, Ne.symm hne]

theorem Inv.finish (h : Inv (some (ip, mac)) s) (hq : ∀ r ∈ s.requests, r.ip ≠ ip) : Inv none s.finish where
  entries := by
    intro x
    simp [Arp.finish, cached_append, cached, h.entries]
  current := by simp
  ids := by
    intro e he id hid
    obtain he | he := List.mem_append.mp he
    · exact h.ids e he id hid
    · obtain rfl : e = _ := by simpa using he
      cases hid
  queued := h.queued
  nodup := h.nodup
  course := by
    intro before id ip' after hl
    obtain ⟨mid, rfl, hold⟩ := split_last (by simp) hl
    obtain ⟨hfresh, hknown, hunknown⟩ := h.course before id ip' mid hold
    refine ⟨hfresh, ?_, fun hc => (hunknown hc).finish hq⟩
    intro mac' hc
    obtain ⟨ha, hi⟩ := hknown mac' hc
    exact ⟨ha, hi.append (by simp [NotInvoked])⟩

theorem Callback.requests (h : Callback s t) : t.entries = s.entries ∧
    ∃ new, t.requests = new ++ s.requests ∧ ∀ r ∈ new, matchIp r.ip s.entries = none := by
  induction h with
  | done => exact ⟨rfl, [], rfl, by simp⟩
  | known hk _ _ ihinner ihrest =>
    obtain ⟨he, new, hq, hnew⟩ := ihinner
    obtain ⟨he', new', hq', hnew'⟩ := ihrest
    refine ⟨he'.trans he, new' ++ new, ?_, ?_⟩
    · rw [hq', hq, List.append_assoc]
      rfl
    · intro r hr
      obtain hr | hr := List.mem_append.mp hr
      · exact he ▸ hnew' r hr
      · exact hnew r hr
  | @unknown s t ip hk _ ih =>
    obtain ⟨he, new, hq, hnew⟩ := ih
    refine ⟨he, new ++ [⟨s.asked, ip⟩], ?_, ?_⟩
    · rw [hq, List.append_assoc]
      rfl
    · intro r hr
      obtain hr | hr := List.mem_append.mp hr
      · exact hnew r hr
      · cases List.mem_singleton.mp hr
        exact hk

theorem Inv.callback (hc : Callback s t) (h : Inv w s) : Inv w t := by
  induction hc with
  | done => exact h
  | known hk _ _ ihinner ihrest => exact ihrest (ihinner (h.found hk))
  | unknown hk _ ih => exact ih (h.queue hk)

theorem Inv.arpRequest (hc : ArpRequest s.asked ip (s.ask ip) t) (h : Inv w s) : Inv w t := by
  cases hc with
  | known hk func => exact (h.found hk).callback func
  | unknown hk => exact h.queue hk

theorem Inv.walk {front : List Request} (hw : Walk ip mac front s t) (h : Inv (some (ip, mac)) s)
    (hfront : ∀ r ∈ front, r.ip ≠ ip) : Inv (some (ip, mac)) t ∧ ∀ r ∈ t.requests, r.ip ≠ ip := by
  induction hw with
  | done hq => exact ⟨h, hq ▸ hfront⟩
  | skip hq hip _ ih =>
    apply ih h
    intro r hr
    obtain hr | hr := List.mem_append.mp hr
    · exact hfront r hr
    · exact List.mem_singleton.mp hr ▸ hip
  | @call front next r s t u hq hip func _ ih =>
    have hi := h.invoke hq hip
    apply ih (hi.callback func)
    obtain ⟨-, new, hnew, hunknown⟩ := func.requests
    intro x hx
    unfold passed at hx
    split_ifs at hx with hnil
    · cases hx
    · have hlen : t.requests.length - next.length = (new ++ front).length := by
        simp [hnew, Arp.invoke]
        omega
      have hsplit : t.requests = new ++ front ++ next := by
        rw [hnew, List.append_assoc]
        rfl
      rw [hlen, hsplit, List.take_left] at hx
      obtain hx | hx := List.mem_append.mp hx
      · intro hxip
        have hk := h.current ip mac rfl
        rw [← hxip] at hk
        cases hk.symm.trans (hunknown x hx)
      · exact hfront x hx

theorem Step.inv {own ipv4 : List UInt8} (hs : Step own ipv4 s t) (h : Inv none s) : Inv none t := by
  cases hs with
  | request ip hc => exact h.arpRequest hc
  | dropped => exact h
  | packet pkt _ walk =>
    obtain ⟨hi, hq⟩ := Inv.walk walk h.accept (by simp)
    exact hi.finish hq

theorem inv_init : Inv none init := by
  refine ⟨fun _ => rfl, by simp, ?_, ?_, List.nodup_nil, ?_⟩
  · exact fun e he => absurd he List.not_mem_nil
  · exact fun r hr => absurd hr List.not_mem_nil
  · intro before id ip after hl
    simp [init] at hl

theorem Run.inv {own ipv4 : List UInt8} (hr : Run own ipv4 s) : Inv none s := by
  induction hr with
  | init => exact inv_init
  | step _ hs ih => exact hs.inv ih

theorem callbacks_served {own ipv4 : List UInt8} (hr : Run own ipv4 s)
    (hl : s.log = before ++ .asked id ip :: after) : Served s.requests id ip before after := by
  obtain ⟨hfresh, hknown, hunknown⟩ := hr.inv.course before id ip after hl
  refine ⟨hfresh, hknown, fun hc => ?_⟩
  cases hunknown hc with
  | waiting hq _ h => exact .inl ⟨hq, h⟩
  | due mac hq hw h => cases hw
  | called mac hq hw h => cases hw
  | settled hq h => exact .inr ⟨hq, h⟩

end Moves

theorem callbacks_served_answer : ∃ s : Arp, Run [2, 0, 0, 0, 0, 1] [10, 0, 0, 1] s ∧
    s.requests = [⟨1, [10, 0, 0, 3]⟩] ∧
    s.log = [] ++ .asked 0 [10, 0, 0, 2] :: [.asked 1 [10, 0, 0, 3], .accepted [10, 0, 0, 2] [2, 0, 0, 0, 0, 9],
      .invoked 0 [2, 0, 0, 0, 0, 9], .asked 2 [10, 0, 0, 2], .invoked 2 [2, 0, 0, 0, 0, 9], .handled] ∧
    Served s.requests 0 [10, 0, 0, 2] [] [.asked 1 [10, 0, 0, 3], .accepted [10, 0, 0, 2] [2, 0, 0, 0, 0, 9],
      .invoked 0 [2, 0, 0, 0, 0, 9], .asked 2 [10, 0, 0, 2], .invoked 2 [2, 0, 0, 0, 0, 9], .handled] := by
  set first : Arp := (init.ask [10, 0, 0, 2]).queue 0 [10, 0, 0, 2] with hfirst
  set second : Arp := (first.ask [10, 0, 0, 3]).queue 1 [10, 0, 0, 3] with hsecond
  have hasked : Run [2, 0, 0, 0, 0, 1] [10, 0, 0, 1] second :=
    .step (.step .init (.request [10, 0, 0, 2] (.unknown rfl))) (.request [10, 0, 0, 3] (.unknown rfl))
  have hanswer : accepted [2, 0, 0, 0, 0, 1] [10, 0, 0, 1]
      ([2, 0, 0, 0, 0, 1] ++ [2, 0, 0, 0, 0, 9] ++ [8, 6] ++ [0, 1, 8, 0, 6, 4, 0, 2] ++
        [2, 0, 0, 0, 0, 9] ++ [10, 0, 0, 2] ++ [2, 0, 0, 0, 0, 1] ++ [10, 0, 0, 1]) =
      some ([10, 0, 0, 2], [2, 0, 0, 0, 0, 9]) := by decide
  have hwalk : Walk [10, 0, 0, 2] [2, 0, 0, 0, 0, 9] [] (second.accept [10, 0, 0, 2] [2, 0, 0, 0, 0, 9])
      ⟨[⟨[10, 0, 0, 2], [2, 0, 0, 0, 0, 9]⟩], [⟨1, [10, 0, 0, 3]⟩], 3,
        [.asked 0 [10, 0, 0, 2], .asked 1 [10, 0, 0, 3], .accepted [10, 0, 0, 2] [2, 0, 0, 0, 0, 9],
          .invoked 0 [2, 0, 0, 0, 0, 9], .asked 2 [10, 0, 0, 2], .invoked 2 [2, 0, 0, 0, 0, 9]]⟩ :=
    @Walk.skip _ _ [] [⟨0, [10, 0, 0, 2]⟩] ⟨1, [10, 0, 0, 3]⟩ _ _ rfl (by decide)
      (@Walk.call _ _ [⟨1, [10, 0, 0, 3]⟩] [] ⟨0, [10, 0, 0, 2]⟩ _ _ _ rfl rfl
        (@Callback.known _ _ _ [10, 0, 0, 2] _ rfl .done .done) (.done rfl))
  have hrun := hasked.step (.packet _ hanswer hwalk)
  exact ⟨_, hrun, rfl, rfl, callbacks_served hrun rfl⟩

section Servers

variable {w : World} {a : Arp} {s : Server} {ip mac : List UInt8} {front next : List Request}

theorem handleArp_eq (w : World) (pkt : List UInt8) (s : Server) (hw : ∀ n, w.alloc n = true) :
    accepted s.net.mac s.net.ipv4 pkt = none ∧ handleArp w pkt s = s ∨
      ∃ ip mac io, accepted s.net.mac s.net.ipv4 pkt = some (ip, mac) ∧
        handleArp w pkt s = arpAddEntry w ip mac { s with io := io } := by
  simp only [handleArp, accepted, handleArpRequest, hw, if_true]
  refine if h1 : lenSub pkt.length 14 < 8 then ?_ else ?_
  · rw [if_pos h1, if_pos h1]
    exact Or.inl ⟨rfl, rfl⟩
  rw [if_neg h1, if_neg h1]
  refine if h2 : lenSub pkt.length 14 < 8 + byteAt pkt 18 * 2 + byteAt pkt 19 * 2 then ?_ else ?_
  · rw [if_pos h2, if_pos h2]
    exact Or.inl ⟨rfl, rfl⟩
  rw [if_neg h2, if_neg h2]
  split_ifs
  · exact Or.inl ⟨rfl, rfl⟩
  · exact Or.inr ⟨_, _, _, rfl, rfl⟩
  · exact Or.inl ⟨rfl, rfl⟩
  · exact Or.inr ⟨_, _, s.io, rfl, rfl⟩
  · exact Or.inl ⟨rfl, rfl⟩
  · exact Or.inl ⟨rfl, rfl⟩

structure Shows (a : Arp) (s : Server) : Prop where
  entries : a.entries = s.arpEntries
  requests : a.requests.map Request.ip = s.arpRequests.map fun r => r.ip

theorem matchIp_eq {entries : List ArpEntry} :
    matchIp ip entries = (entries.find? fun e => decide (e.ip = ip)).map ArpEntry.mac := by
  induction entries with
  | nil => rfl
  | cons e next ih => by_cases he : e.ip = ip <;> simp [matchIp, he, ih]

theorem addEntry_eq {entries : List ArpEntry} : addEntry ip mac entries =
    match entries.findIdx? fun e => decide (e.ip = ip) with
    | some i => entries.set i ⟨ip, mac⟩
    | none => ⟨ip, mac⟩ :: entries := by
  have hset : ∀ i, (entries.findIdx? fun e => decide (e.ip = ip)) = some i →
      (matchIp ip entries).isSome ∧ setMac ip mac entries = entries.set i ⟨ip, mac⟩ := by
    induction entries with
    | nil => nofun
    | cons e next ih =>
      intro i hi
      by_cases he : e.ip = ip
      · obtain rfl : i = 0 := by simpa [List.findIdx?_cons, he] using hi.symm
        simp [matchIp, setMac, he]
      · obtain ⟨j, hj, rfl⟩ : ∃ j, (next.findIdx? fun e => decide (e.ip = ip)) = some j ∧ j + 1 = i := by
          simpa [List.findIdx?_cons, he] using hi
        obtain ⟨hsome, htail⟩ := ih j hj
        simp [matchIp, setMac, he, hsome, htail]
  unfold addEntry
  cases hi : entries.findIdx? fun e => decide (e.ip = ip) with
  | some i =>
    obtain ⟨hsome, htail⟩ := hset i hi
    obtain ⟨old, hold⟩ := Option.isSome_iff_exists.mp hsome
    rw [hold]
    exact htail
  | none =>
    have hnone : matchIp ip entries = none := by
      rw [matchIp_eq, Option.map_eq_none_iff, List.find?_eq_none]
      simpa [List.findIdx?_eq_none_iff] using hi
    rw [hnone]

theorem walk_done (h : a.requests = front ++ next) (hfront : ∀ r ∈ front, r.ip ≠ ip) :
    ∃ t, Walk ip mac front a t ∧ t.entries = a.entries ∧
      t.requests = front ++ next.filter fun r => decide (r.ip ≠ ip) := by
  induction next generalizing a front with
  | nil => exact ⟨a, .done (by simpa using h), rfl, by simpa using h⟩
  | cons r next ih =>
    by_cases hr : r.ip = ip
    · set b : Arp := { a with requests := front ++ next }.invoke r.id mac with hb
      have hpassed : passed front next b = front := by
        unfold passed
        split_ifs with hnil
        · exact hnil.symm
        · rw [hb]
          simp [Arp.invoke]
      obtain ⟨t, hwalk, hentries, hrequests⟩ := @ih b front rfl hfront
      refine ⟨t, .call h hr .done (hpassed.symm ▸ hwalk), hentries, ?_⟩
      rw [hrequests]
      simp [hr]
    · obtain ⟨t, hwalk, hentries, hrequests⟩ := @ih a (front ++ [r]) (by simpa using h) (by
        intro x hx
        obtain hx | hx := List.mem_append.mp hx
        · exact hfront x hx
        · exact List.mem_singleton.mp hx ▸ hr)
      refine ⟨t, .skip h hr hwalk, hentries, ?_⟩
      rw [hrequests]
      simp [hr]

theorem runRequests_lists {todo : List Net.ArpRequest} :
    (runRequests w mac todo s).arpEntries = s.arpEntries ∧ (runRequests w mac todo s).arpRequests = s.arpRequests := by
  induction todo generalizing s with
  | nil => exact ⟨rfl, rfl⟩
  | cons r next ih =>
    obtain ⟨hentries, hrequests⟩ := @ih (r.func.run w mac s)
    obtain ⟨hentries', hrequests'⟩ := @ArpFunc.run_lists w r.func mac s
    exact ⟨hentries.trans hentries', hrequests.trans hrequests'⟩

theorem arpAddEntry_lists (hw : ∀ n, w.alloc n = true) :
    (arpAddEntry w ip mac s).arpEntries = addEntry ip mac s.arpEntries ∧
    (arpAddEntry w ip mac s).arpRequests = s.arpRequests.filter fun r => decide (r.ip ≠ ip) := by
  rw [addEntry_eq]
  unfold arpAddEntry
  cases s.arpEntries.findIdx? fun e => decide (e.ip = ip) with
  | some i => exact runRequests_lists
  | none =>
    simp only [hw, if_true]
    exact runRequests_lists

theorem arpRequest_step {own ipv4 : List UInt8} {func : ArpFunc} (h : Shows a s) (hw : ∀ n, w.alloc n = true) :
    ∃ b, Step own ipv4 a b ∧ Shows b (arpRequest w ip func s) := by
  unfold arpRequest
  have hmatch : s.arpMatchIp ip = matchIp ip a.entries := by
    rw [matchIp_eq, h.entries]
    rfl
  cases hm : matchIp ip a.entries with
  | some mac =>
    rw [hmatch, hm]
    obtain ⟨hentries, hrequests⟩ := @ArpFunc.run_lists w func mac s
    refine ⟨_, .request ip (.known hm .done), ?_, ?_⟩
    · exact h.entries.trans hentries.symm
    · exact h.requests.trans (congrArg (List.map _) hrequests.symm)
  | none =>
    rw [hmatch, hm]
    simp only [hw]
    exact ⟨_, .request ip (.unknown hm), h.entries, congrArg (ip :: ·) h.requests⟩

theorem handleArp_step {pkt : List UInt8} (h : Shows a s) (hw : ∀ n, w.alloc n = true) :
    ∃ b, Step s.net.mac s.net.ipv4 a b ∧ Shows b (handleArp w pkt s) := by
  obtain ⟨hnone, hsame⟩ | ⟨ip, mac, io, hsome, hadd⟩ := handleArp_eq w pkt s hw
  · rw [hsame]
    exact ⟨a, .dropped pkt hnone, h⟩
  · rw [hadd]
    obtain ⟨hentries, hrequests⟩ := @arpAddEntry_lists w { s with io := io } ip mac hw
    obtain ⟨t, hwalk, ht, htq⟩ := @walk_done (a.accept ip mac) ip mac [] a.requests rfl nofun
    refine ⟨t.finish, .packet pkt hsome hwalk, ?_, ?_⟩
    · rw [hentries, ← h.entries]
      exact ht
    · rw [hrequests]
      change t.requests.map Request.ip = _
      rw [htq]
      have hmap : ∀ {α : Type} (l : List α) (f : α → List UInt8),
          (l.filter fun r => decide (f r ≠ ip)).map f = (l.map f).filter fun x => decide (x ≠ ip) := by
        intro α l f
        rw [List.filter_map]
        rfl
      rw [List.nil_append, hmap a.requests Request.ip, h.requests]
      exact (hmap s.arpRequests fun r => r.ip).symm

end Servers

end Agatha.Net.ArpCallbacks
