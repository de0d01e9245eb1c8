import Mathlib.Algebra.Group.Nat.Defs
import Mathlib.Data.List.Basic
import Mathlib.Data.Int.Notation
import Mathlib.Tactic.ApplyFun

namespace Agatha.Drivers

structure Timer where
  id : ℤ
  pid : ℤ
  endpoint : ℤ
  signal : ℕ
  set : Bool
  timeMs : ℕ

structure Sp804Counter where
  enabled : Bool
  cur : ℕ

structure TimerServer where
  timers : List Timer
  nextId : ℤ
  isSet : Bool
  lastSet : ℕ
  regs : Sp804Counter

inductive TimerReq where
  | create (pid : ℤ) (cid : ℤ) (signal : ℕ) (memory : Option (Bool × ℕ))
  | set (pid : ℤ) (id : ℤ) (timeMs : ℕ)
  | other (pid : ℤ)

inductive TimerSent where
  | created (client id : ℤ)
  | wasSet (client : ℤ)
  | signal (endpoint : ℤ) (signal : ℕ)

def handleCreate (pid cid : ℤ) (signal : ℕ) (memory : Option (Bool × ℕ)) (s : TimerServer) :
    TimerServer × List TimerSent :=
  if cid = 0 then (s, [])
  else match memory with
    | none => (s, [])
    | some (set, timeMs) =>
      let t : Timer := { id := s.nextId, pid := pid, endpoint := cid, signal := signal, set := set, timeMs := timeMs }
      ({ s with nextId := (s.nextId + 1).bmod (2 ^ 32), timers := t :: s.timers }, [.created pid t.id])

def isTimer (pid id : ℤ) (t : Timer) : Bool := t.pid = pid && t.id = id

def startTimer (timeMs : ℕ) (t : Timer) : Timer := { t with set := true, timeMs := timeMs }

def handleSet (pid id : ℤ) (timeMs : ℕ) (s : TimerServer) : TimerServer × List TimerSent :=
  match s.timers.findIdx? (isTimer pid id) with
  | none => (s, [])
  | some i => ({ s with timers := s.timers.modify i (startTimer timeMs) }, [.wasSet pid])

def elipsed (s : TimerServer) : ℕ := (s.lastSet + (2 ^ 32 - s.regs.cur)) % 2 ^ 32 / 1000

/-- The body of the loop of `check_timers`. -/
def checkTimer (elipsed : ℕ) (t : Timer) : Timer × Option TimerSent :=
  if t.set = false then (t, none)
  else if t.timeMs ≤ elipsed then ({ t with set := false }, some (.signal t.endpoint t.signal))
  else ({ t with timeMs := t.timeMs - elipsed }, none)

def checkTimers (s : TimerServer) : TimerServer × List TimerSent :=
  ({ s with timers := s.timers.map fun t => (checkTimer (elipsed s) t).1 },
    s.timers.filterMap fun t => (checkTimer (elipsed s) t).2)

/-- The body of the loop of `set_timer`, with `none` for an unset `is_set`. -/
def sooner (set : Option ℕ) (t : Timer) : Option ℕ :=
  if t.set = false then set
  else match set with
    | none => some t.timeMs
    | some set => if t.timeMs < set then some t.timeMs else some set

def setTimer (s : TimerServer) : TimerServer :=
  match s.timers.foldl sooner none with
  | some set =>
    let lastSet := set * 1000 % 2 ^ 32
    { s with isSet := true, lastSet := lastSet, regs := { enabled := true, cur := lastSet } }
  | none => { s with isSet := false, regs := { s.regs with enabled := false } }

def handleReq (r : TimerReq) (s : TimerServer) : TimerServer × List TimerSent :=
  match r with
  | .create pid cid signal memory => handleCreate pid cid signal memory s
  | .set pid id timeMs => handleSet pid id timeMs s
  | .other _ => (s, [])

def Sp804Counter.wait (c : Sp804Counter) (us : ℕ) : Sp804Counter :=
  if c.enabled then { c with cur := c.cur - us } else c

def Sp804Counter.ranOut (c : Sp804Counter) : Bool := c.enabled && c.cur = 0

structure Asked where
  since : ℕ
  ms : ℕ

structure TimerWorld where
  server : TimerServer
  now : ℕ
  loadedAt : ℕ
  asked : List Asked

inductive TimerEvent where
  | wait (us : ℕ)
  | message (r : TimerReq)
  | interrupt

def askedAfter (r : TimerReq) (w : TimerWorld) : List Asked :=
  match r with
  | .create _ cid _ memory => if cid = 0 ∨ memory = none then w.asked else ⟨w.now, 0⟩ :: w.asked
  | .set pid id timeMs => w.asked.set (w.server.timers.findIdx (isTimer pid id)) ⟨w.now, timeMs⟩
  | .other _ => w.asked

def timerStep (w : TimerWorld) : TimerEvent → Option (TimerWorld × List TimerSent)
  | .wait us =>
    some ({ w with now := w.now + us, server := { w.server with regs := w.server.regs.wait us } }, [])
  | .message r =>
    if w.server.regs.ranOut then none
    else
      let (s, out) := handleReq r w.server
      some ({ server := setTimer s, now := w.now, loadedAt := w.now, asked := askedAfter r w }, out)
  | .interrupt =>
    if w.server.regs.ranOut then
      let (s, out) := checkTimers w.server
      some ({ w with server := setTimer s, loadedAt := w.now }, out)
    else none

def timerStart (now cur : ℕ) : TimerWorld where
  server := setTimer { timers := [], nextId := 0, isSet := false, lastSet := 0, regs := { enabled := false, cur := cur } }
  now := now
  loadedAt := now
  asked := []

def TimerReq.Sets (r : TimerReq) (s : TimerServer) (i : ℕ) : Prop :=
  ∃ pid id timeMs, r = .set pid id timeMs ∧ s.timers.findIdx (isTimer pid id) = i

def TimerReq.Plain : TimerReq → Prop
  | .create _ _ _ memory => ∀ set timeMs, memory = some (set, timeMs) → set = false
  | .set _ _ timeMs => timeMs * 1000 < 2 ^ 32
  | .other _ => True

/-- When the accounting holds: at a message, no time has passed since the counter was loaded or no timer but
the one it sets is set; at an interrupt, none has passed since the counter ran out or every timer that is set
has passed. -/
def Timely (w : TimerWorld) : TimerEvent → Prop
  | .wait _ => True
  | .message r => r.Plain ∧ (w.now = w.loadedAt ∨
      ∀ i t, w.server.timers[i]? = some t → t.set = true → r.Sets w.server i)
  | .interrupt => w.now = w.loadedAt + w.server.lastSet ∨
      ∀ t ∈ w.server.timers, t.set = true → t.timeMs * 1000 ≤ w.server.lastSet

inductive TimerRun : TimerWorld → Prop
  | start (now cur : ℕ) : TimerRun (timerStart now cur)
  | step {w w' : TimerWorld} {e : TimerEvent} {out : List TimerSent} (h : TimerRun w) (timely : Timely w e)
      (run : timerStep w e = some (w', out)) : TimerRun w'

structure Waits (now : ℕ) (t : Timer) (a : Asked) : Prop where
  past : a.since ≤ now
  left : a.since + a.ms * 1000 = now + t.timeMs * 1000
  plain : t.timeMs * 1000 < 2 ^ 32

def Deadlines (now : ℕ) (ts : List Timer) (as : List Asked) : Prop :=
  as.length = ts.length ∧ ∀ (i : ℕ) (t : Timer) (a : Asked), ts[i]? = some t → as[i]? = some a → t.set = true →
    Waits now t a

structure Accounted (w : TimerWorld) : Prop where
  deadlines : Deadlines w.loadedAt w.server.timers w.asked
  past : w.loadedAt ≤ w.now
  enabled : w.server.regs.enabled = (w.server.timers.foldl sooner none).isSome
  loaded : ∀ m, w.server.timers.foldl sooner none = some m →
    w.server.lastSet = m * 1000 ∧ m * 1000 < 2 ^ 32 ∧ w.server.regs.cur = m * 1000 - (w.now - w.loadedAt)

section Accounting

variable {w w' : TimerWorld} {s : TimerServer} {ts : List Timer} {as : List Asked} {t : Timer} {a : Asked}
  {r : TimerReq} {out : List TimerSent} {e : TimerEvent} {i m now : ℕ} {o : Option ℕ}

theorem sooner_some (h : sooner o t = some m) : (o = some m ∨ t.set = true ∧ t.timeMs = m) ∧
    (∀ x, o = some x → m ≤ x) ∧ (t.set = true → m ≤ t.timeMs) := by
  unfold sooner at h
  grind

theorem sooner_none (h : sooner o t = none) : o = none ∧ t.set = false := by
  unfold sooner at h
  grind

theorem sooner_isSome (h : (∃ x, o = some x) ∨ t.set = true) : ∃ n, sooner o t = some n := by
  rw [← Option.ne_none_iff_exists']
  intro hn
  obtain ⟨rfl, ht⟩ := sooner_none hn
  simp [ht] at h

theorem foldl_sooner_some (h : ts.foldl sooner o = some m) :
    (o = some m ∨ ∃ t ∈ ts, t.set = true ∧ t.timeMs = m) ∧ (∀ x, o = some x → m ≤ x) ∧
      ∀ t ∈ ts, t.set = true → m ≤ t.timeMs := by
  induction ts generalizing o with
  | nil =>
    obtain rfl : o = some m := h
    exact ⟨.inl rfl, fun x hx => (Option.some.inj hx).le, fun t ht => absurd ht List.not_mem_nil⟩
  | cons t ts ih =>
    obtain ⟨hm, ho, hts⟩ := ih h
    have hmin : ∀ x, sooner o t = some x → m ≤ x := ho
    refine ⟨?_, fun x hx => ?_, List.forall_mem_cons.mpr ⟨fun ht => ?_, hts⟩⟩
    · rcases hm with hm | ⟨t', ht', hset⟩
      · rcases (sooner_some hm).1 with hm | hset
        · exact .inl hm
        · exact .inr ⟨t, List.mem_cons_self, hset⟩
      · exact .inr ⟨t', List.mem_cons_of_mem t ht', hset⟩
    · obtain ⟨n, hn⟩ := sooner_isSome (t := t) (Or.inl ⟨x, hx⟩)
      exact (hmin n hn).trans ((sooner_some hn).2.1 x hx)
    · obtain ⟨n, hn⟩ := sooner_isSome (o := o) (Or.inr ht)
      exact (hmin n hn).trans ((sooner_some hn).2.2 ht)

theorem foldl_sooner_none (h : ts.foldl sooner o = none) : o = none ∧ ∀ t ∈ ts, t.set = false := by
  induction ts generalizing o with
  | nil => exact ⟨h, fun t ht => absurd ht List.not_mem_nil⟩
  | cons t ts ih =>
    obtain ⟨ho, hts⟩ := ih h
    obtain ⟨ho, ht⟩ := sooner_none ho
    exact ⟨ho, List.forall_mem_cons.mpr ⟨ht, hts⟩⟩

theorem Deadlines.asked (h : Deadlines now ts as) (ht : ts[i]? = some t) : ∃ a, as[i]? = some a := by
  have hi := (List.getElem?_eq_some_iff.mp ht).1
  rw [← h.1] at hi
  exact ⟨_, List.getElem?_eq_getElem hi⟩

theorem Deadlines.setTimer (h : Deadlines now s.timers as) :
    Accounted { server := setTimer s, now := now, loadedAt := now, asked := as } := by
  unfold Drivers.setTimer
  cases hm : s.timers.foldl sooner none with
  | none => exact ⟨h, le_rfl, by simp [hm], fun m h => by simp [hm] at h⟩
  | some m =>
    obtain ⟨hfound, -, -⟩ := foldl_sooner_some hm
    have hlt : m * 1000 < 2 ^ 32 := by
      rcases hfound with hfound | ⟨t, ht, hset, rfl⟩
      · cases hfound
      · obtain ⟨i, hi⟩ := List.mem_iff_getElem?.mp ht
        obtain ⟨a, ha⟩ := h.asked hi
        exact (h.2 i t a hi ha hset).plain
    refine ⟨h, le_rfl, by simp [hm], fun m' h => ?_⟩
    simp only [hm, Option.some.injEq] at h
    subst h
    simp only [Nat.mod_eq_of_lt hlt, hlt, Nat.sub_self, Nat.sub_zero, and_self]

theorem accounted_start (now cur : ℕ) : Accounted (timerStart now cur) := by
  apply Deadlines.setTimer
  exact ⟨rfl, nofun⟩

theorem Accounted.wait (h : Accounted w) (us : ℕ) (hw : timerStep w (.wait us) = some (w', out)) :
    Accounted w' := by
  cases hw
  refine ⟨h.deadlines, h.past.trans (Nat.le_add_right _ _), ?_, fun m hm => ?_⟩
  · rw [← h.enabled]
    simp only [Sp804Counter.wait]
    split <;> rfl
  · obtain ⟨hlast, hlt, hcur⟩ := h.loaded m hm
    refine ⟨hlast, hlt, ?_⟩
    have hen := h.enabled
    have := h.past
    rw [show w.server.timers.foldl sooner none = some m from hm] at hen
    simp only [Sp804Counter.wait, show w.server.regs.enabled = true from hen, if_true, hcur]
    omega

theorem Accounted.left (h : Accounted w) (ht : Timely w (.message r)) (hi : w.server.timers[i]? = some t)
    (ha : w.asked[i]? = some a) (hset : t.set = true) (hr : ¬ r.Sets w.server i) : Waits w.now t a := by
  rcases ht.2 with hnow | halone
  · rw [hnow]
    exact h.deadlines.2 i t a hi ha hset
  · exact absurd (halone i t hi hset) hr

theorem Accounted.same (h : Accounted w) (ht : Timely w (.message r)) (hr : ∀ i < w.server.timers.length,
    ¬ r.Sets w.server i) : Deadlines w.now w.server.timers w.asked := by
  refine ⟨h.deadlines.1, fun i t a hi ha hset => h.left ht hi ha hset (hr i ?_)⟩
  exact (List.getElem?_eq_some_iff.mp hi).1

theorem not_sets_create {pid cid : ℤ} {signal : ℕ} {memory : Option (Bool × ℕ)} :
    ¬ (TimerReq.create pid cid signal memory).Sets s i := by
  rintro ⟨_, _, _, he, _⟩
  cases he

theorem Accounted.created {pid cid : ℤ} {signal : ℕ} {memory : Option (Bool × ℕ)} (h : Accounted w)
    (ht : Timely w (.message (.create pid cid signal memory))) :
    Deadlines w.now (handleCreate pid cid signal memory w.server).1.timers
      (askedAfter (.create pid cid signal memory) w) := by
  have hsame := h.same ht fun i _ => not_sets_create
  unfold handleCreate
  by_cases hcid : cid = 0
  · rw [if_pos hcid]
    simpa only [askedAfter, hcid, true_or, if_true] using hsame
  rw [if_neg hcid]
  cases memory with
  | none => simpa only [askedAfter, or_true, if_true] using hsame
  | some m =>
    obtain ⟨set, timeMs⟩ := m
    obtain rfl : set = false := ht.1 set timeMs rfl
    simp only [askedAfter, hcid, reduceCtorEq, or_self, if_false]
    refine ⟨congrArg Nat.succ hsame.1, fun i t a hi ha hset => ?_⟩
    cases i with
    | zero =>
      obtain rfl := Option.some.inj hi
      cases hset
    | succ i => exact hsame.2 i t a hi ha hset

theorem Accounted.wasSet {pid id : ℤ} {timeMs : ℕ} (h : Accounted w)
    (ht : Timely w (.message (.set pid id timeMs))) :
    Deadlines w.now (handleSet pid id timeMs w.server).1.timers (askedAfter (.set pid id timeMs) w) := by
  have hsets : ∀ i, i ≠ w.server.timers.findIdx (isTimer pid id) →
      ¬ (TimerReq.set pid id timeMs).Sets w.server i := by
    rintro i hi ⟨_, _, _, he, rfl⟩
    cases he
    exact hi rfl
  unfold handleSet
  simp only [askedAfter]
  cases hidx : w.server.timers.findIdx? (isTimer pid id) with
  | none =>
    have hlen : w.server.timers.findIdx (isTimer pid id) = w.server.timers.length := by
      rw [List.findIdx_eq_length]
      exact List.findIdx?_eq_none_iff.mp hidx
    rw [hlen, List.set_eq_of_length_le h.deadlines.1.le]
    exact h.same ht fun i hi => hsets i (by omega)
  | some j =>
    obtain ⟨hj, hfind⟩ := List.findIdx?_eq_some_iff_findIdx_eq.mp hidx
    rw [hfind] at hsets ⊢
    refine ⟨by simp [h.deadlines.1], fun i t a hi ha hset => ?_⟩
    simp only [List.getElem?_modify] at hi
    rw [List.getElem?_set] at ha
    by_cases hij : j = i
    · subst hij
      rw [if_pos rfl, if_pos (by rw [h.deadlines.1]; exact hj)] at ha
      obtain rfl := Option.some.inj ha
      obtain ⟨t, hi, rfl⟩ := Option.map_eq_some_iff.mp hi
      rw [if_pos rfl]
      have hplain : timeMs * 1000 < 2 ^ 32 := ht.1
      exact ⟨le_rfl, rfl, hplain⟩
    · rw [if_neg hij] at ha
      obtain ⟨t, hi', rfl⟩ := Option.map_eq_some_iff.mp hi
      simp only [if_neg hij] at hset ⊢
      exact h.left ht hi' ha hset (hsets i (Ne.symm hij))

theorem Accounted.handled (h : Accounted w) (ht : Timely w (.message r)) :
    Deadlines w.now (handleReq r w.server).1.timers (askedAfter r w) := by
  cases r with
  | create pid cid signal memory => exact h.created ht
  | set pid id timeMs => exact h.wasSet ht
  | other pid =>
    apply h.same ht
    rintro i _ ⟨_, _, _, he, _⟩
    cases he

theorem Accounted.ranOut (h : Accounted w) (hr : w.server.regs.ranOut = true) :
    ∃ m, w.server.timers.foldl sooner none = some m ∧ w.server.lastSet = m * 1000 ∧
      elipsed w.server = m ∧ w.loadedAt + m * 1000 ≤ w.now := by
  simp only [Sp804Counter.ranOut, Bool.and_eq_true, decide_eq_true_eq] at hr
  obtain ⟨hen, hcur⟩ := hr
  rw [h.enabled, Option.isSome_iff_exists] at hen
  obtain ⟨m, hm⟩ := hen
  obtain ⟨hlast, hlt, hleft⟩ := h.loaded m hm
  have hpast := h.past
  refine ⟨m, hm, hlast, ?_, by omega⟩
  unfold elipsed
  rw [hlast, hcur]
  omega

theorem checkTimer_passed (hset : t.set = true) (hle : t.timeMs ≤ m) :
    checkTimer m t = ({ t with set := false }, some (.signal t.endpoint t.signal)) := by
  simp [checkTimer, hset, hle]

theorem checkTimer_waits (hset : t.set = true) (hlt : m < t.timeMs) :
    checkTimer m t = ({ t with timeMs := t.timeMs - m }, none) := by
  simp [checkTimer, hset, not_le.mpr hlt]

theorem checkTimer_unset (hset : t.set = false) : checkTimer m t = (t, none) := if_pos hset

@[simp] theorem setTimer_timers : (setTimer s).timers = s.timers := by
  unfold setTimer
  split <;> rfl

theorem Accounted.checked (h : Accounted w) (ht : Timely w .interrupt) (hr : w.server.regs.ranOut = true) :
    Deadlines w.now (checkTimers w.server).1.timers w.asked := by
  obtain ⟨m, hm, hlast, helipsed, hnow⟩ := h.ranOut hr
  refine ⟨by simp [checkTimers, h.deadlines.1], fun i t' a hi ha hset => ?_⟩
  simp only [checkTimers, List.getElem?_map, helipsed, Option.map_eq_some_iff] at hi
  obtain ⟨t, hi, rfl⟩ := hi
  cases hon : t.set with
  | false =>
    rw [checkTimer_unset hon, hon] at hset
    cases hset
  | true =>
  obtain ⟨hpast, hleft, hplain⟩ := h.deadlines.2 i t a hi ha hon
  by_cases hle : t.timeMs ≤ m
  · rw [checkTimer_passed hon hle] at hset
    cases hset
  rw [checkTimer_waits hon (not_le.mp hle)]
  rcases ht with hlate | hall
  · rw [hlast] at hlate
    refine ⟨hpast.trans h.past, ?_, ?_⟩
    · simp only [hlate]
      omega
    · exact (Nat.mul_le_mul_right 1000 (Nat.sub_le _ _)).trans_lt hplain
  · have := hall t (List.mem_of_getElem? hi) hon
    omega

theorem Accounted.step (h : Accounted w) (ht : Timely w e) (hs : timerStep w e = some (w', out)) :
    Accounted w' := by
  cases e with
  | wait us => exact h.wait us hs
  | message r =>
    simp only [timerStep] at hs
    split at hs
    · cases hs
    · cases hs
      exact (h.handled ht).setTimer
  | interrupt =>
    simp only [timerStep] at hs
    split at hs
    · rename_i hr
      cases hs
      exact (h.checked ht hr).setTimer
    · cases hs

theorem TimerRun.accounted (h : TimerRun w) : Accounted w := by
  induction h with
  | start now cur => exact accounted_start now cur
  | step _ timely run ih => exact ih.step timely run

def due (now : ℕ) (p : Timer × Asked) : Option TimerSent :=
  if p.1.set = true ∧ p.2.ms * 1000 ≤ now - p.2.since then some (.signal p.1.endpoint p.1.signal) else none

theorem Deadlines.zip_mem {p : Timer × Asked} (hp : p ∈ ts.zip as) :
    ∃ i : ℕ, ts[i]? = some p.1 ∧ as[i]? = some p.2 := by
  obtain ⟨i, hi⟩ := List.mem_iff_getElem?.mp hp
  exact ⟨i, List.getElem?_zip_eq_some.mp hi⟩

theorem Accounted.passed_iff (h : Accounted w) (ht : Timely w .interrupt) (hr : w.server.regs.ranOut = true)
    (hi : w.server.timers[i]? = some t) (ha : w.asked[i]? = some a) (hset : t.set = true) :
    a.ms * 1000 ≤ w.now - a.since ↔ t.timeMs ≤ elipsed w.server := by
  obtain ⟨m, hm, hlast, helipsed, hnow⟩ := h.ranOut hr
  obtain ⟨hpast, hleft, -⟩ := h.deadlines.2 i t a hi ha hset
  rw [helipsed]
  refine ⟨fun hle => ?_, fun hle => by omega⟩
  rcases ht with hlate | hall
  · omega
  · have := hall t (List.mem_of_getElem? hi) hset
    omega

theorem Accounted.sent (h : Accounted w) (ht : Timely w .interrupt) (hr : w.server.regs.ranOut = true) :
    (checkTimers w.server).2 = (w.server.timers.zip w.asked).filterMap (due w.now) := by
  have hfst : w.server.timers = (w.server.timers.zip w.asked).map Prod.fst :=
    (List.map_fst_zip h.deadlines.1.ge).symm
  have hout : (checkTimers w.server).2 = w.server.timers.filterMap fun t => (checkTimer (elipsed w.server) t).2 := rfl
  rw [hout]
  conv_lhs =>
    rw [hfst]
  rw [List.filterMap_map]
  apply List.filterMap_congr
  rintro ⟨t, a⟩ hp
  obtain ⟨i, hi, ha⟩ := Deadlines.zip_mem hp
  simp only [Function.comp_apply, due]
  cases hset : t.set with
  | false => rw [checkTimer_unset hset]; simp
  | true =>
    have hpassed := h.passed_iff ht hr hi ha hset
    by_cases hle : t.timeMs ≤ elipsed w.server
    · rw [checkTimer_passed hset hle, if_pos ⟨rfl, hpassed.mpr hle⟩]
    · rw [checkTimer_waits hset (not_le.mp hle), if_neg (fun hd => hle (hpassed.mp hd.2))]

theorem Accounted.ranOut_of_passed (h : Accounted w) (hi : w.server.timers[i]? = some t)
    (ha : w.asked[i]? = some a) (hset : t.set = true) :
    a.since ≤ w.now ∧ (a.ms * 1000 ≤ w.now - a.since → w.server.regs.ranOut = true) := by
  obtain ⟨hpast, hleft, -⟩ := h.deadlines.2 i t a hi ha hset
  have hnow := h.past
  refine ⟨hpast.trans hnow, fun hle => ?_⟩
  cases hm : w.server.timers.foldl sooner none with
  | none =>
    rw [(foldl_sooner_none hm).2 t (List.mem_of_getElem? hi)] at hset
    cases hset
  | some m =>
    obtain ⟨-, -, hleast⟩ := foldl_sooner_some hm
    obtain ⟨-, -, hcur⟩ := h.loaded m hm
    have := hleast t (List.mem_of_getElem? hi) hset
    have hen := h.enabled
    rw [hm] at hen
    simp only [Sp804Counter.ranOut, hen, hcur, Option.isSome_some, Bool.true_and, decide_eq_true_eq]
    omega

theorem handleReq_sent {ep : ℤ} {sg : ℕ} : TimerSent.signal ep sg ∉ (handleReq r s).2 := by
  unfold handleReq handleCreate handleSet
  cases r <;> grind

/-- In a timely run, an interrupt signals just the timers that have passed, each once, and the counter has run
out as soon as one has. Nothing else signals. -/
theorem timer_accounting (h : TimerRun w) :
    (∀ w' out, Timely w .interrupt → timerStep w .interrupt = some (w', out) →
      out = (w.server.timers.zip w.asked).filterMap (due w.now) ∧
      ∀ (i : ℕ) (t : Timer) (a : Asked), w.server.timers[i]? = some t → w.asked[i]? = some a → t.set = true →
        ∃ t', w'.server.timers[i]? = some t' ∧ (t'.set = false ↔ a.ms * 1000 ≤ w.now - a.since)) ∧
    (∀ e w' out, e ≠ .interrupt → timerStep w e = some (w', out) → ∀ ep sg, TimerSent.signal ep sg ∉ out) ∧
    w.asked.length = w.server.timers.length ∧
    ∀ (i : ℕ) (t : Timer) (a : Asked), w.server.timers[i]? = some t → w.asked[i]? = some a → t.set = true →
      a.since ≤ w.now ∧ (a.ms * 1000 ≤ w.now - a.since → w.server.regs.ranOut = true) := by
  have hacc := h.accounted
  refine ⟨fun w' out ht hs => ?_, fun e w' out he hs ep sg => ?_, hacc.deadlines.1,
    fun i t a hi ha hset => hacc.ranOut_of_passed hi ha hset⟩
  · simp only [timerStep] at hs
    split at hs
    · rename_i hr
      cases hs
      refine ⟨hacc.sent ht hr, fun i t a hi ha hset => ?_⟩
      rw [hacc.passed_iff ht hr hi ha hset, setTimer_timers, checkTimers]
      simp only [List.getElem?_map, hi, Option.map_some, Option.some.injEq, exists_eq_left']
      by_cases hle : t.timeMs ≤ elipsed w.server
      · rw [checkTimer_passed hset hle]
        simp [hle]
      · rw [checkTimer_waits hset (not_le.mp hle)]
        simp [hle, hset]
    · cases hs
  · cases e with
    | wait us =>
      cases hs
      exact List.not_mem_nil
    | message r =>
      simp only [timerStep] at hs
      split at hs
      · cases hs
      · cases hs
        exact handleReq_sent
    | interrupt => exact absurd rfl he

end Accounting

def timerRun (w : TimerWorld) : List TimerEvent → Option TimerWorld
  | [] => some w
  | e :: es =>
    match timerStep w e with
    | some (w, _) => timerRun w es
    | none => none

theorem timer_accounting_two : ∃ w w' out, TimerRun w ∧ timerStep w .interrupt = some (w', out) ∧
    w.now = 300000 ∧ w.server.timers.map Timer.set = [true, true] ∧ out = [.signal 5 1] := by
  have h₁ := TimerRun.step (e := .message (.create 2 5 1 (some (false, 0)))) (.start 0 0)
    ⟨by rintro _ _ ⟨⟩; rfl, .inl rfl⟩ rfl
  have h₂ := TimerRun.step (e := .message (.create 3 6 1 (some (false, 7)))) h₁
    ⟨by rintro _ _ ⟨⟩; rfl, .inl rfl⟩ rfl
  have h₃ := TimerRun.step (e := .message (.set 2 0 300)) h₂ ⟨show 300 * 1000 < 2 ^ 32 by decide, .inl rfl⟩ rfl
  have h₄ := TimerRun.step (e := .message (.set 3 1 500)) h₃ ⟨show 500 * 1000 < 2 ^ 32 by decide, .inl rfl⟩ rfl
  have h₅ := TimerRun.step (e := .wait 300000) h₄ trivial rfl
  obtain ⟨hinterrupt, -⟩ := timer_accounting h₅
  obtain ⟨hout, -⟩ := hinterrupt _ _ (.inl rfl) rfl
  exact ⟨_, _, _, h₅, rfl, rfl, rfl, hout.trans rfl⟩

def twoClients : List TimerEvent :=
  [.message (.create 2 5 1 (some (false, 0))), .message (.create 3 6 1 (some (false, 0))),
    .message (.set 2 0 300), .wait 200000, .message (.set 3 1 200), .wait 200000]

theorem timer_delayed : ∃ w w' out t a t', timerRun (timerStart 0 0) twoClients = some w ∧
    timerStep w .interrupt = some (w', out) ∧ w.server.timers[1]? = some t ∧ w.asked[1]? = some a ∧
    t.set = true ∧ a.ms = 300 ∧ w.now - a.since = 400000 ∧ w'.server.timers[1]? = some t' ∧ t'.set = true :=
  ⟨_, _, _, _, _, _, rfl, rfl, rfl, rfl, rfl, rfl, rfl, rfl, rfl⟩

end Agatha.Drivers
