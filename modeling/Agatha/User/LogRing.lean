import Agatha.Library.Ring

/-! The ring buffer of the log server (`procs/log/log.c`). -/

namespace Agatha.User.LogRing

open Library Library.Ring

def size : ℕ := 2048

def dataLen : ℕ := 56

structure Log where
  buf : ℕ → UInt8
  start : ℕ
  stop : ℕ
  start_lt : start < size
  end_lt : stop < size

def Log.copy (log : Log) (s : List UInt8) : Log where
  buf := place log.buf log.stop s
  start := log.start
  stop := (log.stop + s.length) % size
  start_lt := log.start_lt
  end_lt := Nat.mod_lt _ (by decide)

def Log.skip (log : Log) (len : ℕ) : Log where
  buf := log.buf
  start := (log.start + len) % size
  stop := log.stop
  start_lt := Nat.mod_lt _ (by decide)
  end_lt := log.end_lt

def Log.chunk (log : Log) (len : ℕ) : ℕ := if log.stop + len > size then size - log.stop else len

def addLog (log : Log) (s : List UInt8) : Log × List UInt8 :=
  if _h : s.length > 0 then
    if log.stop < log.start ∧ log.stop + s.length ≥ log.start then (log, [])
    else
      let l := log.chunk s.length
      let rest := addLog (log.copy (s.take l)) (s.drop l)
      (rest.1, s.take l ++ rest.2)
  else (log, [])
termination_by s.length
decreasing_by
  have := log.end_lt
  simp only [List.length_drop, Log.chunk]
  split_ifs <;> omega

def Log.writeLen (log : Log) : ℕ :=
  min (if log.start < log.stop then log.stop - log.start else size - log.start) dataLen

theorem Log.writeLen_le (log : Log) : log.start + log.writeLen ≤ size := by
  have hs := log.start_lt
  have he := log.end_lt
  unfold writeLen
  split_ifs <;> omega

theorem Log.writeLen_le_held {log : Log} (h : log.start ≠ log.stop) :
    0 < log.writeLen ∧ log.writeLen ≤ held size log.start log.stop := by
  have hs := log.start_lt
  unfold writeLen held dataLen
  split_ifs <;> omega

/-- If the call returns (the process ends otherwise), the log then, and what the serial server took. The
answers say of each `mesg` if it and its `ret` are `OK`; `main` has set `log_output_eid` before. -/
def sendLogs (log : Log) (answers : ℕ → Bool) : Bool × Log × List UInt8 :=
  if _h : log.start ≠ log.stop then
    if answers 0 then
      let rest := sendLogs (log.skip log.writeLen) fun n => answers (n + 1)
      (rest.1, rest.2.1, window size log.buf log.start log.writeLen ++ rest.2.2)
    else (false, log, [])
  else (true, log, [])
termination_by held size log.start log.stop
decreasing_by
  obtain ⟨hpos, hle⟩ := Log.writeLen_le_held _h
  have := held_pop log.end_lt log.writeLen_le hle
  simp only [Log.skip]
  omega

def Log.contents (log : Log) : List UInt8 := Ring.contents size log.buf log.start log.stop

structure Server where
  log : Log
  exited : Bool
  copied : List UInt8
  sent : List UInt8

def init : Server where
  log := ⟨fun _ => 0, 0, 0, by decide, by decide⟩
  exited := false
  copied := []
  sent := []

inductive Call where
  | addLog (line : List UInt8) (h : line.length ≤ 256)
  | sendLogs (answers : ℕ → Bool)

def Server.step (sv : Server) (c : Call) : Server :=
  if sv.exited then sv
  else
    match c with
    | .addLog line _ =>
      { sv with log := (addLog sv.log line).1, copied := sv.copied ++ (addLog sv.log line).2 }
    | .sendLogs answers =>
      let r := sendLogs sv.log answers
      { sv with log := r.2.1, exited := !r.1, sent := sv.sent ++ r.2.2 }

structure Kept (sv : Server) : Prop where
  unsent : sv.sent ++ sv.log.contents = sv.copied
  empty : sv.log.start = sv.log.stop ↔ sv.sent = sv.copied

def Flushed (sv : Server) : Call → Prop
  | .addLog _ _ => True
  | .sendLogs _ => ¬ sv.exited → sv.sent = sv.copied

def AllKept : Server → List Call → Prop
  | sv, [] => Kept sv
  | sv, c :: cs => Kept sv ∧ Flushed (sv.step c) c ∧ AllKept (sv.step c) cs

def Clear (sv : Server) (c : Call) : Prop :=
  match c with
  | .addLog line _ => sv.exited ∨ sv.log.start ≠ 0 ∨ sv.log.stop + line.length < size
  | .sendLogs _ => True

def AllClear : Server → List Call → Prop
  | _, [] => True
  | sv, c :: cs => Clear sv c ∧ AllClear (sv.step c) cs

section Calls

variable {log : Log} {s : List UInt8} {answers : ℕ → Bool} {sv : Server} {c : Call}

theorem addLog_start : (addLog log s).1.start = log.start := by
  induction log, s using addLog.induct with
  | case1 log s h hfull =>
    unfold addLog
    simp [h, hfull]
  | case2 log s h hfull l ih =>
    unfold addLog
    simp only [h, hfull, dite_true, if_false]
    exact ih
  | case3 log s h =>
    unfold addLog
    simp [h]

theorem chunk_held (hroom : log.start ≠ 0 ∨ log.stop + s.length < size)
    (hfull : ¬ (log.stop < log.start ∧ log.stop + s.length ≥ log.start)) :
    held size log.start log.stop + log.chunk s.length < size := by
  have hs := log.start_lt
  have he := log.end_lt
  unfold held Log.chunk
  split_ifs <;> omega

theorem chunk_le : log.stop + log.chunk s.length ≤ size ∧ log.chunk s.length ≤ s.length := by
  have he := log.end_lt
  unfold Log.chunk
  split_ifs <;> omega

theorem length_take_chunk : (s.take (log.chunk s.length)).length = log.chunk s.length := by
  rw [List.length_take, Nat.min_eq_left chunk_le.2]

theorem copy_contents (h : log.stop + s.length ≤ size) (hroom : held size log.start log.stop + s.length < size) :
    (log.copy s).contents = log.contents ++ s :=
  contents_push log.start_lt log.end_lt h hroom

theorem addLog_contents (hroom : log.start ≠ 0 ∨ log.stop + s.length < size) :
    (addLog log s).1.contents = log.contents ++ (addLog log s).2 := by
  induction log, s using addLog.induct with
  | case1 log s h hfull =>
    unfold addLog
    simp [h, hfull]
  | case2 log s h hfull l ih =>
    unfold addLog
    simp only [h, hfull, dite_true, if_false]
    have hl : (s.take l).length = l := length_take_chunk
    rw [ih, copy_contents, List.append_assoc]
    · rw [hl]
      exact chunk_le.1
    · rw [hl]
      exact chunk_held hroom hfull
    · refine hroom.imp_right fun hlt => ?_
      have hdrop : s.drop l = [] := by
        apply List.drop_eq_nil_of_le
        simp only [l, Log.chunk]
        split_ifs <;> omega
      rw [hdrop]
      exact (log.copy (s.take l)).end_lt
  | case3 log s h =>
    unfold addLog
    simp [h]

theorem addLog_all (hstart : log.start = 0) :
    (addLog log s).2 = s ∧ (addLog log s).1.stop = (log.stop + s.length) % size := by
  induction log, s using addLog.induct with
  | case1 log s h hfull => omega
  | case2 log s h hfull l ih =>
    unfold addLog
    simp only [h, hfull, dite_true, if_false]
    obtain ⟨hall, hend⟩ := ih hstart
    refine ⟨?_, ?_⟩
    · rw [hall, List.take_append_drop]
    · have hl : (s.take l).length = l := length_take_chunk
      have hle : l ≤ s.length := chunk_le.2
      rw [hend]
      simp only [Log.copy, hl, List.length_drop]
      rw [Nat.mod_add_mod]
      congr 1
      omega
  | case3 log s h =>
    obtain rfl : s = [] := List.eq_nil_of_length_eq_zero (by omega)
    unfold addLog
    simp [Nat.mod_eq_of_lt log.end_lt]

theorem length_addLog_lt (hstart : log.start = 0) (hlen : log.stop + s.length ≥ size) :
    (addLog log s).1.contents.length < log.contents.length + (addLog log s).2.length := by
  obtain ⟨hall, -⟩ := addLog_all (s := s) hstart
  have hheld : held size 0 log.stop = log.stop := by simp [held]
  unfold Log.contents
  rw [length_contents, length_contents, addLog_start, hall, hstart, hheld]
  exact Nat.lt_of_lt_of_le (held_lt (show 0 < size by decide) (addLog log s).1.end_lt) hlen

theorem sendLogs_contents : (sendLogs log answers).2.2 ++ (sendLogs log answers).2.1.contents = log.contents := by
  induction log, answers using sendLogs.induct with
  | case1 log answers h hok ih =>
    unfold sendLogs
    simp only [h, hok, dite_true, if_true, ne_eq, not_false_eq_true]
    rw [List.append_assoc, ih]
    exact (contents_pop log.end_lt log.writeLen_le (Log.writeLen_le_held h).2).symm
  | case2 log answers h hok =>
    unfold sendLogs
    simp [h, hok]
  | case3 log answers h =>
    unfold sendLogs
    simp [h]

theorem sendLogs_empty (h : (sendLogs log answers).1) :
    (sendLogs log answers).2.1.start = (sendLogs log answers).2.1.stop := by
  induction log, answers using sendLogs.induct with
  | case1 log answers hne hok ih =>
    unfold sendLogs at h ⊢
    simp only [hne, hok, dite_true, if_true, ne_eq, not_false_eq_true] at h ⊢
    exact ih h
  | case2 log answers hne hok =>
    unfold sendLogs at h
    simp [hne, hok] at h
  | case3 log answers hne =>
    have heq : log.start = log.stop := not_not.mp hne
    unfold sendLogs
    simp [heq]

theorem contents_eq_nil : log.contents = [] ↔ log.start = log.stop := by
  unfold Log.contents
  rw [← List.length_eq_zero_iff, length_contents, held_eq_zero log.start_lt]

theorem Kept.of_unsent (h : sv.sent ++ sv.log.contents = sv.copied) : Kept sv := by
  refine ⟨h, ?_⟩
  rw [← contents_eq_nil, ← h]
  simp

theorem kept_init : Kept init := by
  apply Kept.of_unsent
  simp [init, contents_eq_nil]

theorem Kept.step_iff (h : Kept sv) : Kept (sv.step c) ↔ Clear sv c := by
  cases hx : sv.exited with
  | true =>
    unfold Server.step Clear
    cases c <;> simp [hx, h]
  | false =>
    unfold Server.step Clear
    simp only [hx, Bool.false_eq_true, if_false, false_or]
    cases c with
    | addLog line hlen =>
      constructor
      · intro hk
        by_contra hclear
        obtain ⟨hstart, hfull⟩ := not_or.mp hclear
        have hlt := length_addLog_lt (not_not.mp hstart) (Nat.not_lt.mp hfull)
        have heq := congrArg List.length hk.unsent
        simp only [← h.unsent, List.length_append] at heq
        omega
      · intro hclear
        apply Kept.of_unsent
        dsimp only
        rw [addLog_contents hclear, ← h.unsent, List.append_assoc]
    | sendLogs answers =>
      simp only [iff_true]
      apply Kept.of_unsent
      dsimp only
      rw [List.append_assoc, sendLogs_contents, h.unsent]

theorem Kept.flushed (h : Kept (sv.step c)) : Flushed (sv.step c) c := by
  cases c with
  | addLog line hlen => trivial
  | sendLogs answers =>
    intro hx
    apply h.empty.mp
    unfold Server.step at hx ⊢
    split_ifs at hx ⊢ with hex
    · exact absurd hex hx
    · apply sendLogs_empty
      simpa using hx

theorem AllKept.head {cs : List Call} (h : AllKept sv cs) : Kept sv := by
  cases cs with
  | nil => exact h
  | cons c cs => exact h.1

theorem Kept.all_iff (cs : List Call) (h : Kept sv) : AllKept sv cs ↔ AllClear sv cs := by
  induction cs generalizing sv with
  | nil => exact iff_of_true h trivial
  | cons c cs ih =>
    constructor
    · rintro ⟨-, -, hall⟩
      exact ⟨h.step_iff.mp hall.head, (ih hall.head).mp hall⟩
    · rintro ⟨hc, hall⟩
      have hk := h.step_iff.mpr hc
      exact ⟨h, hk.flushed, (ih hk).mpr hall⟩

theorem kept_iff_clear (cs : List Call) : AllKept init cs ↔ AllClear init cs :=
  kept_init.all_iff cs

theorem stop_lt_of_clear {line : List UInt8} {h : line.length ≤ 256} {n : ℕ} (hstart : sv.log.start = 0)
    (hx : sv.exited = false) (hclear : AllClear sv (List.replicate n (.addLog line h))) :
    sv.log.stop + n * line.length < size := by
  induction n generalizing sv with
  | zero => simpa using sv.log.end_lt
  | succ n ih =>
    obtain ⟨hc, hall⟩ := hclear
    have hlt : sv.log.stop + line.length < size := by simpa [Clear, hx, hstart] using hc
    have hstep : sv.step (.addLog line h) =
        { sv with log := (addLog sv.log line).1, copied := sv.copied ++ (addLog sv.log line).2 } := by
      simp [Server.step, hx]
    have hrest := @ih (sv.step (.addLog line h)) (by rw [hstep, addLog_start, hstart]) (by rw [hstep, hx]) hall
    rw [hstep] at hrest
    dsimp only at hrest
    rw [(addLog_all hstart).2, Nat.mod_eq_of_lt hlt] at hrest
    rw [Nat.succ_mul]
    omega

theorem lines_lost : ¬ AllKept init (List.replicate 8 (.addLog (List.replicate 256 0) (Nat.le_of_eq List.length_replicate))) := by
  intro h
  have hlt := stop_lt_of_clear rfl rfl ((kept_init.all_iff _).mp h)
  rw [List.length_replicate] at hlt
  exact absurd hlt (by decide)

end Calls

end Agatha.User.LogRing
