import Mathlib.Data.List.Basic
import Mathlib.Logic.Function.Basic

namespace Agatha.Library.Replay

variable {κ ν α β : Type*} [DecidableEq κ]

def play (key : α → κ) (put : ν → α → ν) (m : κ → ν) (a : α) : κ → ν :=
  Function.update m (key a) (put (m (key a)) a)

def playAll (key : α → κ) (put : ν → α → ν) (m : κ → ν) (log : List α) : κ → ν :=
  log.foldl (play key put) m

def about (key : α → κ) (k : κ) (log : List α) : List α := log.filter fun a => key a = k

variable {key : α → κ} {put : ν → α → ν} {m : κ → ν} {log log' : List α} {a : α} {k : κ}

theorem about_append : about key k (log ++ log') = about key k log ++ about key k log' := List.filter_append ..

theorem playAll_append : playAll key put m (log ++ log') = playAll key put (playAll key put m log) log' :=
  List.foldl_append

theorem playAll_apply : playAll key put m log k = (about key k log).foldl put (m k) := by
  induction log generalizing m with
  | nil => rfl
  | cons a log ih =>
    have hrec : playAll key put m (a :: log) k = playAll key put (play key put m a) log k := rfl
    rw [hrec, ih]
    unfold about play
    by_cases hk : key a = k
    · subst hk
      rw [List.filter_cons_of_pos (by simp), List.foldl_cons, Function.update_self]
    · rw [List.filter_cons_of_neg (by simpa using hk), Function.update_of_ne (Ne.symm hk)]

theorem playAll_last {f : ν → β} {x : β} (h : (about key k log).getLast? = some a) (hput : ∀ v, f (put v a) = x) :
    f (playAll key put m log k) = x := by
  obtain ⟨front, hfront⟩ := List.getLast?_eq_some_iff.mp h
  rw [playAll_apply, hfront, List.foldl_append, List.foldl_cons, List.foldl_nil]
  exact hput _

theorem about_append_getLast? : (about key k (log ++ log')).getLast? =
    ((about key k log').getLast?).or (about key k log).getLast? := by
  rw [about_append, List.getLast?_append]

end Agatha.Library.Replay
