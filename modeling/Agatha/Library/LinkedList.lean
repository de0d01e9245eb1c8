import Mathlib.Data.List.Nodup
import Mathlib.Data.List.Basic
import Mathlib.Logic.Function.Basic

namespace Agatha.Library.LinkedList

variable {α : Type*}

def Chain (next : α → Option α) : Option α → List α → Prop
  | head, [] => head = none
  | head, x :: xs => head = some x ∧ Chain next (next x) xs

def Linked (next prev : α → Option α) (after : Option α) : Option α → List α → Prop
  | _, [] => True
  | before, x :: xs =>
    prev x = before ∧ next x = xs.head?.or after ∧ Linked next prev after (some x) xs

structure Dll (next prev : α → Option α) (head tail : Option α) (xs : List α) : Prop where
  nodup : xs.Nodup
  head_eq : head = xs.head?
  tail_eq : tail = xs.getLast?
  linked : Linked next prev none none xs

section Chains

variable {next next' : α → Option α} {head : Option α} {xs ys : List α} {x : α}

@[simp] theorem chain_nil : Chain next head [] ↔ head = none := Iff.rfl

@[simp] theorem chain_cons :
    Chain next head (x :: xs) ↔ head = some x ∧ Chain next (next x) xs := Iff.rfl

theorem Chain.congr (h : Chain next head xs) (hn : ∀ x ∈ xs, next' x = next x) :
    Chain next' head xs := by
  induction xs generalizing head with
  | nil => exact h
  | cons x xs ih =>
    refine ⟨h.1, ?_⟩
    rw [hn x List.mem_cons_self]
    exact ih h.2 fun y hy => hn y (List.mem_cons_of_mem _ hy)

theorem Chain.unique (h : Chain next head xs) (h' : Chain next head ys) : xs = ys := by
  induction xs generalizing head ys with
  | nil =>
    cases ys with
    | nil => rfl
    | cons y ys => rw [chain_nil.mp h] at h'; simp at h'
  | cons x xs ih =>
    cases ys with
    | nil => rw [chain_nil.mp h'] at h; simp at h
    | cons y ys =>
      obtain ⟨rfl, h⟩ := h
      obtain ⟨he, h'⟩ := h'
      obtain rfl : x = y := Option.some.inj he
      rw [ih h h']

theorem Chain.suffix (h : Chain next head (ys ++ x :: xs)) : Chain next (some x) (x :: xs) := by
  induction ys generalizing head with
  | nil => exact ⟨rfl, h.2⟩
  | cons y ys ih => exact ih h.2

theorem Chain.nodup (h : Chain next head xs) : xs.Nodup := by
  induction xs generalizing head with
  | nil => exact List.nodup_nil
  | cons x xs ih =>
    refine List.nodup_cons.mpr ⟨fun hx => ?_, ih h.2⟩
    obtain ⟨ys, zs, rfl⟩ := List.append_of_mem hx
    have hc : Chain next (some x) (x :: zs) := h.2.suffix
    have hd : Chain next (some x) (x :: (ys ++ x :: zs)) := ⟨rfl, h.2⟩
    have hlen := congrArg List.length (hc.unique hd)
    simp only [List.length_cons, List.length_append] at hlen
    omega

theorem Chain.bypass [DecidableEq α] {y : α} {zs : List α} (h : Chain next head (ys ++ y :: x :: zs)) :
    Chain (Function.update next y (next x)) head (ys ++ y :: zs) := by
  have hnd := h.nodup
  induction ys generalizing head with
  | nil =>
    obtain ⟨hhead, hy, hrest⟩ := h
    refine ⟨hhead, ?_⟩
    rw [Function.update_self]
    apply hrest.congr
    intro z hz
    apply Function.update_of_ne
    rintro rfl
    simp [hz] at hnd
  | cons w ys ih =>
    have hne : w ≠ y := by
      rintro rfl
      simp at hnd
    refine ⟨h.1, ?_⟩
    rw [Function.update_of_ne hne]
    exact ih h.2 (List.nodup_cons.mp hnd).2

theorem Chain.push [DecidableEq α] (h : Chain next head xs) (hx : x ∉ xs) :
    Chain (Function.update next x head) (some x) (x :: xs) := by
  refine ⟨rfl, ?_⟩
  rw [Function.update_self]
  apply h.congr
  intro y hy
  apply Function.update_of_ne
  rintro rfl
  exact hx hy

theorem Chain.snoc [DecidableEq α] {y : α} (h : Chain next head (xs ++ [y])) (hx : x ∉ xs ++ [y]) :
    Chain (Function.update (Function.update next y (some x)) x none) head (xs ++ [y] ++ [x]) := by
  have hnodup := h.nodup
  induction xs generalizing head with
  | nil =>
    have hyx : y ≠ x := fun he => hx (he ▸ List.mem_cons_self)
    refine ⟨h.1, ?_, ?_⟩
    · rw [Function.update_of_ne hyx, Function.update_self]
    · exact Function.update_self _ _ _
  | cons z zs ih =>
    rw [List.cons_append, List.nodup_cons] at hnodup
    have hzx : z ≠ x := fun he => hx (he ▸ List.mem_cons_self)
    have hzy : z ≠ y := fun he => hnodup.1 (he ▸ List.mem_append_right zs List.mem_cons_self)
    refine ⟨h.1, ?_⟩
    rw [Function.update_of_ne hzx, Function.update_of_ne hzy]
    exact ih h.2 (fun hm => hx (List.mem_cons_of_mem z hm)) hnodup.2

theorem Chain.next_mem {y : α} (h : Chain next head xs) (hx : x ∈ xs) (hy : next x = some y) : y ∈ xs := by
  induction xs generalizing head with
  | nil => exact absurd hx List.not_mem_nil
  | cons z zs ih =>
    rcases List.mem_cons.mp hx with rfl | hx
    · cases zs with
      | nil => rw [chain_nil.mp h.2] at hy; cases hy
      | cons w ws =>
        rw [(chain_cons.mp h.2).1] at hy
        obtain rfl := Option.some.inj hy
        exact List.mem_cons_of_mem _ List.mem_cons_self
    · exact List.mem_cons_of_mem z (ih h.2 hx)

theorem Chain.head_eq (h : Chain next head xs) : head = xs.head? := by
  cases xs with
  | nil => exact h
  | cons x xs => exact h.1

end Chains

section Links

variable {next prev next' prev' : α → Option α}
variable {before before' after after' head tail head' tail' : Option α}
variable {xs ys zs : List α} {x : α}

theorem Linked.congr (h : Linked next prev after before xs)
    (hn : ∀ x ∈ xs, next' x = next x) (hp : ∀ x ∈ xs, prev' x = prev x) :
    Linked next' prev' after before xs := by
  induction xs generalizing before with
  | nil => trivial
  | cons x xs ih =>
    obtain ⟨h1, h2, h3⟩ := h
    refine ⟨(hp x List.mem_cons_self).trans h1, (hn x List.mem_cons_self).trans h2, ?_⟩
    exact ih h3 (fun y hy => hn y (List.mem_cons_of_mem _ hy))
      (fun y hy => hp y (List.mem_cons_of_mem _ hy))

theorem linked_append : Linked next prev after before (ys ++ zs) ↔
    Linked next prev (zs.head?.or after) before ys ∧
      Linked next prev after (ys.getLast?.or before) zs := by
  induction ys generalizing before with
  | nil => simp [Linked]
  | cons y ys ih =>
    have hlast : ((y :: ys).getLast?).or before = ys.getLast?.or (some y) := by
      cases ys with
      | nil => rfl
      | cons z zs => simp [List.getLast?_cons_cons]; cases h : (z :: zs).getLast? <;> simp_all
    have hhead : ((ys ++ zs).head?).or after = ys.head?.or (zs.head?.or after) := by
      cases ys <;> simp
    rw [hlast]
    simp only [List.cons_append, Linked, ih, hhead]
    tauto

theorem Dll.empty : Dll next prev none none ([] : List α) :=
  ⟨List.nodup_nil, rfl, rfl, trivial⟩

theorem Dll.congr (h : Dll next prev head tail xs)
    (hn : ∀ x ∈ xs, next' x = next x) (hp : ∀ x ∈ xs, prev' x = prev x) :
    Dll next' prev' head tail xs :=
  ⟨h.nodup, h.head_eq, h.tail_eq, h.linked.congr hn hp⟩

theorem Dll.neighbours (h : Dll next prev head tail (ys ++ x :: zs)) :
    prev x = ys.getLast? ∧ next x = zs.head? := by
  have hl := (linked_append.mp h.linked).2
  simp only [Linked, Option.or_none] at hl
  exact ⟨hl.1, hl.2.1⟩

theorem Dll.prev_mem {y : α} (h : Dll next prev head tail xs) (hx : x ∈ xs)
    (hy : prev x = some y) : y ∈ xs := by
  obtain ⟨ys, zs, rfl⟩ := List.append_of_mem hx
  rw [h.neighbours.1] at hy
  exact List.mem_append_left _ (List.mem_of_getLast? hy)

theorem Dll.next_mem {y : α} (h : Dll next prev head tail xs) (hx : x ∈ xs)
    (hy : next x = some y) : y ∈ xs := by
  obtain ⟨ys, zs, rfl⟩ := List.append_of_mem hx
  rw [h.neighbours.2] at hy
  exact List.mem_append_right _ (List.mem_cons_of_mem _ (List.mem_of_head? hy))

theorem Dll.chain (h : Dll next prev head tail xs) : Chain next head xs := by
  have key : ∀ (xs : List α) (before : Option α),
      Linked next prev none before xs → Chain next xs.head? xs := by
    intro xs
    induction xs with
    | nil => intro _ _; rfl
    | cons x xs ih =>
      intro before hl
      refine ⟨rfl, ?_⟩
      rw [hl.2.1, Option.or_none]
      exact ih _ hl.2.2
  rw [h.head_eq]
  exact key xs none h.linked

theorem Linked.relink_after [DecidableEq α] (h : Linked next prev after before xs)
    (hnd : xs.Nodup) (hn : ∀ y ∈ xs, next' y = if xs.getLast? = some y then after' else next y)
    (hp : ∀ y ∈ xs, prev' y = prev y) : Linked next' prev' after' before xs := by
  rcases List.eq_nil_or_concat xs with rfl | ⟨ys, t, rfl⟩
  · trivial
  · simp only [List.concat_eq_append] at *
    rw [linked_append] at h ⊢
    have hlast : (ys ++ [t]).getLast? = some t := by simp
    refine ⟨h.1.congr ?_ (fun y hy => hp y (by simp [hy])), ?_, ?_, trivial⟩
    · intro y hy
      have hty : t ≠ y := fun he => (List.nodup_append.mp hnd).2.2 y hy t (by simp) he.symm
      rw [hn y (by simp [hy]), hlast, if_neg (fun he => hty (Option.some.inj he))]
    · rw [hp t (by simp)]
      exact h.2.1
    · rw [hn t (by simp), if_pos hlast]
      rfl

theorem Linked.relink_before [DecidableEq α] (h : Linked next prev after before xs)
    (hnd : xs.Nodup) (hn : ∀ y ∈ xs, next' y = next y)
    (hp : ∀ y ∈ xs, prev' y = if xs.head? = some y then before' else prev y) :
    Linked next' prev' after before' xs := by
  cases xs with
  | nil => trivial
  | cons z zs =>
    refine ⟨?_, ?_, ?_⟩
    · rw [hp z List.mem_cons_self, List.head?_cons, if_pos rfl]
    · rw [hn z List.mem_cons_self]
      exact h.2.1
    · refine h.2.2.congr (fun y hy => hn y (List.mem_cons_of_mem _ hy)) fun y hy => ?_
      have hzy : z ≠ y := fun he => (List.nodup_cons.mp hnd).1 (he ▸ hy)
      rw [hp y (List.mem_cons_of_mem _ hy), if_neg]
      exact fun he => hzy (Option.some.inj he)

theorem Dll.append [DecidableEq α] (h : Dll next prev head tail xs) (hx : x ∉ xs)
    (hnext : ∀ y ∈ xs, next' y = if tail = some y then some x else next y)
    (hprev : ∀ y ∈ xs, prev' y = prev y) (hnx : next' x = none) (hpx : prev' x = tail)
    (hhead : head' = head.or (some x)) : Dll next' prev' head' (some x) (xs ++ [x]) := by
  refine ⟨List.nodup_append.mpr ⟨h.nodup, List.nodup_singleton x, ?_⟩, ?_, ?_, ?_⟩
  · intro a ha b hb he
    exact hx (List.mem_singleton.mp hb ▸ he ▸ ha)
  · rw [hhead, h.head_eq]
    cases xs <;> simp
  · simp
  · rw [linked_append]
    refine ⟨h.linked.relink_after h.nodup ?_ hprev, ?_, ?_, trivial⟩
    · intro y hy
      rw [hnext y hy, h.tail_eq]
      rfl
    · rw [hpx, h.tail_eq, Option.or_none]
    · rw [hnx]
      rfl

theorem Dll.remove [DecidableEq α] (h : Dll next prev head tail xs) (hx : x ∈ xs)
    (hnext : ∀ y ∈ xs, y ≠ x → next' y = if prev x = some y then next x else next y)
    (hprev : ∀ y ∈ xs, y ≠ x → prev' y = if next x = some y then prev x else prev y)
    (hhead : head' = if prev x = none then next x else head)
    (htail : tail' = if next x = none then prev x else tail) :
    Dll next' prev' head' tail' (xs.erase x) := by
  obtain ⟨ys, zs, rfl⟩ := List.append_of_mem hx
  obtain ⟨hpx, hnx⟩ := h.neighbours
  obtain ⟨hndy, hndx, hdis⟩ := List.nodup_append.mp h.nodup
  obtain ⟨hxzs, hndz⟩ := List.nodup_cons.mp hndx
  have hxys : x ∉ ys := fun hm => hdis x hm x List.mem_cons_self rfl
  have hyz : ∀ y ∈ ys, y ∉ zs := fun y hy hz => hdis y hy y (List.mem_cons_of_mem _ hz) rfl
  rw [List.erase_append_right _ hxys, List.erase_cons_head]
  obtain ⟨hlys, -, -, hlzs⟩ := linked_append.mp h.linked
  refine ⟨?_, ?_, ?_, linked_append.mpr ⟨hlys.relink_after hndy ?_ ?_, ?_⟩⟩
  · exact List.nodup_append.mpr ⟨hndy, hndz, fun a ha b hb he => hyz a ha (he ▸ hb)⟩
  · rw [hhead, hpx, hnx, h.head_eq]
    cases ys <;> simp
  · rw [htail, hpx, hnx, h.tail_eq]
    cases zs <;> simp
  · intro y hy
    rw [hnext y (List.mem_append_left _ hy) (fun he => hxys (he ▸ hy)), hpx, hnx, Option.or_none]
  · intro y hy
    rw [hprev y (List.mem_append_left _ hy) (fun he => hxys (he ▸ hy)), hnx, if_neg]
    exact fun he => hyz y hy (List.mem_of_head? he)
  · have hmem : ∀ y ∈ zs, y ∈ ys ++ x :: zs := fun y hy =>
      List.mem_append_right _ (List.mem_cons_of_mem _ hy)
    refine hlzs.relink_before hndz ?_ ?_
    · intro y hy
      rw [hnext y (hmem y hy) (fun he => hxzs (he ▸ hy)), hpx, if_neg]
      exact fun he => hyz y (List.mem_of_getLast? he) hy
    · intro y hy
      rw [hprev y (hmem y hy) (fun he => hxzs (he ▸ hy)), hnx, hpx, Option.or_none]

end Links

structure Dlls {ι : Type*} (next prev : α → Option α) (head tail : ι → Option α)
    (L : ι → List α) : Prop where
  dll : ∀ l, Dll next prev (head l) (tail l) (L l)
  disjoint : ∀ l l' x, x ∈ L l → x ∈ L l' → l = l'

section Families

variable {ι : Type*} {next prev next' prev' : α → Option α}
variable {head tail head' tail' : ι → Option α} {L : ι → List α} {l : ι} {x : α}

theorem Dlls.tail_ne (h : Dlls next prev head tail L) (hx : x ∉ L l) : tail l ≠ some x := by
  intro ht
  exact hx (List.mem_of_getLast? ((h.dll l).tail_eq.symm.trans ht))

theorem Dlls.neighbours_ne (h : Dlls next prev head tail L) (hx : x ∈ L l) :
    prev x ≠ some x ∧ next x ≠ some x := by
  obtain ⟨ys, zs, he⟩ := List.append_of_mem hx
  have hd := h.dll l
  rw [he] at hd
  obtain ⟨hprev, hnext⟩ := hd.neighbours
  obtain ⟨-, hzs, hdis⟩ := List.nodup_append.mp hd.nodup
  constructor
  · intro hs
    exact hdis x (List.mem_of_getLast? (hprev.symm.trans hs)) x List.mem_cons_self rfl
  · intro hs
    exact (List.nodup_cons.mp hzs).1 (List.mem_of_head? (hnext.symm.trans hs))

variable [DecidableEq ι]

theorem Dlls.append [DecidableEq α] (h : Dlls next prev head tail L) (hx : ∀ l', x ∉ L l')
    (hnext : ∀ y, y ≠ x → next' y = if tail l = some y then some x else next y)
    (hprev : ∀ y, y ≠ x → prev' y = prev y) (hnx : next' x = none) (hpx : prev' x = tail l)
    (hhead : ∀ l', head' l' = if l' = l then (if tail l = none then some x else head l) else head l')
    (htail : ∀ l', tail' l' = if l' = l then some x else tail l') :
    Dlls next' prev' head' tail' (Function.update L l (L l ++ [x])) := by
  have hne : ∀ l', ∀ y ∈ L l', y ≠ x := fun l' y hy he => hx l' (he ▸ hy)
  constructor
  · intro l'
    rw [hhead, htail]
    by_cases hl : l' = l
    · subst hl
      rw [if_pos rfl, if_pos rfl, Function.update_self]
      refine (h.dll l').append (hx l') (fun y hy => hnext y (hne l' y hy))
        (fun y hy => hprev y (hne l' y hy)) hnx hpx ?_
      rw [(h.dll l').head_eq, (h.dll l').tail_eq]
      cases hL : L l' with
      | nil => rfl
      | cons a as => simp
    · rw [if_neg hl, if_neg hl, Function.update_of_ne hl]
      refine (h.dll l').congr (fun y hy => ?_) (fun y hy => hprev y (hne l' y hy))
      rw [hnext y (hne l' y hy), if_neg]
      intro ht
      exact hl (h.disjoint l' l y hy (List.mem_of_getLast? ((h.dll l).tail_eq.symm.trans ht)))
  · intro l₁ l₂ y h₁ h₂
    have hmem : ∀ l', y ∈ Function.update L l (L l ++ [x]) l' → (y = x ∧ l' = l) ∨ (y ≠ x ∧ y ∈ L l') := by
      intro l' hy
      by_cases hl : l' = l
      · subst hl
        rw [Function.update_self, List.mem_append, List.mem_singleton] at hy
        rcases hy with hy | hy
        · exact .inr ⟨hne l' y hy, hy⟩
        · exact .inl ⟨hy, rfl⟩
      · rw [Function.update_of_ne hl] at hy
        exact .inr ⟨hne l' y hy, hy⟩
    rcases hmem l₁ h₁ with ⟨he, rfl⟩ | ⟨he, hy⟩
    · rcases hmem l₂ h₂ with ⟨-, rfl⟩ | ⟨hne', -⟩
      · rfl
      · exact absurd he hne'
    · rcases hmem l₂ h₂ with ⟨he', -⟩ | ⟨-, hy'⟩
      · exact absurd he' he
      · exact h.disjoint l₁ l₂ y hy hy'

theorem Dlls.remove [DecidableEq α] (h : Dlls next prev head tail L) (hx : x ∈ L l)
    (hnext : ∀ y, y ≠ x → next' y = if prev x = some y then next x else next y)
    (hprev : ∀ y, y ≠ x → prev' y = if next x = some y then prev x else prev y)
    (hhead : ∀ l', head' l' = if l' = l then (if prev x = none then next x else head l) else head l')
    (htail : ∀ l', tail' l' = if l' = l then (if next x = none then prev x else tail l) else tail l') :
    Dlls next' prev' head' tail' (Function.update L l ((L l).erase x)) := by
  constructor
  · intro l'
    rw [hhead, htail]
    by_cases hl : l' = l
    · subst hl
      rw [if_pos rfl, if_pos rfl, Function.update_self]
      exact (h.dll l').remove hx (fun y _ hy => hnext y hy) (fun y _ hy => hprev y hy) rfl rfl
    · rw [if_neg hl, if_neg hl, Function.update_of_ne hl]
      have hout : ∀ y ∈ L l', y ∉ L l := fun y hy hy' => hl (h.disjoint l' l y hy hy')
      refine (h.dll l').congr (fun y hy => ?_) (fun y hy => ?_)
      · rw [hnext y (fun he => hout y hy (he ▸ hx)), if_neg]
        exact fun he => hout y hy ((h.dll l).prev_mem hx he)
      · rw [hprev y (fun he => hout y hy (he ▸ hx)), if_neg]
        exact fun he => hout y hy ((h.dll l).next_mem hx he)
  · intro l₁ l₂ y h₁ h₂
    have hsub : ∀ l', y ∈ Function.update L l ((L l).erase x) l' → y ∈ L l' := by
      intro l' hy
      by_cases hl : l' = l
      · subst hl
        rw [Function.update_self] at hy
        exact List.mem_of_mem_erase hy
      · rwa [Function.update_of_ne hl] at hy
    exact h.disjoint l₁ l₂ y (hsub l₁ h₁) (hsub l₂ h₂)

theorem Dlls.mem_remove [DecidableEq α] (h : Dlls next prev head tail L) (hx : x ∈ L l) {l' : ι} {y : α} :
    y ∈ Function.update L l ((L l).erase x) l' ↔ y ∈ L l' ∧ y ≠ x := by
  by_cases hl : l' = l
  · subst hl
    rw [Function.update_self, (h.dll l').nodup.mem_erase_iff]
    tauto
  · rw [Function.update_of_ne hl]
    refine ⟨fun hy => ⟨hy, ?_⟩, fun hy => hy.1⟩
    rintro rfl
    exact hl (h.disjoint l' l y hy hx)

theorem mem_append_iff {l' : ι} {y : α} :
    y ∈ Function.update L l (L l ++ [x]) l' ↔ y ∈ L l' ∨ (l' = l ∧ y = x) := by
  by_cases hl : l' = l
  · subst hl
    simp
  · simp [hl]

end Families

end Agatha.Library.LinkedList
