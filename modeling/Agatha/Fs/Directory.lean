import Agatha.Fs.Checkpoint
import Agatha.Library.LinkedList
import Agatha.Library.Probing

namespace Agatha.Fs

open Library Library.LinkedList Library.Probing

def lfsHash (lfs : Lfs) (name : Name) : ℕ :=
  (List.ofFn fun i => (name i).toNat).sum % lfs.nInodes

/-- The loop of `lfs_find_inode`, which started at `h`, at `i`. -/
def findFrom (lfs : Lfs) (name : Name) (creating : Bool) (h : ℕ) : ℕ → ℕ → Option (Option ℕ)
  | 0, _ => none
  | fuel + 1, i =>
    let inode := lfs.inodes i
    let i' := (i + 1) % lfs.nInodes
    let go := if i' = h then some none else findFrom lfs name creating h fuel i'
    if creating then if inode.free ∨ inode.created = false then some (some i) else go
    else if inode.free then some none
    else if inode.created ∧ inode.name = name then some (some i)
    else go

def lfsFindInode (lfs : Lfs) (name : Name) (creating : Bool) : Option (Option ℕ) :=
  findFrom lfs name creating (lfsHash lfs name) lfs.nInodes (lfsHash lfs name)

def Lfs.link (lfs : Lfs) : Option ℕ → Option ℕ
  | none => lfs.pending
  | some i => (lfs.inodes i).wnext

def Lfs.setLink (lfs : Lfs) (o x : Option ℕ) : Lfs :=
  match o with
  | none => { lfs with pending := x }
  | some i => lfs.setInode i { lfs.inodes i with wnext := x }

def removePendingFrom (i : ℕ) : ℕ → Option ℕ → Lfs → Option Lfs
  | 0, _, _ => none
  | fuel + 1, o, lfs =>
    match lfs.link o with
    | none => some lfs
    | some p =>
      if p = i then some (lfs.setLink o (lfs.inodes i).wnext)
      else if lfs.nInodes ≤ p then none
      else removePendingFrom i fuel (some p) lfs

def lfsRemovePending (fuel : ℕ) (lfs : Lfs) (i : ℕ) : Option Lfs := removePendingFrom i fuel none lfs

def lfsAddPending (fuel : ℕ) (lfs : Lfs) (i : ℕ) : Option Lfs :=
  match lfsRemovePending fuel lfs i with
  | none => none
  | some lfs =>
    let lfs := lfs.setInode i { lfs.inodes i with wnext := lfs.pending }
    some { lfs with pending := some i }

def lfsCreate (fuel : ℕ) (name : Name) (lfs : Lfs) : Option (ℤ × Lfs) :=
  match lfsFindInode lfs name false with
  | none => none
  | some (some _) => some (ERR, lfs)
  | some none =>
    match lfsFindInode lfs name true with
    | none => none
    | some none => some (ERR, lfs)
    | some (some i) =>
      let inode := { lfs.inodes i with
        created := true, free := false, name := name, blkCnt := 0, lenReal := 0, blks := .nil }
      (lfsAddPending fuel (lfs.setInode i inode) i).map fun lfs => (OK, lfs)

def lfsRm (fuel : ℕ) (name : Name) (lfs : Lfs) : Option (ℤ × Lfs) :=
  match lfsFindInode lfs name false with
  | none => none
  | some none => some (ERR, lfs)
  | some (some i) =>
    if (lfs.inodes i).blks.ends = false then none
    else
      let inode := { lfs.inodes i with blks := .nil, blkCnt := 0, created := false }
      (lfsAddPending fuel (lfs.setInode i inode) i).map fun lfs => (OK, lfs)

def Inode.slot (x : Inode) : Slot Name :=
  if x.free then .free else if x.created then .used x.name else .dead

def Lfs.slots (lfs : Lfs) (i : ℕ) : Slot Name := (lfs.inodes i).slot

def Lfs.relink (lfs : Lfs) (pending : Option ℕ) (wnext : ℕ → Option ℕ) : Lfs :=
  { lfs with pending := pending, inodes := fun i => { lfs.inodes i with wnext := wnext i } }

def Lfs.wnext (lfs : Lfs) (i : ℕ) : Option ℕ := (lfs.inodes i).wnext

section Finding

variable {lfs lfs' : Lfs} {name : Name} {i h fuel : ℕ}

theorem lfsHash_lt (hn : 0 < lfs.nInodes) : lfsHash lfs name < lfs.nInodes := Nat.mod_lt _ hn

theorem Inode.slot_eq_free {x : Inode} : x.slot = .free ↔ x.free = true := by
  unfold slot
  split_ifs with hf hc
  · simp [hf]
  · simp [hf]
  · simp [hf]

theorem Inode.slot_eq_used {x : Inode} :
    x.slot = .used name ↔ x.free = false ∧ x.created = true ∧ x.name = name := by
  unfold slot
  split_ifs with hf hc
  · simp [hf]
  · simp [hf, hc]
  · simp [hf, hc]

theorem Inode.slot_vacant {x : Inode} : x.slot.vacant = true ↔ x.free ∨ x.created = false := by
  unfold slot
  split_ifs with hf hc
  · simp [hf, Slot.vacant]
  · simp [hf, hc, Slot.vacant]
  · simp [hf, hc, Slot.vacant]

def remaining (n h j : ℕ) : List ℕ := (List.range' j (n - j)).map (probe n h)

theorem remaining_cons {n j : ℕ} (hj : j < n) :
    remaining n h j = probe n h j :: remaining n h (j + 1) := by
  unfold remaining
  obtain ⟨k, hk⟩ : ∃ k, n - j = k + 1 := ⟨n - j - 1, by omega⟩
  rw [hk, List.range'_succ, List.map_cons, show n - (j + 1) = k by omega]

theorem remaining_self {n : ℕ} : remaining n h n = [] := by
  unfold remaining
  rw [Nat.sub_self]
  rfl

theorem probe_succ {n j : ℕ} : (probe n h j + 1) % n = probe n h (j + 1) := by
  unfold probe
  rw [Nat.mod_add_mod, Nat.add_assoc]

theorem probe_succ_eq {n j : ℕ} (hh : h < n) (hj : j < n) : probe n h (j + 1) = h ↔ j + 1 = n := by
  constructor
  · intro he
    by_contra hne
    have hrank := rank_probe hh (show j + 1 < n by omega)
    have hzero := rank_probe hh (show 0 < n by omega)
    have hstart : probe n h 0 = h := by
      unfold probe
      rw [Nat.add_zero, Nat.mod_eq_of_lt hh]
    rw [hstart] at hzero
    rw [he] at hrank
    omega
  · intro he
    unfold probe
    rw [he, Nat.add_mod_right, Nat.mod_eq_of_lt hh]

def Lfs.outcome (lfs : Lfs) (name : Name) (creating : Bool) (l : List ℕ) : Option ℕ :=
  if creating then l.find? fun s => (lfs.slots s).vacant
  else
    match l.find? fun s => lfs.slots s = .free ∨ lfs.slots s = .used name with
    | none => none
    | some s => if lfs.slots s = .free then none else some s

theorem outcome_nil {creating : Bool} : lfs.outcome name creating [] = none := by
  cases creating with
  | false => rfl
  | true => rfl

theorem outcome_cons {creating : Bool} {l : List ℕ} : lfs.outcome name creating (i :: l) =
    if creating then
      if (lfs.inodes i).free ∨ (lfs.inodes i).created = false then some i
      else lfs.outcome name creating l
    else if (lfs.inodes i).free then none
    else if (lfs.inodes i).created ∧ (lfs.inodes i).name = name then some i
    else lfs.outcome name creating l := by
  unfold Lfs.outcome
  cases creating with
  | true =>
    rw [if_pos rfl, if_pos rfl, if_pos rfl, List.find?_cons]
    split
    · rename_i hv
      rw [if_pos (Inode.slot_vacant.mp hv)]
    · rename_i hv
      rw [if_neg fun hc => Bool.false_ne_true (hv.symm.trans (Inode.slot_vacant.mpr hc))]
  | false =>
    have hfree : lfs.slots i = .free ↔ (lfs.inodes i).free = true := Inode.slot_eq_free
    have hused : lfs.slots i = .used name ↔ _ := Inode.slot_eq_used
    simp only [Bool.false_eq_true, if_false, List.find?_cons, hfree, hused]
    cases hf : (lfs.inodes i).free with
    | true => simp [hfree, hf]
    | false =>
      by_cases hn : (lfs.inodes i).created ∧ (lfs.inodes i).name = name <;> simp [hn, hfree, hf]

theorem findFrom_eq {creating : Bool} {j : ℕ} (hh : h < lfs.nInodes) (hj : j < lfs.nInodes) :
    findFrom lfs name creating h (lfs.nInodes - j) (probe lfs.nInodes h j) =
      some (lfs.outcome name creating (remaining lfs.nInodes h j)) := by
  obtain ⟨k, hk⟩ : ∃ k, lfs.nInodes - j = k + 1 := ⟨lfs.nInodes - j - 1, by omega⟩
  induction k generalizing j with
  | zero =>
    have hlast : j + 1 = lfs.nInodes := by omega
    rw [hk, remaining_cons hj, hlast, remaining_self, outcome_cons, outcome_nil]
    simp only [findFrom, probe_succ, (probe_succ_eq hh hj).mpr hlast, if_true]
    split_ifs <;> rfl
  | succ k ih =>
    have hback : probe lfs.nInodes h (j + 1) ≠ h := fun he => by
      have := (probe_succ_eq hh hj).mp he
      omega
    have hgo := ih (j := j + 1) (by omega) (by omega)
    rw [show lfs.nInodes - (j + 1) = k + 1 by omega] at hgo
    rw [hk, remaining_cons hj, outcome_cons]
    rw [findFrom]
    simp only [probe_succ, hback, if_false, hgo]
    split_ifs <;> rfl

theorem lfsFindInode_eq {creating : Bool} (hn : 0 < lfs.nInodes) :
    lfsFindInode lfs name creating =
      some (if creating then vacancy (lfsHash lfs) lfs.nInodes lfs.slots name
        else lookup (lfsHash lfs) lfs.nInodes lfs.slots name) := by
  have hh : lfsHash lfs name < lfs.nInodes := lfsHash_lt hn
  have hstart : probe lfs.nInodes (lfsHash lfs name) 0 = lfsHash lfs name := by
    unfold probe
    rw [Nat.add_zero, Nat.mod_eq_of_lt hh]
  have hall : remaining lfs.nInodes (lfsHash lfs name) 0 =
      (List.range lfs.nInodes).map (probe lfs.nInodes (lfsHash lfs name)) := by
    unfold remaining
    rw [Nat.sub_zero, List.range_eq_range']
  have hfind := @findFrom_eq lfs name _ creating 0 hh hn
  rw [hstart, hall, Nat.sub_zero] at hfind
  unfold lfsFindInode
  rw [hfind]
  cases creating with
  | true => rfl
  | false => rfl

end Finding

section Pending

variable {lfs lfs' : Lfs} {i fuel : ℕ} {o x : Option ℕ} {l ys zs : List ℕ}

@[simp] theorem relink_pending {f : ℕ → Option ℕ} : (lfs.relink x f).pending = x := rfl
@[simp] theorem relink_wnext {f : ℕ → Option ℕ} : (lfs.relink x f).wnext = f := rfl
@[simp] theorem relink_slots {f : ℕ → Option ℕ} : (lfs.relink x f).slots = lfs.slots := rfl
@[simp] theorem relink_nInodes {f : ℕ → Option ℕ} : (lfs.relink x f).nInodes = lfs.nInodes := rfl
@[simp] theorem relink_relink {y : Option ℕ} {f g : ℕ → Option ℕ} :
    (lfs.relink x f).relink y g = lfs.relink y g := rfl

theorem relink_self (lfs : Lfs) : lfs.relink lfs.pending lfs.wnext = lfs := rfl

theorem setLink_none : lfs.setLink none x = lfs.relink x lfs.wnext := rfl

theorem setInode_wnext : lfs.setInode i { lfs.inodes i with wnext := x } =
    lfs.relink lfs.pending (Function.update lfs.wnext i x) := by
  unfold Lfs.setInode Lfs.relink
  congr
  funext j
  by_cases hj : j = i
  · subst hj
    rw [Function.update_self, Function.update_self]
  · rw [Function.update_of_ne hj, Function.update_of_ne hj]
    rfl

theorem setLink_relink : ∃ p f, lfs.setLink o x = lfs.relink p f := by
  cases o with
  | none => exact ⟨_, _, setLink_none⟩
  | some i => exact ⟨_, _, setInode_wnext⟩

theorem removePendingFrom_relink (h : removePendingFrom i fuel o lfs = some lfs') :
    ∃ p f, lfs' = lfs.relink p f := by
  induction fuel generalizing o with
  | zero => cases h
  | succ fuel ih =>
    unfold removePendingFrom at h
    split at h
    · cases h
      exact ⟨_, _, (relink_self _).symm⟩
    · split_ifs at h
      · cases h
        exact setLink_relink
      · exact ih h

theorem lfsAddPending_relink (h : lfsAddPending fuel lfs i = some lfs') :
    ∃ p f, lfs' = lfs.relink p f := by
  unfold lfsAddPending at h
  split at h
  · cases h
  · rename_i lfs₁ hrm
    obtain ⟨p, f, rfl⟩ := removePendingFrom_relink hrm
    cases h
    rw [setInode_wnext]
    exact ⟨_, _, rfl⟩

theorem removePendingFrom_absent (hc : Chain lfs.wnext (lfs.link o) l) (hi : i ∉ l)
    (hl : ∀ x ∈ l, x < lfs.nInodes) (hf : l.length < fuel) :
    removePendingFrom i fuel o lfs = some lfs := by
  induction l generalizing o fuel with
  | nil =>
    obtain ⟨fuel, rfl⟩ : ∃ k, fuel = k + 1 := ⟨fuel - 1, by omega⟩
    unfold removePendingFrom
    rw [chain_nil.mp hc]
  | cons y l ih =>
    obtain ⟨fuel, rfl⟩ : ∃ k, fuel = k + 1 := ⟨fuel - 1, by omega⟩
    rw [List.length_cons] at hf
    have hy := hl y List.mem_cons_self
    unfold removePendingFrom
    rw [hc.1]
    dsimp only
    rw [if_neg fun he : y = i => hi (he ▸ List.mem_cons_self), if_neg (by omega)]
    exact ih hc.2 (fun hm => hi (List.mem_cons_of_mem _ hm))
      (fun x hx => hl x (List.mem_cons_of_mem _ hx)) (by omega)

theorem removePendingFrom_present (hc : Chain lfs.wnext (lfs.link o) (ys ++ i :: zs)) (hi : i ∉ ys)
    (hl : ∀ x ∈ ys, x < lfs.nInodes) (hf : ys.length < fuel) :
    removePendingFrom i fuel o lfs = some (lfs.setLink (ys.getLast?.or o) (lfs.wnext i)) := by
  induction ys generalizing o fuel with
  | nil =>
    obtain ⟨fuel, rfl⟩ : ∃ k, fuel = k + 1 := ⟨fuel - 1, by omega⟩
    unfold removePendingFrom
    rw [hc.1]
    dsimp only
    rw [if_pos rfl]
    rfl
  | cons y ys ih =>
    obtain ⟨fuel, rfl⟩ : ∃ k, fuel = k + 1 := ⟨fuel - 1, by omega⟩
    rw [List.length_cons] at hf
    have hy := hl y List.mem_cons_self
    have hlast : ((y :: ys).getLast?).or o = ys.getLast?.or (some y) := by
      rw [List.getLast?_cons]
      cases ys.getLast? with
      | none => rfl
      | some z => rfl
    unfold removePendingFrom
    rw [hc.1]
    dsimp only
    rw [if_neg fun he : y = i => hi (he ▸ List.mem_cons_self), if_neg (by omega), hlast]
    exact ih hc.2 (fun hm => hi (List.mem_cons_of_mem _ hm))
      (fun x hx => hl x (List.mem_cons_of_mem _ hx)) (by omega)

theorem lfsRemovePending_eq (hc : Chain lfs.wnext lfs.pending l) (hl : ∀ x ∈ l, x < lfs.nInodes)
    (hf : l.length < fuel) : ∃ p f, lfsRemovePending fuel lfs i = some (lfs.relink p f) ∧
      Chain f p (l.erase i) := by
  unfold lfsRemovePending
  by_cases hi : i ∈ l
  · obtain ⟨ys, zs, hys, rfl, herase⟩ := List.exists_erase_eq hi
    have hlen : ys.length < fuel := by
      rw [List.length_append] at hf
      omega
    rw [removePendingFrom_present hc hys (fun x hx => hl x (List.mem_append_left _ hx)) hlen, herase]
    rcases List.eq_nil_or_concat ys with rfl | ⟨ys, y, rfl⟩
    · exact ⟨_, _, congrArg some setLink_none, hc.2⟩
    · rw [List.concat_eq_append] at hc ⊢
      rw [List.getLast?_concat]
      refine ⟨_, _, congrArg some setInode_wnext, ?_⟩
      rw [List.append_assoc] at hc ⊢
      exact hc.bypass
  · rw [removePendingFrom_absent hc hi hl hf, List.erase_of_not_mem hi]
    exact ⟨_, _, congrArg some (relink_self _).symm, hc⟩

theorem lfsAddPending_eq (hc : Chain lfs.wnext lfs.pending l) (hl : ∀ x ∈ l, x < lfs.nInodes)
    (hf : l.length < fuel) : ∃ p f, lfsAddPending fuel lfs i = some (lfs.relink p f) ∧
      Chain f p (i :: l.erase i) := by
  obtain ⟨p, f, hrm, hc'⟩ := lfsRemovePending_eq hc hl hf
  unfold lfsAddPending
  rw [hrm]
  dsimp only
  rw [setInode_wnext]
  exact ⟨_, _, rfl, hc'.push (hc.nodup.not_mem_erase)⟩

end Pending

end Agatha.Fs
