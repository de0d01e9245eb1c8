import Agatha.User.KernelObjectSteps
import Agatha.Sys.ObjectRuns

namespace Agatha.User.KernelObjects

open Sys Kernel Library Library.Areas Library.Bytes

section Allocs

variable {boot : List (ℕ × ℕ)} {u l i m cid d : ℕ} {w w' w₁ : World} {e : Env} {type r : ℤ}

theorem roundUp_typeSize (ht : kobjTypeSize type ≠ 0) : ∃ t : ℕ, type = t ∧ (0 < t ∧ t < objTypeN) ∧
    ∃ d, 5 ≤ d ∧ d ≤ 12 ∧ roundUp (kobjTypeSize type) 32 1 = 2 ^ d ∧ objSize t 1 ≤ 2 ^ d ∧
      (t = objCaplist → d = 12) := by
  unfold kobjTypeSize at ht
  split at ht
  · exact ⟨1, rfl, by decide, 5, by decide, by decide, by decide, by decide, by decide⟩
  · exact ⟨2, rfl, by decide, 12, by decide, by decide, by decide, by decide, by decide⟩
  · exact ⟨3, rfl, by decide, 11, by decide, by decide, by decide, by decide, by decide⟩
  · exact ⟨4, rfl, by decide, 5, by decide, by decide, by decide, by decide, by decide⟩
  · exact ⟨5, rfl, by decide, 5, by decide, by decide, by decide, by decide, by decide⟩
  · exact absurd rfl ht

theorem foldl_betterKobj {l : List (Kobj × ℕ)} {best : Option (Kobj × ℕ)} {x : Kobj × ℕ}
    (h : l.foldl (betterKobj m) best = some x) :
    (x ∈ l ∧ x.1.type = objUntyped ∧ m ≤ x.1.len) ∨ best = some x := by
  induction l generalizing best with
  | nil => exact .inr h
  | cons y l ih =>
    obtain ⟨hm, hx⟩ | hbest := ih h
    · exact .inl ⟨List.mem_cons_of_mem y hm, hx⟩
    · unfold betterKobj at hbest
      split_ifs at hbest with hy
      · cases hbest
        exact .inl ⟨List.mem_cons_self, hy.1, hy.2.2.1⟩
      · exact .inr hbest

theorem findKobj_some (h : findKobj m w.kobjs = some i) :
    ∃ f, w.kobjs[i]? = some f ∧ f.type = objUntyped ∧ m ≤ f.len := by
  obtain ⟨x, hx, rfl⟩ := Option.map_eq_some_iff.mp h
  obtain ⟨hm, ht, hl⟩ | hn := foldl_betterKobj hx
  · exact ⟨x.1, List.mem_zipIdx_iff_getElem?.mp hm, ht, hl⟩
  · cases hn

theorem Inv.claim (h : Inv boot u l w) (hf : Found w i m cid) :
    Inv boot u l (claim i w) ∧ Found (KernelObjects.claim i w) i m cid ∧ Grown w (KernelObjects.claim i w) := by
  have hf' := hf
  obtain ⟨f, hf, ht, hl, hc⟩ := hf
  have hm := h.mirror f (List.mem_of_getElem? hf)
  refine ⟨?_, ⟨{ f with claimed := true }, ?_, ht, hl, hc⟩, fun r hr ht => grown_modify hf' hr ht⟩
  · exact h.change (g := fun f => { f with claimed := true }) hf (fun _ => rfl) rfl rfl h.process
      (fun _ _ _ => .refl) (fun _ _ _ => .refl) hm.names hm.size rfl
  · show (w.kobjs.modify i _)[i]? = _
    rw [List.getElem?_modify_eq, hf]
    rfl

theorem retype_runs {t : ℕ} {f : Kobj} {ok : Bool} (ht : 0 < t ∧ t < objTypeN) (hf : w.kobjs[i]? = some f)
    (hsize : objSize t 1 ≤ 2 ^ d) (hpage : t = objCaplist → d = 12)
    (h : w.call (sysObjRetype e.systick u (f.cid : ℤ) (t : ℤ) 1 w.kernel.1) = (ok, w₁))
    (hw : ok = true → w' = { w₁ with kobjs := w₁.kobjs.modify i fun f => { f with type := t } })
    (hw' : ok = false → w' = w₁) :
    Runs boot u l w w' (Inv boot u l w ∧ Found w i (2 ^ d) cid)
      (Inv boot u l w' ∧ ok = true ∧ Grown w w' ∧ f.cid = cid ∧ ∃ g ∈ w'.kobjs, g.cid = cid ∧ g.type = t) := by
  obtain ⟨x, hlog, hkobjs, hcaps, hcall⟩ := call_cases w
    (sysObjRetype e.systick u (f.cid : ℤ) (t : ℤ) 1 w.kernel.1)
  rw [h] at hlog hkobjs hcaps hcall
  dsimp only at hlog hkobjs hcaps hcall
  have hlog' : w'.log = w.log ++ [.call x] := by
    cases ok with
    | false => rw [hw' rfl, hlog]
    | true => rw [hw rfl, hlog]
  refine .event hlog' ?_
  rintro - ⟨hinv, hfound⟩
  have hfound' := hfound
  obtain ⟨f', hf', hft, hlen, rfl⟩ := hfound
  cases hf.symm.trans hf'
  have hmir := hinv.mirror f (List.mem_of_getElem? hf)
  have hnames : Names boot l f.slot w.kernel objUntyped (2 ^ d) := hft ▸ hlen ▸ hmir.names
  obtain ⟨ev, k', hrun, hproc, hkeep, hnames', hobj⟩ := sysObjRetype_effect e.systick hinv.process
    (slot_lt hmir.small) hnames ht hsize (fun hc => by
      rw [hpage hc]
      rfl)
  rw [← hmir.cid] at hrun
  obtain ⟨rfl, rfl, hkernel⟩ := hcall ev k' hrun
  have hw := hw rfl
  have hkobjs' : w'.kobjs = w.kobjs.modify i fun f => { f with type := t } := by
    rw [hw, hkobjs]
  have hkernel' : w'.kernel = (k', w.kernel.2 ++ ev) := by
    rw [hw, hkernel]
  refine ⟨rfl, ?_, rfl, fun r hr ht => hkobjs' ▸ grown_modify hfound' hr ht, rfl, { f with type := t }, ?_, rfl, rfl⟩
  · refine hinv.change (g := fun f => { f with type := t }) hf (fun _ => rfl) hkobjs' ?_ (hkernel' ▸ hproc)
      (fun n hn hc => ?_) (fun r hr hrf => ?_) ?_ (fun h0 => ?_) ?_
    · rw [hw, hcaps]
    · rw [hkernel']
      exact hkeep n (slot_lt hn) (slot_ne hmir.used hc).symm
    · rw [hkernel']
      exact hkeep _ (slot_lt (hinv.mirror r hr).small) hrf
    · rw [hkernel']
      show Names boot l f.slot (k', w.kernel.2 ++ ev) t f.len
      rw [hlen]
      exact hnames'
    · have h0' : t = 0 := h0
      omega
    · rw [hkernel']
      exact hobj
  · rw [hkobjs']
    apply List.mem_of_getElem? (i := i)
    rw [List.getElem?_modify_eq, hf]
    rfl

theorem kobjTake_runs {t : ℕ} (ht : 0 < t ∧ t < objTypeN) (hd : 5 ≤ d) (hd' : d ≤ 12) (hsize : objSize t 1 ≤ 2 ^ d)
    (hpage : t = objCaplist → d = 12) (h : kobjTake e u (t : ℤ) 1 (2 ^ d) i w = .ok (r, w')) : Runs boot u l w w'
    (Inv boot u l w ∧ ∃ a, Found w i (2 ^ a) cid ∧ d ≤ a ∧ a ≤ 12)
    (Inv boot u l w' ∧ Grown w w' ∧ r = cid ∧ ∃ g ∈ w'.kobjs, g.cid = cid ∧ g.type = t) := by
  unfold kobjTake at h
  cases hsplits : splits e u (2 ^ d) i 32 (claim i w) with
  | error w₀ =>
    rw [hsplits] at h
    cases h
  | ok x =>
  obtain ⟨ok, w₁⟩ := x
  rw [hsplits] at h
  have hclaim : Runs boot u l w (claim i w) (Inv boot u l w ∧ ∃ a, Found w i (2 ^ a) cid ∧ d ≤ a ∧ a ≤ 12)
      (Grown w (claim i w) ∧ Inv boot u l (claim i w) ∧ ∃ a, Found (claim i w) i (2 ^ a) cid ∧ d ≤ a ∧ a ≤ d + 32) := by
    refine .silent rfl ?_
    rintro ⟨hinv, a, hf, hda, ha⟩
    obtain ⟨hinv', hf', hgrown⟩ := hinv.claim hf
    exact ⟨hgrown, hinv', a, hf', hda, by omega⟩
  have hcut : Runs boot u l w w₁ (Inv boot u l w ∧ ∃ a, Found w i (2 ^ a) cid ∧ d ≤ a ∧ a ≤ 12)
      (ok = true ∧ Grown w w₁ ∧ Inv boot u l w₁ ∧ Found w₁ i (2 ^ d) cid) := by
    apply hclaim.trans
    apply (splits_runs hd hsplits).imp And.right
    rintro ⟨hgrown, -⟩ ⟨hinv, hok, hf, hgrown'⟩
    exact ⟨hok, hgrown.trans hgrown', hinv, hf⟩
  cases ok with
  | false =>
    cases h
    apply hcut.imp id
    rintro - ⟨hok, -⟩
    cases hok
  | true =>
  dsimp only at h
  cases hf : w₁.kobjs[i]? with
  | none =>
    rw [hf] at h
    cases h
    apply hcut.imp id
    rintro - ⟨-, -, -, f, hf', -⟩
    rw [hf] at hf'
    cases hf'
  | some f =>
    rw [hf] at h
    obtain ⟨ok, w₂, hcall⟩ : ∃ ok w₂, w₁.call (sysObjRetype e.systick u (f.cid : ℤ) (t : ℤ) 1 w₁.kernel.1) =
      (ok, w₂) := ⟨_, _, rfl⟩
    dsimp only at h
    rw [hcall] at h
    have hretype : Runs boot u l w₁ w' (Inv boot u l w₁ ∧ Found w₁ i (2 ^ d) cid)
        (Inv boot u l w' ∧ ok = true ∧ Grown w₁ w' ∧ f.cid = cid ∧ ∃ g ∈ w'.kobjs, g.cid = cid ∧ g.type = t) :=
      retype_runs ht hf hsize hpage hcall (fun hok => by rw [hok] at h; cases h; rfl)
        (fun hok => by rw [hok] at h; cases h; rfl)
    apply hcut.trans
    apply hretype.imp (fun hp => hp.2.2)
    rintro ⟨-, hgrown, -⟩ ⟨hinv, rfl, hgrown', hcid, hg⟩
    cases h
    exact ⟨hinv, hgrown.trans hgrown', by rw [hcid], hg⟩

theorem Inv.found_ne (h : Inv boot u l w) (hf : Found w i m cid) {g : Kobj} (hg : g ∈ w.kobjs)
    (ht : g.type ≠ objUntyped) : g.cid ≠ cid := by
  obtain ⟨j, hij, hj⟩ := hf.other hg ht
  obtain ⟨f, hf, hft, -, rfl⟩ := hf
  have hslot := h.slot_ne hj hf hij
  unfold Kobj.slot at hslot
  intro he
  rw [he] at hslot
  exact hslot rfl

def Fits (w w' : World) (type r : ℤ) : Prop :=
  if kobjTypeSize type = 0 then r = ERR
  else ∃ g ∈ w'.kobjs, (g.cid : ℤ) = r ∧ (g.type : ℤ) = type ∧
    ∀ g' ∈ w.kobjs, g'.type ≠ objUntyped → (g'.cid : ℤ) ≠ r

theorem kobjAlloc_runs (h : kobjAlloc e u type 1 w = .ok (r, w')) : Runs boot u l w w' (Inv boot u l w)
    (Inv boot u l w' ∧ Grown w w' ∧ Fits w w' type r) := by
  unfold kobjAlloc at h
  by_cases hsize : kobjTypeSize type = 0
  · dsimp only at h
    rw [if_pos hsize] at h
    cases h
    refine .silent rfl fun hinv => ⟨hinv, fun g hg _ => hg, ?_⟩
    unfold Fits
    rw [if_pos hsize]
  obtain ⟨t, rfl, ht, d, hd, hd', hround, hobj, hpage⟩ := roundUp_typeSize hsize
  dsimp only at h
  rw [if_neg hsize, hround] at h
  -- a record that is found is cut and taken
  have htake (i : ℕ) (w₁ : World) (h : kobjTake e u (t : ℤ) 1 (2 ^ d) i w₁ = .ok (r, w')) : Runs boot u l w₁ w'
      (Inv boot u l w₁ ∧ ∃ cid a, Found w₁ i (2 ^ a) cid ∧ d ≤ a ∧ a ≤ 12)
      (Inv boot u l w' ∧ Grown w₁ w' ∧ Fits w₁ w' t r) := by
    have hone (cid : ℕ) : Runs boot u l w₁ w' (Inv boot u l w₁ ∧ ∃ a, Found w₁ i (2 ^ a) cid ∧ d ≤ a ∧ a ≤ 12)
        (Inv boot u l w' ∧ Grown w₁ w' ∧ Fits w₁ w' t r) := by
      apply (kobjTake_runs ht hd hd' hobj hpage h).imp id
      rintro ⟨hinv, a, hf, -, -⟩ ⟨hinv', hgrown, rfl, g, hg, hcid, hgt⟩
      refine ⟨hinv', hgrown, ?_⟩
      unfold Fits
      rw [if_neg hsize]
      refine ⟨g, hg, by rw [hcid], by rw [hgt], fun g' hg' ht' he => ?_⟩
      exact hinv.found_ne hf hg' ht' (by exact_mod_cast he)
    apply (Runs.exists hone).imp
    · rintro ⟨hinv, cid, hf⟩
      exact ⟨cid, hinv, hf⟩
    · rintro - ⟨-, hq⟩
      exact hq
  cases hfind : findKobj (2 ^ d) w.kobjs with
  | some i =>
    rw [hfind] at h
    obtain ⟨f, hf, hft, hle⟩ := findKobj_some hfind
    apply (htake i w h).imp _ fun _ hq => hq
    intro hinv
    obtain ⟨a, ha, hlen⟩ := (hinv.mirror f (List.mem_of_getElem? hf)).size hft
    rw [hlen] at hle
    exact ⟨hinv, f.cid, a, ⟨f, hf, hft, hlen, rfl⟩, (Nat.pow_le_pow_iff_right (by decide)).mp hle, ha⟩
  | none =>
    rw [hfind] at h
    dsimp only at h
    cases hnew : kobjAllocNew e u (2 ^ d) w with
    | error w₀ =>
      rw [hnew] at h
      cases h
    | ok x =>
    obtain ⟨ok, w₁⟩ := x
    rw [hnew] at h
    have hpow : 2 ^ d ≤ 2 ^ 12 := Nat.pow_le_pow_right (by decide) hd'
    have hruns : Runs boot u l w w₁ (Inv boot u l w)
        (Inv boot u l w₁ ∧ ok = true ∧ ∃ j, w₁.kobjs = ⟨j * 4096, false, objUntyped, 4096⟩ :: w.kobjs) :=
      kobjAllocNew_runs hpow hnew
    cases ok with
    | false =>
      cases h
      apply hruns.imp id
      rintro - ⟨-, hok, -⟩
      cases hok
    | true =>
      have hmade : Runs boot u l w w₁ (Inv boot u l w)
          ((∀ g ∈ w.kobjs, g ∈ w₁.kobjs) ∧ Inv boot u l w₁ ∧ ∃ cid a, Found w₁ 0 (2 ^ a) cid ∧ d ≤ a ∧ a ≤ 12) := by
        apply hruns.imp id
        rintro - ⟨hinv, -, j, hj⟩
        refine ⟨fun g hg => ?_, hinv, j * 4096, 12, ⟨⟨j * 4096, false, objUntyped, 4096⟩, ?_, rfl, rfl, rfl⟩, hd', ?_⟩
        · rw [hj]
          exact List.mem_cons_of_mem _ hg
        · rw [hj]
          rfl
        · exact Nat.le_refl 12
      apply hmade.trans
      apply (htake 0 w₁ h).imp And.right
      rintro ⟨hold, -⟩ ⟨hinv, hgrown, hfits⟩
      refine ⟨hinv, fun g hg ht => hgrown g (hold g hg) ht, ?_⟩
      unfold Fits at hfits ⊢
      rw [if_neg hsize] at hfits ⊢
      obtain ⟨g, hg, hcid, hgt, hne⟩ := hfits
      exact ⟨g, hg, hcid, hgt, fun g' hg' => hne g' (hold g' hg')⟩

def start (s : State) : World := ⟨[], fun i => decide (i < 4), 47, s, []⟩

theorem start_inv {s : State} (h : Process boot u l s)
    (hfree : ∀ i, 4 ≤ i → i < 480 → capPerm s.1.mem (capSlot l i) = 0) : Inv boot u l (start s) := by
  refine ⟨h, fun i hi hc => hfree i ?_ hi, fun r hr => absurd hr List.not_mem_nil, List.nodup_nil⟩
  have hc' : decide (i < 4) = false := hc
  simpa using hc'

def Returned (w : World) (x : ℤ × ℤ) : Prop :=
  if kobjTypeSize x.1 = 0 then x.2 = ERR else ∃ g ∈ w.kobjs, (g.cid : ℤ) = x.2 ∧ (g.type : ℤ) = x.1

def returned (rs : List (ℤ × ℤ)) : List ℤ := (rs.filter fun x => kobjTypeSize x.1 ≠ 0).map Prod.snd

theorem kobjAllocs_runs (boot : List (ℕ × ℕ)) (l : ℕ) {types : List ℤ} {rs : List (ℤ × ℤ)} (h : kobjAllocs e u types w = .ok (rs, w')) :
    rs.map Prod.fst = types ∧ Runs boot u l w w' (Inv boot u l w)
      (Inv boot u l w' ∧ Grown w w' ∧ (∀ x ∈ rs, Returned w' x) ∧
        (∀ x ∈ returned rs, ∀ g ∈ w.kobjs, g.type ≠ objUntyped → (g.cid : ℤ) ≠ x) ∧ (returned rs).Nodup) := by
  induction types generalizing w rs with
  | nil =>
    cases h
    exact ⟨rfl, .silent rfl fun hinv => ⟨hinv, fun g hg _ => hg, by simp, by simp [returned], by simp [returned]⟩⟩
  | cons type types ih =>
    unfold kobjAllocs at h
    cases halloc : kobjAlloc e u type 1 w with
    | error w₀ =>
      rw [halloc] at h
      cases h
    | ok x =>
    obtain ⟨r, w₁⟩ := x
    rw [halloc] at h
    obtain ⟨⟨rs', w₂⟩, hrs, he⟩ := map_ok h
    cases he
    obtain ⟨htypes, hruns⟩ := ih hrs
    refine ⟨by rw [List.map_cons, htypes], ?_⟩
    have hfirst : Runs boot u l w w₁ (Inv boot u l w) ((Grown w w₁ ∧ Fits w w₁ type r) ∧ Inv boot u l w₁) :=
      (kobjAlloc_runs halloc).imp id fun _ ⟨hinv, hgrown, hfits⟩ => ⟨⟨hgrown, hfits⟩, hinv⟩
    apply hfirst.trans
    apply hruns.imp And.right
    rintro ⟨⟨hgrown, hfits⟩, -⟩ ⟨hinv, hgrown', hall, hold, hnodup⟩
    unfold Fits at hfits
    by_cases hsize : kobjTypeSize type = 0
    · rw [if_pos hsize] at hfits
      have hskip : returned ((type, r) :: rs') = returned rs' := by simp [returned, hsize]
      rw [hskip]
      refine ⟨hinv, hgrown.trans hgrown', fun x hx => ?_, fun x hx g hg ht => ?_, hnodup⟩
      · obtain rfl | hx := List.mem_cons.mp hx
        · unfold Returned
          rw [if_pos hsize]
          exact hfits
        · exact hall x hx
      · exact hold x hx g (hgrown g hg ht) ht
    · rw [if_neg hsize] at hfits
      obtain ⟨g, hg, hcid, hgt, hne⟩ := hfits
      have hadd : returned ((type, r) :: rs') = r :: returned rs' := by simp [returned, hsize]
      have htyped : g.type ≠ objUntyped := by
        intro h0
        rw [h0] at hgt
        apply hsize
        rw [← hgt]
        rfl
      rw [hadd]
      refine ⟨hinv, hgrown.trans hgrown', fun x hx => ?_, fun x hx g' hg' ht' => ?_, ?_⟩
      · obtain rfl | hx := List.mem_cons.mp hx
        · unfold Returned
          rw [if_neg hsize]
          exact ⟨g, hgrown' g hg htyped, hcid, hgt⟩
        · exact hall x hx
      · obtain rfl | hx := List.mem_cons.mp hx
        · exact hne g' hg' ht'
        · exact hold x hx g' (hgrown g' hg' ht') ht'
      · refine List.nodup_cons.mpr ⟨fun hr => ?_, hnodup⟩
        exact hold r hr g hg htyped hcid

structure Agrees (boot : List (ℕ × ℕ)) (l : ℕ) (s : State) (r : Kobj) : Prop where
  slot : r.cid = r.slot * 4096 ∧ r.slot < clistCaps ∧ capPerm s.1.mem (capSlot l r.slot) = capWrite ||| capRead
  live : objAt l s r.slot ∈ live boot s.2
  type : objType s.1.mem (objAt l s r.slot) = r.type
  untyped : r.type = objUntyped → objLen s.1.mem (objAt l s r.slot) = r.len
  typed : r.type ≠ objUntyped → origin boot s.2 (objAt l s r.slot) = r.len ∧ objLen s.1.mem (objAt l s r.slot) ≤ r.len
  apart : ∀ o ∈ Sys.live boot s.2, o ≠ objAt l s r.slot →
    Apart (objAt l s r.slot) (objLen s.1.mem (objAt l s r.slot)) o (objLen s.1.mem o)

theorem Inv.agrees (h : Inv boot u l w) {g : Kobj} (hg : g ∈ w.kobjs) : Agrees boot l w.kernel g := by
  have hm := h.mirror g hg
  have hlive := h.live hg
  have hroom : objRoom boot w.kernel (objAt l w.kernel g.slot) = g.len := hm.names.room
  have htype : objType w.kernel.1.mem (objAt l w.kernel g.slot) = g.type := hm.names.type
  unfold objRoom at hroom
  refine ⟨⟨hm.cid, slot_lt hm.small, hm.names.perm⟩, hlive, htype, fun ht => ?_, fun ht => ?_, fun o ho hne => ?_⟩
  · rwa [if_pos (htype.trans ht)] at hroom
  · rw [if_neg (htype ▸ ht)] at hroom
    refine ⟨hroom, ?_⟩
    rw [← hroom]
    exact h.process.owned.part.origin _ hlive
  · exact h.process.owned.part.packed.apart _ hlive o ho (Ne.symm hne)

/-- What a sequence of `kobj_alloc` that returned `rs` leaves: records that agree with the kernel, about objects
of their own, and calls of the kernel that all succeeded. -/
structure Mirror (boot : List (ℕ × ℕ)) (l : ℕ) (types : List ℤ) (w : World) (rs : List (ℤ × ℤ)) (w' : World) : Prop where
  records : ∀ g ∈ w'.kobjs, Agrees boot l w'.kernel g
  objects : (w'.kobjs.map fun g => objAt l w'.kernel g.slot).Nodup
  calls : ∀ v, .call v ∈ w'.log → v = some OK
  types : rs.map Prod.fst = types
  each : ∀ x ∈ rs, Returned w' x
  distinct : (returned rs).Nodup
  new : ∀ x ∈ returned rs, ∀ g ∈ w.kobjs, g.type ≠ objUntyped → (g.cid : ℤ) ≠ x

theorem Inv.allocs {types : List ℤ} {rs : List (ℤ × ℤ)} (hinv : Inv boot u l w) (hlog : w.log = [])
    (hrun : kobjAllocs e u types w = .ok (rs, w')) (hserved : ∀ x ∈ w'.log, x.Served boot u l) :
    Mirror boot l types w rs w' := by
  obtain ⟨htypes, ev, hev, hruns⟩ := kobjAllocs_runs boot l hrun
  rw [hlog, List.nil_append] at hev
  rw [hev] at hserved
  obtain ⟨hok, hinv', -, hall, hold, hnodup⟩ := hruns hserved hinv
  refine ⟨fun g hg => hinv'.agrees hg, hinv'.objs, fun v hv => ?_, htypes, hall, hnodup, hold⟩
  rw [hev] at hv
  exact hok _ hv

end Allocs

section Ends

variable {boot : List (ℕ × ℕ)} {u l len i : ℕ} {w w' : World} {e : Env} {type : ℤ}

def Full (w : World) : Prop := ∀ i < 480, w.caps i = true

theorem map_error {α β ε : Type} {x : Except ε α} {f : α → β} {y : ε} (h : x.map f = .error y) : x = .error y := by
  cases x with
  | error x =>
    cases h
    rfl
  | ok a => cases h

theorem kcapAlloc_error (h : kcapAlloc w = .error w') : Full w' := by
  unfold kcapAlloc at h
  split at h
  · next hfind =>
    cases h
    intro i hi
    simpa using List.find?_eq_none.mp hfind i (List.mem_range.mpr hi)
  · cases h

theorem kcapAllocs_error {n : ℕ} (h : kcapAllocs n w = .error w') : Full w' := by
  induction n generalizing w with
  | zero => cases h
  | succ n ih =>
    unfold kcapAllocs at h
    split at h
    · next hcap =>
      cases h
      exact kcapAlloc_error hcap
    · exact ih (map_error h)

theorem kobjPoolAlloc_error (h : kobjPoolAlloc e w = .error w') : Full w' := by
  have hgrow := map_error h
  split_ifs at hgrow
  exact kcapAllocs_error (map_error hgrow)

theorem kobjAllocNew_error (h : kobjAllocNew e u len w = .error w') : Full w' := by
  unfold kobjAllocNew at h
  dsimp only at h
  split at h
  · next hreq =>
    cases h
    exact kcapAlloc_error (map_error hreq)
  · cases h
  · split at h
    · next hcap =>
      cases h
      exact kcapAlloc_error hcap
    · split at h
      · cases h
      · exact kobjPoolAlloc_error (map_error h)

theorem kobjSplit_error (h : kobjSplit e u i w = .error w') : Full w' := by
  unfold kobjSplit at h
  split at h
  · cases h
  · split_ifs at h
    split at h
    · next hcap =>
      cases h
      exact kcapAlloc_error hcap
    · split at h
      · next hpool =>
        cases h
        exact kobjPoolAlloc_error hpool
      · cases h
      · split at h <;> cases h

theorem splits_error {fuel : ℕ} (h : splits e u len i fuel w = .error w') : Full w' := by
  induction fuel generalizing w with
  | zero => cases h
  | succ fuel ih =>
    unfold splits at h
    split_ifs at h
    · split at h
      · next hsplit =>
        cases h
        exact kobjSplit_error hsplit
      · cases h
      · exact ih h

theorem kobjTake_error {n : ℕ} (h : kobjTake e u type n len i w = .error w') : Full w' := by
  unfold kobjTake at h
  split at h
  · next hsplits =>
    cases h
    exact splits_error hsplits
  · cases h
  · split at h
    · cases h
    · split at h <;> cases h

theorem kobjAlloc_error {n : ℕ} (h : kobjAlloc e u type n w = .error w') : Full w' := by
  unfold kobjAlloc at h
  dsimp only at h
  split_ifs at h
  split at h
  · exact kobjTake_error h
  · split at h
    · next hnew =>
      cases h
      exact kobjAllocNew_error hnew
    · cases h
    · exact kobjTake_error h

theorem kobjAllocs_error {types : List ℤ} (h : kobjAllocs e u types w = .error w') : Full w' := by
  induction types generalizing w with
  | nil => cases h
  | cons type types ih =>
    unfold kobjAllocs at h
    split at h
    · next halloc =>
      cases h
      exact kobjAlloc_error halloc
    · exact ih (map_error h)

/-- Any sequence of `kobj_alloc` returns, unless all slots are in use at some point, and leaves records that
mirror the kernel. -/
theorem kobjs_mirror_kernel (e : Env) (types : List ℤ) (hinv : Inv boot u l w) (hlog : w.log = []) :
    (∃ w', kobjAllocs e u types w = .error w' ∧ Full w') ∨
      ∃ rs w', kobjAllocs e u types w = .ok (rs, w') ∧
        ((∀ x ∈ w'.log, x.Served boot u l) → Mirror boot l types w rs w') := by
  cases hrun : kobjAllocs e u types w with
  | error w' => exact .inl ⟨w', rfl, kobjAllocs_error hrun⟩
  | ok x => exact .inr ⟨x.1, x.2, rfl, fun hserved => hinv.allocs hlog hrun hserved⟩

end Ends

section Page

def noEnv : Env := ⟨500, fun _ _ _ => none, fun _ => 0, fun _ => 0, fun _ => false⟩

def pageWorld : World :=
  ⟨[⟨3 * 4096, false, objUntyped, 4096⟩], fun i => decide (i < 4), 47, (initRoot 500 lowRoot fun _ => 0, []), []⟩

theorem lowRoot_clean {x : ℕ} (h1 : 12300 ≤ x) (h2 : x < 16384) : (initRoot 500 lowRoot fun _ => 0).mem x = 0 := by
  rw [initRoot_mem lowRoot_placed]
  have hslot (i p q : ℕ) (hi : i < 4) (mem : Bytes) : setCap (capSlot lowRoot.caplist i) p q mem x = mem x := by
    have hlist : lowRoot.caplist = 8192 := rfl
    apply setCap_outside
    unfold capSlot
    omega
  rw [hslot 3 _ _ (by decide), hslot 2 _ _ (by decide), hslot 0 _ _ (by decide)]
  unfold Root.heads lowRoot
  dsimp only
  rw [untyped_outside (by omega), put32_outside x (by omega), put32_outside x (by omega), put32_outside x (by omega),
    setHead_outside (by omega), objCaplistInit_outside (by omega), setHead_outside (by omega), setHead_outside (by omega),
    fill_outside x (by omega), fill_inside x (by omega) (by omega)]

theorem pageWorld_inv : Inv lowRoot.objects 4096 8192 pageWorld := by
  have hproc : Process lowRoot.objects 4096 8192 pageWorld.kernel :=
    ⟨initRoot_owned lowRoot_placed, by decide +kernel, Root.mem_live.mpr (.inl rfl), by decide +kernel⟩
  have hobj : capObj pageWorld.kernel.1.mem (capSlot 8192 3) = 12288 := by decide +kernel
  refine ⟨hproc, fun i hi hc => ?_, fun r hr => ?_, by simp [pageWorld]⟩
  · have hi' : 4 ≤ i := by
      have hc' : decide (i < 4) = false := hc
      simpa using hc'
    have hne (j p q : ℕ) (hj : j < 4) (mem : Bytes) : capPerm (setCap (capSlot 8192 j) p q mem) (capSlot 8192 i) =
        capPerm mem (capSlot 8192 i) := (setCap_apart (slots_apart (by omega))).1
    show capPerm (initRoot 500 lowRoot fun _ => 0).mem _ = 0
    rw [initRoot_mem lowRoot_placed]
    show capPerm (setCap (capSlot 8192 3) _ _ (setCap (capSlot 8192 2) _ _ (setCap (capSlot 8192 0) _ _ _))) _ = 0
    rw [hne 3 _ _ (by decide), hne 2 _ _ (by decide), hne 0 _ _ (by decide)]
    exact Root.heads_empty lowRoot_placed (slot_lt hi)
  · cases List.mem_singleton.mp hr
    refine ⟨rfl, by decide, rfl, ⟨?_, ?_, ?_, ?_⟩, fun _ => ⟨12, Nat.le_refl 12, rfl⟩⟩
    · decide +kernel
    · decide +kernel
    · decide +kernel
    · intro _ _ o x ho h1 h2
      have ho' : o = 12288 := ho.symm.trans hobj
      exact lowRoot_clean (by omega) (by omega)

theorem page_runs : ∃ s, kobjAllocs noEnv 4096 [2] pageWorld = .ok ([(2, 12288)],
      { pageWorld with kobjs := [⟨12288, true, objCaplist, 4096⟩], kernel := s, log := [.call (some OK)] }) ∧
    Names lowRoot.objects 8192 3 s objCaplist 4096 := by
  have hrecord := pageWorld_inv.mirror ⟨3 * 4096, false, objUntyped, 4096⟩ (List.mem_singleton_self _)
  obtain ⟨ev, k', hrun, -, -, hnames, -⟩ := sysObjRetype_effect 500 (t := 2) pageWorld_inv.process
    (slot_lt hrecord.small) hrecord.names (by decide) (by decide) (fun _ => rfl)
  refine ⟨(k', [] ++ ev), ?_, hnames⟩
  have hsplits : splits noEnv 4096 4096 0 32 (claim 0 pageWorld) = .ok (true, claim 0 pageWorld) := rfl
  have htake : kobjTake noEnv 4096 2 1 4096 0 pageWorld = .ok (12288,
      { pageWorld with
        kobjs := [⟨12288, true, objCaplist, 4096⟩], kernel := (k', [] ++ ev), log := [.call (some OK)] }) := by
    have hget : (claim 0 pageWorld).kobjs[0]? = some ⟨3 * 4096, true, objUntyped, 4096⟩ := rfl
    have hcall : (claim 0 pageWorld).call
        (sysObjRetype noEnv.systick 4096 ((3 * 4096 : ℕ) : ℤ) 2 1 (claim 0 pageWorld).kernel.1) =
          (true, { claim 0 pageWorld with kernel := (k', [] ++ ev), log := [.call (some OK)] }) := by
      replace hrun : sysObjRetype 500 4096 ((3 * 4096 : ℕ) : ℤ) ((2 : ℕ) : ℤ) 1 pageWorld.kernel.1 =
        some (OK, ev, k') := hrun
      show World.call (sysObjRetype 500 4096 ((3 * 4096 : ℕ) : ℤ) ((2 : ℕ) : ℤ) 1 pageWorld.kernel.1) _ = _
      rw [hrun]
      rfl
    unfold kobjTake
    rw [hsplits]
    dsimp only
    rw [hget]
    dsimp only
    rw [hcall]
    rfl
  have halloc : kobjAlloc noEnv 4096 2 1 pageWorld = kobjTake noEnv 4096 2 1 4096 0 pageWorld := rfl
  unfold kobjAllocs
  rw [halloc, htake]
  rfl

def Event.answer : Event → Option (Option ℤ)
  | .call r => some r
  | _ => none

def outcome : Call (List (ℤ × ℤ)) → Option (List (ℤ × ℤ) × List (Option (Option ℤ)))
  | .ok (rs, w) => some (rs, w.log.map Event.answer)
  | .error _ => none

theorem kobjs_mirror_kernel_splits : ∃ w',
    kobjAllocs noEnv 4096 [1, 1, 3] pageWorld = .ok ([(1, 12288), (1, 40960), (3, 16384)], w') ∧
    w'.log.map Event.answer = List.replicate 10 (some (some OK)) ∧
    Mirror lowRoot.objects 8192 [1, 1, 3] pageWorld [(1, 12288), (1, 40960), (3, 16384)] w' := by
  have heval : outcome (kobjAllocs noEnv 4096 [1, 1, 3] pageWorld) =
      some ([(1, 12288), (1, 40960), (3, 16384)], List.replicate 10 (some (some OK))) := by decide +kernel
  obtain ⟨w', herror, -⟩ | ⟨rs, w', hrun, hmirror⟩ := kobjs_mirror_kernel noEnv [1, 1, 3] pageWorld_inv rfl
  · rw [herror] at heval
    cases heval
  · rw [hrun] at heval
    obtain ⟨rfl, hlog⟩ := Prod.mk.inj (Option.some.inj heval)
    refine ⟨w', hrun, hlog, hmirror fun x hx => ?_⟩
    have hanswer : x.answer = some (some OK) := by
      apply List.eq_of_mem_replicate (n := 10)
      rw [← hlog]
      exact List.mem_map_of_mem hx
    cases x with
    | call r => trivial
    | _ => cases hanswer

theorem caplist_shorter : ∃ rs w', Inv lowRoot.objects 4096 8192 pageWorld ∧
    kobjAllocs noEnv 4096 [2] pageWorld = .ok (rs, w') ∧ (∀ x ∈ w'.log, x.Served lowRoot.objects 4096 8192) ∧
    ∃ g ∈ w'.kobjs, objLen w'.kernel.1.mem (objAt 8192 w'.kernel g.slot) ≠ g.len := by
  obtain ⟨s, hruns, hnames⟩ := page_runs
  refine ⟨_, _, pageWorld_inv, hruns, fun x hx => ?_, _, List.mem_singleton_self _, ?_⟩
  · cases List.mem_singleton.mp hx
    trivial
  · have hlen : objLen s.1.mem (objAt 8192 s 3) = 4088 := objLen_caplist hnames.type
    show objLen s.1.mem (objAt 8192 s 3) ≠ 4096
    rw [hlen]
    decide

end Page

end Agatha.User.KernelObjects
