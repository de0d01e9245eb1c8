import Agatha.User.KernelObjects

namespace Agatha.User.KernelObjects

open Sys Kernel Library.Areas

section Slots

variable {boot : List (ℕ × ℕ)} {u l : ℕ} {w w' w₁ : World} {P Q R : Prop} {e : Env}

theorem Runs.trans (h : Runs boot u l w w₁ P Q) (h' : Runs boot u l w₁ w' Q R) : Runs boot u l w w' P R := by
  obtain ⟨ev, hlog, hev⟩ := h
  obtain ⟨ev', hlog', hev'⟩ := h'
  refine ⟨ev ++ ev', by rw [hlog', hlog, List.append_assoc], fun hs hp => ?_⟩
  obtain ⟨hok, hq⟩ := hev (fun x hx => hs x (List.mem_append_left _ hx)) hp
  obtain ⟨hok', hr⟩ := hev' (fun x hx => hs x (List.mem_append_right _ hx)) hq
  refine ⟨fun x hx => ?_, hr⟩
  obtain hx | hx := List.mem_append.mp hx
  · exact hok x hx
  · exact hok' x hx

theorem Runs.silent (hlog : w'.log = w.log) (h : P → Q) : Runs boot u l w w' P Q :=
  ⟨[], by rw [hlog, List.append_nil], fun _ hp => ⟨by simp, h hp⟩⟩

theorem Runs.event {x : Event} (hlog : w'.log = w.log ++ [x])
    (h : x.Served boot u l → P → x.Succeeds ∧ Q) : Runs boot u l w w' P Q := by
  refine ⟨[x], hlog, fun hs hp => ?_⟩
  obtain ⟨hok, hq⟩ := h (hs x (List.mem_singleton_self x)) hp
  exact ⟨by simpa using hok, hq⟩

theorem map_ok {α β ε : Type} {x : Except ε α} {f : α → β} {b : β} (h : x.map f = .ok b) : ∃ a, x = .ok a ∧ f a = b := by
  cases x with
  | error x => cases h
  | ok a =>
    cases h
    exact ⟨a, rfl, rfl⟩

theorem slot_ne {caps : ℕ → Bool} {i j : ℕ} (hi : caps i = true) (hj : caps j = false) : i ≠ j := by
  rintro rfl
  rw [hi] at hj
  cases hj

theorem slot_mul (i : ℕ) : i * 4096 / 4096 = i := by omega

theorem slot_lt {i : ℕ} (hi : i < 480) : i < clistCaps := by
  unfold clistCaps
  omega

theorem Inv.live (h : Inv boot u l w) {r : Kobj} (hr : r ∈ w.kobjs) :
    objAt l w.kernel r.slot ∈ Sys.live boot w.kernel.2 :=
  h.process.named (slot_lt (h.mirror r hr).small) (h.mirror r hr).names.perm_ne

theorem Inv.keep (h : Inv boot u l w) (hp : Process boot u l w'.kernel) (hkobjs : w'.kobjs = w.kobjs)
    (hcaps : ∀ i, w.caps i = true → w'.caps i = true)
    (hfree : ∀ i < 480, w'.caps i = false → Keeps boot l i w.kernel w'.kernel)
    (hkeep : ∀ r ∈ w.kobjs, Keeps boot l r.slot w.kernel w'.kernel) : Inv boot u l w' := by
  refine ⟨hp, fun i hi hc => ?_, fun r hr => ?_, ?_⟩
  · have hold : w.caps i = false := by
      by_contra ht
      rw [hcaps i (by simpa using ht)] at hc
      cases hc
    rw [(hfree i hi hc).perm]
    exact h.free i hi hold
  · rw [hkobjs] at hr
    have hm := h.mirror r hr
    exact ⟨hm.cid, hm.small, hcaps _ hm.used,
      hm.names.keep h.process (slot_lt hm.small) (hkeep r hr), hm.size⟩
  · have hmap : (w.kobjs.map fun r => objAt l w'.kernel r.slot) =
        w.kobjs.map fun r => objAt l w.kernel r.slot := List.map_congr_left fun r hr => (hkeep r hr).obj
    rw [hkobjs, hmap]
    exact h.objs

theorem kcapAlloc_ok {cid : ℕ} (h : kcapAlloc w = .ok (cid, w')) : ∃ i < 480, cid = i * 4096 ∧
    w.caps i = false ∧ w' = { w with caps := Function.update w.caps i true } := by
  unfold kcapAlloc at h
  cases hfind : (List.range 480).find? fun o => !w.caps o with
  | none =>
    rw [hfind] at h
    cases h
  | some i =>
    rw [hfind] at h
    cases h
    have hmem := List.mem_range.mp (List.mem_of_find?_eq_some hfind)
    exact ⟨i, hmem, rfl, by simpa using List.find?_some hfind, rfl⟩

theorem kcapAllocs_ok {n : ℕ} {cids : List ℕ} (h : kcapAllocs n w = .ok (cids, w')) :
    ∃ caps, w' = { w with caps := caps } ∧ (∀ i, w.caps i = true → caps i = true ∧ i * 4096 ∉ cids) ∧
      ∀ i, caps i = false → i * 4096 ∉ cids := by
  induction n generalizing w w' cids with
  | zero =>
    cases h
    exact ⟨w.caps, rfl, fun i hi => ⟨hi, by simp⟩, fun i _ => by simp⟩
  | succ n ih =>
    unfold kcapAllocs at h
    cases hcid : kcapAlloc w with
    | error w₀ =>
      rw [hcid] at h
      cases h
    | ok x =>
    obtain ⟨cid, w₁⟩ := x
    rw [hcid] at h
    obtain ⟨⟨cids', w₂⟩, hcids, he⟩ := map_ok h
    cases he
    obtain ⟨j, hj, rfl, hfree, rfl⟩ := kcapAlloc_ok hcid
    obtain ⟨caps, rfl, hused, hnew⟩ := ih hcids
    have hj' := hused j (Function.update_self j true w.caps)
    refine ⟨caps, rfl, fun i hi => ?_, fun i hi => ?_⟩
    · have hij : i ≠ j := slot_ne hi hfree
      obtain ⟨hc, hnot⟩ := hused i ((Function.update_of_ne hij true w.caps).trans hi)
      exact ⟨hc, by simp [hnot, hij]⟩
    · have hij : j ≠ i := slot_ne hj'.1 hi
      simp [hnew i hi, hij.symm]

theorem kobjPoolAlloc_runs (boot : List (ℕ × ℕ)) (u l : ℕ) {c : Option Bool} (h : kobjPoolAlloc e w = .ok (c, w')) :
    w'.kobjs = w.kobjs ∧ (∀ i, w.caps i = true → w'.caps i = true) ∧
      Runs boot u l w w' (Inv boot u l w)
        (Inv boot u l w' ∧ c ≠ none ∧ ∀ i < clistCaps, w.caps i = true → Keeps boot l i w.kernel w'.kernel) := by
  unfold kobjPoolAlloc at h
  by_cases hlow : w.nFree < 5
  · rw [if_pos hlow] at h
    obtain ⟨w₁, hgrow, h⟩ := map_ok h
    obtain ⟨⟨cids, w₂⟩, hcids, hgrow⟩ := map_ok hgrow
    obtain ⟨caps, rfl, hused, hnew⟩ := kcapAllocs_ok hcids
    dsimp only at hgrow
    cases hreq : e.request w.log.length cids w.kernel with
    | none =>
      rw [hreq] at hgrow
      cases hgrow
      split_ifs at h
      all_goals
        cases h
        exact ⟨rfl, fun i hi => (hused i hi).1, .event rfl fun hs _ => hs.elim⟩
    | some s =>
      rw [hreq] at hgrow
      cases hgrow
      rw [if_neg (by simp)] at h
      cases h
      refine ⟨rfl, fun i hi => (hused i hi).1, .event rfl fun hs hinv => ⟨trivial, ?_, by simp, ?_⟩⟩
      · refine hinv.keep (hs.process hinv.process) rfl (fun i hi => (hused i hi).1) ?_ ?_
        · exact fun i hi hc => hs.keeps i (slot_lt hi) (hnew i hc)
        · intro r hr
          have hm := hinv.mirror r hr
          exact hs.keeps _ (slot_lt hm.small) (hused _ hm.used).2
      · exact fun i hi hc => hs.keeps i hi (hused i hc).2
  · rw [if_neg hlow] at h
    obtain ⟨w₁, hw, h⟩ := map_ok h
    cases hw
    rw [if_neg (by omega)] at h
    cases h
    refine ⟨rfl, fun _ hi => hi, .silent rfl fun hinv => ⟨?_, by simp, fun _ _ _ => .refl⟩⟩
    exact hinv.keep hinv.process rfl (fun _ hi => hi) (fun _ _ _ => .refl) fun _ _ => .refl

end Slots

section Records

variable {boot : List (ℕ × ℕ)} {u l i j len : ℕ} {w w' : World} {P Q R : Prop} {f a b : Kobj} {g : Kobj → Kobj}

theorem Runs.imp {S : Prop} (h : Runs boot u l w w' P Q) (hp : R → P) (hq : R → Q → S) : Runs boot u l w w' R S := by
  obtain ⟨ev, hlog, hev⟩ := h
  exact ⟨ev, hlog, fun hs hr => (hev hs (hp hr)).imp id (hq hr)⟩

theorem Runs.exists {P Q : ℕ → Prop} (h : ∀ n, Runs boot u l w w' (P n) (Q n)) :
    Runs boot u l w w' (∃ n, P n) (∃ n, Q n) := by
  obtain ⟨ev, hlog, -⟩ := h 0
  refine ⟨ev, hlog, fun hs ⟨n, hp⟩ => ?_⟩
  obtain ⟨ev', hlog', hev⟩ := h n
  have he : ev' = ev := List.append_cancel_left (hlog'.symm.trans hlog)
  obtain ⟨hok, hq⟩ := hev (he ▸ hs) hp
  exact ⟨he ▸ hok, n, hq⟩

theorem Inv.obj_ne (h : Inv boot u l w) (ha : w.kobjs[i]? = some a) (hb : w.kobjs[j]? = some b) (hij : i ≠ j) :
    objAt l w.kernel a.slot ≠ objAt l w.kernel b.slot := by
  intro he
  obtain ⟨hi, -⟩ := List.getElem?_eq_some_iff.mp ha
  apply hij
  apply (List.getElem?_inj (by rwa [List.length_map]) h.objs).mp
  rw [List.getElem?_map, List.getElem?_map, ha, hb]
  exact congrArg some he

theorem Inv.slot_ne (h : Inv boot u l w) (ha : w.kobjs[i]? = some a) (hb : w.kobjs[j]? = some b) (hij : i ≠ j) :
    a.slot ≠ b.slot := by
  intro he
  exact h.obj_ne ha hb hij (by rw [he])

theorem mem_modify {x : Kobj} {kobjs : List Kobj} (h : x ∈ kobjs.modify i g) :
    (∃ y, kobjs[i]? = some y ∧ x = g y) ∨ ∃ j, j ≠ i ∧ kobjs[j]? = some x := by
  obtain ⟨j, hj⟩ := List.mem_iff_getElem?.mp h
  by_cases hij : i = j
  · subst hij
    rw [List.getElem?_modify_eq] at hj
    obtain ⟨y, hy, he⟩ := Option.map_eq_some_iff.mp hj
    exact .inl ⟨y, hy, he.symm⟩
  · rw [List.getElem?_modify_ne _ _ hij] at hj
    exact .inr ⟨j, Ne.symm hij, hj⟩

theorem Inv.change (h : Inv boot u l w) (hf : w.kobjs[i]? = some f) (hcid : ∀ r, (g r).cid = r.cid)
    (hkobjs : w'.kobjs = w.kobjs.modify i g) (hcaps : w'.caps = w.caps) (hp : Process boot u l w'.kernel)
    (hfree : ∀ j < 480, w.caps j = false → Keeps boot l j w.kernel w'.kernel)
    (hkeep : ∀ r ∈ w.kobjs, r.slot ≠ f.slot → Keeps boot l r.slot w.kernel w'.kernel)
    (hnames : Names boot l f.slot w'.kernel (g f).type (g f).len)
    (hsize : (g f).type = objUntyped → ∃ e ≤ 12, (g f).len = 2 ^ e)
    (hobj : objAt l w'.kernel f.slot = objAt l w.kernel f.slot) : Inv boot u l w' := by
  have hslot (r : Kobj) : (g r).slot = r.slot := by
    unfold Kobj.slot
    rw [hcid]
  have hother (j : ℕ) (r : Kobj) (hr : w.kobjs[j]? = some r) (hji : j ≠ i) :
      Keeps boot l r.slot w.kernel w'.kernel :=
    hkeep r (List.mem_of_getElem? hr) (h.slot_ne hr hf hji)
  refine ⟨hp, fun j hj hc => ?_, fun r hr => ?_, ?_⟩
  · rw [hcaps] at hc
    rw [(hfree j hj hc).perm]
    exact h.free j hj hc
  · rw [hkobjs] at hr
    obtain ⟨y, hy, rfl⟩ | ⟨j, hji, hj⟩ := mem_modify hr
    · cases hf.symm.trans hy
      have hm := h.mirror f (List.mem_of_getElem? hf)
      exact ⟨by rw [hcid, hslot, ← hm.cid], by rw [hslot]; exact hm.small, by rw [hslot, hcaps]; exact hm.used,
        by rw [hslot]; exact hnames, hsize⟩
    · have hm := h.mirror r (List.mem_of_getElem? hj)
      exact ⟨hm.cid, hm.small, by rw [hcaps]; exact hm.used,
        hm.names.keep h.process (slot_lt hm.small) (hother j r hj hji), hm.size⟩
  · have hmap : (w'.kobjs.map fun r => objAt l w'.kernel r.slot) =
        w.kobjs.map fun r => objAt l w.kernel r.slot := by
      apply List.ext_getElem?
      intro j
      rw [hkobjs, List.getElem?_map, List.getElem?_map]
      by_cases hij : i = j
      · subst hij
        rw [List.getElem?_modify_eq, hf]
        simp [hslot, hobj]
      · rw [List.getElem?_modify_ne _ _ hij]
        cases hr : w.kobjs[j]? with
        | none => rfl
        | some r =>
          have hk := (hother j r hr (Ne.symm hij)).obj
          simpa [objAt] using hk
    rw [hmap]
    exact h.objs

structure Spare (boot : List (ℕ × ℕ)) (l : ℕ) (w : World) (j len : ℕ) : Prop where
  small : j < 480
  used : w.caps j = true
  names : Names boot l j w.kernel objUntyped len
  fresh : ∀ r ∈ w.kobjs, objAt l w.kernel r.slot ≠ objAt l w.kernel j

theorem Inv.add {c : Bool} (h : Inv boot u l w) (hs : Spare boot l w j len) (hsize : ∃ e ≤ 12, len = 2 ^ e)
    (hkobjs : w'.kobjs.Perm (⟨j * 4096, c, objUntyped, len⟩ :: w.kobjs)) (hcaps : w'.caps = w.caps)
    (hkernel : w'.kernel = w.kernel) : Inv boot u l w' := by
  have hslot : Kobj.slot ⟨j * 4096, c, objUntyped, len⟩ = j := slot_mul j
  refine ⟨hkernel ▸ h.process, fun i hi hc => ?_, fun r hr => ?_, ?_⟩
  · rw [hcaps] at hc
    rw [hkernel]
    exact h.free i hi hc
  · obtain rfl | hr := List.mem_cons.mp (hkobjs.mem_iff.mp hr)
    · refine ⟨?_, ?_, ?_, ?_, fun _ => hsize⟩
      · rw [hslot]
      · rw [hslot]
        exact hs.small
      · rw [hslot, hcaps]
        exact hs.used
      · rw [hslot, hkernel]
        exact hs.names
    · have hm := h.mirror r hr
      exact ⟨hm.cid, hm.small, hcaps ▸ hm.used, hkernel ▸ hm.names, hm.size⟩
  · rw [hkernel]
    rw [(hkobjs.map fun r => objAt l w.kernel r.slot).nodup_iff, List.map_cons, hslot]
    refine List.nodup_cons.mpr ⟨fun hm => ?_, h.objs⟩
    obtain ⟨r, hr, he⟩ := List.mem_map.mp hm
    exact hs.fresh r hr he

end Records

section New

variable {boot : List (ℕ × ℕ)} {u l i j m : ℕ} {w w' : World} {e : Env} {ok : Bool}

theorem call_cases (w : World) (r : Result) : ∃ x, (w.call r).2.log = w.log ++ [.call x] ∧
    (w.call r).2.kobjs = w.kobjs ∧ (w.call r).2.caps = w.caps ∧ ∀ ev k', r = some (OK, ev, k') →
      x = some OK ∧ (w.call r).1 = true ∧ (w.call r).2.kernel = (k', w.kernel.2 ++ ev) := by
  unfold World.call
  cases r with
  | none => exact ⟨none, rfl, rfl, rfl, fun _ _ h => by cases h⟩
  | some x =>
    obtain ⟨v, ev, k⟩ := x
    refine ⟨some v, rfl, rfl, rfl, fun ev' k' h => ?_⟩
    cases h
    exact ⟨rfl, by simp, rfl⟩

theorem requestMemory_runs (boot : List (ℕ × ℕ)) (u l : ℕ) {fid : Option ℕ}
    (h : requestMemory e m w = .ok (fid, w')) :
    w'.kobjs = w.kobjs ∧ ∃ i < 480, (fid = none ∨ fid = some (i * 4096)) ∧ Runs boot u l w w' (Inv boot u l w)
      (Inv boot u l w' ∧ fid ≠ none ∧ w'.caps i = true ∧ (∀ r ∈ w.kobjs, r.slot ≠ i) ∧
        NamesFrame l i w'.kernel m) := by
  obtain ⟨⟨cid, w₁⟩, hcid, he⟩ := map_ok h
  obtain ⟨i, hi, rfl, hfree, rfl⟩ := kcapAlloc_ok hcid
  dsimp only at he
  cases hreq : e.request w.log.length [i * 4096] w.kernel with
  | none =>
    rw [hreq] at he
    cases he
    exact ⟨rfl, i, hi, .inl rfl, .event rfl fun hs _ => hs.elim⟩
  | some s =>
    rw [hreq] at he
    cases he
    refine ⟨rfl, i, hi, .inr rfl, .event rfl fun ⟨hs, hframe⟩ hinv => ⟨trivial, ?_, by simp, ?_, ?_, ?_⟩⟩
    · have hne (n : ℕ) (hn : n ≠ i) (hc : n < clistCaps) : Keeps boot l n w.kernel s :=
        hs.keeps n hc (by simp [hn])
      refine hinv.keep (hs.process hinv.process) rfl (fun n hn => ?_) (fun n hn hc => ?_) fun r hr => ?_
      · by_cases hni : n = i
        · rw [hni]
          exact Function.update_self i true w.caps
        · exact (Function.update_of_ne hni true w.caps).trans hn
      · exact hne n (slot_ne (Function.update_self i true w.caps) hc).symm (slot_lt hn)
      · have hm := hinv.mirror r hr
        exact hne _ (slot_ne hm.used hfree) (slot_lt hm.small)
    · exact Function.update_self i true w.caps
    · exact fun r hr => slot_ne (hinv.mirror r hr).used hfree
    · rwa [slot_mul] at hframe

theorem kcapAlloc_runs (boot : List (ℕ × ℕ)) (u l : ℕ) {cid : ℕ} (h : kcapAlloc w = .ok (cid, w')) :
    ∃ j < 480, cid = j * 4096 ∧ w' = { w with caps := Function.update w.caps j true } ∧
      Runs boot u l w w' (Inv boot u l w) (Inv boot u l w' ∧ w'.caps j = true ∧
        capPerm w'.kernel.1.mem (capSlot l j) = 0 ∧ ∀ i, w.caps i = true → i ≠ j ∧ w'.caps i = true) := by
  obtain ⟨j, hj, rfl, hfree, rfl⟩ := kcapAlloc_ok h
  have hne (i : ℕ) (hi : w.caps i = true) : i ≠ j := slot_ne hi hfree
  have hcaps (i : ℕ) (hi : w.caps i = true) : Function.update w.caps j true i = true := by
    rw [Function.update_of_ne (hne i hi), hi]
  refine ⟨j, hj, rfl, rfl, .silent rfl fun hinv => ⟨?_, ?_, hinv.free j hj hfree, fun i hi => ⟨hne i hi, hcaps i hi⟩⟩⟩
  · exact hinv.keep hinv.process rfl hcaps (fun _ _ _ => .refl) fun _ _ => .refl
  · exact Function.update_self j true w.caps

theorem create_runs (boot : List (ℕ × ℕ)) (u l : ℕ) {o : ℕ} (hi : i < 480) (hj : j < 480)
    (h : (w.say (.mapped o 4096 w.kernel)).call
      (sysObjCreate 21 o u ((i * 4096 : ℕ) : ℤ) ((j * 4096 : ℕ) : ℤ) w.kernel.1) = (ok, w')) :
    w'.kobjs = w.kobjs ∧ Runs boot u l w w'
      (Inv boot u l w ∧ NamesFrame l i w.kernel 4096 ∧ (∀ r ∈ w.kobjs, r.slot ≠ i ∧ r.slot ≠ j) ∧
        w.caps i = true ∧ w.caps j = true ∧ capPerm w.kernel.1.mem (capSlot l j) = 0)
      (Inv boot u l w' ∧ ok = true ∧ Spare boot l w' j 4096) := by
  obtain ⟨x, hlog, hkobjs, hcaps, hcall⟩ := call_cases (w.say (.mapped o 4096 w.kernel))
    (sysObjCreate 21 o u ((i * 4096 : ℕ) : ℤ) ((j * 4096 : ℕ) : ℤ) w.kernel.1)
  rw [h] at hlog hkobjs hcaps hcall
  dsimp only at hlog hkobjs hcaps hcall
  refine ⟨hkobjs, [.mapped o 4096 w.kernel, .call x], by rw [hlog]; simp [World.say], ?_⟩
  rintro hs ⟨hinv, hframe, hother, hci, hcj, hfree⟩
  have hfresh : Fresh boot w.kernel.2 o 4096 := hs (.mapped o 4096 w.kernel) (by simp)
  obtain ⟨ev, k', hrun, hproc, hkeep, hnames, hnew⟩ := sysObjCreate_effect 20 hinv.process (slot_lt hi) (slot_lt hj)
    hframe hfree hfresh
  obtain ⟨rfl, rfl, hkernel⟩ := hcall ev k' hrun
  replace hkernel : w'.kernel = (k', w.kernel.2 ++ ev) := hkernel
  replace hcaps : w'.caps = w.caps := hcaps
  replace hkobjs : w'.kobjs = w.kobjs := hkobjs
  have hkept (r : Kobj) (hr : r ∈ w.kobjs) : Keeps boot l r.slot w.kernel w'.kernel := by
    rw [hkernel]
    exact hkeep _ (slot_lt (hinv.mirror r hr).small) (hother r hr).1 (hother r hr).2
  refine ⟨by simp [Event.Succeeds], ?_, rfl, hj, by rw [hcaps, hcj], by rw [hkernel]; exact hnames, ?_⟩
  · refine hinv.keep (hkernel ▸ hproc) hkobjs (fun n hn => hcaps ▸ hn) (fun n hn hc => ?_) hkept
    rw [hcaps] at hc
    rw [hkernel]
    exact hkeep n (slot_lt hn) (slot_ne hci hc).symm (slot_ne hcj hc).symm
  · intro r hr he
    rw [hkobjs] at hr
    apply hnew
    have hobj : objAt l w'.kernel r.slot = objAt l w.kernel r.slot := (hkept r hr).obj
    have hj' : objAt l w'.kernel j = capObj k'.mem (capSlot l j) := by rw [hkernel]; rfl
    rw [← hj', ← he, hobj]
    exact hinv.live hr

theorem spare_runs {c : Option Bool} (h : kobjPoolAlloc e w = .ok (c, w')) : Runs boot u l w w'
    (Inv boot u l w ∧ Spare boot l w j m) (Inv boot u l w' ∧ c ≠ none ∧ Spare boot l w' j m) := by
  obtain ⟨hkobjs, hcaps, hruns⟩ := kobjPoolAlloc_runs boot u l h
  apply hruns.imp And.left
  rintro ⟨hinv, hs⟩ ⟨hinv', hc, hkeep⟩
  refine ⟨hinv', hc, hs.small, hcaps j hs.used, ?_, fun r hr => ?_⟩
  · exact hs.names.keep hinv.process (slot_lt hs.small) (hkeep j (slot_lt hs.small) hs.used)
  · rw [hkobjs] at hr
    have hm := hinv.mirror r hr
    have hr' : objAt l w'.kernel r.slot = objAt l w.kernel r.slot := (hkeep _ (slot_lt hm.small) hm.used).obj
    have hj' : objAt l w'.kernel j = objAt l w.kernel j := (hkeep j (slot_lt hs.small) hs.used).obj
    rw [hr', hj']
    exact hs.fresh r hr

theorem kobjAllocNew_runs {len : ℕ} (hlen : len ≤ 4096) (h : kobjAllocNew e u len w = .ok (ok, w')) :
    Runs boot u l w w' (Inv boot u l w)
      (Inv boot u l w' ∧ ok = true ∧ ∃ j, w'.kobjs = ⟨j * 4096, false, objUntyped, 4096⟩ :: w.kobjs) := by
  have hpage : (if len < 0x1000 then 0x1000 else len) = 4096 := by
    split_ifs <;> omega
  unfold kobjAllocNew at h
  dsimp only at h
  rw [hpage] at h
  cases hreq : requestMemory e 4096 w with
  | error w₀ =>
    rw [hreq] at h
    cases h
  | ok x =>
  obtain ⟨fid, w₁⟩ := x
  rw [hreq] at h
  obtain ⟨hkobjs₁, i, hi, hfid, hruns₁⟩ := requestMemory_runs boot u l hreq
  obtain rfl | rfl := hfid
  · cases h
    apply hruns₁.imp id
    rintro - ⟨-, hne, -⟩
    exact absurd rfl hne
  dsimp only at h
  cases hcap : kcapAlloc w₁ with
  | error w₀ =>
    rw [hcap] at h
    cases h
  | ok x =>
  obtain ⟨cid, w₂⟩ := x
  rw [hcap] at h
  dsimp only at h
  obtain ⟨j, hj, rfl, hw₂, hruns₂⟩ := kcapAlloc_runs boot u l hcap
  have hkobjs₂ : w₂.kobjs = w.kobjs := by
    rw [hw₂]
    exact hkobjs₁
  have hkernel₂ : w₂.kernel = w₁.kernel := by rw [hw₂]
  obtain ⟨ok₃, w₃, hcreate⟩ : ∃ ok₃ w₃, (w₂.say (.mapped (e.kernelMap w₂.log.length) 4096 w₂.kernel)).call
      (sysObjCreate 21 (e.kernelMap w₂.log.length) u ((i * 4096 : ℕ) : ℤ) ((j * 4096 : ℕ) : ℤ) w₂.kernel.1) =
        (ok₃, w₃) := ⟨_, _, rfl⟩
  obtain ⟨hkobjs₃, hruns₃⟩ := create_runs boot u l hi hj hcreate
  have hmade : Runs boot u l w w₃ (Inv boot u l w)
      (Inv boot u l w₃ ∧ ok₃ = true ∧ Spare boot l w₃ j 4096) := by
    apply hruns₁.trans
    refine (hruns₂.imp And.left ?_).trans hruns₃
    rintro ⟨hinv, -, hci, hother, hframe⟩ ⟨hinv₂, hcj, hfree, hused⟩
    refine ⟨hinv₂, hkernel₂ ▸ hframe, fun r hr => ?_, (hused i hci).2, hcj, hfree⟩
    rw [hkobjs₂] at hr
    refine ⟨hother r hr, ?_⟩
    exact (hused _ (hinv.mirror r (hkobjs₁ ▸ hr)).used).1
  rw [hcreate] at h
  cases ok₃ with
  | false =>
    cases h
    apply hmade.imp id
    rintro - ⟨-, hok, -⟩
    cases hok
  | true =>
    obtain ⟨⟨c, w₄⟩, hpool, he⟩ := map_ok h
    have hkobjs₄ : w₄.kobjs = w.kobjs :=
      ((kobjPoolAlloc_runs boot u l hpool).1.trans hkobjs₃).trans hkobjs₂
    have hspare : Runs boot u l w w₄ (Inv boot u l w) (Inv boot u l w₄ ∧ c ≠ none ∧ Spare boot l w₄ j 4096) :=
      hmade.trans ((spare_runs hpool).imp (fun hp => ⟨hp.1, hp.2.2⟩) fun _ hq => hq)
    cases c with
    | none =>
      cases he
      apply hspare.imp id
      rintro - ⟨-, hne, -⟩
      exact absurd rfl hne
    | some c =>
      cases he
      refine hspare.trans (.silent rfl ?_)
      rintro ⟨hinv, -, hs⟩
      refine ⟨hinv.add hs ⟨12, Nat.le_refl 12, rfl⟩ (List.Perm.refl _) rfl rfl, rfl, j, ?_⟩
      rw [hkobjs₄]

end New

section Splits

variable {boot : List (ℕ × ℕ)} {u l i m cid d : ℕ} {w w' w₁ : World} {e : Env} {ok : Bool}

def Found (w : World) (i m cid : ℕ) : Prop :=
  ∃ f, w.kobjs[i]? = some f ∧ f.type = objUntyped ∧ f.len = m ∧ f.cid = cid

def Grown (w w' : World) : Prop := ∀ r ∈ w.kobjs, r.type ≠ objUntyped → r ∈ w'.kobjs

theorem Grown.trans (h : Grown w w₁) (h' : Grown w₁ w') : Grown w w' := fun r hr ht => h' r (h r hr ht) ht

theorem Found.other (hf : Found w i m cid) {r : Kobj} (hr : r ∈ w.kobjs) (ht : r.type ≠ objUntyped) :
    ∃ j, j ≠ i ∧ w.kobjs[j]? = some r := by
  obtain ⟨f, hf, hft, -⟩ := hf
  obtain ⟨j, hj⟩ := List.mem_iff_getElem?.mp hr
  refine ⟨j, ?_, hj⟩
  rintro rfl
  cases hf.symm.trans hj
  exact ht hft

theorem grown_modify {g : Kobj → Kobj} (hf : Found w i m cid) {r : Kobj} (hr : r ∈ w.kobjs)
    (ht : r.type ≠ objUntyped) : r ∈ w.kobjs.modify i g := by
  obtain ⟨j, hji, hj⟩ := hf.other hr ht
  exact List.mem_of_getElem? ((List.getElem?_modify_ne _ _ hji.symm).trans hj)

theorem half_size (hm : 64 ≤ m) (hsize : ∃ a ≤ 12, m = 2 ^ a) : m ≤ 4096 ∧ ∃ b ≤ 12, m / 2 = 2 ^ b := by
  obtain ⟨a, ha, rfl⟩ := hsize
  refine ⟨Nat.pow_le_pow_right (by decide) ha, ?_⟩
  cases a with
  | zero => omega
  | succ a => exact ⟨a, by omega, by rw [Nat.pow_succ]; omega⟩

theorem split_runs (boot : List (ℕ × ℕ)) (u l : ℕ) {j : ℕ} {f : Kobj} {c : Bool} (hj : j < 480)
    (hf : w.kobjs[i]? = some f)
    (h : w.call (sysObjSplit u (f.cid : ℤ) ((j * 4096 : ℕ) : ℤ) w.kernel.1) = (ok, w₁))
    (hw : ok = true → w' = { w₁ with
      kobjs := (w₁.kobjs.modify i fun o => { o with len := o.len / 2 }).insertIdx (i + 1)
        ⟨j * 4096, c, objUntyped, f.len / 2⟩ })
    (hw' : ok = false → w' = w₁) :
    Runs boot u l w w'
      (Inv boot u l w ∧ Found w i m cid ∧ 64 ≤ m ∧ w.caps j = true ∧ capPerm w.kernel.1.mem (capSlot l j) = 0 ∧
        ∀ r ∈ w.kobjs, r.slot ≠ j)
      (Inv boot u l w' ∧ ok = true ∧ Found w' i (m / 2) cid ∧ Grown w w') := by
  obtain ⟨x, hlog, hkobjs, hcaps, hcall⟩ := call_cases w
    (sysObjSplit u (f.cid : ℤ) ((j * 4096 : ℕ) : ℤ) w.kernel.1)
  rw [h] at hlog hkobjs hcaps hcall
  dsimp only at hlog hkobjs hcaps hcall
  have hlog' : w'.log = w.log ++ [.call x] := by
    cases ok with
    | false => rw [hw' rfl, hlog]
    | true => rw [hw rfl, hlog]
  refine .event hlog' ?_
  rintro - ⟨hinv, hfound, hm, hcj, hfree, hother⟩
  have hfound' := hfound
  obtain ⟨f', hf', hft, rfl, rfl⟩ := hfound
  cases hf.symm.trans hf'
  have hmir := hinv.mirror f (List.mem_of_getElem? hf)
  obtain ⟨hpage, hhalf⟩ := half_size hm (hmir.size hft)
  obtain ⟨ev, k', hrun, hproc, hkeep, hlow, hhigh, hobj, hnew⟩ := sysObjSplit_effect hinv.process
    (slot_lt hmir.small) (slot_lt hj) (hft ▸ hmir.names) (by omega) hpage hfree
  rw [← hmir.cid] at hrun
  obtain ⟨rfl, rfl, hkernel⟩ := hcall ev k' hrun
  have hw := hw rfl
  have hslotj : f.slot ≠ j := hother f (List.mem_of_getElem? hf)
  have hkept (r : Kobj) (hr : r ∈ w.kobjs) (hrf : r.slot ≠ f.slot) :
      Keeps boot l r.slot w.kernel w₁.kernel := by
    rw [hkernel]
    exact hkeep _ (slot_lt (hinv.mirror r hr).small) hrf (hother r hr)
  -- first the record of the lower half, then that of the upper one
  have hinv₁ : Inv boot u l { w₁ with kobjs := w.kobjs.modify i fun o => { o with len := o.len / 2 } } := by
    refine hinv.change (g := fun o => { o with len := o.len / 2 }) hf (fun _ => rfl) rfl hcaps (hkernel ▸ hproc)
      (fun n hn hc => ?_) hkept ?_ (fun _ => hhalf) ?_
    · show Keeps boot l n w.kernel w₁.kernel
      rw [hkernel]
      exact hkeep n (slot_lt hn) (slot_ne hmir.used hc).symm (slot_ne hcj hc).symm
    · show Names boot l f.slot w₁.kernel f.type (f.len / 2)
      rw [hkernel, hft]
      exact hlow
    · show objAt l w₁.kernel f.slot = objAt l w.kernel f.slot
      rw [hkernel]
      exact hobj
  have hobjs (r : Kobj) (hr : r ∈ w.kobjs) : objAt l w₁.kernel r.slot = objAt l w.kernel r.slot := by
    by_cases hrf : r.slot = f.slot
    · rw [hrf, hkernel]
      exact hobj
    · exact (hkept r hr hrf).obj
  have hspare : Spare boot l { w₁ with kobjs := w.kobjs.modify i fun o => { o with len := o.len / 2 } } j
      (f.len / 2) := by
    refine ⟨hj, by show w₁.caps j = true; rw [hcaps, hcj], by show Names boot l j w₁.kernel _ _; rw [hkernel]; exact hhigh,
      fun r hr he => ?_⟩
    obtain ⟨y, hy, hslot⟩ : ∃ y ∈ w.kobjs, r.slot = y.slot := by
      obtain ⟨y, hy, rfl⟩ | ⟨n, -, hn⟩ := mem_modify hr
      · exact ⟨y, List.mem_of_getElem? hy, rfl⟩
      · exact ⟨r, List.mem_of_getElem? hn, rfl⟩
    apply hnew
    have hj' : objAt l w₁.kernel j = capObj k'.mem (capSlot l j) := by
      rw [hkernel]
      rfl
    have he' : objAt l w₁.kernel y.slot = objAt l w₁.kernel j := hslot ▸ he
    rw [← hj', ← he', hobjs y hy]
    exact hinv.live hy
  obtain ⟨hlt, -⟩ := List.getElem?_eq_some_iff.mp hf
  have hperm := List.perm_insertIdx (⟨j * 4096, c, objUntyped, f.len / 2⟩ : Kobj)
    (w.kobjs.modify i fun o => { o with len := o.len / 2 }) (i := i + 1) (by rw [List.length_modify]; omega)
  have hkobjs' : w'.kobjs = (w.kobjs.modify i fun o => { o with len := o.len / 2 }).insertIdx (i + 1)
      ⟨j * 4096, c, objUntyped, f.len / 2⟩ := by
    rw [hw, hkobjs]
  refine ⟨rfl, ?_, rfl, ⟨{ f with len := f.len / 2 }, ?_, hft, rfl, rfl⟩, fun r hr ht => ?_⟩
  · refine hinv₁.add hspare hhalf (c := c) ?_ ?_ ?_
    · rw [hkobjs']
      exact hperm
    · rw [hw]
    · rw [hw]
  · rw [hkobjs', List.getElem?_insertIdx_of_lt (Nat.lt_succ_self i), List.getElem?_modify_eq, hf]
    rfl
  · rw [hkobjs']
    exact hperm.mem_iff.mpr (List.mem_cons_of_mem _ (grown_modify hfound' hr ht))

theorem kobjSplit_runs (h : kobjSplit e u i w = .ok (ok, w')) : Runs boot u l w w'
    (Inv boot u l w ∧ Found w i m cid ∧ 64 ≤ m)
    (Inv boot u l w' ∧ ok = true ∧ Found w' i (m / 2) cid ∧ Grown w w') := by
  unfold kobjSplit at h
  cases hf : w.kobjs[i]? with
  | none =>
    rw [hf] at h
    cases h
    refine .silent rfl ?_
    rintro ⟨-, ⟨f, hf', -⟩, -⟩
    rw [hf] at hf'
    cases hf'
  | some f =>
  rw [hf] at h
  dsimp only at h
  by_cases hbad : f.type ≠ objUntyped ∨ f.len < 4
  · rw [if_pos hbad] at h
    cases h
    refine .silent rfl ?_
    rintro ⟨-, ⟨f', hf', ht, hl, -⟩, hm⟩
    cases hf.symm.trans hf'
    obtain hne | hlt := hbad
    · exact absurd ht hne
    · omega
  rw [if_neg hbad] at h
  cases hcap : kcapAlloc w with
  | error w₀ =>
    rw [hcap] at h
    cases h
  | ok x =>
  obtain ⟨nid, w₁⟩ := x
  rw [hcap] at h
  dsimp only at h
  obtain ⟨j, hj, rfl, hw₁, hruns₁⟩ := kcapAlloc_runs boot u l hcap
  cases hpool : kobjPoolAlloc e w₁ with
  | error w₀ =>
    rw [hpool] at h
    cases h
  | ok x =>
  obtain ⟨c, w₂⟩ := x
  rw [hpool] at h
  obtain ⟨hkobjs₂, hcaps₂, hruns₂⟩ := kobjPoolAlloc_runs boot u l hpool
  have hkobjs : w₂.kobjs = w.kobjs := by
    rw [hkobjs₂, hw₁]
  have hready : Runs boot u l w w₂ (Inv boot u l w ∧ Found w i m cid ∧ 64 ≤ m)
      (c ≠ none ∧ Inv boot u l w₂ ∧ Found w₂ i m cid ∧ 64 ≤ m ∧ w₂.caps j = true ∧
        capPerm w₂.kernel.1.mem (capSlot l j) = 0 ∧ ∀ r ∈ w₂.kobjs, r.slot ≠ j) := by
    have hnid : Runs boot u l w w₁ (Inv boot u l w ∧ Found w i m cid ∧ 64 ≤ m)
        (Inv boot u l w₁ ∧ (Inv boot u l w ∧ Found w i m cid ∧ 64 ≤ m) ∧ w₁.caps j = true ∧
          capPerm w₁.kernel.1.mem (capSlot l j) = 0 ∧ ∀ n, w.caps n = true → n ≠ j ∧ w₁.caps n = true) :=
      hruns₁.imp And.left fun hp hq => ⟨hq.1, hp, hq.2⟩
    refine hnid.trans (hruns₂.imp And.left ?_)
    · rintro ⟨-, ⟨hinv, ⟨f', hf', hft, hl, hc⟩, hm⟩, hcj, hfree, hused⟩ ⟨hinv₂, hne, hkeep⟩
      refine ⟨hne, hinv₂, ⟨f', by rw [hkobjs, hf'], hft, hl, hc⟩, hm, hcaps₂ j hcj, ?_, fun r hr => ?_⟩
      · rw [(hkeep j (slot_lt hj) hcj).perm, hfree]
      · rw [hkobjs] at hr
        exact (hused _ (hinv.mirror r hr).used).1
  cases c with
  | none =>
    cases h
    apply hready.imp id
    rintro - ⟨hne, -⟩
    exact absurd rfl hne
  | some c =>
    obtain ⟨ok₃, w₃, hcall⟩ : ∃ ok₃ w₃, w₂.call (sysObjSplit u (f.cid : ℤ) ((j * 4096 : ℕ) : ℤ) w₂.kernel.1) =
      (ok₃, w₃) := ⟨_, _, rfl⟩
    dsimp only at h
    rw [hcall] at h
    have hsplit : Runs boot u l w₂ w' _ (Inv boot u l w' ∧ ok₃ = true ∧ Found w' i (m / 2) cid ∧ Grown w₂ w') :=
      split_runs boot u l (c := c) hj (by rw [hkobjs, hf]) hcall
        (fun hok => by rw [hok] at h; cases h; rfl) (fun hok => by rw [hok] at h; cases h; rfl)
    have hok : ok = ok₃ := by
      cases ok₃ <;> cases h <;> rfl
    refine hready.trans (hsplit.imp And.right ?_)
    rintro - ⟨hinv, hok₃, hfound, hgrown⟩
    refine ⟨hinv, hok.trans hok₃, hfound, fun r hr => ?_⟩
    exact hgrown r (hkobjs ▸ hr)

theorem splits_runs (hd : 5 ≤ d) {fuel : ℕ} (h : splits e u (2 ^ d) i fuel w = .ok (ok, w')) : Runs boot u l w w'
    (Inv boot u l w ∧ ∃ a, Found w i (2 ^ a) cid ∧ d ≤ a ∧ a ≤ d + fuel)
    (Inv boot u l w' ∧ ok = true ∧ Found w' i (2 ^ d) cid ∧ Grown w w') := by
  induction fuel generalizing w with
  | zero =>
    cases h
    refine .silent rfl ?_
    rintro ⟨hinv, a, hf, hda, had⟩
    have hd : a = d := by omega
    exact ⟨hinv, rfl, hd ▸ hf, fun r hr _ => hr⟩
  | succ fuel ih =>
    unfold splits at h
    by_cases hlong : w.kobjs[i]?.any (fun f => 2 ^ d < f.len) = true
    · rw [if_pos hlong] at h
      cases hsplit : kobjSplit e u i w with
      | error w₀ =>
        rw [hsplit] at h
        cases h
      | ok x =>
      obtain ⟨ok₁, w₁⟩ := x
      rw [hsplit] at h
      have hone (a : ℕ) : Runs boot u l w w₁ (Inv boot u l w ∧ Found w i (2 ^ a) cid ∧ d ≤ a ∧ a ≤ d + (fuel + 1))
          (ok₁ = true ∧ Grown w w₁ ∧ Inv boot u l w₁ ∧ ∃ a, Found w₁ i (2 ^ a) cid ∧ d ≤ a ∧ a ≤ d + fuel) := by
        have hpos (hf : Found w i (2 ^ a) cid) (hda : d ≤ a) : d < a := by
          obtain ⟨f, hf, -, hl, -⟩ := hf
          rw [hf] at hlong
          have hlt : 2 ^ d < 2 ^ a := by
            rw [← hl]
            simpa using hlong
          exact (Nat.pow_lt_pow_iff_right (by decide)).mp hlt
        apply (kobjSplit_runs (m := 2 ^ a) hsplit).imp
        · rintro ⟨hinv, hf, hda, -⟩
          have hlt := hpos hf hda
          have h64 : 2 ^ 6 ≤ 2 ^ a := Nat.pow_le_pow_right (by decide) (by omega)
          exact ⟨hinv, hf, h64⟩
        · rintro ⟨-, hf, hda, had⟩ ⟨hinv, hok, hf₁, hgrown⟩
          have hlt := hpos hf hda
          obtain ⟨b, rfl⟩ : ∃ b, a = b + 1 := ⟨a - 1, by omega⟩
          rw [Nat.pow_succ, Nat.mul_div_cancel (2 ^ b) Nat.zero_lt_two] at hf₁
          exact ⟨hok, hgrown, hinv, b, hf₁, by omega, by omega⟩
      have hall := Runs.exists hone
      cases ok₁ with
      | false =>
        cases h
        apply hall.imp
        · rintro ⟨hinv, a, hf⟩
          exact ⟨a, hinv, hf⟩
        · rintro - ⟨-, hok, -⟩
          cases hok
      | true =>
        have hstep : Runs boot u l w w₁ (Inv boot u l w ∧ ∃ a, Found w i (2 ^ a) cid ∧ d ≤ a ∧ a ≤ d + (fuel + 1))
            (Grown w w₁ ∧ Inv boot u l w₁ ∧ ∃ a, Found w₁ i (2 ^ a) cid ∧ d ≤ a ∧ a ≤ d + fuel) :=
          hall.imp (fun ⟨hinv, a, hf⟩ => ⟨a, hinv, hf⟩) fun _ ⟨_, _, hgrown, hinv, hf⟩ => ⟨hgrown, hinv, hf⟩
        apply hstep.trans
        apply (ih h).imp And.right
        rintro ⟨hgrown, -⟩ ⟨hinv, hok, hf, hgrown'⟩
        exact ⟨hinv, hok, hf, hgrown.trans hgrown'⟩
    · rw [if_neg hlong] at h
      cases h
      refine .silent rfl ?_
      rintro ⟨hinv, a, ⟨f, hf, ht, hl, hc⟩, hda, had⟩
      rw [hf] at hlong
      have hle : 2 ^ a ≤ 2 ^ d := by
        rw [← hl]
        simpa using hlong
      have hd : a = d := Nat.le_antisymm ((Nat.pow_le_pow_iff_right (by decide)).mp hle) hda
      exact ⟨hinv, rfl, ⟨f, hf, ht, hd ▸ hl, hc⟩, fun r hr _ => hr⟩

end Splits

end Agatha.User.KernelObjects
