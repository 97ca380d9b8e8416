import Vmwgfx.RefObjects

set_option autoImplicit false

/-!
# Writers of a buffer

`cpu_writers` and the counts of the base objects are what the reference objects, the threads
on their way and the other holders account for. The rest is kept by every step: an object
is alive as long as anything refers to it, and a reference object is found under the handle
of its object.
-/
namespace Vmwgfx.RefObjects
open ExecbufState (Errno)
open LabelledRuns Shares

def refersTo (b : ℕ) (r : RefObject) : Bool := decide (r.obj = b)

def writesTo (b : ℕ) (r : RefObject) : Bool := decide (r.refType = .synccpuWrite ∧ r.obj = b)

/-- How many of the reference objects satisfy `p`. -/
def countOf (p : ℕ → RefObject → Bool) (l : List RefObject) (b : ℕ) : ℤ := l.countP (p b)

def grabsOf (l : List (ℕ × ℕ)) (b : ℕ) : ℤ := l.countP fun g => decide (g.2 = b)

def listed (p : ℕ → RefObject → Bool) (s : TtmDev) : ℕ → ℤ :=
  ∑ f ∈ s.files, countOf p (s.refList f)

def refcountOf (s : TtmDev) (b : ℕ) : ℤ := (s.base b).elim 0 (·.refcount)

def debt (p : ℕ → RefObject → Bool) (count : ℕ → ℤ) (s : TtmDev) : ℕ → ℤ :=
  count - listed p s - grabsOf s.grabs - countOf p s.releases

/-- What a reference object says of its object, while that is alive. -/
def Fits (s : TtmDev) (r : RefObject) : Prop :=
  ∀ B, s.base r.obj = some B → B.handle = r.key ∧ (r.refType ≠ .usage → B.isBuffer = true)

structure Placed (s : TtmDev) : Prop where
  closed : ∀ f, f ∉ s.files → s.refList f = []
  closing : s.closing ⊆ s.files
  unique : ∀ f, (s.refList f).Pairwise fun r q => ¬ (r.refType = q.refType ∧ r.key = q.key)
  indexed : ∀ b B, s.base b = some B → s.idr B.handle = some b
  fits : ∀ f, ∀ r ∈ s.refList f, r.tfile = f ∧ Fits s r
  released : ∀ r ∈ s.releases, r.tfile ∈ s.files ∧ Fits s r
  grabbing : ∀ g ∈ s.grabs, (g.1 ∈ s.files ∧ g.1 ∉ s.closing) ∧
    ∀ B, s.base g.2 = some B → B.isBuffer = true
  others : ∀ b, 0 ≤ s.otherRefs b

/-- The counts of base objects are too large by `R`, those of writers by `W`. -/
structure Owed (R W : ℕ → ℤ) (s : TtmDev) : Prop extends Placed s where
  refcounts : debt refersTo (refcountOf s - s.otherRefs) s = R
  writers : debt writesTo s.cpuWriters s = W

def Inv (s : TtmDev) : Prop := Owed 0 0 s

variable {p : ℕ → RefObject → Bool} {s t : TtmDev} {f b : ℕ} {l : List RefObject} {r : RefObject}

theorem countOf_nonneg (p : ℕ → RefObject → Bool) (l : List RefObject) (b : ℕ) :
    0 ≤ countOf p l b := Int.natCast_nonneg _

theorem grabsOf_nonneg (l : List (ℕ × ℕ)) (b : ℕ) : 0 ≤ grabsOf l b := Int.natCast_nonneg _

theorem countOf_append : countOf p (l ++ [r]) = countOf p l + countOf p [r] := by
  funext b
  simp [countOf, List.countP_append]

theorem countOf_cons : countOf p (r :: l) = countOf p l + countOf p [r] := by
  funext b
  simp [countOf, List.countP_cons, List.countP_nil]

theorem countOf_erase (hr : r ∈ l) : countOf p (l.erase r) = countOf p l - countOf p [r] := by
  funext b
  have hperm := (List.perm_cons_erase hr).countP_eq (p b)
  simp only [countOf, Pi.sub_apply]
  rw [hperm, List.countP_cons, List.countP_cons, List.countP_nil]
  push_cast
  omega

theorem countOf_map (g : RefObject → RefObject) (hp : ∀ b q, p b (g q) = p b q) :
    countOf p (l.map g) = countOf p l := by
  funext b
  simp only [countOf, List.countP_map]
  congr 2
  funext q
  exact hp b q

theorem countOf_refersTo : countOf refersTo [r] = Pi.single r.obj 1 := by
  funext b
  by_cases h : r.obj = b
  · subst h
    simp [countOf, refersTo]
  · simp [countOf, refersTo, h]

theorem countOf_writesTo :
    countOf writesTo [r] = if r.refType = .synccpuWrite then Pi.single r.obj 1 else 0 := by
  funext b
  split_ifs with hw
  · by_cases h : r.obj = b
    · subst h
      simp [countOf, writesTo, hw]
    · simp [countOf, writesTo, h]
  · simp [countOf, writesTo, hw]

theorem grabsOf_cons (f b : ℕ) (l : List (ℕ × ℕ)) :
    grabsOf ((f, b) :: l) = grabsOf l + Pi.single b 1 := by
  funext c
  by_cases h : b = c
  · subst h
    simp [grabsOf]
  · simp [grabsOf, h]

theorem grabsOf_erase {g : List (ℕ × ℕ)} (hg : (f, b) ∈ g) :
    grabsOf (g.erase (f, b)) = grabsOf g - Pi.single b 1 := by
  have hperm : grabsOf g = grabsOf ((f, b) :: g.erase (f, b)) := by
    funext c
    simp only [grabsOf]
    rw [(List.perm_cons_erase hg).countP_eq]
  rw [hperm, grabsOf_cons]
  abel

theorem listed_setRefs (hf : f ∈ s.files) :
    listed p (setRefs f l s) = listed p s + countOf p l - countOf p (s.refList f) := by
  have hsum := sum_change (fun g => countOf p (s.refList g))
    (fun g => countOf p (Function.update s.refList f l g)) hf
    fun g _ hg => by rw [Function.update_of_ne hg]
  rw [Function.update_self] at hsum
  exact hsum

theorem debt_setRefs {count : ℕ → ℤ} (hf : f ∈ s.files) :
    debt p count (setRefs f l s) = debt p count s - countOf p l + countOf p (s.refList f) := by
  unfold debt
  rw [listed_setRefs hf]
  simp only [setRefs]
  abel

theorem debt_step (s : TtmDev) (count : ℕ → ℤ) {count' : ℕ → ℤ} (hf : t.files = s.files)
    (hl : t.refList = s.refList) : debt p count' t = debt p count s + (count' - count) -
      (grabsOf t.grabs - grabsOf s.grabs) - (countOf p t.releases - countOf p s.releases) := by
  unfold debt listed
  rw [hf, hl]
  abel

theorem debt_refersTo (s : TtmDev) (hf : t.files = s.files) (hl : t.refList = s.refList)
    (hb : t.base = s.base) (ho : t.otherRefs = s.otherRefs) :
    debt refersTo (refcountOf t - t.otherRefs) t =
      debt refersTo (refcountOf s - s.otherRefs) s - (grabsOf t.grabs - grabsOf s.grabs) -
        (countOf refersTo t.releases - countOf refersTo s.releases) := by
  have hcount : refcountOf t = refcountOf s := by
    funext b
    rw [refcountOf, refcountOf, hb]
  rw [debt_step s _ hf hl, hcount, ho, sub_self, add_zero]

theorem listed_nonneg (p : ℕ → RefObject → Bool) (s : TtmDev) (b : ℕ) : 0 ≤ listed p s b := by
  rw [listed, Finset.sum_apply]
  exact Finset.sum_nonneg fun f _ => countOf_nonneg p _ b

theorem countOf_le_listed (hf : f ∈ s.files) (b : ℕ) :
    countOf p (s.refList f) b ≤ listed p s b := by
  rw [listed, Finset.sum_apply]
  exact Finset.single_le_sum (f := fun f => countOf p (s.refList f) b)
    (fun g _ => countOf_nonneg p _ b) hf

theorem Inv.refcount (h : Inv s) (b : ℕ) : refcountOf s b =
    s.otherRefs b + listed refersTo s b + grabsOf s.grabs b + countOf refersTo s.releases b := by
  have hb := congrFun h.refcounts b
  simp only [debt, Pi.sub_apply, Pi.zero_apply] at hb
  omega

theorem base_of_refcount (h : 0 < refcountOf s b) : ∃ B, s.base b = some B := by
  unfold refcountOf at h
  cases hb : s.base b with
  | none =>
    rw [hb] at h
    exact absurd h (lt_irrefl 0)
  | some B => exact ⟨B, rfl⟩

theorem countOf_pos {b : ℕ} (hr : r ∈ l) (hp : p b r = true) : 0 < countOf p l b :=
  Int.natCast_pos.2 (List.countP_pos_iff.2 ⟨r, hr, hp⟩)

theorem Inv.alive_of_ref (h : Inv s) (hr : r ∈ s.refList f) : ∃ B, s.base r.obj = some B := by
  apply base_of_refcount
  have hf : f ∈ s.files := by
    by_contra hf
    rw [h.closed f hf] at hr
    cases hr
  have hpos : 0 < countOf refersTo (s.refList f) r.obj := countOf_pos hr (by simp [refersTo])
  have hle := countOf_le_listed (p := refersTo) hf r.obj
  have hgrabs := grabsOf_nonneg s.grabs r.obj
  have hreleases := countOf_nonneg refersTo s.releases r.obj
  have hothers := h.others r.obj
  rw [h.refcount]
  omega

theorem Inv.alive_of_release (h : Inv s) (hr : r ∈ s.releases) : ∃ B, s.base r.obj = some B := by
  apply base_of_refcount
  have hpos : 0 < countOf refersTo s.releases r.obj := countOf_pos hr (by simp [refersTo])
  have hlisted := listed_nonneg refersTo s r.obj
  have hgrabs := grabsOf_nonneg s.grabs r.obj
  have hothers := h.others r.obj
  rw [h.refcount]
  omega

theorem Inv.alive_of_grab (h : Inv s) (hg : (f, b) ∈ s.grabs) : ∃ B, s.base b = some B := by
  apply base_of_refcount
  have hpos : 0 < grabsOf s.grabs b :=
    Int.natCast_pos.2 (List.countP_pos_iff.2 ⟨_, hg, by simp⟩)
  have hlisted := listed_nonneg refersTo s b
  have hreleases := countOf_nonneg refersTo s.releases b
  have hothers := h.others b
  rw [h.refcount]
  omega

theorem Inv.alive_of_other (h : Inv s) (hb : 0 < s.otherRefs b) : ∃ B, s.base b = some B := by
  apply base_of_refcount
  have hlisted := listed_nonneg refersTo s b
  have hgrabs := grabsOf_nonneg s.grabs b
  have hreleases := countOf_nonneg refersTo s.releases b
  rw [h.refcount]
  omega

theorem Placed.setRefs (h : Placed s) (hf : f ∈ s.files)
    (hl : l.Pairwise fun r q => ¬ (r.refType = q.refType ∧ r.key = q.key))
    (hfits : ∀ r ∈ l, r.tfile = f ∧ Fits s r) : Placed (setRefs f l s) := by
  refine ⟨?_, h.closing, ?_, h.indexed, ?_, h.released, h.grabbing, h.others⟩
  · intro g hg
    have hgf : g ≠ f := by
      rintro rfl
      exact hg hf
    rw [setRefs_of_ne hgf]
    exact h.closed g hg
  · intro g
    by_cases hgf : g = f
    · subst hgf
      rwa [setRefs_self]
    · rw [setRefs_of_ne hgf]
      exact h.unique g
  · intro g
    by_cases hgf : g = f
    · subst hgf
      rwa [setRefs_self]
    · rw [setRefs_of_ne hgf]
      exact h.fits g

variable {R W : ℕ → ℤ} {B : BaseObject}

theorem refcountOf_setBase (v : Option BaseObject) (s : TtmDev) : refcountOf (setBase b v s) =
    refcountOf s + Pi.single b (v.elim 0 (·.refcount) - refcountOf s b) := by
  funext c
  by_cases h : c = b
  · subst h
    simp [refcountOf, setBase]
  · simp [refcountOf, setBase, h]

theorem Owed.setBase (h : Owed R W s) (hb : s.base b = some B) (v : Option BaseObject)
    (hv : ∀ C, v = some C → C.handle = B.handle ∧ C.isBuffer = B.isBuffer) :
    Owed (R + Pi.single b (v.elim 0 (·.refcount) - B.refcount)) W (setBase b v s) := by
  have hbase : ∀ c C, (RefObjects.setBase b v s).base c = some C →
      ∃ D, s.base c = some D ∧ C.handle = D.handle ∧ C.isBuffer = D.isBuffer := by
    intro c C hC
    by_cases hcb : c = b
    · subst hcb
      rw [setBase_self] at hC
      exact ⟨B, hb, hv C hC⟩
    · rw [setBase_of_ne hcb] at hC
      exact ⟨C, hC, rfl, rfl⟩
  have hfits : ∀ r, Fits s r → Fits (RefObjects.setBase b v s) r := by
    intro r hr C hC
    obtain ⟨D, hD, hhandle, hbuffer⟩ := hbase _ C hC
    rw [hhandle, hbuffer]
    exact hr D hD
  refine ⟨⟨h.closed, h.closing, h.unique, ?_, fun f r hr => (h.fits f r hr).imp_right (hfits r),
    fun r hr => (h.released r hr).imp_right (hfits r), fun g hg => ⟨(h.grabbing g hg).1, ?_⟩, h.others⟩, ?_,
    h.writers⟩
  · intro c C hC
    obtain ⟨D, hD, hhandle, -⟩ := hbase c C hC
    rw [hhandle]
    exact h.indexed c D hD
  · intro C hC
    obtain ⟨D, hD, -, hbuffer⟩ := hbase _ C hC
    rw [hbuffer]
    exact (h.grabbing g hg).2 D hD
  · have hself : refcountOf s b = B.refcount := by rw [refcountOf, hb, Option.elim_some]
    refine (debt_step s (refcountOf s - s.otherRefs) (by rfl) (by rfl)).trans ?_
    rw [h.refcounts, refcountOf_setBase, hself]
    simp only [RefObjects.setBase]
    abel

theorem Owed.addBaseRef (h : Owed R W s) (hb : s.base b = some B) :
    Owed (R + Pi.single b 1) W (addBaseRef b s) := by
  have hset := h.setBase hb (some { B with refcount := B.refcount + 1 })
    fun C hC => by obtain rfl := Option.some.inj hC; exact ⟨rfl, rfl⟩
  rw [Option.elim_some, add_sub_cancel_left] at hset
  unfold RefObjects.addBaseRef
  rw [hb]
  exact hset

theorem Owed.freeHandle (h : Owed R W s) {k : ℕ}
    (hk : ∀ c C, s.base c = some C → C.handle ≠ k) :
    Owed R W { s with idr := Function.update s.idr k none } := by
  refine ⟨⟨h.closed, h.closing, h.unique, ?_, h.fits, h.released, h.grabbing, h.others⟩,
    h.refcounts, h.writers⟩
  intro c C hC
  exact (Function.update_of_ne (hk c C hC) _ _).trans (h.indexed c C hC)

theorem Owed.unref (h : Owed R W s) (hb : s.base b = some B) :
    Owed (R - Pi.single b 1) W (ttmBaseObjectUnref b s) := by
  unfold ttmBaseObjectUnref
  rw [hb]
  dsimp only
  split_ifs with hlast
  · have hset := h.setBase hb none fun C hC => by cases hC
    rw [Option.elim_none, hlast, zero_sub, Pi.single_neg, ← sub_eq_add_neg] at hset
    apply hset.freeHandle
    intro c C hC heq
    have hcb : c ≠ b := by
      rintro rfl
      rw [setBase_self] at hC
      cases hC
    rw [setBase_of_ne hcb] at hC
    -- two objects that are alive have different handles
    have hidr := h.indexed c C hC
    rw [heq, h.indexed b B hb] at hidr
    exact hcb (Option.some.inj hidr).symm
  · have hset := h.setBase hb (some { B with refcount := B.refcount - 1 })
      fun C hC => by obtain rfl := Option.some.inj hC; exact ⟨rfl, rfl⟩
    rw [Option.elim_some, sub_sub_cancel_left, Pi.single_neg, ← sub_eq_add_neg] at hset
    exact hset

theorem Owed.writeRelease (h : Owed R W s) :
    Owed R (W - Pi.single b 1) (ttmBoSynccpuWriteRelease b s) := by
  refine ⟨⟨h.closed, h.closing, h.unique, h.indexed, h.fits, h.released, h.grabbing, h.others⟩,
    h.refcounts, ?_⟩
  refine (debt_step s s.cpuWriters (by rfl) (by rfl)).trans ?_
  rw [h.writers]
  simp only [ttmBoSynccpuWriteRelease]
  abel

theorem Owed.setRefs (h : Owed R W s) (hf : f ∈ s.files)
    (hl : l.Pairwise fun r q => ¬ (r.refType = q.refType ∧ r.key = q.key))
    (hfits : ∀ r ∈ l, r.tfile = f ∧ Fits s r) :
    Owed (R - countOf refersTo l + countOf refersTo (s.refList f))
      (W - countOf writesTo l + countOf writesTo (s.refList f)) (setRefs f l s) := by
  refine ⟨h.toPlaced.setRefs hf hl hfits, ?_, ?_⟩
  · rw [← h.refcounts]
    exact debt_setRefs hf
  · rw [← h.writers]
    exact debt_setRefs hf

theorem Owed.mapRefs (h : Owed R W s) (hf : f ∈ s.files) {g : RefObject → RefObject}
    (hg : ∀ q, (g q).refType = q.refType ∧ (g q).key = q.key ∧ (g q).obj = q.obj ∧
      (g q).tfile = q.tfile) :
    Owed R W (RefObjects.setRefs f ((s.refList f).map g) s) := by
  have hset := h.setRefs (l := (s.refList f).map g) hf ?_ ?_
  · rw [countOf_map g fun b q => by simp [refersTo, (hg q).2.2.1],
      countOf_map g fun b q => by simp [writesTo, (hg q).1, (hg q).2.2.1], sub_add_cancel,
      sub_add_cancel] at hset
    exact hset
  · rw [List.pairwise_map]
    apply (h.unique f).imp
    intro q q' hq
    rwa [(hg q).1, (hg q').1, (hg q).2.1, (hg q').2.1]
  · intro q hq
    obtain ⟨q', hq', rfl⟩ := List.mem_map.1 hq
    unfold Fits
    rw [(hg q').1, (hg q').2.1, (hg q').2.2.1, (hg q').2.2.2]
    exact h.fits f q' hq'

theorem findRef_none {ty : RefType} {key : ℕ} (h : findRef f ty key s = none) :
    ∀ r ∈ s.refList f, ¬ (r.refType = ty ∧ r.key = key) := by
  intro r hr
  have := List.find?_eq_none.1 h r hr
  simpa [kindOf] using this

/-- A grab with a new reference object, the one outcome in which it takes effect, is paid
    for by that object. -/
theorem Owed.add (h : Owed R W s) (mem : Option Errno) (ty : RefType) (hb : s.base b = some B)
    (hf : f ∈ s.files) (hty : ty ≠ .usage → B.isBuffer = true) :
    let r := ttmRefObjectAdd mem f b ty s
    Owed R (W - if r.1.toOption = some false ∧ ty = .synccpuWrite then Pi.single b 1 else 0) r.2 ∧
      ∃ C, r.2.base b = some C := by
  intro r
  have hr : r = ttmRefObjectAdd mem f b ty s := rfl
  clear_value r
  unfold ttmRefObjectAdd at hr
  rw [hb] at hr
  dsimp only at hr
  split_ifs at hr
  · subst hr
    refine ⟨?_, B, hb⟩
    simpa [Except.toOption] using h
  split at hr
  · subst hr
    refine ⟨?_, B, hb⟩
    simpa [Except.toOption] using h.mapRefs hf (g := getKref _) fun q => by
      unfold getKref
      split_ifs <;> exact ⟨rfl, rfl, rfl, rfl⟩
  rename_i hnone
  cases mem with
  | some e =>
    subst hr
    refine ⟨?_, B, hb⟩
    simpa [Except.toOption] using h
  | none =>
    subst hr
    have hlisted := h.setRefs (l := s.refList f ++ [⟨f, B.handle, b, ty, 1⟩]) hf ?_ ?_
    · have hadd := hlisted.addBaseRef (b := b) (B := B) hb
      rw [countOf_append, countOf_append, countOf_refersTo, countOf_writesTo] at hadd
      dsimp only at hadd ⊢
      refine ⟨?_, ?_⟩
      · convert hadd using 1
        · abel
        · by_cases hw : ty = .synccpuWrite
          · simp only [hw, Except.toOption, and_self, if_true]
            abel
          · simp only [hw, and_false, if_false]
            abel
      · rw [RefObjects.addBaseRef, show (RefObjects.setRefs f _ s).base b = some B from hb]
        exact ⟨_, setBase_self ..⟩
    · rw [List.pairwise_append]
      refine ⟨h.unique f, List.pairwise_singleton _ _, ?_⟩
      intro q hq q' hq'
      obtain rfl := List.mem_singleton.1 hq'
      exact findRef_none hnone q hq
    · intro q hq
      rcases List.mem_append.1 hq with hq | hq
      · exact h.fits f q hq
      · obtain rfl := List.mem_singleton.1 hq
        refine ⟨rfl, fun C hC => ?_⟩
        obtain rfl : B = C := Option.some.inj (hb.symm.trans hC)
        exact ⟨rfl, hty⟩

theorem Owed.startRelease (h : Owed R W s) (hr : r.tfile ∈ s.files ∧ Fits s r) :
    Owed (R - countOf refersTo [r]) (W - countOf writesTo [r])
      { s with releases := r :: s.releases } := by
  refine ⟨⟨h.closed, h.closing, h.unique, h.indexed, h.fits, ?_, h.grabbing, h.others⟩, ?_, ?_⟩
  · intro q hq
    rcases List.mem_cons.1 hq with rfl | hq
    · exact hr
    · exact h.released q hq
  · refine (debt_refersTo s (by rfl) (by rfl) (by rfl) (by rfl)).trans ?_
    rw [h.refcounts]
    simp only [countOf_cons (r := r) (l := s.releases)]
    abel
  · refine (debt_step s s.cpuWriters (by rfl) (by rfl)).trans ?_
    rw [h.writers]
    simp only [countOf_cons (r := r) (l := s.releases)]
    abel

theorem Owed.detach (h : Owed R W s) (hf : f ∈ s.files) (hr : r ∈ s.refList f) :
    Owed R W (detachRef f r s) := by
  have hset := h.setRefs (l := (s.refList f).erase r) hf ((h.unique f).sublist List.erase_sublist)
    fun q hq => h.fits f q (List.mem_of_mem_erase hq)
  obtain ⟨htfile, hfits⟩ := h.fits f r hr
  have hstart : Owed _ _ (detachRef f r s) := hset.startRelease ⟨by rwa [htfile], hfits⟩
  have hcancel : ∀ V x y : ℕ → ℤ, V - (x - y) + x - y = V := fun V x y => by abel
  rwa [countOf_erase hr, countOf_erase hr, hcancel, hcancel] at hstart

theorem Inv.unrefKey (h : Inv s) (hf : f ∈ s.files) {key : ℕ} {ty : RefType} :
    Inv (ttmRefObjectBaseUnref f key ty s).2 := by
  unfold ttmRefObjectBaseUnref
  split
  · exact h
  · rename_i r hr
    split_ifs
    · exact Owed.detach h hf (List.mem_of_find?_eq_some hr)
    · apply Owed.mapRefs h hf
      intro q
      unfold putKref
      split_ifs <;> exact ⟨rfl, rfl, rfl, rfl⟩

theorem Inv.finishRelease (h : Inv s) (hr : r ∈ s.releases) : Inv (finishRefRelease r s) := by
  obtain ⟨B, hB⟩ := h.alive_of_release hr
  have hbuffer := ((h.released r hr).2 B hB).2
  -- the reference object is off the list, its reference and its writer are not
  have herase : Owed (Pi.single r.obj 1)
      (if r.refType = .synccpuWrite then Pi.single r.obj 1 else 0)
      { s with releases := s.releases.erase r } := by
    refine ⟨⟨h.closed, h.closing, h.unique, h.indexed, h.fits,
      fun q hq => h.released q (List.mem_of_mem_erase hq), h.grabbing, h.others⟩, ?_, ?_⟩
    · refine (debt_refersTo s (by rfl) (by rfl) (by rfl) (by rfl)).trans ?_
      rw [h.refcounts, countOf_erase hr, countOf_refersTo]
      abel
    · refine (debt_step s s.cpuWriters (by rfl) (by rfl)).trans ?_
      rw [h.writers, countOf_erase hr, countOf_writesTo]
      abel
  unfold finishRefRelease Inv
  dsimp only
  by_cases hw : r.refType = .synccpuWrite
  · have hany : (s.base r.obj).any (·.isBuffer) = true := by
      rw [hB]
      exact hbuffer (by rw [hw]; simp)
    rw [if_pos hw] at herase
    rw [if_pos ⟨hw, hany⟩]
    have hdone := (herase.writeRelease (b := r.obj)).unref (b := r.obj) (B := B) hB
    rwa [sub_self] at hdone
  · rw [if_neg hw] at herase
    rw [if_neg fun hc => hw hc.1]
    have hdone := herase.unref (b := r.obj) (B := B) hB
    rwa [sub_self] at hdone

theorem Inv.finishGrab (h : Inv s) {mem : Option Errno} (hg : (f, b) ∈ s.grabs) :
    Inv (finishGrab mem f b s).2 := by
  obtain ⟨B, hB⟩ := h.alive_of_grab hg
  obtain ⟨⟨hf, -⟩, hbuffer⟩ := h.grabbing _ hg
  have herase : Owed (Pi.single b 1) (Pi.single b 1) { s with grabs := s.grabs.erase (f, b) } := by
    refine ⟨⟨h.closed, h.closing, h.unique, h.indexed, h.fits, h.released,
      fun g hg' => h.grabbing g (List.mem_of_mem_erase hg'), h.others⟩, ?_, ?_⟩
    · refine (debt_refersTo s (by rfl) (by rfl) (by rfl) (by rfl)).trans ?_
      rw [h.refcounts, grabsOf_erase hg]
      abel
    · refine (debt_step s s.cpuWriters (by rfl) (by rfl)).trans ?_
      rw [h.writers, grabsOf_erase hg]
      abel
  have hadd := herase.add mem .synccpuWrite hB hf fun _ => hbuffer B hB
  unfold RefObjects.finishGrab
  dsimp only at hadd ⊢
  generalize ttmRefObjectAdd mem f b .synccpuWrite { s with grabs := s.grabs.erase (f, b) } = r
    at hadd ⊢
  obtain ⟨res, u⟩ := r
  obtain ⟨howed, C, hC⟩ := hadd
  cases res with
  | error e =>
    have hdone := (howed.writeRelease (b := b)).unref (b := b) (B := C) hC
    simpa [Except.toOption, Inv] using hdone
  | ok existed =>
    cases existed with
    | true =>
      have hdone := (howed.writeRelease (b := b)).unref (b := b) (B := C) hC
      simpa [Except.toOption, Inv] using hdone
    | false =>
      have hdone := howed.unref (b := b) (B := C) hC
      simpa [Except.toOption, Inv] using hdone

theorem usable_iff : usable f s = true ↔ f ∈ s.files ∧ f ∉ s.closing := decide_eq_true_iff

theorem Inv.grab (h : Inv s) {o : GrabEnds} {handle flags : ℕ} (hf : usable f s = true) :
    Inv (synccpuGrabIoctl o f handle flags s).2 := by
  unfold synccpuGrabIoctl
  split_ifs
  · exact h
  cases hlook : vmwUserBoLookup f handle s with
  | error e => exact h
  | ok b =>
    -- the lookup finds a buffer that is alive
    have hbuffer : ∃ B, s.base b = some B ∧ B.isBuffer = true := by
      unfold vmwUserBoLookup at hlook
      split at hlook
      · cases hlook
      · rename_i r hr
        split_ifs at hlook with hany
        obtain rfl := Except.ok.inj hlook
        obtain ⟨B, hB⟩ := h.alive_of_ref (List.mem_of_find?_eq_some hr)
        rw [hB] at hany
        exact ⟨B, hB, hany⟩
    obtain ⟨B, hB, hB'⟩ := hbuffer
    dsimp only
    unfold vmwUserBoSynccpuGrab
    split_ifs
    · cases o.idleWait with
      | error e => exact h
      | ok left => exact h
    · exact h
    · exact h
    · have hgrab : Owed (-Pi.single b 1) 0
          { s with cpuWriters := s.cpuWriters + Pi.single b 1, grabs := (f, b) :: s.grabs } := by
        refine ⟨⟨h.closed, h.closing, h.unique, h.indexed, h.fits, h.released, ?_, h.others⟩,
          ?_, ?_⟩
        · intro g hg
          rcases List.mem_cons.1 hg with rfl | hg
          · refine ⟨usable_iff.1 hf, fun C hC => ?_⟩
            obtain rfl : B = C := Option.some.inj (hB.symm.trans hC)
            exact hB'
          · exact h.grabbing g hg
        · refine (debt_refersTo s (by rfl) (by rfl) (by rfl) (by rfl)).trans ?_
          rw [h.refcounts, grabsOf_cons]
          abel
        · refine (debt_step s s.cpuWriters (by rfl) (by rfl)).trans ?_
          rw [h.writers, grabsOf_cons]
          funext c
          simp
      have hdone := hgrab.addBaseRef (b := b) (B := B) hB
      rwa [neg_add_cancel] at hdone

theorem Inv.unheld (h : Inv s) (hb : s.base b = none) :
    (∀ f, ∀ r ∈ s.refList f, r.obj ≠ b) ∧ (∀ r ∈ s.releases, r.obj ≠ b) ∧
      (∀ g ∈ s.grabs, g.2 ≠ b) ∧ s.cpuWriters b = 0 := by
  have hrefs : ∀ f, ∀ r ∈ s.refList f, r.obj ≠ b := by
    rintro f r hr rfl
    obtain ⟨B, hB⟩ := h.alive_of_ref hr
    rw [hB] at hb
    cases hb
  have hreleases : ∀ r ∈ s.releases, r.obj ≠ b := by
    rintro r hr rfl
    obtain ⟨B, hB⟩ := h.alive_of_release hr
    rw [hB] at hb
    cases hb
  have hgrabs : ∀ g ∈ s.grabs, g.2 ≠ b := by
    rintro ⟨f, c⟩ hg rfl
    obtain ⟨B, hB⟩ := h.alive_of_grab hg
    rw [hB] at hb
    cases hb
  refine ⟨hrefs, hreleases, hgrabs, ?_⟩
  have hlisted : listed writesTo s b = 0 := by
    rw [listed, Finset.sum_apply]
    apply Finset.sum_eq_zero
    intro f _
    exact Int.natCast_eq_zero.2 (List.countP_eq_zero.2 fun r hr => by
      simp [writesTo, hrefs f r hr])
  have hreleasing : countOf writesTo s.releases b = 0 :=
    Int.natCast_eq_zero.2 (List.countP_eq_zero.2 fun r hr => by simp [writesTo, hreleases r hr])
  have hgrabbing : grabsOf s.grabs b = 0 :=
    Int.natCast_eq_zero.2 (List.countP_eq_zero.2 fun g hg => by simp [hgrabs g hg])
  have hw := congrFun h.writers b
  simp only [debt, Pi.sub_apply, Pi.zero_apply] at hw
  omega

theorem Inv.init (h : Inv s) {handle : ℕ} (shareable isBuffer : Bool) (hf : f ∈ s.files)
    (hb : s.base b = none) (hk : s.idr handle = none) :
    Inv (ttmBaseObjectInit f b handle shareable isBuffer s) := by
  obtain ⟨hrefs, hreleases, hgrabs, hwriters⟩ := h.unheld hb
  have hzero : Function.update s.cpuWriters b 0 = s.cpuWriters := by
    rw [← hwriters]
    exact Function.update_eq_self ..
  unfold ttmBaseObjectInit
  rw [hzero]
  dsimp only
  generalize ht : ({ s with
    base := Function.update s.base b (some ⟨handle, f, shareable, isBuffer, 1⟩)
    idr := Function.update s.idr handle (some b) } : TtmDev) = t
  have hold : ∀ c, c ≠ b → t.base c = s.base c := by
    intro c hc
    rw [← ht]
    exact Function.update_of_ne hc ..
  have hfits : ∀ r, r.obj ≠ b → Fits s r → Fits t r := by
    intro r hr hfit C hC
    rw [hold r.obj hr] at hC
    exact hfit C hC
  have hnew : t.base b = some ⟨handle, f, shareable, isBuffer, 1⟩ := by
    rw [← ht]
    exact Function.update_self ..
  have howed : Owed (Pi.single b 1) 0 t := by
    subst ht
    refine ⟨⟨h.closed, h.closing, h.unique, ?_, ?_, ?_, ?_, h.others⟩, ?_, h.writers⟩
    · intro c C hC
      by_cases hcb : c = b
      · subst hcb
        obtain rfl := Option.some.inj (hnew.symm.trans hC)
        exact Function.update_self ..
      · rw [hold c hcb] at hC
        have hidr := h.indexed c C hC
        have hne : C.handle ≠ handle := by
          intro heq
          rw [heq, hk] at hidr
          cases hidr
        exact (Function.update_of_ne hne _ _).trans hidr
    · exact fun g r hr => (h.fits g r hr).imp_right (hfits r (hrefs g r hr))
    · exact fun r hr => (h.released r hr).imp_right (hfits r (hreleases r hr))
    · intro g hg
      rw [hold g.2 (hgrabs g hg)]
      exact h.grabbing g hg
    · refine (debt_step s (refcountOf s - s.otherRefs) (by rfl) (by rfl)).trans ?_
      rw [h.refcounts]
      funext c
      by_cases hcb : c = b
      · subst hcb
        simp [refcountOf, hb]
      · simp [refcountOf, hcb]
  obtain ⟨hadd, C, hC⟩ := howed.add none .usage hnew (by rw [← ht]; exact hf)
    fun hu => absurd rfl hu
  have hdone := hadd.unref (b := b) hC
  simpa [Inv] using hdone

theorem ttmBaseObjectUnref_otherRefs (b : ℕ) (s : TtmDev) :
    (ttmBaseObjectUnref b s).otherRefs = s.otherRefs := by
  unfold ttmBaseObjectUnref
  split
  · rfl
  · split_ifs <;> rfl

theorem addBaseRef_otherRefs (b : ℕ) (s : TtmDev) : (addBaseRef b s).otherRefs = s.otherRefs := by
  unfold addBaseRef
  split <;> rfl

theorem Owed.others_step (h : Owed R W s) (others : ℕ → ℤ) (ho : ∀ c, 0 ≤ others c) :
    Owed (R - (others - s.otherRefs)) W { s with otherRefs := others } := by
  refine ⟨⟨h.closed, h.closing, h.unique, h.indexed, h.fits, h.released, h.grabbing, ho⟩, ?_,
    h.writers⟩
  refine (debt_step s (refcountOf s - s.otherRefs) (by rfl) (by rfl)).trans ?_
  rw [h.refcounts]
  funext c
  simp only [Pi.add_apply, Pi.sub_apply, refcountOf]
  omega

theorem Inv.hold (h : Inv s) (hb : s.base b = some B) :
    Inv { addBaseRef b s with otherRefs := s.otherRefs + Pi.single b 1 } := by
  have hstep := (Owed.addBaseRef h hb).others_step (s.otherRefs + Pi.single b 1) ?_
  · rwa [addBaseRef_otherRefs, add_sub_cancel_left, add_sub_cancel_right] at hstep
  · intro c
    have hc := h.others c
    have hone : (0 : ℤ) ≤ (Pi.single b 1 : ℕ → ℤ) c := by
      rw [Pi.single_apply]
      split_ifs <;> omega
    rw [Pi.add_apply]
    omega

theorem Inv.drop (h : Inv s) (hb : 0 < s.otherRefs b) :
    Inv { ttmBaseObjectUnref b s with otherRefs := s.otherRefs - Pi.single b 1 } := by
  obtain ⟨B, hB⟩ := h.alive_of_other hb
  have hstep := (Owed.unref h hB).others_step (s.otherRefs - Pi.single b 1) ?_
  · rwa [ttmBaseObjectUnref_otherRefs, sub_sub_cancel_left, sub_neg_eq_add,
      sub_add_cancel] at hstep
  · intro c
    have hc := h.others c
    rw [Pi.sub_apply, Pi.single_apply]
    split_ifs with hcb
    · subst hcb
      omega
    · omega

theorem Inv.openFile (h : Inv s) (hf : f ∉ s.files) :
    Inv { RefObjects.setRefs f [] s with files := insert f s.files } := by
  have hsame : RefObjects.setRefs f [] s = s := by
    unfold RefObjects.setRefs
    rw [← h.closed f hf, Function.update_eq_self]
  have hlisted : ∀ p, listed p { s with files := insert f s.files } = listed p s := by
    intro p
    unfold listed
    rw [Finset.sum_insert hf, h.closed f hf]
    exact zero_add _
  rw [hsame]
  refine ⟨⟨?_, ?_, h.unique, h.indexed, h.fits, ?_, ?_, h.others⟩, ?_, ?_⟩
  · intro g hg
    exact h.closed g fun hg' => hg (Finset.mem_insert_of_mem hg')
  · exact h.closing.trans (Finset.subset_insert _ _)
  · exact fun r hr => (h.released r hr).imp_left Finset.mem_insert_of_mem
  · exact fun g hg => (h.grabbing g hg).imp_left (And.imp_left Finset.mem_insert_of_mem)
  · rw [← h.refcounts, debt, debt, hlisted]
    rfl
  · rw [← h.writers, debt, debt, hlisted]

theorem Inv.close (h : Inv s) (hf : f ∈ s.files) (hg : ∀ g ∈ s.grabs, g.1 ≠ f) :
    Inv { s with closing := insert f s.closing } := by
  refine ⟨⟨h.closed, ?_, h.unique, h.indexed, h.fits, h.released, ?_, h.others⟩, h.refcounts,
    h.writers⟩
  · exact Finset.insert_subset hf h.closing
  · intro g hg'
    obtain ⟨⟨hfile, hclosing⟩, hbuffer⟩ := h.grabbing g hg'
    refine ⟨⟨hfile, fun hmem => ?_⟩, hbuffer⟩
    rcases Finset.mem_insert.1 hmem with heq | hmem
    · exact hg g hg' heq
    · exact hclosing hmem

theorem Inv.closeEnd (h : Inv s) (hf : f ∈ s.closing) (hi : idle f s) (hl : s.refList f = []) :
    Inv { s with files := s.files.erase f, closing := s.closing.erase f } := by
  have hlisted : ∀ p, listed p { s with files := s.files.erase f, closing := s.closing.erase f } =
      listed p s := by
    intro p
    unfold listed
    rw [← Finset.add_sum_erase _ _ (h.closing hf), hl]
    exact (zero_add _).symm
  refine ⟨⟨?_, ?_, h.unique, h.indexed, h.fits, ?_, ?_, h.others⟩, ?_, ?_⟩
  · intro g hg
    by_cases hgf : g = f
    · rw [hgf, hl]
    · exact h.closed g fun hg' => hg (Finset.mem_erase.2 ⟨hgf, hg'⟩)
  · exact Finset.erase_subset_erase _ h.closing
  · intro r hr
    exact (h.released r hr).imp_left fun hr' => Finset.mem_erase.2 ⟨hi r hr, hr'⟩
  · intro g hg
    obtain ⟨⟨hfile, hclosing⟩, hbuffer⟩ := h.grabbing g hg
    have hne : g.1 ≠ f := by
      intro heq
      rw [heq] at hclosing
      exact hclosing hf
    exact ⟨⟨Finset.mem_erase.2 ⟨hne, hfile⟩, fun hmem => hclosing (Finset.mem_of_mem_erase hmem)⟩,
      hbuffer⟩
  · rw [← h.refcounts, debt, debt, hlisted]
    rfl
  · rw [← h.writers, debt, debt, hlisted]

theorem step_inv {op : Op} (h : Inv s) (hs : step s op = some t) : Inv t := by
  cases step_cases hs with
  | openFile f hf => exact h.openFile hf
  | init f b handle shareable isBuffer hc =>
    exact h.init shareable isBuffer (usable_iff.1 hc.1).1 hc.2.1 hc.2.2
  | addUsage mem f b hc =>
    obtain ⟨B, hB⟩ := Option.isSome_iff_exists.1 hc.2
    have hadd := (Owed.add h mem .usage hB (usable_iff.1 hc.1).1
      fun hu => absurd rfl hu).1
    simpa [Inv] using hadd
  | hold b hc =>
    obtain ⟨B, hB⟩ := Option.isSome_iff_exists.1 hc
    exact h.hold hB
  | drop b hc => exact h.drop hc
  | grab o f handle flags hc => exact h.grab hc
  | finishGrab mem f b hc => exact h.finishGrab hc
  | release f handle flags hc =>
    unfold synccpuReleaseIoctl
    split_ifs
    · exact h
    · exact h
    · exact h.unrefKey (usable_iff.1 hc).1
  | unrefUsage f handle hc => exact h.unrefKey (usable_iff.1 hc).1
  | finishRelease r hc => exact h.finishRelease hc
  | close f hc => exact h.close (usable_iff.1 hc.1).1 hc.2.1
  | closeNext f r hc hr => exact Owed.detach h (h.closing hc.1) (List.mem_of_head? hr)
  | closed f hc => exact h.closeEnd hc.1 hc.2.1 hc.2.2

theorem inv_start : Inv start := by
  refine ⟨⟨fun _ _ => rfl, subset_rfl, fun _ => .nil, ?_, ?_, ?_, ?_, fun _ => le_rfl⟩, ?_, ?_⟩
  · intro b B hB
    cases hB
  · intro f r hr
    cases hr
  · intro r hr
    cases hr
  · intro g hg
    cases hg
  · funext b
    simp [debt, listed, refcountOf, grabsOf, countOf, start]
  · funext b
    simp [debt, listed, grabsOf, countOf, start]

def holders (s : TtmDev) (b : ℕ) : Finset ℕ :=
  s.files.filter fun f => ∃ r ∈ s.refList f, r.refType = .synccpuWrite ∧ r.obj = b

theorem Inv.countOf_writesTo_le (h : Inv s) (f b : ℕ) : countOf writesTo (s.refList f) b ≤ 1 := by
  have hpair : ((s.refList f).filter (writesTo b)).Pairwise fun _ _ => False := by
    apply List.Pairwise.imp_of_mem ?_ ((h.unique f).sublist List.filter_sublist)
    intro r q hr hq hne
    obtain ⟨hrf, hrb⟩ := List.mem_filter.1 hr
    obtain ⟨hqf, hqb⟩ := List.mem_filter.1 hq
    simp only [writesTo, decide_eq_true_eq] at hrb hqb
    obtain ⟨B, hB⟩ := h.alive_of_ref hrf
    have hkey := ((h.fits f r hrf).2 B hB).1
    have hkey' := ((h.fits f q hqf).2 B (by rwa [hqb.2, ← hrb.2])).1
    exact hne ⟨hrb.1.trans hqb.1.symm, hkey.symm.trans hkey'⟩
  have hlen : ((s.refList f).filter (writesTo b)).length ≤ 1 := by
    cases hl : (s.refList f).filter (writesTo b) with
    | nil => simp
    | cons r l =>
      cases l with
      | nil => simp
      | cons q l =>
        rw [hl] at hpair
        exact absurd (List.rel_of_pairwise_cons hpair (List.mem_cons_self (a := q))) id
  rw [countOf, List.countP_eq_length_filter]
  exact_mod_cast hlen

theorem Inv.listed_writesTo (h : Inv s) (b : ℕ) : listed writesTo s b = (holders s b).card := by
  rw [listed, Finset.sum_apply, holders, Finset.card_filter, Nat.cast_sum]
  apply Finset.sum_congr rfl
  intro f _
  split_ifs with hex
  · obtain ⟨r, hr, hw⟩ := hex
    have hpos : 0 < countOf writesTo (s.refList f) b := countOf_pos hr (by simp [writesTo, hw])
    have hle := h.countOf_writesTo_le f b
    push_cast
    omega
  · apply Int.natCast_eq_zero.2
    apply List.countP_eq_zero.2
    intro r hr hw
    exact hex ⟨r, hr, by simpa [writesTo] using hw⟩

/-- `cpu_writers` is the number of the files that hold the object for writing, with the threads
    that have increased it and not added a reference object yet, and those that have taken one
    away and not decreased it yet. It is 0 when all files are closed. -/
theorem runs_cpuWriters {ops : List Op} (hr : Runs step anyLabel start ops s) (b : ℕ) :
    s.cpuWriters b = (holders s b).card + (s.grabs.filter fun g => decide (g.2 = b)).length +
      (s.releases.filter (writesTo b)).length ∧
    (s.grabs = [] → s.releases = [] → s.cpuWriters b = (holders s b).card) ∧
    (s.files = ∅ → s.cpuWriters b = 0) := by
  have h : Inv s := hr.invariant Inv inv_start fun _ _ _ h _ hs => step_inv h hs
  have hcount : s.cpuWriters b = (holders s b).card +
      (s.grabs.filter fun g => decide (g.2 = b)).length +
      (s.releases.filter (writesTo b)).length := by
    have hw := congrFun h.writers b
    simp only [debt, Pi.sub_apply, Pi.zero_apply, h.listed_writesTo, grabsOf, countOf,
      List.countP_eq_length_filter] at hw
    omega
  refine ⟨hcount, ?_, ?_⟩
  · intro hgrabs hreleases
    rw [hcount, hgrabs, hreleases]
    simp
  · intro hfiles
    have hgrabs : s.grabs = [] := by
      apply List.eq_nil_iff_forall_not_mem.2
      intro g hg
      have hmem := (h.grabbing g hg).1.1
      rw [hfiles] at hmem
      cases hmem
    have hreleases : s.releases = [] := by
      apply List.eq_nil_iff_forall_not_mem.2
      intro r hr
      have hmem := (h.released r hr).1
      rw [hfiles] at hmem
      cases hmem
    rw [hcount, hgrabs, hreleases, holders, hfiles]
    simp

/-- Two files share a buffer and both write to it, one of them twice. -/
def sharedRun : List Op :=
  let done : GrabEnds := ⟨.ok 1, none, none⟩
  [.openFile 0, .openFile 1, .init 0 5 1 true true, .addUsage none 1 5, .grab done 0 1 2,
    .finishGrab none 0 5, .grab done 0 1 3, .finishGrab none 0 5, .grab done 1 1 2,
    .finishGrab none 1 5]

theorem sharedRun_cpuWriters : ((exec step start sharedRun).getD start).cpuWriters 5 = 2 ∧
    2 = (holders ((exec step start sharedRun).getD start) 5).card + 0 + 0 := by
  have hr : Runs step anyLabel start sharedRun ((exec step start sharedRun).getD start) :=
    runs_getD (by decide)
  have hw : ((exec step start sharedRun).getD start).cpuWriters 5 = 2 := by decide
  have hcount := (runs_cpuWriters hr 5).1
  refine ⟨hw, ?_⟩
  have hg : (((exec step start sharedRun).getD start).grabs.filter fun g =>
      decide (g.2 = 5)).length = 0 := by decide
  have hq : (((exec step start sharedRun).getD start).releases.filter (writesTo 5)).length = 0 := by
    decide
  rw [hw, hg, hq] at hcount
  exact_mod_cast hcount

end Vmwgfx.RefObjects
