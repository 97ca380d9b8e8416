import Vmwgfx.FenceCallbacks

set_option autoImplicit false

/-!
# No callback is lost

`dma_fence_signal` sets the flag without the lock, and then looks whether anybody wants the
signal; who wants it says so under the lock, and then looks at the flag. Whichever comes first,
one of the two sees the other.
-/
namespace Vmwgfx.FenceCallbacks
open LabelledRuns

variable {s t : Sys} {p q c : ℕ} {env : Env} {k : Kind} {x y : Phase}

@[simp] def hasLock : Phase → Bool
  | .enable _ | .test .. | .ask _ | .signal _ | .run .. | .link _ | .loop .. => true
  | _ => false

/-- The call may still have to ask the driver for the signal. -/
@[simp] def seeksAnswer : Phase → Bool
  | .swFlagged | .lock .enableSwSignaling | .test _ false | .ask _ => true
  | _ => false

/-- The call has found the fence not signaled and will put a callback on the list. -/
@[simp] def willLink : Phase → Bool
  | .ask k => decide (k ≠ .enableSwSignaling)
  | .link _ => true
  | _ => false

/-- The call has set the flag of the driver and tests whether the fence is signaled. -/
@[simp] def isTesting : Phase → Bool
  | .test .. => true
  | _ => false

@[simp] def willRun : Phase → Bool
  | .flagged | .lock .signal | .signal _ | .run .. => true
  | _ => false

@[simp] def isTold : Phase → Bool
  | .flagged | .lock .signal | .run .. | .finished .addCallback .enoent => true
  | _ => false

def waits : Kind → Bool
  | .addCallback | .defaultWait _ => true
  | _ => false

@[simp] def fitsKind : Phase → Bool
  | .enable k | .test k _ | .link k => waits k
  | .ask k => waits k || decide (k = .enableSwSignaling)
  | _ => true

@[simp] def isLinked : Phase → Bool
  | .loop .. | .asleep _ | .relock .. | .finished .addCallback .ok => true
  | _ => false

@[simp] def wasLinked : Phase → Bool
  | .finished (.defaultWait _) _ => true
  | x => isLinked x

structure Inv (s : Sys) : Prop where
  lock : ∀ p, hasLock (s.phase p) = true ↔ s.lock = some p
  fits : ∀ p, fitsKind (s.phase p) = true
  seeks : ∀ p q, seeksAnswer (s.phase p) = true → seeksAnswer (s.phase q) = true → p = q
  asked : s.asked ≤ 1 ∧ (s.asked = 1 → ∀ p, seeksAnswer (s.phase p) = false)
  off : s.enabled = false → s.cbList = [] ∧ s.asked = 0 ∧
    ∀ p, seeksAnswer (s.phase p) = false ∧ willLink (s.phase p) = false ∧
      isTesting (s.phase p) = false
  runner : s.signaled = true → (s.cbList ≠ [] ∨ ∃ p, willLink (s.phase p) = true) →
    ∃ q, willRun (s.phase q) = true
  nodup : (s.cbList ++ (s.called ++ s.removed)).Nodup
  queued : ∀ c ∈ s.cbList, isLinked (s.phase c) = true
  called : ∀ c ∈ s.called, wasLinked (s.phase c) = true
  removed : ∀ c ∈ s.removed, s.phase c = .finished .addCallback .ok
  kept : ∀ c, isLinked (s.phase c) = true → c ∈ s.cbList ∨ c ∈ s.called ∨ c ∈ s.removed
  signaled : s.called ≠ [] → s.signaled = true
  told : ∀ p, isTold (s.phase p) = true → s.signaled = true
  asleep : ∀ p intr, s.phase p = .asleep intr → s.awake p = false → p ∈ s.cbList
  driven : s.enabled = true → s.signaled = true ∨ s.asked = 1 ∨
    ∃ p, seeksAnswer (s.phase p) = true

theorem start_inv : Inv start := by
  constructor <;> simp [start, hasLock, fitsKind, seeksAnswer, willLink, isLinked, isTold]

theorem isLinked_wasLinked (x : Phase) (h : isLinked x = true) : wasLinked x = true := by
  unfold wasLinked
  split
  · rfl
  · exact h

/-- No other call is about to put a callback on the list. -/
def NoneLinks (s : Sys) (p : ℕ) : Prop := ∀ q, q ≠ p → willLink (s.phase q) = false

/-- What a step of `p` from `x` to `y` must keep to while it leaves the callbacks alone. -/
structure Change (p : ℕ) (x y : Phase) (s t : Sys) : Prop where
  phase : t.phase = Function.update s.phase p y
  lists : t.cbList = s.cbList ∧ t.called = s.called ∧ t.removed = s.removed
  lock : (t.lock = s.lock ∧ hasLock y = hasLock x) ∨
    (s.lock = none ∧ t.lock = some p ∧ hasLock y = true) ∨
    (hasLock x = true ∧ t.lock = none ∧ hasLock y = false)
  fits : fitsKind y = true
  asked : t.asked = s.asked ∧ (seeksAnswer y = true →
      seeksAnswer x = true ∨ s.enabled = false) ∨
    t.asked = s.asked + 1 ∧ seeksAnswer x = true ∧ seeksAnswer y = false
  driven : seeksAnswer y = true ∨ t.signaled = true ∨ t.asked = s.asked + 1 ∨
    seeksAnswer x = false ∧ t.enabled = s.enabled
  enabled : t.enabled = false → s.enabled = false ∧ willLink y = false ∧
    seeksAnswer y = false ∧ isTesting y = false ∧ t.asked = s.asked
  links : willLink y = true → t.signaled = s.signaled ∧ (willLink x = true ∨ s.signaled = false)
  runs : t.signaled = true → willRun y = true ∨ s.signaled = true ∧ willRun x = false ∨
    s.cbList = [] ∧ willLink y = false ∧ NoneLinks s p
  signaled : s.signaled = true → t.signaled = true
  linked : isLinked y = isLinked x
  registered : wasLinked x = true → wasLinked y = true
  told : isTold y = true → t.signaled = true
  awake : ∀ q, q ≠ p → t.awake q = s.awake q
  asleep : ∀ intr, y = .asleep intr → p ∈ s.cbList

theorem Inv.change (h : Inv s) (y : Phase) (hp : s.phase p = x)
    (hx : x ≠ .finished .addCallback .ok) (hc : Change p x y s t) : Inv t := by
  obtain ⟨h1, h2, h3, h4, h5, h6, h7, h8, h9, h10, h11, h12, h13, h14, h15⟩ := h
  obtain ⟨c1, ⟨c2, c3, c4⟩, c5, c6, c7, c17, c8, c9, c10, c11, c12, c13, c14, c15, c16⟩ := hc
  subst hp
  have hself : t.phase p = y := by rw [c1, Function.update_self]
  have hother : ∀ q, q ≠ p → t.phase q = s.phase q := fun q hq => by
    rw [c1, Function.update_of_ne hq]
  clear c1
  constructor
  case runner =>
    intro hsig hneed
    rcases c10 hsig with hy | ⟨hs, hx⟩ | ⟨hnil, hy, hnone⟩
    · exact ⟨p, by rw [hself, hy]⟩
    · obtain ⟨q, hq⟩ := h6 hs (by grind)
      refine ⟨q, ?_⟩
      grind
    · unfold NoneLinks at hnone
      grind
  case driven =>
    intro hen
    rcases c17 with hy | hsig | hask | ⟨hx, hen'⟩
    · exact .inr (.inr ⟨p, by rw [hself, hy]⟩)
    · exact .inl hsig
    · grind
    · rcases h15 (hen' ▸ hen) with hsig | hask | ⟨q, hq⟩
      · exact .inl (c11 hsig)
      · exact .inr (.inl (by grind))
      · refine .inr (.inr ⟨q, ?_⟩)
        grind
  case nodup => rwa [c2, c3, c4]
  case lock | fits | seeks | asked =>
    clear c2 c3 c4 c9 c10 c11 c12 c13 c14 c15 c16 c17 h6 h7 h8 h9 h10 h11 h12 h13 h14 h15
    grind
  case queued | called | removed | kept =>
    clear c5 c6 c7 c8 c9 c10 c11 c14 c15 c16 c17 h1 h2 h3 h4 h5 h6 h7 h12 h13 h14 h15
    grind
  all_goals grind

theorem Inv.finds (h : Inv s) (hp : s.phase p = x)
    (hx : seeksAnswer x = true ∨ isTesting x = true) : s.enabled = true := by
  subst hp
  rw [← Bool.not_eq_false]
  intro hen
  obtain ⟨hs, -, ht⟩ := (h.off hen).2.2 p
  simp only [hs, ht, Bool.false_eq_true, or_self] at hx

theorem Inv.call (h : Inv s) (hp : s.phase p = .idle) : Inv (setPhase p (.start k) s) := by
  refine h.change (.start k) hp (by simp) ?_
  constructor <;> simp [setPhase]
  grind

theorem Inv.begin' (h : Inv s) (hp : s.phase p = .start k) : Inv (begin' p s k) := by
  cases k with
  | signal =>
    simp only [FenceCallbacks.begin']
    split_ifs with hsig
    · refine h.change (.finished .signal .einval) hp (by simp) ?_
      constructor <;> simp [setPhase, hsig]
    · refine h.change .flagged hp (by simp) ?_
      constructor <;> simp [setPhase]
  | enableSwSignaling =>
    simp only [FenceCallbacks.begin']
    split_ifs with hen
    · refine h.change (.finished .enableSwSignaling .ok) hp (by simp) ?_
      constructor <;> simp [setPhase, hen]
      grind
    · refine h.change .swFlagged hp (by simp) ?_
      constructor <;> simp [setPhase, hen]
      grind
  | addCallback =>
    simp only [FenceCallbacks.begin']
    split_ifs with hsig
    · refine h.change (.finished .addCallback .enoent) hp (by simp) ?_
      constructor <;> simp [setPhase, hsig]
    · refine h.change (.lock .addCallback) hp (by simp) ?_
      constructor <;> simp [setPhase, hsig]
  | defaultWait intr =>
    simp only [FenceCallbacks.begin']
    split_ifs with hsig
    · refine h.change (.finished (.defaultWait intr) .ok) hp (by simp) ?_
      constructor <;> simp [setPhase, hsig]
    · refine h.change (.lock (.defaultWait intr)) hp (by simp) ?_
      constructor <;> simp [setPhase, hsig]
  | signalLocked =>
    refine h.change (.lock .signalLocked) hp (by simp) ?_
    constructor <;> simp [FenceCallbacks.begin', setPhase]
    grind
  | removeCallback c =>
    refine h.change (.lock (.removeCallback c)) hp (by simp) ?_
    constructor <;> simp [FenceCallbacks.begin', setPhase]
    grind

theorem Inv.noneLinks (h : Inv s) (hp : hasLock (s.phase p) = true) : NoneLinks s p := by
  intro q hq
  have hlock := (h.lock p).1 hp
  by_contra hl
  rw [Bool.not_eq_false] at hl
  have hhas : hasLock (s.phase q) = true := by
    revert hl
    cases s.phase q <;> simp
  rw [h.lock, hlock] at hhas
  exact hq (Option.some.inj hhas).symm

theorem Inv.flagged (h : Inv s) (hp : s.phase p = .flagged) :
    Inv (setPhase p (if s.enabled then .lock .signal else .finished .signal .ok) s) := by
  split_ifs with hen
  · have hsig := h.told p (by rw [hp]; rfl)
    refine h.change (.lock .signal) hp (by simp) ?_
    constructor <;> simp [setPhase, hsig]
  · rw [Bool.not_eq_true] at hen
    obtain ⟨hnil, -, hoff⟩ := h.off hen
    have hnone : NoneLinks s p := fun q _ => (hoff q).2.1
    refine h.change (.finished .signal .ok) hp (by simp) ?_
    constructor <;> simp [setPhase, hnil, hnone, hen]

theorem Inv.swFlagged (h : Inv s) (hp : s.phase p = .swFlagged) :
    Inv (setPhase p (if s.signaled then .finished .enableSwSignaling .ok
      else .lock .enableSwSignaling) s) := by
  split_ifs with hsig
  · refine h.change (.finished .enableSwSignaling .ok) hp (by simp) ?_
    constructor <;> simp [setPhase, hsig]
  · have hen := h.finds hp (.inl rfl)
    refine h.change (.lock .enableSwSignaling) hp (by simp) ?_
    constructor <;> simp [setPhase, hsig, hen]

/-- What a step of `p` from `x` to `y` must keep to that changes the list of the callbacks. -/
structure Relist (p : ℕ) (x y : Phase) (s t : Sys) : Prop where
  phase : t.phase = Function.update s.phase p y
  flags : t.signaled = s.signaled ∧ t.enabled = s.enabled ∧ t.asked = s.asked
  lock : (t.lock = s.lock ∧ hasLock y = hasLock x) ∨ (hasLock x = true ∧ t.lock = none ∧
    hasLock y = false)
  quiet : fitsKind y = true ∧ seeksAnswer y = false ∧ willLink y = false ∧ isTesting y = false ∧
    isTold y = false ∧ willRun x = false ∧ seeksAnswer x = false
  grows : t.cbList ≠ [] → s.cbList ≠ [] ∨ willLink x = true
  called : t.called = s.called
  nodup : (t.cbList ++ (s.called ++ t.removed)).Nodup
  queued : ∀ c ∈ t.cbList, c = p ∧ isLinked y = true ∨ c ≠ p ∧ c ∈ s.cbList
  registered : wasLinked x = true → wasLinked y = true
  removed : ∀ c ∈ t.removed, c ∈ s.removed ∨ s.phase c = .finished .addCallback .ok
  linked : isLinked y = true → p ∈ t.cbList
  kept : ∀ c ∈ s.cbList, c ≠ p → c ∈ t.cbList ∨
    c ∈ t.removed ∧ s.phase c = .finished .addCallback .ok
  gone : ∀ c ∈ s.removed, c ∈ t.removed
  awake : ∀ q, q ≠ p → t.awake q = s.awake q

theorem Inv.relist (h : Inv s) (y : Phase) (hp : s.phase p = x)
    (hx : x ≠ .finished .addCallback .ok) (hc : Relist p x y s t) : Inv t := by
  obtain ⟨h1, h2, h3, h4, h5, h6, -, h8, h9, h10, h11, h12, h13, h14, h15⟩ := h
  obtain ⟨c1, ⟨c2, c3, c4⟩, c5, ⟨c6, c7, c8, c9, c10, c11, c20⟩, c12, c13, c14, c15, c16, c17, c18,
    c19, c21, c22⟩ := hc
  subst hp
  have hself : t.phase p = y := by rw [c1, Function.update_self]
  have hother : ∀ q, q ≠ p → t.phase q = s.phase q := fun q hq => by
    rw [c1, Function.update_of_ne hq]
  clear c1
  constructor
  case lock | fits | seeks | asked | off | called | told =>
    clear c14 c15 c17 c18 c19 c21 c22 h8 h10 h11 h14
    grind
  case runner =>
    clear c14 c15 c17 c18 c19 c21 c22 h8 h10 h11 h14
    intro hsig hneed
    obtain ⟨q, hq⟩ := h6 (c2 ▸ hsig) (by grind)
    refine ⟨q, ?_⟩
    grind
  case nodup => rwa [c13]
  case queued | removed => grind
  case kept =>
    intro c hc
    by_cases hcp : c = p
    · subst hcp
      exact .inl (c18 (hself ▸ hc))
    · rw [hother c hcp] at hc
      rw [c13]
      rcases h11 c hc with hk | hk | hk
      · exact (c19 c hk hcp).imp_right fun hr => .inr hr.1
      · exact .inr (.inl hk)
      · exact .inr (.inr (c21 c hk))
  case signaled => rwa [c13, c2]
  case asleep =>
    intro q intr hq ha
    by_cases hqp : q = p
    · subst hqp
      exact c18 (by rw [← hself, hq]; rfl)
    · rw [hother q hqp] at hq
      rw [c22 q hqp] at ha
      refine (c19 q (h14 q intr hq ha) hqp).resolve_right fun hr => ?_
      rw [hq] at hr
      cases hr.2
  case driven =>
    rw [c2, c3, c4]
    intro hen
    refine (h15 hen).imp_right fun hor => hor.imp_right fun ⟨q, hq⟩ => ⟨q, ?_⟩
    have hqp : q ≠ p := by
      rintro rfl
      rw [c20] at hq
      cases hq
    rwa [hother q hqp]

theorem Inv.notOn (h : Inv s) (hw : wasLinked (s.phase p) = false) :
    p ∉ s.cbList ++ (s.called ++ s.removed) := by
  intro hmem
  simp only [List.mem_append] at hmem
  rcases hmem with hmem | hmem | hmem
  · have hl := isLinked_wasLinked _ (h.queued p hmem)
    rw [hw] at hl
    cases hl
  · have hl := h.called p hmem
    rw [hw] at hl
    cases hl
  · have hl := h.removed p hmem
    rw [hl] at hw
    cases hw

theorem Inv.removes (h : Inv s) (hp : s.phase p = .lock (.removeCallback c))
    (hreg : ∃ r, s.phase c = .finished .addCallback r) (hc : c ∈ s.cbList) :
    Inv (setPhase p (.finished (.removeCallback c) (.removed true))
      { s with cbList := s.cbList.erase c, removed := c :: s.removed }) := by
  have hperm : (s.cbList.erase c ++ (s.called ++ c :: s.removed)).Perm
      (s.cbList ++ (s.called ++ s.removed)) := by
    calc
      (s.cbList.erase c ++ (s.called ++ c :: s.removed)).Perm
          (s.cbList.erase c ++ c :: (s.called ++ s.removed)) := List.perm_middle.append_left _
      _ |>.Perm (c :: s.cbList.erase c ++ (s.called ++ s.removed)) := List.perm_middle
      _ |>.Perm (s.cbList ++ (s.called ++ s.removed)) :=
        (List.perm_cons_erase hc).symm.append_right _
  have hmem : ∀ a, a ∈ s.cbList.erase c ↔ a ≠ c ∧ a ∈ s.cbList := fun a =>
    (List.nodup_append.1 h.nodup).1.mem_erase_iff
  have hcall : s.phase c = .finished .addCallback .ok := by
    obtain ⟨r, hr⟩ := hreg
    have hl := h.queued c hc
    rw [hr] at hl ⊢
    cases r <;> simp at hl
    rfl
  have hno : p ∉ s.cbList ++ (s.called ++ s.removed) := h.notOn (by rw [hp]; rfl)
  simp only [List.mem_append, not_or] at hno
  refine h.relist (.finished (.removeCallback c) (.removed true)) hp (by simp) ?_
  constructor
  · rfl
  · exact ⟨rfl, rfl, rfl⟩
  · exact .inl ⟨rfl, rfl⟩
  · exact ⟨rfl, rfl, rfl, rfl, rfl, rfl, rfl⟩
  · exact fun _ => .inl (List.ne_nil_of_mem hc)
  · rfl
  · exact hperm.nodup_iff.2 h.nodup
  · exact fun q hq => .inr ⟨fun hqp => hno.1 (hqp ▸ ((hmem q).1 hq).2), ((hmem q).1 hq).2⟩
  · exact fun hw => absurd hw (by simp)
  · intro q hq
    rcases List.mem_cons.1 hq with rfl | hq
    · exact .inr hcall
    · exact .inl hq
  · exact fun hy => absurd hy (by simp)
  · intro q hq hqp
    by_cases hqc : q = c
    · subst hqc
      exact .inr ⟨List.mem_cons_self, hcall⟩
    · exact .inl ((hmem q).2 ⟨hqc, hq⟩)
  · exact fun q hq => List.mem_cons_of_mem c hq
  · exact fun _ _ => rfl

theorem Inv.locked (h : Inv s) (hp : s.phase p = .lock k) (hfree : s.lock = none)
    (hcall : ∀ c, k = .removeCallback c → ∃ r, s.phase c = .finished .addCallback r) :
    Inv (locked p env s k) := by
  cases k with
  | signal =>
    have hsig := h.told p (by rw [hp]; rfl)
    refine h.change (.run .signal .ok) hp (by simp) ?_
    constructor <;> simp [FenceCallbacks.locked, setPhase, hfree, hsig]
  | signalLocked =>
    refine h.change (.signal .signalLocked) hp (by simp) ?_
    constructor <;> simp [FenceCallbacks.locked, setPhase, hfree]
  | addCallback =>
    refine h.change (.enable .addCallback) hp (by simp) ?_
    constructor <;> simp [FenceCallbacks.locked, setPhase, hfree, waits]
    grind
  | defaultWait intr =>
    unfold FenceCallbacks.locked
    dsimp only
    split_ifs with hpend
    · refine h.change (.finished (.defaultWait intr) .erestartsys) hp (by simp) ?_
      constructor <;> simp [setPhase]
      grind
    · refine h.change (.enable (.defaultWait intr)) hp (by simp) ?_
      constructor <;> simp [setPhase, hfree, waits]
      grind
  | enableSwSignaling =>
    have hen := h.finds hp (.inl rfl)
    refine h.change (.ask .enableSwSignaling) hp (by simp) ?_
    constructor <;> simp [FenceCallbacks.locked, setPhase, hfree, hen]
    grind
  | removeCallback c =>
    unfold FenceCallbacks.locked
    dsimp only
    split_ifs with hc
    · exact h.removes hp (hcall c rfl) hc
    · refine h.change (.finished (.removeCallback c) (.removed false)) hp (by simp) ?_
      constructor <;> simp [setPhase]
      grind

theorem Inv.enable (h : Inv s) (hp : s.phase p = .enable k) :
    Inv (setPhase p (.test k s.enabled) { s with enabled := true }) := by
  have hk : waits k = true := by
    have hfits := h.fits p
    rwa [hp] at hfits
  cases hen : s.enabled with
  | false =>
    refine h.change (.test k false) hp (by simp) ?_
    constructor <;> simp [setPhase, hk, hen]
    grind
  | true =>
    refine h.change (.test k true) hp (by simp) ?_
    constructor <;> simp [setPhase, hk, hen]
    grind

theorem Inv.test (h : Inv s) {wasSet : Bool} (hp : s.phase p = .test k wasSet) :
    (s.signaled = true → Inv (unlock p (.finished k (late k)) s)) ∧
    (s.signaled = false → Inv (setPhase p (if wasSet then .link k else .ask k) s)) := by
  have hk : waits k = true := by
    have hfits := h.fits p
    rwa [hp] at hfits
  have hen := h.finds hp (.inr rfl)
  refine ⟨fun hsig => ?_, fun hsig => ?_⟩
  · refine h.change (.finished k (late k)) hp (by simp) ?_
    constructor
    case linked => cases k <;> rfl
    all_goals simp [unlock, setPhase, hsig, hen]
  · cases wasSet with
    | true =>
      refine h.change (.link k) hp (by simp) ?_
      constructor <;> simp [setPhase, hk, hsig, hen]
    | false =>
      refine h.change (.ask k) hp (by simp) ?_
      constructor <;> simp [setPhase, hk, hsig, hen]

theorem Inv.answered (h : Inv s) (hp : s.phase p = .ask k) (yes : Bool) :
    Inv (answered p s k yes) := by
  have hk : waits k = true ∨ k = .enableSwSignaling := by
    have hfits := h.fits p
    rw [hp] at hfits
    simpa using hfits
  have hen := h.finds hp (.inl rfl)
  unfold FenceCallbacks.answered
  dsimp only
  split_ifs with hyes hsw
  · refine h.change (.finished k .ok) hp (by simp) ?_
    subst hsw
    constructor <;> simp [unlock, setPhase, hen]
    grind
  · have hw := hk.resolve_right hsw
    refine h.change (.link k) hp (by simp) ?_
    constructor <;> simp [setPhase, hen, hw, hsw]
  · refine h.change (.signal k) hp (by simp) ?_
    constructor <;> simp [setPhase, hen]

theorem Inv.signal (h : Inv s) (hp : s.phase p = .signal k) :
    Inv (setPhase p (.run k (if s.signaled then .einval else .ok))
      { s with signaled := true }) := by
  refine h.change (.run k (if s.signaled then .einval else .ok)) hp (by simp) ?_
  constructor <;> simp [setPhase]

theorem Inv.ends (h : Inv s) {r : Ret} (hp : s.phase p = .run k r) (hnil : s.cbList = []) :
    Inv (unlock p (.finished k (ranAll k r)) s) := by
  have hsig := h.told p (by rw [hp]; rfl)
  have hnone : NoneLinks s p := h.noneLinks (by rw [hp]; rfl)
  refine h.change (.finished k (ranAll k r)) hp (by simp) ?_
  constructor
  case linked => cases k <;> rfl
  all_goals simp [unlock, setPhase, hsig, hnil, hnone]

theorem Inv.relock (h : Inv s) {intr : Bool} {r r' : Ret} (hp : s.phase p = .relock intr r)
    (hfree : s.lock = none) : Inv (setPhase p (.loop intr r') { s with lock := some p }) := by
  refine h.change (.loop intr r') hp (by simp) ?_
  constructor <;> simp [setPhase, hfree]
  grind

theorem Inv.wakes (h : Inv s) {intr : Bool} {r : Ret} (hp : s.phase p = .asleep intr) :
    Inv (setPhase p (.relock intr r) { s with awake := Function.update s.awake p true }) := by
  refine h.change (.relock intr r) hp (by simp) ?_
  constructor <;> simp [setPhase]
  · grind
  · grind

theorem Inv.sleeps (h : Inv s) {intr : Bool} {r : Ret} (hp : s.phase p = .loop intr r)
    (hsig : s.signaled = false) :
    Inv (unlock p (.asleep intr) { s with awake := Function.update s.awake p false }) := by
  have hin : p ∈ s.cbList := by
    rcases h.kept p (by rw [hp]; rfl) with hc | hc | hc
    · exact hc
    · rw [h.signaled (List.ne_nil_of_mem hc)] at hsig
      cases hsig
    · rw [h.removed p hc] at hp
      cases hp
  refine h.change (.asleep intr) hp (by simp) ?_
  constructor <;> simp [unlock, setPhase, hsig, hin]
  all_goals grind

theorem Inv.pops (h : Inv s) {r : Ret} {rest : List ℕ} (hp : s.phase p = .run k r)
    (hcb : s.cbList = c :: rest) : Inv { s with
      cbList := rest, called := c :: s.called, awake := Function.update s.awake c true } := by
  have hsig := h.told p (by rw [hp]; rfl)
  have hrun : willRun (s.phase p) = true := by rw [hp]; rfl
  obtain ⟨h1, h2, h3, h4, h5, h6, h7, h8, h9, h10, h11, h12, h13, h14, h15⟩ := h
  rw [hcb] at h7
  have hperm : (rest ++ (c :: s.called ++ s.removed)).Perm (c :: rest ++ (s.called ++ s.removed)) :=
    List.perm_middle
  have hwas := isLinked_wasLinked
  constructor
  · exact h1
  · exact h2
  · exact h3
  · exact h4
  · grind
  · exact fun _ _ => ⟨p, hrun⟩
  · exact hperm.nodup_iff.2 h7
  · grind
  · grind
  · exact h10
  · grind
  · exact fun _ => hsig
  · exact h13
  · grind
  · exact h15

theorem Inv.links (h : Inv s) {l : List ℕ} {lk : Option ℕ} (hp : s.phase p = .link k)
    (hl : l.Perm (p :: s.cbList)) (hy : isLinked y = true)
    (hlk : lk = s.lock ∧ hasLock y = true ∨ lk = none ∧ hasLock y = false)
    (hq : fitsKind y = true ∧ seeksAnswer y = false ∧ willLink y = false ∧ isTesting y = false ∧
      isTold y = false) :
    Inv (setPhase p y { s with cbList := l, lock := lk }) := by
  have hno : p ∉ s.cbList ++ (s.called ++ s.removed) := h.notOn (by rw [hp]; rfl)
  have hperm : (l ++ (s.called ++ s.removed)).Perm (p :: (s.cbList ++ (s.called ++ s.removed))) :=
    hl.append_right _
  have hmem : ∀ a, a ∈ l ↔ a = p ∨ a ∈ s.cbList := fun a => by
    rw [hl.mem_iff, List.mem_cons]
  simp only [List.mem_append, not_or] at hno
  refine h.relist y hp (by simp) ?_
  constructor
  · rfl
  · exact ⟨rfl, rfl, rfl⟩
  · exact hlk.imp (fun h => ⟨h.1, h.2⟩) (fun h => ⟨rfl, h.1, h.2⟩)
  · exact ⟨hq.1, hq.2.1, hq.2.2.1, hq.2.2.2.1, hq.2.2.2.2, rfl, rfl⟩
  · exact fun _ => .inr rfl
  · rfl
  · exact hperm.nodup_iff.2 (List.nodup_cons.2 ⟨by simpa using hno, h.nodup⟩)
  · intro q hq
    by_cases hqp : q = p
    · exact .inl ⟨hqp, hy⟩
    · exact .inr ⟨hqp, ((hmem q).1 hq).resolve_left hqp⟩
  · exact fun _ => isLinked_wasLinked y hy
  · exact fun q hq => .inl hq
  · exact fun _ => (hmem p).2 (.inl rfl)
  · exact fun q hq _ => .inl ((hmem q).2 (.inr hq))
  · exact fun q hq => hq
  · exact fun _ _ => rfl

theorem Inv.leaves (h : Inv s) {intr : Bool} {r : Ret} (hp : s.phase p = .loop intr r) :
    Inv (unlock p (.finished (.defaultWait intr) r)
      { s with cbList := s.cbList.erase p, awake := Function.update s.awake p true }) := by
  have hsub : (s.cbList.erase p ++ (s.called ++ s.removed)).Sublist
      (s.cbList ++ (s.called ++ s.removed)) := List.erase_sublist.append_right _
  have hmem : ∀ a, a ∈ s.cbList.erase p ↔ a ≠ p ∧ a ∈ s.cbList := fun a =>
    (List.nodup_append.1 h.nodup).1.mem_erase_iff
  refine h.relist (.finished (.defaultWait intr) r) hp (by simp) ?_
  constructor
  · rfl
  · exact ⟨rfl, rfl, rfl⟩
  · exact .inr ⟨rfl, rfl, rfl⟩
  · exact ⟨rfl, rfl, rfl, rfl, rfl, rfl, rfl⟩
  · exact fun hne => .inl fun hnil => hne (by simp [unlock, setPhase, hnil])
  · rfl
  · exact h.nodup.sublist hsub
  · exact fun q hq => .inr ((hmem q).1 hq)
  · exact fun _ => rfl
  · exact fun q hq => .inl hq
  · exact fun hy => absurd hy (by simp)
  · exact fun q hq hqp => .inl ((hmem q).2 ⟨hqp, hq⟩)
  · exact fun q hq => hq
  · exact fun q hq => Function.update_of_ne hq _ _

@[simp] def wantsRemoved : Phase → Option ℕ
  | .start (.removeCallback c) | .lock (.removeCallback c) => some c
  | _ => none

def Registered (s : Sys) : Prop :=
  ∀ p c, wantsRemoved (s.phase p) = some c → ∃ r, s.phase c = .finished .addCallback r

theorem Inv.next (h : Inv s) (hr : Registered s) (ht : next p env s = some t) : Inv t := by
  unfold FenceCallbacks.next at ht
  cases hp : s.phase p with
  | idle | finished k r =>
    rw [hp] at ht
    cases ht
  | start k =>
    rw [hp] at ht
    cases ht
    exact h.begin' hp
  | flagged =>
    rw [hp] at ht
    cases ht
    exact h.flagged hp
  | swFlagged =>
    rw [hp] at ht
    cases ht
    exact h.swFlagged hp
  | lock k =>
    simp only [hp, Option.ite_none_right_eq_some, Option.some.injEq] at ht
    obtain ⟨hfree, rfl⟩ := ht
    refine h.locked hp hfree fun c hk => hr p c ?_
    rw [hp, hk]
    rfl
  | enable k =>
    rw [hp] at ht
    cases ht
    exact h.enable hp
  | test k wasSet =>
    have hno := (h.test hp).2
    simp only [hp] at ht
    cases hsig : s.signaled with
    | true =>
      rw [hsig] at ht
      cases ht
      exact (h.test hp).1 hsig
    | false =>
      rw [hsig] at ht
      cases ht
      exact hno hsig
  | ask k =>
    rw [hp] at ht
    cases ht
    exact h.answered hp env.enabling
  | signal k =>
    rw [hp] at ht
    cases ht
    exact h.signal hp
  | run k r =>
    simp only [hp] at ht
    cases hcb : s.cbList with
    | nil =>
      rw [hcb] at ht
      cases ht
      exact h.ends hp hcb
    | cons c rest =>
      rw [hcb] at ht
      cases ht
      exact h.pops hp hcb
  | link k =>
    rw [hp] at ht
    have hfits := h.fits p
    rw [hp] at hfits
    cases k <;> simp [waits] at hfits
    · cases ht
      exact h.links hp (List.perm_append_singleton _ _) rfl (.inr ⟨rfl, rfl⟩) (by simp)
    · cases ht
      exact h.links hp (List.Perm.refl _) rfl (.inl ⟨rfl, rfl⟩) (by simp)
  | loop intr r =>
    simp only [hp] at ht
    split_ifs at ht with hsleep
    · cases ht
      exact h.sleeps hp hsleep.1
    · cases ht
      exact h.leaves hp
  | asleep intr =>
    simp only [hp, Option.ite_none_right_eq_some, Option.some.injEq] at ht
    obtain ⟨-, rfl⟩ := ht
    exact h.wakes hp
  | relock intr r =>
    simp only [hp, Option.ite_none_right_eq_some, Option.some.injEq] at ht
    obtain ⟨hfree, rfl⟩ := ht
    exact h.relock hp hfree

end Vmwgfx.FenceCallbacks
