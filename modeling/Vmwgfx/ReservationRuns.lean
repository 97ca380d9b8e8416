import Vmwgfx.BufferReservations

set_option autoImplicit false

/-!
# What calls hold that reserve many buffers

Over any interleaving a buffer is held by one call at most, a call that succeeds holds the
buffers of its list and a call that fails holds none, apart from one whose shared slot could not
be allocated. A chain of waiting calls always ends at one that goes on.
-/
namespace Vmwgfx.BufferReservations
open ExecbufState (Errno)
open LabelledRuns

variable {s t : Sys} {p q b c : ℕ} {l l' : Locks} {env : Env} {before todo : List Entry}
  {e : Entry}

theorem wwlMutexLock_cases {c : Option ℕ} {r : LockEnd}
    (h : wwlMutexLock b c l = some (r, l')) :
    (r = .ok ∧ (l.lock b).held = false ∧ l' = takeLock b c l) ∨
    (r = .ealready ∧ l' = l ∧ (l.lock b).held = true ∧
      ∃ p, c = some p ∧ (l.lock b).holder = some p) ∨
    (r = .edeadlk ∧ (l.lock b).held = true ∧ ∃ p q, c = some p ∧ (l.lock b).holder = some q ∧
      (l.ctx p).contendingLock ≠ some b ∧ (l.ctx q).ticket < (l.ctx p).ticket ∧
      l' = setContending p (some b) l) := by
  unfold wwlMutexLock at h
  split_ifs at h with hheld
  · cases h
    exact .inl ⟨rfl, hheld, rfl⟩
  · rw [Bool.not_eq_false] at hheld
    cases c with
    | none => cases h
    | some p =>
      dsimp only at h
      split_ifs at h with hown
      · cases h
        exact .inr (.inl ⟨rfl, rfl, hheld, p, rfl, hown⟩)
      · split at h
        · cases h
        · next q hq =>
          split_ifs at h with hc
          cases h
          exact .inr (.inr ⟨rfl, hheld, p, q, rfl, hq, hc.1, hc.2, rfl⟩)

inductive Stepped (s : Sys) (p : ℕ) : Act → Sys → Prop
  | reserveBuffers (list : List Entry) (ticket intr wantsDups : Bool)
      (hp : (s.call p).phase = .idle) :
    Stepped s p (.reserveBuffers list ticket intr wantsDups)
      (setCall p (newCall list ticket intr wantsDups)
        (if ticket && !list.isEmpty then setLocks (wwAcquireInit p s.locks) s else s))
  | locked (env : Env) (before : List Entry) (e : Entry) (todo : List Entry)
      (hp : (s.call p).phase = .walk before (e :: todo))
      (hfree : (s.locks.lock e.bo).held = false) :
    Stepped s p (.lockNext env)
      (setPhase p (.got before e todo) (setLocks (takeLock e.bo (ctxOf (s.call p) p) s.locks) s))
  | again (env : Env) (before : List Entry) (e : Entry) (todo : List Entry)
      (hp : (s.call p).phase = .walk before (e :: todo)) (ht : (s.call p).ticket = true)
      (hheld : (s.locks.lock e.bo).held = true)
      (hown : (s.locks.lock e.bo).holder = some p) (hd : (s.call p).wantsDups = true) :
    Stepped s p (.lockNext env)
      (setCall p { s.call p with phase := .walk before todo, dups := e :: (s.call p).dups } s)
  | giveUp (env : Env) (before : List Entry) (e : Entry) (todo : List Entry) (err : Errno)
      (hp : (s.call p).phase = .walk before (e :: todo)) :
    Stepped s p (.lockNext env) (backOff p before (.fail err) s)
  | dead (env : Env) (before : List Entry) (e : Entry) (todo : List Entry) (q : ℕ)
      (hp : (s.call p).phase = .walk before (e :: todo)) (ht : (s.call p).ticket = true)
      (hheld : (s.locks.lock e.bo).held = true)
      (hq : (s.locks.lock e.bo).holder = some q)
      (hlt : (s.locks.ctx q).ticket < (s.locks.ctx p).ticket) :
    Stepped s p (.lockNext env)
      (backOff p before (.slow before e todo) (setLocks (setContending p (some e.bo) s.locks) s))
  | check (env : Env) (before : List Entry) (e : Entry) (todo : List Entry)
      (hp : (s.call p).phase = .got before e todo) :
    Stepped s p (.check env) (checkEntry p env before e todo s)
  | dropNext (b : ℕ) (left : List ℕ) (next : After)
      (hp : (s.call p).phase = .drop (b :: left) next) :
    Stepped s p .dropNext (setPhase p (.drop left next) (unlock b s))
  | toSlow (before : List Entry) (e : Entry) (todo : List Entry)
      (hp : (s.call p).phase = .drop [] (.slow before e todo)) :
    Stepped s p .dropped (setPhase p (.slow before e todo) s)
  | failed (err : Errno) (hp : (s.call p).phase = .drop [] (.fail err)) :
    Stepped s p .dropped (finish p (some err) s)
  | interrupted (env : Env) (before : List Entry) (e : Entry) (todo : List Entry)
      (hp : (s.call p).phase = .slow before e todo) :
    Stepped s p (.slowLock env) (finish p (some .erestartsys) s)
  | lockedSlow (env : Env) (before : List Entry) (e : Entry) (todo : List Entry)
      (hp : (s.call p).phase = .slow before e todo)
      (hfree : (s.locks.lock e.bo).held = false) :
    Stepped s p (.slowLock env)
      (lockedSlow p env before e todo (setLocks (takeLock e.bo (some p) s.locks) s))
  | refused (env : Env) (before : List Entry) (e : Entry) (todo : List Entry) (t : Sys)
      (hp : (s.call p).phase = .slow before e todo)
      (hheld : (s.locks.lock e.bo).held = true)
      (hr : (s.locks.lock e.bo).holder = some p ∨
        (s.locks.ctx p).contendingLock ≠ some e.bo) :
    Stepped s p (.slowLock env) t
  | listDone (list : List Entry) (hp : (s.call p).phase = .walk list []) :
    Stepped s p .listDone (setPhase p (.reserved list) (delFromLru (bos list) s))
  | unreserve (list : List Entry) (hp : (s.call p).phase = .reserved list) :
    Stepped s p .unreserve (setPhase p (.release list) s)
  | unreserveNext (e : Entry) (left : List Entry) (hp : (s.call p).phase = .release (e :: left)) :
    Stepped s p .unreserveNext (setPhase p (.release left) (unlock e.bo (addToLru e.bo s)))
  | unreserved (hp : (s.call p).phase = .release []) :
    Stepped s p .unreserved (finish p none s)
  | boReserve (b : ℕ) (noWait intr : Bool) (hp : (s.call p).phase = .idle) :
    Stepped s p (.boReserve b noWait intr)
      (setCall p { noCall with phase := .alone b noWait, intr := intr } s)
  | boRefused (env : Env) (b : ℕ) (noWait : Bool) (err : Errno)
      (hp : (s.call p).phase = .alone b noWait) :
    Stepped s p (.boLock env) (finish p (some err) s)
  | boLocked (env : Env) (b : ℕ) (noWait : Bool) (hp : (s.call p).phase = .alone b noWait)
      (hfree : (s.locks.lock b).held = false) :
    Stepped s p (.boLock env)
      (setPhase p (.single b) (delFromLru [b] (setLocks (takeLock b none s.locks) s)))
  | boUnreserve (b : ℕ) (hp : (s.call p).phase = .single b) :
    Stepped s p .boUnreserve (finish p none (unlock b (addToLru b s)))
  | place (b : ℕ) (noEvict : Bool) (hb : b ∈ detached (s.call p).phase) :
    Stepped s p (.place b noEvict)
      { s with noEvict := Function.update s.noEvict b noEvict }

theorem ctxOf_some {c : Call} (h : ctxOf c p = some q) : c.ticket = true ∧ q = p := by
  unfold ctxOf at h
  split_ifs at h with ht
  exact ⟨ht, (Option.some.inj h).symm⟩

theorem setLocks_self : setLocks s.locks s = s := rfl

theorem lockEntry_cases (hp : (s.call p).phase = .walk before (e :: todo))
    (h : lockEntry p env before e todo s = some t) : Stepped s p (.lockNext env) t := by
  unfold lockEntry at h
  rcases hr : wwlMutexLock e.bo (ctxOf (s.call p) p) s.locks with _ | ⟨r, l⟩
  · rw [hr] at h
    dsimp only at h
    split_ifs at h <;> cases h
    · exact .giveUp env before e todo _ hp
    · exact .giveUp env before e todo _ hp
  · rw [hr] at h
    rcases wwlMutexLock_cases hr with ⟨rfl, hfree, rfl⟩ | ⟨rfl, rfl, hheld, c, hc, hown⟩ |
      ⟨rfl, hheld, c, q, hc, hq, -, hlt, rfl⟩
    · cases h
      exact .locked env before e todo hp hfree
    · obtain ⟨ht, rfl⟩ := ctxOf_some hc
      dsimp only at h
      rw [setLocks_self] at h
      split_ifs at h with hd <;> cases h
      · exact .again env before e todo hp ht hheld hown hd
      · exact .giveUp env before e todo _ hp
    · obtain ⟨ht, rfl⟩ := ctxOf_some hc
      cases h
      exact .dead env before e todo q hp ht hheld hq hlt

theorem lockSlow_cases (hp : (s.call p).phase = .slow before e todo)
    (h : lockSlow p env before e todo s = some t) : Stepped s p (.slowLock env) t := by
  unfold lockSlow at h
  rcases hr : wwlMutexLock e.bo (some p) s.locks with _ | ⟨r, l⟩
  · rw [hr] at h
    dsimp only at h
    split_ifs at h
    cases h
    exact .interrupted env before e todo hp
  · rw [hr] at h
    rcases wwlMutexLock_cases hr with ⟨rfl, hfree, rfl⟩ | ⟨rfl, rfl, hheld, c, hc, hown⟩ |
      ⟨rfl, hheld, c, q, hc, hq, hne, -, rfl⟩
    · simp only [ne_eq, not_true_eq_false, decide_false, Bool.and_false, Bool.false_eq_true,
        if_false, Option.some.injEq] at h
      subst h
      exact .lockedSlow env before e todo hp hfree
    · cases hc
      exact .refused env before e todo t hp hheld (.inl hown)
    · cases hc
      exact .refused env before e todo t hp hheld (.inr hne)

theorem lockAlone_cases {noWait : Bool} (hp : (s.call p).phase = .alone b noWait)
    (h : lockAlone p env b noWait s = some t) : Stepped s p (.boLock env) t := by
  unfold lockAlone at h
  rcases hr : wwlMutexLock b none s.locks with _ | ⟨r, l⟩
  · rw [hr] at h
    dsimp only at h
    split_ifs at h <;> cases h
    · exact .boRefused env b noWait _ hp
    · exact .boRefused env b noWait _ hp
  · rw [hr] at h
    rcases wwlMutexLock_cases hr with ⟨rfl, hfree, rfl⟩ | ⟨-, -, -, c, hc, -⟩ |
      ⟨-, -, c, q, hc, -⟩
    · cases h
      exact .boLocked env b noWait hp hfree
    · cases hc
    · cases hc

theorem step_cases {a : Act} (h : step s (p, a) = some t) : Stepped s p a t := by
  cases a with
  | lockNext env =>
    simp only [step] at h
    split at h
    · next hp => exact lockEntry_cases hp h
    · cases h
  | slowLock env =>
    simp only [step] at h
    split at h
    · next hp => exact lockSlow_cases hp h
    · cases h
  | boLock env =>
    simp only [step] at h
    split at h
    · next hp => exact lockAlone_cases hp h
    · cases h
  | place b noEvict =>
    simp only [step] at h
    split_ifs at h with hb
    cases h
    exact .place b noEvict hb
  | dropped =>
    simp only [step] at h
    split at h
    · next hp =>
      cases h
      exact .toSlow _ _ _ hp
    · next hp =>
      cases h
      exact .failed _ hp
    · cases h
  | _ =>
    simp only [step] at h
    split at h
    · next hp =>
      cases h
      constructor
      exact hp
    · cases h

def inPhase : Phase → List ℕ
  | .walk before _ => bos before
  | .got before e _ => e.bo :: bos before
  | .drop left _ => left
  | .reserved list => bos list
  | .release left => bos left
  | .single b => [b]
  | _ => []

def owns (c : Call) : List ℕ := inPhase c.phase ++ c.lost

/-- A mutex is held by the one call that has the buffer, which is its holder if it has a ticket. -/
structure Own (s : Sys) : Prop where
  held : ∀ b, (s.locks.lock b).held = true ↔ ∃ p, b ∈ owns (s.call p)
  apart : ∀ p q b, b ∈ owns (s.call p) → b ∈ owns (s.call q) → p = q
  nodup : ∀ p, (owns (s.call p)).Nodup
  holder : ∀ p b, b ∈ owns (s.call p) → (s.locks.lock b).holder = ctxOf (s.call p) p

theorem Own.same (h : Own s) (hl : t.locks.lock = s.locks.lock)
    (hother : ∀ q, q ≠ p → t.call q = s.call q) (ho : (owns (t.call p)).Perm (owns (s.call p)))
    (hctx : owns (t.call p) = [] ∨ (t.call p).ticket = (s.call p).ticket) : Own t := by
  have hmem : ∀ q b, b ∈ owns (t.call q) ↔ b ∈ owns (s.call q) := by
    intro q b
    by_cases hq : q = p
    · subst hq
      exact ho.mem_iff
    · rw [hother q hq]
  refine ⟨fun b => ?_, fun q r b => ?_, fun q => ?_, fun q b hb => ?_⟩
  · simp only [hl, hmem]
    exact h.held b
  · rw [hmem, hmem]
    exact h.apart q r b
  · by_cases hq : q = p
    · subst hq
      exact ho.nodup_iff.2 (h.nodup q)
    · rw [hother q hq]
      exact h.nodup q
  · rw [hl, h.holder q b ((hmem q b).1 hb)]
    by_cases hq : q = p
    · subst hq
      rcases hctx with hnil | hticket
      · rw [hnil] at hb
        cases hb
      · rw [ctxOf, ctxOf, hticket]
    · rw [hother q hq]

theorem Own.free_iff (h : Own s) : (s.locks.lock b).held = false ↔ ∀ p, b ∉ owns (s.call p) := by
  rw [← Bool.not_eq_true, h.held b, not_exists]

theorem Own.take (h : Own s) (hfree : (s.locks.lock b).held = false)
    (hl : t.locks.lock = Function.update s.locks.lock b ⟨true, ctxOf (s.call p) p⟩)
    (hother : ∀ q, q ≠ p → t.call q = s.call q)
    (ho : (owns (t.call p)).Perm (b :: owns (s.call p)))
    (hticket : (t.call p).ticket = (s.call p).ticket) : Own t := by
  have hnone := h.free_iff.1 hfree
  have hmem : ∀ q a, a ∈ owns (t.call q) ↔ a ∈ owns (s.call q) ∨ (a = b ∧ q = p) := by
    intro q a
    by_cases hq : q = p
    · subst hq
      rw [ho.mem_iff, List.mem_cons]
      tauto
    · rw [hother q hq]
      tauto
  refine ⟨fun a => ?_, fun q r a hq hr => ?_, fun q => ?_, fun q a ha => ?_⟩
  · rw [hl]
    by_cases ha : a = b
    · subst ha
      simp only [Function.update_self, true_iff]
      exact ⟨p, (hmem p a).2 (.inr ⟨rfl, rfl⟩)⟩
    · rw [Function.update_of_ne ha, h.held a]
      simp only [hmem, ha, false_and, or_false]
  · rcases (hmem q a).1 hq with hq | ⟨rfl, rfl⟩
    · rcases (hmem r a).1 hr with hr | ⟨rfl, rfl⟩
      · exact h.apart q r a hq hr
      · exact absurd hq (hnone q)
    · rcases (hmem r a).1 hr with hr | ⟨-, rfl⟩
      · exact absurd hr (hnone r)
      · rfl
  · by_cases hq : q = p
    · subst hq
      exact ho.nodup_iff.2 (List.nodup_cons.2 ⟨hnone q, h.nodup q⟩)
    · rw [hother q hq]
      exact h.nodup q
  · rw [hl]
    by_cases hab : a = b
    · subst hab
      rcases (hmem q a).1 ha with ha | ⟨-, rfl⟩
      · exact absurd ha (hnone q)
      · rw [Function.update_self, ctxOf, ctxOf, hticket]
    · rw [Function.update_of_ne hab]
      have ha : a ∈ owns (s.call q) := ((hmem q a).1 ha).resolve_right fun h => hab h.1
      rw [h.holder q a ha]
      by_cases hq : q = p
      · subst hq
        rw [ctxOf, ctxOf, hticket]
      · rw [hother q hq]

theorem Own.release (h : Own s)
    (hl : t.locks.lock = Function.update s.locks.lock b ⟨false, none⟩)
    (hother : ∀ q, q ≠ p → t.call q = s.call q)
    (ho : (owns (s.call p)).Perm (b :: owns (t.call p)))
    (hticket : (t.call p).ticket = (s.call p).ticket) : Own t := by
  have hb : b ∈ owns (s.call p) := ho.mem_iff.2 List.mem_cons_self
  have hnodup := ho.nodup_iff.1 (h.nodup p)
  have hmem : ∀ q a, a ∈ owns (t.call q) ↔ a ∈ owns (s.call q) ∧ a ≠ b := by
    intro q a
    by_cases hq : q = p
    · subst hq
      rw [ho.mem_iff, List.mem_cons]
      constructor
      · intro ha
        refine ⟨.inr ha, ?_⟩
        rintro rfl
        exact (List.nodup_cons.1 hnodup).1 ha
      · rintro ⟨rfl | ha, hne⟩
        · exact absurd rfl hne
        · exact ha
    · rw [hother q hq]
      constructor
      · intro ha
        refine ⟨ha, ?_⟩
        rintro rfl
        exact hq (h.apart q p a ha hb)
      · exact And.left
  refine ⟨fun a => ?_, fun q r a hq hr => ?_, fun q => ?_, fun q a ha => ?_⟩
  · rw [hl]
    by_cases ha : a = b
    · subst ha
      simp [hmem]
    · rw [Function.update_of_ne ha, h.held a]
      simp only [hmem, ne_eq, ha, not_false_eq_true, and_true]
  · exact h.apart q r a ((hmem q a).1 hq).1 ((hmem r a).1 hr).1
  · by_cases hq : q = p
    · subst hq
      exact (List.nodup_cons.1 hnodup).2
    · rw [hother q hq]
      exact h.nodup q
  · obtain ⟨ha, hne⟩ := (hmem q a).1 ha
    rw [hl, Function.update_of_ne hne, h.holder q a ha]
    by_cases hq : q = p
    · subst hq
      rw [ctxOf, ctxOf, hticket]
    · rw [hother q hq]

/-- The list as it was handed over, its order and the entries moved to `dups` aside. -/
structure Kept (c : Call) (list : List Entry) : Prop where
  perm : (list ++ c.dups).Perm c.given
  dupsIn : ∀ d ∈ c.dups, d.bo ∈ bos list
  noDups : c.wantsDups = false → c.dups = []
  lost : c.lost = []

def LostOk (c : Call) (err : Option Errno) : Prop :=
  c.lost = [] ∨ ∃ e ∈ c.given, e.shared = true ∧ c.lost = [e.bo] ∧ err = some .enomem

def Ready (c : Call) (x : WwAcquireCtx) (contending : Option ℕ) : Prop :=
  (c.ticket = true → 0 < x.ticket) ∧ x.contendingLock = contending

def AfterOk (c : Call) (x : WwAcquireCtx) : After → Prop
  | .slow before e todo =>
    Kept c (before ++ e :: todo) ∧ c.ticket = true ∧ Ready c x (some e.bo)
  | .fail err => LostOk c (some err)

def PhaseOk (c : Call) (x : WwAcquireCtx) : Phase → Prop
  | .idle => c.lost = [] ∧ x.contendingLock = none
  | .walk before todo => Kept c (before ++ todo) ∧ Ready c x none
  | .got before e todo => Kept c (before ++ e :: todo) ∧ Ready c x none
  | .drop _ next => AfterOk c x next
  | .slow before e todo => AfterOk c x (.slow before e todo)
  | .reserved list => Kept c list
  | .release _ => c.lost = []
  | .alone _ _ => c.lost = [] ∧ c.ticket = false
  | .single _ => c.lost = [] ∧ c.ticket = false
  | .finished => LostOk c c.ret

def CallOk (c : Call) (x : WwAcquireCtx) : Prop := PhaseOk c x c.phase

/-- Every ticket was drawn from the counter of the class once. -/
structure Tickets (l : Locks) : Prop where
  le : ∀ p, (l.ctx p).ticket ≤ l.seqno
  unique : ∀ p q, 0 < (l.ctx p).ticket → (l.ctx p).ticket = (l.ctx q).ticket → p = q

/-- A buffer is on the LRU lists unless it may not be evicted or a call has taken it off. -/
structure Lru (s : Sys) : Prop where
  onLru : ∀ b, s.onLru b = true ↔ s.noEvict b = false ∧ ∀ p, b ∉ detached (s.call p).phase
  bug : s.bug = false

structure Inv (s : Sys) : Prop where
  own : Own s
  calls : ∀ p, CallOk (s.call p) (s.locks.ctx p)
  tickets : Tickets s.locks
  lru : Lru s

theorem detached_owned (c : Call) : ∀ b ∈ detached c.phase, b ∈ owns c := by
  intro b hb
  refine List.mem_append_left _ ?_
  revert hb
  cases c.phase <;> simp [detached, inPhase]

theorem start_inv (noEvict : ℕ → Bool) : Inv (start noEvict) := by
  refine ⟨⟨fun b => ?_, fun p q b hb => ?_, fun p => ?_, fun p b hb => ?_⟩, fun p => ⟨rfl, rfl⟩,
    ⟨fun p => le_rfl, fun p q hp => absurd hp (lt_irrefl 0)⟩, ⟨fun b => ?_, rfl⟩⟩
  · simp [start, owns, inPhase, noCall]
  · cases hb
  · exact List.nodup_nil
  · cases hb
  · simp [start, noCall, detached]

@[simp] theorem setCall_self (p : ℕ) (c : Call) (s : Sys) : (setCall p c s).call p = c :=
  Function.update_self ..

theorem setCall_of_ne (h : q ≠ p) (c : Call) (s : Sys) : (setCall p c s).call q = s.call q :=
  Function.update_of_ne h ..

@[simp] theorem addToLru_call (b : ℕ) (s : Sys) : (addToLru b s).call = s.call := by
  unfold addToLru
  split_ifs <;> rfl

@[simp] theorem addToLru_locks (b : ℕ) (s : Sys) : (addToLru b s).locks = s.locks := by
  unfold addToLru
  split_ifs <;> rfl

@[simp] theorem bos_append (l m : List Entry) : bos (l ++ m) = bos l ++ bos m := List.map_append

@[simp] theorem bos_cons (e : Entry) (l : List Entry) : bos (e :: l) = e.bo :: bos l := rfl

@[simp] theorem bos_nil : bos [] = [] := rfl

theorem takeLock_lock (b : ℕ) (c : Option ℕ) (l : Locks) :
    (takeLock b c l).lock = Function.update l.lock b ⟨true, c⟩ := by
  unfold takeLock
  cases c with
  | none => rfl
  | some c =>
    dsimp only
    split_ifs <;> rfl

theorem takeLock_ctx (b : ℕ) (c : Option ℕ) (l : Locks) : (takeLock b c l).seqno = l.seqno ∧
    (∀ q, ((takeLock b c l).ctx q).ticket = (l.ctx q).ticket) ∧
    (∀ q, c ≠ some q → (takeLock b c l).ctx q = l.ctx q) ∧
    ∀ q, c = some q → ((takeLock b c l).ctx q).contendingLock =
      if (l.ctx q).contendingLock = some b then none else (l.ctx q).contendingLock := by
  unfold takeLock
  cases c with
  | none => exact ⟨rfl, fun _ => rfl, fun _ _ => rfl, fun q hq => absurd hq (by simp)⟩
  | some c =>
    dsimp only
    split_ifs with hc
    · refine ⟨rfl, fun q => ?_, fun q hq => ?_, fun q hq => ?_⟩
      · by_cases h : q = c
        · subst h
          simp [setContending]
        · simp [setContending, Function.update_of_ne h]
      · exact Function.update_of_ne (fun h => hq (by rw [h])) ..
      · cases hq
        simp [setContending, hc]
    · refine ⟨rfl, fun _ => rfl, fun _ _ => rfl, fun q hq => ?_⟩
      cases hq
      rw [if_neg hc]

theorem Tickets.congr (h : Tickets l) (hs : l'.seqno = l.seqno)
    (ht : ∀ q, (l'.ctx q).ticket = (l.ctx q).ticket) : Tickets l' := by
  refine ⟨fun p => ?_, fun p q => ?_⟩
  · rw [hs, ht]
    exact h.le p
  · rw [ht, ht]
    exact h.unique p q

theorem Tickets.init (h : Tickets l) (p : ℕ) : Tickets (wwAcquireInit p l) := by
  refine ⟨fun q => ?_, fun q r hq hqr => ?_⟩
  · by_cases hqp : q = p
    · subst hqp
      simp [wwAcquireInit]
    · simp only [wwAcquireInit, Function.update_of_ne hqp]
      exact (h.le q).trans (Nat.le_succ _)
  · by_cases hqp : q = p
    · by_cases hrp : r = p
      · rw [hqp, hrp]
      · have := h.le r
        simp only [wwAcquireInit, hqp, Function.update_self, Function.update_of_ne hrp] at hqr
        omega
    · by_cases hrp : r = p
      · have := h.le q
        simp only [wwAcquireInit, hrp, Function.update_self, Function.update_of_ne hqp] at hqr
        omega
      · simp only [wwAcquireInit, Function.update_of_ne hqp, Function.update_of_ne hrp] at hq hqr
        exact h.unique q r hq hqr

theorem Lru.same (h : Lru s) (hlru : t.onLru = s.onLru) (hev : t.noEvict = s.noEvict)
    (hbug : t.bug = s.bug) (hd : ∀ q, detached (t.call q).phase = detached (s.call q).phase) :
    Lru t := by
  refine ⟨fun b => ?_, hbug.trans h.bug⟩
  simp only [hlru, hev, hd]
  exact h.onLru b

theorem Lru.detach (h : Lru s) (bs : List ℕ) (hlru : t.onLru = (delFromLru bs s).onLru)
    (hev : t.noEvict = s.noEvict) (hbug : t.bug = s.bug)
    (hother : ∀ q, q ≠ p → t.call q = s.call q) (hs : detached (s.call p).phase = [])
    (ht : detached (t.call p).phase = bs) : Lru t := by
  refine ⟨fun b => ?_, hbug.trans h.bug⟩
  rw [hlru, hev]
  simp only [delFromLru, Bool.and_eq_true, decide_eq_true_eq, h.onLru b]
  constructor
  · rintro ⟨⟨hb, hnone⟩, hbs⟩
    refine ⟨hb, fun q => ?_⟩
    by_cases hq : q = p
    · subst hq
      rwa [ht]
    · rw [hother q hq]
      exact hnone q
  · rintro ⟨hb, hnone⟩
    refine ⟨⟨hb, fun q => ?_⟩, ?_⟩
    · by_cases hq : q = p
      · subst hq
        rw [hs]
        exact List.not_mem_nil
      · rw [← hother q hq]
        exact hnone q
    · rw [← ht]
      exact hnone p

theorem Lru.attach (h : Lru s) (hlru : t.onLru = (addToLru b s).onLru)
    (hev : t.noEvict = s.noEvict) (hbug : t.bug = (addToLru b s).bug)
    (hother : ∀ q, q ≠ p → t.call q = s.call q)
    (hs : ∀ a, a ∈ detached (s.call p).phase ↔ a = b ∨ a ∈ detached (t.call p).phase)
    (hb : ∀ q, b ∉ detached (t.call q).phase) : Lru t := by
  have hoff : s.onLru b = false := by
    rw [← Bool.not_eq_true, h.onLru b]
    rintro ⟨-, hnone⟩
    exact hnone p ((hs b).2 (.inl rfl))
  have hmem : ∀ a, a ≠ b → ((∀ q, a ∉ detached (t.call q).phase) ↔
      ∀ q, a ∉ detached (s.call q).phase) := by
    intro a ha
    refine forall_congr' fun q => not_congr ?_
    by_cases hq : q = p
    · subst hq
      rw [hs a]
      tauto
    · rw [hother q hq]
  unfold addToLru at hlru hbug
  by_cases hev' : s.noEvict b = true
  · rw [if_pos hev'] at hlru hbug
    refine ⟨fun a => ?_, hbug.trans h.bug⟩
    rw [hlru, hev]
    by_cases ha : a = b
    · subst ha
      rw [hoff, hev']
      simp
    · rw [hmem a ha]
      exact h.onLru a
  · rw [if_neg hev'] at hlru hbug
    refine ⟨fun a => ?_, ?_⟩
    · rw [hlru, hev]
      dsimp only
      by_cases ha : a = b
      · subst ha
        rw [Function.update_self]
        simp only [true_iff]
        exact ⟨by simpa using hev', hb⟩
      · rw [Function.update_of_ne ha, hmem a ha]
        exact h.onLru a
    · rw [hbug]
      simp [h.bug, hoff]

theorem detached_setCall {c : Call} {u : Sys} (hu : u.call = s.call)
    (hd : detached c.phase = detached (s.call p).phase) (q : ℕ) :
    detached ((setCall p c u).call q).phase = detached (s.call q).phase := by
  by_cases hq : q = p
  · subst hq
    rw [setCall_self, hd]
  · rw [setCall_of_ne hq, hu]

theorem Inv.of (h : Inv s) (hother : ∀ q, q ≠ p → t.call q = s.call q)
    (hctx : ∀ q, q ≠ p → t.locks.ctx q = s.locks.ctx q) (hown : Own t)
    (hp : CallOk (t.call p) (t.locks.ctx p)) (ht : Tickets t.locks) (hlru : Lru t) : Inv t := by
  refine ⟨hown, fun q => ?_, ht, hlru⟩
  by_cases hq : q = p
  · subst hq
    exact hp
  · rw [hother q hq, hctx q hq]
    exact h.calls q

theorem Inv.quiet (h : Inv s) {c : Call} (hl : l.lock = s.locks.lock)
    (hctx : ∀ q, q ≠ p → l.ctx q = s.locks.ctx q) (ho : (owns c).Perm (owns (s.call p)))
    (hticket : owns c = [] ∨ c.ticket = (s.call p).ticket) (hc : CallOk c (l.ctx p))
    (ht : Tickets l) (hd : detached c.phase = detached (s.call p).phase) :
    Inv (setCall p c (setLocks l s)) := by
  have hother : ∀ q, q ≠ p → (setCall p c (setLocks l s)).call q = s.call q :=
    fun q hq => setCall_of_ne hq ..
  refine h.of hother hctx (h.own.same hl hother ?_ ?_) ?_ ht
    (h.lru.same rfl rfl rfl (detached_setCall rfl hd))
  · rwa [setCall_self]
  · rwa [setCall_self]
  · rwa [setCall_self]

theorem Inv.still (h : Inv s) {c : Call} (ho : (owns c).Perm (owns (s.call p)))
    (hticket : owns c = [] ∨ c.ticket = (s.call p).ticket) (hc : CallOk c (s.locks.ctx p))
    (hd : detached c.phase = detached (s.call p).phase) : Inv (setCall p c s) :=
  h.quiet (l := s.locks) rfl (fun _ _ => rfl) ho hticket hc h.tickets hd

theorem Inv.callAt (h : Inv s) {x : Phase} (hp : (s.call p).phase = x) :
    PhaseOk (s.call p) (s.locks.ctx p) x := by
  have := h.calls p
  rwa [CallOk, hp] at this

theorem Inv.reserveBuffers (h : Inv s) (hp : (s.call p).phase = .idle) (list : List Entry)
    (ticket intr wantsDups : Bool) : Inv (setCall p (newCall list ticket intr wantsDups)
      (if ticket && !list.isEmpty then setLocks (wwAcquireInit p s.locks) s else s)) := by
  obtain ⟨hlost, hcont⟩ := h.callAt hp
  have hnone : owns (newCall list ticket intr wantsDups) = [] := by
    unfold newCall owns
    split_ifs <;> rfl
  have hperm : (owns (newCall list ticket intr wantsDups)).Perm (owns (s.call p)) := by
    rw [hnone, owns, hp, hlost]
    rfl
  have hd : detached (newCall list ticket intr wantsDups).phase = detached (s.call p).phase := by
    rw [hp]
    unfold newCall
    split_ifs <;> rfl
  have hkept : Kept (newCall list ticket intr wantsDups) list :=
    ⟨by simp [newCall, noCall], by simp [newCall, noCall], fun _ => rfl, rfl⟩
  by_cases hnil : list = []
  · subst hnil
    rw [if_neg (by simp)]
    exact h.still hperm (.inl hnone) hkept hd
  · have hphase : (newCall list ticket intr wantsDups).phase = .walk [] list := if_neg hnil
    by_cases ht : ticket = true
    · rw [if_pos (by simp [ht, hnil])]
      refine h.quiet rfl (fun q hq => Function.update_of_ne hq ..) hperm (.inl hnone) ?_
        (h.tickets.init p) hd
      rw [CallOk, hphase]
      exact ⟨hkept, fun _ => by simp [wwAcquireInit], by simp [wwAcquireInit]⟩
    · rw [if_neg (by simp [ht])]
      refine h.still hperm (.inl hnone) ?_ hd
      rw [CallOk, hphase]
      exact ⟨hkept, fun ht' => absurd ht' ht, hcont⟩

theorem Inv.takes (h : Inv s) (hfree : (s.locks.lock b).held = false) {c : Call}
    (ho : (owns c).Perm (b :: owns (s.call p))) (hticket : c.ticket = (s.call p).ticket)
    (hc : CallOk c ((takeLock b (ctxOf (s.call p) p) s.locks).ctx p))
    (hd : detached c.phase = detached (s.call p).phase) :
    Inv (setCall p c (setLocks (takeLock b (ctxOf (s.call p) p) s.locks) s)) := by
  obtain ⟨hseq, hsame, hfar, -⟩ := takeLock_ctx b (ctxOf (s.call p) p) s.locks
  refine h.of (fun q hq => setCall_of_ne hq ..) (fun q hq => ?_) ?_ (by rwa [setCall_self])
    (h.tickets.congr hseq hsame) (h.lru.same rfl rfl rfl (detached_setCall rfl hd))
  · refine hfar q fun heq => hq ?_
    exact (ctxOf_some heq).2
  · refine h.own.take hfree (takeLock_lock ..) (fun q hq => setCall_of_ne hq ..) ?_ ?_
    · rwa [setCall_self]
    · rwa [setCall_self]

theorem Ready.take {c : Call} (h : Ready c (l.ctx p) none ∨
    (c.ticket = true ∧ Ready c (l.ctx p) (some b))) :
    Ready c ((takeLock b (ctxOf c p) l).ctx p) none := by
  obtain ⟨-, hsame, hfar, hnear⟩ := takeLock_ctx b (ctxOf c p) l
  rcases h with ⟨hpos, hcont⟩ | ⟨ht, hpos, hcont⟩
  · refine ⟨fun ht => by rw [hsame]; exact hpos ht, ?_⟩
    by_cases hc : ctxOf c p = some p
    · rw [hnear p hc, hcont]
      rfl
    · rw [hfar p hc, hcont]
  · refine ⟨fun ht => by rw [hsame]; exact hpos ht, ?_⟩
    rw [hnear p (if_pos ht), if_pos hcont]

theorem Inv.locked (h : Inv s) (hp : (s.call p).phase = .walk before (e :: todo))
    (hfree : (s.locks.lock e.bo).held = false) :
    Inv (setPhase p (.got before e todo)
      (setLocks (takeLock e.bo (ctxOf (s.call p) p) s.locks) s)) := by
  obtain ⟨hkept, hready⟩ := h.callAt hp
  exact h.takes hfree (by simp [owns, setLocks, hp, inPhase]) rfl
    ⟨⟨hkept.perm, hkept.dupsIn, hkept.noDups, hkept.lost⟩, Ready.take (.inl hready)⟩
    (by rw [hp]; rfl)

theorem Inv.again (h : Inv s) (hp : (s.call p).phase = .walk before (e :: todo))
    (hheld : (s.locks.lock e.bo).held = true)
    (hown : (s.locks.lock e.bo).holder = some p) (hd : (s.call p).wantsDups = true) :
    Inv (setCall p
      { s.call p with phase := .walk before todo, dups := e :: (s.call p).dups } s) := by
  obtain ⟨hkept, hready⟩ := h.callAt hp
  obtain ⟨q, hq⟩ := (h.own.held e.bo).1 hheld
  have hin : e.bo ∈ bos before := by
    -- the holder is the call itself, which has only what it has walked past
    have := h.own.holder q e.bo hq
    rw [hown] at this
    obtain ⟨-, rfl⟩ := ctxOf_some this.symm
    simpa [owns, hp, inPhase, hkept.lost] using hq
  refine h.still ?_ (.inr rfl) ⟨⟨?_, ?_, fun hno => ?_, hkept.lost⟩, hready⟩ ?_
  · simp [owns, hp, inPhase]
  · refine List.Perm.trans ?_ hkept.perm
    simp only [List.append_assoc, List.cons_append]
    exact (List.perm_middle.append_left before)
  · intro d hmem
    rcases List.mem_cons.1 hmem with rfl | hmem
    · rw [bos_append]
      exact List.mem_append_left _ hin
    · have := hkept.dupsIn d hmem
      simp only [bos_append, bos_cons, List.mem_append, List.mem_cons] at this ⊢
      rcases this with hb | heq | hb
      · exact .inl hb
      · exact .inl (heq ▸ hin)
      · exact .inr hb
  · rw [hd] at hno
    cases hno
  · rw [hp]
    rfl

theorem Inv.giveUp (h : Inv s) (hp : (s.call p).phase = .walk before (e :: todo)) (err : Errno) :
    Inv (backOff p before (.fail err) s) := by
  obtain ⟨hkept, -⟩ := h.callAt hp
  refine h.still ?_ (.inr rfl) (.inl hkept.lost) ?_
  · unfold owns
    rw [hp]
    exact (List.reverse_perm (bos before)).append_right _
  · rw [hp]
    rfl

theorem Inv.dead (h : Inv s) (hp : (s.call p).phase = .walk before (e :: todo))
    (ht : (s.call p).ticket = true) :
    Inv (backOff p before (.slow before e todo)
      (setLocks (setContending p (some e.bo) s.locks) s)) := by
  obtain ⟨hkept, hready⟩ := h.callAt hp
  refine h.quiet rfl (fun q hq => Function.update_of_ne hq ..) ?_ (.inr rfl)
    ⟨⟨hkept.perm, hkept.dupsIn, hkept.noDups, hkept.lost⟩, ht, ?_⟩ ?_ ?_
  · unfold owns
    rw [hp]
    exact (List.reverse_perm (bos before)).append_right _
  · simp only [setContending, Function.update_self]
    exact ⟨hready.1, rfl⟩
  · refine h.tickets.congr rfl fun q => ?_
    by_cases hq : q = p
    · subst hq
      simp [setContending]
    · simp [setContending, Function.update_of_ne hq]
  · rw [hp]
    rfl

theorem Inv.check (h : Inv s) (hp : (s.call p).phase = .got before e todo) :
    Inv (checkEntry p env before e todo s) := by
  obtain ⟨hkept, hready⟩ := h.callAt hp
  unfold checkEntry
  split_ifs with hcpu hmem
  · refine h.still ?_ (.inr rfl) (.inl hkept.lost) (by rw [hp]; rfl)
    unfold owns
    rw [hp]
    exact ((List.reverse_perm (bos before)).cons e.bo).append_right _
  · have hin : e ∈ (s.call p).given := hkept.perm.subset (by simp)
    rw [Bool.and_eq_true] at hmem
    refine h.still ?_ (.inr rfl) (.inr ⟨e, hin, hmem.1, rfl, rfl⟩) (by rw [hp]; rfl)
    simp only [owns, hp, inPhase, hkept.lost, List.append_nil]
    exact List.perm_append_comm.trans ((List.reverse_perm (bos before)).cons e.bo)
  · refine h.still ?_ (.inr rfl) ⟨⟨?_, ?_, hkept.noDups, hkept.lost⟩, hready⟩ (by rw [hp]; rfl)
    · unfold owns
      rw [hp]
      refine List.Perm.append_right _ ?_
      simp only [inPhase, bos_append, bos_cons, bos_nil]
      exact List.perm_append_singleton ..
    · simpa using hkept.perm
    · simpa using hkept.dupsIn

theorem Inv.unlocks (h : Inv s) {c : Call} {u : Sys} (hu : u.call = s.call)
    (hul : u.locks = s.locks) (ho : (owns (s.call p)).Perm (b :: owns c))
    (hticket : c.ticket = (s.call p).ticket) (hc : CallOk c (s.locks.ctx p))
    (hlru : Lru (setCall p c (unlock b u))) : Inv (setCall p c (unlock b u)) := by
  have hother : ∀ q, q ≠ p → (setCall p c (unlock b u)).call q = s.call q := by
    intro q hq
    rw [setCall_of_ne hq, ← hu]
    rfl
  refine h.of hother (fun q _ => ?_) ?_ ?_ ?_ hlru
  · simp [setCall, unlock, setLocks, wwMutexUnlock, hul]
  · refine h.own.release (b := b) ?_ hother ?_ ?_
    · simp [setCall, unlock, setLocks, wwMutexUnlock, hul]
    · rwa [setCall_self]
    · rwa [setCall_self]
  · rw [setCall_self]
    simpa [setCall, unlock, setLocks, wwMutexUnlock, hul] using hc
  · refine h.tickets.congr ?_ fun q => ?_
    · simp [setCall, unlock, setLocks, wwMutexUnlock, hul]
    · simp [setCall, unlock, setLocks, wwMutexUnlock, hul]

theorem Inv.dropNext (h : Inv s) {left : List ℕ} {next : After}
    (hp : (s.call p).phase = .drop (b :: left) next) :
    Inv (setPhase p (.drop left next) (unlock b s)) := by
  have hafter : AfterOk (s.call p) (s.locks.ctx p) next := h.callAt hp
  refine h.unlocks (u := s) rfl rfl ?_ rfl ?_
    (h.lru.same rfl rfl rfl (detached_setCall rfl (by rw [hp]; rfl)))
  · simp [owns, unlock, setLocks, hp, inPhase]
  · cases next with
    | slow before e todo =>
      obtain ⟨hkept, hticket, hready⟩ := hafter
      exact ⟨⟨hkept.perm, hkept.dupsIn, hkept.noDups, hkept.lost⟩, hticket, hready⟩
    | fail err => exact hafter

theorem Inv.lockedSlow (h : Inv s) (hp : (s.call p).phase = .slow before e todo)
    (hfree : (s.locks.lock e.bo).held = false) :
    Inv (lockedSlow p env before e todo (setLocks (takeLock e.bo (some p) s.locks) s)) := by
  obtain ⟨hkept, hticket, hready⟩ := h.callAt hp
  have hctx : ctxOf (s.call p) p = some p := if_pos hticket
  have hready' := Ready.take (.inr ⟨hticket, hready⟩)
  rw [← hctx]
  unfold Vmwgfx.BufferReservations.lockedSlow
  split_ifs with hmem
  · rw [Bool.and_eq_true] at hmem
    have hin : e ∈ (s.call p).given := hkept.perm.subset (by simp)
    exact h.takes hfree (by simp [owns, hp, inPhase, hkept.lost]) rfl
      (.inr ⟨e, hin, hmem.1, rfl, rfl⟩) (by rw [hp]; rfl)
  · refine h.takes hfree ?_ rfl ⟨⟨?_, ?_, hkept.noDups, hkept.lost⟩, hready'⟩ (by rw [hp]; rfl)
    · simp [owns, setLocks, hp, inPhase]
    · refine List.Perm.trans ?_ hkept.perm
      refine List.Perm.append_right _ ?_
      change (e :: (before ++ todo)).Perm _
      exact List.perm_middle.symm
    · intro d hd
      have := hkept.dupsIn d hd
      simp only [bos_append, bos_cons, bos_nil, List.mem_append, List.mem_cons] at this ⊢
      tauto

theorem Inv.not_refused (h : Inv s) (hp : (s.call p).phase = .slow before e todo)
    (hheld : (s.locks.lock e.bo).held = true)
    (hr : (s.locks.lock e.bo).holder = some p ∨ (s.locks.ctx p).contendingLock ≠ some e.bo) :
    False := by
  obtain ⟨hkept, -, hready⟩ := h.callAt hp
  rcases hr with hown | hne
  · obtain ⟨q, hq⟩ := (h.own.held e.bo).1 hheld
    have hholder := h.own.holder q e.bo hq
    rw [hown] at hholder
    obtain ⟨-, rfl⟩ := ctxOf_some hholder.symm
    simp [owns, hp, inPhase, hkept.lost] at hq
  · exact hne hready.2

theorem Inv.listDone (h : Inv s) {list : List Entry} (hp : (s.call p).phase = .walk list []) :
    Inv (setPhase p (.reserved list) (delFromLru (bos list) s)) := by
  obtain ⟨hkept, -⟩ := h.callAt hp
  rw [List.append_nil] at hkept
  have hother : ∀ q, q ≠ p →
      (setPhase p (.reserved list) (delFromLru (bos list) s)).call q = s.call q :=
    fun q hq => setCall_of_ne hq ..
  refine h.of hother (fun q _ => rfl) (h.own.same rfl hother ?_ (.inr ?_)) ?_ h.tickets
    (h.lru.detach (p := p) (bos list) rfl rfl rfl hother (by rw [hp]; rfl) ?_)
  · rw [setPhase, setCall_self]
    unfold owns
    rw [hp]
    rfl
  · rw [setPhase, setCall_self]
    rfl
  · rw [setPhase, setCall_self]
    exact ⟨hkept.perm, hkept.dupsIn, hkept.noDups, hkept.lost⟩
  · rw [setPhase, setCall_self]
    rfl

theorem Inv.givesBack (h : Inv s) {c : Call} (ho : (owns (s.call p)).Perm (b :: owns c))
    (hticket : c.ticket = (s.call p).ticket) (hc : CallOk c (s.locks.ctx p))
    (hd : ∀ a, a ∈ detached (s.call p).phase ↔ a = b ∨ a ∈ detached c.phase) :
    Inv (setCall p c (unlock b (addToLru b s))) := by
  have hother : ∀ q, q ≠ p → (setCall p c (unlock b (addToLru b s))).call q = s.call q := by
    intro q hq
    rw [setCall_of_ne hq]
    simp [unlock, setLocks]
  refine h.unlocks (addToLru_call b s) (addToLru_locks b s) ho hticket hc
    (h.lru.attach (p := p) rfl ?_ rfl hother ?_ fun q hb => ?_)
  · simp only [setCall, unlock, setLocks, addToLru]
    split_ifs <;> rfl
  · rw [setCall_self]
    exact hd
  · -- no call has the buffer any more
    by_cases hq : q = p
    · subst hq
      rw [setCall_self] at hb
      exact (List.nodup_cons.1 (ho.nodup_iff.1 (h.own.nodup q))).1 (detached_owned c b hb)
    · rw [hother q hq] at hb
      exact hq (h.own.apart q p b (detached_owned _ b hb) (ho.mem_iff.2 List.mem_cons_self))

theorem Inv.unreserveNext (h : Inv s) {left : List Entry}
    (hp : (s.call p).phase = .release (e :: left)) :
    Inv (setPhase p (.release left) (unlock e.bo (addToLru e.bo s))) := by
  have hlost : (s.call p).lost = [] := h.callAt hp
  have hcall : (unlock e.bo (addToLru e.bo s)).call p = s.call p := by
    simp [unlock, setLocks]
  rw [setPhase, hcall]
  refine h.givesBack ?_ rfl hlost fun a => ?_
  · simp [owns, hp, inPhase]
  · rw [hp]
    simp [detached]

theorem Inv.boUnreserve (h : Inv s) (hp : (s.call p).phase = .single b) :
    Inv (finish p none (unlock b (addToLru b s))) := by
  obtain ⟨hlost, -⟩ := h.callAt hp
  have hcall : (unlock b (addToLru b s)).call p = s.call p := by
    simp [unlock, setLocks]
  rw [finish, hcall]
  refine h.givesBack ?_ rfl (.inl hlost) fun a => ?_
  · simp [owns, hp, inPhase, hlost]
  · rw [hp]
    simp [detached]

theorem Inv.boLocked (h : Inv s) {noWait : Bool} (hp : (s.call p).phase = .alone b noWait)
    (hfree : (s.locks.lock b).held = false) :
    Inv (setPhase p (.single b) (delFromLru [b] (setLocks (takeLock b none s.locks) s))) := by
  obtain ⟨hlost, hticket⟩ := h.callAt hp
  have hctx : ctxOf (s.call p) p = none := if_neg (by simp [hticket])
  have hother : ∀ q, q ≠ p →
      (setPhase p (.single b)
        (delFromLru [b] (setLocks (takeLock b none s.locks) s))).call q = s.call q :=
    fun q hq => setCall_of_ne hq ..
  obtain ⟨hseq, hsame, hfar, -⟩ := takeLock_ctx b none s.locks
  refine h.of hother (fun q _ => hfar q (by simp)) (h.own.take (p := p) hfree ?_ hother ?_ ?_) ?_
    (h.tickets.congr hseq hsame)
    (h.lru.detach (p := p) [b] rfl rfl rfl hother (by rw [hp]; rfl) ?_)
  · rw [hctx]
    exact takeLock_lock ..
  · rw [setPhase, setCall_self]
    simp [owns, delFromLru, setLocks, hp, inPhase, hlost]
  · rw [setPhase, setCall_self]
    rfl
  · rw [setPhase, setCall_self]
    exact ⟨hlost, hticket⟩
  · rw [setPhase, setCall_self]
    rfl

theorem Inv.place (h : Inv s) {noEvict : Bool} (hb : b ∈ detached (s.call p).phase) :
    Inv { s with noEvict := Function.update s.noEvict b noEvict } := by
  refine ⟨⟨h.own.held, h.own.apart, h.own.nodup, h.own.holder⟩, h.calls, h.tickets,
    ⟨fun a => ?_, h.lru.bug⟩⟩
  by_cases ha : a = b
  · subst ha
    constructor
    · intro hon
      exact absurd hb (((h.lru.onLru a).1 hon).2 p)
    · rintro ⟨-, hnone⟩
      exact absurd hb (hnone p)
  · simp only [Function.update_of_ne ha]
    exact h.lru.onLru a

theorem step_inv {a : ℕ × Act} (h : Inv s) (hs : step s a = some t) : Inv t := by
  obtain ⟨p, a⟩ := a
  cases step_cases hs with
  | reserveBuffers list ticket intr wantsDups hp => exact h.reserveBuffers hp ..
  | locked env before e todo hp hfree => exact h.locked hp hfree
  | again env before e todo hp ht hheld hown hd => exact h.again hp hheld hown hd
  | giveUp env before e todo err hp => exact h.giveUp hp err
  | dead env before e todo q hp ht => exact h.dead hp ht
  | check env before e todo hp => exact h.check hp
  | dropNext b left next hp => exact h.dropNext hp
  | toSlow before e todo hp =>
    obtain ⟨hkept, hticket, hready⟩ := h.callAt hp
    exact h.still (by simp [owns, hp, inPhase]) (.inr rfl)
      ⟨⟨hkept.perm, hkept.dupsIn, hkept.noDups, hkept.lost⟩, hticket, hready⟩ (by rw [hp]; rfl)
  | failed err hp =>
    exact h.still (by simp [owns, hp, inPhase]) (.inr rfl) (h.callAt hp) (by rw [hp]; rfl)
  | interrupted env before e todo hp =>
    obtain ⟨hkept, -⟩ := h.callAt hp
    exact h.still (by simp [owns, hp, inPhase]) (.inr rfl) (.inl hkept.lost) (by rw [hp]; rfl)
  | lockedSlow env before e todo hp hfree => exact h.lockedSlow hp hfree
  | refused env before e todo t hp hheld hr => exact (h.not_refused hp hheld hr).elim
  | listDone list hp => exact h.listDone hp
  | unreserve list hp =>
    have hkept : Kept (s.call p) list := h.callAt hp
    exact h.still (by simp [owns, hp, inPhase]) (.inr rfl) hkept.lost (by rw [hp]; rfl)
  | unreserveNext e left hp => exact h.unreserveNext hp
  | unreserved hp =>
    exact h.still (by simp [owns, hp, inPhase]) (.inr rfl) (.inl (h.callAt hp)) (by rw [hp]; rfl)
  | boReserve b noWait intr hp =>
    obtain ⟨hlost, -⟩ := h.callAt hp
    exact h.still (by simp [owns, hp, inPhase, noCall, hlost]) (.inl rfl) ⟨rfl, rfl⟩
      (by rw [hp]; rfl)
  | boRefused env b noWait err hp =>
    obtain ⟨hlost, -⟩ := h.callAt hp
    exact h.still (by simp [owns, hp, inPhase]) (.inr rfl) (.inl hlost) (by rw [hp]; rfl)
  | boLocked env b noWait hp hfree => exact h.boLocked hp hfree
  | boUnreserve b hp => exact h.boUnreserve hp
  | place b noEvict hb => exact h.place hb

theorem runs_inv {noEvict : ℕ → Bool} {as : List (ℕ × Act)}
    (h : Runs step anyLabel (start noEvict) as s) : Inv s :=
  h.invariant Inv (start_inv noEvict) fun _ _ _ hi _ hs => step_inv hi hs

/-- A locked buffer belongs to one call. A call that succeeds has locked the buffers of its list,
    each once, and one that fails has none, unless its shared slot could not be allocated. -/
theorem runs_outcome {noEvict : ℕ → Bool} {as : List (ℕ × Act)}
    (h : Runs step anyLabel (start noEvict) as s) :
    (∀ b, (s.locks.lock b).held = true ↔ ∃! p, b ∈ owns (s.call p)) ∧
    (∀ p list, (s.call p).phase = .reserved list →
      (∀ b ∈ bos list, s.locks.lock b = ⟨true, ctxOf (s.call p) p⟩) ∧ (bos list).Nodup ∧
      (list ++ (s.call p).dups).Perm (s.call p).given ∧
      ∀ d ∈ (s.call p).dups, d.bo ∈ bos list) ∧
    ∀ p, (s.call p).phase = .finished → owns (s.call p) = [] ∨
      ∃ e ∈ (s.call p).given, e.shared = true ∧ owns (s.call p) = [e.bo] ∧
        (s.call p).ret = some .enomem := by
  have hinv := runs_inv h
  refine ⟨fun b => ?_, fun p list hp => ?_, fun p hp => ?_⟩
  · rw [hinv.own.held b]
    constructor
    · rintro ⟨p, hb⟩
      exact ⟨p, hb, fun q hq => hinv.own.apart q p b hq hb⟩
    · rintro ⟨p, hb, -⟩
      exact ⟨p, hb⟩
  · have hkept : Kept (s.call p) list := hinv.callAt hp
    have howns : owns (s.call p) = bos list := by simp [owns, hp, inPhase, hkept.lost]
    refine ⟨fun b hb => ?_, howns ▸ hinv.own.nodup p, hkept.perm, hkept.dupsIn⟩
    rw [← howns] at hb
    have hheld := (hinv.own.held b).2 ⟨p, hb⟩
    have hholder := hinv.own.holder p b hb
    cases hlock : s.locks.lock b with
    | mk held holder =>
      rw [hlock] at hheld hholder
      rw [← hheld, ← hholder]
  · have howns : owns (s.call p) = (s.call p).lost := by simp [owns, hp, inPhase]
    rw [howns]
    exact hinv.callAt hp

theorem warnOn_ready {contending : Option ℕ} (h : Ready (s.call p) (s.locks.ctx p) contending)
    (hc : ∀ a, contending = some a → a = b) : warnOn b (some p) s.locks = false := by
  rw [warnOn, Option.any_some, h.2]
  cases contending with
  | none => rfl
  | some a => simp [hc a rfl]

/-- Neither the `BUG_ON` of the LRU lists nor the `WARN_ON` of the locks is ever met, and a buffer
    that may be evicted is on the lists while no call has it reserved. -/
theorem runs_no_bug {noEvict : ℕ → Bool} {as : List (ℕ × Act)}
    (h : Runs step anyLabel (start noEvict) as s) :
    s.bug = false ∧
    (∀ b, s.noEvict b = false → (∀ p, b ∉ owns (s.call p)) → s.onLru b = true) ∧
    (∀ p before e todo, (s.call p).phase = .walk before (e :: todo) →
      warnOn e.bo (ctxOf (s.call p) p) s.locks = false) ∧
    ∀ p before e todo, (s.call p).phase = .slow before e todo →
      warnOn e.bo (some p) s.locks = false := by
  have hinv := runs_inv h
  refine ⟨hinv.lru.bug, fun b hb hnone => (hinv.lru.onLru b).2 ⟨hb, fun p hp => ?_⟩,
    fun p before e todo hp => ?_, fun p before e todo hp => ?_⟩
  · exact hnone p (detached_owned _ b hp)
  · obtain ⟨-, hready⟩ := hinv.callAt hp
    unfold ctxOf
    split_ifs
    · exact warnOn_ready hready fun a ha => absurd ha (by simp)
    · rfl
  · obtain ⟨-, -, hready⟩ := hinv.callAt hp
    exact warnOn_ready hready fun a ha => (Option.some.inj ha).symm

/-- Two calls that want the same two buffers in opposite orders: the second one has backed off
    and waits for the buffer that the first one holds. -/
def crossing : List (ℕ × Act) :=
  [(1, .reserveBuffers [⟨0, false⟩, ⟨1, false⟩] true false false),
   (2, .reserveBuffers [⟨1, false⟩, ⟨0, false⟩] true false false),
   (1, .lockNext ⟨false, false, false⟩), (1, .check ⟨false, false, false⟩),
   (2, .lockNext ⟨false, false, false⟩), (2, .check ⟨false, false, false⟩),
   (2, .lockNext ⟨false, false, false⟩), (2, .dropNext), (2, .dropped)]

def crossed : Sys := (exec step (start fun _ => false) crossing).getD (start fun _ => false)

def uncrossed : Sys :=
  (exec step (start fun _ => false) (crossing ++
    [(1, .lockNext ⟨false, false, false⟩), (1, .check ⟨false, false, false⟩),
      (1, .listDone)])).getD (start fun _ => false)

theorem uncrossed_outcome : uncrossed.locks.lock 0 = ⟨true, some 1⟩ ∧
    uncrossed.locks.lock 1 = ⟨true, some 1⟩ := by
  have h := (runs_outcome (s := uncrossed) (runs_getD (by decide))).2.1 1
    [⟨0, false⟩, ⟨1, false⟩] rfl
  exact ⟨h.1 0 (by decide), h.1 1 (by decide)⟩

theorem crossed_no_bug : crossed.bug = false ∧ warnOn 0 (some 2) crossed.locks = false := by
  have h := runs_no_bug (s := crossed) (runs_getD (by decide))
  exact ⟨h.1, h.2.2.2 2 [⟨1, false⟩] ⟨0, false⟩ [] rfl⟩

end Vmwgfx.BufferReservations
