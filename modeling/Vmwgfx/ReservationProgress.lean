import Vmwgfx.ReservationRuns
import Vmwgfx.WaitOrder

set_option autoImplicit false

/-!
# Calls that reserve buffers come to an end

A call that waits has a chain of waiting calls before it, at whose end a call goes on, or an
error has left a buffer reserved. The steps that calls take of their own end, whatever the order,
since a call backs off only for a call with a smaller ticket.
-/
namespace Vmwgfx.BufferReservations
open LabelledRuns WaitOrder Relation

variable {s t : Sys} {p q b : ℕ} {env : Env} {before todo : List Entry} {e : Entry} {a : Act}

/-- The step that a call has before it. What it has reserved it gives back. -/
def ownAct (env : Env) : Phase → Option Act
  | .walk _ (_ :: _) => some (.lockNext env)
  | .walk _ [] => some .listDone
  | .got .. => some (.check env)
  | .drop (_ :: _) _ => some .dropNext
  | .drop [] _ => some .dropped
  | .slow .. => some (.slowLock env)
  | .reserved _ => some .unreserve
  | .release (_ :: _) => some .unreserveNext
  | .release [] => some .unreserved
  | .alone .. => some (.boLock env)
  | .single _ => some .boUnreserve
  | .idle | .finished => none

def quiet : Env := ⟨false, false, false⟩

def OwnStep (s : Sys) (p : ℕ) (t : Sys) : Prop :=
  ∃ env a, ownAct env (s.call p).phase = some a ∧ step s (p, a) = some t

def Blocked (s : Sys) (p : ℕ) : Prop :=
  ∃ a, ownAct quiet (s.call p).phase = some a ∧ step s (p, a) = none

def wanted : Phase → Option ℕ
  | .walk _ (e :: _) => some e.bo
  | .slow _ e _ => some e.bo
  | .alone b _ => some b
  | _ => none

def WaitsFor (s : Sys) (p q : ℕ) : Prop :=
  Blocked s p ∧ ∃ b ∈ wanted (s.call p).phase, b ∈ owns (s.call q)

theorem wwlMutexLock_none {l : Locks} {c : Option ℕ} (h : wwlMutexLock b c l = none) :
    (l.lock b).held = true ∧ ∀ p q, c = some p → (l.lock b).holder = some q →
      q ≠ p ∧ ((l.ctx p).contendingLock = none → (l.ctx p).ticket ≤ (l.ctx q).ticket) := by
  unfold wwlMutexLock at h
  split_ifs at h with hheld
  rw [Bool.not_eq_false] at hheld
  refine ⟨hheld, ?_⟩
  rintro p q rfl hq
  dsimp only at h
  rw [hq] at h
  split_ifs at h with hown
  dsimp only at h
  split_ifs at h with hc
  refine ⟨?_, fun hnone => ?_⟩
  · rintro rfl
    exact hown rfl
  · rw [hnone] at hc
    simpa using hc

/-- A call that waits is at a lock: one of its list with a ticket, the contended one, or the
    only one. -/
theorem blocked_cases (h : Blocked s p) :
    (∃ before e todo, (s.call p).phase = .walk before (e :: todo) ∧ (s.call p).ticket = true ∧
      wwlMutexLock e.bo (some p) s.locks = none) ∨
    (∃ before e todo, (s.call p).phase = .slow before e todo ∧
      wwlMutexLock e.bo (some p) s.locks = none) ∨
    (∃ b noWait, (s.call p).phase = .alone b noWait ∧ wwlMutexLock b none s.locks = none) := by
  obtain ⟨a, ha, hs⟩ := h
  cases hp : (s.call p).phase with
  | walk before todo =>
    rw [hp] at ha
    cases todo with
    | nil =>
      cases ha
      simp [step, hp] at hs
    | cons e todo =>
      cases ha
      simp only [step, hp, lockEntry] at hs
      split at hs
      · next hr =>
        split_ifs at hs with ht
        rw [Bool.not_eq_false] at ht
        rw [ctxOf, if_pos ht] at hr
        exact .inl ⟨before, e, todo, rfl, ht, hr⟩
      · cases hs
      · split_ifs at hs
      · cases hs
  | slow before e todo =>
    rw [hp] at ha
    cases ha
    simp only [step, hp, lockSlow] at hs
    split at hs
    · next hr => exact .inr (.inl ⟨before, e, todo, rfl, hr⟩)
    · split_ifs at hs
  | alone b noWait =>
    rw [hp] at ha
    cases ha
    simp only [step, hp, lockAlone] at hs
    split at hs
    · next hr => exact .inr (.inr ⟨b, noWait, rfl, hr⟩)
    · cases hs
  | drop left next =>
    rw [hp] at ha
    cases left with
    | nil =>
      cases next <;> cases ha <;> simp [step, hp] at hs
    | cons b left =>
      cases ha
      simp [step, hp] at hs
  | release left =>
    rw [hp] at ha
    cases left <;> cases ha <;> simp [step, hp] at hs
  | _ =>
    rw [hp] at ha
    cases ha <;> simp [step, hp] at hs

theorem blocked_waits (h : Inv s) (hp : Blocked s p) : ∃ q, WaitsFor s p q := by
  rcases blocked_cases hp with ⟨before, e, todo, hphase, -, hr⟩ | ⟨before, e, todo, hphase, hr⟩ |
    ⟨b, noWait, hphase, hr⟩
  all_goals
    obtain ⟨q, hq⟩ := (h.own.held _).1 (wwlMutexLock_none hr).1
    refine ⟨q, hp, _, ?_, hq⟩
    rw [hphase]
    rfl

def waitRank (s : Sys) (p : ℕ) : ℕ :=
  match (s.call p).phase with
  | .walk _ _ => if (s.call p).ticket then (s.locks.ctx p).ticket else 0
  | _ => 0

theorem waitRank_le (h : Inv s) (p : ℕ) : waitRank s p ≤ s.locks.seqno := by
  unfold waitRank
  split
  · split_ifs
    · exact h.tickets.le p
    · exact Nat.zero_le _
  · exact Nat.zero_le _

theorem blocked_owner (h : Inv s) (hq : Blocked s q) (hb : b ∈ owns (s.call q)) :
    (s.call q).ticket = true ∧ waitRank s q = (s.locks.ctx q).ticket ∧
    0 < (s.locks.ctx q).ticket := by
  rcases blocked_cases hq with ⟨before, e, todo, hphase, ht, -⟩ | ⟨before, e, todo, hphase, -⟩ |
    ⟨a, noWait, hphase, -⟩
  · obtain ⟨-, hready⟩ := h.callAt hphase
    exact ⟨ht, by simp [waitRank, hphase, ht], hready.1 ht⟩
  · obtain ⟨hkept, -⟩ := h.callAt hphase
    simp [owns, hphase, inPhase, hkept.lost] at hb
  · obtain ⟨hlost, -⟩ := h.callAt hphase
    simp [owns, hphase, inPhase, hlost] at hb

theorem waits_rank (h : Inv s) (hw : WaitsFor s p q) (hq : Blocked s q) :
    waitRank s p < waitRank s q := by
  obtain ⟨hp, b, hb, hown⟩ := hw
  obtain ⟨htq, hrank, hpos⟩ := blocked_owner h hq hown
  rw [hrank]
  rcases blocked_cases hp with ⟨before, e, todo, hphase, ht, hr⟩ | ⟨before, e, todo, hphase, -⟩ |
    ⟨a, noWait, hphase, -⟩
  · rw [hphase] at hb
    cases hb
    obtain ⟨-, hready⟩ := h.callAt hphase
    have hholder := h.own.holder q e.bo hown
    rw [ctxOf, if_pos htq] at hholder
    obtain ⟨hne, hle⟩ := (wwlMutexLock_none hr).2 p q rfl hholder
    have hlt : (s.locks.ctx p).ticket ≠ (s.locks.ctx q).ticket :=
      fun heq => hne (h.tickets.unique p q (hready.1 ht) heq).symm
    have hwalk : waitRank s p = (s.locks.ctx p).ticket := by simp [waitRank, hphase, ht]
    rw [hwalk]
    exact lt_of_le_of_ne (hle hready.2) hlt
  · simpa [waitRank, hphase] using hpos
  · simpa [waitRank, hphase] using hpos

theorem goes_on (hb : ¬ Blocked s q) (hq : (s.call q).phase ≠ .idle)
    (ho : (s.call q).phase ≠ .finished) :
    ∃ t, OwnStep s q t := by
  have ha : ∃ a, ownAct quiet (s.call q).phase = some a := by
    cases hp : (s.call q).phase with
    | idle => exact absurd hp hq
    | finished => exact absurd hp ho
    | walk before todo => cases todo <;> exact ⟨_, rfl⟩
    | drop left next => cases left <;> exact ⟨_, rfl⟩
    | release left => cases left <;> exact ⟨_, rfl⟩
    | _ => exact ⟨_, rfl⟩
  obtain ⟨a, ha⟩ := ha
  obtain ⟨t, ht⟩ := Option.ne_none_iff_exists'.1 fun hnone => hb ⟨a, ha, hnone⟩
  exact ⟨t, quiet, a, ha, ht⟩

/-- A call with a ticket has reserved the buffer and will not give it up for `p`. -/
def Older (s : Sys) (p b : ℕ) : Prop :=
  ∃ q, (s.call q).ticket = true ∧ (s.locks.ctx q).ticket < (s.locks.ctx p).ticket ∧
    b ∈ owns (s.call q)

section Effort
open Classical in
/-- A bound on the steps that a call can take while the calls with smaller tickets take none. -/
noncomputable def effort (older : ℕ → Prop) : Phase → ℕ
  | .idle | .finished => 0
  | .release left => left.length + 1
  | .reserved list => list.length + 2
  | .single _ => 1
  | .alone _ _ => 2
  | .walk before todo => before.length + 4 * todo.length + 4
  | .got before _ todo => before.length + 4 * todo.length + 7
  | .drop left (.fail _) => left.length + 1
  | .drop left (.slow before e todo) =>
    left.length + 1 + if older e.bo then 1 else 4 * (before.length + todo.length) + 6
  | .slow before e todo => if older e.bo then 1 else 4 * (before.length + todo.length) + 6

/-- A step of a call leaves the other calls and every ticket alone. -/
structure Fixes (p : ℕ) (s t : Sys) : Prop where
  other : ∀ q, q ≠ p → t.call q = s.call q
  own : (t.call p).ticket = (s.call p).ticket
  seqno : t.locks.seqno = s.locks.seqno
  ticket : ∀ q, (t.locks.ctx q).ticket = (s.locks.ctx q).ticket

variable {u : Sys} {l : Locks} {x : Phase} {c : Call}

theorem Fixes.trans (h : Fixes p s t) (h' : Fixes p t u) : Fixes p s u :=
  ⟨fun q hq => (h'.other q hq).trans (h.other q hq), h'.own.trans h.own,
    h'.seqno.trans h.seqno, fun q => (h'.ticket q).trans (h.ticket q)⟩

theorem Fixes.setCall (h : c.ticket = (s.call p).ticket) : Fixes p s (setCall p c s) :=
  ⟨fun _ hq => setCall_of_ne hq c s, by rw [setCall_self, h], rfl, fun _ => rfl⟩

theorem Fixes.setPhase : Fixes p s (setPhase p x s) := .setCall rfl

theorem Fixes.finish {err : Option ExecbufState.Errno} : Fixes p s (finish p err s) := .setCall rfl

theorem Fixes.takeLock {b : ℕ} {c : Option ℕ} : Fixes p s (setLocks (takeLock b c s.locks) s) := by
  obtain ⟨hseq, hticket, -⟩ := takeLock_ctx b c s.locks
  exact ⟨fun _ _ => rfl, rfl, hseq, hticket⟩

theorem Fixes.contend {b : ℕ} : Fixes p s (setLocks (setContending p (some b) s.locks) s) := by
  refine ⟨fun _ _ => rfl, rfl, rfl, fun q => ?_⟩
  by_cases hq : q = p
  · subst hq
    simp [setLocks, setContending]
  · simp [setLocks, setContending, hq]

theorem Fixes.unlock {b : ℕ} : Fixes p s (unlock b s) :=
  ⟨fun _ _ => rfl, rfl, rfl, fun _ => rfl⟩

theorem Fixes.unreserve {b : ℕ} : Fixes p s (BufferReservations.unlock b (addToLru b s)) := by
  refine ⟨fun q _ => ?_, ?_, ?_, fun q => ?_⟩ <;>
    simp [BufferReservations.unlock, setLocks, wwMutexUnlock]

theorem Fixes.delFromLru {bs : List ℕ} : Fixes p s (delFromLru bs s) :=
  ⟨fun _ _ => rfl, rfl, rfl, fun _ => rfl⟩

theorem Older.congr (h : Fixes p s t) (hq : ¬ ((s.call p).ticket = true ∧
    (s.locks.ctx p).ticket < (s.locks.ctx q).ticket)) : Older t q = Older s q := by
  funext b
  refine propext ⟨?_, ?_⟩
  · rintro ⟨r, hr, hlt, hb⟩
    rw [h.ticket, h.ticket] at hlt
    by_cases hrp : r = p
    · subst hrp
      exact absurd ⟨h.own ▸ hr, hlt⟩ hq
    · rw [h.other r hrp] at hr hb
      exact ⟨r, hr, hlt, hb⟩
  · rintro ⟨r, hr, hlt, hb⟩
    by_cases hrp : r = p
    · subst hrp
      exact absurd ⟨hr, hlt⟩ hq
    · rw [← h.other r hrp] at hr hb
      rw [← h.ticket, ← h.ticket] at hlt
      exact ⟨r, hr, hlt, hb⟩

theorem Own.not_older (h : Own s) (hfree : (s.locks.lock b).held = false) : ¬ Older s p b := by
  rintro ⟨q, -, -, hq⟩
  exact h.free_iff.1 hfree q hq

theorem Own.older (h : Own s) (hheld : (s.locks.lock b).held = true)
    (hq : (s.locks.lock b).holder = some q)
    (hlt : (s.locks.ctx q).ticket < (s.locks.ctx p).ticket) : Older s p b := by
  obtain ⟨r, hr⟩ := (h.held b).1 hheld
  have hholder := h.holder r b hr
  rw [hq] at hholder
  obtain ⟨hticket, rfl⟩ := ctxOf_some hholder.symm
  exact ⟨q, hticket, hlt, hr⟩

theorem checkEntry_goes (older : ℕ → Prop) (s : Sys) (env : Env) (before : List Entry) (e : Entry)
    (todo : List Entry) :
    Fixes p s (checkEntry p env before e todo s) ∧
    effort older ((checkEntry p env before e todo s).call p).phase <
      effort older (.got before e todo) := by
  unfold checkEntry
  split_ifs
  · refine ⟨.setPhase, ?_⟩
    simp only [setPhase, setCall_self, effort, bos, List.length_cons, List.length_reverse,
      List.length_map]
    omega
  · refine ⟨.setCall rfl, ?_⟩
    simp only [setCall_self, effort, bos, List.length_reverse, List.length_map]
    omega
  · refine ⟨.setPhase, ?_⟩
    simp only [setPhase, setCall_self, effort, List.length_append, List.length_singleton]
    omega

theorem lockedSlow_goes {older : ℕ → Prop} (s : Sys) (env : Env) (before todo : List Entry)
    (ho : ¬ older e.bo) :
    Fixes p s (lockedSlow p env before e todo s) ∧
    effort older ((lockedSlow p env before e todo s).call p).phase <
      effort older (.slow before e todo) := by
  unfold lockedSlow
  split_ifs
  · refine ⟨.setCall rfl, ?_⟩
    simp only [setCall_self, effort, if_neg ho]
    omega
  · refine ⟨.setPhase, ?_⟩
    simp only [setPhase, setCall_self, effort, if_neg ho, List.length_append,
      List.length_singleton]
    omega

theorem ownAct_ne_place (env : Env) (x : Phase) (b : ℕ) (noEvict : Bool) :
    ownAct env x ≠ some (.place b noEvict) := by
  cases x with
  | walk before todo => cases todo <;> simp [ownAct]
  | drop left next => cases left <;> simp [ownAct]
  | release left => cases left <;> simp [ownAct]
  | _ => simp [ownAct]

theorem stepped_goes (h : Inv s) (ha : ownAct env (s.call p).phase = some a)
    (hs : Stepped s p a t) : Fixes p s t ∧
      effort (Older s p) (t.call p).phase < effort (Older s p) (s.call p).phase := by
  cases hs with
  | reserveBuffers list ticket intr wantsDups hp | boReserve b noWait intr hp =>
    rw [hp] at ha
    cases ha
  | place b noEvict hb =>
    exact absurd ha (ownAct_ne_place _ _ _ _)
  | locked env before e todo hp hfree =>
    refine ⟨.trans .takeLock .setPhase, ?_⟩
    rw [hp]
    simp only [setPhase, setCall_self, effort, List.length_cons]
    omega
  | again env before e todo hp ht hheld hown hd =>
    refine ⟨.setCall rfl, ?_⟩
    rw [hp]
    simp only [setCall_self, effort, List.length_cons]
    omega
  | giveUp env before e todo err hp =>
    refine ⟨.setPhase, ?_⟩
    rw [hp]
    simp only [backOff, setPhase, setCall_self, effort, bos, List.length_reverse,
      List.length_map, List.length_cons]
    omega
  | dead env before e todo q hp ht hheld hq hlt =>
    have hold := h.own.older hheld hq hlt
    refine ⟨.trans .contend .setPhase, ?_⟩
    rw [hp]
    simp only [backOff, setPhase, setCall_self, effort, if_pos hold, bos, List.length_reverse,
      List.length_map, List.length_cons]
    omega
  | check env before e todo hp =>
    rw [hp]
    exact checkEntry_goes ..
  | dropNext b left next hp =>
    refine ⟨.trans .unlock .setPhase, ?_⟩
    rw [hp]
    cases next <;> simp [setPhase, effort]
  | toSlow before e todo hp | unreserve list hp =>
    refine ⟨.setPhase, ?_⟩
    rw [hp]
    simp [setPhase, effort]
  | failed err hp | unreserved hp | boRefused env b noWait err hp =>
    refine ⟨.finish, ?_⟩
    rw [hp]
    simp [finish, effort]
  | interrupted env before e todo hp =>
    refine ⟨.finish, ?_⟩
    rw [hp]
    simp only [finish, setCall_self, effort]
    split_ifs <;> omega
  | lockedSlow env before e todo hp hfree =>
    obtain ⟨hfix, hlt⟩ := lockedSlow_goes (p := p) (setLocks (takeLock e.bo (some p) s.locks) s)
      env before todo (h.own.not_older (p := p) hfree)
    rw [hp]
    exact ⟨.trans .takeLock hfix, hlt⟩
  | refused env before e todo t hp hheld hr => exact (h.not_refused hp hheld hr).elim
  | listDone list hp =>
    refine ⟨.trans .delFromLru .setPhase, ?_⟩
    rw [hp]
    simp [setPhase, effort]
  | unreserveNext e left hp =>
    refine ⟨.trans .unreserve .setPhase, ?_⟩
    rw [hp]
    simp [setPhase, effort]
  | boLocked env b noWait hp hfree =>
    refine ⟨.trans .takeLock (.trans .delFromLru .setPhase), ?_⟩
    rw [hp]
    simp [setPhase, effort]
  | boUnreserve b hp =>
    refine ⟨.trans .unreserve .finish, ?_⟩
    rw [hp]
    simp [finish, effort]

def rank (s : Sys) (p : ℕ) : ℕ :=
  if (s.call p).ticket then (s.locks.ctx p).ticket else s.locks.seqno + 1

/-- A call begun after the state `s` takes no part. -/
structure Since (s t : Sys) : Prop where
  inv : Inv t
  own : ∀ q, (t.call q).ticket = (s.call q).ticket
  seqno : t.locks.seqno = s.locks.seqno
  ticket : ∀ q, (t.locks.ctx q).ticket = (s.locks.ctx q).ticket
  idle : ∀ q, (s.call q).phase = .idle → (t.call q).phase = .idle

theorem OwnStep.busy (hs : OwnStep s p t) : (s.call p).phase ≠ .idle := by
  obtain ⟨env, a, ha, -⟩ := hs
  intro hp
  rw [hp] at ha
  cases ha

theorem Since.step (h : Since s t) (hs : OwnStep t p u) : Since s u := by
  have hbusy := hs.busy
  obtain ⟨env, a, ha, hs⟩ := hs
  obtain ⟨hfix, -⟩ := stepped_goes h.inv ha (step_cases hs)
  refine ⟨step_inv h.inv hs, fun q => ?_, hfix.seqno.trans h.seqno,
    fun q => (hfix.ticket q).trans (h.ticket q), fun q hq => ?_⟩
  · by_cases hqp : q = p
    · subst hqp
      exact hfix.own.trans (h.own q)
    · rw [hfix.other q hqp, h.own]
  · by_cases hqp : q = p
    · subst hqp
      exact absurd (h.idle q hq) hbusy
    · rw [hfix.other q hqp]
      exact h.idle q hq

theorem Since.rank (h : Since s t) (p : ℕ) : rank t p = rank s p := by
  unfold BufferReservations.rank
  rw [h.own, h.ticket, h.seqno]

theorem effort_kept (h : Inv s) (hs : OwnStep s p t) (hq : q ≠ p) (hr : rank s q ≤ rank s p) :
    effort (Older t q) (t.call q).phase = effort (Older s q) (s.call q).phase := by
  obtain ⟨env, a, ha, hs⟩ := hs
  obtain ⟨hfix, -⟩ := stepped_goes h ha (step_cases hs)
  rw [hfix.other q hq, Older.congr hfix]
  rintro ⟨hp, hlt⟩
  unfold rank at hr
  rw [if_pos hp] at hr
  have hle := h.tickets.le p
  split_ifs at hr <;> omega

theorem stepped_other (h : Inv s) (hs : Stepped s p a t) (hq : q ≠ p) : t.call q = s.call q := by
  cases hs with
  | reserveBuffers list ticket intr wantsDups hp =>
    rw [setCall_of_ne hq]
    split_ifs <;> rfl
  | check env before e todo hp => exact (checkEntry_goes (Older s p) ..).1.other q hq
  | lockedSlow env before e todo hp hfree =>
    obtain ⟨hfix, -⟩ := lockedSlow_goes (p := p) (setLocks (takeLock e.bo (some p) s.locks) s)
      env before todo (h.own.not_older (p := p) hfree)
    exact hfix.other q hq
  | refused env before e todo t hp hheld hr => exact (h.not_refused hp hheld hr).elim
  | unreserveNext e left hp => exact (Fixes.trans .unreserve .setPhase).other q hq
  | boUnreserve b hp => exact (Fixes.trans .unreserve .finish).other q hq
  | place b noEvict hb => rfl
  | _ => exact setCall_of_ne hq ..

theorem runs_busy {noEvict : ℕ → Bool} {as : List (ℕ × Act)}
    (h : Runs step anyLabel (start noEvict) as s) : {p | (s.call p).phase ≠ .idle}.Finite := by
  refine (h.invariant (fun s => Inv s ∧ {p | (s.call p).phase ≠ .idle}.Finite)
    ⟨start_inv noEvict, ?_⟩ fun s a t hs _ ht => ⟨step_inv hs.1 ht, ?_⟩).2
  · simp [start, noCall]
  · obtain ⟨p, a⟩ := a
    refine (hs.2.insert p).subset fun q hq => ?_
    by_cases hqp : q = p
    · exact .inl hqp
    · rw [Set.mem_ofPred_eq, stepped_other hs.1 (step_cases ht) hqp] at hq
      exact .inr hq

/-- Whatever their order, the steps that calls take of their own end. -/
theorem runs_steps_end {noEvict : ℕ → Bool} {as : List (ℕ × Act)}
    (h : Runs step anyLabel (start noEvict) as s) (f : ℕ → Sys) (h0 : f 0 = s) :
    ∃ k, ¬ ∃ p, OwnStep (f k) p (f (k + 1)) := by
  subst h0
  refine steps_end OwnStep (Since (f 0)) (runs_busy h).toFinset ((f 0).locks.seqno + 1)
    (rank (f 0)) (fun s p => effort (Older s p) (s.call p).phase)
    (fun s p t hs ht => hs.step ht) (fun s p t hs ht => ?_) (fun p _ => ?_)
    (fun s p t hs ht => ?_) (fun s p t hs ht q _ hq hr => ?_)
    ⟨runs_inv h, fun _ => rfl, rfl, fun _ => rfl, fun _ => id⟩
  · rw [Set.Finite.mem_toFinset]
    exact fun hp => ht.busy (hs.idle p hp)
  · have hle := (runs_inv h).tickets.le p
    unfold rank
    split_ifs <;> omega
  · obtain ⟨env, a, ha, hstep⟩ := ht
    obtain ⟨hfix, hlt⟩ := stepped_goes hs.inv ha (step_cases hstep)
    rw [Older.congr hfix fun hp => lt_irrefl _ hp.2]
    exact hlt
  · refine effort_kept hs.inv ht hq ?_
    rwa [hs.rank, hs.rank]

/-- The step that call `p` takes of its own when nothing disturbs it. -/
def ownNext (s : Sys) (p : ℕ) : Option Sys :=
  (ownAct quiet (s.call p).phase).bind fun a => step s (p, a)

/-- Call 1 goes on for as long as it can, then call 2. -/
def crossedSteps : ℕ → Sys
  | 0 => crossed
  | k + 1 => ((ownNext (crossedSteps k) 1).or (ownNext (crossedSteps k) 2)).getD (crossedSteps k)

theorem crossed_steps_end :
    OwnStep (crossedSteps 0) 1 (crossedSteps 1) ∧ OwnStep (crossedSteps 1) 1 (crossedSteps 2) ∧
      OwnStep (crossedSteps 2) 1 (crossedSteps 3) ∧
      ∃ k, ¬ ∃ p, OwnStep (crossedSteps k) p (crossedSteps (k + 1)) :=
  ⟨⟨quiet, _, rfl, rfl⟩, ⟨quiet, _, rfl, rfl⟩, ⟨quiet, _, rfl, rfl⟩,
    runs_steps_end (s := crossed) (runs_getD (by decide)) crossedSteps rfl⟩

/-- No calls wait for one another in a circle, and one that waits does so for a call that goes
    on, or for a buffer that a failed allocation has left reserved. -/
theorem runs_wait_ends {noEvict : ℕ → Bool} {as : List (ℕ × Act)}
    (h : Runs step anyLabel (start noEvict) as s) :
    (∀ p, ¬ TransGen (WaitsFor s) p p) ∧
    ∀ p, Blocked s p → ∃ q, TransGen (WaitsFor s) p q ∧
      ((∃ t, OwnStep s q t) ∨
        ∃ e ∈ (s.call q).given, e.shared = true ∧ (s.call q).lost = [e.bo] ∧
          (s.call q).ret = some .enomem) := by
  have hinv := runs_inv h
  have hrank : ∀ p q, WaitsFor s p q → Blocked s q → waitRank s p < waitRank s q :=
    fun p q hw hq => waits_rank hinv hw hq
  refine ⟨no_cycle (fun p q hw => hw.1) hrank, fun p hp => ?_⟩
  obtain ⟨q, hchain, hfree⟩ :=
    chain_end (waitRank_le hinv) (fun p hp => blocked_waits hinv hp) hrank hp
  refine ⟨q, hchain, ?_⟩
  -- the last of the chain has the buffer that the one before it waits for
  obtain ⟨r, -, hw⟩ := TransGen.tail'_iff.1 hchain
  obtain ⟨-, b, -, hb⟩ := hw
  have hcall := hinv.calls q
  by_cases hidle : (s.call q).phase = .idle
  · rw [CallOk, hidle] at hcall
    simp [owns, hidle, inPhase, hcall.1] at hb
  · by_cases hover : (s.call q).phase = .finished
    · rw [CallOk, hover] at hcall
      rcases hcall with hlost | hlost
      · simp [owns, hover, inPhase, hlost] at hb
      · exact .inr hlost
    · exact .inl (goes_on hfree hidle hover)

theorem crossed_wait_ends : ∃ q, TransGen (WaitsFor crossed) 2 q ∧
    ((∃ t, OwnStep crossed q t) ∨ ∃ e ∈ (crossed.call q).given, e.shared = true ∧
      (crossed.call q).lost = [e.bo] ∧ (crossed.call q).ret = some .enomem) :=
  (runs_wait_ends (s := crossed) (runs_getD (by decide))).2 2 ⟨.slowLock quiet, rfl, rfl⟩

end Effort

end Vmwgfx.BufferReservations
