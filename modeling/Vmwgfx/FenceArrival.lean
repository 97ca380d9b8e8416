import Vmwgfx.FenceHandshake

set_option autoImplicit false

/-!
# The signal arrives

What the calls on a fence may rely on. Once the flag is set each step of a call brings the end of
all nearer, so that in the end nobody sleeps and no callback waits.
-/
namespace Vmwgfx.FenceCallbacks
open LabelledRuns

variable {s t : Sys} {p : ℕ} {env : Env} {k : Kind}

/-- How many steps a call has to take once the fence is signaled. -/
@[simp] def effort : Phase → ℕ
  | .idle | .finished .. => 0
  | .start _ => 9
  | .flagged | .swFlagged => 8
  | .lock _ => 7
  | .enable _ => 6
  | .test .. => 5
  | .ask _ => 4
  | .link _ | .asleep _ => 3
  | .signal _ | .relock .. => 2
  | .run .. | .loop .. => 1

/-- What a step of `p` can do to the other calls, to the list and to its own phase. -/
structure Moves (p : ℕ) (s t : Sys) : Prop where
  other : ∀ q, q ≠ p → t.phase q = s.phase q
  wants : wantsRemoved (t.phase p) = none ∨ wantsRemoved (t.phase p) = wantsRemoved (s.phase p)
  removed : s.removed ⊆ t.removed
  cbList : ∀ c ∈ t.cbList, c ∈ s.cbList ∨ c = p
  signaled : s.signaled = true → t.signaled = true
  effort : s.signaled = true →
    effort (t.phase p) + t.cbList.length < effort (s.phase p) + s.cbList.length
  answer : ∀ c b, t.phase p = .finished (.removeCallback c) (.removed b) →
    (b = true → c ∈ t.removed) ∧ (b = false → c ∉ t.cbList) ∧ wantsRemoved (s.phase p) = some c

theorem Moves.setPhase (x : Phase) (ht : t.phase = Function.update s.phase p x)
    (hl : t.cbList = s.cbList ∧ t.removed = s.removed) (hs : s.signaled = true → t.signaled = true)
    (hw : wantsRemoved x = none ∨ wantsRemoved x = wantsRemoved (s.phase p))
    (he : FenceCallbacks.effort x < FenceCallbacks.effort (s.phase p))
    (ha : ∀ c b, x ≠ .finished (.removeCallback c) (.removed b)) : Moves p s t := by
  constructor
  · exact fun q hq => by rw [ht, Function.update_of_ne hq]
  · rwa [ht, Function.update_self]
  · rw [hl.2]
    exact List.Subset.refl _
  · rw [hl.1]
    exact fun c => .inl
  · exact hs
  · rw [ht, Function.update_self, hl.1]
    exact fun _ => Nat.add_lt_add_right he _
  · rw [ht, Function.update_self]
    exact fun c b hx => absurd hx (ha c b)

theorem begin_moves (hp : s.phase p = .start k) : Moves p s (begin' p s k) := by
  cases k with
  | signal =>
    unfold begin'
    dsimp only
    split_ifs
    · exact .setPhase _ rfl ⟨rfl, rfl⟩ id (by simp) (by simp [hp]) (by simp)
    · exact .setPhase _ rfl ⟨rfl, rfl⟩ (fun _ => rfl) (by simp) (by simp [hp]) (by simp)
  | removeCallback c => exact .setPhase _ rfl ⟨rfl, rfl⟩ id (by simp [hp]) (by simp [hp]) (by simp)
  | signalLocked => exact .setPhase _ rfl ⟨rfl, rfl⟩ id (by simp) (by simp [hp]) (by simp)
  | _ =>
    unfold begin'
    dsimp only
    split_ifs <;> exact .setPhase _ rfl ⟨rfl, rfl⟩ id (by simp) (by simp [hp]) (by simp)

theorem locked_moves (hp : s.phase p = .lock k) :
    Moves p s (locked p env s k) := by
  cases k with
  | removeCallback c =>
    unfold locked
    dsimp only
    split_ifs with hc
    · constructor
      · exact fun q hq => Function.update_of_ne hq _ _
      · simp [setPhase]
      · exact List.subset_cons_self ..
      · exact fun a ha => .inl (List.mem_of_mem_erase ha)
      · exact id
      · simp only [setPhase, Function.update_self, hp, effort]
        have hle := List.length_erase_le (a := c) (l := s.cbList)
        omega
      · simp [setPhase, hp]
    · constructor
      · exact fun q hq => Function.update_of_ne hq _ _
      · simp [setPhase]
      · exact List.Subset.refl _
      · exact fun a => .inl
      · exact id
      · simp [setPhase, hp]
      · simp only [setPhase, Function.update_self]
        rintro c' b ⟨⟩
        simp [hp, hc]
  | defaultWait intr =>
    unfold locked
    dsimp only
    split_ifs <;> exact .setPhase _ rfl ⟨rfl, rfl⟩ id (by simp) (by simp [hp]) (by simp)
  | _ => exact .setPhase _ rfl ⟨rfl, rfl⟩ id (by simp) (by simp [hp]) (by simp)

theorem next_moves (ht : FenceCallbacks.next p env s = some t) : Moves p s t := by
  unfold FenceCallbacks.next at ht
  cases hp : s.phase p with
  | idle | finished k r =>
    rw [hp] at ht
    cases ht
  | start k =>
    rw [hp] at ht
    cases ht
    exact begin_moves hp
  | flagged | swFlagged =>
    rw [hp] at ht
    cases ht
    refine .setPhase _ rfl ⟨rfl, rfl⟩ id ?_ ?_ ?_ <;> split_ifs <;> simp [hp]
  | lock k =>
    simp only [hp, Option.ite_none_right_eq_some, Option.some.injEq] at ht
    obtain ⟨-, rfl⟩ := ht
    exact locked_moves hp
  | enable k =>
    rw [hp] at ht
    cases ht
    exact .setPhase _ rfl ⟨rfl, rfl⟩ id (by simp) (by simp [hp]) (by simp)
  | test k wasSet =>
    simp only [hp] at ht
    cases hsig : s.signaled with
    | true =>
      rw [hsig] at ht
      cases ht
      refine .setPhase _ rfl ⟨rfl, rfl⟩ id (by simp) (by simp [hp]) fun c b hx => ?_
      cases k <;> simp [late] at hx
    | false =>
      rw [hsig] at ht
      cases ht
      refine .setPhase _ rfl ⟨rfl, rfl⟩ id ?_ ?_ ?_ <;> split_ifs <;> simp [hp]
  | ask k =>
    rw [hp] at ht
    cases ht
    unfold answered
    dsimp only
    split_ifs <;> exact .setPhase _ rfl ⟨rfl, rfl⟩ id (by simp) (by simp [hp]) (by simp)
  | signal k =>
    rw [hp] at ht
    cases ht
    exact .setPhase _ rfl ⟨rfl, rfl⟩ (fun _ => rfl) (by simp) (by simp [hp]) (by simp)
  | run k r =>
    simp only [hp] at ht
    cases hcb : s.cbList with
    | nil =>
      rw [hcb] at ht
      cases ht
      refine .setPhase _ rfl ⟨rfl, rfl⟩ id (by simp) (by simp [hp]) fun c b hx => ?_
      cases k <;> simp [ranAll, late] at hx
    | cons c rest =>
      rw [hcb] at ht
      cases ht
      constructor
      · exact fun q _ => rfl
      · exact .inr rfl
      · exact List.Subset.refl _
      · exact fun a ha => .inl (hcb ▸ List.mem_cons_of_mem c ha)
      · exact id
      · simp [hcb]
      · intro a b ha
        rw [show ({ s with
          cbList := rest
          called := c :: s.called
          awake := Function.update s.awake c true } : Sys).phase p = s.phase p from rfl, hp] at ha
        cases ha
  | link k =>
    rw [hp] at ht
    have hlinks : ∀ (x : Phase) (l : List ℕ), l.Perm (p :: s.cbList) → wantsRemoved x = none →
        effort x ≤ 1 → (∀ c b, x ≠ .finished (.removeCallback c) (.removed b)) → t.cbList = l →
        t.phase = Function.update s.phase p x → t.removed = s.removed → t.signaled = s.signaled →
        Moves p s t := by
      intro x l hl hw he ha hcb hph hrem hsig
      constructor
      · exact fun q hq => by rw [hph, Function.update_of_ne hq]
      · rw [hph, Function.update_self]
        exact .inl hw
      · rw [hrem]
        exact List.Subset.refl _
      · intro c hc
        rw [hcb, hl.mem_iff, List.mem_cons] at hc
        exact hc.symm
      · rw [hsig]
        exact id
      · have hlink : effort (.link k) = 3 := rfl
        rw [hph, Function.update_self, hcb, hl.length_eq, List.length_cons, hp, hlink]
        omega
      · rw [hph, Function.update_self]
        exact fun c b hx => absurd hx (ha c b)
    cases k with
    | defaultWait intr =>
      cases ht
      exact hlinks _ _ (List.Perm.refl _) rfl le_rfl (by simp) rfl rfl rfl rfl
    | _ =>
      cases ht
      exact hlinks _ _ (List.perm_append_singleton _ _) rfl (by simp) (by simp) rfl rfl rfl rfl
  | loop intr r =>
    simp only [hp] at ht
    split_ifs at ht with hsleep
    · cases ht
      constructor
      · exact fun q hq => Function.update_of_ne hq _ _
      · simp [unlock, setPhase]
      · exact List.Subset.refl _
      · exact fun a => .inl
      · exact id
      · simp [hsleep.1]
      · simp [unlock, setPhase]
    · cases ht
      constructor
      · exact fun q hq => Function.update_of_ne hq _ _
      · simp [unlock, setPhase]
      · exact List.Subset.refl _
      · exact fun a ha => .inl (List.mem_of_mem_erase ha)
      · exact id
      · simp only [unlock, setPhase, Function.update_self, hp, effort]
        have hle := List.length_erase_le (a := p) (l := s.cbList)
        omega
      · simp [unlock, setPhase]
  | asleep intr | relock intr r =>
    simp only [hp, Option.ite_none_right_eq_some, Option.some.injEq] at ht
    obtain ⟨-, rfl⟩ := ht
    exact .setPhase _ rfl ⟨rfl, rfl⟩ id (by simp) (by simp [hp]) (by simp)

theorem Registered.step (h : Registered s) (hp : ∀ k r, s.phase p ≠ .finished k r)
    (ho : ∀ q, q ≠ p → t.phase q = s.phase q)
    (hx : ∀ c, wantsRemoved (t.phase p) = some c → ∃ r, s.phase c = .finished .addCallback r) :
    Registered t := by
  intro q c hq
  have hc : ∃ r, s.phase c = .finished .addCallback r := by
    by_cases hqp : q = p
    · subst hqp
      exact hx c hq
    · rw [ho q hqp] at hq
      exact h q c hq
  obtain ⟨r, hr⟩ := hc
  have hcp : c ≠ p := fun hcp => hp _ _ (hcp ▸ hr)
  exact ⟨r, by rw [ho c hcp, hr]⟩

theorem next_going (ht : FenceCallbacks.next p env s = some t) (k : Kind) (r : Ret) :
    s.phase p ≠ .finished k r := by
  intro hp
  simp [FenceCallbacks.next, hp] at ht

/-- What was answered to a removal: the callback will not be called, or is not on the list. -/
def Answered (s : Sys) : Prop :=
  ∀ p c b, s.phase p = .finished (.removeCallback c) (.removed b) →
    (b = true → c ∈ s.removed) ∧ (b = false → c ∉ s.cbList) ∧
      ∃ r, s.phase c = .finished .addCallback r

theorem Answered.next (h : Answered s) (hr : Registered s)
    (ht : FenceCallbacks.next p env s = some t) : Answered t := by
  have hm := next_moves ht
  have hgoing := next_going ht
  intro q c b hq
  have hold : (b = true → c ∈ t.removed) ∧ (b = false → c ∉ t.cbList ∨ c = p) ∧
      ∃ r, s.phase c = .finished .addCallback r := by
    by_cases hqp : q = p
    · subst hqp
      obtain ⟨htrue, hfalse, hw⟩ := hm.answer c b hq
      exact ⟨htrue, fun hb => .inl (hfalse hb), hr q c hw⟩
    · rw [hm.other q hqp] at hq
      obtain ⟨htrue, hfalse, hc⟩ := h q c b hq
      refine ⟨fun hb => hm.removed (htrue hb), fun hb => ?_, hc⟩
      by_contra hno
      rw [not_or, not_not] at hno
      exact hfalse hb ((hm.cbList c hno.1).resolve_right hno.2)
  obtain ⟨htrue, hfalse, r, hc⟩ := hold
  have hcp : c ≠ p := fun hcp => hgoing _ _ (hcp ▸ hc)
  exact ⟨htrue, fun hb => (hfalse hb).resolve_right hcp, r, by rw [hm.other c hcp, hc]⟩

structure Sound (s : Sys) : Prop where
  inv : Inv s
  registered : Registered s
  answered : Answered s

theorem step_sound (a : ℕ × Act) (h : Sound s) (ht : step s a = some t) : Sound t := by
  obtain ⟨p, k | env⟩ := a
  · simp only [step, Option.ite_none_right_eq_some, Option.some.injEq] at ht
    obtain ⟨⟨hidle, hcall⟩, rfl⟩ := ht
    have hother : ∀ q, q ≠ p → (setPhase p (.start k) s).phase q = s.phase q := fun q hq =>
      Function.update_of_ne hq _ _
    refine ⟨h.inv.call hidle, h.registered.step (by simp [hidle]) hother ?_, ?_⟩
    · intro c hc
      simp only [setPhase, Function.update_self] at hc
      cases k <;> simp at hc
      subst hc
      unfold callable at hcall
      dsimp only at hcall
      split at hcall
      · exact ⟨_, ‹_›⟩
      · cases hcall
    · intro q c b hq
      have hqp : q ≠ p := by
        rintro rfl
        simp [setPhase] at hq
      rw [hother q hqp] at hq
      obtain ⟨htrue, hfalse, r, hc⟩ := h.answered q c b hq
      have hcp : c ≠ p := by
        rintro rfl
        rw [hc] at hidle
        cases hidle
      exact ⟨htrue, hfalse, r, by rw [hother c hcp, hc]⟩
  · have hm := next_moves ht
    refine ⟨h.inv.next h.registered ht, h.registered.step (next_going ht) hm.other fun c hc => ?_,
      h.answered.next h.registered ht⟩
    rcases hm.wants with hw | hw
    · rw [hw] at hc
      cases hc
    · exact h.registered p c (hw ▸ hc)

theorem runs_sound {as : List (ℕ × Act)} (h : Runs step anyLabel start as s) : Sound s := by
  refine h.invariant Sound ⟨start_inv, ?_, ?_⟩ fun _ a _ hs _ ht => step_sound a hs ht
  · intro p c hc
    cases hc
  · intro p c b hp
    cases hp

def quiet : Env := ⟨true, false, false⟩

/-- A callback is registered, a call sleeps and the flag is set, while the callback is removed. -/
def racing : List (ℕ × Act) :=
  (1, .call .addCallback) :: List.replicate 6 (1, .next quiet) ++
  (2, .call (.defaultWait true)) :: List.replicate 6 (2, .next quiet) ++
  [(3, .call .signal), (3, .next quiet), (4, .call (.removeCallback 1)), (4, .next quiet),
    (4, .next quiet)]

def raced : Sys := (exec step start racing).getD start

theorem raced_runs : Runs step anyLabel start racing raced := runs_getD (by decide)

/-- A callback that was registered is on the list, or was called or removed, and never two of
    these. A callback that was refused is nowhere, and the fence is signaled. To remove a callback
    tells whether it will be called. -/
theorem runs_callbacks {as : List (ℕ × Act)} (h : Runs step anyLabel start as s) :
    (s.cbList ++ (s.called ++ s.removed)).Nodup ∧ (s.called ≠ [] → s.signaled = true) ∧
    (∀ c, s.phase c = .finished .addCallback .ok →
      c ∈ s.cbList ∨ c ∈ s.called ∨ c ∈ s.removed) ∧
    (∀ c, s.phase c = .finished .addCallback .enoent →
      s.signaled = true ∧ c ∉ s.cbList ++ (s.called ++ s.removed)) ∧
    ∀ p c b, s.phase p = .finished (.removeCallback c) (.removed b) →
      if b then c ∈ s.removed else c ∉ s.cbList := by
  obtain ⟨hinv, -, hans⟩ := runs_sound h
  refine ⟨hinv.nodup, hinv.signaled, fun c hc => hinv.kept c ?_, fun c hc => ?_, fun p c b hp => ?_⟩
  · rw [hc]
    rfl
  · exact ⟨hinv.told c (by rw [hc]; rfl), hinv.notOn (by rw [hc]; rfl)⟩
  · obtain ⟨htrue, hfalse, -⟩ := hans p c b hp
    cases b with
    | true => exact htrue rfl
    | false => exact hfalse rfl

theorem raced_callbacks : 1 ∈ raced.removed ∧ 2 ∈ raced.cbList := by
  obtain ⟨-, -, -, -, hanswer⟩ := runs_callbacks raced_runs
  exact ⟨hanswer 4 1 true (by decide), by decide⟩

/-- The driver is asked for the signal once at most. Where callbacks wait on a fence that is not
    signaled it was asked, or a call is on its way to ask. -/
theorem runs_asked {as : List (ℕ × Act)} (h : Runs step anyLabel start as s) :
    s.asked ≤ 1 ∧ (s.cbList ≠ [] → s.signaled = false →
      s.asked = 1 ∨ ∃ p, seeksAnswer (s.phase p) = true) := by
  have hinv := (runs_sound h).inv
  refine ⟨hinv.asked.1, fun hne hsig => ?_⟩
  have hen : s.enabled = true := by
    by_contra hen
    exact hne (hinv.off (Bool.not_eq_true _ ▸ hen)).1
  rcases hinv.driven hen with hs | hor
  · rw [hsig] at hs
    cases hs
  · exact hor

theorem raced_asked : raced.asked ≤ 1 :=
  (runs_asked raced_runs).1

def isOver : Phase → Bool
  | .idle | .finished .. => true
  | _ => false

theorem hasLock_goes_on (hlk : hasLock (s.phase p) = true) : next p env s ≠ none := by
  unfold FenceCallbacks.next
  cases hp : s.phase p with
  | run k r => cases hcb : s.cbList <;> simp
  | link k => cases k <;> simp
  | test k wasSet =>
    dsimp only
    split_ifs <;> simp
  | loop intr r =>
    dsimp only
    split_ifs <;> simp
  | enable k | ask k | signal k => simp
  | _ =>
    rw [hp] at hlk
    cases hlk

theorem willRun_goes_on (hfree : s.lock = none) (hrun : willRun (s.phase p) = true) :
    next p env s ≠ none := by
  by_cases hlk : hasLock (s.phase p) = true
  · exact hasLock_goes_on hlk
  · unfold FenceCallbacks.next
    cases hp : s.phase p with
    | flagged => simp
    | lock k => simp [hfree]
    | _ => simp [hp] at hrun hlk

theorem stuck_over (h : Inv s) (hsig : s.signaled = true) (hs : ∀ p, next p quiet s = none) :
    s.cbList = [] ∧ ∀ p, isOver (s.phase p) = true := by
  have hfree : s.lock = none := by
    cases hl : s.lock with
    | none => rfl
    | some p => exact absurd (hs p) (hasLock_goes_on ((h.lock p).2 hl))
  have hnil : s.cbList = [] := by
    by_contra hne
    obtain ⟨q, hq⟩ := h.runner hsig (.inl hne)
    exact willRun_goes_on hfree hq (hs q)
  refine ⟨hnil, fun p => ?_⟩
  by_cases hlk : hasLock (s.phase p) = true
  · exact absurd (hs p) (hasLock_goes_on hlk)
  · have hstuck := hs p
    unfold FenceCallbacks.next at hstuck
    cases hp : s.phase p with
    | idle => rfl
    | finished k r => rfl
    | asleep intr =>
      -- a call that sleeps has its callback on the list until it is woken
      have hawake : s.awake p = true := by
        by_contra hno
        have hin := h.asleep p intr hp (Bool.not_eq_true _ ▸ hno)
        rw [hnil] at hin
        cases hin
      simp [hp, hawake] at hstuck
    | _ => simp [hp, hfree] at hstuck hlk

/-- The steps that calls take of their own, once they were called. -/
def own (_ : Sys) (a : ℕ × Act) : Prop := ∃ env, a.2 = .next env

theorem step_own {a : ℕ × Act} (ho : own s a) (ht : step s a = some t) : Moves a.1 s t := by
  obtain ⟨p, act⟩ := a
  obtain ⟨env, rfl⟩ := ho
  exact next_moves ht

theorem own_bounded (parties : Finset ℕ) {bs : List (ℕ × Act)} (h : Runs step own s bs t)
    (hp : ∀ p, p ∉ parties → isOver (s.phase p) = true) (hsig : s.signaled = true) :
    bs.length + (∑ p ∈ parties, effort (t.phase p) + t.cbList.length) ≤
      ∑ p ∈ parties, effort (s.phase p) + s.cbList.length := by
  induction h with
  | refl s => simp
  | next ho hs _ ih =>
    rename_i s u v a as _
    have hm := step_own ho hs
    have hin : a.1 ∈ parties := by
      by_contra hout
      obtain ⟨p, act⟩ := a
      obtain ⟨env, rfl⟩ := ho
      have hover := hp p hout
      simp only [step, FenceCallbacks.next] at hs
      cases hph : s.phase p <;> simp [hph, isOver] at hover hs
    have hsum : ∑ p ∈ parties, effort (u.phase p) + effort (s.phase a.1) =
        ∑ p ∈ parties, effort (s.phase p) + effort (u.phase a.1) := by
      rw [← Finset.add_sum_erase _ _ hin, ← Finset.add_sum_erase parties _ hin]
      have hrest : ∑ p ∈ parties.erase a.1, effort (u.phase p) =
          ∑ p ∈ parties.erase a.1, effort (s.phase p) :=
        Finset.sum_congr rfl fun q hq => by rw [hm.other q (Finset.ne_of_mem_erase hq)]
      omega
    have hle := ih (fun q hq => by rw [hm.other q fun hqa => hq (hqa ▸ hin)]; exact hp q hq)
      (hm.signaled hsig)
    have hlt := hm.effort hsig
    rw [List.length_cons]
    omega

theorem runs_busy {as : List (ℕ × Act)} (h : Runs step anyLabel start as s) :
    {p | isOver (s.phase p) = false}.Finite := by
  refine h.invariant (fun s => {p | isOver (s.phase p) = false}.Finite) ?_ fun s a t hs _ ht => ?_
  · have hnone : {p | isOver (start.phase p) = false} = ∅ := by
      ext p
      simp [start, isOver]
    rw [hnone]
    exact Set.finite_empty
  · refine (hs.insert a.1).subset fun q hq => ?_
    obtain ⟨p, k | env⟩ := a
    · simp only [step, Option.ite_none_right_eq_some, Option.some.injEq] at ht
      obtain ⟨-, rfl⟩ := ht
      by_cases hqp : q = p
      · exact .inl hqp
      · exact .inr (by simpa [setPhase, hqp] using hq)
    · by_cases hqp : q = p
      · exact .inl hqp
      · exact .inr (by simpa [(next_moves ht).other q hqp] using hq)

/-- Once the fence is signaled the calls on it come to an end, whatever the order of their steps,
    and then every callback that was registered was called or removed. -/
theorem runs_signal_arrives {as : List (ℕ × Act)} (h : Runs step anyLabel start as s)
    (hsig : s.signaled = true) :
    ∃ n, ∀ bs t, Runs step own s bs t → bs.length ≤ n ∧
      ((∀ p, next p quiet t = none) → (∀ p, isOver (t.phase p) = true) ∧
        ∀ c, t.phase c = .finished .addCallback .ok → c ∈ t.called ∨ c ∈ t.removed) := by
  have hbusy := runs_busy h
  refine ⟨∑ p ∈ hbusy.toFinset, effort (s.phase p) + s.cbList.length, fun bs t hrun => ?_⟩
  have hbound := own_bounded hbusy.toFinset hrun
    (fun p hp => by simpa [Set.Finite.mem_toFinset] using hp) hsig
  refine ⟨by omega, fun hstuck => ?_⟩
  have hall : Runs step anyLabel start (as ++ bs) t := h.trans (hrun.weaken fun _ _ _ => trivial)
  have hinv := (runs_sound hall).inv
  have hsig' : t.signaled = true :=
    hrun.invariant (fun s => s.signaled = true) hsig fun s a u hs ho hu =>
      (step_own ho hu).signaled hs
  obtain ⟨hnil, hover⟩ := stuck_over hinv hsig' hstuck
  refine ⟨hover, fun c hc => ?_⟩
  rcases hinv.kept c (by rw [hc]; rfl) with hin | hor
  · rw [hnil] at hin
    cases hin
  · exact hor

theorem raced_signal_arrives : ∃ n, ∀ bs t, Runs step own raced bs t → bs.length ≤ n ∧
    ((∀ p, next p quiet t = none) → (∀ p, isOver (t.phase p) = true) ∧
      ∀ c, t.phase c = .finished .addCallback .ok → c ∈ t.called ∨ c ∈ t.removed) :=
  runs_signal_arrives raced_runs (by decide)

end Vmwgfx.FenceCallbacks
