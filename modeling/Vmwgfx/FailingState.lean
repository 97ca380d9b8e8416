import Mathlib.Tactic

set_option autoImplicit false

/-!
# Computations on a state that may stop early

A computation that stops keeps the changes it made. What a computation does is told in
two ways: by relations between the states before and after it, however it ends, with the
reasons for which it may stop; and by what follows when it comes to its end.
-/
namespace Vmwgfx.FailingState

variable {σ ε α β : Type}

def Run (σ ε α : Type) := σ → Except ε α × σ

def Run.andThen (m : Run σ ε α) (f : α → Run σ ε β) : Run σ ε β := fun s =>
  match m s with
  | (.ok a, t) => f a t
  | (.error e, t) => (.error e, t)

def Run.result (a : α) : Run σ ε α := fun s => (.ok a, s)

instance : Monad (Run σ ε) where
  pure := Run.result
  bind := Run.andThen

def stop (e : ε) : Run σ ε α := fun s => (.error e, s)

def inspect (f : σ → α) : Run σ ε α := fun s => (.ok (f s), s)

def update (f : σ → σ) : Run σ ε Unit := fun s => (.ok (), f s)

/-- Stop unless `b`. -/
def require (b : Bool) (e : ε) : Run σ ε Unit := if b then pure () else stop e

def runIf (b : Bool) (m : Run σ ε Unit) : Run σ ε Unit := if b then m else pure ()

/-- `f i`, `f (i + 1)` and so on, `n` times. -/
def repeatFrom (f : ℕ → Run σ ε Unit) : ℕ → ℕ → Run σ ε Unit
  | _, 0 => pure ()
  | i, n + 1 => do
    f i
    repeatFrom f (i + 1) n

/-- `f` on every element in turn. -/
def forEach (f : β → Run σ ε Unit) : List β → Run σ ε Unit
  | [] => pure ()
  | x :: xs => do
    f x
    forEach f xs

section Ends
variable {m : Run σ ε α} {f : α → Run σ ε β} {s t u : σ}

@[simp] theorem pure_ok {a b : α} :
    (pure a : Run σ ε α) s = (.ok b, t) ↔ a = b ∧ s = t := by
  simp [pure, Run.result]

theorem bind_ok {b : β} :
    (m >>= f) s = (.ok b, u) ↔ ∃ a t, m s = (.ok a, t) ∧ f a t = (.ok b, u) := by
  simp only [bind, Run.andThen]
  constructor
  · intro h
    split at h
    · rename_i a t hm
      exact ⟨a, t, hm, h⟩
    · cases h
  · rintro ⟨a, t, hm, hf⟩
    rw [hm]
    exact hf

theorem bind_of_ok {a : α} (h : m s = (.ok a, t)) : (m >>= f) s = f a t := by
  simp only [bind, Run.andThen, h]

theorem bind_of_error {e : ε} (h : m s = (.error e, t)) : (m >>= f) s = (.error e, t) := by
  simp only [bind, Run.andThen, h]

theorem bind_pure_state {g : α → β} : ((m >>= fun a => pure (g a)) s).2 = (m s).2 := by
  rcases hm : m s with ⟨e | a, t⟩
  · rw [bind_of_error hm]
  · rw [bind_of_ok hm]
    rfl

theorem andThen_assoc {γ : Type} {g : β → Run σ ε γ} :
    m >>= f >>= g = m >>= fun a => f a >>= g := by
  funext s
  rcases hm : m s with ⟨e | a, t⟩
  · rw [bind_of_error hm, bind_of_error (bind_of_error hm)]
  · rw [bind_of_ok hm]
    simp only [bind, Run.andThen, hm]

@[simp] theorem stop_ok {e : ε} {a : α} : ¬ (stop e : Run σ ε α) s = (.ok a, t) := by
  simp [stop]

@[simp] theorem inspect_ok {g : σ → α} {a : α} :
    (inspect g : Run σ ε α) s = (.ok a, t) ↔ g s = a ∧ s = t := by
  simp [inspect]

@[simp] theorem update_ok {g : σ → σ} {a : Unit} :
    (update g : Run σ ε Unit) s = (.ok a, t) ↔ g s = t := by
  simp [update]

@[simp] theorem require_ok {b : Bool} {e : ε} {a : Unit} :
    (require b e : Run σ ε Unit) s = (.ok a, t) ↔ b = true ∧ s = t := by
  unfold require
  split_ifs with h <;> simp [h]

theorem require_bind_ok {b : Bool} {e : ε} {g : Unit → Run σ ε α} {a : α} :
    (require b e >>= g) s = (.ok a, t) ↔ b = true ∧ g () s = (.ok a, t) := by
  cases b
  · simp [require, bind, Run.andThen, stop]
  · simp [require, bind, Run.andThen, pure, Run.result]

theorem ok_of_toOption {a : α} (h : (m s).1.toOption = some a) : m s = (.ok a, (m s).2) := by
  rcases hm : m s with ⟨e | b, t⟩
  · rw [hm] at h
    cases h
  · rw [hm] at h
    cases h
    rfl

/-- The computation stops early. -/
def Fails (m : Run σ ε α) (s : σ) : Prop := ∀ a t, m s ≠ (.ok a, t)

theorem Fails.rest (h : Fails (m >>= f) s) {a : α} (hm : m s = (.ok a, t)) : Fails (f a) t := by
  intro b u hf
  exact h b u ((bind_of_ok hm).trans hf)

theorem repeatFrom_collects (T : σ → σ → List β → Prop) (g : ℕ → List β)
    {f : ℕ → Run σ ε Unit} (hrefl : ∀ s, T s s [])
    (htrans : ∀ {s t u a b}, T s t a → T t u b → T s u (a ++ b))
    (hstep : ∀ {i s t}, f i s = (.ok (), t) → T s t (g i)) (n : ℕ) {i : ℕ} {s t : σ}
    (h : repeatFrom f i n s = (.ok (), t)) : T s t ((List.range' i n).flatMap g) := by
  induction n generalizing i s with
  | zero =>
    obtain ⟨-, rfl⟩ := pure_ok.1 h
    exact hrefl s
  | succ n ih =>
    obtain ⟨_, u, hf, hr⟩ := bind_ok.1 h
    rw [List.range'_succ, List.flatMap_cons]
    exact htrans (hstep hf) (ih hr)

end Ends

/-- However the computation ends, the states before and after it are related by `R`, and
    it stops only for a reason in `F`. -/
structure KeepsAt (R : σ → σ → Prop) (F : ε → Prop) (m : Run σ ε α) (s : σ) : Prop where
  state : R s (m s).2
  reason : ∀ e, (m s).1 = .error e → F e

def Keeps (R : σ → σ → Prop) (F : ε → Prop) (m : Run σ ε α) : Prop := ∀ s, KeepsAt R F m s

section Keeps
variable {R S : σ → σ → Prop} {F G : ε → Prop} {m : Run σ ε α} {f : α → Run σ ε β} {s t : σ}

theorem keepsAt_of_ok (a : α) (h : m s = (.ok a, t)) (hR : R s t) : KeepsAt R F m s := by
  constructor
  · rwa [h]
  · intro e he
    rw [h] at he
    cases he

theorem keepsAt_of_error (e : ε) (h : m s = (.error e, t)) (hR : R s t) (hF : F e) :
    KeepsAt R F m s := by
  constructor
  · rwa [h]
  · intro e' he'
    rw [h] at he'
    cases he'
    exact hF

theorem KeepsAt.ok (h : KeepsAt R F m s) {a : α} (hm : m s = (.ok a, t)) : R s t := by
  have := h.state
  rwa [hm] at this

theorem Keeps.ok (h : Keeps R F m) {a : α} (hm : m s = (.ok a, t)) : R s t := (h s).ok hm

theorem KeepsAt.mono (h : KeepsAt R F m s) (hR : ∀ t, R s t → S s t) (hF : ∀ e, F e → G e) :
    KeepsAt S G m s := ⟨hR _ h.state, fun e he => hF e (h.reason e he)⟩

theorem Keeps.mono (h : Keeps R F m) (hR : ∀ s t, R s t → S s t) (hF : ∀ e, F e → G e) :
    Keeps S G m := fun s => (h s).mono (hR s) hF

theorem keeps_update {g : σ → σ} (h : ∀ s, R s (g s)) : Keeps R F (update g) := fun s =>
  ⟨h s, fun _ he => by cases he⟩

theorem KeepsAt.bind [IsTrans σ R] (hm : KeepsAt R F m s)
    (hf : ∀ a t, m s = (.ok a, t) → KeepsAt R F (f a) t) : KeepsAt R F (m >>= f) s := by
  have hstate := hm.state
  have hreason := hm.reason
  rcases hs : m s with ⟨r, t⟩
  rw [hs] at hstate hreason
  cases r with
  | ok a =>
    have hrun : (m >>= f) s = f a t := by simp only [Bind.bind, Run.andThen, hs]
    constructor
    · rw [hrun]
      exact IsTrans.trans _ _ _ hstate (hf a t hs).state
    · rw [hrun]
      exact (hf a t hs).reason
  | error e =>
    exact keepsAt_of_error e (by simp only [Bind.bind, Run.andThen, hs]) hstate (hreason e rfl)

theorem Keeps.bind [IsTrans σ R] (hm : Keeps R F m) (hf : ∀ a, Keeps R F (f a)) :
    Keeps R F (m >>= f) := fun s => (hm s).bind fun a t _ => hf a t

theorem KeepsAt.inspect_bind {g : σ → α} (h : KeepsAt R F (f (g s)) s) :
    KeepsAt R F (inspect g >>= f) s := ⟨h.state, h.reason⟩

variable [Std.Refl R]

theorem keeps_pure (a : α) : Keeps R F (pure a) := fun s =>
  ⟨Std.Refl.refl s, fun _ he => by cases he⟩

theorem keeps_stop {e : ε} (he : F e) : Keeps R F (stop e : Run σ ε α) := fun s =>
  ⟨Std.Refl.refl s, fun _ h => by cases h; exact he⟩

theorem keeps_inspect (g : σ → α) : Keeps R F (inspect g) := fun s =>
  ⟨Std.Refl.refl s, fun _ he => by cases he⟩

theorem keeps_require (b : Bool) {e : ε} (he : F e) : Keeps R F (require b e) := by
  cases b
  · exact keeps_stop he
  · exact keeps_pure ()

theorem KeepsAt.require_bind {b : Bool} {e : ε} {f : Unit → Run σ ε β} (he : F e)
    (h : b = true → KeepsAt R F (f ()) s) : KeepsAt R F (require b e >>= f) s := by
  cases b
  · exact ⟨Std.Refl.refl s, fun _ h => by cases h; exact he⟩
  · exact ⟨(h rfl).state, (h rfl).reason⟩

theorem KeepsAt.runIf {m : Run σ ε Unit} {b : Bool} (h : b = true → KeepsAt R F m s) :
    KeepsAt R F (runIf b m) s := by
  cases b
  · exact keeps_pure () s
  · exact h rfl

theorem Keeps.runIf {m : Run σ ε Unit} (h : Keeps R F m) (b : Bool) : Keeps R F (runIf b m) :=
  fun s => KeepsAt.runIf fun _ => h s

variable [IsTrans σ R]

theorem KeepsAt.repeatFrom {f : ℕ → Run σ ε Unit} (J : σ → Prop) (n : ℕ) {i : ℕ} (hs : J s)
    (hf : ∀ k s, i ≤ k → k < i + n → J s → KeepsAt R F (f k) s)
    (hJ : ∀ k s t, J s → f k s = (.ok (), t) → J t) : KeepsAt R F (repeatFrom f i n) s := by
  induction n generalizing i s with
  | zero => exact keeps_pure () s
  | succ n ih =>
    refine (hf i s le_rfl (by omega) hs).bind fun _ t ht => ?_
    refine ih (hJ i s t hs ht) fun k u hk hkn hu => ?_
    exact hf k u (by omega) (by omega) hu

theorem Keeps.repeatFrom {f : ℕ → Run σ ε Unit} (h : ∀ i, Keeps R F (f i)) (n i : ℕ) :
    Keeps R F (repeatFrom f i n) := fun _ =>
  KeepsAt.repeatFrom (fun _ => True) n trivial (fun k s _ _ _ => h k s) fun _ _ _ _ _ => trivial

theorem Keeps.forEach {f : β → Run σ ε Unit} (h : ∀ x, Keeps R F (f x)) (l : List β) :
    Keeps R F (forEach f l) := by
  induction l with
  | nil => exact keeps_pure ()
  | cons x l ih => exact (h x).bind fun _ => ih

end Keeps

end Vmwgfx.FailingState
