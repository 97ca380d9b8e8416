import Vmwgfx.FailingState

set_option autoImplicit false

/-!
# Two computations side by side

Computations on states that may stop early, started in related states: they return the same
and leave related states. The rules follow the ways in which computations are composed.
-/
namespace Vmwgfx.PairedRuns
open FailingState

variable {σ τ ε α β : Type} {R : σ → τ → Prop}

/-- From related states the two computations end in the same way and in related states. -/
structure PairedAt (R : σ → τ → Prop) (m : Run σ ε α) (n : Run τ ε α) (s : σ) (t : τ) : Prop where
  result : (m s).1 = (n t).1
  state : R (m s).2 (n t).2

def Paired (R : σ → τ → Prop) (m : Run σ ε α) (n : Run τ ε α) : Prop :=
  ∀ s t, R s t → PairedAt R m n s t

section Rules
variable {m : Run σ ε α} {n : Run τ ε α} {f : α → Run σ ε β} {g : α → Run τ ε β} {s : σ} {t : τ}

theorem PairedAt.bind (h : PairedAt R m n s t)
    (hf : ∀ a u v, m s = (.ok a, u) → n t = (.ok a, v) → R u v → PairedAt R (f a) (g a) u v) :
    PairedAt R (m >>= f) (n >>= g) s t := by
  have hresult := h.result
  have hstate := h.state
  rcases hm : m s with ⟨e | a, u⟩
  · rcases hn : n t with ⟨e' | b, v⟩
    · rw [hm, hn] at hresult hstate
      cases hresult
      exact ⟨by rw [bind_of_error hm, bind_of_error hn], by
        rw [bind_of_error hm, bind_of_error hn]
        exact hstate⟩
    · rw [hm, hn] at hresult
      cases hresult
  · rcases hn : n t with ⟨e' | b, v⟩
    · rw [hm, hn] at hresult
      cases hresult
    · rw [hm, hn] at hresult hstate
      cases hresult
      have hnext := hf a u v hm hn hstate
      constructor
      · rw [bind_of_ok hm, bind_of_ok hn]
        exact hnext.result
      · rw [bind_of_ok hm, bind_of_ok hn]
        exact hnext.state

theorem PairedAt.mono {R' : σ → τ → Prop} (h : PairedAt R m n s t) (hr : ∀ u v, R u v → R' u v) :
    PairedAt R' m n s t := ⟨h.result, hr _ _ h.state⟩

theorem PairedAt.congr {m' : Run σ ε α} {n' : Run τ ε α} {s' : σ} {t' : τ} (h : PairedAt R m n s t)
    (hm : m' s' = m s) (hn : n' t' = n t) : PairedAt R m' n' s' t' := by
  constructor
  · rw [hm, hn]
    exact h.result
  · rw [hm, hn]
    exact h.state

theorem Paired.bind (h : Paired R m n) (hf : ∀ a, Paired R (f a) (g a)) :
    Paired R (m >>= f) (n >>= g) := fun s t hst =>
  (h s t hst).bind fun a u v _ _ huv => hf a u v huv

theorem paired_pure (a : α) : Paired R (pure a : Run σ ε α) (pure a) := fun _ _ hst => ⟨rfl, hst⟩

theorem paired_stop (e : ε) : Paired R (stop e : Run σ ε α) (stop e) := fun _ _ hst => ⟨rfl, hst⟩

theorem paired_inspect {x : σ → α} {y : τ → α} (h : ∀ s t, R s t → x s = y t) :
    Paired R (inspect x : Run σ ε α) (inspect y) := fun s t hst => ⟨congrArg _ (h s t hst), hst⟩

theorem paired_update {x : σ → σ} {y : τ → τ} (h : ∀ s t, R s t → R (x s) (y t)) :
    Paired R (update x : Run σ ε Unit) (update y) := fun s t hst => ⟨rfl, h s t hst⟩

theorem paired_require (b : Bool) (e : ε) :
    Paired R (require b e : Run σ ε Unit) (require b e) := by
  cases b
  · exact paired_stop e
  · exact paired_pure ()

end Rules

section Loops

theorem Paired.runIf {m : Run σ ε Unit} {n : Run τ ε Unit} (h : Paired R m n) (b : Bool) :
    Paired R (runIf b m) (runIf b n) := by
  cases b
  · exact paired_pure ()
  · exact h

theorem Paired.repeatFrom {f : ℕ → Run σ ε Unit} {g : ℕ → Run τ ε Unit}
    (h : ∀ k, Paired R (f k) (g k)) (n i : ℕ) : Paired R (repeatFrom f i n) (repeatFrom g i n) := by
  induction n generalizing i with
  | zero => exact paired_pure ()
  | succ n ih => exact (h i).bind fun _ => ih (i + 1)

theorem Paired.forEach {f : β → Run σ ε Unit} {g : β → Run τ ε Unit}
    (h : ∀ x, Paired R (f x) (g x)) (l : List β) : Paired R (forEach f l) (forEach g l) := by
  induction l with
  | nil => exact paired_pure ()
  | cons x l ih => exact (h x).bind fun _ => ih

end Loops

structure Part (σ τ : Type) where
  get : σ → τ
  put : τ → σ → σ
  get_put : ∀ x s, get (put x s) = x
  put_get : ∀ s, put (get s) s = s
  put_put : ∀ x y s, put x (put y s) = put x s

/-- The states agree outside the part, and the parts are related. -/
structure Beside (P : Part σ τ) (R : τ → τ → Prop) (s t : σ) : Prop where
  outside : t = P.put (P.get t) s
  inside : R (P.get s) (P.get t)

theorem Beside.mono {P : Part σ τ} {R R' : τ → τ → Prop} {s t : σ} (h : Beside P R s t)
    (hr : ∀ x y, R x y → R' x y) : Beside P R' s t := ⟨h.outside, hr _ _ h.inside⟩

theorem Beside.put {P : Part σ τ} {R R' : τ → τ → Prop} {s t : σ} (h : Beside P R s t) {x y : τ}
    (hxy : R' x y) : Beside P R' (P.put x s) (P.put y t) := by
  refine ⟨?_, ?_⟩
  · conv_lhs => rw [h.outside]
    rw [P.put_put, P.get_put, P.put_put]
  · rw [P.get_put, P.get_put]
    exact hxy

/-- A computation that neither reads nor changes the part. -/
def Blind (P : Part σ τ) (m : Run σ ε α) : Prop :=
  ∀ s x, m (P.put x s) = ((m s).1, P.put x (m s).2)

section Blind
variable {P : Part σ τ} {R : τ → τ → Prop} {m : Run σ ε α} {f : α → Run σ ε β} {s : σ}

theorem Blind.get (h : Blind P m) (s : σ) : P.get (m s).2 = P.get s := by
  have hs := h s (P.get s)
  rw [P.put_get] at hs
  rw [hs, P.get_put]

theorem Blind.get_of_run (h : Blind P m) {r : Except ε α} {u : σ} (hm : m s = (r, u)) :
    P.get u = P.get s := by
  have hget := h.get s
  rw [hm] at hget
  exact hget

theorem Blind.paired (h : Blind P m) : Paired (Beside P R) m m := by
  intro s t hst
  have hrun : m t = ((m s).1, P.put (P.get t) (m s).2) := by
    rw [← h, ← hst.outside]
  refine ⟨by rw [hrun], ?_, ?_⟩
  · rw [h.get, hrun]
  · rw [h.get, h.get]
    exact hst.inside

theorem blind_pure (a : α) : Blind P (pure a : Run σ ε α) := fun _ _ => rfl

theorem blind_stop (e : ε) : Blind P (stop e : Run σ ε α) := fun _ _ => rfl

theorem Blind.bind (h : Blind P m) (hf : ∀ a, Blind P (f a)) : Blind P (m >>= f) := by
  intro s x
  rcases hm : m s with ⟨e | a, u⟩
  · have hx : m (P.put x s) = (.error e, P.put x u) := by rw [h, hm]
    rw [bind_of_error hm, bind_of_error hx]
  · have hx : m (P.put x s) = (.ok a, P.put x u) := by rw [h, hm]
    rw [bind_of_ok hm, bind_of_ok hx, hf]

theorem blind_inspect {g : σ → α} (h : ∀ s x, g (P.put x s) = g s) :
    Blind P (inspect g : Run σ ε α) := fun s x => by rw [inspect, inspect, h]

theorem blind_update {g : σ → σ} (h : ∀ s x, g (P.put x s) = P.put x (g s)) :
    Blind P (update g : Run σ ε Unit) := fun s x => by rw [update, update, h]

theorem blind_require (b : Bool) (e : ε) : Blind P (require b e : Run σ ε Unit) := by
  cases b
  · exact blind_stop e
  · exact blind_pure ()

theorem Blind.runIf {m : Run σ ε Unit} (h : Blind P m) (b : Bool) : Blind P (runIf b m) := by
  cases b
  · exact blind_pure ()
  · exact h

theorem Blind.forEach {f : β → Run σ ε Unit} (h : ∀ x, Blind P (f x)) (l : List β) :
    Blind P (forEach f l) := by
  induction l with
  | nil => exact blind_pure ()
  | cons x l ih => exact (h x).bind fun _ => ih

end Blind

end Vmwgfx.PairedRuns
