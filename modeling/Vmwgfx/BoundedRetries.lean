import Mathlib.Tactic

set_option autoImplicit false

/-!
# Bounded retries

An attempt on a state either asks for another one or stops with a result. At most a given
number of attempts is made, counted from some number on. The results are for attempts that
leave the state as it was when they ask for another one.
-/
namespace Vmwgfx.BoundedRetries

variable {σ ρ : Type*}

inductive Verdict (ρ : Type*) where
  | again
  | stop (r : ρ)
  deriving DecidableEq, Repr

/-- Up to `n` attempts from number `k` on: the number of the next attempt, the result of the one
    that stopped, and the state. -/
def retryFrom (f : ℕ → σ → Verdict ρ × σ) (k : ℕ) : ℕ → σ → (ℕ × Option ρ) × σ
  | 0, s => ((k, none), s)
  | n + 1, s =>
    match f k s with
    | (.again, t) => retryFrom f (k + 1) n t
    | (.stop r, t) => ((k + 1, some r), t)

def retry (f : ℕ → σ → Verdict ρ × σ) (n : ℕ) (s : σ) : (ℕ × Option ρ) × σ := retryFrom f 0 n s

variable {f : ℕ → σ → Verdict ρ × σ} {s t : σ} {k m n : ℕ} {r : ρ}

theorem retryFrom_add (h : ∀ j < m, f (k + j) s = (.again, s)) :
    retryFrom f k (m + n) s = retryFrom f (k + m) n s := by
  induction m generalizing k with
  | zero => rw [Nat.zero_add, Nat.add_zero]
  | succ m ih =>
    have hfirst : f k s = (.again, s) := h 0 (Nat.succ_pos m)
    have hrest : ∀ j < m, f (k + 1 + j) s = (.again, s) := by
      intro j hj
      rw [Nat.add_assoc, Nat.add_comm 1 j]
      exact h (j + 1) (Nat.succ_lt_succ hj)
    rw [Nat.add_right_comm, retryFrom, hfirst]
    dsimp only
    rw [ih hrest, Nat.add_assoc, Nat.add_comm 1 m]

theorem retry_exhausted (h : ∀ j < n, f j s = (.again, s)) : retry f n s = ((n, none), s) := by
  have hadd := retryFrom_add (f := f) (k := 0) (n := 0) fun j hj => by
    rw [Nat.zero_add]
    exact h j hj
  rw [Nat.zero_add, Nat.add_zero] at hadd
  exact hadd

theorem retry_stop (hk : k < n) (hbefore : ∀ j < k, f j s = (.again, s))
    (hstop : f k s = (.stop r, t)) : retry f n s = ((k + 1, some r), t) := by
  obtain ⟨m, rfl⟩ := Nat.exists_eq_add_of_lt hk
  rw [retry, Nat.add_assoc, retryFrom_add fun j hj => by rw [Nat.zero_add]; exact hbefore j hj,
    Nat.zero_add, retryFrom, hstop]

theorem again_or_first (p : ℕ → Prop) (n : ℕ) :
    (∀ j < n, p j) ∨ ∃ k < n, (∀ j < k, p j) ∧ ¬ p k := by
  induction n with
  | zero => exact .inl fun j hj => absurd hj (Nat.not_lt_zero j)
  | succ n ih =>
    rcases ih with hall | ⟨k, hk, hfirst⟩
    · by_cases hn : p n
      · exact .inl fun j hj => (Nat.lt_succ_iff_lt_or_eq.1 hj).elim (hall j) fun heq => heq ▸ hn
      · exact .inr ⟨n, Nat.lt_succ_self n, hall, hn⟩
    · exact .inr ⟨k, hk.trans (Nat.lt_succ_self n), hfirst⟩

theorem first_unique {p : ℕ → Prop} {i j : ℕ} (hi : ∀ l < i, p l) (hj : ∀ l < j, p l)
    (hni : ¬ p i) (hnj : ¬ p j) : i = j := by
  rcases Nat.lt_trichotomy i j with h | h | h
  · exact absurd (hj i h) hni
  · exact h
  · exact absurd (hi j h) hnj

end Vmwgfx.BoundedRetries
