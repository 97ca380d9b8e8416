import Mathlib.Data.DFinsupp.WellFounded
import Mathlib.Tactic

set_option autoImplicit false

/-!
# Parties that wait for one another

Every party has a rank. Where a party that is stuck waits only for parties of a higher rank, as
far as those are stuck too, a chain of waiting parties has an end. Where a step of a party takes
from its own work and adds only to the work of parties of a higher rank, the steps end.
-/
namespace Vmwgfx.WaitOrder
open Relation

section Chains
variable {π : Type*} {waits : π → π → Prop} {stuck : π → Prop} {rank : π → ℕ} {n : ℕ}

theorem chain_end (hbound : ∀ p, rank p ≤ n) (hwaits : ∀ p, stuck p → ∃ q, waits p q)
    (hrank : ∀ p q, waits p q → stuck q → rank p < rank q) {p : π} (hp : stuck p) :
    ∃ q, TransGen waits p q ∧ ¬ stuck q := by
  -- the induction is on what is left above the rank
  induction hk : n - rank p using Nat.strong_induction_on generalizing p with
  | _ k ih =>
    obtain ⟨q, hq⟩ := hwaits p hp
    by_cases hstuck : stuck q
    · have hlt := hrank p q hq hstuck
      have hle := hbound q
      obtain ⟨r, hr, hfree⟩ := ih (n - rank q) (by omega) hstuck rfl
      exact ⟨r, .head hq hr, hfree⟩
    · exact ⟨q, .single hq, hstuck⟩

theorem chain_rank (hstuck : ∀ p q, waits p q → stuck p)
    (hrank : ∀ p q, waits p q → stuck q → rank p < rank q) {p q : π} (h : TransGen waits p q)
    (hq : stuck q) : rank p < rank q := by
  induction h with
  | single h => exact hrank _ _ h hq
  | tail _ h ih => exact (ih (hstuck _ _ h)).trans (hrank _ _ h hq)

theorem no_cycle (hstuck : ∀ p q, waits p q → stuck p)
    (hrank : ∀ p q, waits p q → stuck q → rank p < rank q) (p : π) : ¬ TransGen waits p p := by
  intro h
  have hp : stuck p := by
    obtain ⟨q, hq, -⟩ := TransGen.head'_iff.1 h
    exact hstuck p q hq
  exact lt_irrefl _ (chain_rank hstuck hrank h hp)

end Chains

section Work
variable {σ π : Type*} {step : σ → π → σ → Prop} {I : σ → Prop} {parties : Finset π} {n : ℕ}
  {rank : π → ℕ} {work : σ → π → ℕ}

def workAt (parties : Finset π) (rank : π → ℕ) (work : σ → π → ℕ) (n : ℕ) (s : σ) :
    Fin (n + 1) → ℕ :=
  fun k => ∑ p ∈ parties with rank p = k, work s p

theorem workAt_lt {s t : σ} {p : π} (hp : p ∈ parties) (hn : rank p ≤ n)
    (hless : work t p < work s p)
    (hkept : ∀ q ∈ parties, q ≠ p → rank q ≤ rank p → work t q = work s q) :
    Pi.Lex (· < ·) (· < ·) (workAt parties rank work n t) (workAt parties rank work n s) := by
  refine ⟨⟨rank p, by omega⟩, fun k hk => ?_, ?_⟩
  · refine Finset.sum_congr rfl fun q hq => ?_
    rw [Finset.mem_filter] at hq
    have hlt : rank q < rank p := by
      rw [hq.2]
      exact hk
    refine hkept q hq.1 ?_ hlt.le
    rintro rfl
    exact lt_irrefl _ hlt
  · refine Finset.sum_lt_sum (fun q hq => ?_) ⟨p, Finset.mem_filter.2 ⟨hp, rfl⟩, hless⟩
    rw [Finset.mem_filter] at hq
    by_cases hqp : q = p
    · subst hqp
      exact hless.le
    · exact (hkept q hq.1 hqp hq.2.le).le

variable (step I parties n rank work) in
theorem steps_end (hinv : ∀ s p t, I s → step s p t → I t)
    (hp : ∀ s p t, I s → step s p t → p ∈ parties) (hn : ∀ p ∈ parties, rank p ≤ n)
    (hless : ∀ s p t, I s → step s p t → work t p < work s p)
    (hkept : ∀ s p t, I s → step s p t →
      ∀ q ∈ parties, q ≠ p → rank q ≤ rank p → work t q = work s q)
    {f : ℕ → σ} (h0 : I (f 0)) : ∃ k, ¬ ∃ p, step (f k) p (f (k + 1)) := by
  by_contra hall
  push Not at hall
  have hI : ∀ k, I (f k) := by
    intro k
    induction k with
    | zero => exact h0
    | succ k ih =>
      obtain ⟨p, hs⟩ := hall k
      exact hinv _ p _ ih hs
  have hwf : WellFounded (Pi.Lex (· < ·) (fun {_} => (· < ·)) :
      (Fin (n + 1) → ℕ) → (Fin (n + 1) → ℕ) → Prop) :=
    Pi.Lex.wellFounded _ fun _ => wellFounded_lt
  refine (wellFounded_iff_isEmpty_descending_chain.1 hwf).false
    ⟨fun k => workAt parties rank work n (f k), fun k => ?_⟩
  obtain ⟨p, hs⟩ := hall k
  have hmem := hp _ p _ (hI k) hs
  exact workAt_lt hmem (hn p hmem) (hless _ p _ (hI k) hs) (hkept _ p _ (hI k) hs)

end Work

end Vmwgfx.WaitOrder
