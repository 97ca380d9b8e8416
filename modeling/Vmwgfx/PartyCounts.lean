import Mathlib.Tactic

set_option autoImplicit false

/-!
# How many parties are in a kind of phase

Parties that change their phases one at a time. Only finitely many of them are in a phase of the
kind that is counted.
-/
namespace Vmwgfx.PartyCounts

variable {π Φ : Type*} {kind : Φ → Bool} {phase : π → Φ} {p q : π} {x : Φ}

def party (kind : Φ → Bool) (phase : π → Φ) : Set π := {p | kind (phase p) = true}

noncomputable def count (kind : Φ → Bool) (phase : π → Φ) : ℕ := (party kind phase).ncard

theorem mem_party : p ∈ party kind phase ↔ kind (phase p) = true := Iff.rfl

theorem count_pos (hfin : (party kind phase).Finite) (hp : kind (phase p) = true) :
    0 < count kind phase := (Set.ncard_pos hfin).2 ⟨p, hp⟩

theorem one_lt_count (hfin : (party kind phase).Finite) (hp : kind (phase p) = true)
    (hq : kind (phase q) = true) (hpq : p ≠ q) : 1 < count kind phase :=
  (Set.one_lt_ncard hfin).2 ⟨p, hp, q, hq, hpq⟩

section Update
variable [DecidableEq π]

theorem party_same (h : kind x = kind (phase p)) :
    party kind (Function.update phase p x) = party kind phase := by
  ext q
  by_cases hq : q = p
  · subst hq
    rw [mem_party, Function.update_self, h, mem_party]
  · rw [mem_party, Function.update_of_ne hq, mem_party]

theorem party_enter (hx : kind x = true) :
    party kind (Function.update phase p x) = insert p (party kind phase) := by
  ext q
  by_cases hq : q = p
  · subst hq
    simp [mem_party, hx]
  · simp [mem_party, hq]

theorem party_leave (hx : kind x = false) :
    party kind (Function.update phase p x) = party kind phase \ {p} := by
  ext q
  by_cases hq : q = p
  · subst hq
    simp [mem_party, hx]
  · simp [mem_party, hq]

theorem party_finite (h : (party kind phase).Finite) (p : π) (x : Φ) :
    (party kind (Function.update phase p x)).Finite := by
  refine (h.insert p).subset fun q hq => ?_
  by_cases hqp : q = p
  · exact .inl hqp
  · rw [mem_party, Function.update_of_ne hqp] at hq
    exact .inr hq

theorem count_same (h : kind x = kind (phase p)) :
    count kind (Function.update phase p x) = count kind phase := by
  rw [count, party_same h, count]

theorem count_enter (hfin : (party kind phase).Finite) (hp : kind (phase p) = false)
    (hx : kind x = true) : count kind (Function.update phase p x) = count kind phase + 1 := by
  have hno : p ∉ party kind phase := by simp [mem_party, hp]
  rw [count, party_enter hx, Set.ncard_insert_of_notMem hno hfin, count]

theorem count_leave (hfin : (party kind phase).Finite) (hp : kind (phase p) = true)
    (hx : kind x = false) : count kind (Function.update phase p x) + 1 = count kind phase := by
  rw [count, party_leave hx, Set.ncard_sdiff_singleton_add_one (mem_party.2 hp) hfin, count]

end Update

end Vmwgfx.PartyCounts
