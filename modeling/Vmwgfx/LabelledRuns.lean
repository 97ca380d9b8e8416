import Mathlib.Tactic

set_option autoImplicit false

/-!
# Runs of a partial step function

A step is taken only in a state that admits its label; `admits` carries the
conditions under which a result about runs is claimed.
-/
namespace Vmwgfx.LabelledRuns

variable {σ α : Type*} {step : σ → α → Option σ} {admits : σ → α → Prop}

inductive Runs (step : σ → α → Option σ) (admits : σ → α → Prop) : σ → List α → σ → Prop where
  | refl (s : σ) : Runs step admits s [] s
  | next {s u v : σ} {a : α} {as : List α} (ok : admits s a) (h : step s a = some u)
      (tail : Runs step admits u as v) : Runs step admits s (a :: as) v

def anyLabel (_ : σ) (_ : α) : Prop := True

theorem Runs.trans {s u v : σ} {as bs : List α} (h : Runs step admits s as u)
    (h' : Runs step admits u bs v) : Runs step admits s (as ++ bs) v := by
  induction h with
  | refl _ => exact h'
  | next ok hs _ ih => exact .next ok hs (ih h')

theorem Runs.invariant {s v : σ} {as : List α} (I : σ → Prop) (h : Runs step admits s as v)
    (hs : I s) (hp : ∀ s a u, I s → admits s a → step s a = some u → I u) : I v := by
  induction h with
  | refl _ => exact hs
  | next ok h _ ih => exact ih (hp _ _ _ hs ok h)

theorem Runs.weaken {admits' : σ → α → Prop} {s v : σ} {as : List α}
    (h : Runs step admits s as v) (hw : ∀ s a, admits s a → admits' s a) :
    Runs step admits' s as v := by
  induction h with
  | refl _ => exact .refl _
  | next ok hs _ ih => exact .next (hw _ _ ok) hs ih

theorem Runs.restrict {p : α → Prop} {s v : σ} {as : List α} (h : Runs step admits s as v)
    (hp : ∀ a ∈ as, p a) : Runs step (fun _ a => p a) s as v := by
  induction h with
  | refl _ => exact .refl _
  | next _ hs _ ih =>
    exact .next (hp _ List.mem_cons_self) hs (ih fun b hb => hp b (List.mem_cons_of_mem _ hb))

def exec (step : σ → α → Option σ) (s : σ) : List α → Option σ
  | [] => some s
  | a :: as => (step s a).bind fun u => exec step u as

theorem Runs.of_exec {s v : σ} {as : List α} (ha : ∀ a ∈ as, ∀ s, admits s a)
    (h : exec step s as = some v) : Runs step admits s as v := by
  induction as generalizing s with
  | nil => simp only [exec, Option.some.injEq] at h; subst h; exact .refl _
  | cons a as ih =>
    simp only [exec, Option.bind_eq_some_iff] at h
    obtain ⟨u, hu, hr⟩ := h
    exact .next (ha a (by simp) s) hu (ih (fun b hb => ha b (List.mem_cons_of_mem a hb)) hr)

theorem runs_of_exec {s v : σ} {as : List α} (h : exec step s as = some v) :
    Runs step anyLabel s as v := Runs.of_exec (fun _ _ _ => trivial) h

theorem runs_getD {s d : σ} {as : List α} (h : (exec step s as).isSome = true) :
    Runs step anyLabel s as ((exec step s as).getD d) := by
  obtain ⟨v, hv⟩ := Option.isSome_iff_exists.1 h
  rw [hv]
  exact runs_of_exec hv

section Admitted
variable [∀ s a, Decidable (admits s a)]

def execAdmitted (step : σ → α → Option σ) (admits : σ → α → Prop) [∀ s a, Decidable (admits s a)]
    (s : σ) (as : List α) : Option σ := exec (fun s a => if admits s a then step s a else none) s as

theorem runs_of_execAdmitted {s v : σ} {as : List α} (h : execAdmitted step admits s as = some v) :
    Runs step admits s as v := by
  unfold execAdmitted at h
  induction as generalizing s with
  | nil => simp only [exec, Option.some.injEq] at h; subst h; exact .refl _
  | cons a as ih =>
    simp only [exec, Option.bind_eq_some_iff, Option.ite_none_right_eq_some] at h
    obtain ⟨u, ⟨ok, hu⟩, hr⟩ := h
    exact .next ok hu (ih hr)

theorem runs_admitted_getD {s d : σ} {as : List α}
    (h : (execAdmitted step admits s as).isSome = true) :
    Runs step admits s as ((execAdmitted step admits s as).getD d) := by
  obtain ⟨v, hv⟩ := Option.isSome_iff_exists.1 h
  rw [hv]
  exact runs_of_execAdmitted hv

end Admitted

end Vmwgfx.LabelledRuns
