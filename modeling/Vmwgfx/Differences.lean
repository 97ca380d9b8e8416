import Mathlib.Tactic

set_option autoImplicit false

/-!
# Where two sequences differ

The first and the last place where two sequences differ, at a resolution: a grain of `g`
elements differs when one of them does.
-/
namespace Vmwgfx.Differences

variable {α : Type*} {a b : ℕ → α} {lo hi mid n m g k r q : ℕ}

/-- The sequences agree from `lo` up to `hi`. -/
def Alike (a b : ℕ → α) (lo hi : ℕ) : Prop := ∀ i, lo ≤ i → i < hi → a i = b i

instance [DecidableEq α] : Decidable (Alike a b lo hi) :=
  inferInstanceAs (Decidable (∀ i, lo ≤ i → i < hi → a i = b i))

theorem alike_of_le (h : hi ≤ lo) : Alike a b lo hi := by
  intro i hlo hhi
  omega

theorem Alike.mono {lo' hi' : ℕ} (h : Alike a b lo hi) (hlo : lo ≤ lo') (hhi : hi' ≤ hi) :
    Alike a b lo' hi' :=
  fun i hi₁ hi₂ => h i (by omega) (by omega)

theorem Alike.join (h : Alike a b lo mid) (h' : Alike a b mid hi) : Alike a b lo hi := by
  intro i hlo hhi
  by_cases hi' : i < mid
  · exact h i hlo hi'
  · exact h' i (by omega) hhi

theorem alike_shift :
    Alike (fun i => a (k + i)) (fun i => b (k + i)) lo hi ↔ Alike a b (k + lo) (k + hi) := by
  constructor
  · intro h i hlo hhi
    have := h (i - k) (by omega) (by omega)
    simpa only [show k + (i - k) = i by omega] using this
  · intro h i hlo hhi
    exact h (k + i) (by omega) (by omega)

theorem add_le_of_dvd (hr : g ∣ r) (hq : g ∣ q) (h : r < q) : r + g ≤ q := by
  have hle := Nat.le_of_dvd (by omega) (Nat.dvd_sub hq hr)
  omega

/-- `r` is where the first differing grain below `n` begins, or `n`. -/
structure FirstGrain (a b : ℕ → α) (n g r : ℕ) : Prop where
  grain : g ∣ r
  inside : r ≤ n
  before : Alike a b 0 r
  here : r < n → ¬ Alike a b r (r + g)

/-- `q` is where the last differing grain below `n` begins. -/
structure LastGrain (a b : ℕ → α) (n g q : ℕ) : Prop where
  grain : g ∣ q
  inside : q + g ≤ n
  here : ¬ Alike a b q (q + g)
  after : Alike a b (q + g) n

theorem FirstGrain.shift (hk : Alike a b 0 k) (hg : g ∣ k)
    (h : FirstGrain (fun i => a (k + i)) (fun i => b (k + i)) n g r) :
    FirstGrain a b (k + n) g (k + r) where
  grain := dvd_add hg h.grain
  inside := by
    have := h.inside
    omega
  before := hk.join (by simpa using alike_shift.1 h.before)
  here := by
    intro hr hsame
    apply h.here (by omega)
    exact alike_shift.2 (by rwa [← add_assoc])

theorem FirstGrain.extend (h : FirstGrain a b m g r) (hr : r < m) (hm : m ≤ n) :
    FirstGrain a b n g r where
  grain := h.grain
  inside := h.inside.trans hm
  before := h.before
  here := fun _ => h.here hr

theorem FirstGrain.unique {r' : ℕ} (h : FirstGrain a b n g r) (h' : FirstGrain a b n g r') :
    r = r' := by
  have hle : ∀ {s t : ℕ}, FirstGrain a b n g s → FirstGrain a b n g t → t ≤ s := by
    intro s t hs ht
    by_contra hlt
    have hst : s < t := not_le.1 hlt
    have hin := ht.inside
    apply hs.here (by omega)
    exact ht.before.mono (Nat.zero_le s) (add_le_of_dvd hs.grain ht.grain hst)
  exact le_antisymm (hle h' h) (hle h h')

theorem FirstGrain.alike (h : FirstGrain a b n g r) (hr : n ≤ r) : Alike a b 0 n :=
  h.before.mono le_rfl hr

theorem firstGrain_of_alike (h : Alike a b 0 n) (hn : g ∣ n) : FirstGrain a b n g n :=
  ⟨hn, le_rfl, h, fun hlt => absurd hlt (lt_irrefl n)⟩

theorem FirstGrain.coarsen (h : FirstGrain a b n 1 r) (hg : 0 < g) (hn : g ∣ n) :
    FirstGrain a b n g (r / g * g) where
  grain := dvd_mul_left g _
  inside := (Nat.div_mul_le_self r g).trans h.inside
  before := h.before.mono le_rfl (Nat.div_mul_le_self r g)
  here := by
    intro hlt hsame
    have hr : r < n := by
      refine lt_of_le_of_ne h.inside ?_
      intro he
      rw [he, Nat.div_mul_cancel hn] at hlt
      exact lt_irrefl n hlt
    have hend : r < r / g * g + g := by
      have := Nat.lt_div_mul_add (a := r) hg
      omega
    exact h.here hr (hsame.mono (Nat.div_mul_le_self r g) hend)

theorem FirstGrain.eq_of_first {i : ℕ} (h : FirstGrain a b n g r) (hg : 0 < g) (hn : g ∣ n)
    (hi : i < n) (hne : a i ≠ b i) (hbefore : ∀ j < i, a j = b j) : r = i / g * g := by
  have hfirst : FirstGrain a b n 1 i := by
    refine ⟨one_dvd i, hi.le, fun j _ hj => hbefore j hj, fun _ hsame => ?_⟩
    exact hne (hsame i le_rfl (Nat.lt_succ_self i))
  exact h.unique (hfirst.coarsen hg hn)

theorem FirstGrain.end_iff (h : FirstGrain a b n g r) (hn : g ∣ n) :
    n ≤ r ↔ ∀ i < n, a i = b i := by
  constructor
  · intro hr i hi
    exact h.alike hr i (Nat.zero_le i) hi
  · intro hall
    have hsame : Alike a b 0 n := fun i _ hi => hall i hi
    exact (h.unique (firstGrain_of_alike hsame hn)).ge

theorem LastGrain.shift (hg : g ∣ k)
    (h : LastGrain (fun i => a (k + i)) (fun i => b (k + i)) n g q) :
    LastGrain a b (k + n) g (k + q) where
  grain := dvd_add hg h.grain
  inside := by
    have := h.inside
    omega
  here := by
    intro hsame
    apply h.here
    exact alike_shift.2 (by rwa [← add_assoc])
  after := by
    have := alike_shift.1 h.after
    rwa [← add_assoc] at this

theorem LastGrain.extend (h : LastGrain a b m g q) (hm : m ≤ n) (hrest : Alike a b m n) :
    LastGrain a b n g q where
  grain := h.grain
  inside := h.inside.trans hm
  here := h.here
  after := h.after.join hrest

theorem LastGrain.coarsen (h : LastGrain a b n 1 q) (hg : 0 < g) (hn : g ∣ n) :
    LastGrain a b n g (q / g * g) := by
  have hend : q < q / g * g + g := by
    have := Nat.lt_div_mul_add (a := q) hg
    omega
  have hinside : q / g * g + g ≤ n := by
    have hlt : q < n := by
      have := h.inside
      omega
    have hq : q / g < n / g := Nat.div_lt_div_of_lt_of_dvd hn hlt
    calc q / g * g + g = (q / g + 1) * g := by ring
      _ ≤ n / g * g := Nat.mul_le_mul_right g hq
      _ = n := Nat.div_mul_cancel hn
  refine ⟨dvd_mul_left g _, hinside, ?_, h.after.mono hend le_rfl⟩
  intro hsame
  exact h.here (hsame.mono (Nat.div_mul_le_self q g) hend)

end Vmwgfx.Differences
