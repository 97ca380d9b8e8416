import Vmwgfx.ExecbufFraming

set_option autoImplicit false

/-!
# Describing a command

`vmw_cmd_describe` decodes the headers that `vmw_cmd_check` decodes. It compares the id with
the end of the table before it subtracts the base and does not look whether the entry it
finds is filled in.
-/
namespace Vmwgfx.ExecbufDescribe
open Word32 ByteStore ExecbufState ExecbufVerifier ExecbufFraming

/-- The ids of the command table and of the commands outside the 3D protocol. -/
def Defined (id : ℕ) : Prop := (not3dSize id).isSome = true ∨ (cmdEntry id).isSome = true

/-- The ids between the two protocols and those of empty table entries. -/
def Gap (id : ℕ) : Prop :=
  svgaCmdMax ≤ id ∧ id < svga3dCmdMax ∧ (cmdEntry id).isSome = false

variable {σ : Type} {K : Kernel σ} {mem : Memory} {buf : ℤ}

/-- `vmw_cmd_describe` stays in the table, describes every command that `vmw_cmd_check`
    accepts with the size that is written back, and describes no other id than the defined
    ones. -/
structure Agrees (K : Kernel σ) (mem : Memory) (buf : ℤ) : Prop where
  inTable : vmwCmdDescribe mem buf ≠ none
  sameSize : ∀ (rem size : ℕ) (s t : SwContext σ), s.mem = mem →
    vmwCmdCheck K buf rem s = (.ok size, t) →
    ∃ name, vmwCmdDescribe mem buf = some (true, size, name)
  defined : ∀ (size : ℕ) (name : String), vmwCmdDescribe mem buf = some (true, size, name) →
    Defined (word mem buf)

theorem cmdEntry_range {id : ℕ} (h : (cmdEntry id).isSome = true) :
    svga3dCmdBase ≤ id ∧ id < svga3dCmdMax := by
  have hall : ∀ e ∈ vmwCmdEntries, svga3dCmdBase ≤ e.id ∧ e.id < svga3dCmdMax := by
    decide +kernel
  obtain ⟨e, he⟩ := Option.isSome_iff_exists.1 h
  have hmem := List.mem_of_find?_eq_some he
  have hid : e.id = id := by simpa using List.find?_some he
  rw [← hid]
  exact hall e hmem

theorem describe_not3d (h : word mem buf < svgaCmdMax) :
    ∃ name, vmwCmdDescribe mem buf =
      some ((not3dSize (word mem buf)).isSome, (not3dSize (word mem buf)).getD 0, name) := by
  unfold vmwCmdDescribe
  dsimp only
  rw [if_neg (by omega)]
  unfold not3dSize
  split <;> exact ⟨_, rfl⟩

theorem describe_3d (h : svga3dCmdBase ≤ word mem buf) (h' : word mem buf < svga3dCmdMax) :
    ∃ name, vmwCmdDescribe mem buf = some (true, addU32 (word mem (buf + 4)) 8, name) := by
  have hindex : subU32 (word mem buf) svga3dCmdBase < svga3dCmdMax := by
    rw [subU32_of_le h (word_lt mem buf)]
    omega
  have hmax : svgaCmdMax ≤ svga3dCmdBase := by decide
  unfold vmwCmdDescribe
  dsimp only
  rw [if_pos (hmax.trans h), if_neg (by omega), if_pos hindex]
  exact ⟨_, rfl⟩

theorem describe_above (h : svga3dCmdMax ≤ word mem buf) :
    vmwCmdDescribe mem buf = some (false, addU32 (word mem (buf + 4)) 8, "") := by
  have hmax : svgaCmdMax ≤ svga3dCmdMax := by decide
  unfold vmwCmdDescribe
  dsimp only
  rw [if_pos (hmax.trans h), if_pos h]

theorem describe_between (h : svgaCmdMax ≤ word mem buf) (h' : word mem buf < svga3dCmdBase) :
    vmwCmdDescribe mem buf = none := by
  have hindex : ¬ subU32 (word mem buf) svga3dCmdBase < svga3dCmdMax := by
    unfold subU32 svga3dCmdBase svga3dCmdMax at *
    omega
  have hmax : svga3dCmdBase ≤ svga3dCmdMax := by decide
  unfold vmwCmdDescribe
  dsimp only
  rw [if_pos h, if_neg (by omega), if_neg hindex]

theorem describe_accepted {rem size : ℕ} {s t : SwContext σ}
    (h : vmwCmdCheck K buf rem s = (.ok size, t)) :
    ∃ name, vmwCmdDescribe s.mem buf = some (true, size, name) := by
  obtain ⟨-, ⟨hid, hsize, -⟩ | ⟨-, hsize, e, hacc⟩⟩ := vmwCmdCheck_ok h
  · obtain ⟨name, hd⟩ := describe_not3d hid
    rw [hsize] at hd
    exact ⟨name, hd⟩
  · obtain ⟨name, hd⟩ := describe_3d hacc.id.1 hacc.id.2
    rw [← hsize] at hd
    exact ⟨name, hd⟩

theorem describe_defined {size : ℕ} {name : String} (hgap : ¬ Gap (word mem buf))
    (h : vmwCmdDescribe mem buf = some (true, size, name)) : Defined (word mem buf) := by
  by_cases hlow : word mem buf < svgaCmdMax
  · obtain ⟨name', hd⟩ := describe_not3d hlow
    rw [h, Option.some.injEq, Prod.mk.injEq] at hd
    exact .inl hd.1.symm
  · by_cases hhigh : svga3dCmdMax ≤ word mem buf
    · rw [describe_above hhigh] at h
      simp at h
    · refine .inr ?_
      by_contra hnone
      exact hgap ⟨not_lt.1 hlow, not_le.1 hhigh, by simpa using hnone⟩

/-- The two decoders agree outside the gaps of the command numbers, and only there. -/
theorem describe_agrees_iff (K : Kernel σ) (mem : Memory) (buf : ℤ) :
    Agrees K mem buf ↔ ¬ Gap (word mem buf) := by
  constructor
  · intro h hgap
    obtain ⟨hlow, hhigh, hnone⟩ := hgap
    by_cases hbase : word mem buf < svga3dCmdBase
    · exact h.inTable (describe_between hlow hbase)
    · obtain ⟨name, hd⟩ := describe_3d (not_lt.1 hbase) hhigh
      rcases h.defined _ _ hd with hnot3d | hentry
      · have hsmall : not3dSize (word mem buf) = none := by
          unfold not3dSize
          unfold svgaCmdMax at hlow
          split <;> first | omega | rfl
        rw [hsmall] at hnot3d
        cases hnot3d
      · rw [hnone] at hentry
        cases hentry
  · intro hgap
    refine ⟨fun hd => ?_, fun rem size s t hs hok => ?_, fun size name => describe_defined hgap⟩
    · by_cases hlow : word mem buf < svgaCmdMax
      · obtain ⟨name, hsome⟩ := describe_not3d hlow
        rw [hd] at hsome
        cases hsome
      · by_cases hhigh : svga3dCmdMax ≤ word mem buf
        · rw [describe_above hhigh] at hd
          cases hd
        · have hentry : (cmdEntry (word mem buf)).isSome = true := by
            by_contra hnone
            exact hgap ⟨not_lt.1 hlow, not_le.1 hhigh, by simpa using hnone⟩
          obtain ⟨name, hsome⟩ := describe_3d (cmdEntry_range hentry).1 (cmdEntry_range hentry).2
          rw [hd] at hsome
          cases hsome
    · rw [← hs]
      exact describe_accepted hok

/-- A command number between the two protocols. -/
theorem unknown_disagrees : ¬ Agrees (sampleKernel true) (ofWords [47, 0]) 0 := by
  intro h
  exact h.inTable (by decide)

end Vmwgfx.ExecbufDescribe
