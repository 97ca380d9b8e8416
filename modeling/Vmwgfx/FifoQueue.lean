import Vmwgfx.FifoSafety

set_option autoImplicit false

/-!
# The FIFO as a byte queue

What the device has read followed by what it will find up to `nextCmd` is all that
was committed, in order. A commit does not move `nextCmd` when the word was written
in place and the device cannot reserve, and such a word is lost.
-/
namespace Vmwgfx.FifoQueue
open Word32 LabelledRuns RingSpan FifoMachine FifoSpace FifoCalls FifoSafety

/-- The ring holds the committed data that has not been consumed. -/
def Refines (s : Fifo) : Prop :=
  s.consumed ++ contents s.min s.max s.mem s.stop s.nextCmd = s.committed

theorem init_refines (w : Window) (reserveable : Bool) (mem static : ℕ → UInt8) :
    Refines (vmwFifoInit w reserveable mem static) := by
  simp [Refines, vmwFifoInit, contents, RingSpan.dist]

theorem step_refines {s t : Fifo} {a : Act} (h : Inv s) (hq : Refines s) (ha : Publishes s a)
    (hs : step s a = some t) : Refines t := by
  obtain ⟨_, data, hr, hc⟩ := (step_advances h hs).ring
  have hqueue : queue s = s.committed := hq
  calc queue t = queue s ++ data := hr.queue_eq
    _ = s.committed ++ data := by rw [hqueue]
    _ = t.committed := (hc ha).symm

/-- In every run whose commits publish, the FIFO is a queue of the committed bytes. -/
theorem publishing_runs_refine {w : Window} {reserveable : Bool} {mem static : ℕ → UInt8}
    {as : List Act} {s : Fifo}
    (h : Runs step Publishes (vmwFifoInit w reserveable mem static) as s) : Refines s := by
  have hi : Inv s ∧ Refines s := h.invariant (fun s => Inv s ∧ Refines s)
    ⟨init_inv w reserveable mem static, init_refines w reserveable mem static⟩
    fun _ _ _ hi ha hs => ⟨step_inv hi.1 hs, step_refines hi.1 hi.2 ha hs⟩
  exact hi.2

/-- Two words pass through the bounce buffer of a device that cannot reserve. -/
theorem bounced_words_refine : ∃ s,
    Runs step Publishes (vmwFifoInit twoPages false (fun _ => 0) (fun _ => 0))
        [.reserve 8 (2 ^ 32 - 1) [0] none [], .store 0 7 [], .commit 8 [2], .device 3] s ∧
      Refines s ∧ s.committed = [7, 0, 0, 0, 0, 0, 0, 0] := by
  have h : Runs step Publishes (vmwFifoInit twoPages false (fun _ => 0) (fun _ => 0))
      [.reserve 8 (2 ^ 32 - 1) [0] none [], .store 0 7 [], .commit 8 [2], .device 3] _ :=
    .next trivial rfl (.next trivial rfl (.next (.inl rfl) rfl (.next trivial rfl (.refl _))))
  exact ⟨_, h, publishing_runs_refine h, rfl⟩

/-- One word, reserved in place on a device that cannot reserve, is never seen. -/
theorem single_word_is_lost :
    ¬ ∀ (w : Window) (reserveable : Bool) (mem static : ℕ → UInt8) (as : List Act) (s : Fifo),
      Runs step anyLabel (vmwFifoInit w reserveable mem static) as s → Refines s := by
  intro h
  have hr : Runs step anyLabel (vmwFifoInit twoPages false (fun _ => 0) (fun _ => 0))
      [.reserve 4 (2 ^ 32 - 1) [0] none [], .store 0 7 [], .commit 4 []] _ := runs_of_exec rfl
  have hq := congrArg List.length (h _ _ _ _ _ _ hr)
  exact absurd hq (by decide)

end Vmwgfx.FifoQueue
