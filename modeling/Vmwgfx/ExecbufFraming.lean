import Vmwgfx.ExecbufFields

set_option autoImplicit false

/-!
# Command boundaries

The boundaries that `vmw_cmd_check_all` walks are compared with those of the device, which
adds the sizes without a wrap. A size that wraps to zero keeps the loop at one command; one
that wraps to a few bytes leads to an id that no command has, unless the buffer ends there.
-/
namespace Vmwgfx.ExecbufFraming
open Word32 ByteStore FailingState LabelledRuns ExecbufState ExecbufHandlers ExecbufVerifier
  ExecbufTrail ExecbufFields

variable {σ : Type} {K : Kernel σ} {s t : SwContext σ}

section Device

/-- The bytes of the command at `a`; ids below `SVGA_CMD_MAX` have fixed sizes. -/
def deviceSize (mem : Memory) (a : ℤ) : Option ℕ :=
  if svgaCmdMax ≤ word mem a then some (8 + word mem (a + 4)) else not3dSize (word mem a)

/-- The `n` bytes from `a` are complete commands of the given sizes. -/
inductive Framed (mem : Memory) : ℤ → ℕ → List ℕ → Prop where
  | done (a : ℤ) : Framed mem a 0 []
  | next {a : ℤ} {n k : ℕ} {ks : List ℕ} (size : deviceSize mem a = some k) (fits : k ≤ n)
      (tail : Framed mem (a + k) (n - k) ks) : Framed mem a n (k :: ks)

/-- The device comes from `a` with `n` bytes left to `b` with `m` bytes left. -/
inductive Reaches (mem : Memory) : ℤ → ℕ → ℤ → ℕ → Prop where
  | refl (a : ℤ) (n : ℕ) : Reaches mem a n a n
  | next {a b : ℤ} {n m k : ℕ} (size : deviceSize mem a = some k) (fits : k ≤ n)
      (tail : Reaches mem (a + k) (n - k) b m) : Reaches mem a n b m

/-- No boundary has fewer bytes left than a command header. -/
def NoShortTail (mem : Memory) (a : ℤ) (n : ℕ) : Prop :=
  ∀ b m, Reaches mem a n b m → m = 0 ∨ 8 ≤ m

variable {mem : Memory} {a b : ℤ} {n m k : ℕ} {ks : List ℕ}

theorem not3dSize_ge {id : ℕ} (h : not3dSize id = some k) : 20 ≤ k := by
  unfold not3dSize at h
  split at h <;> simp at h <;> omega

theorem deviceSize_ge (h : deviceSize mem a = some k) : 8 ≤ k := by
  unfold deviceSize at h
  split at h
  · simp only [Option.some.injEq] at h
    omega
  · have := not3dSize_ge h
    omega

theorem Framed.noShortTail (h : Framed mem a n ks) : NoShortTail mem a n := by
  intro b m hr
  induction hr generalizing ks with
  | refl a n =>
    cases h with
    | done => exact .inl rfl
    | next size fits _ =>
      have := deviceSize_ge size
      omega
  | next size fits _ ih =>
    cases h with
    | done =>
      have := deviceSize_ge size
      omega
    | next size' _ tail =>
      rw [size] at size'
      cases size'
      exact ih tail

theorem NoShortTail.next (h : NoShortTail mem a n) (size : deviceSize mem a = some k)
    (fits : k ≤ n) : NoShortTail mem (a + k) (n - k) := fun b m hr => h b m (.next size fits hr)

end Device

section Accepted

theorem cmdEntry_id {id : ℕ} {e : CmdEntry} (h : cmdEntry id = some e) :
    e.func = .dma → id = 1044 := by
  have hmem := List.mem_of_find?_eq_some h
  have hid : e.id = id := by simpa using List.find?_some h
  have hdma : ∀ e ∈ vmwCmdEntries, e.func = .dma → e.id = 1044 := by decide +kernel
  intro hf
  rw [← hid]
  exact hdma e hmem hf

structure Accepted3d (K : Kernel σ) (buf : ℤ) (s t : SwContext σ) (e : CmdEntry) : Prop where
  id : svga3dCmdBase ≤ word s.mem buf ∧ word s.mem buf < svga3dCmdMax
  entry : cmdEntry (word s.mem buf) = some e
  run : e.func.run K buf s = (.ok (), t)

theorem runEntry_ok {func : Handler} {buf : ℤ} (h : runEntry K func buf s = (.ok (), t)) :
    func.run K buf s = (.ok (), t) := by
  obtain ⟨r, u, hr, h⟩ := bind_ok.1 h
  unfold retOf at hr
  rcases hm : func.run K buf s with ⟨(e | a), v⟩
  · rw [hm] at hr
    cases e <;> simp only [Prod.mk.injEq, reduceCtorEq, false_and, Except.ok.injEq] at hr
    rw [← hr.1] at h
    exact absurd h stop_ok
  · rw [hm] at hr
    simp only [Prod.mk.injEq, Except.ok.injEq] at hr
    rw [← hr.1] at h
    obtain ⟨-, rfl⟩ := pure_ok.1 h
    rw [hr.2]

theorem vmwCmdCheck_ok {buf : ℤ} {rem size : ℕ} (h : vmwCmdCheck K buf rem s = (.ok size, t)) :
    size ≤ rem ∧
    ((word s.mem buf < svgaCmdMax ∧ not3dSize (word s.mem buf) = some size ∧ Quiet s t) ∨
      (svgaCmdMax ≤ word s.mem buf ∧ size = addU32 (word s.mem (buf + 4)) 8 ∧
        ∃ e, Accepted3d K buf s t e)) := by
  obtain ⟨id, _, h₁, h⟩ := bind_ok.1 h
  obtain ⟨rfl, rfl⟩ := rd_ok.1 h₁
  by_cases hid : word s.mem buf < svgaCmdMax
  · rw [if_pos hid] at h
    obtain ⟨id, _, h₁, h⟩ := bind_ok.1 h
    obtain ⟨rfl, rfl⟩ := rd_ok.1 h₁
    obtain ⟨n, u, h₂, h⟩ := bind_ok.1 h
    obtain ⟨hn, rfl⟩ : not3dSize (word s.mem buf) = some n ∧ s = u := by
      cases hsize : not3dSize (word s.mem buf) with
      | none =>
        rw [hsize] at h₂
        exact absurd h₂ stop_ok
      | some m =>
        rw [hsize] at h₂
        obtain ⟨rfl, rfl⟩ := pure_ok.1 h₂
        exact ⟨rfl, rfl⟩
    obtain ⟨hle, h⟩ := require_bind_ok.1 h
    obtain ⟨kernel, _, h₃, h⟩ := bind_ok.1 h
    obtain ⟨-, rfl⟩ := inspect_ok.1 h₃
    obtain ⟨-, h⟩ := require_bind_ok.1 h
    obtain ⟨_, u, h₄, h⟩ := bind_ok.1 h
    obtain ⟨rfl, rfl⟩ := pure_ok.1 h
    have hgmrfb : Keeps Quiet anyStop (vmwCmdCheckDefineGmrfb K buf) :=
      (vmwTranslateGuestPtr_quiet _).bind fun _ => keeps_pure _
    exact ⟨by simpa using hle, .inl ⟨hid, hn, (hgmrfb.runIf _).ok h₄⟩⟩
  · rw [if_neg hid] at h
    obtain ⟨hs, _, h₁, h⟩ := bind_ok.1 h
    obtain ⟨rfl, rfl⟩ := rd_ok.1 h₁
    obtain ⟨hle, h⟩ := require_bind_ok.1 h
    obtain ⟨hrange, h⟩ := require_bind_ok.1 h
    obtain ⟨e, u, h₂, h⟩ := bind_ok.1 h
    obtain ⟨he, rfl⟩ : cmdEntry (word s.mem buf) = some e ∧ s = u := by
      cases hentry : cmdEntry (word s.mem buf) with
      | none =>
        rw [hentry] at h₂
        exact absurd h₂ stop_ok
      | some m =>
        rw [hentry] at h₂
        obtain ⟨rfl, rfl⟩ := pure_ok.1 h₂
        exact ⟨rfl, rfl⟩
    obtain ⟨kernel, _, h₃, h⟩ := bind_ok.1 h
    obtain ⟨-, rfl⟩ := inspect_ok.1 h₃
    obtain ⟨-, h⟩ := require_bind_ok.1 h
    obtain ⟨-, h⟩ := require_bind_ok.1 h
    obtain ⟨-, h⟩ := require_bind_ok.1 h
    obtain ⟨_, u, hrun, h⟩ := bind_ok.1 h
    obtain ⟨rfl, rfl⟩ := pure_ok.1 h
    have hlt := word_lt s.mem buf
    refine ⟨by simpa using hle, .inr ⟨by omega, rfl, e, ⟨?_, he, runEntry_ok hrun⟩⟩⟩
    have hrange := of_decide_eq_true hrange
    simp only [subU32, svga3dCmdBase, svga3dCmdMax] at hrange ⊢
    omega

end Accepted

section Boundaries
variable {buf : ℤ} {rem size : ℕ}

theorem Accepted3d.frame {e : CmdEntry} (h : Accepted3d K buf s t e) : Frame buf s t :=
  (run_marks (fun hf => cmdEntry_id h.entry hf) h.run).2

theorem Accepted3d.size_unchanged {e : CmdEntry} (h : Accepted3d K buf s t e) :
    word t.mem (buf + 4) = word s.mem (buf + 4) := by
  refine word_congr fun b hb hb' => ?_
  by_contra hne
  have := h.frame.bytes b hne
  omega

theorem vmwCmdCheck_device (h : vmwCmdCheck K buf rem s = (.ok size, t))
    (hwrap : svgaCmdMax ≤ word s.mem buf → word s.mem (buf + 4) < 2 ^ 32 - 8) :
    deviceSize s.mem buf = some size ∧ ∀ b, buf + size ≤ b → t.mem b = s.mem b := by
  obtain ⟨-, ⟨hid, hsize, hquiet⟩ | ⟨hid, hsize, e, hacc⟩⟩ := vmwCmdCheck_ok h
  · refine ⟨by rw [deviceSize, if_neg (by omega), hsize], fun b _ => by rw [hquiet.mem]⟩
  · have hlt := hwrap hid
    rw [addU32_of_lt (by omega)] at hsize
    subst hsize
    refine ⟨by rw [deviceSize, if_pos hid, add_comm], fun b hb => ?_⟩
    by_contra hne
    have := hacc.frame.bytes b hne
    push_cast at hb
    omega

theorem wrapped_next {m : Memory} {k : ℕ} (hk : 0 < k) (hk' : k < 8)
    (h : word m (buf + 4) = 2 ^ 32 - 8 + k) :
    svgaCmdMax ≤ word m (buf + k) ∧
      ¬ (svga3dCmdBase ≤ word m (buf + k) ∧ word m (buf + k) < svga3dCmdMax) := by
  obtain ⟨g, hg⟩ : ∃ g : ℤ → ℕ, ∀ i, g i = (m (buf + i)).toNat := ⟨_, fun _ => rfl⟩
  have hlt : ∀ i, g i < 256 := fun i => hg i ▸ (m (buf + i)).toNat_lt
  have hword : ∀ i, word m (buf + i) =
      g i + 2 ^ 8 * g (i + 1) + 2 ^ 16 * g (i + 2) + 2 ^ 24 * g (i + 3) := by
    intro i
    rw [hg, hg, hg, hg, ← add_assoc buf, ← add_assoc buf, ← add_assoc buf]
    rfl
  rw [hword] at h
  rw [hword]
  have h₄ := hlt 4
  have h₅ := hlt 5
  have h₆ := hlt 6
  have h₇ := hlt 7
  unfold svgaCmdMax svga3dCmdBase svga3dCmdMax
  interval_cases k <;> norm_num at h ⊢ <;> omega

theorem vmwCmdCheck_wrapped_next {k : ℕ} (hk : 0 < k) (hk' : k < 8)
    (h : word s.mem (buf + 4) = 2 ^ 32 - 8 + k) :
    ¬ vmwCmdCheck K (buf + k) rem s = (.ok size, t) := by
  intro hok
  obtain ⟨hmax, hrange⟩ := wrapped_next hk hk' h
  obtain ⟨-, ⟨hid, -⟩ | ⟨-, -, e, hacc⟩⟩ := vmwCmdCheck_ok hok
  · omega
  · exact hrange hacc.id

theorem checkLoop_stuck (fuel : ℕ) {cur : ℤ} (hcur : 0 < cur) (hid : svgaCmdMax ≤ word s.mem buf)
    (hsize : word s.mem (buf + 4) = 2 ^ 32 - 8) (hbig : cur < 2 ^ 31) {sizes : List ℕ} :
    ¬ checkLoop K fuel buf cur s = (.ok (some sizes), t) := by
  induction fuel generalizing s t sizes with
  | zero =>
    unfold checkLoop
    rw [if_pos hcur]
    intro h
    simpa using (pure_ok.1 h).1
  | succ fuel ih =>
    unfold checkLoop
    rw [if_pos hcur]
    intro h
    obtain ⟨k, u, h₁, h⟩ := bind_ok.1 h
    obtain ⟨rest, v, h₂, h⟩ := bind_ok.1 h
    obtain ⟨hrest, rfl⟩ := pure_ok.1 h
    obtain ⟨l, rfl, -⟩ := Option.map_eq_some_iff.1 hrest
    obtain ⟨-, ⟨hid', -⟩ | ⟨-, hk, e, hacc⟩⟩ := vmwCmdCheck_ok h₁
    · omega
    · obtain rfl : k = 0 := by
        rw [hk, hsize]
        rfl
      have hbmod : Int.bmod (cur - (0 : ℕ)) (2 ^ 32) = cur := by
        rw [Int.bmod_eq_of_le] <;> push_cast <;> omega
      rw [hbmod, Nat.cast_zero, add_zero] at h₂
      refine ih ?_ ?_ h₂
      · exact hacc.frame.id (fun _ => by rw [hsize]; norm_num) hid
      · rw [hacc.size_unchanged, hsize]

end Boundaries

section Loop
variable {buf : ℤ} {cur fuel : ℕ} {sizes : List ℕ} {mem : Memory}

theorem bmod_sub {k : ℕ} (hk : k ≤ cur) (hbig : cur < 2 ^ 31) :
    Int.bmod ((cur : ℤ) - k) (2 ^ 32) = ((cur - k : ℕ) : ℤ) := by
  rw [Int.bmod_eq_of_le] <;> push_cast [hk] <;> omega

/-- A loop that ends with success: it is at the end of the buffer, or one command is
    accepted and the loop goes on behind it. -/
theorem checkLoop_ok (hbig : cur < 2 ^ 31)
    (h : checkLoop K fuel buf cur s = (.ok (some sizes), t)) :
    (cur = 0 ∧ sizes = [] ∧ s = t) ∨
    ∃ fuel' k u ks, fuel = fuel' + 1 ∧ 0 < cur ∧ k ≤ cur ∧ sizes = k :: ks ∧
      vmwCmdCheck K buf cur s = (.ok k, u) ∧
      checkLoop K fuel' (buf + k) ((cur - k : ℕ) : ℤ) u = (.ok (some ks), t) := by
  cases fuel with
  | zero =>
    unfold checkLoop at h
    split_ifs at h with h₁ h₂
    · have := (pure_ok.1 h).1
      simp at this
    · obtain ⟨hs, rfl⟩ := pure_ok.1 h
      exact .inl ⟨by omega, by simpa using hs.symm, rfl⟩
    · exact absurd h stop_ok
  | succ fuel =>
    unfold checkLoop at h
    split_ifs at h with h₁ h₂
    · obtain ⟨k, u, hcheck, h⟩ := bind_ok.1 h
      obtain ⟨rest, v, hloop, h⟩ := bind_ok.1 h
      obtain ⟨hrest, rfl⟩ := pure_ok.1 h
      obtain ⟨ks, rfl, rfl⟩ := Option.map_eq_some_iff.1 hrest
      rw [Int.toNat_natCast] at hcheck
      have hk := (vmwCmdCheck_ok hcheck).1
      rw [bmod_sub hk hbig] at hloop
      exact .inr ⟨fuel, k, u, ks, rfl, by omega, hk, rfl, hcheck, hloop⟩
    · obtain ⟨hs, rfl⟩ := pure_ok.1 h
      exact .inl ⟨by omega, by simpa using hs.symm, rfl⟩
    · exact absurd h stop_ok

/-- The commands that a loop accepts, one after the other, up to the end of the buffer. -/
inductive Accepted (K : Kernel σ) (t : SwContext σ) :
    ℤ → ℕ → SwContext σ → List ℕ → Prop
  | done (buf : ℤ) : Accepted K t buf 0 t []
  | next {buf : ℤ} {cur fuel k : ℕ} {s u : SwContext σ} {ks : List ℕ} (hcur : 0 < cur)
      (hk : k ≤ cur) (hcheck : vmwCmdCheck K buf cur s = (.ok k, u))
      (hloop : checkLoop K fuel (buf + k) ((cur - k : ℕ) : ℤ) u = (.ok (some ks), t))
      (hrest : Accepted K t (buf + k) (cur - k) u ks) : Accepted K t buf cur s (k :: ks)

theorem checkLoop_accepted (hbig : cur < 2 ^ 31)
    (h : checkLoop K fuel buf cur s = (.ok (some sizes), t)) : Accepted K t buf cur s sizes := by
  induction fuel generalizing buf cur s sizes with
  | zero =>
    rcases checkLoop_ok hbig h with ⟨rfl, rfl, rfl⟩ | ⟨_, _, _, _, hfuel, -⟩
    · exact .done buf
    · omega
  | succ fuel ih =>
    rcases checkLoop_ok hbig h with
      ⟨rfl, rfl, rfl⟩ | ⟨_, k, u, ks, hfuel, hcur, hk, rfl, hcheck, hloop⟩
    · exact .done buf
    · cases hfuel
      exact .next hcur hk hcheck hloop (ih (by omega) hloop)

theorem wrapped_last {k : ℕ} {u : SwContext σ} (hcur : 0 < cur) (hbig : cur < 2 ^ 31)
    (hcheck : vmwCmdCheck K buf cur s = (.ok k, u))
    (hloop : checkLoop K fuel (buf + k) ((cur - k : ℕ) : ℤ) u = (.ok (some sizes), t))
    (hid : svgaCmdMax ≤ word s.mem buf) (hwrap : 2 ^ 32 - 8 ≤ word s.mem (buf + 4)) :
    cur = k ∧ 0 < k ∧ k < 8 := by
  have hlt := word_lt s.mem (buf + 4)
  obtain ⟨hk, ⟨hid', -⟩ | ⟨-, hsize, e, hacc⟩⟩ := vmwCmdCheck_ok hcheck
  · omega
  · unfold addU32 at hsize
    have hword : word u.mem (buf + 4) = 2 ^ 32 - 8 + k := by
      rw [hacc.size_unchanged]
      omega
    rcases Nat.eq_zero_or_pos k with rfl | hpos
    · refine absurd hloop (checkLoop_stuck _ (by omega) ?_ ?_ (by omega))
      · rw [Nat.cast_zero, add_zero]
        exact hacc.frame.id (fun _ => by omega) hid
      · rw [Nat.cast_zero, add_zero]
        exact hword
    · refine ⟨?_, hpos, by omega⟩
      rcases checkLoop_ok (by omega) hloop with ⟨hzero, -⟩ | ⟨_, _, _, _, -, -, -, -, hnext, -⟩
      · omega
      · exact absurd hnext (vmwCmdCheck_wrapped_next hpos (by omega) hword)

theorem accepted_device {k : ℕ} {u : SwContext σ} (hcur : 0 < cur) (hbig : cur < 2 ^ 31)
    (hagree : ∀ b, buf ≤ b → s.mem b = mem b) (htail : NoShortTail mem buf cur)
    (hcheck : vmwCmdCheck K buf cur s = (.ok k, u))
    (hloop : checkLoop K fuel (buf + k) ((cur - k : ℕ) : ℤ) u = (.ok (some sizes), t)) :
    deviceSize mem buf = some k ∧ ∀ b, buf + k ≤ b → u.mem b = mem b := by
  have hdev := vmwCmdCheck_device hcheck fun hid => by
    by_contra hwrap
    have hlast := wrapped_last hcur hbig hcheck hloop hid (by omega)
    have := htail buf cur (.refl _ _)
    omega
  have hword : ∀ a, buf ≤ a → word s.mem a = word mem a := fun a ha =>
    word_congr fun b hb _ => hagree b (by omega)
  refine ⟨?_, fun b hb => ?_⟩
  · rw [← hdev.1, deviceSize, deviceSize, hword buf le_rfl, hword (buf + 4) (by omega)]
  · rw [hdev.2 b hb, hagree b (by omega)]

theorem Accepted.framed (h : Accepted K t buf cur s sizes) (hbig : cur < 2 ^ 31)
    (hagree : ∀ b, buf ≤ b → s.mem b = mem b) (htail : NoShortTail mem buf cur) :
    Framed mem buf cur sizes := by
  induction h with
  | done buf => exact .done buf
  | next hcur hk hcheck hloop _ ih =>
    obtain ⟨hsize, hrest⟩ := accepted_device hcur hbig hagree htail hcheck hloop
    exact .next hsize hk (ih (by omega) hrest (htail.next hsize hk))

/-- No command on the way is a DMA without a body, whose suffix would be its own header. -/
def NoEmptyDma (mem : Memory) (a : ℤ) (n : ℕ) : Prop :=
  ∀ b m, Reaches mem a n b m → 0 < m → word mem b = 1044 → word mem (b + 4) ≠ 0

theorem Accepted.before (h : Accepted K t buf cur s sizes) : ∀ b < buf, t.mem b = s.mem b := by
  induction h with
  | done => exact fun _ _ => rfl
  | next _ _ hcheck _ _ ih =>
    intro b hb
    rw [ih b (by omega)]
    obtain ⟨-, ⟨-, -, hquiet⟩ | ⟨-, -, e, hacc⟩⟩ := vmwCmdCheck_ok hcheck
    · rw [hquiet.mem]
    · by_contra hne
      have := hacc.frame.bytes b hne
      omega

theorem deviceSize_left {k : ℕ} {u : SwContext σ} (hcheck : vmwCmdCheck K buf cur s = (.ok k, u))
    (hdma : word s.mem buf = 1044 → word s.mem (buf + 4) ≠ 0)
    (hsize : deviceSize s.mem buf = some k) : deviceSize u.mem buf = some k := by
  obtain ⟨-, ⟨hid, -, hquiet⟩ | ⟨hid, -, e, hacc⟩⟩ := vmwCmdCheck_ok hcheck
  · rw [hquiet.mem, hsize]
  · rw [deviceSize, if_pos (hacc.frame.id hdma hid), hacc.size_unchanged, ← hsize, deviceSize,
      if_pos hid]

theorem Accepted.framed_left (h : Accepted K t buf cur s sizes) (hbig : cur < 2 ^ 31)
    (hagree : ∀ b, buf ≤ b → s.mem b = mem b) (htail : NoShortTail mem buf cur)
    (hdma : NoEmptyDma mem buf cur) : Framed t.mem buf cur sizes := by
  induction h with
  | done buf => exact .done buf
  | @next buf cur fuel k s u ks hcur hk hcheck hloop hleft ih =>
    obtain ⟨hsize, hrest⟩ := accepted_device hcur hbig hagree htail hcheck hloop
    have hword : ∀ a, buf ≤ a → word s.mem a = word mem a := fun a ha =>
      word_congr fun b hb _ => hagree b (by omega)
    have hu : deviceSize u.mem buf = some k := by
      refine deviceSize_left hcheck ?_ ?_
      · rw [hword buf le_rfl, hword (buf + 4) (by omega)]
        exact hdma buf cur (.refl _ _) hcur
      · rw [← hsize, deviceSize, deviceSize, hword buf le_rfl, hword (buf + 4) (by omega)]
    have hk' := deviceSize_ge hu
    have ht : ∀ a, a + 4 ≤ buf + k → word t.mem a = word u.mem a := fun a ha =>
      word_congr fun b _ hb => hleft.before b (by omega)
    refine .next ?_ hk (ih (by omega) hrest (htail.next hsize hk) ?_)
    · rw [← hu, deviceSize, deviceSize, ht buf (by omega), ht (buf + 4) (by omega)]
    · exact fun b m hr => hdma b m (.next hsize hk hr)

theorem vmwCmdCheckAll_size {size : ℕ} (hsize : size < 2 ^ 32)
    (h : vmwCmdCheckAll K fuel size s = (.ok (some sizes), t)) :
    size < 2 ^ 31 ∧ checkLoop K fuel 0 size s = (.ok (some sizes), t) := by
  unfold vmwCmdCheckAll at h
  by_cases hbig : size < 2 ^ 31
  · rw [Int.bmod_eq_of_le (by omega) (by omega)] at h
    exact ⟨hbig, h⟩
  · have hneg : Int.bmod size (2 ^ 32) < 0 := by
      rw [Int.bmod_def, Int.emod_eq_of_lt (by omega) (by omega), if_neg (by omega)]
      omega
    unfold checkLoop at h
    cases fuel with
    | zero =>
      simp only [if_neg (by omega : ¬ 0 < Int.bmod size (2 ^ 32)),
        if_neg (by omega : ¬ Int.bmod size (2 ^ 32) = 0)] at h
      exact absurd h stop_ok
    | succ fuel =>
      simp only [if_neg (by omega : ¬ 0 < Int.bmod size (2 ^ 32)),
        if_neg (by omega : ¬ Int.bmod size (2 ^ 32) = 0)] at h
      exact absurd h stop_ok

/-- An accepted buffer consists of complete commands exactly if no boundary of the device
    has fewer bytes left than a header. Then the buffer as the verifier leaves it has the
    same boundaries too, unless an empty DMA had its header overwritten. -/
theorem vmwCmdCheckAll_framed {size : ℕ} (hsize : size < 2 ^ 32)
    (h : vmwCmdCheckAll K fuel size s = (.ok (some sizes), t)) :
    (Framed s.mem 0 size sizes ↔ NoShortTail s.mem 0 size) ∧
    (NoShortTail s.mem 0 size → NoEmptyDma s.mem 0 size → Framed t.mem 0 size sizes) := by
  obtain ⟨hbig, h⟩ := vmwCmdCheckAll_size hsize h
  refine ⟨⟨Framed.noShortTail, fun htail => ?_⟩, fun htail hdma => ?_⟩
  · exact (checkLoop_accepted hbig h).framed hbig (fun _ _ => rfl) htail
  · exact (checkLoop_accepted hbig h).framed_left hbig (fun _ _ => rfl) htail hdma

/-- A NOP without a body. -/
theorem nop_framed : ∃ t,
    vmwCmdCheckAll (sampleKernel true) 1 8 (sampleContext [1119, 0] true) = (.ok (some [8]), t) ∧
    (Framed (ofWords [1119, 0]) 0 8 [8] ↔ NoShortTail (ofWords [1119, 0]) 0 8) ∧
    (NoShortTail (ofWords [1119, 0]) 0 8 → NoEmptyDma (ofWords [1119, 0]) 0 8 →
      Framed t.mem 0 8 [8]) := by
  have h : vmwCmdCheckAll (sampleKernel true) 1 8 (sampleContext [1119, 0] true) =
      (.ok (some [8]), sampleContext [1119, 0] true) := rfl
  exact ⟨_, h, vmwCmdCheckAll_framed (by norm_num) h⟩

/-- A NOP of four bytes; what follows the buffer in memory makes its size wrap. -/
def shortNop : SwContext Bool := sampleContext [1119, 2 ^ 32 - 4] true

theorem shortNop_not_framed : (∃ t,
    vmwCmdCheckAll (sampleKernel true) 1 4 shortNop = (.ok (some [4]), t)) ∧
    ¬ Framed shortNop.mem 0 4 [4] := by
  refine ⟨⟨_, rfl⟩, fun h => ?_⟩
  have := h.noShortTail 0 4 (.refl _ _)
  omega

end Loop

section Termination

theorem pass_some {l l' : Loop σ} {k : ℕ} (h : pass K l k = some l') :
    0 < l.curSize ∧ ∃ t, vmwCmdCheck K l.buf l.curSize.toNat l.sw = (.ok k, t) ∧
      l' = ⟨l.buf + k, Int.bmod (l.curSize - k) (2 ^ 32), t⟩ := by
  unfold ExecbufVerifier.pass at h
  split_ifs at h with hpos
  rcases hr : vmwCmdCheck K l.buf l.curSize.toNat l.sw with ⟨_ | written, t⟩
  · rw [hr] at h
    cases h
  · rw [hr] at h
    simp only at h
    split_ifs at h with hk
    subst hk
    exact ⟨hpos, t, rfl, (Option.some.inj h).symm⟩

theorem pass_of_ok {l : Loop σ} {k : ℕ} {t : SwContext σ} (hpos : 0 < l.curSize)
    (h : vmwCmdCheck K l.buf l.curSize.toNat l.sw = (.ok k, t)) :
    pass K l k = some ⟨l.buf + k, Int.bmod (l.curSize - k) (2 ^ 32), t⟩ := by
  rw [ExecbufVerifier.pass, if_pos hpos, h]
  exact if_pos rfl

/-- The size of the command at the cursor wraps to less than four bytes. -/
def Wraps (l : Loop σ) : Prop :=
  svgaCmdMax ≤ word l.sw.mem l.buf ∧ 2 ^ 32 - 8 ≤ word l.sw.mem (l.buf + 4) ∧
    word l.sw.mem (l.buf + 4) < 2 ^ 32 - 4

theorem pass_decreases_iff {l l' : Loop σ} {k : ℕ} (h : pass K l k = some l') :
    (4 ≤ k ∧ (k : ℤ) ≤ l.curSize) ↔ ¬ Wraps l := by
  obtain ⟨hpos, t, hcheck, -⟩ := pass_some h
  have hlt := word_lt l.sw.mem (l.buf + 4)
  unfold Wraps
  obtain ⟨hk, ⟨hid, hsize, -⟩ | ⟨hid, hsize, -⟩⟩ := vmwCmdCheck_ok hcheck
  · have := not3dSize_ge hsize
    omega
  · unfold addU32 at hsize
    omega

/-- Every pass that can be reached and does not return an error meets `P`. -/
def EveryPass (K : Kernel σ) (l : Loop σ) (P : Loop σ → ℕ → Prop) : Prop :=
  ∀ as m k m', Runs (pass K) anyLabel l as m → pass K m k = some m' → P m k

theorem everyPass_single {l l' : Loop σ} {k : ℕ} {P : Loop σ → ℕ → Prop}
    (h : pass K l k = some l') (hend : l'.curSize ≤ 0) (hP : P l k) : EveryPass K l P := by
  have hfirst : ∀ k' m, pass K l k' = some m → k' = k ∧ m = l' := by
    intro k' m hm
    obtain ⟨-, t, ht, hl⟩ := pass_some h
    obtain ⟨-, t', ht', hm'⟩ := pass_some hm
    rw [ht] at ht'
    cases ht'
    exact ⟨rfl, hm'.trans hl.symm⟩
  intro as m k' m' hruns hm
  cases hruns with
  | refl => exact (hfirst k' m' hm).1 ▸ hP
  | next _ hstep tail =>
    obtain ⟨rfl, rfl⟩ := hfirst _ _ hstep
    cases tail with
    | refl =>
      have := (pass_some hm).1
      omega
    | next _ hstep' _ =>
      have := (pass_some hstep').1
      omega

theorem checkLoop_ends (fuel : ℕ) {buf cur : ℤ} (hfuel : cur ≤ fuel) (hbig : cur < 2 ^ 31)
    (h : EveryPass K ⟨buf, cur, s⟩ fun m _ => ¬ Wraps m) :
    (checkLoop K fuel buf cur s).1 ≠ .ok none := by
  induction fuel generalizing buf cur s with
  | zero =>
    unfold checkLoop
    rw [if_neg (by omega)]
    split_ifs
    · simp [pure, Run.result]
    · simp [fail, stop]
  | succ fuel ih =>
    unfold checkLoop
    split_ifs with hpos hzero
    · intro hnone
      rcases hr : vmwCmdCheck K buf cur.toNat s with ⟨_ | k, u⟩
      · simp [bind, Run.andThen, hr] at hnone
      · have hpass := pass_of_ok (K := K) (l := ⟨buf, cur, s⟩) hpos hr
        have hk := (pass_decreases_iff hpass).2 (h [] _ k _ (.refl _) hpass)
        have hbmod : Int.bmod (cur - k) (2 ^ 32) = cur - k := by
          have : (k : ℤ) ≤ cur := hk.2
          exact Int.bmod_eq_of_le (by omega) (by omega)
        rw [hbmod] at hpass
        have htail : EveryPass K ⟨buf + k, cur - k, u⟩ fun m _ => ¬ Wraps m :=
          fun as m k' m' hruns hp => h (k :: as) m k' m' (.next trivial hpass hruns) hp
        refine ih (by omega) (by omega) htail ?_
        simp only [bind, Run.andThen, hr, hbmod] at hnone
        rcases hl : checkLoop K fuel (buf + k) (cur - k) u with ⟨_ | o, v⟩
        · simp [hl] at hnone
        · cases o
          · rfl
          · simp [hl, pure, Run.result] at hnone
    · simp [pure, Run.result]
    · simp [fail, stop]

/-- The loop comes to its end, with every pass taking at least four of the bytes that are
    left, exactly if no pass meets a size that wraps to less. -/
theorem vmwCmdCheckAll_terminates_iff (K : Kernel σ) (size : ℕ) (s : SwContext σ) :
    ((∃ fuel, (vmwCmdCheckAll K fuel size s).1 ≠ .ok none) ∧
      EveryPass K (start size s) fun l k => 4 ≤ k ∧ (k : ℤ) ≤ l.curSize) ↔
    EveryPass K (start size s) fun l _ => ¬ Wraps l := by
  constructor
  · rintro ⟨-, hdec⟩ as l k l' hruns hpass
    exact (pass_decreases_iff hpass).1 (hdec as l k l' hruns hpass)
  · intro hwrap
    refine ⟨⟨(Int.bmod size (2 ^ 32)).toNat, ?_⟩, fun as l k l' hruns hpass => ?_⟩
    · refine checkLoop_ends _ (Int.self_le_toNat _) ?_ hwrap
      exact Int.bmod_lt (x := size) (m := 2 ^ 32) (by norm_num)
    · exact (pass_decreases_iff hpass).2 (hwrap as l k l' hruns hpass)

def endlessNop : SwContext Bool := sampleContext [1119, 2 ^ 32 - 8] true

theorem endlessNop_runs (fuel : ℕ) :
    checkLoop (sampleKernel true) fuel 0 8 endlessNop = (.ok none, endlessNop) := by
  induction fuel with
  | zero => rfl
  | succ fuel ih =>
    unfold checkLoop
    rw [if_pos (by norm_num)]
    have hcheck : vmwCmdCheck (sampleKernel true) 0 8 endlessNop = (.ok 0, endlessNop) :=
      ok_of_toOption (by decide +kernel)
    exact bind_ok.2 ⟨0, endlessNop, hcheck, bind_ok.2 ⟨none, endlessNop, ih, rfl⟩⟩

theorem endlessNop_not_terminates :
    ¬ ((∃ fuel, (vmwCmdCheckAll (sampleKernel true) fuel 8 endlessNop).1 ≠ .ok none) ∧
      EveryPass (sampleKernel true) (start 8 endlessNop) fun l k =>
        4 ≤ k ∧ (k : ℤ) ≤ l.curSize) := by
  rintro ⟨⟨fuel, hfuel⟩, -⟩
  refine hfuel ?_
  change (checkLoop (sampleKernel true) fuel 0 8 endlessNop).1 = .ok none
  rw [endlessNop_runs]

end Termination

end Vmwgfx.ExecbufFraming
