import Vmwgfx.MobTranslation

set_option autoImplicit false

/-!
# The commands that bind a GMR

`vmw_gmr2_bind` of `vmwgfx_gmr.c`, word by word. The FIFO space is reserved for a size that is
computed beforehand; the commands are split so that each has a bounded number of entries.
-/
namespace Vmwgfx.GmrBinding
open ExecbufState (Errno)
open TtmBuffer

section Commands
variable (c : Config)

/-- `VMW_PPN_PER_REMAP`. -/
def ppnPerRemap : ℕ := 31 * 1024 / c.ppnSize

/-- `SVGA_CMD_DEFINE_GMR2` and `SVGA_CMD_REMAP_GMR2`. -/
def svgaCmdDefineGmr2 : ℕ := 41
def svgaCmdRemapGmr2 : ℕ := 42

/-- `SVGA_REMAP_GMR2_PPN64` or `SVGA_REMAP_GMR2_PPN32`. -/
def remapFlags : ℕ := if c.is64 then 2 else 0

/-- `sizeof(define_cmd) + sizeof(*cmd)` and `sizeof(remap_cmd) + sizeof(*cmd)`. -/
def defineSize : ℕ := 12
def remapHeaderSize : ℕ := 20

/-- `cmd_size`, which is computed in words of 32 bits. -/
def cmdSize (numPages : ℕ) : ℕ :=
  let remapNum := (numPages / ppnPerRemap c + if 0 < numPages % ppnPerRemap c then 1 else 0) % 2 ^ 32
  let remapSize := (c.ppnSize * numPages + remapHeaderSize * remapNum) % 2 ^ 32
  (defineSize + remapSize) % 2 ^ 32

def entryWords (frame : ℕ) : List ℕ :=
  if c.is64 then [frame % 2 ^ 32, frame / 2 ^ 32 % 2 ^ 32] else [frame % 2 ^ 32]

/-- The inner loop: `nr` entries from page `i` on. -/
def writeEntries (addr : ℕ → ℕ) : ℕ → ℕ → List ℕ → List ℕ
  | 0, _, cmd => cmd
  | nr + 1, i, cmd => writeEntries addr nr (i + 1) (cmd ++ entryWords c (addr i / pageSize))

/-- The loop over the commands, for at most the given number of passes; `i` is the page of the
    iterator. -/
def remapLoop (addr : ℕ → ℕ) (gmrId : ℕ) : ℕ → ℕ → ℕ → ℕ → List ℕ → Option (List ℕ)
  | 0, numPages, _, _, cmd => if numPages = 0 then some cmd else none
  | left + 1, numPages, remapPos, i, cmd =>
    if numPages = 0 then some cmd
    else
      let nr := min numPages (ppnPerRemap c)
      let cmd := cmd ++ [svgaCmdRemapGmr2, gmrId, remapFlags c, remapPos, nr % 2 ^ 32]
      remapLoop addr gmrId left (numPages - nr) ((remapPos + nr) % 2 ^ 32) (i + nr)
        (writeEntries c addr nr i cmd)

/-- `vmw_gmr2_bind`: what it returns, and the words that it commits. There is no result where the
    `BUG_ON` fails. -/
def vmwGmr2Bind (space : Bool) (addr : ℕ → ℕ) (numPages : ℕ) (gmrId : ℤ) :
    Option (Except Errno (List ℕ)) :=
  if !space then some (.error .enomem)
  else
    let id := (gmrId % 2 ^ 32).toNat
    let define := [svgaCmdDefineGmr2, id, numPages % 2 ^ 32]
    (remapLoop c addr id numPages numPages 0 0 define).bind fun cmd =>
      if cmd.length = cmdSize c numPages / 4 then some (.ok cmd) else none

end Commands

/-- A `REMAP_GMR2` command with the frame numbers of its entries. -/
structure Remap where
  offsetPages : ℕ
  numPages : ℕ
  frames : List ℕ

section Remaps
variable (c : Config)

def Remap.words (gmrId : ℕ) (r : Remap) : List ℕ :=
  [svgaCmdRemapGmr2, gmrId, remapFlags c, r.offsetPages, r.numPages] ++
    r.frames.flatMap (entryWords c)

structure Remap.Sized (r : Remap) : Prop where
  some : 0 < r.numPages
  few : r.numPages ≤ ppnPerRemap c
  entries : r.frames.length = r.numPages

/-- The ranges of the commands follow one another from `start` to `stop`. -/
def Consecutive : ℕ → ℕ → List Remap → Prop
  | start, stop, [] => start = stop
  | start, stop, r :: rs => r.offsetPages = start ∧ Consecutive (start + r.numPages) stop rs

def readEntry : List ℕ → ℕ
  | [low, high] => low + 2 ^ 32 * high
  | ws => ws.headD 0

end Remaps

variable {c : Config} {addr : ℕ → ℕ} {n i pos gmrId : ℕ}

theorem ppnPerRemap_cases (c : Config) :
    c.ppnSize = 8 ∧ ppnPerRemap c = 3968 ∧ c.is64 = true ∨
      c.ppnSize = 4 ∧ ppnPerRemap c = 7936 ∧ c.is64 = false := by
  unfold ppnPerRemap Config.ppnSize
  cases c.is64 <;> simp

theorem entryWords_length (c : Config) (frame : ℕ) :
    4 * (entryWords c frame).length = c.ppnSize := by
  unfold entryWords Config.ppnSize
  cases c.is64 <;> rfl

theorem readEntry_entryWords {frame : ℕ} (h : frame < 2 ^ (8 * c.ppnSize)) :
    readEntry (entryWords c frame) = frame := by
  unfold entryWords
  unfold Config.ppnSize at h
  cases hw : c.is64 with
  | true =>
    rw [hw] at h
    simp only [if_true, readEntry] at h ⊢
    omega
  | false =>
    rw [hw] at h
    simp only [Bool.false_eq_true, if_false, readEntry, List.headD_cons] at h ⊢
    omega

theorem writeEntries_eq (c : Config) (addr : ℕ → ℕ) (nr i : ℕ) (cmd : List ℕ) :
    writeEntries c addr nr i cmd =
      cmd ++ ((List.range nr).map fun k => addr (i + k) / pageSize).flatMap (entryWords c) := by
  induction nr generalizing i cmd with
  | zero => simp [writeEntries]
  | succ nr ih =>
    have hshift : ((List.range nr).map fun k => addr (i + (k + 1)) / pageSize) =
        (List.range nr).map fun k => addr (i + 1 + k) / pageSize :=
      List.map_congr_left fun k _ => by rw [add_assoc, add_comm 1 k]
    rw [writeEntries, ih, List.range_succ_eq_map, List.map_cons, List.map_map, List.flatMap_cons,
      List.append_assoc]
    simp only [Function.comp_def, Nat.succ_eq_add_one, hshift, add_zero]

/-- The commands for `n` pages. -/
structure Remaps (c : Config) (addr : ℕ → ℕ) (pos i n : ℕ) (rs : List Remap) : Prop where
  consecutive : Consecutive pos (pos + n) rs
  sized : ∀ r ∈ rs, r.Sized c
  frames : rs.flatMap Remap.frames = (List.range n).map fun k => addr (i + k) / pageSize
  number : rs.length = n / ppnPerRemap c + if 0 < n % ppnPerRemap c then 1 else 0

theorem Remaps.nil : Remaps c addr pos i 0 [] where
  consecutive := rfl
  sized _ hr := by cases hr
  frames := rfl
  number := by simp

theorem Remaps.cons {nr : ℕ} {rs : List Remap} (hnr : nr = min n (ppnPerRemap c)) (hn : 0 < n)
    (h : Remaps c addr (pos + nr) (i + nr) (n - nr) rs) :
    Remaps c addr pos i n
      (⟨pos, nr, (List.range nr).map fun k => addr (i + k) / pageSize⟩ :: rs) where
  consecutive := by
    refine ⟨rfl, ?_⟩
    have hstop : pos + nr + (n - nr) = pos + n := by omega
    rw [← hstop]
    exact h.consecutive
  sized r hr := by
    rcases List.mem_cons.1 hr with rfl | hr
    · have hpos : 0 < ppnPerRemap c := by
        rcases ppnPerRemap_cases c with ⟨-, h, -⟩ | ⟨-, h, -⟩ <;> omega
      refine ⟨?_, ?_, by simp⟩
      · change 0 < nr
        omega
      · change nr ≤ ppnPerRemap c
        omega
    · exact h.sized r hr
  frames := by
    have hsplit : n = nr + (n - nr) := by omega
    rw [List.flatMap_cons, h.frames]
    conv_rhs => rw [hsplit, List.range_add, List.map_append, List.map_map]
    simp only [Function.comp_def, add_assoc]
  number := by
    rw [List.length_cons, h.number]
    rcases ppnPerRemap_cases c with ⟨-, h, -⟩ | ⟨-, h, -⟩ <;> rw [h] at hnr ⊢ <;>
      split_ifs <;> omega

theorem remapLoop_spec (c : Config) (addr : ℕ → ℕ) (gmrId left n pos i : ℕ) (cmd : List ℕ)
    (hleft : n ≤ left) (hword : pos + n < 2 ^ 32) :
    ∃ rs, remapLoop c addr gmrId left n pos i cmd =
        some (cmd ++ rs.flatMap (Remap.words c gmrId)) ∧ Remaps c addr pos i n rs := by
  induction left generalizing n pos i cmd with
  | zero =>
    obtain rfl : n = 0 := by omega
    exact ⟨[], by simp [remapLoop], Remaps.nil⟩
  | succ left ih =>
    unfold remapLoop
    by_cases hn : n = 0
    · rw [if_pos hn, hn]
      exact ⟨[], by simp, Remaps.nil⟩
    · rw [if_neg hn]
      have hpos : 0 < ppnPerRemap c := by
        rcases ppnPerRemap_cases c with ⟨-, h, -⟩ | ⟨-, h, -⟩ <;> omega
      generalize hnr : min n (ppnPerRemap c) = nr
      dsimp only
      have hmod : (pos + nr) % 2 ^ 32 = pos + nr := Nat.mod_eq_of_lt (by omega)
      have hnum : nr % 2 ^ 32 = nr := Nat.mod_eq_of_lt (by omega)
      rw [hmod, hnum, writeEntries_eq]
      obtain ⟨rs, hrs, hremaps⟩ := ih (n - nr) (pos + nr) (i + nr)
        (cmd ++ [svgaCmdRemapGmr2, gmrId, remapFlags c, pos, nr] ++
          ((List.range nr).map fun k => addr (i + k) / pageSize).flatMap (entryWords c))
        (by omega) (by omega)
      refine ⟨_, ?_, Remaps.cons hnr.symm (by omega) hremaps⟩
      rw [hrs, List.flatMap_cons]
      simp only [Remap.words, List.append_assoc]

theorem Remaps.length {rs : List Remap} (h : Remaps c addr pos i n rs) (gmrId : ℕ) :
    4 * (rs.flatMap (Remap.words c gmrId)).length = c.ppnSize * n + remapHeaderSize * rs.length := by
  have hwords : ∀ rs : List Remap, 4 * (rs.flatMap (Remap.words c gmrId)).length =
      c.ppnSize * (rs.flatMap Remap.frames).length + remapHeaderSize * rs.length := by
    intro rs
    induction rs with
    | nil => rfl
    | cons r rs ih =>
      have hentries : ∀ l : List ℕ, 4 * (l.flatMap (entryWords c)).length = c.ppnSize * l.length := by
        intro l
        induction l with
        | nil => rfl
        | cons x l ih =>
          have hx := entryWords_length c x
          rw [List.flatMap_cons, List.length_append, List.length_cons, Nat.mul_add, ih, hx,
            Nat.mul_succ, Nat.add_comm]
      have hr := hentries r.frames
      simp only [List.flatMap_cons, List.length_append, List.length_cons, Remap.words,
        List.length_nil, Nat.mul_add, ih, hr, remapHeaderSize]
      ring
  have hframes := congrArg List.length h.frames
  rw [List.length_map, List.length_range] at hframes
  rw [hwords, hframes]

theorem cmdSize_eq {rs : List Remap} (hn : n ≤ 2 ^ 20) (h : Remaps c addr 0 0 n rs) (gmrId : ℕ) :
    4 * (3 + (rs.flatMap (Remap.words c gmrId)).length) = cmdSize c n := by
  have hlen := h.length gmrId
  have hnum := h.number
  unfold cmdSize
  rw [← hnum]
  dsimp only
  unfold remapHeaderSize defineSize at *
  rcases ppnPerRemap_cases c with ⟨hsize, hper, -⟩ | ⟨hsize, hper, -⟩ <;>
    rw [hper] at hnum <;> rw [hsize] at hlen ⊢ <;>
    split_ifs at hnum <;> omega

/-- Below `2 ^ 20` pages a binding writes what it has reserved: a definition, and commands that
    cover the pages in order, each page by its frame number. -/
theorem gmr2Bind_exact (c : Config) (addr : ℕ → ℕ) (gmrId : ℤ) (hn : 0 < n) (hmax : n ≤ 2 ^ 20)
    (hfit : ∀ i < n, addr i / pageSize < 2 ^ (8 * c.ppnSize)) :
    ∃ cmd rs, vmwGmr2Bind c true addr n gmrId = some (.ok cmd) ∧
      4 * cmd.length = cmdSize c n ∧
      cmd = [svgaCmdDefineGmr2, (gmrId % 2 ^ 32).toNat, n] ++
        rs.flatMap (Remap.words c (gmrId % 2 ^ 32).toNat) ∧
      rs ≠ [] ∧ Consecutive 0 n rs ∧ (∀ r ∈ rs, r.Sized c) ∧
      rs.flatMap Remap.frames = ((List.range n).map fun k => addr k / pageSize) ∧
      ∀ frame ∈ rs.flatMap Remap.frames, readEntry (entryWords c frame) = frame := by
  have hword : n % 2 ^ 32 = n := Nat.mod_eq_of_lt (by omega)
  obtain ⟨rs, hrs, h⟩ := remapLoop_spec c addr (gmrId % 2 ^ 32).toNat n n 0 0
    [svgaCmdDefineGmr2, (gmrId % 2 ^ 32).toNat, n] le_rfl (by omega)
  have hsize := cmdSize_eq hmax h (gmrId % 2 ^ 32).toNat
  have hstop := h.consecutive
  have hframes := h.frames
  simp only [zero_add] at hstop hframes
  refine ⟨_, rs, ?_, ?_, rfl, ?_, hstop, h.sized, hframes, ?_⟩
  · simp only [vmwGmr2Bind, Bool.not_true, Bool.false_eq_true, if_false, hword, hrs,
      Option.bind_some]
    rw [if_pos]
    rw [List.length_append]
    simp only [List.length_cons, List.length_nil]
    omega
  · rw [List.length_append, ← hsize]
    rfl
  · rintro rfl
    exact hn.ne hstop
  · intro frame hframe
    rw [hframes] at hframe
    obtain ⟨k, hk, rfl⟩ := List.mem_map.1 hframe
    exact readEntry_entryWords (hfit k (List.mem_range.1 hk))

/-- Three pages more than one command takes. -/
theorem gmr2Bind_split : ∃ cmd rs,
    vmwGmr2Bind ⟨true, .phys, true, 32, 16⟩ true (fun i => 4096 * i) 3971 7 = some (.ok cmd) ∧
      4 * cmd.length = 12 + 2 * 20 + 8 * 3971 ∧ Consecutive 0 3971 rs := by
  obtain ⟨cmd, rs, hbind, hlen, -, -, hrange, -⟩ :=
    gmr2Bind_exact (n := 3971) ⟨true, .phys, true, 32, 16⟩ (fun i => 4096 * i) 7 (by decide)
      (by decide) fun i hi => by
        change 4096 * i / 4096 < 2 ^ 64
        omega
  exact ⟨cmd, rs, hbind, hlen, hrange⟩

theorem gmrBind_frames (c : Config) {s : TtmTt} (gmrId : ℤ) (hn : 0 < s.numPages)
    (hmax : s.numPages ≤ 2 ^ 20) (hcap : c.capGmr2 = true) :
    ∃ rs, Remaps c (dmaAddr c s) 0 0 s.numPages rs ∧
      (vmwGmrBind c true gmrId s).2.fifo = s.fifo ++ [.remapGmr2 gmrId (rs.flatMap Remap.frames)] := by
  obtain ⟨rs, -, h⟩ := remapLoop_spec c (dmaAddr c s) 0 s.numPages s.numPages 0 0 [] le_rfl
    (by omega)
  refine ⟨rs, h, ?_⟩
  have hframes := h.frames
  simp only [zero_add] at hframes
  have hne : s.numPages ≠ 0 := by omega
  simp only [vmwGmrBind, hne, hcap, if_false, Bool.not_true, Bool.false_eq_true, hframes]

end Vmwgfx.GmrBinding
