import Vmwgfx.KmsClips
import Vmwgfx.Word32

set_option autoImplicit false

/-!
# Updates of proxy surfaces

`vmw_kms_update_proxy`. Space for all commands is reserved before the first clip is looked at; a
reservation holds the mutex of the command buffers or of the FIFO until it is committed.
-/
namespace Vmwgfx.ProxyUpdates
open ExecbufState (Errno)
open KmsClips (DrmClipRect)
open Word32

/-- `SVGA3dBox`. -/
structure SvgaBox where
  x : ℕ
  y : ℕ
  z : ℕ
  w : ℕ
  h : ℕ
  d : ℕ
  deriving DecidableEq, Repr

/-- A `SVGA_3D_CMD_UPDATE_GB_IMAGE`, of 44 bytes with its header. -/
structure UpdateGbImage where
  headerSize : ℕ
  sid : ℕ
  face : ℕ
  mipmap : ℕ
  box : SvgaBox
  deriving DecidableEq, Repr

/-- `cur_mutex` of the command buffer manager and `fifo_mutex`. -/
inductive Mutex where
  | cur
  | fifo
  deriving DecidableEq, Repr

/-- Where commands go: with or without a command buffer manager, the mutex that an outstanding
    reservation holds and its size, and the commands that have been committed. -/
structure Channel where
  cman : Bool
  held : Option Mutex
  reserved : ℕ
  committed : List UpdateGbImage
  deriving DecidableEq, Repr

def idle (cman : Bool) (committed : List UpdateGbImage) : Channel := ⟨cman, none, 0, committed⟩

/-- `vmw_fifo_reserve`; where there is no space the mutex is dropped again. -/
def vmwFifoReserve (ok : Bool) (bytes : ℕ) (c : Channel) : Option Channel :=
  if ok then some { c with held := some (if c.cman then .cur else .fifo), reserved := bytes }
  else none

/-- `vmw_fifo_commit` of the first `bytes` of what was written. -/
def vmwFifoCommit (bytes : ℕ) (written : List UpdateGbImage) (c : Channel) : Channel :=
  { c with held := none, reserved := 0, committed := c.committed ++ written.take (bytes / 44) }

/-- A surface with its id and `base_size`. -/
structure ProxySurface where
  id : ℕ
  width : BitVec 32
  height : BitVec 32
  deriving DecidableEq, Repr

def invalid (res : ProxySurface) (clip : DrmClipRect) : Prop :=
  res.width.toNat < clip.x1.toNat ∨ res.width.toNat < clip.x2.toNat ∨
    res.height.toNat < clip.y1.toNat ∨ res.height.toNat < clip.y2.toNat

instance (res : ProxySurface) (clip : DrmClipRect) : Decidable (invalid res clip) := by
  unfold invalid
  infer_instance

/-- The differences are stored as `uint32`. -/
def proxyCmd (res : ProxySurface) (clip : DrmClipRect) : UpdateGbImage where
  headerSize := 36
  sid := res.id
  face := 0
  mipmap := 0
  box := ⟨clip.x1.toNat, clip.y1.toNat, 0, subU32 clip.x2.toNat clip.x1.toNat,
    subU32 clip.y2.toNat clip.y1.toNat, 1⟩

def proxyCmds (res : ProxySurface) : List DrmClipRect → Except Errno (List UpdateGbImage)
  | [] => .ok []
  | clip :: clips =>
    if invalid res clip then .error .einval
    else
      match proxyCmds res clips with
      | .error e => .error e
      | .ok cmds => .ok (proxyCmd res clip :: cmds)

def clipList (p : ℤ → DrmClipRect) (numClips increment : BitVec 32) : List DrmClipRect :=
  (List.range numClips.toNat).map fun i : ℕ => p (i * increment.toInt)

/-- The size that `vmw_fifo_reserve` gets, of 32 bits. -/
def proxyBytes (n : ℕ) : ℕ := 44 * n % 2 ^ 32

/-- `ok` tells of each size whether it can be reserved. The return for an invalid clip leaves the
    reservation as it is. -/
def vmwKmsUpdateProxy (res : ProxySurface) (ok : ℕ → Bool) (clips : Option (ℤ → DrmClipRect))
    (numClips increment : BitVec 32) (c : Channel) : Except Errno Unit × Channel :=
  match clips with
  | none => (.ok (), c)
  | some p =>
    match vmwFifoReserve (ok (proxyBytes numClips.toNat)) (proxyBytes numClips.toNat) c with
    | none => (.error .enomem, c)
    | some c =>
      match proxyCmds res (clipList p numClips increment) with
      | .error e => (.error e, c)
      | .ok cmds => (.ok (), vmwFifoCommit (proxyBytes cmds.length) cmds c)

/-- A command for a clip: its box starts and ends with the clip, inside the surface. -/
structure CmdFor (res : ProxySurface) (clip : DrmClipRect) (cmd : UpdateGbImage) : Prop where
  sid : cmd.sid = res.id
  left : cmd.box.x = clip.x1.toNat
  top : cmd.box.y = clip.y1.toNat
  right : cmd.box.x + cmd.box.w ≤ res.width.toNat
  bottom : cmd.box.y + cmd.box.h ≤ res.height.toNat

def passedClips (clips : Option (ℤ → DrmClipRect)) (numClips increment : BitVec 32) :
    List DrmClipRect :=
  match clips with
  | none => []
  | some p => clipList p numClips increment

/-- A call without an outstanding reservation before it commits one command for each clip and
    returns zero, or commits nothing and returns an error, and leaves no reservation. -/
def Atomic (res : ProxySurface) (ok : ℕ → Bool) (clips : Option (ℤ → DrmClipRect))
    (numClips increment : BitVec 32) (cman : Bool) (done : List UpdateGbImage) : Prop :=
  let r := vmwKmsUpdateProxy res ok clips numClips increment (idle cman done)
  match r.1 with
  | .ok () => ∃ cmds, List.Forall₂ (CmdFor res) (passedClips clips numClips increment) cmds ∧
      r.2 = idle cman (done ++ cmds)
  | .error _ => r.2 = idle cman done

structure InSurface (res : ProxySurface) (clip : DrmClipRect) : Prop where
  x : clip.x1.toNat ≤ clip.x2.toNat
  y : clip.y1.toNat ≤ clip.y2.toNat
  right : clip.x2.toNat ≤ res.width.toNat
  bottom : clip.y2.toNat ≤ res.height.toNat

theorem InSurface.not_invalid {res : ProxySurface} {clip : DrmClipRect} (h : InSurface res clip) :
    ¬ invalid res clip := by
  have hx := h.x
  have hy := h.y
  have hright := h.right
  have hbottom := h.bottom
  unfold invalid
  omega

theorem cmdFor_iff {res : ProxySurface} {clip : DrmClipRect} (hvalid : ¬ invalid res clip) :
    CmdFor res clip (proxyCmd res clip) ↔ InSurface res clip := by
  have hx1 := clip.x1.isLt
  have hx2 := clip.x2.isLt
  have hy1 := clip.y1.isLt
  have hy2 := clip.y2.isLt
  have hw := res.width.isLt
  have hh := res.height.isLt
  unfold invalid at hvalid
  constructor
  · intro h
    have hright := h.right
    have hbottom := h.bottom
    simp only [proxyCmd, subU32] at hright hbottom
    constructor <;> omega
  · intro h
    have hx := h.x
    have hy := h.y
    refine ⟨rfl, rfl, rfl, ?_, ?_⟩ <;> simp only [proxyCmd, subU32] <;> omega

theorem proxyCmds_eq (res : ProxySurface) (clips : List DrmClipRect) :
    proxyCmds res clips =
      if ∃ clip ∈ clips, invalid res clip then .error .einval
      else .ok (clips.map (proxyCmd res)) := by
  induction clips with
  | nil => rw [if_neg (by simp)]; rfl
  | cons clip clips ih =>
    rw [proxyCmds, ih]
    by_cases hinv : invalid res clip
    · rw [if_pos hinv, if_pos ⟨clip, List.mem_cons_self, hinv⟩]
    · rw [if_neg hinv]
      by_cases hrest : ∃ c ∈ clips, invalid res c
      · obtain ⟨c, hc, hbad⟩ := hrest
        rw [if_pos ⟨c, hc, hbad⟩, if_pos ⟨c, List.mem_cons_of_mem clip hc, hbad⟩]
      · rw [if_neg hrest, if_neg]
        · rfl
        · rintro ⟨c, hc, hbad⟩
          rcases List.mem_cons.mp hc with rfl | hc
          · exact hinv hbad
          · exact hrest ⟨c, hc, hbad⟩

theorem take_proxyBytes_iff {α : Type} (cmds : List α) :
    (cmds.take (proxyBytes cmds.length / 44)).length = cmds.length ↔
      44 * cmds.length < 2 ^ 32 := by
  unfold proxyBytes
  rw [List.length_take]
  omega

theorem clipList_length (p : ℤ → DrmClipRect) (numClips increment : BitVec 32) :
    (clipList p numClips increment).length = numClips.toNat := by
  unfold clipList
  rw [List.length_map, List.length_range]

theorem forall_clipList {p : ℤ → DrmClipRect} {numClips increment : BitVec 32}
    {P : DrmClipRect → Prop} :
    (∀ clip ∈ clipList p numClips increment, P clip) ↔
      ∀ i < numClips.toNat, P (p (i * increment.toInt)) := by
  unfold clipList
  simp only [List.forall_mem_map, List.mem_range]

/-- With the space reserved and no invalid clip, what is committed is one command for each clip if
    and only if the clips are ordered and the size has 32 bits. -/
theorem committed_iff {res : ProxySurface} {clips : List DrmClipRect} (cman : Bool)
    (done : List UpdateGbImage) (hvalid : ∀ clip ∈ clips, ¬ invalid res clip) (bytes : ℕ) :
    (∃ cmds, List.Forall₂ (CmdFor res) clips cmds ∧
      vmwFifoCommit (proxyBytes clips.length) (clips.map (proxyCmd res))
        ⟨cman, some (if cman then .cur else .fifo), bytes, done⟩ = idle cman (done ++ cmds)) ↔
    44 * clips.length < 2 ^ 32 ∧ ∀ clip ∈ clips, InSurface res clip := by
  have htake := take_proxyBytes_iff (clips.map (proxyCmd res))
  rw [List.length_map] at htake
  simp only [vmwFifoCommit, idle, Channel.mk.injEq, true_and, List.append_cancel_left_eq]
  constructor
  · rintro ⟨cmds, hall, heq⟩
    have hlen := htake.mp (by rw [heq, hall.length_eq])
    refine ⟨hlen, fun clip hclip => ?_⟩
    rw [List.take_of_length_le (by unfold proxyBytes; simp; omega)] at heq
    rw [← heq, List.forall₂_map_right_iff, List.forall₂_same] at hall
    exact (cmdFor_iff (hvalid clip hclip)).mp (hall clip hclip)
  · rintro ⟨hlen, hall⟩
    refine ⟨clips.map (proxyCmd res), ?_, ?_⟩
    · rw [List.forall₂_map_right_iff, List.forall₂_same]
      exact fun clip hclip => (cmdFor_iff (hvalid clip hclip)).mpr (hall clip hclip)
    · exact List.take_of_length_le (by unfold proxyBytes; simp; omega)

/-- An update of clips for which there is space is all or nothing if and only if its size has 32
    bits and all clips are ordered and inside the surface. -/
theorem vmwKmsUpdateProxy_atomic_iff (res : ProxySurface) (ok : ℕ → Bool)
    (clips : Option (ℤ → DrmClipRect)) (numClips increment : BitVec 32) (cman : Bool)
    (done : List UpdateGbImage) :
    Atomic res ok clips numClips increment cman done ↔
      ∀ p, clips = some p → ok (proxyBytes numClips.toNat) = true →
        44 * numClips.toNat < 2 ^ 32 ∧
          ∀ i < numClips.toNat, InSurface res (p (i * increment.toInt)) := by
  cases clips with
  | none =>
    refine ⟨fun _ _ h => (by cases h), fun _ => ⟨[], List.Forall₂.nil, ?_⟩⟩
    rw [List.append_nil]
    rfl
  | some p =>
    simp only [Option.some.injEq, forall_eq', Atomic, vmwKmsUpdateProxy]
    cases hok : ok (proxyBytes numClips.toNat) with
    | false => simp [vmwFifoReserve]
    | true =>
      simp only [vmwFifoReserve, if_true, idle, forall_const, proxyCmds_eq, passedClips]
      rw [← forall_clipList, ← clipList_length p numClips increment]
      by_cases hinv : ∃ clip ∈ clipList p numClips increment, invalid res clip
      · rw [if_pos hinv]
        obtain ⟨clip, hclip, hbad⟩ := hinv
        constructor
        · intro h
          simp at h
        · rintro ⟨_, h⟩
          exact absurd hbad (h clip hclip).not_invalid
      · rw [if_neg hinv]
        simp only [List.length_map]
        exact committed_iff cman done (fun clip hclip hbad => hinv ⟨clip, hclip, hbad⟩) _

/-- A surface of 64 by 64 pixels and a clip that reaches past it. -/
def sampleSurface : ProxySurface := ⟨5, 64, 64⟩

theorem wide_clip_keeps_reservation :
    ¬ Atomic sampleSurface (fun _ => true) (some fun _ => ⟨0, 0, 65, 8⟩) 1 1 true [] := by
  intro h
  have hrun : vmwKmsUpdateProxy sampleSurface (fun _ => true) (some fun _ => ⟨0, 0, 65, 8⟩) 1 1
      (idle true []) = (.error .einval, ⟨true, some .cur, 44, []⟩) := by decide +kernel
  simp only [Atomic, hrun] at h
  cases h

end Vmwgfx.ProxyUpdates
