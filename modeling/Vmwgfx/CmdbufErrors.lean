import Vmwgfx.CmdbufLane
import Vmwgfx.ExecbufDescribe

set_option autoImplicit false

/-!
# Errors in a command buffer

The first loop of `vmw_cmdbuf_work_func` on the bytes of one buffer: the mapped commands, the
address that the device was given and the length are moved behind the failing command, whose
size `vmw_cmd_describe` decodes. The machine of the manager is shown to do the same with its
lists of commands.
-/
namespace Vmwgfx.CmdbufErrors
open Word32 ByteStore ExecbufState ExecbufVerifier ExecbufFraming ExecbufDescribe
open CmdbufMachine (Command Man totalSize dropBytes forward)
open CmdbufLane (totalSize_cons dropBytes_size dropBytes_next)

/-- `entry->cmd` and the fields of the device header that the work function reads or writes,
    with `SVGA_CB_FLAG_MOB`; `ptr` is the union of `pa`, and of `mobid` and `mobOffset`. -/
structure Entry where
  cmd : ℤ
  mobFlag : Bool
  ptr : ℕ
  length : ℕ
  errorOffset : ℕ
  offset : ℕ
  deriving DecidableEq

/-- What becomes of an entry; a `fault` is a read outside the command table. -/
inductive Outcome where
  | fault
  | freed
  | resubmitted (e : Entry)
  deriving DecidableEq

/-- One round of the loop over `man->error`. -/
def restart (usingMob : Bool) (mem : Memory) (e : Entry) : Outcome :=
  match ExecbufVerifier.vmwCmdDescribe mem (e.cmd + e.errorOffset) with
  | none => .fault
  | some (false, _, _) => .freed
  | some (true, size, _) =>
    let newStart := addU32 e.errorOffset size
    if e.length ≤ newStart then .freed
    else
      .resubmitted
        { cmd := e.cmd + newStart
          mobFlag := e.mobFlag
          ptr := forward usingMob e.ptr newStart
          length := subU32 e.length newStart
          errorOffset := 0
          offset := 0 }

/-- The passes over a buffer in which the device finds errors at the given offsets, each
    relative to the start that the buffer has then. -/
def passes (usingMob : Bool) (mem : Memory) (e : Entry) : List ℕ → Outcome
  | [] => .resubmitted e
  | off :: offs =>
    match restart usingMob mem { e with errorOffset := off } with
    | .resubmitted e' => passes usingMob mem e' offs
    | r => r

/-- The ids that `vmw_cmd_describe` knows, whether the verifier's table has an entry for them or
    not. -/
def Known (id : ℕ) : Prop :=
  (id < svgaCmdMax ∧ (not3dSize id).isSome) ∨ (svga3dCmdBase ≤ id ∧ id < svga3dCmdMax)

/-- The ids that `vmw_cmd_describe` rejects without a look into the table. -/
def Rejected (id : ℕ) : Prop := svga3dCmdMax ≤ id ∨ (id < svgaCmdMax ∧ not3dSize id = none)

/-- A command in memory. One that `vmw_cmd_describe` knows has the size that the device
    decodes; the others are those whose ids it rejects. -/
def Stored (mem : Memory) (a : ℤ) (x : Command) : Prop :=
  if x.known then Known (word mem a) ∧ deviceSize mem a = some x.size else Rejected (word mem a)

/-- Complete commands from `a` on. -/
inductive WellFramed (mem : Memory) : ℤ → List Command → Prop where
  | done (a : ℤ) : WellFramed mem a []
  | next {a : ℤ} {x : Command} {xs : List Command} (head : Stored mem a x)
      (tail : WellFramed mem (a + x.size) xs) : WellFramed mem a (x :: xs)

/-- `n` bytes from `ptr` on are in a MOB, or are in memory that the device can address. -/
def Room (mob : Bool) (ptr n : ℕ) : Prop :=
  if mob then ptr / 2 ^ 32 + n ≤ 2 ^ 32 else ptr + n ≤ 2 ^ 64

/-- What a byte counts in `ptr`. -/
def perByte (mob : Bool) : ℕ := if mob then 2 ^ 32 else 1

/-- A buffer of such commands, in memory of the kind that the manager's pool has. -/
structure Holds (usingMob : Bool) (mem : Memory) (e : Entry) (cmds : List Command) : Prop where
  framed : WellFramed mem e.cmd cmds
  length : e.length = totalSize cmds
  small : e.length < 2 ^ 32
  kind : e.mobFlag = usingMob
  room : Room e.mobFlag e.ptr e.length

/-- Every error is reported at the start of a command of what is left, and none for a buffer
    that was freed. -/
def AtStarts : List Command → List ℕ → Prop
  | _, [] => True
  | cmds, off :: offs => ∃ x rest, dropBytes off cmds = some (x :: rest) ∧
    if x.known = true ∧ rest ≠ [] then AtStarts rest offs else offs = []

/-- What the errors leave of a list of commands: each time what follows the failing command, if
    that command is known and anything follows it. -/
def survivors : List Command → List ℕ → Option (List Command)
  | cmds, [] => some cmds
  | cmds, off :: offs =>
    match dropBytes off cmds with
    | some (x :: rest) => if x.known = true ∧ rest ≠ [] then survivors rest offs else none
    | _ => none

/-- `e'` is `e` moved forward over `k` bytes, in all coordinates and without a wrap. -/
structure Advanced (e e' : Entry) (k : ℕ) : Prop where
  cmd : e'.cmd = e.cmd + k
  kind : e'.mobFlag = e.mobFlag
  ptr : e'.ptr = e.ptr + k * perByte e.mobFlag
  length : e.length = k + e'.length

variable {usingMob : Bool} {mem : Memory} {e : Entry} {cmds rest : List Command} {x : Command}
  {off : ℕ}

theorem Advanced.refl (e : Entry) : Advanced e e 0 :=
  ⟨by simp, rfl, by simp, by simp⟩

theorem Advanced.trans {e' e'' : Entry} {j k : ℕ} (h : Advanced e e' j) (h' : Advanced e' e'' k) :
    Advanced e e'' (j + k) := by
  refine ⟨?_, h'.kind.trans h.kind, ?_, ?_⟩
  · rw [h'.cmd, h.cmd]
    push_cast
    ring
  · rw [h'.ptr, h.ptr, h.kind]
    ring
  · rw [h.length, h'.length]
    ring

theorem forward_of_room {mob : Bool} {ptr n k : ℕ} (h : Room mob ptr n) (hk : k < n) :
    forward mob ptr k = ptr + k * perByte mob ∧ Room mob (ptr + k * perByte mob) (n - k) := by
  cases mob with
  | false =>
    simp only [Room, forward, perByte, Bool.false_eq_true, if_false] at h ⊢
    omega
  | true =>
    simp only [Room, forward, perByte, if_true] at h ⊢
    rw [addU32_of_lt (by omega)]
    omega

theorem Stored.described {a : ℤ} (h : Stored mem a x) (hsize : x.size < 2 ^ 32)
    (hknown : x.known = true) :
    ∃ name, ExecbufVerifier.vmwCmdDescribe mem a = some (true, x.size, name) := by
  unfold Stored at h
  rw [if_pos hknown] at h
  obtain ⟨hlow | hrange, hdevice⟩ := h
  · obtain ⟨hlow, -⟩ := hlow
    obtain ⟨name, hd⟩ := describe_not3d hlow
    unfold deviceSize at hdevice
    rw [if_neg (not_le.2 hlow)] at hdevice
    rw [hdevice] at hd
    exact ⟨name, hd⟩
  · have hid : svgaCmdMax ≤ word mem a := le_trans (by decide) hrange.1
    obtain ⟨name, hd⟩ := describe_3d hrange.1 hrange.2
    unfold deviceSize at hdevice
    rw [if_pos hid, Option.some.injEq] at hdevice
    rw [addU32_of_lt (by omega), add_comm, hdevice] at hd
    exact ⟨name, hd⟩

theorem Stored.rejected {a : ℤ} (h : Stored mem a x) (hknown : x.known = false) :
    ∃ size name, ExecbufVerifier.vmwCmdDescribe mem a = some (false, size, name) := by
  unfold Stored at h
  rw [if_neg (by simp [hknown])] at h
  rcases h with habove | ⟨hlow, hnone⟩
  · exact ⟨_, _, describe_above habove⟩
  · obtain ⟨name, hd⟩ := describe_not3d hlow
    rw [hnone] at hd
    exact ⟨_, _, hd⟩

theorem WellFramed.drop {a : ℤ} (h : WellFramed mem a cmds) (hd : dropBytes off cmds = some rest) :
    WellFramed mem (a + off) rest := by
  induction h generalizing off with
  | done a =>
    cases off with
    | zero =>
      obtain rfl := Option.some.inj hd
      exact .done _
    | succ off => cases hd
  | next head tail ih =>
    cases off with
    | zero =>
      obtain rfl := Option.some.inj hd
      rw [Nat.cast_zero, add_zero]
      exact .next head tail
    | succ off =>
      simp only [dropBytes] at hd
      split_ifs at hd with hle
      have hrest := ih hd
      rwa [Nat.cast_sub hle, add_assoc, add_sub_cancel] at hrest

theorem Holds.bounds (h : Holds usingMob mem e cmds) (hd : dropBytes off cmds = some (x :: rest)) :
    e.length = off + x.size + totalSize rest ∧ e.length < 2 ^ 32 := by
  refine ⟨?_, h.small⟩
  rw [h.length, dropBytes_size hd, totalSize_cons, add_assoc]

theorem Holds.advance (h : Holds usingMob mem e cmds) (hd : dropBytes off cmds = some (x :: rest))
    (hknown : x.known = true) (hrest : rest ≠ []) :
    ∃ e', restart usingMob mem { e with errorOffset := off } = .resubmitted e' ∧
      Advanced e e' (off + x.size) ∧ e'.errorOffset = 0 ∧ Holds usingMob mem e' rest := by
  obtain ⟨htotal, hsmall⟩ := h.bounds hd
  have hpos : 0 < totalSize rest := by
    cases rest with
    | nil => exact absurd rfl hrest
    | cons y rest =>
      have := y.pos
      rw [totalSize_cons]
      omega
  obtain ⟨name, hdescribe⟩ := (show Stored mem (e.cmd + off) x by
    cases h.framed.drop hd with
    | next head tail => exact head).described (by omega) hknown
  have hstart : addU32 off x.size = off + x.size := addU32_of_lt (by omega)
  obtain ⟨hptr, hroom⟩ := forward_of_room h.room (show off + x.size < e.length by omega)
  rw [h.kind] at hptr
  have hleft : subU32 e.length (off + x.size) = totalSize rest := by
    rw [subU32_of_le (by omega) hsmall]
    omega
  refine ⟨⟨e.cmd + (off + x.size : ℕ), e.mobFlag, e.ptr + (off + x.size) * perByte e.mobFlag,
    totalSize rest, 0, 0⟩, ?_, ⟨rfl, rfl, rfl, ?_⟩, rfl, ?_, rfl, ?_, h.kind, ?_⟩
  · unfold restart
    dsimp only
    rw [hdescribe]
    dsimp only
    rw [hstart, if_neg (by omega), hptr, hleft, h.kind]
  · dsimp only
    omega
  · exact h.framed.drop (dropBytes_next hd)
  · dsimp only
    omega
  · rwa [show e.length - (off + x.size) = totalSize rest by omega] at hroom

theorem Holds.dropped (h : Holds usingMob mem e cmds) (hd : dropBytes off cmds = some (x :: rest))
    (hlast : x.known = true → rest = []) :
    restart usingMob mem { e with errorOffset := off } = .freed := by
  obtain ⟨htotal, hsmall⟩ := h.bounds hd
  have hstored : Stored mem (e.cmd + off) x := by
    cases h.framed.drop hd with
    | next head tail => exact head
  unfold restart
  dsimp only
  cases hknown : x.known with
  | false =>
    obtain ⟨size, name, hdescribe⟩ := hstored.rejected hknown
    rw [hdescribe]
  | true =>
    obtain ⟨name, hdescribe⟩ := hstored.described (by omega) hknown
    rw [hlast hknown] at htotal
    have hnil : totalSize [] = 0 := rfl
    rw [hdescribe]
    dsimp only
    rw [addU32_of_lt (by omega), if_pos (by omega)]

theorem dropBytes_append (h : dropBytes off cmds = some rest) :
    ∃ done, cmds = done ++ rest ∧ totalSize done = off := by
  induction cmds generalizing off with
  | nil =>
    cases off with
    | zero => exact ⟨[], (Option.some.inj h), rfl⟩
    | succ off => cases h
  | cons y cmds ih =>
    cases off with
    | zero => exact ⟨[], (Option.some.inj h), rfl⟩
    | succ off =>
      simp only [dropBytes] at h
      split_ifs at h with hle
      obtain ⟨done, hdone, hsize⟩ := ih h
      refine ⟨y :: done, by rw [hdone, List.cons_append], ?_⟩
      rw [totalSize_cons]
      omega

theorem passes_leave_suffix (h : Holds usingMob mem e cmds) {offs : List ℕ}
    (hoffs : AtStarts cmds offs) :
    (survivors cmds offs = none → passes usingMob mem e offs = .freed) ∧
    ∀ rest, survivors cmds offs = some rest →
      ∃ e' done, passes usingMob mem e offs = .resubmitted e' ∧ cmds = done ++ rest ∧
        Advanced e e' (totalSize done) ∧ Holds usingMob mem e' rest := by
  induction offs generalizing e cmds with
  | nil =>
    refine ⟨fun hnone => (by cases hnone), fun rest hrest => ?_⟩
    obtain rfl := Option.some.inj hrest
    exact ⟨e, [], rfl, rfl, Advanced.refl e, h⟩
  | cons off offs ih =>
    obtain ⟨x, tail, hd, hnext⟩ := hoffs
    simp only [survivors, passes, hd]
    by_cases hgo : x.known = true ∧ tail ≠ []
    · rw [if_pos hgo] at hnext ⊢
      obtain ⟨e₁, hrestart, hadvanced, -, hholds⟩ := h.advance hd hgo.1 hgo.2
      obtain ⟨hfreed, hkept⟩ := ih hholds hnext
      rw [hrestart]
      refine ⟨hfreed, fun rest hrest => ?_⟩
      obtain ⟨e₂, done, hpasses, hdone, hadvanced', hholds'⟩ := hkept rest hrest
      obtain ⟨before, hbefore, hsize⟩ := dropBytes_append (dropBytes_next hd)
      refine ⟨e₂, before ++ done, hpasses, ?_, ?_, hholds'⟩
      · rw [hbefore, hdone, List.append_assoc]
      · have htotal : totalSize (before ++ done) = off + x.size + totalSize done := by
          rw [← hsize]
          simp [totalSize]
        rw [htotal]
        exact hadvanced.trans hadvanced'
    · rw [if_neg hgo, h.dropped hd fun hknown => by_contra fun hne => hgo ⟨hknown, hne⟩]
      exact ⟨fun _ => rfl, fun rest hrest => by cases hrest⟩

section Machine
variable {σ ε : Type} (stray : ℕ → ℕ → Option ℕ) {s : Man σ ε} {id : ℕ}

/-- The manager's header is that of the entry, with the commands and the address of the
    commands. -/
structure Represents (usingMob : Bool) (cmds : List Command) (s : Man σ ε) (id : ℕ) (e : Entry) :
    Prop where
  pool : s.usingMob = usingMob
  live : id ∈ s.live
  cmds : (s.headers id).cmds = cmds
  mobFlag : (s.headers id).mobFlag = e.mobFlag
  ptr : (s.headers id).ptr = e.ptr
  cmd : (s.headers id).cmd = e.ptr
  length : (s.headers id).length = e.length

/-- The device reports an error at `off`, and the work function takes the buffer. -/
def errorAt (s : Man σ ε) (id off : ℕ) : Man σ ε :=
  CmdbufMachine.restartEntry stray
    (CmdbufMachine.setHeader s id { s.headers id with errorOffset := off }) id

theorem errorAt_describe (hrep : Represents usingMob cmds s id e)
    (hd : dropBytes off cmds = some (x :: rest)) :
    CmdbufMachine.vmwCmdDescribe stray id { s.headers id with errorOffset := off } off =
      if x.known then some x.size else none := by
  unfold CmdbufMachine.vmwCmdDescribe
  dsimp only
  rw [hrep.cmds, hd]

theorem errorAt_freed (hrep : Represents usingMob cmds s id e) (h : Holds usingMob mem e cmds)
    (hd : dropBytes off cmds = some (x :: rest)) (hlast : x.known = true → rest = []) :
    id ∉ (errorAt stray s id off).live := by
  obtain ⟨htotal, hsmall⟩ := h.bounds hd
  have hfree : errorAt stray s id off = { CmdbufMachine.headerFree (CmdbufMachine.setHeader s id
      { s.headers id with errorOffset := off }) id with sendFence := true } := by
    unfold errorAt CmdbufMachine.restartEntry
    simp only [CmdbufMachine.setHeader, Function.update_self]
    rw [errorAt_describe stray hrep hd]
    cases hknown : x.known with
    | false => rfl
    | true =>
      have hnil : totalSize [] = 0 := rfl
      rw [hlast hknown] at htotal
      rw [if_pos rfl]
      dsimp only
      rw [hrep.length, addU32_of_lt (by omega), if_pos (by omega)]
  rw [hfree]
  simp [CmdbufMachine.headerFree]

theorem errorAt_kept (hrep : Represents usingMob cmds s id e) (h : Holds usingMob mem e cmds)
    (hd : dropBytes off cmds = some (x :: rest)) (hknown : x.known = true) {e' : Entry}
    (hadvanced : Advanced e e' (off + x.size)) (hpos : 0 < e'.length) :
    Represents usingMob rest (errorAt stray s id off) id e' := by
  obtain ⟨htotal, hsmall⟩ := h.bounds hd
  have hleft := hadvanced.length
  have hstart : addU32 off x.size = off + x.size := addU32_of_lt (by omega)
  have hsub : subU32 e.length (off + x.size) = e'.length := by
    rw [subU32_of_le (by omega) hsmall]
    omega
  have hforward : forward e.mobFlag e.ptr (off + x.size) = e'.ptr := by
    rw [hadvanced.ptr]
    exact (forward_of_room h.room (by omega)).1
  have hpool : forward s.usingMob e.ptr (off + x.size) = e'.ptr := by
    rw [hrep.pool, ← h.kind, hforward]
  have hmachine : errorAt stray s id off = { CmdbufMachine.setHeader s id
      { s.headers id with
        ptr := e'.ptr, cmd := e'.ptr, cmds := rest, length := e'.length, errorOffset := 0 } with
      restartHead := Function.update s.restartHead (s.headers id).cbContext
        (s.restartHead (s.headers id).cbContext ++ [id]) } := by
    unfold errorAt CmdbufMachine.restartEntry
    simp only [CmdbufMachine.setHeader, Function.update_self]
    rw [errorAt_describe stray hrep hd, if_pos hknown]
    dsimp only
    rw [hrep.length, hrep.ptr, hrep.cmd, hrep.mobFlag, hrep.cmds, hstart, if_neg (by omega), hpool,
      hforward, hsub, dropBytes_next hd]
    simp only [Function.update_idem, Option.getD_some]
  rw [hmachine]
  refine ⟨hrep.pool, hrep.live, ?_, ?_, ?_, ?_, ?_⟩
  all_goals simp only [CmdbufMachine.setHeader, Function.update_self]
  rw [hrep.mobFlag, hadvanced.kind]

theorem errorsAt_bytes (hrep : Represents usingMob cmds s id e) (h : Holds usingMob mem e cmds)
    {offs : List ℕ} (hoffs : AtStarts cmds offs) :
    (survivors cmds offs = none → id ∉ (offs.foldl (errorAt stray · id) s).live) ∧
    ∀ rest e', survivors cmds offs = some rest → passes usingMob mem e offs = .resubmitted e' →
      Represents usingMob rest (offs.foldl (errorAt stray · id) s) id e' := by
  induction offs generalizing s e cmds with
  | nil =>
    refine ⟨fun hnone => (by cases hnone), fun rest e' hrest hpasses => ?_⟩
    obtain rfl := Option.some.inj hrest
    cases hpasses
    exact hrep
  | cons off offs ih =>
    obtain ⟨x, tail, hd, hnext⟩ := hoffs
    simp only [survivors, passes, hd, List.foldl_cons]
    by_cases hgo : x.known = true ∧ tail ≠ []
    · rw [if_pos hgo] at hnext ⊢
      obtain ⟨e₁, hrestart, hadvanced, -, hholds⟩ := h.advance hd hgo.1 hgo.2
      have hpos : 0 < e₁.length := by
        obtain ⟨y, ys, rfl⟩ := List.exists_cons_of_ne_nil hgo.2
        have := y.pos
        rw [hholds.length, totalSize_cons]
        omega
      rw [hrestart]
      exact ih (errorAt_kept stray hrep h hd hgo.1 hadvanced hpos) hholds hnext
    · rw [if_neg hgo] at hnext ⊢
      subst hnext
      refine ⟨fun _ => ?_, fun _ _ hrest => by cases hrest⟩
      exact errorAt_freed stray hrep h hd fun hknown => by_contra fun hne => hgo ⟨hknown, hne⟩

/-- Whatever errors the device finds at the starts of known commands, the buffer that is
    submitted again is the rest behind the last of them, and its address, its offset and its
    length say so; a buffer is dropped when nothing is left of it. The manager's header follows:
    it takes the device to the commands that are left, or is freed. -/
theorem errors_leave_suffix (h : Holds usingMob mem e cmds) {offs : List ℕ}
    (hoffs : AtStarts cmds offs) :
    (survivors cmds offs = none → passes usingMob mem e offs = .freed ∧
      ∀ (s : Man σ ε) id, Represents usingMob cmds s id e →
        id ∉ (offs.foldl (errorAt stray · id) s).live) ∧
    ∀ rest, survivors cmds offs = some rest →
      ∃ e' done, passes usingMob mem e offs = .resubmitted e' ∧ cmds = done ++ rest ∧
        Advanced e e' (totalSize done) ∧ Holds usingMob mem e' rest ∧
        ∀ (s : Man σ ε) id, Represents usingMob cmds s id e →
          Represents usingMob rest (offs.foldl (errorAt stray · id) s) id e' := by
  obtain ⟨hfreed, hkept⟩ := passes_leave_suffix h hoffs
  refine ⟨fun hnone => ⟨hfreed hnone, ?_⟩, fun rest hrest => ?_⟩
  · exact fun s id hrep => (errorsAt_bytes stray hrep h hoffs).1 hnone
  · obtain ⟨e', done, hpasses, hdone, hadvanced, hholds⟩ := hkept rest hrest
    refine ⟨e', done, hpasses, hdone, hadvanced, hholds, fun s id hrep => ?_⟩
    exact (errorsAt_bytes stray hrep h hoffs).2 rest e' hrest hpasses

end Machine

section Sample

def nop (tag : ℕ) : Command := ⟨tag, 8, true, 0, by norm_num⟩

def nopBytes : Memory := ofWords [1119, 0, 1119, 0, 1119, 0]

/-- A buffer in the MOB 7, from the offset 4096 on. -/
def nopEntry : Entry := ⟨0, true, 7 + 4096 * 2 ^ 32, 24, 0, 0⟩

theorem nop_stored {mem : Memory} {a : ℤ} {tag : ℕ} (hid : word mem a = 1119)
    (hsize : deviceSize mem a = some 8) : Stored mem a (nop tag) := by
  unfold Stored
  rw [if_pos (by rfl)]
  refine ⟨.inr ?_, hsize⟩
  rw [hid]
  decide

theorem nops_hold : Holds true nopBytes nopEntry [nop 0, nop 1, nop 2] where
  framed := .next (nop_stored (by decide) (by decide)) (.next (nop_stored (by decide) (by decide))
    (.next (nop_stored (by decide) (by decide)) (.done _)))
  length := rfl
  small := by decide
  kind := rfl
  room := by
    unfold Room
    decide

/-- A fence command, whose id `vmw_cmd_describe` does not know, and a command after it. -/
def fenceBytes : Memory := ofWords [30, 7, 1119, 0]

end Sample

theorem nops_leave_suffix : ∃ e' done,
    passes true nopBytes nopEntry [0, 0] = .resubmitted e' ∧
      [nop 0, nop 1, nop 2] = done ++ [nop 2] ∧ Advanced nopEntry e' (totalSize done) ∧
      Holds true nopBytes e' [nop 2] := by
  have hoffs : AtStarts [nop 0, nop 1, nop 2] [0, 0] := by
    refine ⟨nop 0, [nop 1, nop 2], rfl, ?_⟩
    rw [if_pos ⟨rfl, by simp⟩]
    refine ⟨nop 1, [nop 2], rfl, ?_⟩
    rw [if_pos ⟨rfl, by simp⟩]
    trivial
  obtain ⟨e', done, hpasses, hdone, hadvanced, hholds, -⟩ :=
    (errors_leave_suffix (σ := Unit) (ε := Unit) (fun _ _ => none) nops_hold hoffs).2 _ rfl
  exact ⟨e', done, hpasses, hdone, hadvanced, hholds⟩

/-- An unknown command takes what follows it along. -/
theorem fence_drops_rest :
    ¬ ∀ (usingMob : Bool) (mem : Memory) (e : Entry) (cmds : List Command) (off : ℕ) (x : Command)
      (rest : List Command), Holds usingMob mem e cmds → dropBytes off cmds = some (x :: rest) →
        (restart usingMob mem { e with errorOffset := off } = .freed ↔ rest = []) := by
  intro h
  have hholds : Holds true fenceBytes ⟨0, true, 4096 * 2 ^ 32, 16, 0, 0⟩
      [⟨0, 8, false, 0, by norm_num⟩, nop 1] := by
    refine ⟨.next (.inr ⟨by decide, by decide⟩) (.next (nop_stored (by decide) (by decide))
      (.done _)), rfl, by decide, rfl, ?_⟩
    unfold Room
    decide
  have hfreed := (h true fenceBytes ⟨0, true, 4096 * 2 ^ 32, 16, 0, 0⟩ _ 0 _ _ hholds rfl).1
    (by decide)
  cases hfreed

end Vmwgfx.CmdbufErrors
