import Vmwgfx.ExecbufState
import Vmwgfx.HoldLedger
import Vmwgfx.LabelledRuns
import Vmwgfx.Word32

set_option autoImplicit false

/-!
# Legacy display units

`vmwgfx_ldu.c`: the list of active units, the framebuffer that is pinned to the start of
VRAM, and what `vmw_ldu_commit_list` writes to the registers. The atomic helpers swap the
states of all planes of a commit before they update the planes one by one.
-/
namespace Vmwgfx.LegacyUnits
open ExecbufState (Errno)
open HoldLedger LabelledRuns Word32

/-- The fields of `crtc` that place a unit on the desktop. -/
structure Crtc where
  x : ℤ
  y : ℤ
  hdisplay : ℕ
  vdisplay : ℕ
  deriving DecidableEq, Repr

/-- Where `vmw_ldu_commit_list` finds the framebuffer whose size, pitch and format it
    writes: in the state of the plane of a unit, or where there is no unit but the head of
    the list. -/
inductive FbSource where
  | unit (u : ℕ) (fb : Option ℕ)
  | listHead
  deriving DecidableEq, Repr

/-- The registers that are written together. A layout has a size of its own. -/
inductive RegWrite where
  | svgaLayout (width height : ℤ) (src : FbSource)
  | svgaFb (src : FbSource)
  | numGuestDisplays (n : ℕ)
  | display (id : ℕ) (isPrimary : Bool) (crtc : Crtc)
  deriving DecidableEq, Repr

def RegWrite.source : RegWrite → Option FbSource
  | .svgaLayout _ _ src => some src
  | .svgaFb src => some src
  | _ => none

/-- `VMWGFX_NUM_DISPLAY_UNITS`. -/
def numDisplayUnits : ℕ := 8

/-- `struct vmw_legacy_display` with the units. `planeFb` is `primary->state->fb`; `pinLog`
    tells which framebuffers were pinned and unpinned from here, and `programmed` what the
    last `vmw_ldu_commit_list` wrote. `bug` tells that a `BUG_ON` has fired. -/
structure LegacyDisplay where
  active : List ℕ
  numActive : ℕ
  lastNumActive : ℕ
  fb : Option ℕ
  planeFb : ℕ → Option ℕ
  crtc : ℕ → Crtc
  pinLog : List (ℕ × Bool)
  programmed : List RegWrite
  bug : Bool

def init : LegacyDisplay := ⟨[], 0, 0, none, fun _ => none, fun _ => ⟨0, 0, 0, 0⟩, [], [], false⟩

def bugOn (cond : Bool) (s : LegacyDisplay) : LegacyDisplay := { s with bug := s.bug || cond }

/-- The entries for the displays, from number `i` on. -/
def writeDisplays (crtc : ℕ → Crtc) : ℕ → List ℕ → List RegWrite
  | _, [] => []
  | i, u :: us => .display i (i == 0) (crtc u) :: writeDisplays crtc (i + 1) us

/-- `vmw_ldu_commit_list`; `topology` is `SVGA_CAP_DISPLAY_TOPOLOGY`. -/
def vmwLduCommitList (topology : Bool) (s : LegacyDisplay) : LegacyDisplay :=
  if !topology then
    let w := s.active.foldl (fun w u => max w ((s.crtc u).x + (s.crtc u).hdisplay)) 0
    let h := s.active.foldl (fun h u => max h ((s.crtc u).y + (s.crtc u).vdisplay)) 0
    -- after the loop `entry` is the head of the list
    { s with programmed := if s.active = [] then [] else [.svgaLayout w h .listHead] }
  else
    let first :=
      match s.active with
      | [] => []
      | u :: _ => [.svgaFb (.unit u (s.planeFb u))]
    let t :=
      { s with
        programmed := first ++ .numGuestDisplays (if s.numActive ≠ 0 then s.numActive else 1) ::
          writeDisplays s.crtc 0 s.active }
    let t := bugOn (t.active.length != t.numActive) t
    { t with lastNumActive := t.numActive }

/-- `vmw_framebuffer_unpin`. -/
def unpin (b : ℕ) (s : LegacyDisplay) : LegacyDisplay :=
  { s with pinLog := s.pinLog ++ [(b, false)] }

/-- `vmw_framebuffer_pin`, whose result is not looked at. -/
def pin (b : ℕ) (ret : Option Errno) (s : LegacyDisplay) : LegacyDisplay :=
  if ret.isNone then { s with pinLog := s.pinLog ++ [(b, true)] } else s

def vmwLduDelActive (u : ℕ) (s : LegacyDisplay) : LegacyDisplay :=
  if u ∉ s.active then s
  else
    let t := { s with active := s.active.erase u, numActive := subU32 s.numActive 1 }
    if t.numActive = 0 then
      let t := bugOn t.fb.isNone t
      let t := match t.fb with | none => t | some b => unpin b t
      { t with fb := none }
    else t

/-- The loop that looks for the place of a unit, and `list_add` there. -/
def addActiveAt (u : ℕ) : List ℕ → List ℕ
  | [] => [u]
  | entry :: es => if entry > u then u :: entry :: es else entry :: addActiveAt u es

def vmwLduAddActive (u b : ℕ) (ret : Option Errno) (s : LegacyDisplay) : LegacyDisplay :=
  let t := bugOn (s.numActive = 0 && s.fb.isSome) s
  let t :=
    if t.fb ≠ some b then
      let t := match t.fb with | none => t | some old => unpin old t
      { pin b ret t with fb := some b }
    else t
  if u ∈ t.active then t
  else { t with active := addActiveAt u t.active, numActive := addU32 t.numActive 1 }

def vmwLduPrimaryPlaneAtomicUpdate (topology : Bool) (u : ℕ) (ret : Option Errno)
    (s : LegacyDisplay) : LegacyDisplay :=
  vmwLduCommitList topology
    (match s.planeFb u with
      | some b => vmwLduAddActive u b ret s
      | none => vmwLduDelActive u s)

inductive Op where
  /-- A commit gives the plane of a unit its new state. -/
  | swapState (u : ℕ) (fb : Option ℕ) (crtc : Crtc)
  /-- A plane is updated; `ret` is what pinning returns if it is called. -/
  | atomicUpdate (u : ℕ) (ret : Option Errno)
  deriving DecidableEq, Repr

def step (topology : Bool) (s : LegacyDisplay) : Op → Option LegacyDisplay
  | .swapState u fb crtc =>
    if u < numDisplayUnits then
      some { s with
        planeFb := Function.update s.planeFb u fb
        crtc := Function.update s.crtc u crtc }
    else none
  | .atomicUpdate u ret =>
    if u < numDisplayUnits then some (vmwLduPrimaryPlaneAtomicUpdate topology u ret s) else none

/-- Whether a unit is active once the plane of unit `u` is updated. -/
def staysActive (s : LegacyDisplay) (u v : ℕ) : Prop :=
  if v = u then (s.planeFb u).isSome = true else v ∈ s.active

instance (s : LegacyDisplay) (u v : ℕ) : Decidable (staysActive s u v) :=
  inferInstanceAs (Decidable (if v = u then (s.planeFb u).isSome = true else v ∈ s.active))

/-- A framebuffer that is new is pinned, and if units are active after the update, then the
    device has a display topology and the state of the first of them has a framebuffer. -/
def updatesPinned (topology : Bool) (s : LegacyDisplay) : Op → Prop
  | .swapState _ _ _ => True
  | .atomicUpdate u ret =>
    (∀ b ∈ s.planeFb u, s.fb ≠ some b → ret = none) ∧
    ∀ v < numDisplayUnits, staysActive s u v → (∀ w < v, ¬ staysActive s u w) →
      topology = true ∧ (s.planeFb v).isSome = true

instance (topology : Bool) : ∀ s a, Decidable (updatesPinned topology s a)
  | _, .swapState _ _ _ => .isTrue trivial
  | s, .atomicUpdate u ret => inferInstanceAs (Decidable
      ((∀ b ∈ s.planeFb u, s.fb ≠ some b → ret = none) ∧
        ∀ v < numDisplayUnits, staysActive s u v → (∀ w < v, ¬ staysActive s u w) →
          topology = true ∧ (s.planeFb v).isSome = true))

def pinned : Option ℕ → Multiset ℕ
  | none => 0
  | some b => {b}

/-- What the list, the count and the pinned framebuffer say of each other. -/
structure Listed (s : LegacyDisplay) : Prop where
  sorted : s.active.Pairwise (· < ·)
  units : ∀ u ∈ s.active, u < numDisplayUnits
  count : s.numActive = s.active.length
  fb : s.fb.isSome = true ↔ s.active ≠ []
  pins : held s.pinLog = some (pinned s.fb)
  bug : s.bug = false

/-- The registers are written from the framebuffer of an active unit. -/
def ProgrammedFromActive (s : LegacyDisplay) : Prop :=
  ∀ w ∈ s.programmed, ∀ src ∈ w.source, ∃ u b, src = .unit u (some b) ∧ u ∈ s.active

structure Inv (s : LegacyDisplay) : Prop extends Listed s where
  programmed : ProgrammedFromActive s

variable {topology : Bool} {s t : LegacyDisplay} {u v b : ℕ} {ret : Option Errno} {l : List ℕ}

theorem inv_init : Inv init where
  sorted := .nil
  units := fun _ h => absurd h List.not_mem_nil
  count := rfl
  fb := by simp [init]
  pins := rfl
  programmed := fun _ h => absurd h List.not_mem_nil
  bug := rfl

theorem mem_addActiveAt : v ∈ addActiveAt u l ↔ v = u ∨ v ∈ l := by
  induction l with
  | nil => simp [addActiveAt]
  | cons entry es ih =>
    unfold addActiveAt
    split_ifs
    · simp
    · simp only [List.mem_cons, ih]
      tauto

theorem length_addActiveAt (u : ℕ) (l : List ℕ) : (addActiveAt u l).length = l.length + 1 := by
  induction l with
  | nil => rfl
  | cons entry es ih =>
    unfold addActiveAt
    split_ifs
    · rfl
    · simp [ih]

theorem addActiveAt_sorted (h : l.Pairwise (· < ·)) (hu : u ∉ l) :
    (addActiveAt u l).Pairwise (· < ·) := by
  induction l with
  | nil => exact List.pairwise_singleton _ _
  | cons entry es ih =>
    obtain ⟨hentry, hes⟩ := List.pairwise_cons.1 h
    simp only [List.mem_cons, not_or] at hu
    obtain ⟨hne, hu⟩ := hu
    unfold addActiveAt
    split_ifs with hgt
    · refine List.pairwise_cons.2 ⟨fun v hv => ?_, h⟩
      rcases List.mem_cons.1 hv with rfl | hv
      · exact hgt
      · exact lt_trans hgt (hentry v hv)
    · refine List.pairwise_cons.2 ⟨fun v hv => ?_, ih hes hu⟩
      rcases mem_addActiveAt.1 hv with rfl | hv
      · omega
      · exact hentry v hv

theorem length_active_le (h : l.Pairwise (· < ·)) (hunits : ∀ u ∈ l, u < numDisplayUnits) :
    l.length ≤ numDisplayUnits := by
  have hnodup : l.Nodup := h.imp Nat.ne_of_lt
  have hsub : l ⊆ List.range numDisplayUnits := fun u hu => List.mem_range.2 (hunits u hu)
  simpa using (hnodup.subperm hsub).length_le

theorem bugOn_false (s : LegacyDisplay) : bugOn false s = s := by
  unfold bugOn
  rw [Bool.or_false]

theorem Listed.count_lt (hs : Listed s) : s.numActive < 2 ^ 32 - 1 := by
  have hlen := length_active_le hs.sorted hs.units
  rw [hs.count]
  unfold numDisplayUnits at hlen
  omega

theorem Listed.count_eq_zero (hs : Listed s) : s.numActive = 0 ↔ s.active = [] := by
  rw [hs.count, List.length_eq_zero_iff]

theorem Listed.delActive (hs : Listed s) (u : ℕ) : Listed (vmwLduDelActive u s) := by
  unfold vmwLduDelActive
  by_cases hu : u ∈ s.active
  swap
  · rw [if_pos hu]
    exact hs
  rw [if_neg (not_not.2 hu)]
  have hpos : 0 < s.active.length := List.length_pos_of_mem hu
  have hcount : subU32 s.numActive 1 = (s.active.erase u).length := by
    have hlt := hs.count_lt
    have hle : 1 ≤ s.numActive := by rw [hs.count]; exact hpos
    rw [subU32_of_le hle (by omega), hs.count, List.length_erase_of_mem hu]
  have hsorted : (s.active.erase u).Pairwise (· < ·) := hs.sorted.sublist List.erase_sublist
  have hunits : ∀ v ∈ s.active.erase u, v < numDisplayUnits := fun v hv =>
    hs.units v (List.mem_of_mem_erase hv)
  obtain ⟨b, hb⟩ := Option.isSome_iff_exists.1 (hs.fb.2 (List.ne_nil_of_mem hu))
  simp only
  split_ifs with hzero
  · have hnil : s.active.erase u = [] := List.length_eq_zero_iff.1 (hcount.symm.trans hzero)
    simp only [hb, Option.isNone_some, bugOn_false]
    refine ⟨hsorted, hunits, hcount, by simp [unpin, hnil], ?_, hs.bug⟩
    exact held_drop (hs.pins.trans (by rw [hb]; rfl))
  · have hne : s.active.erase u ≠ [] := by
      rintro hnil
      rw [hnil] at hcount
      exact hzero hcount
    exact ⟨hsorted, hunits, hcount, by simp [hb, hne], hs.pins, hs.bug⟩

def dropFb (s : LegacyDisplay) : LegacyDisplay :=
  match s.fb with
  | none => s
  | some old => unpin old s

/-- The first part of `vmw_ldu_add_active`. -/
def exchangeFb (b : ℕ) (ret : Option Errno) (s : LegacyDisplay) : LegacyDisplay :=
  let t := bugOn (s.numActive = 0 && s.fb.isSome) s
  if s.fb ≠ some b then { pin b ret (dropFb t) with fb := some b } else t

theorem dropFb_frame (s : LegacyDisplay) : ∃ log, dropFb s = { s with pinLog := log } := by
  unfold dropFb
  split
  · exact ⟨s.pinLog, rfl⟩
  · exact ⟨_, rfl⟩

theorem pin_frame (b : ℕ) (ret : Option Errno) (s : LegacyDisplay) :
    ∃ log, pin b ret s = { s with pinLog := log } := by
  unfold pin
  split_ifs
  · exact ⟨_, rfl⟩
  · exact ⟨s.pinLog, rfl⟩

theorem exchangeFb_frame (b : ℕ) (ret : Option Errno) (s : LegacyDisplay) :
    ∃ log bug, exchangeFb b ret s = { s with fb := some b, pinLog := log, bug := bug } := by
  unfold exchangeFb
  simp only
  split_ifs with hne
  · obtain ⟨dropped, hdrop⟩ := dropFb_frame (bugOn (s.numActive = 0 && s.fb.isSome) s)
    rw [hdrop]
    obtain ⟨log, hlog⟩ := pin_frame b ret
      { bugOn (s.numActive = 0 && s.fb.isSome) s with pinLog := dropped }
    rw [hlog]
    exact ⟨log, _, rfl⟩
  · refine ⟨s.pinLog, s.bug || (s.numActive = 0 && s.fb.isSome), ?_⟩
    rw [← not_not.1 hne]
    rfl

theorem addActive_eq (u b : ℕ) (ret : Option Errno) (s : LegacyDisplay) :
    vmwLduAddActive u b ret s =
      if u ∈ s.active then exchangeFb b ret s
      else
        { exchangeFb b ret s with
          active := addActiveAt u s.active
          numActive := addU32 s.numActive 1 } := by
  have hdef : vmwLduAddActive u b ret s =
      if u ∈ (exchangeFb b ret s).active then exchangeFb b ret s
      else
        { exchangeFb b ret s with
          active := addActiveAt u (exchangeFb b ret s).active
          numActive := addU32 (exchangeFb b ret s).numActive 1 } := rfl
  obtain ⟨log, bug, hframe⟩ := exchangeFb_frame b ret s
  rw [hdef, hframe]

theorem Listed.exchangeFb (hs : Listed s) (hpin : s.fb ≠ some b → ret = none) :
    ∃ log, exchangeFb b ret s = { s with fb := some b, pinLog := log } ∧ held log = some {b} := by
  have hcond : (decide (s.numActive = 0) && s.fb.isSome) = false := by
    rw [Bool.and_eq_false_iff, decide_eq_false_iff_not, hs.count_eq_zero]
    by_contra hboth
    simp only [not_or, not_not, Bool.not_eq_false] at hboth
    exact hs.fb.1 hboth.2 hboth.1
  have hpins := hs.pins
  simp only [LegacyUnits.exchangeFb, hcond, bugOn_false]
  split_ifs with hne
  · rw [hpin hne, dropFb]
    cases hfb : s.fb with
    | none =>
      rw [hfb] at hpins
      exact ⟨_, rfl, held_take b hpins⟩
    | some old =>
      rw [hfb] at hpins
      exact ⟨_, rfl, held_take b (held_drop (m := 0) hpins)⟩
  · have hfb : s.fb = some b := not_not.1 hne
    refine ⟨s.pinLog, by rw [← hfb], ?_⟩
    rw [hpins, hfb]
    rfl

theorem Listed.addActive (hs : Listed s) (hu : u < numDisplayUnits)
    (hpin : s.fb ≠ some b → ret = none) : Listed (vmwLduAddActive u b ret s) := by
  obtain ⟨log, hfb, hlog⟩ := hs.exchangeFb hpin
  rw [addActive_eq, hfb]
  by_cases hmem : u ∈ s.active
  · rw [if_pos hmem]
    exact ⟨hs.sorted, hs.units, hs.count, by simp [List.ne_nil_of_mem hmem], hlog, hs.bug⟩
  · rw [if_neg hmem]
    refine ⟨addActiveAt_sorted hs.sorted hmem, fun v hv => ?_, ?_, ?_, hlog, hs.bug⟩
    · rcases mem_addActiveAt.1 hv with rfl | hv
      · exact hu
      · exact hs.units v hv
    · have hlt := hs.count_lt
      simp only
      rw [addU32_of_lt (by omega), length_addActiveAt, hs.count]
    · have hne : addActiveAt u s.active ≠ [] := List.ne_nil_of_mem (mem_addActiveAt.2 (.inl rfl))
      simp [hne]

def updateUnits (u : ℕ) (ret : Option Errno) (s : LegacyDisplay) : LegacyDisplay :=
  match s.planeFb u with
  | some b => vmwLduAddActive u b ret s
  | none => vmwLduDelActive u s

theorem delActive_frame (u : ℕ) (s : LegacyDisplay) : ∃ num fb log bug,
    vmwLduDelActive u s =
      { s with
        active := s.active.erase u
        numActive := num
        fb := fb
        pinLog := log
        bug := bug } := by
  unfold vmwLduDelActive
  by_cases hu : u ∈ s.active
  · rw [if_neg (not_not.2 hu)]
    simp only
    split_ifs
    · cases hfb : s.fb with
      | none => exact ⟨_, _, _, _, rfl⟩
      | some b => exact ⟨_, _, _, _, rfl⟩
    · exact ⟨_, _, _, _, rfl⟩
  · rw [if_pos hu, List.erase_of_not_mem hu]
    exact ⟨_, _, _, _, rfl⟩

theorem mem_delActive (hs : Listed s) :
    v ∈ (vmwLduDelActive u s).active ↔ v ≠ u ∧ v ∈ s.active := by
  obtain ⟨num, fb, log, bug, hframe⟩ := delActive_frame u s
  have hnodup : s.active.Nodup := hs.sorted.imp Nat.ne_of_lt
  rw [hframe, hnodup.mem_erase_iff]

theorem mem_addActive : v ∈ (vmwLduAddActive u b ret s).active ↔ v = u ∨ v ∈ s.active := by
  obtain ⟨log, bug, hframe⟩ := exchangeFb_frame b ret s
  rw [addActive_eq, hframe]
  split_ifs with hu
  · refine ⟨.inr, fun h => ?_⟩
    rcases h with rfl | h
    · exact hu
    · exact h
  · exact mem_addActiveAt

theorem mem_updateUnits (hs : Listed s) : v ∈ (updateUnits u ret s).active ↔ staysActive s u v := by
  unfold updateUnits staysActive
  cases hfb : s.planeFb u with
  | none =>
    rw [mem_delActive hs]
    split_ifs with hv <;> simp [hv]
  | some b =>
    rw [mem_addActive]
    split_ifs with hv <;> simp [hv]

theorem programmed_commit : ProgrammedFromActive (vmwLduCommitList topology s) ↔
    ∀ v, s.active.head? = some v → topology = true ∧ (s.planeFb v).isSome = true := by
  have hdisplays : ∀ (us : List ℕ) (i : ℕ), ∀ w ∈ writeDisplays s.crtc i us, w.source = none := by
    intro us
    induction us with
    | nil => exact fun i w hw => absurd hw List.not_mem_nil
    | cons v vs ih =>
      intro i w hw
      rcases List.mem_cons.1 hw with rfl | hw
      · rfl
      · exact ih _ w hw
  unfold ProgrammedFromActive vmwLduCommitList
  cases hactive : s.active with
  | nil =>
    refine iff_of_true (fun w hw src hsrc => ?_) fun v hv => by cases hv
    cases topology <;> simp [bugOn, writeDisplays] at hw
    subst hw
    cases hsrc
  | cons v vs =>
    cases topology with
    | false =>
      refine iff_of_false (fun hall => ?_) fun hall => Bool.false_ne_true (hall v rfl).1
      simp [RegWrite.source] at hall
    | true =>
      refine ⟨fun hall v' hv' => ⟨rfl, ?_⟩, fun hall w hw src hsrc => ?_⟩
      · obtain rfl : v = v' := Option.some.inj hv'
        obtain ⟨_, b, hsrc, -⟩ :=
          hall (.svgaFb (.unit v (s.planeFb v))) (by simp [bugOn]) _ rfl
        rw [(FbSource.unit.inj hsrc).2]
        rfl
      · obtain ⟨b, hb⟩ := Option.isSome_iff_exists.1 (hall v rfl).2
        simp only [bugOn, Bool.not_true, Bool.false_eq_true, if_false, List.mem_append,
          List.mem_cons, List.not_mem_nil, or_false] at hw
        rcases hw with rfl | rfl | hw
        · cases hsrc
          exact ⟨v, b, by rw [hb], by simp [bugOn]⟩
        · cases hsrc
        · rw [hdisplays _ _ w hw] at hsrc
          cases hsrc

theorem commitList_fields (topology : Bool) (s : LegacyDisplay) :
    (vmwLduCommitList topology s).active = s.active ∧
    (vmwLduCommitList topology s).numActive = s.numActive ∧
    (vmwLduCommitList topology s).fb = s.fb ∧ (vmwLduCommitList topology s).pinLog = s.pinLog := by
  unfold vmwLduCommitList
  cases topology <;> exact ⟨rfl, rfl, rfl, rfl⟩

theorem Listed.commitList (hs : Listed s) : Listed (vmwLduCommitList topology s) := by
  obtain ⟨hactive, hnum, hfb, hpins⟩ := commitList_fields topology s
  have hbug : (vmwLduCommitList topology s).bug = s.bug := by
    unfold vmwLduCommitList
    cases topology <;> simp [bugOn, hs.count]
  refine ⟨?_, ?_, ?_, ?_, ?_, hbug.trans hs.bug⟩
  · rw [hactive]
    exact hs.sorted
  · rw [hactive]
    exact hs.units
  · rw [hactive, hnum]
    exact hs.count
  · rw [hactive, hfb]
    exact hs.fb
  · rw [hpins, hfb]
    exact hs.pins

theorem updateUnits_planeFb : (updateUnits u ret s).planeFb = s.planeFb := by
  unfold updateUnits
  cases s.planeFb u with
  | none =>
    obtain ⟨num, fb, log, bug, hframe⟩ := delActive_frame u s
    simp only [hframe]
  | some b =>
    obtain ⟨log, bug, hframe⟩ := exchangeFb_frame b ret s
    simp only [addActive_eq, hframe]
    split_ifs
    · rfl
    · rfl

theorem Listed.addActive_unpinned {e : Errno} (hs : Listed s) (hne : s.fb ≠ some b) :
    (vmwLduAddActive u b (some e) s).fb = some b ∧
    held (vmwLduAddActive u b (some e) s).pinLog = some 0 := by
  have hexchange : (LegacyUnits.exchangeFb b (some e) s).fb = some b ∧
      held (LegacyUnits.exchangeFb b (some e) s).pinLog = some 0 := by
    have hpins := hs.pins
    simp only [LegacyUnits.exchangeFb, bugOn, if_pos hne, dropFb]
    cases hfb : s.fb with
    | none =>
      rw [hfb] at hpins
      exact ⟨trivial, hpins⟩
    | some old =>
      rw [hfb] at hpins
      exact ⟨trivial, held_drop (m := 0) hpins⟩
  rw [addActive_eq]
  split_ifs
  · exact hexchange
  · exact hexchange

theorem head?_eq_some_iff (h : l.Pairwise (· < ·)) :
    l.head? = some v ↔ v ∈ l ∧ ∀ w < v, w ∉ l := by
  cases l with
  | nil => simp
  | cons x xs =>
    obtain ⟨hx, -⟩ := List.pairwise_cons.1 h
    simp only [List.head?_cons, Option.some.injEq]
    constructor
    · rintro rfl
      refine ⟨List.mem_cons_self, fun w hw hmem => ?_⟩
      rcases List.mem_cons.1 hmem with rfl | hmem
      · exact lt_irrefl _ hw
      · exact lt_asymm hw (hx w hmem)
    · rintro ⟨hmem, hleast⟩
      rcases List.mem_cons.1 hmem with rfl | hmem
      · rfl
      · exact absurd List.mem_cons_self (hleast x (hx v hmem))

theorem Inv.atomicUpdate_iff (hs : Inv s) (hu : u < numDisplayUnits) :
    Inv (vmwLduPrimaryPlaneAtomicUpdate topology u ret s) ↔
      updatesPinned topology s (.atomicUpdate u ret) := by
  have hupdate : vmwLduPrimaryPlaneAtomicUpdate topology u ret s =
      vmwLduCommitList topology (updateUnits u ret s) := rfl
  rw [hupdate]
  set r := updateUnits u ret s with hr
  have hmem : ∀ v, v ∈ r.active ↔ staysActive s u v := fun v => mem_updateUnits hs.toListed
  -- the last part of the condition speaks of the head of the list
  have hfirst : r.active.Pairwise (· < ·) → (∀ v ∈ r.active, v < numDisplayUnits) →
      ((∀ v, r.active.head? = some v → topology = true ∧ (r.planeFb v).isSome = true) ↔
        ∀ v < numDisplayUnits, staysActive s u v → (∀ w < v, ¬ staysActive s u w) →
          topology = true ∧ (s.planeFb v).isSome = true) := by
    intro hsorted hunits
    rw [hr, updateUnits_planeFb, ← hr]
    refine ⟨fun hall v _ hv hleast => hall v ((head?_eq_some_iff hsorted).2 ⟨(hmem v).2 hv, ?_⟩),
      fun hall v hv => ?_⟩
    · exact fun w hw hwmem => hleast w hw ((hmem w).1 hwmem)
    · obtain ⟨hvmem, hleast⟩ := (head?_eq_some_iff hsorted).1 hv
      exact hall v (hunits v hvmem) ((hmem v).1 hvmem) fun w hw hstays =>
        hleast w hw ((hmem w).2 hstays)
  constructor
  · intro ht
    obtain ⟨hactive, hnum, hfb, hpins⟩ := commitList_fields topology r
    have hsorted := ht.sorted
    have hunits := ht.units
    rw [hactive] at hsorted hunits
    refine ⟨fun b hb hne => ?_, (hfirst hsorted hunits).1 (programmed_commit.1 ht.programmed)⟩
    by_contra hfail
    obtain ⟨e, rfl⟩ := Option.ne_none_iff_exists'.1 hfail
    have hadd : r = vmwLduAddActive u b (some e) s := by
      rw [hr, updateUnits, Option.mem_def.1 hb]
    obtain ⟨hnew, hunpinned⟩ := hs.toListed.addActive_unpinned (u := u) (e := e) hne
    -- nothing is pinned, the framebuffer should be
    have hpinned := ht.pins
    rw [hpins, hfb, hadd, hnew, hunpinned] at hpinned
    simp [pinned] at hpinned
  · rintro ⟨hpin, hrest⟩
    have hlisted : Listed r := by
      rw [hr]
      unfold updateUnits
      cases hfb : s.planeFb u with
      | none => exact hs.toListed.delActive u
      | some b => exact hs.toListed.addActive hu (hpin b hfb)
    exact ⟨hlisted.commitList, programmed_commit.2 ((hfirst hlisted.sorted hlisted.units).2 hrest)⟩

theorem Inv.step_iff {a : Op} (hs : Inv s) (h : step topology s a = some t) :
    Inv t ↔ updatesPinned topology s a := by
  cases a with
  | swapState u fb crtc =>
    simp only [step, Option.ite_none_right_eq_some, Option.some.injEq] at h
    obtain ⟨-, rfl⟩ := h
    exact iff_of_true ⟨⟨hs.sorted, hs.units, hs.count, hs.fb, hs.pins, hs.bug⟩, hs.programmed⟩ trivial
  | atomicUpdate u ret =>
    simp only [step, Option.ite_none_right_eq_some, Option.some.injEq] at h
    obtain ⟨hu, rfl⟩ := h
    exact hs.atomicUpdate_iff hu

/-- In every run of admitted updates the active list is sorted without duplicates and counted,
    there is a framebuffer exactly while a unit is active, it is pinned once and nothing else
    is, nothing was unpinned that was not pinned, and the registers were last written from
    the framebuffer of a unit on the list. -/
theorem updating_runs_listed {as : List Op}
    (h : Runs (step topology) (updatesPinned topology) init as s) :
    s.active.Pairwise (· < ·) ∧ s.numActive = s.active.length ∧
    (s.fb ≠ none ↔ s.active ≠ []) ∧
    held s.pinLog = some (match s.fb with | none => 0 | some b => {b}) ∧
    (∀ w ∈ s.programmed, ∀ src ∈ w.source, ∃ u b, src = .unit u (some b) ∧ u ∈ s.active) ∧
    s.bug = false := by
  have hs : Inv s := h.invariant Inv inv_init fun _ _ _ hu hok hstep => (hu.step_iff hstep).2 hok
  refine ⟨hs.sorted, hs.count, ?_, ?_, hs.programmed, hs.bug⟩
  · rw [← hs.fb, Option.isSome_iff_ne_none]
  · rw [hs.pins]
    cases s.fb <;> rfl

/-- Two units are enabled, the second with a framebuffer of its own, and disabled in turn. -/
def enabledRun : List Op :=
  [.swapState 1 (some 5) ⟨0, 0, 800, 600⟩, .atomicUpdate 1 none,
    .swapState 0 (some 7) ⟨0, 0, 640, 480⟩, .atomicUpdate 0 none,
    .swapState 1 none ⟨0, 0, 0, 0⟩, .atomicUpdate 1 none]

theorem enabledRun_listed :
    let s := (execAdmitted (step true) (updatesPinned true) init enabledRun).getD init
    s.active = [0] ∧ s.numActive = 1 ∧ held s.pinLog = some {7} := by
  intro s
  have hrun : Runs (step true) (updatesPinned true) init enabledRun s := runs_admitted_getD (by decide)
  have hlisted := updating_runs_listed hrun
  have hactive : s.active = [0] := by decide
  have hfb : s.fb = some 7 := by decide
  refine ⟨hactive, ?_, ?_⟩
  · rw [hlisted.2.1, hactive]
    rfl
  · rw [hlisted.2.2.2.1, hfb]

/-- The framebuffer cannot be pinned; the unit is enabled and disabled. -/
def unpinnedRun : List Op :=
  [.swapState 0 (some 7) ⟨0, 0, 640, 480⟩, .atomicUpdate 0 (some .enomem),
    .swapState 0 none ⟨0, 0, 0, 0⟩, .atomicUpdate 0 none]

/-- It is unpinned all the same. On a device without a display topology no framebuffer of a
    unit is used at all. -/
theorem unpinnedRun_unpins :
    (∃ s, Runs (step true) anyLabel init unpinnedRun s ∧ held s.pinLog = none) ∧
    ∃ s, Runs (step false) anyLabel init (unpinnedRun.take 2) s ∧ s.active = [0] ∧
      s.programmed = [.svgaLayout 640 480 .listHead] :=
  ⟨⟨(exec (step true) init unpinnedRun).getD init, runs_getD (by decide), by decide⟩,
    (exec (step false) init (unpinnedRun.take 2)).getD init, runs_getD (by decide), by decide,
    by decide⟩

end Vmwgfx.LegacyUnits
