import Vmwgfx.LabelledRuns
import Vmwgfx.Shaders

set_option autoImplicit false

/-!
# The MOB of a DX shader

Whether a shader is on the list of its table tells whether the device has its MOB attached,
as long as no command that attaches it fails, no shader is added without MOB, and the MOB is
detached from the shaders of a buffer that moves.
-/
namespace Vmwgfx.Shaders
open ExecbufState (Errno)
open Views (EntryPhase)
open LabelledRuns ListPlaces

/-- The last command for the shader names the MOB that its buffer is. -/
def Attached (v : ℕ) (V : DxShader) (s : ShaderDev) : Prop :=
  ∃ b m, V.backup = some b ∧ V.mobHead = some b ∧ s.mobStart b = some m ∧
    lastBind v s.fifo = some ⟨v, V.shaderId, some m, V.backupOffset⟩

/-- What is true of the shader at `v`. -/
structure Good (v : ℕ) (V : DxShader) (s : ShaderDev) : Prop where
  mob : ∀ b, V.mobHead = some b → V.backup = some b ∧ s.mobStart b ≠ none
  ids : V.cotableHead = true → V.id = V.shaderId
  staged : V.phase = .staged → V.committed = false ∧ V.cotableHead = false
  attached : V.committed = true → V.cotableHead = true → Attached v V s
  scrubbed : V.committed = true → V.cotableHead = false → V.backup ≠ none ∧
    lastBind v s.fifo = some ⟨v, V.shaderId, none, 0⟩ ∧ V.id = -1

def cotablePlace (V : DxShader) : Option ℕ := if V.cotableHead then some V.cotable else none

def cotablePlaces (s : ShaderDev) (v : ℕ) : Option ℕ := (s.shaders v).bind cotablePlace

def mobPlaces (s : ShaderDev) (v : ℕ) : Option ℕ := (s.shaders v).bind DxShader.mobHead

structure Inv (s : ShaderDev) : Prop where
  cotables : Listed (cotablePlaces s) s.resourceList
  buffers : Listed (mobPlaces s) s.resList
  good : ∀ v V, s.shaders v = some V → Good v V s

/-- Everything but what concerns the shader at `v` alone. -/
structure Held (v : ℕ) (f : Focus) : Prop where
  cotables : Listed (Function.update (cotablePlaces f.2) v (cotablePlace f.1)) f.2.resourceList
  buffers : Listed (Function.update (mobPlaces f.2) v f.1.mobHead) f.2.resList
  others : ∀ w W, w ≠ v → f.2.shaders w = some W → Good w W f.2

/-- Attaching a MOB does not fail, a shader is added with its MOB attached, and it is detached
    when the buffer moves. -/
def admits (s : ShaderDev) : Op → Prop
  | .validate space v | .bindShader space v _ _ =>
    ∀ V, s.shaders v = some V → V.committed = true → V.cotableHead = false → space = true
  | .commitAdd v => ∀ V, s.shaders v = some V → Attached v V s
  | .moveOut space b =>
    ∀ v ∈ s.resList b, ∀ V, s.shaders v = some V → V.committed = true → V.cotableHead = true →
      space v = true
  | _ => True

variable {v w b : ℕ} {V W : DxShader} {s t : ShaderDev} {f : Focus} {space : Bool}

theorem lastBind_emit (cmd : BindCmd) (fifo : List BindCmd) :
    lastBind cmd.shader (fifo ++ [cmd]) = some cmd := by
  simp [lastBind]

theorem lastBind_emit_of_ne {cmd : BindCmd} (h : w ≠ cmd.shader) (fifo : List BindCmd) :
    lastBind w (fifo ++ [cmd]) = lastBind w fifo := by
  simp [lastBind, Ne.symm h]

theorem Attached.congr (h : Attached v V s) (hm : t.mobStart = s.mobStart)
    (hl : lastBind v t.fifo = lastBind v s.fifo) : Attached v V t := by
  obtain ⟨b, m, hb, hmob, hstart, hlast⟩ := h
  refine ⟨b, m, hb, hmob, ?_, ?_⟩
  · rw [hm]
    exact hstart
  · rw [hl]
    exact hlast

theorem Good.congr (h : Good v V s) (hm : t.mobStart = s.mobStart)
    (hl : lastBind v t.fifo = lastBind v s.fifo) : Good v V t := by
  refine ⟨?_, h.ids, h.staged, ?_, ?_⟩
  · rw [hm]
    exact h.mob
  · intro hcommitted hlinked
    exact (h.attached hcommitted hlinked).congr hm hl
  · rw [hl]
    exact h.scrubbed

theorem good_of_uncommitted (hcommitted : V.committed = false)
    (hmob : ∀ b, V.mobHead = some b → V.backup = some b ∧ s.mobStart b ≠ none)
    (hid : V.cotableHead = true → V.id = V.shaderId)
    (hstaged : V.phase = .staged → V.cotableHead = false) : Good v V s := by
  refine ⟨hmob, hid, fun h => ⟨hcommitted, hstaged h⟩, ?_, ?_⟩
  · intro h
    rw [hcommitted] at h
    cases h
  · intro h
    rw [hcommitted] at h
    cases h

theorem cotablePlaces_setShader : cotablePlaces (setShader v V s) =
    Function.update (cotablePlaces s) v (cotablePlace V) := by
  funext w
  unfold cotablePlaces
  by_cases hw : w = v
  · subst hw
    rw [setShader_self, Function.update_self, Option.bind_some]
  · rw [setShader_of_ne hw, Function.update_of_ne hw]

theorem mobPlaces_setShader : mobPlaces (setShader v V s) =
    Function.update (mobPlaces s) v V.mobHead := by
  funext w
  unfold mobPlaces
  by_cases hw : w = v
  · subst hw
    rw [setShader_self, Function.update_self, Option.bind_some]
  · rw [setShader_of_ne hw, Function.update_of_ne hw]

theorem Held.inv (h : Held v f) (hgood : Good v f.1 f.2) : Inv (setShader v f.1 f.2) := by
  constructor
  · rw [cotablePlaces_setShader]
    exact h.cotables
  · rw [mobPlaces_setShader]
    exact h.buffers
  · intro w W hW
    by_cases hwv : w = v
    · subst hwv
      rw [setShader_self] at hW
      obtain rfl := Option.some.inj hW
      exact hgood.congr rfl rfl
    · rw [setShader_of_ne hwv] at hW
      exact (h.others w W hwv hW).congr rfl rfl

theorem Inv.held (h : Inv s) (hV : s.shaders v = some V) : Held v (V, s) := by
  constructor
  · have hplace : cotablePlace V = cotablePlaces s v := by
      rw [cotablePlaces, hV, Option.bind_some]
    rw [hplace, Function.update_eq_self]
    exact h.cotables
  · have hplace : V.mobHead = mobPlaces s v := by
      rw [mobPlaces, hV, Option.bind_some]
    rw [hplace, Function.update_eq_self]
    exact h.buffers
  · intro w W _ hW
    exact h.good w W hW

theorem Held.change (h : Held v (V, s)) (hcotable : W.cotable = V.cotable)
    (hlinked : W.cotableHead = V.cotableHead) (hmob : W.mobHead = V.mobHead) :
    Held v (W, s) := by
  have hplace : cotablePlace W = cotablePlace V := by
    unfold cotablePlace
    rw [hcotable, hlinked]
  constructor
  · rw [hplace]
    exact h.cotables
  · rw [hmob]
    exact h.buffers
  · exact h.others

theorem Held.emit (h : Held v (V, s)) (cmd : BindCmd) (hcmd : cmd.shader = v) :
    Held v (V, emit cmd s) := by
  refine ⟨h.cotables, h.buffers, ?_⟩
  intro w W hwv hW
  subst hcmd
  exact (h.others w W hwv hW).congr rfl (lastBind_emit_of_ne hwv _)

theorem Held.cotableAdd (h : Held v (V, s)) (hoff : V.cotableHead = false) :
    Held v (vmwCotableAddResource v (V, s)) := by
  refine ⟨?_, h.buffers, fun w W hwv hW => (h.others w W hwv hW).congr rfl rfl⟩
  have hnone : cotablePlace V = none := by
    unfold cotablePlace
    rw [hoff]
    rfl
  have hadd := h.cotables.append (k := V.cotable) (i := v)
    (by rw [Function.update_self]; exact hnone)
  rw [Function.update_idem] at hadd
  exact hadd

theorem Held.cotableDel (h : Held v (V, s)) : Held v (cotableDel v (V, s)) := by
  refine ⟨?_, h.buffers, fun w W hwv hW => (h.others w W hwv hW).congr rfl rfl⟩
  have hdel := h.cotables.erase (k := V.cotable) (i := v) ?_
  · rw [Function.update_idem] at hdel
    exact hdel
  · intro a ha
    rw [Function.update_self] at ha
    unfold cotablePlace at ha
    split_ifs at ha
    exact (Option.some.inj ha).symm

theorem Held.mobAdd (h : Held v (V, s)) (hoff : V.mobHead = none) :
    Held v (mobAdd b v (V, s)) := by
  refine ⟨h.cotables, ?_, fun w W hwv hW => (h.others w W hwv hW).congr rfl rfl⟩
  have hadd := h.buffers.append (k := b) (i := v) (by rw [Function.update_self]; exact hoff)
  rw [Function.update_idem] at hadd
  exact hadd

theorem Held.mobDel (h : Held v f) : Held v (mobDel v f) := by
  obtain ⟨V, s⟩ := f
  cases hmob : V.mobHead with
  | none =>
    rw [mobDel_of_none s hmob]
    exact h
  | some b =>
    rw [mobDel_of_some s hmob]
    refine ⟨h.cotables, ?_, fun w W hwv hW => (h.others w W hwv hW).congr rfl rfl⟩
    have hdel := h.buffers.erase (k := b) (i := v) ?_
    · rw [Function.update_idem] at hdel
      exact hdel
    · intro a ha
      rw [Function.update_self] at ha
      exact (Option.some.inj (hmob.symm.trans ha)).symm

@[simp] theorem mobDel_mobHead (v : ℕ) (f : Focus) : (mobDel v f).1.mobHead = none := by
  obtain ⟨V, s⟩ := f
  cases hmob : V.mobHead with
  | none => rw [mobDel_of_none s hmob, hmob]
  | some b => rw [mobDel_of_some s hmob]

theorem good_of_attached (h : Attached v V s) (hlinked : V.cotableHead = true)
    (hid : V.id = V.shaderId) (hphase : V.phase ≠ .staged) : Good v V s := by
  refine ⟨?_, fun _ => hid, fun hstaged => absurd hstaged hphase, fun _ _ => h, ?_⟩
  · intro b hb
    obtain ⟨c, m, hbackup, hmob, hstart, -⟩ := h
    obtain rfl := Option.some.inj (hb.symm.trans hmob)
    refine ⟨hbackup, ?_⟩
    rw [hstart]
    exact Option.some_ne_none m
  · intro _ hoff
    rw [hlinked] at hoff
    cases hoff

theorem unscrub_skip (h : V.cotableHead = true ∨ V.committed = false) :
    vmwDxShaderUnscrub space v (V, s) = (none, (V, s)) := by
  rcases h with h | h <;> simp [vmwDxShaderUnscrub, h]

theorem unscrub_attach (hoff : V.cotableHead = false) (hcommitted : V.committed = true) :
    vmwDxShaderUnscrub true v (V, s) = (none, attach v (V, s)) := by
  simp [vmwDxShaderUnscrub, hoff, hcommitted]

theorem unscrub_noSpace (hoff : V.cotableHead = false) (hcommitted : V.committed = true) :
    vmwDxShaderUnscrub false v (V, s) = (some .enomem, (V, s)) := by
  simp [vmwDxShaderUnscrub, hoff, hcommitted]

theorem Good.phase_of_committed (h : Good v V s) (hcommitted : V.committed = true) :
    V.phase ≠ .staged := by
  intro hstaged
  have hoff := (h.staged hstaged).1
  rw [hcommitted] at hoff
  cases hoff

structure Same (V : DxShader) (s : ShaderDev) (f : Focus) : Prop where
  committed : f.1.committed = V.committed
  backup : f.1.backup = V.backup
  phase : f.1.phase = V.phase
  mobStart : f.2.mobStart = s.mobStart

/-- The state of a validation after the creation: a shader that is committed and off the list
    is bound next. -/
structure Created (v : ℕ) (f : Focus) : Prop where
  held : Held v f
  mob : ∀ b, f.1.mobHead = some b → f.1.backup = some b ∧ f.2.mobStart b ≠ none
  ids : f.1.cotableHead = true ∨ f.1.committed = true → f.1.id = f.1.shaderId
  staged : f.1.phase = .staged → f.1.committed = false ∧ f.1.cotableHead = false
  attached : f.1.committed = true → f.1.cotableHead = true → Attached v f.1 f.2
  unbound : f.1.committed = true → f.1.cotableHead = false →
    f.1.backup ≠ none ∧ f.1.mobHead = none

/-- A validation has no error, and a shader that is committed is attached then. -/
structure Validated (v : ℕ) (f : Focus) : Prop where
  held : Held v f
  good : Good v f.1 f.2
  linked : f.1.committed = true → f.1.cotableHead = true
  mobHead : f.1.mobHead = f.1.backup

theorem Held.attach (h : Held v (V, s)) (hoff : V.cotableHead = false) :
    Held v (attach v (V, s)) := (h.emit _ (by rfl)).cotableAdd hoff

theorem attached_attach (hbackup : V.backup = some b) {m : ℕ} (hstart : s.mobStart b = some m)
    (hW : W.backup = V.backup ∧ W.shaderId = V.shaderId ∧ W.backupOffset = V.backupOffset)
    (hmob : W.mobHead = some b) (hm : t.mobStart = s.mobStart)
    (hfifo : t.fifo = (attach v (V, s)).2.fifo) : Attached v W t := by
  obtain ⟨hWbackup, hid, hoffset⟩ := hW
  refine ⟨b, m, hWbackup.trans hbackup, hmob, ?_, ?_⟩
  · rw [hm]
    exact hstart
  · rw [hfifo, hid, hoffset, Shaders.attach, hbackup, Option.bind_some, hstart]
    exact lastBind_emit ⟨v, V.shaderId, some m, V.backupOffset⟩ s.fifo

theorem create_skip (h : V.mobHead = none ∨ V.committed = false) :
    vmwDxShaderCreate space v (V, s) = (none, ({ V with id := V.shaderId }, s)) := by
  rcases h with h | h
  · simp [vmwDxShaderCreate, h]
  · simp only [vmwDxShaderCreate, unscrub_skip (Or.inr h), ite_self]

theorem Good.off_of_id (h : Good v V s) (hid : V.id = -1) : V.cotableHead = false := by
  by_contra hon
  have hids := h.ids (Bool.eq_true_of_not_eq_false hon)
  omega

theorem create_spec (hheld : Held v (V, s)) (h : Good v V s) (hid : V.id = -1)
    (hspace : V.committed = true → V.cotableHead = false → space = true) :
    ∃ g, vmwDxShaderCreate space v (V, s) = (none, g) ∧ Same V s g ∧ Created v g := by
  have hoff := h.off_of_id hid
  by_cases hskip : V.mobHead = none ∨ V.committed = false
  · refine ⟨({ V with id := V.shaderId }, s), create_skip hskip, ⟨rfl, rfl, rfl, rfl⟩, ?_⟩
    refine ⟨hheld.change rfl rfl rfl, h.mob, fun _ => rfl, h.staged, ?_, ?_⟩
    · intro _ hlinked
      rw [hoff] at hlinked
      cases hlinked
    · intro hcommitted _
      refine ⟨(h.scrubbed hcommitted hoff).1, hskip.resolve_right ?_⟩
      rw [hcommitted]
      exact Bool.noConfusion
  · obtain ⟨hmob, hcommitted⟩ := not_or.1 hskip
    have hcommitted : V.committed = true := Bool.eq_true_of_not_eq_false hcommitted
    obtain ⟨b, hmob⟩ := Option.ne_none_iff_exists'.1 hmob
    obtain ⟨hbackup, hstart⟩ := h.mob b hmob
    obtain ⟨m, hm⟩ := Option.ne_none_iff_exists'.1 hstart
    obtain rfl := hspace hcommitted hoff
    let g : Focus := ({ (Shaders.attach v (V, s)).1 with id := V.shaderId },
      (Shaders.attach v (V, s)).2)
    refine ⟨g, ?_, ⟨rfl, rfl, rfl, rfl⟩, ?_⟩
    · simp only [vmwDxShaderCreate, hmob, Option.isSome_some, if_true,
        unscrub_attach hoff hcommitted]
      rfl
    · refine ⟨(hheld.attach hoff).change rfl rfl rfl, h.mob, fun _ => rfl, ?_, fun _ _ => ?_,
        ?_⟩
      · exact fun hstaged => absurd hstaged (h.phase_of_committed hcommitted)
      · exact attached_attach hbackup hm ⟨rfl, rfl, rfl⟩ hmob rfl rfl
      · intro _ hlinked
        cases hlinked

theorem Good.created (hheld : Held v (V, s)) (h : Good v V s) (hid : V.id ≠ -1) :
    Created v (V, s) where
  held := hheld
  mob := h.mob
  ids hor := by
    cases hlinked : V.cotableHead with
    | true => exact h.ids hlinked
    | false =>
      have hcommitted := hor.resolve_left (by rw [hlinked]; exact Bool.noConfusion)
      exact absurd (h.scrubbed hcommitted hlinked).2.2 hid
  staged := h.staged
  attached := h.attached
  unbound hcommitted hoff := absurd (h.scrubbed hcommitted hoff).2.2 hid

theorem Created.validated (h : Created v f) (hmob : f.1.mobHead = f.1.backup) :
    Validated v f := by
  have hlinked : f.1.committed = true → f.1.cotableHead = true := by
    intro hcommitted
    by_contra hoff
    obtain ⟨hbackup, hnone⟩ := h.unbound hcommitted (Bool.eq_false_of_not_eq_true hoff)
    exact hbackup (hmob.symm.trans hnone)
  refine ⟨h.held, ⟨h.mob, fun hl => h.ids (.inl hl), h.staged, h.attached, ?_⟩, hlinked, hmob⟩
  intro hcommitted hoff
  rw [hlinked hcommitted] at hoff
  cases hoff

theorem bind_spec (h : Created v (V, s)) (hbackup : V.backup = some b) (hmob : V.mobHead = none)
    (hstart : s.mobStart b ≠ none)
    (hspace : V.committed = true → V.cotableHead = false → space = true) :
    ∃ g, vmwDxShaderBind space v (V, s) = (none, g) ∧ Same V s (mobAdd b v g) ∧
      Validated v (mobAdd b v g) := by
  have hlinked : V.committed = true → V.cotableHead = false := by
    intro hcommitted
    by_contra hon
    obtain ⟨c, m, -, hc, -, -⟩ := h.attached hcommitted (Bool.eq_true_of_not_eq_false hon)
    rw [hmob] at hc
    cases hc
  obtain ⟨m, hm⟩ := Option.ne_none_iff_exists'.1 hstart
  cases hcommitted : V.committed with
  | false =>
    refine ⟨(V, s), ?_, ⟨rfl, rfl, rfl, rfl⟩, h.held.mobAdd hmob, ?_, ?_, hbackup.symm⟩
    · rw [vmwDxShaderBind, unscrub_skip (Or.inr hcommitted)]
    · apply good_of_uncommitted (V := { V with mobHead := some b }) hcommitted
      · intro c hc
        obtain rfl := Option.some.inj hc
        exact ⟨hbackup, hstart⟩
      · exact fun hl => h.ids (.inl hl)
      · exact fun hstaged => (h.staged hstaged).2
    · intro hc
      rw [show (mobAdd b v (V, s)).1.committed = false from hcommitted] at hc
      cases hc
  | true =>
    have hoff := hlinked hcommitted
    obtain rfl := hspace hcommitted hoff
    refine ⟨attach v (V, s), ?_, ⟨rfl, rfl, rfl, rfl⟩, (h.held.attach hoff).mobAdd hmob, ?_,
      fun _ => rfl, hbackup.symm⟩
    · rw [vmwDxShaderBind, unscrub_attach hoff hcommitted]
    · apply good_of_attached
      · exact attached_attach hbackup hm ⟨rfl, rfl, rfl⟩ rfl rfl rfl
      · rfl
      · exact h.ids (.inr hcommitted)
      · intro hstaged
        have huncommitted := (h.staged hstaged).1
        rw [hcommitted] at huncommitted
        cases huncommitted

theorem bindBackup_spec (h : Created v f)
    (hspace : f.1.committed = true → f.1.cotableHead = false → space = true)
    {r : Option Errno × Focus} (hr : bindBackup space v f.1.backup f = some r) :
    r.1 = none ∧ Same f.1 f.2 r.2 ∧ Validated v r.2 := by
  obtain ⟨V, s⟩ := f
  cases hbackup : V.backup with
  | none =>
    simp only [bindBackup, hbackup] at hr
    obtain rfl := Option.some.inj hr
    refine ⟨rfl, ⟨rfl, rfl, rfl, rfl⟩, h.validated ?_⟩
    refine Eq.trans ?_ hbackup.symm
    by_contra hmob
    obtain ⟨b, hmob⟩ := Option.ne_none_iff_exists'.1 hmob
    rw [(h.mob b hmob).1] at hbackup
    cases hbackup
  | some b =>
    cases hmob : V.mobHead with
    | some c =>
      simp only [bindBackup, hbackup, hmob, Option.isSome_some, if_true] at hr
      obtain rfl := Option.some.inj hr
      exact ⟨rfl, ⟨rfl, rfl, rfl, rfl⟩, h.validated (hmob.trans (h.mob c hmob).1.symm)⟩
    | none =>
      cases hstart : s.mobStart b with
      | none => simp [bindBackup, hbackup, hmob, hstart] at hr
      | some m =>
        obtain ⟨g, hg, hsame, hvalid⟩ := bind_spec h hbackup hmob
          (by rw [hstart]; exact Option.some_ne_none m) hspace
        simp only [bindBackup, hbackup, hmob, hstart, hg, Option.isSome_none,
          Option.isNone_some, Bool.false_eq_true, if_false] at hr
        obtain rfl := Option.some.inj hr
        exact ⟨rfl, hsame, hvalid⟩

theorem validate_spec (hheld : Held v (V, s)) (h : Good v V s)
    (hspace : V.committed = true → V.cotableHead = false → space = true)
    {r : Option Errno × Focus} (hr : vmwResourceDoValidate space v (V, s) = some r) :
    r.1 = none ∧ Same V s r.2 ∧ Validated v r.2 := by
  by_cases hid : V.id = -1
  · obtain ⟨g, hg, hsame, hcreated⟩ := create_spec hheld h hid hspace
    simp only [vmwResourceDoValidate, hid, if_true, hg] at hr
    rw [← hsame.backup] at hr
    obtain ⟨hnone, hsame', hvalid⟩ := bindBackup_spec hcreated
      (fun hcommitted _ => hspace (hsame.committed.symm.trans hcommitted) (h.off_of_id hid)) hr
    exact ⟨hnone, ⟨hsame'.committed.trans hsame.committed, hsame'.backup.trans hsame.backup,
      hsame'.phase.trans hsame.phase, hsame'.mobStart.trans hsame.mobStart⟩, hvalid⟩
  · simp only [vmwResourceDoValidate, hid, if_false] at hr
    exact bindBackup_spec (h.created hheld hid) hspace hr

/-- What a scrub leaves: the shader is on the list still only where the FIFO had no space. -/
structure Scrubbed (space : Bool) (v : ℕ) (V : DxShader) (s : ShaderDev) (f : Focus) : Prop where
  held : Held v f
  good : Good v f.1 f.2
  committed : f.1.committed = V.committed
  mobHead : f.1.mobHead = V.mobHead
  phase : f.1.phase = V.phase
  linked : f.1.cotableHead = true → V.cotableHead = true ∧ space = false
  mobStart : f.2.mobStart = s.mobStart
  shaders : f.2.shaders = s.shaders

theorem scrub_spec (hheld : Held v (V, s)) (h : Good v V s) (space : Bool) :
    Scrubbed space v V s (vmwDxShaderScrub space v (V, s)).2 := by
  cases hlinked : V.cotableHead with
  | false =>
    have hskip : vmwDxShaderScrub space v (V, s) = (none, (V, s)) := by
      simp [vmwDxShaderScrub, hlinked]
    rw [hskip]
    refine ⟨hheld, h, rfl, rfl, rfl, ?_, rfl, rfl⟩
    intro hon
    rw [hlinked] at hon
    cases hon
  | true =>
    cases space with
    | false =>
      have hskip : vmwDxShaderScrub false v (V, s) = (some .enomem, (V, s)) := by
        simp [vmwDxShaderScrub, hlinked]
      rw [hskip]
      exact ⟨hheld, h, rfl, rfl, rfl, fun hon => ⟨hon, rfl⟩, rfl, rfl⟩
    | true =>
      have hscrub : vmwDxShaderScrub true v (V, s) =
          (none, cotableDel v ({ V with id := -1 }, emit ⟨v, V.id, none, 0⟩ s)) := by
        simp [vmwDxShaderScrub, hlinked]
      rw [hscrub]
      refine ⟨?_, ?_, rfl, rfl, rfl, (fun hon => by cases hon), rfl, rfl⟩
      · exact ((hheld.emit ⟨v, V.id, none, 0⟩ (by rfl)).change
          (W := { V with id := -1 }) rfl rfl rfl).cotableDel
      · refine ⟨h.mob, (fun hon => by cases hon), ?_, (fun _ hon => by cases hon), ?_⟩
        · exact fun hstaged => ⟨(h.staged hstaged).1, rfl⟩
        · intro hcommitted _
          obtain ⟨b, m, hbackup, -, -, -⟩ := h.attached hcommitted hlinked
          refine ⟨?_, ?_, rfl⟩
          · exact hbackup.symm ▸ Option.some_ne_none b
          · have hlast := lastBind_emit ⟨v, V.id, none, 0⟩ s.fifo
            rw [h.ids hlinked] at hlast
            refine Eq.trans (congrArg (lastBind v) ?_) hlast
            rw [← h.ids hlinked]
            rfl

theorem mobDel_fst (v : ℕ) (f : Focus) : (mobDel v f).1 = { f.1 with mobHead := none } := by
  obtain ⟨V, s⟩ := f
  cases hmob : V.mobHead with
  | none =>
    rw [mobDel_of_none s hmob]
    exact congrArg (fun b => { V with mobHead := b }) hmob
  | some b => rw [mobDel_of_some s hmob]

theorem mobDel_snd (v : ℕ) (f : Focus) : (mobDel v f).2.mobStart = f.2.mobStart ∧
    (mobDel v f).2.fifo = f.2.fifo ∧ (mobDel v f).2.shaders = f.2.shaders := by
  obtain ⟨V, s⟩ := f
  cases hmob : V.mobHead with
  | none =>
    rw [mobDel_of_none s hmob]
    exact ⟨rfl, rfl, rfl⟩
  | some b =>
    rw [mobDel_of_some s hmob]
    exact ⟨rfl, rfl, rfl⟩

theorem Scrubbed.unbound (h : Scrubbed space v V s f)
    (hspace : V.committed = true → V.cotableHead = true → space = true) :
    Good v (mobDel v f).1 (mobDel v f).2 := by
  obtain ⟨hstart, hfifo, -⟩ := mobDel_snd v f
  rw [mobDel_fst]
  refine ⟨(fun b hb => by cases hb), h.good.ids, h.good.staged, ?_, ?_⟩
  · intro hcommitted hlinked
    obtain ⟨hon, hnospace⟩ := h.linked hlinked
    rw [hspace (h.committed.symm.trans hcommitted) hon] at hnospace
    cases hnospace
  · rw [hfifo]
    exact h.good.scrubbed

theorem Inv.unbindList (h : Inv s) {space : ℕ → Bool} {l : List ℕ}
    (hspace : ∀ v ∈ l, ∀ V, s.shaders v = some V → V.committed = true →
      V.cotableHead = true → space v = true) :
    let t := vmwResourceUnbindList space l s
    Inv t ∧ t.mobStart = s.mobStart ∧ ∀ w W, t.shaders w = some W →
      W.mobHead = none ∨ w ∉ l ∧ s.shaders w = some W := by
  induction l generalizing s with
  | nil => exact ⟨h, rfl, fun w W hW => .inr ⟨List.not_mem_nil, hW⟩⟩
  | cons v l ih =>
    cases hV : s.shaders v with
    | none =>
      obtain ⟨hinv, hstart, hshaders⟩ := ih h fun w hw => hspace w (List.mem_cons_of_mem v hw)
      simp only [vmwResourceUnbindList, hV]
      refine ⟨hinv, hstart, fun w W hW => (hshaders w W hW).imp_right ?_⟩
      rintro ⟨hwl, hW⟩
      refine ⟨?_, hW⟩
      rw [List.mem_cons, not_or]
      refine ⟨?_, hwl⟩
      rintro rfl
      rw [hV] at hW
      cases hW
    | some V =>
      have hscrub := scrub_spec (h.held hV) (h.good v V hV) (space v)
      have hV' := hspace v List.mem_cons_self V hV
      simp only [vmwResourceUnbindList, hV, vmwDxShaderUnbind]
      obtain ⟨hstart', -, hshaders'⟩ := mobDel_snd v (vmwDxShaderScrub (space v) v (V, s)).2
      have hnext := hscrub.held.mobDel.inv (hscrub.unbound hV')
      obtain ⟨hinv, hstart, hshaders⟩ := ih hnext fun w hw W hW hcommitted hlinked => by
        by_cases hwv : w = v
        · subst hwv
          rw [setShader_self, mobDel_fst] at hW
          obtain rfl := Option.some.inj hW
          exact hV' (hscrub.committed.symm.trans hcommitted) (hscrub.linked hlinked).1
        · rw [setShader_of_ne hwv, hshaders', hscrub.shaders] at hW
          exact hspace w (List.mem_cons_of_mem v hw) W hW hcommitted hlinked
      refine ⟨hinv, hstart.trans (hstart'.trans hscrub.mobStart), ?_⟩
      intro w W hW
      rcases hshaders w W hW with hnone | ⟨hwl, hW⟩
      · exact .inl hnone
      · by_cases hwv : w = v
        · subst hwv
          rw [setShader_self] at hW
          obtain rfl := Option.some.inj hW
          exact .inl (mobDel_mobHead ..)
        · rw [setShader_of_ne hwv, hshaders', hscrub.shaders] at hW
          exact .inr ⟨by simp [hwv, hwl], hW⟩

theorem Inv.cotableListScrub (h : Inv s) (space : ℕ → Bool) (readback : Bool) (l : List ℕ) :
    Inv (vmwDxShaderCotableListScrub space readback l s) := by
  induction l generalizing s with
  | nil => exact h
  | cons v l ih =>
    cases hV : s.shaders v with
    | none =>
      simp only [vmwDxShaderCotableListScrub, hV]
      exact ih h
    | some V =>
      have hscrub := scrub_spec (h.held hV) (h.good v V hV) (space v)
      simp only [vmwDxShaderCotableListScrub, hV]
      apply ih
      cases readback with
      | true =>
        rw [if_pos rfl]
        exact hscrub.held.inv hscrub.good
      | false =>
        rw [if_neg (by simp)]
        apply (hscrub.held.change (W := { (vmwDxShaderScrub (space v) v (V, s)).2.1 with
          committed := false }) rfl rfl rfl).inv
        exact good_of_uncommitted rfl hscrub.good.mob hscrub.good.ids
          fun hstaged => (hscrub.good.staged hstaged).2

theorem Good.bound (h : Good v V s) (hlinked : V.committed = true → V.cotableHead = true)
    (hW : W.committed = V.committed ∧ W.cotableHead = V.cotableHead ∧ W.id = V.id ∧
      W.shaderId = V.shaderId ∧ W.phase = V.phase) (hattached : Attached v W t) : Good v W t := by
  obtain ⟨hWcommitted, hWlinked, hWid, hWshader, hWphase⟩ := hW
  cases hcommitted : V.committed with
  | true =>
    apply good_of_attached hattached (hWlinked.trans (hlinked hcommitted))
    · rw [hWid, hWshader]
      exact h.ids (hlinked hcommitted)
    · rw [hWphase]
      exact h.phase_of_committed hcommitted
  | false =>
    apply good_of_uncommitted (hWcommitted.trans hcommitted)
    · intro c hc
      obtain ⟨b, m, hbackup, hmob, hstart, -⟩ := hattached
      obtain rfl := Option.some.inj (hc.symm.trans hmob)
      refine ⟨hbackup, ?_⟩
      rw [hstart]
      exact Option.some_ne_none m
    · rw [hWlinked, hWid, hWshader]
      exact h.ids
    · rw [hWphase, hWlinked]
      exact fun hstaged => (h.staged hstaged).2

theorem Validated.unreserve (h : Validated v f) {m offset : ℕ} (hstart : f.2.mobStart b = some m) :
    let g := vmwResourceUnreserve b offset v
      (f.1, emit ⟨v, f.1.shaderId, some m, offset⟩ f.2)
    Held v g ∧ Good v g.1 g.2 := by
  obtain ⟨V, s⟩ := f
  have hemit : Held v (V, emit ⟨v, V.shaderId, some m, offset⟩ s) := h.held.emit _ (by rfl)
  have hlast := lastBind_emit ⟨v, V.shaderId, some m, offset⟩ s.fifo
  by_cases hsame : V.backup = some b
  · have hkeep : vmwResourceUnreserve b offset v (V, emit ⟨v, V.shaderId, some m, offset⟩ s) =
        ({ V with backupOffset := offset }, emit ⟨v, V.shaderId, some m, offset⟩ s) := by
      simp [vmwResourceUnreserve, hsame]
    rw [hkeep]
    refine ⟨hemit.change rfl rfl rfl, h.good.bound h.linked ⟨rfl, rfl, rfl, rfl, rfl⟩ ?_⟩
    exact ⟨b, m, hsame, h.mobHead.trans hsame, hstart, hlast⟩
  · have hdel : (if V.backup.isSome then
        mobDel v (V, emit ⟨v, V.shaderId, some m, offset⟩ s)
        else (V, emit ⟨v, V.shaderId, some m, offset⟩ s)) =
        mobDel v (V, emit ⟨v, V.shaderId, some m, offset⟩ s) := by
      cases hbackup : V.backup with
      | some c => rw [Option.isSome_some, if_pos rfl]
      | none =>
        rw [mobDel_of_none _ (h.mobHead.trans hbackup)]
        exact ite_self _
    simp only [vmwResourceUnreserve, hsame, if_false, hdel]
    obtain ⟨hdelStart, hdelFifo, -⟩ :=
      mobDel_snd v (V, emit ⟨v, V.shaderId, some m, offset⟩ s)
    have hdelV := mobDel_fst v (V, emit ⟨v, V.shaderId, some m, offset⟩ s)
    have hheld := (hemit.mobDel.change (W := { (mobDel v
      (V, emit ⟨v, V.shaderId, some m, offset⟩ s)).1 with backup := some b }) rfl rfl rfl).mobAdd
        (b := b) (mobDel_mobHead ..)
    refine ⟨hheld.change rfl rfl rfl, h.good.bound h.linked ?_ ?_⟩
    · simp only [mobAdd, hdelV, and_self]
    · refine ⟨b, m, rfl, rfl, ?_, ?_⟩
      · simp only [mobAdd, hdelStart]
        exact hstart
      · simp only [mobAdd, hdelFifo, hdelV]
        exact hlast

theorem bindShader_spec (hheld : Held v (V, s)) (h : Good v V s) {offset : ℕ}
    (hspace : V.committed = true → V.cotableHead = false → space = true)
    (hf : bindShader space v b offset (V, s) = some f) : Held v f ∧ Good v f.1 f.2 := by
  cases hr : vmwResourceDoValidate space v (V, s) with
  | none => simp [bindShader, hr] at hf
  | some r =>
    obtain ⟨ret, g⟩ := r
    obtain ⟨hnone, hsame, hvalid⟩ := validate_spec hheld h hspace hr
    obtain rfl : ret = none := hnone
    cases hstart : s.mobStart b with
    | none => simp [bindShader, hr, hstart] at hf
    | some m =>
      simp only [bindShader, hr, hstart] at hf
      obtain rfl := Option.some.inj hf
      apply hvalid.unreserve
      rw [hsame.mobStart]
      exact hstart

theorem onShader_eq_some {g : DxShader → Option Focus} (h : onShader v s g = some t) :
    ∃ V f, s.shaders v = some V ∧ g V = some f ∧ t = setShader v f.1 f.2 := by
  unfold onShader at h
  split at h
  · cases h
  · next V hV =>
    obtain ⟨f, hf, rfl⟩ := Option.map_eq_some_iff.1 h
    exact ⟨V, f, hV, hf, rfl⟩

theorem Inv.setPhase (h : Inv s) (hV : s.shaders v = some V) {phase : EntryPhase}
    (hphase : phase ≠ .staged) : Inv (setShader v { V with phase := phase } s) := by
  have hgood := h.good v V hV
  apply ((h.held hV).change (W := { V with phase := phase }) rfl rfl rfl).inv
  exact ⟨hgood.mob, hgood.ids, fun hstaged => absurd hstaged hphase, hgood.attached,
    hgood.scrubbed⟩

theorem Inv.moveIn (h : Inv s) {m : ℕ} (hb : s.mobStart b = none) :
    Inv { s with mobStart := Function.update s.mobStart b (some m) } := by
  have hkeep : ∀ c n, s.mobStart c = some n →
      Function.update s.mobStart b (some m) c = some n := by
    intro c n hc
    have hcb : c ≠ b := by
      rintro rfl
      rw [hb] at hc
      cases hc
    rw [Function.update_of_ne hcb]
    exact hc
  refine ⟨h.cotables, h.buffers, fun v V hV => ?_⟩
  have hgood := h.good v V hV
  refine ⟨?_, hgood.ids, hgood.staged, ?_, hgood.scrubbed⟩
  · intro c hc
    obtain ⟨hbackup, hstart⟩ := hgood.mob c hc
    obtain ⟨n, hn⟩ := Option.ne_none_iff_exists'.1 hstart
    refine ⟨hbackup, ?_⟩
    change Function.update s.mobStart b (some m) c ≠ none
    rw [hkeep c n hn]
    exact Option.some_ne_none n
  · intro hcommitted hlinked
    obtain ⟨c, n, hbackup, hmob, hstart, hlast⟩ := hgood.attached hcommitted hlinked
    exact ⟨c, n, hbackup, hmob, hkeep c n hstart, hlast⟩

theorem Inv.moveOut (h : Inv s) (hb : ∀ v V, s.shaders v = some V → V.mobHead ≠ some b) :
    Inv { s with mobStart := Function.update s.mobStart b none } := by
  have hkeep : ∀ v V, s.shaders v = some V → ∀ c, V.mobHead = some c →
      Function.update s.mobStart b none c = s.mobStart c := by
    intro v V hV c hc
    have hcb : c ≠ b := by
      rintro rfl
      exact hb v V hV hc
    exact Function.update_of_ne hcb ..
  refine ⟨h.cotables, h.buffers, fun v V hV => ?_⟩
  have hgood := h.good v V hV
  refine ⟨?_, hgood.ids, hgood.staged, ?_, hgood.scrubbed⟩
  · intro c hc
    change V.backup = some c ∧ Function.update s.mobStart b none c ≠ none
    rw [hkeep v V hV c hc]
    exact hgood.mob c hc
  · intro hcommitted hlinked
    obtain ⟨c, n, hbackup, hmob, hstart, hlast⟩ := hgood.attached hcommitted hlinked
    exact ⟨c, n, hbackup, hmob, (hkeep v V hV c hmob).trans hstart, hlast⟩

theorem step_inv (s : ShaderDev) (op : Op) (t : ShaderDev) (h : Inv s) (hok : admits s op)
    (hs : step s op = some t) : Inv t := by
  cases op with
  | add v cotable userKey shaderType =>
    simp only [step] at hs
    split_ifs at hs with hfree hkey
    · obtain rfl := Option.some.inj hs
      have hheld : Held v
          (⟨cotable, userKey, false, false, userKey, none, none, 0, .staged⟩, s) := by
        constructor
        · have hplace : none = cotablePlaces s v := by rw [cotablePlaces, hfree, Option.bind_none]
          refine Eq.subst (motive := fun p => Listed p s.resourceList) ?_ h.cotables
          exact (Function.update_eq_self v (cotablePlaces s)).symm.trans
            (congrArg (Function.update (cotablePlaces s) v) hplace.symm)
        · have hplace : none = mobPlaces s v := by rw [mobPlaces, hfree, Option.bind_none]
          refine Eq.subst (motive := fun p => Listed p s.resList) ?_ h.buffers
          exact (Function.update_eq_self v (mobPlaces s)).symm.trans
            (congrArg (Function.update (mobPlaces s) v) hplace.symm)
        · exact fun w W _ hW => h.good w W hW
      apply hheld.inv
      exact good_of_uncommitted rfl (fun b hb => by cases hb) (fun _ => rfl) fun _ => rfl
    · obtain rfl := Option.some.inj hs
      exact h
  | commitAdd v =>
    obtain ⟨V, f, hV, hf, rfl⟩ := onShader_eq_some hs
    split_ifs at hf with hphase
    obtain rfl := Option.some.inj hf
    obtain ⟨-, hoff⟩ := (h.good v V hV).staged hphase
    have hheld := ((h.held hV).change (W := { V with phase := .committed }) rfl rfl rfl).cotableAdd
      hoff
    apply (hheld.change (W := { V with
      phase := .committed, cotableHead := true, committed := true, id := V.shaderId })
        rfl rfl rfl).inv
    apply good_of_attached ?_ (by rfl) (by rfl)
    · intro hstaged
      cases hstaged
    · exact hok V hV
  | revertAdd v =>
    obtain ⟨V, f, hV, hf, rfl⟩ := onShader_eq_some hs
    split_ifs at hf
    obtain rfl := Option.some.inj hf
    exact h.setPhase hV EntryPhase.noConfusion
  | remove v =>
    obtain ⟨V, f, hV, hf, rfl⟩ := onShader_eq_some hs
    split_ifs at hf
    obtain rfl := Option.some.inj hf
    exact h.setPhase hV EntryPhase.noConfusion
  | commitRemove v =>
    obtain ⟨V, f, hV, hf, rfl⟩ := onShader_eq_some hs
    split_ifs at hf
    obtain rfl := Option.some.inj hf
    have hheld := ((h.held hV).change (W := { V with phase := .gone }) rfl rfl rfl).cotableDel
    apply (hheld.change (W := { V with
      phase := .gone, cotableHead := false, committed := false, id := -1 }) rfl rfl rfl).inv
    exact good_of_uncommitted rfl (h.good v V hV).mob (fun hlinked => by cases hlinked)
      fun hstaged => by cases hstaged
  | revertRemove v =>
    obtain ⟨V, f, hV, hf, rfl⟩ := onShader_eq_some hs
    split_ifs at hf
    obtain rfl := Option.some.inj hf
    exact h.setPhase hV EntryPhase.noConfusion
  | reserve v b =>
    obtain ⟨V, f, hV, hf, rfl⟩ := onShader_eq_some hs
    split_ifs at hf with hbackup
    obtain rfl := Option.some.inj hf
    have hgood := h.good v V hV
    apply ((h.held hV).change (W := { V with backup := some b }) rfl rfl rfl).inv
    -- a shader that is committed has a buffer
    refine ⟨?_, hgood.ids, hgood.staged, ?_, ?_⟩
    · intro c hc
      have hsome := (hgood.mob c hc).1
      rw [hbackup] at hsome
      cases hsome
    · intro hcommitted hlinked
      obtain ⟨c, m, hsome, -⟩ := hgood.attached hcommitted hlinked
      rw [hbackup] at hsome
      cases hsome
    · intro hcommitted hoff
      exact absurd hbackup (hgood.scrubbed hcommitted hoff).1
  | moveIn b m =>
    simp only [step] at hs
    split_ifs at hs with hb
    obtain rfl := Option.some.inj hs
    exact h.moveIn hb
  | moveOut space b =>
    simp only [step] at hs
    split_ifs at hs
    obtain rfl := Option.some.inj hs
    obtain ⟨hinv, -, hshaders⟩ := h.unbindList (l := s.resList b) hok
    apply hinv.moveOut
    intro v V hV hmob
    rcases hshaders v V hV with hnone | ⟨hmem, hV⟩
    · rw [hnone] at hmob
      cases hmob
    · apply hmem
      rw [h.buffers.mem_iff, mobPlaces, hV]
      exact hmob
  | validate space v =>
    obtain ⟨V, f, hV, hf, rfl⟩ := onShader_eq_some hs
    obtain ⟨r, hr, rfl⟩ := Option.map_eq_some_iff.1 hf
    obtain ⟨-, -, hvalid⟩ := validate_spec (h.held hV) (h.good v V hV) (hok V hV) hr
    exact hvalid.held.inv hvalid.good
  | bindShader space v b offset =>
    obtain ⟨V, f, hV, hf, rfl⟩ := onShader_eq_some hs
    obtain ⟨hheld, hgood⟩ := bindShader_spec (h.held hV) (h.good v V hV) (hok V hV) hf
    exact hheld.inv hgood
  | cotableListScrub space cotable readback =>
    obtain rfl := Option.some.inj hs
    exact h.cotableListScrub space readback _

theorem start_inv : Inv start where
  cotables := listed_nil
  buffers := listed_nil
  good v V hV := by cases hV

theorem runs_inv {ops : List Op} (h : Runs step admits start ops s) : Inv s :=
  h.invariant Inv start_inv step_inv

theorem validate_noSpace (h : Good v V s) (hcommitted : V.committed = true)
    (hoff : V.cotableHead = false) {r : Option Errno × Focus}
    (hr : vmwResourceDoValidate false v (V, s) = some r) :
    r.2.1.cotableHead = false ∧ lastBind v r.2.2.fifo = some ⟨v, V.shaderId, none, 0⟩ ∧
      ∀ space, vmwResourceDoValidate space v r.2 = some (none, r.2) := by
  obtain ⟨hsome, hlast, hid⟩ := h.scrubbed hcommitted hoff
  obtain ⟨b, hbackup⟩ := Option.ne_none_iff_exists'.1 hsome
  have hnext : (V.shaderId : ℤ) ≠ -1 := by omega
  cases hmob : V.mobHead with
  | some c =>
    -- the error of the creation is reported, but the shader has its id then
    simp only [vmwResourceDoValidate, hid, if_true, vmwDxShaderCreate, hmob, Option.isSome_some,
      unscrub_noSpace hoff hcommitted] at hr
    obtain rfl := Option.some.inj hr
    refine ⟨hoff, hlast, fun space => ?_⟩
    simp [vmwResourceDoValidate, bindBackup, hnext, hbackup]
  | none =>
    simp only [vmwResourceDoValidate, hid, if_true, create_skip (Or.inl hmob), hbackup, bindBackup,
      hmob, Option.isSome_none, Bool.false_eq_true, if_false, vmwDxShaderBind] at hr
    split_ifs at hr
    rw [unscrub_noSpace (by exact hoff) (by exact hcommitted)] at hr
    obtain rfl := Option.some.inj hr
    refine ⟨hoff, hlast, fun space => ?_⟩
    simp [vmwResourceDoValidate, bindBackup, mobAdd, hnext]

/-- A committed shader is on the list of its table exactly while the last command for it names a
    MOB, which is that of its buffer. Every further validation attaches the MOB. -/
theorem runs_attached {ops : List Op} (h : Runs step admits start ops s)
    (hV : s.shaders v = some V) (hcommitted : V.committed = true) :
    (V.cotableHead = true ↔ ∃ cmd, lastBind v s.fifo = some cmd ∧ cmd.mobid ≠ none) ∧
    (V.cotableHead = true → Attached v V s) ∧
    ∀ space ret f, admits s (.validate space v) →
      vmwResourceDoValidate space v (V, s) = some (ret, f) →
      ret = none ∧ f.1.cotableHead = true ∧ Attached v f.1 f.2 := by
  have hinv := runs_inv h
  have hgood := hinv.good v V hV
  refine ⟨?_, hgood.attached hcommitted, ?_⟩
  · constructor
    · intro hlinked
      obtain ⟨b, m, -, -, -, hlast⟩ := hgood.attached hcommitted hlinked
      exact ⟨_, hlast, Option.some_ne_none m⟩
    · rintro ⟨cmd, hlast, hmobid⟩
      by_contra hoff
      obtain ⟨-, hscrubbed, -⟩ := hgood.scrubbed hcommitted (Bool.eq_false_of_not_eq_true hoff)
      obtain rfl := Option.some.inj (hlast.symm.trans hscrubbed)
      exact hmobid rfl
  · intro space ret f hok hr
    obtain ⟨hret, hsame, hvalid⟩ := validate_spec (hinv.held hV) hgood (hok V hV) hr
    have hcommitted' := hsame.committed.trans hcommitted
    have hlinked := hvalid.linked hcommitted'
    exact ⟨hret, hlinked, hvalid.good.attached hcommitted' hlinked⟩

def addedRun : List Op := [.add 0 9 5 1, .moveIn 3 70, .bindShader true 0 3 16]

/-- Its table is paged out, and its buffer moves later on. -/
def pagedRun : List Op :=
  [.cotableListScrub (fun _ => true) 9 true, .validate true 0, .moveOut (fun _ => true) 3,
   .moveIn 3 71]

theorem pagedRun_attached : ∃ s V f,
    Runs step admits start (addedRun ++ .commitAdd 0 :: pagedRun) s ∧
    s.shaders 0 = some V ∧ V.cotableHead = false ∧
    vmwResourceDoValidate true 0 (V, s) = some (none, f) ∧ Attached 0 f.1 f.2 := by
  let r := (exec step start addedRun).getD start
  let u := (step r (.commitAdd 0)).getD start
  let s := (exec step u pagedRun).getD start
  have hadded : Runs step admits start addedRun r := by
    apply Runs.of_exec
    · intro op hop s
      fin_cases hop
      · trivial
      · trivial
      · exact fun V _ _ _ => rfl
    · rfl
  have hattached : admits r (.commitAdd 0) := by
    intro V hV
    obtain rfl := Option.some.inj hV
    exact ⟨3, 70, by decide, by decide, by decide, by decide⟩
  have hpaged : Runs step admits u pagedRun s := by
    apply Runs.of_exec
    · intro op hop s
      fin_cases hop
      · trivial
      · exact fun V _ _ _ => rfl
      · exact fun v _ V _ _ _ => rfl
      · trivial
    · rfl
  have hrun := hadded.trans (.next hattached (by rfl) hpaged)
  have hV : s.shaders 0 = some ⟨9, 5, true, false, -1, none, some 3, 16, .committed⟩ := by decide
  obtain ⟨-, -, hvalidate⟩ := runs_attached hrun hV (by rfl)
  have hr : (vmwResourceDoValidate true 0
      (⟨9, 5, true, false, -1, none, some 3, 16, .committed⟩, s)).isSome = true := by decide
  obtain ⟨⟨ret, f⟩, hr⟩ := Option.isSome_iff_exists.1 hr
  obtain ⟨rfl, -, hattached⟩ := hvalidate true ret f (fun _ _ _ _ => rfl) hr
  exact ⟨s, _, f, hrun, hV, rfl, hr, hattached⟩

/-- There is no space to bind the buffer after it has moved. -/
def unboundRun : List Op := addedRun ++ .commitAdd 0 :: pagedRun ++ [.validate false 0]

/-- The validation that did not attach the MOB returned zero, and so does the next one. -/
theorem unboundRun_unattached : ∃ s V, Runs step anyLabel start unboundRun s ∧
    s.shaders 0 = some V ∧ V.committed = true ∧ V.cotableHead = false ∧
    vmwResourceDoValidate true 0 (V, s) = some (none, (V, s)) := by
  let s := (exec step start unboundRun).getD start
  have hV : s.shaders 0 = some ⟨9, 5, true, false, 5, some 3, some 3, 16, .committed⟩ := by decide
  exact ⟨s, _, runs_getD (by decide), hV, rfl, rfl, rfl⟩

end Vmwgfx.Shaders