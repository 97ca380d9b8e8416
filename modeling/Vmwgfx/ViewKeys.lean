import Vmwgfx.ResRevert
import Vmwgfx.Shaders
import Vmwgfx.Views

set_option autoImplicit false

/-!
# The ids of views and shaders

`vmwgfx_so.c` and `vmwgfx_shader.c`: the managers of command buffer resources file views and
shaders under keys made of their type and of the id that user-space gave. The ids are checked
where a view or a shader is added, removed or, for shaders only, looked up. A resource is
named by the number of those created before it.
-/
namespace Vmwgfx.ViewKeys
open HashTable LabelledRuns FailingState ResManager
open ExecbufState (Errno Stop)

/-- What a resource was created for: a view of a type, a DX shader, or a shader of a type. -/
inductive Created where
  | view (viewType viewId : ℕ)
  | dxShader (id : ℕ)
  | compatShader (userKey shaderType : ℕ)
  deriving DecidableEq, Repr

/-- The managers of the contexts, and what each resource was created for. -/
structure Contexts (hash : ℕ → ℕ) where
  managers : Managers hash
  created : List Created

variable {hash : ℕ → ℕ}

def start (hash : ℕ → ℕ) : Contexts hash := ⟨ResManager.created hash, []⟩

/-- `vmw_view_max`, behind the types of shader resource, render target and depth stencil
    views. -/
def vmwViewMax : ℕ := 3

def vmwViewKey (userKey viewType : ℕ) : ℕ := userKey ||| (viewType <<< 20)

def vmwViewIdOk (userKey viewType : ℕ) : Bool :=
  Views.vmwViewIdOk userKey && viewType < vmwViewMax

def vmwShaderKey (userKey shaderType : ℕ) : ℕ := userKey ||| (shaderType <<< 20)

/-- A new resource is handed to the manager. Its first reference is given up in any case, so
    it is released if the manager does not take it. -/
def addCreated (A : Allocator) (man : ℕ) (resType : CmdbufResType) (userKey : ℕ) (c : Created)
    (mem : Bool) : Run (Contexts hash) Stop Unit := fun s =>
  let r := vmwCmdbufResAdd A man resType userKey s.created.length mem s.managers
  (r.1, ⟨r.2, s.created ++ [c]⟩)

/-- How the steps of an addition end: the size of the command, what is allocated before the
    resource is handed over, and the entry of the manager. -/
structure AddEnds where
  cmdSize : Bool
  alloc : Option Errno
  entry : Bool
  deriving DecidableEq, Repr

def vmwViewAdd (A : Allocator) (o : AddEnds) (man viewType userKey : ℕ) :
    Run (Contexts hash) Stop Unit := fun s =>
  if !o.cmdSize then (.error (.errno .einval), s)
  else if !vmwViewIdOk userKey viewType then (.error (.errno .einval), s)
  else
    match o.alloc with
    | some e => (.error (.errno e), s)
    | none =>
      addCreated A man .view (vmwViewKey userKey viewType) (.view viewType userKey) o.entry s

/-- The ids of DX shaders are those of one name space, whatever the type. -/
def vmwDxShaderAdd (A : Allocator) (o : AddEnds) (man userKey shaderType : ℕ) :
    Run (Contexts hash) Stop Unit := fun s =>
  if !Shaders.vmwShaderIdOk userKey shaderType then (.error (.errno .einval), s)
  else
    match o.alloc with
    | some e => (.error (.errno e), s)
    | none => addCreated A man .shader (vmwShaderKey userKey 0) (.dxShader userKey) o.entry s

/-- `shader` tells whether `vmw_shader_alloc` succeeds. That it failed is not looked at, and
    its error pointer is followed. -/
def vmwCompatShaderAdd (A : Allocator) (o : AddEnds) (shader : Bool)
    (man userKey shaderType : ℕ) : Run (Contexts hash) Stop Unit := fun s =>
  if !Shaders.vmwShaderIdOk userKey shaderType then (.error (.errno .einval), s)
  else
    match o.alloc with
    | some e => (.error (.errno e), s)
    | none =>
      if shader then
        addCreated A man .shader (vmwShaderKey userKey shaderType)
          (.compatShader userKey shaderType) o.entry s
      else (.error .nullRes, s)

def removeKey (man : ℕ) (resType : CmdbufResType) (userKey : ℕ) :
    Run (Contexts hash) Stop (Option ℕ) := fun s =>
  let r := vmwCmdbufResRemove man resType userKey s.managers
  (r.1, ⟨r.2, s.created⟩)

def vmwViewRemove (man viewType userKey : ℕ) : Run (Contexts hash) Stop (Option ℕ) := fun s =>
  if !vmwViewIdOk userKey viewType then (.error (.errno .einval), s)
  else removeKey man .view (vmwViewKey userKey viewType) s

def vmwShaderRemove (man userKey shaderType : ℕ) : Run (Contexts hash) Stop (Option ℕ) := fun s =>
  if !Shaders.vmwShaderIdOk userKey shaderType then (.error (.errno .einval), s)
  else removeKey man .shader (vmwShaderKey userKey shaderType) s

def vmwShaderLookup (s : Contexts hash) (man userKey shaderType : ℕ) : Except Errno ℕ :=
  if !Shaders.vmwShaderIdOk userKey shaderType then .error .einval
  else vmwCmdbufResLookup s.managers man .shader (vmwShaderKey userKey shaderType)

def vmwViewLookup (s : Contexts hash) (man viewType userKey : ℕ) : Except Errno ℕ :=
  vmwCmdbufResLookup s.managers man .view (vmwViewKey userKey viewType)

inductive Op where
  | viewAdd (o : AddEnds) (man viewType userKey : ℕ)
  | viewRemove (man viewType userKey : ℕ)
  | dxShaderAdd (o : AddEnds) (man userKey shaderType : ℕ)
  | compatShaderAdd (o : AddEnds) (shader : Bool) (man userKey shaderType : ℕ)
  | shaderRemove (man userKey shaderType : ℕ)
  | commit
  | revert
  deriving DecidableEq, Repr

/-- The calls of batches, each to its end, unless an error pointer is followed. -/
def step (A : Allocator) (notifies : ℕ → Bool) (s : Contexts hash) : Op → Option (Contexts hash)
  | .viewAdd o man viewType userKey => some (vmwViewAdd A o man viewType userKey s).2
  | .viewRemove man viewType userKey => some (vmwViewRemove man viewType userKey s).2
  | .dxShaderAdd o man userKey shaderType => some (vmwDxShaderAdd A o man userKey shaderType s).2
  | .compatShaderAdd o shader man userKey shaderType =>
    match vmwCompatShaderAdd A o shader man userKey shaderType s with
    | (.error .nullRes, _) => none
    | (_, t) => some t
  | .shaderRemove man userKey shaderType => some (vmwShaderRemove man userKey shaderType s).2
  | .commit => some { s with managers := (vmwCmdbufResCommit notifies s.managers).2 }
  | .revert => some { s with managers := (vmwCmdbufResRevert s.managers).2 }

def Created.ok : Created → Bool
  | .view viewType viewId => vmwViewIdOk viewId viewType
  | .dxShader id => Shaders.vmwShaderIdOk id 0
  | .compatShader userKey shaderType => Shaders.vmwShaderIdOk userKey shaderType

def Created.key : Created → ℕ
  | .view viewType viewId => resKey .view (vmwViewKey viewId viewType)
  | .dxShader id => resKey .shader (vmwShaderKey id 0)
  | .compatShader userKey shaderType => resKey .shader (vmwShaderKey userKey shaderType)

theorem key_parts (resType : CmdbufResType) (userKey ty : ℕ) :
    resKey resType (userKey ||| ty <<< 20) % 2 ^ 20 = userKey % 2 ^ 20 ∧
      resKey resType (userKey ||| ty <<< 20) / 2 ^ 20 =
        userKey / 2 ^ 20 ||| ty ||| resType.code * 16 := by
  unfold resKey
  rw [Nat.shiftLeft_eq, Nat.shiftLeft_eq]
  constructor
  · rw [Nat.or_mod_two_pow, Nat.or_mod_two_pow, Nat.mul_mod_left]
    have hcode : resType.code * 2 ^ 24 % 2 ^ 20 = 0 := by omega
    rw [hcode, Nat.or_zero, Nat.or_zero]
  · rw [Nat.or_div_two_pow, Nat.or_div_two_pow, Nat.mul_div_cancel _ (by norm_num)]
    congr 1
    omega

theorem high_bits_iff {q t t' : ℕ} (ht : t < 3) (ht' : t' < 3) :
    q ||| t ||| 16 = t' ||| 16 ↔ q < 32 ∧ q % 16 ||| t = t' := by
  constructor
  · intro h
    have hmod : (q ||| t ||| 16) % 2 ^ 4 = q % 2 ^ 4 ||| t % 2 ^ 4 ||| 16 % 2 ^ 4 := by
      rw [Nat.or_mod_two_pow, Nat.or_mod_two_pow]
    have hdiv : (q ||| t ||| 16) / 2 ^ 5 = q / 2 ^ 5 ||| t / 2 ^ 5 ||| 16 / 2 ^ 5 := by
      rw [Nat.or_div_two_pow, Nat.or_div_two_pow]
    have hsum : t' ||| 16 = t' + 16 := by
      interval_cases t' <;> rfl
    rw [h, hsum] at hmod hdiv
    have hname : 16 % 2 ^ 4 = 0 := rfl
    have hlow : q % 2 ^ 4 = q % 16 := rfl
    have hname' : 16 / 2 ^ 5 = 0 := rfl
    rw [Nat.mod_eq_of_lt (by omega : t < 2 ^ 4), hname, Nat.or_zero,
      hlow] at hmod
    rw [Nat.div_eq_of_lt (by omega : t < 2 ^ 5), hname', Nat.or_zero, Nat.or_zero] at hdiv
    omega
  · rintro ⟨hq, rfl⟩
    have hall : ∀ q < 32, ∀ t < 3, q ||| t ||| 16 = (q % 16 ||| t) ||| 16 := by decide
    exact hall q hq t ht

theorem vmwViewIdOk_iff {i t : ℕ} : vmwViewIdOk i t = true ↔ i < 65533 ∧ t < 3 := by
  unfold vmwViewIdOk Views.vmwViewIdOk
  rw [Bool.and_eq_true, decide_eq_true_iff, decide_eq_true_iff]
  rfl

theorem vmwShaderIdOk_iff {i t : ℕ} :
    Shaders.vmwShaderIdOk i t = true ↔ i < 2 ^ 20 ∧ t < 16 := by
  simp only [Shaders.vmwShaderIdOk, Bool.and_eq_true, decide_eq_true_eq]
  omega

theorem viewKey_eq_iff {t t' i i' : ℕ} (ht : t < vmwViewMax) (hok : vmwViewIdOk i' t' = true) :
    resKey .view (vmwViewKey i t) = resKey .view (vmwViewKey i' t') ↔
      i % 2 ^ 20 = i' ∧ i < 2 ^ 25 ∧ i / 2 ^ 20 % 16 ||| t = t' := by
  rw [vmwViewIdOk_iff] at hok
  obtain ⟨hmod, hdiv⟩ := key_parts .view i t
  obtain ⟨hmod', hdiv'⟩ := key_parts .view i' t'
  have hlow : i' % 2 ^ 20 = i' := Nat.mod_eq_of_lt (by omega)
  have hhigh : i' / 2 ^ 20 = 0 := Nat.div_eq_of_lt (by omega)
  rw [hhigh, Nat.zero_or] at hdiv'
  have hbits := high_bits_iff (q := i / 2 ^ 20) ht hok.2
  unfold vmwViewKey
  constructor
  · intro h
    rw [h, hmod', hlow] at hmod
    rw [h, hdiv'] at hdiv
    obtain ⟨hq, hor⟩ := hbits.1 hdiv.symm
    omega
  · rintro ⟨hlow', hlt, hor⟩
    have hdivs := hbits.2 ⟨by omega, hor⟩
    rw [← Nat.div_add_mod (resKey .view (i ||| t <<< 20)) (2 ^ 20), hmod, hdiv,
      ← Nat.div_add_mod (resKey .view (i' ||| t' <<< 20)) (2 ^ 20), hmod', hdiv', hlow, hlow']
    exact congrArg (fun d => 2 ^ 20 * d + i') hdivs

theorem shaderKey_ne_viewKey {i t i' t' : ℕ} (hok : Shaders.vmwShaderIdOk i t = true) :
    resKey .shader (vmwShaderKey i t) ≠ resKey .view (vmwViewKey i' t') := by
  rw [vmwShaderIdOk_iff] at hok
  intro h
  have hdiv := (key_parts .shader i t).2
  unfold vmwShaderKey vmwViewKey at h
  rw [h, (key_parts .view i' t').2, Nat.div_eq_of_lt hok.1, Nat.zero_or] at hdiv
  have hview : 16 ≤ i' / 2 ^ 20 ||| t' ||| CmdbufResType.view.code * 16 := Nat.right_le_or
  have hshader : t ||| CmdbufResType.shader.code * 16 = t := Nat.or_zero t
  omega

theorem shaderKey_eq {i t i' t' : ℕ} (hok : Shaders.vmwShaderIdOk i t = true)
    (hok' : Shaders.vmwShaderIdOk i' t' = true)
    (h : resKey .shader (vmwShaderKey i t) = resKey .shader (vmwShaderKey i' t')) :
    i = i' ∧ t = t' := by
  rw [vmwShaderIdOk_iff] at hok hok'
  obtain ⟨hmod, hdiv⟩ := key_parts .shader i t
  obtain ⟨hmod', hdiv'⟩ := key_parts .shader i' t'
  unfold vmwShaderKey at h
  rw [h, hmod', Nat.mod_eq_of_lt hok.1, Nat.mod_eq_of_lt hok'.1] at hmod
  rw [h, hdiv', Nat.div_eq_of_lt hok.1, Nat.div_eq_of_lt hok'.1, Nat.zero_or, Nat.zero_or] at hdiv
  have hshader : ∀ t, t ||| CmdbufResType.shader.code * 16 = t := Nat.or_zero
  rw [hshader, hshader] at hdiv
  exact ⟨hmod.symm, hdiv.symm⟩

section Kept
variable {A : Allocator} {notifies : ℕ → Bool} {s t : Managers hash} {P : ℕ → ℕ → Prop}

/-- Every entry that is listed or staged has a resource that belongs to its key. -/
def Kept (P : ℕ → ℕ → Prop) (s : Managers hash) : Prop :=
  ∀ a, (a ∈ s.staged ∨ ∃ m, a ∈ s.list m) → P (s.entry a).res (s.entry a).key

theorem Kept.found {m k a : ℕ} (hs : Wf s) (h : Kept P s) (hf : s.found m k = some a) :
    P (s.entry a).res k := by
  obtain ⟨-, hkey, hl | ⟨hst, -⟩⟩ := hs.found hf
  · exact hkey ▸ h a (.inr ⟨m, hl⟩)
  · exact hkey ▸ h a (.inl hst)

theorem Kept.same (h : Kept P s)
    (hin : ∀ a, (a ∈ t.staged ∨ ∃ m, a ∈ t.list m) → a ∈ s.staged ∨ ∃ m, a ∈ s.list m)
    (hsame : ∀ a, (t.entry a).res = (s.entry a).res ∧ (t.entry a).key = (s.entry a).key) :
    Kept P t := by
  intro a ha
  rw [(hsame a).1, (hsame a).2]
  exact h a (hin a ha)

theorem Kept.call (hs : Wf s) (h : Kept P s) (c : Call)
    (hnew : ∀ man resType userKey res, c = .add man resType userKey res true → P res c.key) :
    Kept P (call A c s).2 := by
  rcases call_cases (A := A) hs c with ⟨e, hc⟩ | ⟨e, hc⟩ | ⟨man, resType, userKey, res, ht, he, -, -, hc⟩ |
    ⟨man, resType, userKey, a, -, hf, -, -, hc⟩ | ⟨man, resType, userKey, a, -, hf, hl, hc⟩
  · rw [hc]
    exact h
  · rw [hc]
    exact h
  · rw [hc]
    intro b hb
    by_cases hnewb : b = A.alloc s.used
    · subst hnewb
      rw [entry_stageAdd_new]
      exact hnew man resType userKey res he
    · have hold : b ∈ s.staged ∨ ∃ m, b ∈ s.list m :=
        hb.imp_left fun hst => (mem_staged_stageAdd.1 hst).resolve_right hnewb
      have hused : b ∈ s.used := by
        rcases hold with hst | ⟨m, hl⟩
        · exact (hs.staged hst).2
        · exact (hs.listed hl).2.2
      rw [entry_stageAdd_used (A.fresh _) hused]
      exact h b hold
  · rw [hc]
    refine h.same (fun b hb => ?_) fun b => ⟨rfl, rfl⟩
    exact hb.imp (fun hst => (mem_staged_free.1 hst).1) fun ⟨m, hm⟩ => ⟨m, (mem_list_free.1 hm).1⟩
  · rw [hc]
    refine h.same (fun b hb => ?_) fun b => ?_
    · rcases hb with hst | ⟨m, hm⟩
      · rcases mem_staged_stageRemove.1 hst with hst | rfl
        · exact .inl hst
        · exact .inr ⟨man, hl⟩
      · exact .inr ⟨m, (mem_list_stageRemove.1 hm).1⟩
    · by_cases hb : b = a
      · subst hb
        rw [entry_stageRemove_self]
        exact ⟨rfl, rfl⟩
      · rw [entry_stageRemove_of_ne hb]
        exact ⟨rfl, rfl⟩

theorem Kept.commit (hs : Wf s) (h : Kept P s) :
    Kept P (vmwCmdbufResCommit notifies s).2 := by
  obtain ⟨t, ht, hc⟩ := commit_ok notifies hs
  rw [ht]
  refine h.same (fun a ha => ?_) hc.same
  rw [hc.staged] at ha
  obtain ⟨m, hm⟩ := ha.resolve_left List.not_mem_nil
  rw [hc.list] at hm
  rcases List.mem_append.1 hm with hm | hm
  · exact .inr ⟨m, hm⟩
  · exact .inl (List.mem_filter.1 hm).1

theorem Kept.revert (hs : Wf s) (h : Kept P s) : Kept P (vmwCmdbufResRevert s).2 := by
  obtain ⟨t, ht, hr⟩ := revert_ok hs
  rw [ht]
  refine h.same (fun a ha => ?_) fun a => ⟨(hr.same a).1, (hr.same a).2.1⟩
  rw [hr.staged] at ha
  obtain ⟨m, hm⟩ := ha.resolve_left List.not_mem_nil
  rw [hr.list] at hm
  rcases List.mem_append.1 hm with hm | hm
  · exact .inr ⟨m, hm⟩
  · exact .inl (List.mem_filter.1 hm).1

end Kept

section Runs
variable {A : Allocator} {notifies : ℕ → Bool} {s t : Contexts hash}

/-- The resource was created for the key, with an id that was let pass. -/
def Filed (created : List Created) (res key : ℕ) : Prop :=
  ∃ c, created[res]? = some c ∧ c.ok = true ∧ key = c.key

structure Inv (s : Contexts hash) : Prop where
  wf : Wf s.managers
  filed : Kept (Filed s.created) s.managers

theorem inv_start (hash : ℕ → ℕ) : Inv (start hash) where
  wf := Wf.created
  filed a ha := by simp [start, ResManager.created] at ha

theorem Inv.addCreated {man userKey : ℕ} {resType : CmdbufResType} {c : Created} (mem : Bool)
    (hs : Inv s) (hok : c.ok = true) (hkey : resKey resType userKey = c.key) :
    Inv (addCreated A man resType userKey c mem s).2 := by
  have hkept : Kept (Filed (s.created ++ [c])) s.managers := by
    intro a ha
    obtain ⟨c', hc', hok', hkey'⟩ := hs.filed a ha
    exact ⟨c', List.getElem?_append_left (List.getElem?_eq_some_iff.1 hc').1 ▸ hc', hok', hkey'⟩
  refine ⟨hs.wf.call (A := A) (.add man resType userKey s.created.length mem),
    hkept.call (A := A) hs.wf (.add man resType userKey s.created.length mem) ?_⟩
  rintro man' resType' userKey' res heq
  cases heq
  exact ⟨c, List.getElem?_concat_length, hok, hkey⟩

theorem Inv.removeKey (hs : Inv s) (man : ℕ) (resType : CmdbufResType) (userKey : ℕ) :
    Inv (removeKey man resType userKey s).2 where
  wf := hs.wf.call (A := .next) (.remove man resType userKey)
  filed := hs.filed.call (A := .next) hs.wf (.remove man resType userKey)
    (fun _ _ _ _ heq => by cases heq)

theorem Inv.viewAdd (hs : Inv s) (o : AddEnds) (man viewType userKey : ℕ) :
    Inv (vmwViewAdd A o man viewType userKey s).2 := by
  unfold vmwViewAdd
  split_ifs with hsize hok
  · exact hs
  · exact hs
  · have hid : (Created.view viewType userKey).ok = true := by simpa [Created.ok] using hok
    cases o.alloc with
    | some e => exact hs
    | none => exact hs.addCreated o.entry hid rfl

theorem Inv.dxShaderAdd (hs : Inv s) (o : AddEnds) (man userKey shaderType : ℕ) :
    Inv (vmwDxShaderAdd A o man userKey shaderType s).2 := by
  unfold vmwDxShaderAdd
  split_ifs with hok
  · exact hs
  · cases o.alloc with
    | some e => exact hs
    | none =>
      have hid : (Created.dxShader userKey).ok = true := by
        have hok : Shaders.vmwShaderIdOk userKey shaderType = true := by simpa using hok
        rw [vmwShaderIdOk_iff] at hok
        exact vmwShaderIdOk_iff.2 ⟨hok.1, by omega⟩
      exact hs.addCreated o.entry hid rfl

theorem Inv.compatShaderAdd (hs : Inv s) (o : AddEnds) (shader : Bool)
    (man userKey shaderType : ℕ) :
    Inv (vmwCompatShaderAdd A o shader man userKey shaderType s).2 := by
  unfold vmwCompatShaderAdd
  split_ifs with hok hshader
  · exact hs
  · have hid : (Created.compatShader userKey shaderType).ok = true := by
      simpa [Created.ok] using hok
    cases o.alloc with
    | some e => exact hs
    | none => exact hs.addCreated o.entry hid rfl
  · cases o.alloc with
    | some e => exact hs
    | none => exact hs

theorem Inv.step {o : Op} (hs : Inv s) (h : step A notifies s o = some t) : Inv t := by
  cases o with
  | viewAdd o man viewType userKey =>
    cases h
    exact hs.viewAdd o man viewType userKey
  | viewRemove man viewType userKey =>
    cases h
    unfold vmwViewRemove
    split_ifs
    · exact hs
    · exact hs.removeKey man _ _
  | dxShaderAdd o man userKey shaderType =>
    cases h
    exact hs.dxShaderAdd o man userKey shaderType
  | compatShaderAdd o shader man userKey shaderType =>
    have hadd := hs.compatShaderAdd (A := A) o shader man userKey shaderType
    simp only [ViewKeys.step] at h
    split at h
    · cases h
    · rename_i hr
      cases h
      rw [hr] at hadd
      exact hadd
  | shaderRemove man userKey shaderType =>
    cases h
    unfold vmwShaderRemove
    split_ifs
    · exact hs
    · exact hs.removeKey man _ _
  | commit =>
    cases h
    have hstep : ResManager.step A notifies s.managers .commit =
      some (vmwCmdbufResCommit notifies s.managers).2 := rfl
    exact ⟨hs.wf.step hstep, hs.filed.commit hs.wf⟩
  | revert =>
    cases h
    have hstep : ResManager.step A notifies s.managers .revert =
      some (vmwCmdbufResRevert s.managers).2 := rfl
    exact ⟨hs.wf.step hstep, hs.filed.revert hs.wf⟩

theorem inv_of_runs {ops : List Op} (h : Runs (step A notifies) anyLabel (start hash) ops s) :
    Inv s := h.invariant Inv (inv_start hash) fun _ _ _ hs _ hstep => hs.step hstep

theorem Inv.viewLookup {man viewType userKey res : ℕ} (hs : Inv s)
    (h : vmwViewLookup s man viewType userKey = .ok res) :
    ∃ t i, s.created[res]? = some (.view t i) ∧ vmwViewIdOk i t = true ∧
      resKey .view (vmwViewKey userKey viewType) = resKey .view (vmwViewKey i t) := by
  unfold vmwViewLookup vmwCmdbufResLookup at h
  split at h
  · cases h
  · rename_i a hf
    cases h
    obtain ⟨c, hc, hok, hkey⟩ := hs.filed.found hs.wf hf
    cases c with
    | view t i => exact ⟨t, i, hc, hok, hkey⟩
    | dxShader i => exact absurd hkey.symm (shaderKey_ne_viewKey hok)
    | compatShader i t => exact absurd hkey.symm (shaderKey_ne_viewKey hok)

theorem shaderLookup_exact {ops : List Op} {man userKey shaderType res : ℕ}
    (hrun : Runs (step A notifies) anyLabel (start hash) ops s)
    (h : vmwShaderLookup s man userKey shaderType = .ok res) :
    s.created[res]? = some (.compatShader userKey shaderType) ∨
      shaderType = 0 ∧ s.created[res]? = some (.dxShader userKey) := by
  have hs := inv_of_runs hrun
  unfold vmwShaderLookup vmwCmdbufResLookup at h
  split_ifs at h with hid
  have hid : Shaders.vmwShaderIdOk userKey shaderType = true := by simpa using hid
  split at h
  · cases h
  · rename_i a hf
    cases h
    obtain ⟨c, hc, hok, hkey⟩ := hs.filed.found hs.wf hf
    cases c with
    | view t i => exact absurd hkey (shaderKey_ne_viewKey hid)
    | dxShader i =>
      obtain ⟨rfl, rfl⟩ := shaderKey_eq hid hok hkey
      exact .inr ⟨rfl, hc⟩
    | compatShader i t =>
      obtain ⟨rfl, rfl⟩ := shaderKey_eq hid hok hkey
      exact .inl hc

theorem resAdd_ok {s : Managers hash} {man userKey : ℕ} {resType : CmdbufResType}
    {ht : OpenHash hash ℕ} (res : ℕ)
    (h : drmHtInsertItem (s.resources man) ⟨A.alloc s.used, resKey resType userKey⟩ = some ht) :
    vmwCmdbufResAdd A man resType userKey res true s =
      (.ok (), s.stageAdd (A.alloc s.used) man (resKey resType userKey) res ht) := by
  unfold vmwCmdbufResAdd
  simp only [if_true, h]

/-- A view that is added to the manager of a new context is found under every id that makes
    its key. -/
theorem added_found (hash : ℕ → ℕ) (A : Allocator) (notifies : ℕ → Bool) (man : ℕ) {viewType userKey t i : ℕ}
    (hok : vmwViewIdOk i t = true)
    (hkey : resKey .view (vmwViewKey userKey viewType) = resKey .view (vmwViewKey i t)) :
    ∃ s : Contexts hash, Runs (step A notifies) anyLabel (start hash)
        [.viewAdd ⟨true, none, true⟩ man t i] s ∧
      vmwViewLookup s man viewType userKey = .ok 0 ∧ s.created[0]? = some (.view t i) := by
  have hinsert : ∃ ht, drmHtInsertItem ((created hash).resources man)
      ⟨A.alloc [], resKey .view (vmwViewKey i t)⟩ = some ht := by
    refine Option.ne_none_iff_exists'.1 fun hn => ?_
    exact drmHtInsertItem_eq_none_iff.1 hn drmHtFindItem_create
  obtain ⟨ht, hinsert⟩ := hinsert
  have hadd : vmwViewAdd A ⟨true, none, true⟩ man t i (start hash) =
      (.ok (), ⟨(created hash).stageAdd (A.alloc []) man (resKey .view (vmwViewKey i t)) 0 ht,
        [.view t i]⟩) := by
    have hres := resAdd_ok (A := A) (s := created hash) 0 hinsert
    unfold vmwViewAdd
    simp only [hok, Bool.not_true, Bool.false_eq_true, if_false]
    unfold ViewKeys.addCreated
    simp only [start, List.length_nil, hres, List.nil_append]
    rfl
  have hstep : step A notifies (start hash) (.viewAdd ⟨true, none, true⟩ man t i) = some
      ⟨(created hash).stageAdd (A.alloc []) man (resKey .view (vmwViewKey i t)) 0 ht,
        [.view t i]⟩ := by
    simp only [step, hadd]
  refine ⟨_, .next trivial hstep (.refl _), ?_, rfl⟩
  unfold vmwViewLookup vmwCmdbufResLookup
  simp only
  rw [hkey, found_stageAdd hinsert, if_pos ⟨rfl, rfl⟩]
  simp only [entry_stageAdd_new]

/-- The key of a view lookup is that of no view of another type or id. -/
def ownKey (viewType userKey : ℕ) : Prop :=
  userKey < 2 ^ 20 ∨ 2 ^ 25 ≤ userKey ∨ Views.svgaCotableMaxIds ≤ userKey % 2 ^ 20 ∨
    vmwViewMax ≤ userKey / 2 ^ 20 % 16 ||| viewType

theorem ownKey_iff {viewType userKey : ℕ} (ht : viewType < vmwViewMax) :
    ownKey viewType userKey ↔ ∀ t i, vmwViewIdOk i t = true →
      resKey .view (vmwViewKey userKey viewType) = resKey .view (vmwViewKey i t) →
        t = viewType ∧ i = userKey := by
  have hkeys : ∀ t i, vmwViewIdOk i t = true →
      (resKey .view (vmwViewKey userKey viewType) = resKey .view (vmwViewKey i t) ↔
        userKey % 2 ^ 20 = i ∧ userKey < 2 ^ 25 ∧ userKey / 2 ^ 20 % 16 ||| viewType = t) :=
    fun t i => viewKey_eq_iff ht
  constructor
  · intro hown t i hok heq
    obtain ⟨rfl, hlt, rfl⟩ := (hkeys t i hok).1 heq
    rw [vmwViewIdOk_iff] at hok
    unfold ownKey Views.svgaCotableMaxIds vmwViewMax at hown
    have hsmall : userKey < 2 ^ 20 := by omega
    rw [Nat.div_eq_of_lt hsmall, Nat.mod_eq_of_lt hsmall]
    exact ⟨Nat.zero_or viewType, rfl⟩
  · intro hall
    by_contra hown
    unfold ownKey at hown
    push Not at hown
    obtain ⟨hlarge, hlt, hid, htype⟩ := hown
    have hok : vmwViewIdOk (userKey % 2 ^ 20) (userKey / 2 ^ 20 % 16 ||| viewType) = true :=
      vmwViewIdOk_iff.2 ⟨hid, htype⟩
    have hsame := (hall _ _ hok ((hkeys _ _ hok).2 ⟨rfl, hlt, rfl⟩)).2
    omega

/-- Views of different types or ids, and views and shaders, have different keys; and what a
    lookup finds is always the view of its type and id exactly if no other view has its key. -/
theorem viewLookup_exact_iff (A : Allocator) (notifies : ℕ → Bool) {viewType userKey : ℕ}
    (ht : viewType < vmwViewMax) :
    ((∀ ops (s : Contexts hash) man res, Runs (step A notifies) anyLabel (start hash) ops s →
        vmwViewLookup s man viewType userKey = .ok res →
          s.created[res]? = some (.view viewType userKey)) ↔ ownKey viewType userKey) ∧
      (∀ t i t' i', vmwViewIdOk i t = true → vmwViewIdOk i' t' = true →
        (Created.view t i).key = (Created.view t' i').key → t = t' ∧ i = i') ∧
      ∀ t i (c : Created), (∀ t' i', c ≠ .view t' i') → c.ok = true → (Created.view t i).key ≠ c.key := by
  refine ⟨?_, fun t i t' i' hok hok' hkey => ?_, fun t i c hc hok => ?_⟩
  · rw [ownKey_iff ht]
    constructor
    · intro h t i hok hkey
      obtain ⟨s, hrun, hlookup, hcreated⟩ := added_found hash A notifies 0 hok hkey
      have hfound := h _ s 0 0 hrun hlookup
      rw [hcreated] at hfound
      cases hfound
      exact ⟨rfl, rfl⟩
    · intro h ops s man res hrun hlookup
      obtain ⟨t, i, hcreated, hok, hkey⟩ := (inv_of_runs hrun).viewLookup hlookup
      obtain ⟨rfl, rfl⟩ := h t i hok hkey
      exact hcreated
  · rw [vmwViewIdOk_iff] at hok
    have hparts := (viewKey_eq_iff hok.2 hok').1 hkey
    rw [Nat.mod_eq_of_lt (by omega), Nat.div_eq_of_lt (by omega), Nat.zero_mod,
      Nat.zero_or] at hparts
    exact ⟨hparts.2.2, hparts.1⟩
  · cases c with
    | view t' i' => exact absurd rfl (hc t' i')
    | dxShader i' => exact (shaderKey_ne_viewKey hok).symm
    | compatShader i' t' => exact (shaderKey_ne_viewKey hok).symm

/-- Ids of 20 bits are their own. -/
theorem smallId_exact : ∃ s : Contexts (· % 4096),
    Runs (step .next fun _ => false) anyLabel (start (· % 4096))
      [.viewAdd ⟨true, none, true⟩ 0 0 5] s ∧
    vmwViewLookup s 0 0 5 = .ok 0 ∧ s.created[0]? = some (.view 0 5) := by
  obtain ⟨s, hrun, hlookup, -⟩ := added_found (· % 4096) .next (fun _ => false) 0
    (by decide : vmwViewIdOk 5 0 = true) rfl
  have hview : 0 < vmwViewMax := by decide
  have hown : ownKey 0 5 := .inl (by decide)
  exact ⟨s, hrun, hlookup,
    (viewLookup_exact_iff .next (fun _ => false) hview).1.2 hown _ s 0 0 hrun hlookup⟩

/-- A shader resource view with the id `0x100005` was not added; the lookup gives the render
    target view with the id 5. -/
theorem otherView_found : ∃ s : Contexts (· % 4096),
    Runs (step .next fun _ => false) anyLabel (start (· % 4096))
      [.viewAdd ⟨true, none, true⟩ 0 1 5] s ∧
    vmwViewLookup s 0 0 0x100005 = .ok 0 ∧ s.created[0]? = some (.view 1 5) :=
  added_found _ .next (fun _ => false) 0 (by decide) (by decide)

end Runs

end Vmwgfx.ViewKeys
