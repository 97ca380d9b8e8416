import Vmwgfx.ExecbufFraming

set_option autoImplicit false

/-!
# Resource relocations

Where the ids of a command lie, in which commands the recorded relocations are, and what
`vmw_resource_relocations_apply` writes. The handlers read ids at the places that their
structures give, whatever `header.size` says.
-/
namespace Vmwgfx.ExecbufRelocations
open Word32 ByteStore FailingState LabelledRuns ExecbufState ExecbufHandlers ExecbufVerifier
  ExecbufTrail ExecbufFields ExecbufFraming

variable {σ : Type} {K : Kernel σ} {s t : SwContext σ}

def svgaCbMaxSize : ℕ := 512 * 1024

def svga3dCmdNop : ℕ := 1119

section Apply
variable {resId : ℕ → ℕ} {cb cb' : Memory} {r : ResRelocation} {rels : List ResRelocation}

/-- One relocation, with the device ids `resId`, where -1 is `svga3dInvalidId`; `none` is a
    NULL resource that is followed. -/
def applyRelocation (resId : ℕ → ℕ) (r : ResRelocation) (cb : Memory) : Option Memory :=
  match r.relType with
  | .normal => r.res.map fun x => store cb r.offset (resId x)
  | .nop => some (store cb r.offset svga3dCmdNop)
  | .condNop => r.res.map fun x =>
      if resId x = svga3dInvalidId then store cb r.offset svga3dCmdNop else cb

def vmwResourceRelocationsApply (resId : ℕ → ℕ) : List ResRelocation → Memory → Option Memory
  | [], cb => some cb
  | r :: rels, cb => (applyRelocation resId r cb).bind (vmwResourceRelocationsApply resId rels)

theorem applyRelocation_some (h : applyRelocation resId r cb = some cb') :
    cb' = cb ∨ ∃ v, cb' = store cb r.offset v := by
  unfold applyRelocation at h
  split at h
  · obtain ⟨x, -, rfl⟩ := Option.map_eq_some_iff.1 h
    exact .inr ⟨_, rfl⟩
  · exact .inr ⟨_, (Option.some.inj h).symm⟩
  · obtain ⟨x, -, rfl⟩ := Option.map_eq_some_iff.1 h
    split
    · exact .inr ⟨_, rfl⟩
    · exact .inl rfl

theorem vmwResourceRelocationsApply_frame
    (h : vmwResourceRelocationsApply resId rels cb = some cb') {b : ℤ} (hb : cb' b ≠ cb b) :
    ∃ r ∈ rels, (r.offset : ℤ) ≤ b ∧ b < r.offset + 4 := by
  induction rels generalizing cb with
  | nil =>
    cases h
    exact absurd rfl hb
  | cons r rels ih =>
    obtain ⟨cb₁, h₁, h⟩ := Option.bind_eq_some_iff.1 h
    by_cases hb₁ : cb' b = cb₁ b
    · by_contra hout
      refine hb (hb₁.trans ?_)
      rcases applyRelocation_some h₁ with rfl | ⟨v, rfl⟩
      · rfl
      · refine store_outside ?_
        by_contra hin
        exact hout ⟨r, by simp, by omega, by omega⟩
    · obtain ⟨r', hr', hb'⟩ := ih h hb₁
      exact ⟨r', List.mem_cons_of_mem _ hr', hb'⟩

end Apply

section Fields

/-- The bytes of the command at the cursor that lie in the stream. -/
def own (l : Loop σ) : ℕ := min (8 + word l.sw.mem (l.buf + 4)) l.curSize.toNat

/-- The words from which the handler reads ids, and the header if that is to be replaced,
    are bytes of the command itself. -/
def Fits (K : Kernel σ) (l : Loop σ) : Prop :=
  ∀ e, svgaCmdMax ≤ word l.sw.mem l.buf → cmdEntry (word l.sw.mem l.buf) = some e →
    (∀ a ∈ idFields K l.buf l.sw e.func, a + 4 ≤ l.buf + own l) ∧
    (∀ a ∈ headerSites K l.buf l.sw e.func, a + 4 ≤ l.buf + own l)

def newReads (l l' : Loop σ) : List IdRead := l'.sw.idReads.drop l.sw.idReads.length

def newRels (l l' : Loop σ) : List ResRelocation :=
  l'.sw.resRelocations.drop l.sw.resRelocations.length

/-- A pass reads ids and records relocations in the bytes of its own command only. -/
structure InOwn (l l' : Loop σ) : Prop where
  reads : ∀ f ∈ newReads l l', l.buf ≤ f.loc ∧ f.loc + 4 ≤ l.buf + own l
  rels : ∀ r ∈ newRels l l', l.buf ≤ (r.offset : ℤ) ∧ (r.offset : ℤ) + 4 ≤ l.buf + own l

theorem idFields_ge {p : ℤ} (func : Handler) : ∀ a ∈ idFields K p s func, p + 8 ≤ a := by
  intro a ha
  cases func
  case draw =>
    simp only [idFields, drawIds, List.mem_append, List.mem_flatMap, List.mem_singleton] at ha
    rcases ha with ha | ⟨i, -, ha⟩ | ⟨i, -, ha⟩ <;> omega
  case texState =>
    simp only [idFields, texStateId, List.mem_append, List.mem_flatMap, List.mem_singleton] at ha
    rcases ha with ha | ⟨i, -, ha⟩
    · omega
    · split_ifs at ha
      · simp only [List.mem_singleton] at ha
        omega
      · simp at ha
  case setShader =>
    simp only [idFields] at ha
    split_ifs at ha <;> simp at ha <;> omega
  case dxBindShader =>
    simp only [idFields] at ha
    split_ifs at ha <;> simp at ha
    omega
  case dxSetVertexBuffers =>
    simp only [idFields, elementIds, List.mem_flatMap, List.mem_singleton] at ha
    obtain ⟨i, -, ha⟩ := ha
    omega
  case dxSetSoTargets =>
    simp only [idFields, elementIds, List.mem_flatMap, List.mem_singleton] at ha
    obtain ⟨i, -, ha⟩ := ha
    omega
  all_goals
    simp [idFields] at ha
    try omega

theorem headerSites_eq {p : ℤ} (func : Handler) : ∀ a ∈ headerSites K p s func, a = p := by
  intro a ha
  cases func <;> simp [headerSites] at ha <;> omega

theorem headerSites_recorded {p : ℤ} {func : Handler} (h : func.run K p s = (.ok (), t))
    {a : ℤ} (ha : a ∈ headerSites K p s func) : idFields K p s func ≠ [] ∨
    ∃ r rels, t.resRelocations = s.resRelocations ++ rels ∧ r ∈ rels ∧
      r.offset = (p % 2 ^ 29).toNat := by
  cases func
  case shaderDefine => exact .inl (by simp [idFields])
  case shaderDestroy => exact .inl (by simp [idFields])
  case dxViewRemove =>
    rcases vmwCmdDxViewRemove_ok h with ⟨hview, -⟩ | ⟨-, u, v, hu, h⟩
    · simp [headerSites, hview] at ha
    · right
      refine ⟨⟨some v, (p % 2 ^ 29).toNat, .condNop⟩, _, ?_, List.mem_singleton_self _, rfl⟩
      rw [(vmwResourceRelocationAdd_ok h).rels, hu.rels]
  all_goals simp [headerSites] at ha

/-- A cursor inside a stream of at most the size that a submission may have. -/
structure InStream (size : ℕ) (l : Loop σ) : Prop where
  buf : 0 ≤ l.buf
  cur : 0 ≤ l.curSize
  total : l.buf + l.curSize = size

theorem own_le (l : Loop σ) : own l ≤ l.curSize.toNat := Nat.min_le_right _ _

theorem InStream.offset {size : ℕ} {l : Loop σ} (hin : InStream size l)
    (hsize : size ≤ svgaCbMaxSize) {a : ℤ} (ha : l.buf ≤ a) (ha' : a + 4 ≤ l.buf + own l) :
    ((a % 2 ^ 29).toNat : ℤ) = a := by
  have := hin.buf
  have := hin.cur
  have := hin.total
  have := own_le l
  unfold svgaCbMaxSize at hsize
  rw [Int.emod_eq_of_lt (by omega) (by omega)]
  omega

theorem InStream.header {size : ℕ} {l : Loop σ} (hin : InStream size l)
    (hsize : size ≤ svgaCbMaxSize) : ((l.buf % 2 ^ 29).toNat : ℤ) = l.buf := by
  have := hin.buf
  have := hin.cur
  have := hin.total
  unfold svgaCbMaxSize at hsize
  rw [Int.emod_eq_of_lt (by omega) (by omega)]
  omega

theorem pass_inOwn_iff {size k : ℕ} {l l' : Loop σ} (hsize : size ≤ svgaCbMaxSize)
    (hin : InStream size l) (h : pass K l k = some l') : InOwn l l' ↔ Fits K l := by
  obtain ⟨-, t, hcheck, rfl⟩ := pass_some h
  obtain ⟨-, ⟨hid, -, hquiet⟩ | ⟨hid, -, e, hacc⟩⟩ := vmwCmdCheck_ok hcheck
  · -- a command outside the 3D protocol has no ids
    refine ⟨fun _ e hid' => by omega, fun _ => ⟨?_, ?_⟩⟩
    · simp [newReads, hquiet.idReads]
    · simp [newRels, hquiet.rels]
  · obtain ⟨reads, lost, rels, hreads, hids, hlost, hrels, hrec⟩ :=
      (run_marks (fun hf => cmdEntry_id hacc.entry hf) hacc.run).1
    have hnewReads : newReads l ⟨l.buf + k, Int.bmod (l.curSize - k) (2 ^ 32), t⟩ = reads := by
      simp [newReads, hreads]
    have hnewRels : newRels l ⟨l.buf + k, Int.bmod (l.curSize - k) (2 ^ 32), t⟩ = rels := by
      simp [newRels, hrels]
    have hge := idFields_ge (K := K) (s := l.sw) (p := l.buf) e.func
    constructor
    · intro hown e' _ he'
      rw [hacc.entry] at he'
      cases he'
      have hfields : ∀ a ∈ idFields K l.buf l.sw e.func, a + 4 ≤ l.buf + own l := by
        intro a ha
        rw [← hids, List.mem_map] at ha
        obtain ⟨f, hf, rfl⟩ := ha
        exact (hown.reads f (hnewReads ▸ hf)).2
      refine ⟨hfields, fun a ha => ?_⟩
      have hap := headerSites_eq e.func a ha
      rcases headerSites_recorded hacc.run ha with hne | ⟨r, rels', hrels', hr, hoff⟩
      · obtain ⟨f, hf⟩ := List.exists_mem_of_ne_nil _ hne
        have := hge f hf
        have := hfields f hf
        omega
      · have : rels' = rels := List.append_cancel_left (hrels'.symm.trans hrels)
        subst this
        have hr' := (hown.rels r (hnewRels ▸ hr)).2
        rw [hoff, hin.header hsize] at hr'
        omega
    · intro hfits
      obtain ⟨hfields, hsites⟩ := hfits e hid hacc.entry
      refine ⟨fun f hf => ?_, fun r hr => ?_⟩
      · have hmem : f.loc ∈ idFields K l.buf l.sw e.func := by
          rw [← hids]
          exact List.mem_map_of_mem (hnewReads ▸ hf)
        exact ⟨by have := hge _ hmem; omega, hfields _ hmem⟩
      · have hr : r ∈ rels := hnewRels ▸ hr
        by_cases htype : r.relType = .normal
        · have hmem : r.offset ∈ wanted reads := by
            refine hrec.sublist.subset (List.mem_map_of_mem ?_)
            simp [hr, htype]
          obtain ⟨f, hf, hoff⟩ := List.mem_map.1 hmem
          have hloc : f.loc ∈ idFields K l.buf l.sw e.func := by
            rw [← hids]
            exact List.mem_map_of_mem (List.mem_of_mem_filter hf)
          have := hge _ hloc
          have := hfields _ hloc
          rw [← hoff, hin.offset hsize (by omega) (hfields _ hloc)]
          omega
        · obtain ⟨a, ha, hoff⟩ := hrec.header r hr htype
          have hap := headerSites_eq e.func a ha
          have := hsites a ha
          rw [hoff, hap, hin.header hsize]
          omega

end Fields

section Runs
variable {size : ℕ}

theorem InStream.pass {k : ℕ} {l l' : Loop σ} (hbig : size < 2 ^ 31) (hin : InStream size l)
    (h : pass K l k = some l') : InStream size l' := by
  obtain ⟨hpos, t, hcheck, rfl⟩ := pass_some h
  have hk := (vmwCmdCheck_ok hcheck).1
  have := hin.buf
  have := hin.total
  have hbmod : Int.bmod (l.curSize - k) (2 ^ 32) = l.curSize - k :=
    Int.bmod_eq_of_le (by omega) (by omega)
  refine ⟨?_, ?_, ?_⟩
  · change 0 ≤ l.buf + k
    omega
  · change 0 ≤ Int.bmod (l.curSize - k) (2 ^ 32)
    omega
  · change l.buf + k + Int.bmod (l.curSize - k) (2 ^ 32) = size
    omega

theorem start_inStream (hbig : size < 2 ^ 31) : InStream size (start size s) := by
  have hstart : start size s = ⟨0, size, s⟩ := by
    rw [start, Int.bmod_eq_of_le (by omega) (by omega)]
  rw [hstart]
  exact ⟨le_rfl, Int.natCast_nonneg size, zero_add _⟩

theorem runs_inStream {as : List ℕ} {l : Loop σ} (hbig : size < 2 ^ 31)
    (h : Runs (pass K) anyLabel (start size s) as l) : InStream size l :=
  h.invariant (InStream size) (start_inStream hbig) fun _ _ _ hin _ hp => hin.pass hbig hp

theorem checkLoop_runs {fuel : ℕ} {buf : ℤ} {cur : ℕ} {sizes : List ℕ} (hbig : cur < 2 ^ 31)
    (h : checkLoop K fuel buf cur s = (.ok (some sizes), t)) :
    ∃ l, Runs (pass K) anyLabel ⟨buf, cur, s⟩ sizes l ∧ l.sw = t := by
  have haccepted := checkLoop_accepted hbig h
  clear h
  induction haccepted with
  | done => exact ⟨_, .refl _, rfl⟩
  | @next buf cur fuel k s u ks hcur hk hcheck hloop _ ih =>
    obtain ⟨l, hl, ht⟩ := ih (by omega)
    have hpass := pass_of_ok (K := K) (l := ⟨buf, cur, s⟩) (k := k) (t := u) (by simpa using hcur)
      (by simpa using hcheck)
    rw [bmod_sub hk hbig] at hpass
    exact ⟨l, .next trivial hpass hl, ht⟩

theorem runs_rels {as : List ℕ} {l : Loop σ} (hs : s.resRelocations = [])
    (h : Runs (pass K) anyLabel (start size s) as l) : ∀ r ∈ l.sw.resRelocations,
      ∃ bs m k m', Runs (pass K) anyLabel (start size s) bs m ∧ pass K m k = some m' ∧
        r ∈ newRels m m' := by
  have hinv := h.invariant (fun l => (∃ bs, Runs (pass K) anyLabel (start size s) bs l) ∧
    ∀ r ∈ l.sw.resRelocations, ∃ bs m k m', Runs (pass K) anyLabel (start size s) bs m ∧
      pass K m k = some m' ∧ r ∈ newRels m m') ⟨⟨[], .refl _⟩, ?_⟩ ?_
  · exact hinv.2
  · intro r hr
    change r ∈ s.resRelocations at hr
    simp [hs] at hr
  · rintro l k l' ⟨⟨bs, hbs⟩, hold⟩ - hp
    refine ⟨⟨bs ++ [k], hbs.trans (.next trivial hp (.refl _))⟩, fun r hr => ?_⟩
    have hsplit : ∃ rels, l'.sw.resRelocations = l.sw.resRelocations ++ rels := by
      obtain ⟨-, t, hcheck, rfl⟩ := pass_some hp
      obtain ⟨-, ⟨-, -, hquiet⟩ | ⟨-, -, e, hacc⟩⟩ := vmwCmdCheck_ok hcheck
      · exact ⟨[], by simpa using hquiet.rels⟩
      · obtain ⟨-, -, rels, -, -, -, hrels, -⟩ :=
          (run_marks (fun hf => cmdEntry_id hacc.entry hf) hacc.run).1
        exact ⟨rels, hrels⟩
    obtain ⟨rels, hrels⟩ := hsplit
    rw [hrels, List.mem_append] at hr
    rcases hr with hr | hr
    · exact hold r hr
    · refine ⟨bs, l, k, l', hbs, hp, ?_⟩
      simpa [newRels, hrels] using hr

/-- The bytes that applying the relocations changes are bytes of the command for which the
    relocation was recorded, inside the stream. -/
def AppliesInside (K : Kernel σ) (size : ℕ) (s t : SwContext σ) : Prop :=
  ∀ resId cb, vmwResourceRelocationsApply resId t.resRelocations t.mem = some cb →
    ∀ b, cb b ≠ t.mem b → ∃ as l k l' r, Runs (pass K) anyLabel (start size s) as l ∧
      pass K l k = some l' ∧ r ∈ newRels l l' ∧ (r.offset : ℤ) ≤ b ∧ b < r.offset + 4 ∧
      l.buf ≤ (r.offset : ℤ) ∧ (r.offset : ℤ) + 4 ≤ l.buf + own l ∧ (r.offset : ℤ) + 4 ≤ size

/-- In an accepted stream all ids are read, and all relocations recorded and applied, inside
    the commands that ask for them exactly if every command is long enough for the words
    that its handler takes for ids. -/
theorem relocations_inside_iff {fuel : ℕ} {sizes : List ℕ} (hsize : size ≤ svgaCbMaxSize)
    (hs : s.resRelocations = []) (h : vmwCmdCheckAll K fuel size s = (.ok (some sizes), t)) :
    (EveryPass K (start size s) (fun l k => ∀ l', pass K l k = some l' → InOwn l l') ∧
      AppliesInside K size s t) ↔
    EveryPass K (start size s) fun l _ => Fits K l := by
  have hlt : size < 2 ^ 31 := by
    unfold svgaCbMaxSize at hsize
    omega
  obtain ⟨-, hloop⟩ := vmwCmdCheckAll_size (by omega) h
  constructor
  · rintro ⟨hown, -⟩ as l k l' hruns hpass
    exact (pass_inOwn_iff hsize (runs_inStream hlt hruns) hpass).1 (hown as l k l' hruns hpass l' hpass)
  · intro hfits
    have hown : ∀ {as l k l'}, Runs (pass K) anyLabel (start size s) as l →
        pass K l k = some l' → InOwn l l' := fun hruns hpass =>
      (pass_inOwn_iff hsize (runs_inStream hlt hruns) hpass).2 (hfits _ _ _ _ hruns hpass)
    refine ⟨fun as l k l' hruns hpass l'' hpass' => hown hruns hpass', fun resId cb hcb b hb => ?_⟩
    obtain ⟨l, hruns, rfl⟩ := checkLoop_runs hlt hloop
    have hstart : start size s = ⟨0, size, s⟩ := by
      rw [start, Int.bmod_eq_of_le (by omega) (by omega)]
    rw [← hstart] at hruns
    obtain ⟨r, hr, hrb, hrb'⟩ := vmwResourceRelocationsApply_frame hcb hb
    obtain ⟨bs, m, k, m', hbs, hpass, hnew⟩ := runs_rels hs hruns r hr
    obtain ⟨hlo, hhi⟩ := (hown hbs hpass).rels r hnew
    have hin := runs_inStream hlt hbs
    have := hin.total
    have := hin.cur
    have := own_le m
    exact ⟨bs, m, k, m', r, hbs, hpass, hnew, hrb, hrb', hlo, hhi, by omega⟩

/-- A `SETZRANGE` command that ends with its context id. -/
def zrange : SwContext Bool := sampleContext [1048, 4, 1] true

theorem zrange_inside_iff : ∃ t,
    vmwCmdCheckAll (sampleKernel false) 1 12 zrange = (.ok (some [12]), t) ∧
    ((EveryPass (sampleKernel false) (start 12 zrange)
        (fun l k => ∀ l', pass (sampleKernel false) l k = some l' → InOwn l l') ∧
      AppliesInside (sampleKernel false) 12 zrange t) ↔
    EveryPass (sampleKernel false) (start 12 zrange) fun l _ => Fits (sampleKernel false) l) := by
  have h : vmwCmdCheckAll (sampleKernel false) 1 12 zrange = (.ok (some [12]), _) :=
    ok_of_toOption (by decide +kernel)
  exact ⟨_, h, relocations_inside_iff (by decide) rfl h⟩

/-- A `SETZRANGE` command without a body; the context id is read from behind the buffer. -/
def emptyZrange : SwContext Bool := sampleContext [1048, 0, 1] true

theorem emptyZrange_outside :
    (∃ t, vmwCmdCheckAll (sampleKernel false) 1 8 emptyZrange = (.ok (some [8]), t)) ∧
    ¬ EveryPass (sampleKernel false) (start 8 emptyZrange)
      fun l k => ∀ l', pass (sampleKernel false) l k = some l' → InOwn l l' := by
  refine ⟨⟨_, ok_of_toOption (by decide +kernel)⟩, fun hown => ?_⟩
  have hcheck : vmwCmdCheck (sampleKernel false) 0 8 emptyZrange = (.ok 8, _) :=
    ok_of_toOption (by decide +kernel)
  have hpass := pass_of_ok (K := sampleKernel false) (l := start 8 emptyZrange) (k := 8)
    (by decide) hcheck
  have hreads := (hown [] _ 8 _ (.refl _) hpass _ hpass).reads
  have hout := hreads ⟨8, 1⟩ (by decide +kernel)
  exact absurd hout.2 (by decide +kernel)

end Runs

end Vmwgfx.ExecbufRelocations
