import Vmwgfx.ExecbufRelocations

set_option autoImplicit false

/-!
# User-space handles in the submitted stream

Every id that `vmw_cmd_res_check` accepts is to be replaced by the id of the device. When
the commands hold their own ids, the words read as ids do not overlap, so that a handle is
left in the stream only where its relocation found no memory.
-/
namespace Vmwgfx.ExecbufHandles
open Word32 ByteStore FailingState LabelledRuns ExecbufState ExecbufHandlers ExecbufVerifier
  ExecbufTrail ExecbufFields ExecbufFraming ExecbufRelocations

variable {σ : Type} {K : Kernel σ} {s t u : SwContext σ}

def Apart (a b : ℤ) : Prop := a + 4 ≤ b ∨ b + 4 ≤ a

section Fields
variable {p : ℤ}

theorem stride_apart (g : ℕ → ℤ) (n : ℕ) (hg : ∀ i j, i < j → g i + 4 ≤ g j) :
    ((List.range' 0 n).flatMap fun i => [g i]).Pairwise Apart := by
  have hmap : ((List.range' 0 n).flatMap fun i => [g i]) = (List.range' 0 n).map g := by
    induction List.range' 0 n with
    | nil => rfl
    | cons i l ih => simpa using ih
  rw [hmap, List.pairwise_map]
  exact (List.pairwise_lt_range' (s := 0) (n := n)).imp fun hij => .inl (hg _ _ hij)

theorem texIds_apart (mem : Memory) (n i : ℕ) :
    ((List.range' i n).flatMap fun i : ℕ => texStateId mem (p + 12 + 12 * i)).Pairwise Apart := by
  induction n generalizing i with
  | zero => simp
  | succ n ih =>
    rw [List.range'_succ, List.flatMap_cons, List.pairwise_append]
    refine ⟨?_, ih (i + 1), fun a ha b hb => ?_⟩
    · unfold texStateId
      split_ifs <;> simp
    · rw [List.mem_flatMap] at hb
      obtain ⟨j, hj, hb⟩ := hb
      have hij : i < j := (List.mem_range'_1.1 hj).1
      unfold texStateId at ha hb
      split_ifs at ha hb <;> simp at ha hb
      left
      omega

theorem idFields_apart (func : Handler) : (idFields K p s func).Pairwise Apart := by
  have helements : (elementIds s.mem p).Pairwise Apart :=
    stride_apart (fun i => p + 12 + 12 * (i : ℤ)) _ fun i j hij => by omega
  cases func
  case draw =>
    simp only [idFields, drawIds]
    rw [List.pairwise_append, List.pairwise_append]
    refine ⟨by simp, ⟨?_, ?_, fun a ha b hb => ?_⟩, fun a ha b hb => ?_⟩
    · exact stride_apart (fun i => p + 20 + 36 * (i : ℤ) + 16) _ fun i j hij => by omega
    · refine stride_apart (fun i => p + 20 + 36 * (word s.mem (p + 12) : ℤ) + 28 * (i : ℤ) + 8) _ ?_
      intro i j hij
      omega
    · simp only [List.mem_flatMap, List.mem_singleton, List.mem_range'_1] at ha hb
      obtain ⟨i, ⟨-, hi⟩, rfl⟩ := ha
      obtain ⟨j, -, rfl⟩ := hb
      left
      omega
    · simp only [List.mem_append, List.mem_flatMap, List.mem_singleton] at ha hb
      left
      rcases hb with ⟨i, -, hb⟩ | ⟨i, -, hb⟩ <;> omega
  case texState =>
    simp only [idFields]
    rw [List.pairwise_append]
    refine ⟨by simp, texIds_apart _ _ _, fun a ha b hb => ?_⟩
    simp only [List.mem_singleton] at ha
    rw [List.mem_flatMap] at hb
    obtain ⟨i, -, hb⟩ := hb
    unfold texStateId at hb
    split_ifs at hb <;> simp at hb
    left
    omega
  case setShader =>
    simp only [idFields]
    split_ifs <;> simp [Apart]
    omega
  case dxBindShader =>
    simp only [idFields]
    split_ifs <;> simp
  case dxSetVertexBuffers => exact helements
  case dxSetSoTargets => exact helements
  all_goals
    simp [idFields, Apart]
    try omega

end Fields

section Loop
variable {size : ℕ} {l l' : Loop σ}

/-- The ids and relocations of the commands before the cursor: the ids do not overlap, and
    relocations are where ids were read or on words that are no ids. -/
structure Tidy (buf : ℤ) (u : SwContext σ) : Prop where
  range : ∀ f ∈ u.idReads, 0 ≤ f.loc ∧ f.loc + 4 ≤ buf
  apart : (u.idReads.map IdRead.loc).Pairwise Apart
  sublist : (normals u.resRelocations).Sublist (wanted u.idReads)
  count : (normals u.resRelocations).length + u.unrecorded.length = (wanted u.idReads).length
  header : ∀ r ∈ u.resRelocations, r.relType ≠ .normal →
    (r.offset : ℤ) + 4 ≤ buf ∧ ∀ f ∈ u.idReads, Apart r.offset f.loc

theorem Tidy.mono {buf buf' : ℤ} (h : Tidy buf u) (hle : buf ≤ buf')
    (hquiet : Quiet u t) : Tidy buf' t := by
  refine ⟨?_, ?_, ?_, ?_, ?_⟩
  · rw [hquiet.idReads]
    exact fun f hf => ⟨(h.range f hf).1, by have := (h.range f hf).2; omega⟩
  · rw [hquiet.idReads]
    exact h.apart
  · rw [hquiet.idReads, hquiet.rels]
    exact h.sublist
  · rw [hquiet.idReads, hquiet.rels, hquiet.unrecorded]
    exact h.count
  · rw [hquiet.idReads, hquiet.rels]
    intro r hr htype
    have := (h.header r hr htype).1
    exact ⟨by omega, (h.header r hr htype).2⟩

theorem Tidy.pass {e : CmdEntry} {k : ℕ} (h : Tidy l.buf l.sw) (hin : InStream size l)
    (hsize : size ≤ svgaCbMaxSize) (hk : own l ≤ k) (hfits : Fits K l)
    (hid : svgaCmdMax ≤ word l.sw.mem l.buf) (hacc : Accepted3d K l.buf l.sw t e) :
    Tidy (l.buf + k) t := by
  obtain ⟨reads, lost, rels, hreads, hids, hlost, hrels, hrec⟩ :=
    (run_marks (fun hf => cmdEntry_id hacc.entry hf) hacc.run).1
  obtain ⟨hfields, hsites⟩ := hfits e hid hacc.entry
  have hge := idFields_ge (K := K) (s := l.sw) (p := l.buf) e.func
  have hloc : ∀ f ∈ reads, l.buf + 8 ≤ f.loc ∧ f.loc + 4 ≤ l.buf + own l := fun f hf => by
    have hmem : f.loc ∈ idFields K l.buf l.sw e.func := hids ▸ List.mem_map_of_mem hf
    exact ⟨hge _ hmem, hfields _ hmem⟩
  have hbuf := hin.buf
  refine ⟨?_, ?_, ?_, ?_, ?_⟩
  · rw [hreads]
    intro f hf
    rcases List.mem_append.1 hf with hf | hf
    · have := h.range f hf
      omega
    · have := hloc f hf
      omega
  · rw [hreads, List.map_append, List.pairwise_append]
    refine ⟨h.apart, hids ▸ idFields_apart e.func, fun a ha b hb => ?_⟩
    obtain ⟨f, hf, rfl⟩ := List.mem_map.1 ha
    obtain ⟨g, hg, rfl⟩ := List.mem_map.1 hb
    have := h.range f hf
    have := hloc g hg
    left
    omega
  · rw [hreads, hrels, normals_append, wanted_append]
    exact h.sublist.append hrec.sublist
  · have := h.count
    have := hrec.count
    rw [hreads, hrels, hlost, normals_append, wanted_append, List.length_append,
      List.length_append, List.length_append]
    omega
  · rw [hreads, hrels]
    intro r hr htype
    rcases List.mem_append.1 hr with hr | hr
    · obtain ⟨hend, hapart⟩ := h.header r hr htype
      refine ⟨by omega, fun f hf => ?_⟩
      rcases List.mem_append.1 hf with hf | hf
      · exact hapart f hf
      · have := hloc f hf
        left
        omega
    · obtain ⟨a, ha, hoff⟩ := hrec.header r hr htype
      obtain rfl := headerSites_eq e.func a ha
      have hown := hsites l.buf ha
      rw [hoff, hin.header hsize]
      refine ⟨by omega, fun f hf => ?_⟩
      rcases List.mem_append.1 hf with hf | hf
      · have := h.range f hf
        right
        omega
      · have := hloc f hf
        left
        omega

theorem checkLoop_tidy {fuel : ℕ} {buf : ℤ} {cur : ℕ} {sizes : List ℕ}
    (hin : InStream size ⟨buf, cur, s⟩) (hsize : size ≤ svgaCbMaxSize) (h : Tidy buf s)
    (hfits : EveryPass K ⟨buf, cur, s⟩ fun l _ => Fits K l)
    (hloop : checkLoop K fuel buf cur s = (.ok (some sizes), t)) : Tidy size t := by
  have hbig : cur < 2 ^ 31 := by
    have hbuf : 0 ≤ buf := hin.buf
    have htotal : buf + cur = size := hin.total
    unfold svgaCbMaxSize at hsize
    omega
  have haccepted := checkLoop_accepted hbig hloop
  clear hloop
  induction haccepted with
  | done =>
    have := hin.total
    simp only [Nat.cast_zero, add_zero] at this
    exact this ▸ h
  | @next buf cur fuel k s u ks hcur hk hcheck hloop _ ih =>
    have hpass := pass_of_ok (K := K) (l := ⟨buf, cur, s⟩) (k := k) (t := u) (by simpa using hcur)
      (by simpa using hcheck)
    have hbig' : size < 2 ^ 31 := by
      unfold svgaCbMaxSize at hsize
      omega
    have hin' := hin.pass hbig' hpass
    rw [bmod_sub hk hbig] at hpass hin'
    have htidy : Tidy (buf + k) u := by
      obtain ⟨-, ⟨-, -, hquiet⟩ | ⟨hid, hsz, e, hacc⟩⟩ := vmwCmdCheck_ok hcheck
      · exact h.mono (by omega) hquiet
      · refine Tidy.pass (l := ⟨buf, cur, s⟩) h hin hsize ?_ (hfits [] _ k _ (.refl _) hpass) hid hacc
        by_cases hwrap : word s.mem (buf + 4) < 2 ^ 32 - 8
        · rw [addU32_of_lt (by omega)] at hsz
          have : own (⟨buf, cur, s⟩ : Loop σ) ≤ 8 + word s.mem (buf + 4) := Nat.min_le_left _ _
          omega
        · have hlast := wrapped_last hcur hbig hcheck hloop hid (by omega)
          have : own (⟨buf, cur, s⟩ : Loop σ) ≤ (cur : ℤ).toNat := own_le _
          omega
    refine ih hin' htidy ?_ (by omega)
    exact fun as m k' m' hruns hp => hfits (k :: as) m k' m' (.next trivial hpass hruns) hp

end Loop

section Handles
variable {size : ℕ}

/-- Exactly one relocation of an id is recorded at the place of the id. -/
def OneRelocation (t : SwContext σ) (f : IdRead) : Prop :=
  t.resRelocations.countP (fun r => r.relType = .normal ∧ (r.offset : ℤ) = f.loc) = 1

instance (t : SwContext σ) (f : IdRead) : Decidable (OneRelocation t f) :=
  inferInstanceAs (Decidable (_ = _))

/-- Applying the relocations puts the id of a device resource in the place of the id. -/
def Replaced (t : SwContext σ) (f : IdRead) : Prop :=
  ∀ resId cb, (∀ x, resId x < 2 ^ 32) →
    vmwResourceRelocationsApply resId t.resRelocations t.mem = some cb →
    ∃ x, ⟨some x, f.loc.toNat, .normal⟩ ∈ t.resRelocations ∧ word cb f.loc = resId x

theorem countP_normals (rels : List ResRelocation) {a : ℤ} (ha : 0 ≤ a) :
    rels.countP (fun r => r.relType = .normal ∧ (r.offset : ℤ) = a) =
      (normals rels).count a.toNat := by
  unfold normals List.count
  rw [List.countP_map, List.countP_filter]
  refine List.countP_congr fun r _ => ?_
  simp only [decide_eq_true_eq, Function.comp_apply, Bool.and_eq_true, beq_iff_eq]
  constructor
  · rintro ⟨h₁, h₂⟩
    exact ⟨by omega, h₁⟩
  · rintro ⟨h₁, h₂⟩
    exact ⟨h₂, by omega⟩

theorem Tidy.offset (h : Tidy size t) (hsize : size ≤ svgaCbMaxSize) {f : IdRead}
    (hf : f ∈ t.idReads) : ((f.loc % 2 ^ 29).toNat : ℤ) = f.loc := by
  have := h.range f hf
  unfold svgaCbMaxSize at hsize
  rw [Int.emod_eq_of_lt (by omega) (by omega)]
  omega

theorem Tidy.wanted_nodup (h : Tidy size t) (hsize : size ≤ svgaCbMaxSize) :
    (wanted t.idReads).Nodup := by
  have hapart := h.apart
  rw [List.pairwise_map] at hapart
  unfold wanted List.Nodup
  rw [List.pairwise_map]
  refine (hapart.sublist List.filter_sublist).imp_of_mem fun {f g} hf hg hfg heq => ?_
  have hf' := h.offset hsize (List.mem_of_mem_filter hf)
  have hg' := h.offset hsize (List.mem_of_mem_filter hg)
  unfold Apart at hfg
  omega

theorem Tidy.mem_wanted (h : Tidy size t) (hsize : size ≤ svgaCbMaxSize) {f : IdRead}
    (hf : f ∈ t.idReads) (hid : f.id ≠ svga3dInvalidId) : f.loc.toNat ∈ wanted t.idReads := by
  have hoff := h.offset hsize hf
  refine List.mem_map.2 ⟨f, by simp [hf, hid], by omega⟩

theorem apply_res {resId : ℕ → ℕ} {rels : List ResRelocation} {cb cb' : Memory}
    (h : vmwResourceRelocationsApply resId rels cb = some cb') {r : ResRelocation} (hr : r ∈ rels)
    (htype : r.relType = .normal) : ∃ x, r.res = some x := by
  induction rels generalizing cb with
  | nil => simp at hr
  | cons r' rels ih =>
    obtain ⟨cb₁, h₁, h⟩ := Option.bind_eq_some_iff.1 h
    rcases List.mem_cons.1 hr with rfl | hr
    · unfold applyRelocation at h₁
      rw [htype] at h₁
      obtain ⟨x, hx, -⟩ := Option.map_eq_some_iff.1 h₁
      exact ⟨x, hx⟩
    · exact ih h hr

theorem apply_word {resId : ℕ → ℕ} {rels : List ResRelocation} {cb cb' : Memory} {x : ℕ} {a : ℕ}
    (hlt : ∀ x, resId x < 2 ^ 32) (hmem : ⟨some x, a, .normal⟩ ∈ rels)
    (hapart : rels.Pairwise fun r r' => r.relType = .normal → r.offset = a →
      Apart r'.offset a)
    (h : vmwResourceRelocationsApply resId rels cb = some cb') : word cb' a = resId x := by
  induction rels generalizing cb with
  | nil => simp at hmem
  | cons r rels ih =>
    obtain ⟨cb₁, h₁, h⟩ := Option.bind_eq_some_iff.1 h
    rw [List.pairwise_cons] at hapart
    rcases List.mem_cons.1 hmem with hr | hmem
    · subst hr
      obtain rfl : store cb a (resId x) = cb₁ := Option.some.inj h₁
      rw [← word_store (m := cb) (a := a) (hlt x)]
      refine word_congr fun b hb hb' => ?_
      by_contra hne
      obtain ⟨r', hr', hlo, hhi⟩ := vmwResourceRelocationsApply_frame h hne
      have := hapart.1 r' hr' rfl rfl
      unfold Apart at this
      omega
    · exact ih hmem hapart.2 h

theorem Tidy.rels_apart (h : Tidy size t) (hsize : size ≤ svgaCbMaxSize) {f : IdRead}
    (hf : f ∈ t.idReads) : t.resRelocations.Pairwise fun r r' => r.relType = .normal →
      r.offset = f.loc.toNat → Apart r'.offset f.loc.toNat := by
  have hnonneg := (h.range f hf).1
  have hwanted : (wanted t.idReads).Pairwise fun (a b : ℕ) => Apart a b := by
    have hapart := h.apart
    rw [List.pairwise_map] at hapart
    unfold wanted
    rw [List.pairwise_map]
    refine (hapart.sublist List.filter_sublist).imp_of_mem fun {f g} hf hg hfg => ?_
    rw [h.offset hsize (List.mem_of_mem_filter hf), h.offset hsize (List.mem_of_mem_filter hg)]
    exact hfg
  have hnormals := hwanted.sublist h.sublist
  unfold normals at hnormals
  rw [List.pairwise_map, List.pairwise_filter] at hnormals
  refine hnormals.imp_of_mem fun {r r'} _ hr' hrr' htype hoff => ?_
  by_cases htype' : r'.relType = .normal
  · have := hrr' (by simpa using htype) (by simpa using htype')
    rw [hoff] at this
    unfold Apart at this ⊢
    omega
  · have := (h.header r' hr' htype').2 f hf
    rw [Int.toNat_of_nonneg hnonneg]
    exact this

/-- In an accepted stream whose commands hold their own ids, every handle has exactly one
    relocation, and is replaced by it, exactly if memory for relocations never ran out. -/
theorem handles_replaced_iff {fuel : ℕ} {sizes : List ℕ} (hsize : size ≤ svgaCbMaxSize)
    (hs : s.idReads = [] ∧ s.unrecorded = [] ∧ s.resRelocations = [])
    (hfits : EveryPass K (start size s) fun l _ => Fits K l)
    (h : vmwCmdCheckAll K fuel size s = (.ok (some sizes), t)) :
    (∀ f ∈ t.idReads, f.id ≠ svga3dInvalidId → OneRelocation t f ∧ Replaced t f) ↔
      t.unrecorded = [] := by
  have hbig : size < 2 ^ 31 := by
    unfold svgaCbMaxSize at hsize
    omega
  obtain ⟨-, hloop⟩ := vmwCmdCheckAll_size (by omega) h
  have hstart : start size s = ⟨0, size, s⟩ := by
    rw [start, Int.bmod_eq_of_le (by omega) (by omega)]
  have hbegin : Tidy 0 s := by
    obtain ⟨h₁, h₂, h₃⟩ := hs
    refine ⟨?_, ?_, ?_, ?_, ?_⟩ <;> simp [h₁, h₂, h₃, normals, wanted]
  have htidy : Tidy size t :=
    checkLoop_tidy (hstart ▸ start_inStream hbig) hsize hbegin (hstart ▸ hfits) hloop
  constructor
  · intro hall
    have hsub : wanted t.idReads ⊆ normals t.resRelocations := by
      intro a ha
      obtain ⟨f, hf, rfl⟩ := List.mem_map.1 ha
      have hf' : f ∈ t.idReads := List.mem_of_mem_filter hf
      have hid : f.id ≠ svga3dInvalidId := by simpa using (List.mem_filter.1 hf).2
      have hone := (hall f hf' hid).1
      unfold OneRelocation at hone
      rw [countP_normals _ (htidy.range f hf').1] at hone
      have hoff := htidy.offset hsize hf'
      have heq : (f.loc % 2 ^ 29).toNat = f.loc.toNat := by omega
      rw [heq]
      exact List.count_pos_iff.1 (by omega)
    have hlen := (htidy.wanted_nodup hsize).subperm hsub
    have := hlen.length_le
    have := htidy.count
    exact List.length_eq_zero_iff.1 (by omega)
  · intro hnone f hf hid
    have hcount := htidy.count
    rw [hnone, List.length_nil, add_zero] at hcount
    have heq := htidy.sublist.eq_of_length hcount
    have hmem := htidy.mem_wanted hsize hf hid
    refine ⟨?_, fun resId cb hlt hcb => ?_⟩
    · unfold OneRelocation
      rw [countP_normals _ (htidy.range f hf).1, heq]
      exact List.count_eq_one_of_mem (htidy.wanted_nodup hsize) hmem
    · rw [← heq] at hmem
      obtain ⟨r, hr, hoff⟩ := List.mem_map.1 hmem
      have htype : r.relType = .normal := by simpa using (List.mem_filter.1 hr).2
      obtain ⟨x, hx⟩ := apply_res hcb (List.mem_of_mem_filter hr) htype
      have hmem : ⟨some x, f.loc.toNat, .normal⟩ ∈ t.resRelocations := by
        rw [← hx, ← hoff, ← htype]
        exact List.mem_of_mem_filter hr
      have hword := apply_word hlt hmem (htidy.rels_apart hsize hf) hcb
      rw [Int.toNat_of_nonneg (htidy.range f hf).1] at hword
      exact ⟨x, hmem, hword⟩

theorem zrange_fits :
    EveryPass (sampleKernel false) (start 12 zrange) fun l _ => Fits (sampleKernel false) l := by
  have hcheck : vmwCmdCheck (sampleKernel false) 0 12 zrange = (.ok 12, _) :=
    ok_of_toOption (by decide +kernel)
  refine everyPass_single (l := start 12 zrange) (k := 12) (pass_of_ok (by decide) hcheck)
    (by decide) ?_
  intro e _ he
  have hfunc : (cmdEntry 1048).map CmdEntry.func = some .cidCheck := by decide +kernel
  have hid : word (start 12 zrange).sw.mem (start 12 zrange).buf = 1048 := by decide +kernel
  rw [hid] at he
  rw [he] at hfunc
  have hfunc : e.func = .cidCheck := Option.some.inj hfunc
  rw [hfunc]
  exact ⟨by decide +kernel, by decide +kernel⟩

theorem zrange_replaced_iff : ∃ t,
    vmwCmdCheckAll (sampleKernel false) 1 12 zrange = (.ok (some [12]), t) ∧
    ((∀ f ∈ t.idReads, f.id ≠ svga3dInvalidId → OneRelocation t f ∧ Replaced t f) ↔
      t.unrecorded = []) := by
  have h : vmwCmdCheckAll (sampleKernel false) 1 12 zrange = (.ok (some [12]), _) :=
    ok_of_toOption (by decide +kernel)
  exact ⟨_, h, handles_replaced_iff (by decide) ⟨rfl, rfl, rfl⟩ zrange_fits h⟩

/-- The same command when memory has run out: it is accepted, and the handle stays. -/
theorem zrange_handle_left : ∃ t,
    vmwCmdCheckAll (sampleKernel false) 1 12 (sampleContext [1048, 4, 1] false) =
      (.ok (some [12]), t) ∧
    ⟨8, 1⟩ ∈ t.idReads ∧ ¬ OneRelocation t ⟨8, 1⟩ ∧
    ∀ resId, (vmwResourceRelocationsApply resId t.resRelocations t.mem).map (word · 8) = some 1 := by
  have h : vmwCmdCheckAll (sampleKernel false) 1 12 (sampleContext [1048, 4, 1] false) =
      (.ok (some [12]), _) := ok_of_toOption (by decide +kernel)
  have hleft : ∀ t : SwContext Bool, t.resRelocations = [] → word t.mem 8 = 1 → ∀ resId,
      (vmwResourceRelocationsApply resId t.resRelocations t.mem).map (word · 8) = some 1 := by
    intro t hnone hword resId
    rw [hnone]
    exact congrArg some hword
  exact ⟨_, h, by decide +kernel, by decide +kernel,
    hleft _ (by decide +kernel) (by decide +kernel)⟩

end Handles

end Vmwgfx.ExecbufHandles
