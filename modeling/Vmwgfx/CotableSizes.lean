import Vmwgfx.Cotable

set_option autoImplicit false

/-!
# Sizes and contents of context object tables

A readback that is in the FIFO goes to the buffer that is the backup until then, so that
what is known of the contents either holds or is about to. A resize waits for the FIFO and
takes the contents over page by page.
-/
namespace Vmwgfx.Cotable
open ExecbufState (Errno)
open LabelledRuns

def mobAfter : Option ℕ → List DevCmd → Option ℕ
  | mob, [] => mob
  | mob, .readbackCotable :: q => mobAfter mob q
  | _, .setCotable b _ :: q => mobAfter b q

/-- All readbacks go to `b`. -/
def ReadsTo (b : Option ℕ) : Option ℕ → List DevCmd → Prop
  | _, [] => True
  | mob, .readbackCotable :: q => mob = b ∧ ReadsTo b mob q
  | _, .setCotable b' _ :: q => ReadsTo b b' q

/-- The first `n` bytes of the backup are, or will be, what was read back last. -/
structure Readable (n : ℕ) (s : CotDev) : Prop where
  bound : n ≤ s.backupSize
  buffer : ∀ b, s.backup = some b →
    ∃ B, s.buffers b = some B ∧ s.backupSize ≤ B.numPages * pageSize
  fresh : s.backup = none → n = 0 ∧ s.scrubbed = true ∧ s.queue = [] ∧ s.mob = none
  reads : ReadsTo s.backup s.mob s.queue
  last : mobAfter s.mob s.queue = if s.scrubbed then none else s.backup
  content : .readbackCotable ∈ s.queue ∨ ∀ b B, s.backup = some b → s.buffers b = some B →
    ∀ i < n, B.data i = s.lastRead i

structure Inv (s : CotDev) : Prop where
  size : 0 < s.backupSize ∧ s.backupSize < 2 ^ 28
  seen : -1 ≤ s.seenEntries ∧ s.seenEntries < svgaCotableMaxIds
  readable : Readable s.sizeReadBack s

variable {s t : CotDev} {n : ℕ} {q : List DevCmd} {cmd : DevCmd} {mob b : Option ℕ}

theorem entrySize_le (type : CotableType) : (coInfo type).size ≤ 2048 := by
  cases type <;> decide

theorem neededSize_eq (h : -1 ≤ s.seenEntries ∧ s.seenEntries < svgaCotableMaxIds) :
    (neededSize s : ℤ) = (s.seenEntries + 1) * (coInfo s.type).size ∧ neededSize s < 2 ^ 27 := by
  have hsize := entrySize_le s.type
  have hlo : 0 ≤ s.seenEntries + 1 := by omega
  have hhi : s.seenEntries + 1 ≤ 65533 := by
    have := h.2
    unfold svgaCotableMaxIds at this
    omega
  have hnonneg : 0 ≤ (s.seenEntries + 1) * ((coInfo s.type).size : ℤ) :=
    Int.mul_nonneg hlo (Int.natCast_nonneg _)
  have hle : (s.seenEntries + 1) * ((coInfo s.type).size : ℤ) ≤ 65533 * 2048 := by
    apply mul_le_mul hhi (by exact_mod_cast hsize) (Int.natCast_nonneg _)
    omega
  have hmod : (s.seenEntries + 1) * ((coInfo s.type).size : ℤ) % 2 ^ 32 =
      (s.seenEntries + 1) * (coInfo s.type).size := Int.emod_eq_of_lt hnonneg (by omega)
  unfold neededSize
  rw [hmod]
  omega

theorem doubleSize_spec {needed : ℕ} (hn : needed < 2 ^ 27) (fuel size : ℕ) (hs : 0 < size)
    (hf : needed ≤ size * 2 ^ fuel) : ∃ newSize k,
      doubleSize needed (fuel + 1) size = some newSize ∧
      newSize = size * 2 ^ k ∧ needed ≤ newSize ∧ (newSize = size ∨ newSize < 2 * needed) := by
  induction fuel generalizing size with
  | zero =>
    rw [pow_zero, mul_one] at hf
    refine ⟨size, 0, ?_, by rw [pow_zero, mul_one], hf, .inl rfl⟩
    rw [doubleSize, if_neg (by omega)]
  | succ fuel ih =>
    by_cases hlt : size < needed
    · have hmod : size * 2 % 2 ^ 32 = size * 2 := Nat.mod_eq_of_lt (by omega)
      have hpow : size * 2 * 2 ^ fuel = size * 2 ^ (fuel + 1) := by ring
      obtain ⟨newSize, k, heq, hnew, hle, hcase⟩ := ih (size * 2) (by omega) (by rw [hpow]; exact hf)
      refine ⟨newSize, k + 1, ?_, by rw [hnew]; ring, hle, .inr ?_⟩
      · rw [doubleSize, if_pos hlt, hmod]
        exact heq
      · rcases hcase with rfl | hcase
        · omega
        · exact hcase
    · refine ⟨size, 0, ?_, by rw [pow_zero, mul_one], by omega, .inl rfl⟩
      rw [doubleSize, if_neg hlt]

theorem Inv.doubles (h : Inv s) : ∃ newSize k,
    doubleSize (neededSize s) sizePasses s.backupSize = some newSize ∧
      newSize = s.backupSize * 2 ^ k ∧ newSize < 2 ^ 28 ∧
      (s.seenEntries + 1) * (coInfo s.type).size ≤ newSize := by
  obtain ⟨hneed, hlt⟩ := neededSize_eq h.seen
  have hpow : neededSize s ≤ s.backupSize * 2 ^ 32 := by
    have := h.size.1
    omega
  obtain ⟨newSize, k, heq, hnew, hle, hcase⟩ := doubleSize_spec hlt 32 s.backupSize h.size.1 hpow
  refine ⟨newSize, k, heq, hnew, ?_, by omega⟩
  have := h.size.2
  rcases hcase with rfl | hcase
  · exact this
  · omega

theorem mobAfter_append (mob : Option ℕ) (q r : List DevCmd) :
    mobAfter mob (q ++ r) = mobAfter (mobAfter mob q) r := by
  induction q generalizing mob with
  | nil => rfl
  | cons cmd q ih =>
    cases cmd with
    | readbackCotable => exact ih mob
    | setCotable b _ => exact ih b

theorem ReadsTo.append {r : List DevCmd} (h : ReadsTo b mob q) (h' : ReadsTo b (mobAfter mob q) r) :
    ReadsTo b mob (q ++ r) := by
  induction q generalizing mob with
  | nil => exact h'
  | cons cmd q ih =>
    cases cmd with
    | readbackCotable => exact ⟨h.1, ih h.2 h'⟩
    | setCotable b' _ => exact @ih b' h h'

theorem Readable.mono {m : ℕ} (h : Readable n s) (hm : m ≤ n) : Readable m s := by
  refine ⟨hm.trans h.bound, h.buffer, fun hb => ?_, h.reads, h.last, ?_⟩
  · obtain ⟨hn, hrest⟩ := h.fresh hb
    exact ⟨by omega, hrest⟩
  · exact h.content.imp_right fun hc b B hb hB i hi => hc b B hb hB i (by omega)

structure Kept (s t : CotDev) : Prop where
  type : t.type = s.type
  seenEntries : t.seenEntries = s.seenEntries
  scrubbed : t.scrubbed = s.scrubbed
  sizeReadBack : t.sizeReadBack = s.sizeReadBack
  backup : t.backup = s.backup
  backupSize : t.backupSize = s.backupSize
  buffers : ∀ b, s.backup ≠ some b → t.buffers b = s.buffers b

theorem Kept.trans {u : CotDev} (h : Kept s t) (h' : Kept t u) : Kept s u := by
  refine ⟨h'.type.trans h.type, h'.seenEntries.trans h.seenEntries, h'.scrubbed.trans h.scrubbed,
    h'.sizeReadBack.trans h.sizeReadBack, h'.backup.trans h.backup,
    h'.backupSize.trans h.backupSize, fun b hb => ?_⟩
  rw [h'.buffers b (by rwa [h.backup]), h.buffers b hb]

theorem Readable.exec (h : Readable n s) (hq : s.queue = cmd :: q) :
    Readable n (deviceExec cmd { s with queue := q }) ∧
      Kept s (deviceExec cmd { s with queue := q }) ∧
      (deviceExec cmd { s with queue := q }).queue = q := by
  have hreads := h.reads
  have hlast := h.last
  have hcontent := h.content
  rw [hq] at hreads hlast hcontent
  cases cmd with
  | readbackCotable =>
    obtain ⟨hmob, hreads⟩ := hreads
    unfold deviceExec
    cases hb : s.mob with
    | none =>
      -- nothing is bound, and there is no backup
      rw [hb] at hmob
      obtain ⟨-, -, hnil, -⟩ := h.fresh hmob.symm
      rw [hq] at hnil
      cases hnil
    | some b =>
      rw [hb] at hmob
      obtain ⟨B, hB, hpages⟩ := h.buffer b hmob.symm
      simp only [hB]
      refine ⟨⟨h.bound, ?_, ?_, ?_, ?_, .inr ?_⟩, ⟨rfl, rfl, rfl, rfl, rfl, rfl, ?_⟩, rfl⟩
      · intro c hc
        obtain rfl : b = c := Option.some.inj (hmob.trans hc)
        exact ⟨_, Function.update_self .., hpages⟩
      · intro hnone
        rw [← hmob] at hnone
        cases hnone
      · rw [hb] at hreads
        exact hreads
      · rw [hb] at hlast
        exact hlast
      · intro c C hc hC i hi
        obtain rfl : b = c := Option.some.inj (hmob.trans hc)
        change Function.update s.buffers b (some (B.receive s.table)) b = some C at hC
        rw [Function.update_self] at hC
        obtain rfl := Option.some.inj hC
        have hlt : i < B.numPages * pageSize := hi.trans_le (h.bound.trans hpages)
        exact if_pos hlt
      · intro c hc
        apply Function.update_of_ne
        rintro rfl
        exact hc hmob.symm
  | setCotable b' valid =>
    have hrest : .readbackCotable ∈ q ∨ ∀ b B, s.backup = some b → s.buffers b = some B →
        ∀ i < n, B.data i = s.lastRead i := by
      apply hcontent.imp_left
      intro hmem
      rcases List.mem_cons.1 hmem with heq | hmem
      · cases heq
      · exact hmem
    have hsome : s.backup ≠ none := by
      intro hnone
      obtain ⟨-, -, hnil, -⟩ := h.fresh hnone
      rw [hq] at hnil
      cases hnil
    cases b' with
    | none =>
      exact ⟨⟨h.bound, h.buffer, fun hnone => absurd hnone hsome, hreads, hlast, hrest⟩,
        ⟨rfl, rfl, rfl, rfl, rfl, rfl, fun _ _ => rfl⟩, rfl⟩
    | some b' =>
      exact ⟨⟨h.bound, h.buffer, fun hnone => absurd hnone hsome, hreads, hlast, hrest⟩,
        ⟨rfl, rfl, rfl, rfl, rfl, rfl, fun _ _ => rfl⟩, rfl⟩

theorem deviceExec_queue (cmd : DevCmd) (s : CotDev) (q : List DevCmd) :
    deviceExec cmd { s with queue := q } = { deviceExec cmd s with queue := q } := by
  cases cmd with
  | readbackCotable =>
    cases hm : s.mob with
    | none => simp only [deviceExec, hm]
    | some b => cases hb : s.buffers b <;> simp only [deviceExec, hm, hb, setBuffer]
  | setCotable b valid => cases b <;> rfl

theorem drain_cons (hq : s.queue = cmd :: q) :
    drain s = drain (deviceExec cmd { s with queue := q }) := by
  have hfold : ∀ (r r' : List DevCmd) (u : CotDev),
      { r.foldl (fun t cmd => deviceExec cmd t) { u with queue := r' } with queue := [] } =
        { r.foldl (fun t cmd => deviceExec cmd t) u with queue := [] } := by
    intro r r'
    induction r with
    | nil => exact fun _ => rfl
    | cons c r ih =>
      intro u
      rw [List.foldl_cons, List.foldl_cons, deviceExec_queue]
      exact ih _
  rw [deviceExec_queue]
  unfold drain
  rw [hq, List.foldl_cons]
  exact (hfold q q (deviceExec cmd s)).symm

theorem Readable.drain (h : Readable n s) : Readable n (drain s) ∧ Kept s (drain s) := by
  generalize hq : s.queue = q
  induction q generalizing s with
  | nil =>
    have hsame : Cotable.drain s = s := by
      unfold Cotable.drain
      rw [hq]
      cases s
      simp_all
    rw [hsame]
    exact ⟨h, ⟨rfl, rfl, rfl, rfl, rfl, rfl, fun _ _ => rfl⟩⟩
  | cons cmd q ih =>
    rw [drain_cons hq]
    obtain ⟨hexec, hkept, hqueue⟩ := h.exec hq
    obtain ⟨hdrain, hkept'⟩ := ih hexec hqueue
    exact ⟨hdrain, hkept.trans hkept'⟩

def readView (s : CotDev) :=
  (s.backup, s.backupSize, s.buffers, s.scrubbed, s.queue, s.mob, s.lastRead)

theorem Readable.frame (h : Readable n s) (ht : readView t = readView s) : Readable n t := by
  simp only [readView, Prod.mk.injEq] at ht
  obtain ⟨hb, hz, hbuf, hscr, hq, hmob, hread⟩ := ht
  refine ⟨?_, ?_, ?_, ?_, ?_, ?_⟩
  · rw [hz]
    exact h.bound
  · rw [hb, hz, hbuf]
    exact h.buffer
  · rw [hb, hscr, hq, hmob]
    exact h.fresh
  · rw [hb, hq, hmob]
    exact h.reads
  · rw [hb, hscr, hq, hmob]
    exact h.last
  · rw [hb, hbuf, hq, hread]
    exact h.content

theorem Readable.submit (h : Readable n s) (m : ℕ) (scr : Bool) (cmds : List DevCmd)
    (hb : s.backup ≠ none) (hm : m ≤ s.backupSize)
    (hr : ReadsTo s.backup (if s.scrubbed then none else s.backup) cmds)
    (hl : mobAfter (if s.scrubbed then none else s.backup) cmds = if scr then none else s.backup)
    (hc : .readbackCotable ∈ cmds ∨ m ≤ n) : Readable m { submit cmds s with scrubbed := scr } := by
  refine ⟨hm, h.buffer, fun hnone => absurd hnone hb, h.reads.append ?_, ?_, ?_⟩
  · rw [h.last]
    exact hr
  · simp only [Cotable.submit]
    rw [mobAfter_append, h.last]
    exact hl
  · rcases hc with hmem | hle
    · exact .inl (List.mem_append_right _ hmem)
    · rcases h.content with hmem | heq
      · exact .inl (List.mem_append_left _ hmem)
      · exact .inr fun b B hb hB i hi => heq b B hb hB i (by omega)

theorem Readable.backup_ne (h : Readable n s) (hs : s.scrubbed = false) : s.backup ≠ none := by
  intro hnone
  obtain ⟨-, hscr, -⟩ := h.fresh hnone
  rw [hs] at hscr
  cases hscr

theorem Inv.scrub (h : Inv s) (readback space : Bool) :
    Inv (vmwCotableScrub readback space s).2 := by
  unfold vmwCotableScrub
  cases hscr : s.scrubbed with
  | true => exact h
  | false =>
    have hb := h.readable.backup_ne hscr
    cases space with
    | false => exact h
    | true =>
      refine ⟨h.size, h.seen, ?_⟩
      cases readback with
      | true =>
        have hsub := h.readable.submit s.backupSize true
          [.readbackCotable, .setCotable none 0] hb le_rfl (by simp [hscr, ReadsTo])
          (by simp [mobAfter]) (by simp)
        exact hsub.frame rfl
      | false =>
        have hsub := h.readable.submit 0 true [.setCotable none 0] hb
          (Nat.zero_le _) (by simp [ReadsTo]) (by simp [mobAfter]) (.inr (Nat.zero_le _))
        exact hsub.frame rfl

theorem Inv.readback (h : Inv s) (space : Bool) : Inv (vmwCotableReadback space s).2 ∧
    s.sizeReadBack ≤ (vmwCotableReadback space s).2.sizeReadBack := by
  unfold vmwCotableReadback
  split_ifs with hscr hspace
  · exact ⟨h, le_rfl⟩
  · exact ⟨h, le_rfl⟩
  · have hscr : s.scrubbed = false := by simpa using hscr
    refine ⟨⟨h.size, h.seen, ?_⟩, h.readable.bound⟩
    have hsub := h.readable.submit s.backupSize false [.readbackCotable]
      (h.readable.backup_ne hscr) le_rfl (by simp [hscr, ReadsTo]) (by simp [hscr, mobAfter])
      (by simp)
    exact hsub.frame (by simp [readView, hscr, Cotable.submit])

theorem Readable.unscrub (h : Readable n s) {space : Bool} {r : Option Errno × CotDev}
    (hr : vmwCotableUnscrub space s = some r) :
    Readable n r.2 ∧ Kept { s with scrubbed := r.2.scrubbed } r.2 := by
  unfold vmwCotableUnscrub at hr
  obtain ⟨b, hb, rfl⟩ := Option.map_eq_some_iff.1 hr
  split_ifs
  · refine ⟨?_, ⟨rfl, rfl, rfl, rfl, rfl, rfl, fun _ _ => rfl⟩⟩
    exact h.submit _ _ _ (by rw [hb]; simp) h.bound (by simp [ReadsTo]) (by simp [mobAfter, hb])
      (.inr le_rfl)
  · exact ⟨h, ⟨rfl, rfl, rfl, rfl, rfl, rfl, fun _ _ => rfl⟩⟩

theorem copyPages_spec (o : ResizeEnds) {old bo : ℕ} {O B : Buffer} (ho : s.buffers old = some O)
    (hb : s.buffers bo = some B) (hne : old ≠ bo) (pages : ℕ) :
    ∃ data, (copyPages o old bo pages s).2 = setBuffer bo (some ⟨B.numPages, data⟩) s ∧
      ((copyPages o old bo pages s).1 = none → ∀ k < pages * pageSize, data k = O.data k) := by
  induction pages with
  | zero =>
    refine ⟨B.data, ?_, fun _ k hk => by omega⟩
    have hself : setBuffer bo (some ⟨B.numPages, B.data⟩) s = s := by
      unfold setBuffer
      rw [show (some ⟨B.numPages, B.data⟩ : Option Buffer) = s.buffers bo from hb.symm,
        Function.update_eq_self]
    exact hself.symm
  | succ i ih =>
    obtain ⟨data, hstate, hdata⟩ := ih
    unfold copyPages
    generalize copyPages o old bo i s = r at hstate hdata
    obtain ⟨e, t⟩ := r
    dsimp only at hstate hdata
    subst hstate
    cases e with
    | some e => exact ⟨data, rfl, fun h => by cases h⟩
    | none =>
      dsimp only
      split_ifs with hold hnew
      · refine ⟨data, rfl, fun h => ?_⟩
        dsimp only at h
        rw [h] at hold
        cases hold
      · refine ⟨data, ttmBoKunmap_kmap _, fun h => ?_⟩
        dsimp only at h
        rw [h] at hnew
        cases hnew
      · have hcopy : copyPage i old bo (setBuffer bo (some ⟨B.numPages, data⟩) s) =
            setBuffer bo (some ⟨B.numPages,
              fun k => if k / pageSize = i then O.data k else data k⟩) s := by
          unfold copyPage
          rw [setBuffer_of_ne hne, ho, setBuffer_self]
          simp only [setBuffer, Function.update_idem]
        refine ⟨fun k => if k / pageSize = i then O.data k else data k, ?_, fun _ k hk => ?_⟩
        · rw [copyPage_kmap, copyPage_kmap, ttmBoKunmap_kmap, ttmBoKunmap_kmap, hcopy]
        · dsimp only
          split_ifs with hpage
          · rfl
          · apply hdata rfl
            have hdiv : k / pageSize < i + 1 := Nat.div_lt_of_lt_mul (by rwa [mul_comm])
            exact (Nat.div_lt_iff_lt_mul (by decide)).1 (by omega)

/-- The buffer has the size of the table, and its first bytes are what was read back last. -/
def Holds (s : CotDev) (b : ℕ) : Prop :=
  ∃ B, s.buffers b = some B ∧ s.backupSize ≤ B.numPages * pageSize ∧
    ∀ i < s.sizeReadBack, B.data i = s.lastRead i

theorem Readable.setBuffer (h : Readable n s) {buf : ℕ} (hb : s.backup ≠ some buf)
    (v : Option Buffer) : Readable n (setBuffer buf v s) := by
  have hother : ∀ c, s.backup = some c → (Cotable.setBuffer buf v s).buffers c = s.buffers c := by
    intro c hc
    apply setBuffer_of_ne
    rintro rfl
    exact hb hc
  refine ⟨h.bound, ?_, h.fresh, h.reads, h.last, h.content.imp_right ?_⟩
  · intro c hc
    rw [hother c hc]
    exact h.buffer c hc
  · intro hcontent c C hc hC
    rw [hother c hc] at hC
    exact hcontent c C hc hC

theorem pagesOf_mul (size : ℕ) : size ≤ pagesOf size * pageSize := by
  have hlt : size + pageSize - 1 < pagesOf size * pageSize + pageSize :=
    Nat.lt_div_mul_add (by decide)
  have hpos : 0 < pageSize := by decide
  omega

theorem drain_queue (s : CotDev) : (drain s).queue = [] := rfl

theorem Readable.settled (h : Readable n s) (hq : s.queue = []) {b : ℕ} (hb : s.backup = some b) :
    ∃ B, s.buffers b = some B ∧ s.backupSize ≤ B.numPages * pageSize ∧
      ∀ i < n, B.data i = s.lastRead i := by
  obtain ⟨B, hB, hpages⟩ := h.buffer b hb
  refine ⟨B, hB, hpages, ?_⟩
  rcases h.content with hmem | heq
  · rw [hq] at hmem
    cases hmem
  · exact heq b B hb hB

/-- The outcome of a resize from a state whose readback is under way. -/
structure Resized (newSize buf : ℕ) (s : CotDev) (r : Option Errno × CotDev) : Prop where
  inv : Inv r.2
  same : r.2.type = s.type ∧ r.2.seenEntries = s.seenEntries
  switched : r.1 = none → r.2.backupSize = newSize ∧ r.2.backup = some buf ∧ Holds r.2 buf

def SameTable (s t : CotDev) : Prop :=
  t.type = s.type ∧ t.seenEntries = s.seenEntries ∧ t.backupSize = s.backupSize ∧
    t.sizeReadBack = s.sizeReadBack

theorem Inv.oldBackup (h : Inv s) (e : Errno) {newSize buf : ℕ} {t : CotDev} (hsame : SameTable s t)
    (ht : Readable s.sizeReadBack t) : Resized newSize buf s (some e, t) := by
  obtain ⟨htype, hseen, hsize, hread⟩ := hsame
  refine ⟨⟨?_, ?_, ?_⟩, ⟨htype, hseen⟩, fun hc => by cases hc⟩
  · rw [hsize]
    exact h.size
  · rw [hseen]
    exact h.seen
  · rw [hread]
    exact ht

theorem Inv.newBackup (h : Inv s) {newSize buf old cur : ℕ} {data : ℕ → ℕ} {v : CotDev}
    (hsame : SameTable s v) (hq : v.queue = [])
    (hB : v.buffers buf = some ⟨pagesOf newSize, data⟩) (hequal : ∀ i < cur, data i = v.lastRead i)
    (hcur : cur ≤ newSize) (hle : s.backupSize ≤ newSize) (hlt : newSize < 2 ^ 28) :
    Resized newSize buf s (none, vmwBoUnreference old
      { submit [.setCotable (some buf) cur]
          { v with backup := some buf, backupSize := newSize, sizeReadBack := cur } with
        scrubbed := false, mobHead := some buf, id := s.type.index }) := by
  refine ⟨⟨⟨h.size.1.trans_le hle, hlt⟩, ?_, ?_⟩, ⟨hsame.1, hsame.2.1⟩,
    fun _ => ⟨rfl, rfl, _, hB, pagesOf_mul newSize, hequal⟩⟩
  · have := h.seen
    rwa [← hsame.2.1] at this
  · refine ⟨hcur, ?_, fun hnone => (by cases hnone), ?_, ?_, .inr ?_⟩
    · rintro c ⟨⟩
      exact ⟨_, hB, pagesOf_mul newSize⟩
    · simp [vmwBoUnreference, Cotable.submit, hq, ReadsTo]
    · simp [vmwBoUnreference, Cotable.submit, hq, mobAfter]
    · rintro c C ⟨⟩ hC
      obtain rfl := Option.some.inj (hB.symm.trans hC)
      exact hequal

theorem Inv.switch (h : Inv s) {o : ResizeEnds} {newSize buf old cur : ℕ}
    {r : Option Errno × CotDev} (hcur : Readable cur s) (hle : s.backupSize ≤ newSize)
    (hlt : newSize < 2 ^ 28) (hold : s.backup = some old) (hbuf : s.buffers buf = none)
    (hr : switchBackup o newSize buf old cur s = some r) : Resized newSize buf s r := by
  have hne : old ≠ buf := by
    rintro rfl
    obtain ⟨B, hB, -⟩ := h.readable.buffer old hold
    rw [hbuf] at hB
    cases hB
  have hnot : s.backup ≠ some buf := by
    rw [hold]
    exact fun heq => hne (Option.some.inj heq)
  unfold switchBackup at hr
  by_cases hk : (!o.kzalloc) = true
  · rw [if_pos hk] at hr
    obtain rfl := Option.some.inj hr
    exact h.oldBackup _ ⟨rfl, rfl, rfl, rfl⟩ h.readable
  rw [if_neg hk] at hr
  by_cases hi : o.boInit.isSome = true
  · rw [if_pos hi] at hr
    obtain ⟨e, he⟩ := Option.isSome_iff_exists.1 hi
    obtain rfl := Option.some.inj hr
    rw [he]
    exact h.oldBackup _ ⟨rfl, rfl, rfl, rfl⟩ h.readable
  rw [if_neg hi] at hr
  dsimp only at hr
  have hinit : ∀ m, Readable m s → Readable m (vmwBoInit buf newSize s) :=
    fun m hm => (hm.setBuffer hnot _).frame rfl
  by_cases hw : o.boWait.isSome = true
  · rw [if_pos hw] at hr
    obtain ⟨e, he⟩ := Option.isSome_iff_exists.1 hw
    obtain rfl := Option.some.inj hr
    rw [he]
    exact h.oldBackup _ ⟨rfl, rfl, rfl, rfl⟩ ((hinit _ h.readable).frame rfl)
  rw [if_neg hw] at hr
  -- the commands so far are executed, and the new buffer is as it was made
  obtain ⟨hcur', hkept⟩ := (hinit _ hcur).drain
  have hread' := (hinit _ h.readable).drain.1
  have hnew : (drain (vmwBoInit buf newSize s)).buffers buf = some ⟨pagesOf newSize, 0⟩ :=
    (hkept.buffers buf hnot).trans (setBuffer_self ..)
  have hqueue := drain_queue (vmwBoInit buf newSize s)
  generalize drain (vmwBoInit buf newSize s) = u at hr hcur' hkept hread' hnew hqueue
  have hbackup : u.backup = some old := hkept.backup.trans hold
  obtain ⟨O, hO, hpages, hdata⟩ := hcur'.settled hqueue hbackup
  have hsize : u.backupSize = s.backupSize := hkept.backupSize
  rw [hO, Option.elim_some] at hr
  obtain ⟨data, hstate, hcopy⟩ := copyPages_spec o hO hnew hne O.numPages
  generalize copyPages o old buf O.numPages u = rc at hr hstate hcopy
  obtain ⟨e, v⟩ := rc
  dsimp only at hstate hcopy
  have hnot' : u.backup ≠ some buf := by
    rw [hbackup]
    exact fun heq => hne (Option.some.inj heq)
  have hv : Readable s.sizeReadBack v := by
    rw [hstate]
    exact hread'.setBuffer hnot' _
  have hfields : SameTable s v := by
    rw [hstate]
    exact ⟨hkept.type, hkept.seenEntries, hkept.backupSize, hkept.sizeReadBack⟩
  cases e with
  | some e =>
    obtain rfl := Option.some.inj hr
    exact h.oldBackup _ hfields (hv.frame rfl)
  | none =>
    dsimp only at hr
    by_cases hval : o.boValidate.isSome = true
    · rw [if_pos hval] at hr
      obtain ⟨e, he⟩ := Option.isSome_iff_exists.1 hval
      obtain rfl := Option.some.inj hr
      rw [he]
      exact h.oldBackup _ hfields (hv.frame rfl)
    rw [if_neg hval] at hr
    obtain ⟨x, hx, rfl⟩ := Option.map_eq_some_iff.1 hr
    unfold vmwCotableUnscrub at hx
    obtain ⟨b, hb, rfl⟩ := Option.map_eq_some_iff.1 hx
    obtain rfl := Option.some.inj hb
    by_cases hspace : o.unscrubSpace = true
    · rw [if_pos hspace]
      have hB : v.buffers buf = some ⟨pagesOf newSize, data⟩ := by
        rw [hstate, setBuffer_self]
      have hlast : v.lastRead = u.lastRead := by
        rw [hstate]
        rfl
      have hvq : v.queue = [] := by
        rw [hstate]
        exact hqueue
      have hequal : ∀ i < cur, data i = v.lastRead i := by
        intro i hi
        rw [hlast, hcopy rfl i (by have := hcur'.bound; omega)]
        exact hdata i hi
      have hbound : cur ≤ newSize := by
        have := hcur.bound
        omega
      exact h.newBackup (v := v) hfields hvq hB hequal hbound hle hlt
    · rw [if_neg hspace]
      refine h.oldBackup _ ⟨hfields.1, hfields.2.1, rfl, rfl⟩ (hv.frame ?_)
      rw [hstate]
      simp [readView, vmwBoUnreference, Cotable.setBuffer, hbackup, hsize]

theorem Inv.resize (h : Inv s) {o : ResizeEnds} {newSize buf : ℕ} {r : Option Errno × CotDev}
    (hle : s.backupSize ≤ newSize) (hlt : newSize < 2 ^ 28) (hbuf : s.buffers buf = none)
    (hr : vmwCotableResize o newSize buf s = some r) : Resized newSize buf s r := by
  unfold vmwCotableResize at hr
  obtain ⟨old, hold, hr⟩ := Option.bind_eq_some_iff.1 hr
  have hread := h.readback o.readbackSpace
  have hfields : (vmwCotableReadback o.readbackSpace s).2.type = s.type ∧
      (vmwCotableReadback o.readbackSpace s).2.seenEntries = s.seenEntries ∧
      (vmwCotableReadback o.readbackSpace s).2.backupSize = s.backupSize ∧
      (vmwCotableReadback o.readbackSpace s).2.backup = s.backup ∧
      (vmwCotableReadback o.readbackSpace s).2.buffers = s.buffers := by
    unfold vmwCotableReadback
    split_ifs <;> exact ⟨rfl, rfl, rfl, rfl, rfl⟩
  generalize vmwCotableReadback o.readbackSpace s = x at hr hread hfields
  obtain ⟨e, t⟩ := x
  obtain ⟨hinv, hmore⟩ := hread
  obtain ⟨htype, hseen, hsize, hbackup, hbuffers⟩ := hfields
  dsimp only at *
  cases e with
  | some e =>
    obtain rfl := Option.some.inj hr
    exact ⟨hinv, ⟨htype, hseen⟩, fun hc => by cases hc⟩
  | none =>
    have hback : Inv { t with sizeReadBack := s.sizeReadBack } :=
      ⟨hinv.size, hinv.seen, (hinv.readable.mono hmore).frame rfl⟩
    have hsw := hback.switch (hinv.readable.frame rfl) (by rw [← hsize] at hle; exact hle) hlt
      (hbackup.trans hold) (by rw [← hbuffers] at hbuf; exact hbuf) hr
    exact ⟨hsw.inv, ⟨hsw.same.1.trans htype, hsw.same.2.trans hseen⟩, hsw.switched⟩

theorem Inv.unscrub (h : Inv s) {space : Bool} {r : Option Errno × CotDev}
    (hr : vmwCotableUnscrub space s = some r) :
    Inv r.2 ∧ Kept { s with scrubbed := r.2.scrubbed } r.2 := by
  obtain ⟨hread, hkept⟩ := h.readable.unscrub hr
  refine ⟨⟨?_, ?_, ?_⟩, hkept⟩
  · rw [hkept.backupSize]
    exact h.size
  · rw [hkept.seenEntries]
    exact h.seen
  · rw [hkept.sizeReadBack]
    exact hread

theorem Inv.create (h : Inv s) {o : ResizeEnds} {space : Bool} {buf : ℕ}
    {r : Option Errno × CotDev} (hbuf : s.buffers buf = none)
    (hr : vmwCotableCreate o space buf s = some r) : Inv r.2 ∧ (r.1 = none →
      (r.2.seenEntries + 1) * (coInfo r.2.type).size ≤ r.2.backupSize ∧
      (r.2.backup = s.backup ∨ ∀ b, r.2.backup = some b → Holds r.2 b)) := by
  obtain ⟨newSize, k, hdouble, hpow, hlt, hneed⟩ := h.doubles
  have hle : s.backupSize ≤ newSize := by
    rw [hpow]
    exact Nat.le_mul_of_pos_right _ (Nat.two_pow_pos k)
  unfold vmwCotableCreate at hr
  rw [hdouble, Option.bind_some] at hr
  by_cases hfit : newSize ≤ s.backupSize
  · rw [if_pos hfit] at hr
    obtain rfl : newSize = s.backupSize := le_antisymm hfit hle
    by_cases hscr : s.scrubbed = true ∧ s.mobHead ≠ none
    · rw [if_pos hscr] at hr
      obtain ⟨x, hx, rfl⟩ := Option.map_eq_some_iff.1 hr
      obtain ⟨hinv, hkept⟩ := h.unscrub hx
      obtain ⟨e, t⟩ := x
      cases e with
      | some e => exact ⟨hinv, fun hc => by cases hc⟩
      | none =>
        refine ⟨⟨hinv.size, hinv.seen, hinv.readable.frame rfl⟩, fun _ => ⟨?_, .inl hkept.backup⟩⟩
        change (t.seenEntries + 1) * (coInfo t.type).size ≤ t.backupSize
        rw [hkept.seenEntries, hkept.type, hkept.backupSize]
        exact hneed
    · rw [if_neg hscr] at hr
      obtain rfl := Option.some.inj hr
      exact ⟨⟨h.size, h.seen, h.readable.frame rfl⟩, fun _ => ⟨hneed, .inl rfl⟩⟩
  · rw [if_neg hfit] at hr
    have hres := h.resize hle hlt hbuf hr
    refine ⟨hres.inv, fun hc => ?_⟩
    obtain ⟨hsize, hbackup, hholds⟩ := hres.switched hc
    refine ⟨?_, .inr ?_⟩
    · rw [hres.same.1, hres.same.2, hsize]
      exact hneed
    · intro b hb
      obtain rfl := Option.some.inj (hbackup.symm.trans hb)
      exact hholds

theorem Inv.notify (h : Inv s) (id : ℤ) : Inv (vmwCotableNotify id s).2 := by
  unfold vmwCotableNotify
  split_ifs with hid hseen
  · exact h
  · have hlo := h.seen.1
    refine ⟨h.size, ⟨?_, ?_⟩, h.readable.frame rfl⟩
    · change -1 ≤ id
      omega
    · change id < svgaCotableMaxIds
      omega
  · exact h

theorem step_inv {op : Op} (h : Inv s) (hs : step s op = some t) : Inv t := by
  cases op with
  | notify id =>
    cases hs
    exact h.notify id
  | create o space buf =>
    simp only [step] at hs
    split_ifs at hs with hbuf
    obtain ⟨r, hr, rfl⟩ := Option.map_eq_some_iff.1 hs
    exact (h.create hbuf hr).1
  | scrub readback space =>
    cases hs
    exact h.scrub readback space
  | unbind readback space =>
    cases hs
    unfold vmwCotableUnbind
    split_ifs
    · exact h
    · exact h
    · exact h.scrub readback space
  | readback space =>
    cases hs
    exact (h.readback space).1
  | bind space =>
    simp only [step] at hs
    split_ifs at hs
    obtain ⟨r, hr, rfl⟩ := Option.map_eq_some_iff.1 hs
    obtain ⟨hinv, -⟩ := h.unscrub hr
    obtain ⟨e, u⟩ := r
    cases e with
    | some e => exact hinv
    | none => exact ⟨hinv.size, hinv.seen, hinv.readable.frame rfl⟩
  | unlink =>
    cases hs
    exact ⟨h.size, h.seen, h.readable.frame rfl⟩
  | bufAlloc buf =>
    simp only [step] at hs
    split_ifs at hs with hc
    cases hs
    obtain ⟨hn, hscr, hq, hmob⟩ := h.readable.fresh hc.1
    refine ⟨h.size, h.seen, ⟨h.readable.bound, ?_, fun hnone => (by cases hnone), ?_, ?_, .inr ?_⟩⟩
    · rintro b ⟨⟩
      exact ⟨_, setBuffer_self .., pagesOf_mul _⟩
    · simp [vmwBoInit, setBuffer, hq, ReadsTo]
    · simp [vmwBoInit, setBuffer, hq, hscr, hmob, mobAfter]
    · intro b B _ _ i hi
      change i < s.sizeReadBack at hi
      omega
  | deviceStep =>
    simp only [step] at hs
    split at hs
    · cases hs
    · rename_i cmd cmds hq
      cases hs
      obtain ⟨hread, hkept, -⟩ := h.readable.exec hq
      refine ⟨?_, ?_, ?_⟩
      · rw [hkept.backupSize]
        exact h.size
      · rw [hkept.seenEntries]
        exact h.seen
      · rw [hkept.sizeReadBack]
        exact hread
  | deviceWrite i v =>
    cases hs
    exact ⟨h.size, h.seen, h.readable.frame rfl⟩

theorem inv_alloc (type : CotableType) : Inv (vmwCotableAlloc type) := by
  have hsize : (vmwCotableAlloc type).backupSize = 4096 := by cases type <;> decide
  have hseen : (-1 : ℤ) < svgaCotableMaxIds := by decide
  refine ⟨by rw [hsize]; decide, ⟨le_rfl, hseen⟩, ⟨Nat.zero_le _, ?_, ?_, trivial, rfl, .inr ?_⟩⟩
  · intro b hb
    cases hb
  · exact fun _ => ⟨rfl, rfl, rfl, rfl⟩
  · intro b B hb
    cases hb

/-- In every state the size that is read back is within the table, and the size that a create
    computes is reached by doublings below `2 ^ 32`. After a create that succeeds the table
    has the needed size, and its first bytes are what was read back last: at once if the
    buffer is a new one, else as soon as the device is done. -/
theorem runs_sized {type : CotableType} {ops : List Op}
    (hr : Runs step anyLabel (vmwCotableAlloc type) ops s) :
    s.sizeReadBack ≤ s.backupSize ∧
    (∃ newSize k, doubleSize (neededSize s) sizePasses s.backupSize = some newSize ∧
      newSize = s.backupSize * 2 ^ k ∧ newSize < 2 ^ 32 ∧
      (neededSize s : ℤ) = (s.seenEntries + 1) * (coInfo s.type).size) ∧
    ∀ o space buf r, s.buffers buf = none → vmwCotableCreate o space buf s = some r → r.1 = none →
      (r.2.seenEntries + 1) * (coInfo r.2.type).size ≤ r.2.backupSize ∧
      r.2.sizeReadBack ≤ r.2.backupSize ∧
      ∀ b, r.2.backup = some b → Holds (drain r.2) b ∧ (s.backup ≠ some b → Holds r.2 b) := by
  have h : Inv s := hr.invariant Inv (inv_alloc type) fun _ _ _ h _ hs => step_inv h hs
  refine ⟨h.readable.bound, ?_, ?_⟩
  · obtain ⟨newSize, k, hdouble, hpow, hlt, -⟩ := h.doubles
    exact ⟨newSize, k, hdouble, hpow, by omega, (neededSize_eq h.seen).1⟩
  · intro o space buf r hbuf hcreate hok
    obtain ⟨hinv, hsized⟩ := h.create hbuf hcreate
    obtain ⟨hneed, hcase⟩ := hsized hok
    refine ⟨hneed, hinv.readable.bound, fun b hb => ⟨?_, fun hne => ?_⟩⟩
    · obtain ⟨hread, hkept⟩ := hinv.readable.drain
      have hset := hread.settled (drain_queue _) (hkept.backup.trans hb)
      rw [← hkept.sizeReadBack] at hset
      exact hset
    · rcases hcase with hsame | hholds
      · rw [hsame] at hb
        exact absurd hb hne
      · exact hholds b hb

def resizeOk : ResizeEnds :=
  ⟨true, true, none, none, fun _ => none, fun _ => none, none, true⟩

/-- A table for stream output is bound and changed by the device, and an entry that needs
    another page is announced. -/
def grownRun : List Op :=
  [.notify 0, .bufAlloc 1, .create resizeOk true 2, .bind true, .deviceStep, .deviceWrite 5 7,
    .notify 3]

def grown : CotDev := (exec step (vmwCotableAlloc .streamOutput) grownRun).getD
  (vmwCotableAlloc .streamOutput)

def regrown : Option Errno × CotDev := (vmwCotableCreate resizeOk true 2 grown).getD (none, grown)

theorem grownRun_sized : regrown.2.backup = some 2 ∧ regrown.2.backupSize = 8192 ∧
    grown.backup = some 1 ∧ regrown.2.sizeReadBack = 4096 ∧ Holds regrown.2 2 := by
  have hr : Runs step anyLabel (vmwCotableAlloc .streamOutput) grownRun grown :=
    runs_getD (by decide)
  have hbuf : grown.buffers 2 = none := by rfl
  have hcreate : vmwCotableCreate resizeOk true 2 grown = some regrown := by rfl
  have hok : regrown.1 = none := by rfl
  have hb : regrown.2.backup = some 2 := by rfl
  refine ⟨hb, by rfl, by rfl, by rfl, ?_⟩
  exact (((runs_sized hr).2.2 resizeOk true 2 regrown hbuf hcreate hok).2.2 2 hb).2 (by decide)

end Vmwgfx.Cotable
