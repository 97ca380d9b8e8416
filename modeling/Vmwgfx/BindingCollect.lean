import Vmwgfx.BindingSync

set_option autoImplicit false

/-!
# The commands for dirty slots, word by word

`vmw_collect_dirty_view_ids`, `vmw_collect_dirty_vbs` and the emitters that send what they
collect. The loops fill `bind_cmd_buffer` while they look ahead in the bitmap; a store behind
its end, like a resource that is missing, ends the model.
-/
namespace Vmwgfx.BindingCollect
open BindingSlots BindingMachine BindingSync

def svga3dInvalidId : ℕ := 2 ^ 32 - 1

/-- `bind_cmd_buffer`, `bind_cmd_count` and `bind_first_slot`. -/
structure BindBuffer where
  words : List ℕ
  count : ℕ
  firstSlot : ℕ

def vmwMaxViewBindings : ℕ := 128

/-- Consecutive words stored from index `k` on. -/
def storeAt (words : List ℕ) (k : ℕ) (xs : List ℕ) : Option (List ℕ) :=
  if k + xs.length ≤ words.length then some (words.take k ++ xs ++ words.drop (k + xs.length))
  else none

/-- `ids` are the `res->id`. -/
def viewWords (ids : ℕ → ℕ) (x : Slot) : Option (List ℕ) :=
  if x.ctx.isNone || x.scrubbed then some [svga3dInvalidId] else x.res.map fun r => [ids r]

/-- A `SVGA3dVertexBuffer`: `sid`, `stride` and `offset`; the slot has the offset first. -/
def vbWords (ids : ℕ → ℕ) (x : Slot) : Option (List ℕ) :=
  if x.ctx.isNone || x.scrubbed then some [svga3dInvalidId, 0, 0]
  else x.res.map fun r => [ids r, x.data.getD 1 0, x.data.getD 0 0]

section Loop
variable (elem : Slot → Option (List ℕ)) (width : ℕ) (slotAt : ℕ → Slot) (dirty : ℕ → Bool)
  (maxNum : ℕ)

/-- The loop from slot `i` on, with `next_bit`; `left` slots are left. -/
def collectLoop : ℕ → ℕ → ℕ → BindBuffer → Option BindBuffer
  | _, _, 0, buf => some buf
  | i, nextBit, left + 1, buf =>
    (elem (slotAt i)).bind fun xs =>
      (storeAt buf.words (buf.count * width) xs).bind fun words =>
        let buf := { buf with words := words, count := buf.count + 1 }
        if nextBit = i then
          let nextBit := findNextBit dirty maxNum (i + 1)
          if maxNum ≤ nextBit then some buf else collectLoop (i + 1) nextBit left buf
        else collectLoop (i + 1) nextBit left buf

def collect (buf : BindBuffer) : Option BindBuffer :=
  let i := findNextBit dirty maxNum 0
  collectLoop elem width slotAt dirty maxNum i i (maxNum - i)
    { buf with count := 0, firstSlot := i }

end Loop

def vmwCollectDirtyViewIds (ids : ℕ → ℕ) (slotAt : ℕ → Slot) (dirty : ℕ → Bool) (maxNum : ℕ)
    (buf : BindBuffer) : Option BindBuffer :=
  collect (viewWords ids) 1 slotAt dirty maxNum buf

def vmwCollectDirtyVbs (ids : ℕ → ℕ) (slotAt : ℕ → Slot) (dirty : ℕ → Bool) (maxNum : ℕ)
    (buf : BindBuffer) : Option BindBuffer :=
  collect (vbWords ids) 3 slotAt dirty maxNum buf

/-- A command with its header, the words of its body and those of the array behind it. -/
structure FifoCmd where
  ctx : ℕ
  id : ℕ
  size : ℕ
  body : List ℕ
  array : List ℕ
  deriving DecidableEq, Repr

/-- What a call leaves: the command that was sent, if any, and the bitmap. -/
structure Emission where
  cmd : Option FifoCmd
  dirty : ℕ → Bool

/-- `vmw_emit_set_sr` with its reservation granted; `vmw_fifo_reserve_dx` follows the context. -/
def vmwEmitSetSr (ids : ℕ → ℕ) (b : Cbs) (sh : Fin 3) (buf : BindBuffer) : Option Emission :=
  (vmwCollectDirtyViewIds ids (srAt b sh) (b.dirtySr sh) 128 buf).bind fun buf =>
    if buf.count = 0 then some ⟨none, b.dirtySr sh⟩
    else (vmwCbsContext b).map fun c =>
      ⟨some ⟨c, 1149, 8 + buf.count * 4, [buf.firstSlot, sh + 1], buf.words.take buf.count⟩,
        bitmapClear (b.dirtySr sh) (buf.firstSlot, buf.count)⟩

def vmwEmitSetVb (ids : ℕ → ℕ) (b : Cbs) (buf : BindBuffer) : Option Emission :=
  (vmwCollectDirtyVbs ids (vbAt b) b.dirtyVb 32 buf).bind fun buf =>
    if buf.count = 0 then some ⟨none, b.dirtyVb⟩
    else (vmwCbsContext b).map fun c =>
      ⟨some ⟨c, 1158, 4 + buf.count * 12, [buf.firstSlot], buf.words.take (buf.count * 3)⟩,
        bitmapClear b.dirtyVb (buf.firstSlot, buf.count)⟩

section Scan
variable {bits : ℕ → Bool} {size offset : ℕ}

theorem findNextBit_clear (h : ∀ k, offset ≤ k → k < size → bits k = false) (hle : offset ≤ size) :
    findNextBit bits size offset = size := by
  unfold findNextBit
  rw [List.find?_eq_none.2]
  · rfl
  · intro k hk
    rw [List.mem_range'_1] at hk
    rw [h k hk.1 (by omega)]
    decide

/-- The bit that is found is set, and none is before it. -/
structure NextBit (bits : ℕ → Bool) (size offset k : ℕ) : Prop where
  le : offset ≤ k
  lt : k < size
  set : bits k = true
  clear : ∀ j, offset ≤ j → j < k → bits j = false

theorem findNextBit_next (h : findNextBit bits size offset < size) :
    NextBit bits size offset (findNextBit bits size offset) := by
  have hclear : ∀ j, offset ≤ j → j < findNextBit bits size offset → bits j = false := by
    intro j hj hlt
    by_contra hbit
    have hle := findNextBit_le hj (hlt.trans h) (eq_true_of_ne_false hbit)
    omega
  unfold findNextBit at h hclear ⊢
  cases hfind : (List.range' offset (size - offset)).find? bits with
  | none =>
    rw [hfind] at h
    exact absurd h (lt_irrefl _)
  | some k =>
    rw [hfind] at h hclear
    have hmem := List.mem_of_find?_eq_some hfind
    rw [List.mem_range'_1] at hmem
    exact ⟨hmem.1, h, List.find?_some hfind, hclear⟩

theorem findNextBit_ge (h : size ≤ findNextBit bits size offset) :
    ∀ k, offset ≤ k → k < size → bits k = false := by
  intro k hk hlt
  by_contra hbit
  have hle := findNextBit_le hk hlt (eq_true_of_ne_false hbit)
  omega

theorem NextBit.succ {k : ℕ} (h : NextBit bits size offset k) (hne : k ≠ offset) :
    NextBit bits size (offset + 1) k := by
  have hle := h.le
  refine ⟨by omega, h.lt, h.set, ?_⟩
  intro j hj hlt
  exact h.clear j (by omega) hlt

end Scan

section Loop
variable {elem : Slot → Option (List ℕ)} {width : ℕ} {slotAt : ℕ → Slot} {dirty : ℕ → Bool}
  {maxNum : ℕ} {word : ℕ → List ℕ}

theorem storeAt_fits {words xs : List ℕ} {k : ℕ} (h : k + xs.length ≤ words.length) :
    ∃ words', storeAt words k xs = some words' ∧ words'.length = words.length ∧
      words'.take (k + xs.length) = words.take k ++ xs := by
  refine ⟨words.take k ++ xs ++ words.drop (k + xs.length), if_pos h, ?_, ?_⟩
  · simp only [List.length_append, List.length_take, List.length_drop]
    omega
  · have hlen : k + xs.length = (words.take k ++ xs).length := by
      simp only [List.length_append, List.length_take]
      omega
    rw [hlen]
    exact List.take_left

/-- What the loop from slot `i` on leaves: the words of the slots up to the last dirty one. -/
structure Collects (dirty : ℕ → Bool) (maxNum width : ℕ) (word : ℕ → List ℕ) (i : ℕ)
    (buf out : BindBuffer) (last : ℕ) : Prop where
  le : i ≤ last
  lt : last < maxNum
  set : dirty last = true
  clear : ∀ k, last < k → k < maxNum → dirty k = false
  firstSlot : out.firstSlot = buf.firstSlot
  count : out.count = buf.count + (last + 1 - i)
  length : out.words.length = buf.words.length
  words : out.words.take (out.count * width) =
    buf.words.take (buf.count * width) ++ (List.range' i (last + 1 - i)).flatMap word

theorem Collects.step {i last : ℕ} {buf out : BindBuffer} {words : List ℕ}
    (h : Collects dirty maxNum width word (i + 1)
      { buf with words := words, count := buf.count + 1 } out last)
    (hlength : words.length = buf.words.length)
    (htake : words.take ((buf.count + 1) * width) = buf.words.take (buf.count * width) ++ word i) :
    Collects dirty maxNum width word i buf out last := by
  have hle := h.le
  have hcount := h.count
  have hone : last + 1 - i = last + 1 - (i + 1) + 1 := by omega
  refine ⟨by omega, h.lt, h.set, h.clear, h.firstSlot, ?_, h.length.trans hlength, ?_⟩
  · rw [hcount, hone]
    change buf.count + 1 + _ = _
    omega
  · rw [h.words, hone, List.range'_succ, List.flatMap_cons, ← List.append_assoc]
    exact congrArg (· ++ _) htake

theorem collectLoop_collects (hword : ∀ i < maxNum, elem (slotAt i) = some (word i))
    (hwidth : ∀ i < maxNum, (word i).length = width) {left i nextBit : ℕ} (buf : BindBuffer)
    (hleft : i + left = maxNum) (hnext : NextBit dirty maxNum i nextBit)
    (hroom : (buf.count + left) * width ≤ buf.words.length) : ∃ out last,
      collectLoop elem width slotAt dirty maxNum i nextBit left buf = some out ∧
        Collects dirty maxNum width word i buf out last := by
  induction left generalizing i nextBit buf with
  | zero =>
    have hle := hnext.le
    have hlt := hnext.lt
    omega
  | succ left ih =>
    have hi : i < maxNum := by omega
    have hstore : buf.count * width + (word i).length ≤ buf.words.length := by
      rw [hwidth i hi]
      have hmul : (buf.count + (left + 1)) * width =
          buf.count * width + width + left * width := by ring
      omega
    obtain ⟨words, hstored, hlength, htake⟩ := storeAt_fits hstore
    rw [hwidth i hi, ← Nat.succ_mul] at htake
    have hroom' : (buf.count + 1 + left) * width ≤ words.length := by
      rw [hlength, Nat.add_right_comm, Nat.add_assoc]
      exact hroom
    have hstep : collectLoop elem width slotAt dirty maxNum i nextBit (left + 1) buf =
        if nextBit = i then
          if maxNum ≤ findNextBit dirty maxNum (i + 1) then
            some { buf with words := words, count := buf.count + 1 }
          else collectLoop elem width slotAt dirty maxNum (i + 1)
            (findNextBit dirty maxNum (i + 1)) left
            { buf with words := words, count := buf.count + 1 }
        else collectLoop elem width slotAt dirty maxNum (i + 1) nextBit left
          { buf with words := words, count := buf.count + 1 } := by
      rw [collectLoop, hword i hi, Option.bind_some, hstored, Option.bind_some]
    rw [hstep]
    by_cases heq : nextBit = i
    · have hset : dirty i = true := heq ▸ hnext.set
      rw [if_pos heq]
      by_cases hend : maxNum ≤ findNextBit dirty maxNum (i + 1)
      · rw [if_pos hend]
        have hone : i + 1 - i = 1 := by omega
        refine ⟨_, i, rfl, le_rfl, hi, hset, ?_, rfl, ?_, hlength, ?_⟩
        · intro k hk hlt
          exact findNextBit_ge hend k hk hlt
        · rw [hone]
        · rw [hone]
          exact htake.trans (congrArg _ (List.append_nil _).symm)
      · rw [if_neg hend]
        obtain ⟨out, last, hout, hcollects⟩ := ih
          { buf with words := words, count := buf.count + 1 } (by omega)
          (findNextBit_next (not_le.1 hend)) hroom'
        exact ⟨out, last, hout, hcollects.step hlength htake⟩
    · rw [if_neg heq]
      obtain ⟨out, last, hout, hcollects⟩ := ih
        { buf with words := words, count := buf.count + 1 } (by omega)
        (hnext.succ heq) hroom'
      exact ⟨out, last, hout, hcollects.step hlength htake⟩

structure Spanned (dirty : ℕ → Bool) (maxNum first last : ℕ) : Prop where
  le : first ≤ last
  lt : last < maxNum
  firstSet : dirty first = true
  lastSet : dirty last = true
  within : ∀ k < maxNum, dirty k = true → first ≤ k ∧ k ≤ last

/-- A dirty bitmap: the buffer starts with the words of the slots from the first dirty one to
    the last. -/
theorem collect_dirty (hword : ∀ i < maxNum, elem (slotAt i) = some (word i))
    (hwidth : ∀ i < maxNum, (word i).length = width) {buf : BindBuffer}
    (hroom : maxNum * width ≤ buf.words.length) (h : ∃ k < maxNum, dirty k = true) :
    ∃ out first last, collect elem width slotAt dirty maxNum buf = some out ∧
      Spanned dirty maxNum first last ∧ out.firstSlot = first ∧ out.count = last + 1 - first ∧
      out.words.take (out.count * width) =
        (List.range' first (last + 1 - first)).flatMap word := by
  obtain ⟨k, hk, hbit⟩ := h
  have hnext := findNextBit_next ((findNextBit_le (Nat.zero_le k) hk hbit).trans_lt hk)
  have hlt := hnext.lt
  generalize hfirst : findNextBit dirty maxNum 0 = first at hnext hlt
  have hstart : NextBit dirty maxNum first first :=
    ⟨le_rfl, hnext.lt, hnext.set, fun j hj hj' => absurd hj (not_le.2 hj')⟩
  have hmul : (0 + (maxNum - first)) * width ≤ maxNum * width :=
    Nat.mul_le_mul_right width (by omega)
  obtain ⟨out, last, hout, hcollects⟩ := collectLoop_collects hword hwidth
    (⟨buf.words, 0, first⟩ : BindBuffer) (by omega) hstart (hmul.trans hroom)
  have hwords := hcollects.words
  simp only [Nat.zero_mul, List.take_zero, List.nil_append] at hwords
  refine ⟨out, first, last, ?_, ⟨hcollects.le, hcollects.lt, hnext.set, hcollects.set, ?_⟩, ?_, ?_,
    hwords⟩
  · unfold collect
    rw [hfirst]
    exact hout
  · intro j hj hset
    constructor
    · by_contra hlow
      rw [hnext.clear j (Nat.zero_le j) (not_le.1 hlow)] at hset
      cases hset
    · by_contra hhigh
      rw [hcollects.clear j (not_le.1 hhigh) hj] at hset
      cases hset
  · rw [hcollects.firstSlot]
  · rw [hcollects.count, Nat.zero_add]

theorem collect_clean {buf : BindBuffer} (h : ∀ k < maxNum, dirty k = false) :
    collect elem width slotAt dirty maxNum buf = some ⟨buf.words, 0, maxNum⟩ := by
  unfold collect
  rw [findNextBit_clear (fun k _ hk => h k hk) (Nat.zero_le maxNum)]
  dsimp only
  rw [Nat.sub_self]
  rfl

end Loop

/-- The words that tell the device of a slot: the id and the attributes of what is bound, or
    `SVGA3D_INVALID_ID` and zeros. -/
def told (ids : ℕ → ℕ) (attributes : List ℕ → List ℕ) (x : Slot) : List ℕ :=
  match x.ctx, x.scrubbed, x.res with
  | some _, false, some r => ids r :: attributes x.data
  | _, _, _ => svga3dInvalidId :: (attributes []).map fun _ => 0

def noAttributes (_ : List ℕ) : List ℕ := []

def vbAttributes (data : List ℕ) : List ℕ := [data.getD 1 0, data.getD 0 0]

section Words
variable (ids : ℕ → ℕ) {x : Slot}

theorem viewWords_eq (h : x.ctx.isSome → x.res.isSome) :
    viewWords ids x = some (told ids noAttributes x) := by
  unfold viewWords told
  cases hctx : x.ctx with
  | none => rfl
  | some c =>
    obtain ⟨r, hr⟩ := Option.isSome_iff_exists.1 (h (by rw [hctx]; rfl))
    cases x.scrubbed <;> simp [hr, noAttributes]

theorem vbWords_eq (h : x.ctx.isSome → x.res.isSome) :
    vbWords ids x = some (told ids vbAttributes x) := by
  unfold vbWords told
  cases hctx : x.ctx with
  | none => rfl
  | some c =>
    obtain ⟨r, hr⟩ := Option.isSome_iff_exists.1 (h (by rw [hctx]; rfl))
    cases x.scrubbed <;> simp [hr, vbAttributes]

theorem told_length {attributes : List ℕ → List ℕ}
    (h : ∀ data, (attributes data).length = (attributes []).length) (x : Slot) :
    (told ids attributes x).length = (attributes []).length + 1 := by
  unfold told
  split
  · rw [List.length_cons, h]
  · rw [List.length_cons, List.length_map]

end Words

/-- The reservation for dirty slots is granted to a context. -/
def Granted (b : Cbs) (dirty : ℕ → Bool) (maxNum c : ℕ) : Prop :=
  (∃ k < maxNum, dirty k = true) → vmwCbsContext b = some c

/-- What an emitter owes for the slots of a bitmap: one command, unless none is dirty, that
    lists all slots from the first dirty one to the last, each as it is tracked, and a clear
    bitmap. -/
structure Exact (dirty : ℕ → Bool) (maxNum : ℕ) (word : ℕ → List ℕ)
    (cmd : ℕ → ℕ → List ℕ → FifoCmd) (e : Emission) : Prop where
  clear : ∀ k < maxNum, e.dirty k = false
  quiet : (∀ k < maxNum, dirty k = false) → e.cmd = none
  sent : (∃ k < maxNum, dirty k = true) → ∃ first last, Spanned dirty maxNum first last ∧
    e.cmd = some (cmd first (last + 1 - first) ((List.range' first (last + 1 - first)).flatMap word))

section Emitters
variable {ids : ℕ → ℕ} {b : Cbs} {c : ℕ} {buf : BindBuffer}

theorem Spanned.clear {dirty : ℕ → Bool} {maxNum first last : ℕ}
    (h : Spanned dirty maxNum first last) :
    ∀ k < maxNum, bitmapClear dirty (first, last + 1 - first) k = false := by
  intro k hk
  have hle := h.le
  unfold bitmapClear
  cases hbit : dirty k with
  | false => rfl
  | true =>
    have hwithin := h.within k hk hbit
    rw [decide_eq_true (by omega)]
    rfl

theorem collect_exact {elem : Slot → Option (List ℕ)} {width maxNum : ℕ} {slotAt : ℕ → Slot}
    {word : ℕ → List ℕ} (dirty : ℕ → Bool) (cmd : ℕ → ℕ → ℕ → List ℕ → FifoCmd) (buf : BindBuffer)
    (hgranted : Granted b dirty maxNum c) (hword : ∀ i < maxNum, elem (slotAt i) = some (word i))
    (hwidth : ∀ i < maxNum, (word i).length = width)
    (hroom : maxNum * width ≤ buf.words.length) :
    ∃ e, ((collect elem width slotAt dirty maxNum buf).bind fun buf =>
        if buf.count = 0 then some (⟨none, dirty⟩ : Emission)
        else (vmwCbsContext b).map fun c =>
          ⟨some (cmd c buf.firstSlot buf.count (buf.words.take (buf.count * width))),
            bitmapClear dirty (buf.firstSlot, buf.count)⟩) = some e ∧
      Exact dirty maxNum word (cmd c) e := by
  by_cases h : ∃ k < maxNum, dirty k = true
  · obtain ⟨out, first, last, hout, hspanned, hfirst, hcount, hwords⟩ :=
      collect_dirty hword hwidth hroom h
    have hle := hspanned.le
    rw [hout, Option.bind_some, if_neg (by omega), hgranted h, Option.map_some, hwords, hfirst, hcount]
    refine ⟨_, rfl, hspanned.clear, ?_, fun _ => ⟨first, last, hspanned, rfl⟩⟩
    intro hclean
    obtain ⟨k, hk, hbit⟩ := h
    rw [hclean k hk] at hbit
    cases hbit
  · have hclean : ∀ k < maxNum, dirty k = false := by
      intro k hk
      by_contra hbit
      exact h ⟨k, hk, eq_true_of_ne_false hbit⟩
    rw [collect_clean hclean, Option.bind_some, if_pos rfl]
    exact ⟨_, rfl, hclean, fun _ => rfl, fun hsome => absurd hsome h⟩

def srCmd (sh : Fin 3) (c first n : ℕ) (xs : List ℕ) : FifoCmd :=
  ⟨c, 1149, 8 + n * 4, [first, sh + 1], xs⟩

def vbCmd (c first n : ℕ) (xs : List ℕ) : FifoCmd := ⟨c, 1158, 4 + n * 12, [first], xs⟩

/-- For every binding state, every bitmap and either kind of slot: with the reservation granted
    and no store behind the end of `bind_cmd_buffer`, one command tells the device of the slots
    from the first dirty one to the last, and of no others. -/
theorem emits_exact (hbound : ∀ l, (b.slots l).ctx.isSome → (b.slots l).res.isSome)
    (hbuf : buf.words.length = vmwMaxViewBindings) :
    (∀ sh, Granted b (b.dirtySr sh) 128 c → ∃ e, vmwEmitSetSr ids b sh buf = some e ∧
      Exact (b.dirtySr sh) 128 (fun k => told ids noAttributes (srAt b sh k)) (srCmd sh c) e) ∧
    (Granted b b.dirtyVb 32 c → ∃ e, vmwEmitSetVb ids b buf = some e ∧
      Exact b.dirtyVb 32 (fun k => told ids vbAttributes (vbAt b k)) (vbCmd c) e) := by
  constructor
  · intro sh hgranted
    have hwidth : ∀ i < 128, (told ids noAttributes (srAt b sh i)).length = 1 :=
      fun i _ => told_length ids (fun _ => rfl) _
    obtain ⟨e, he, hexact⟩ := collect_exact (b.dirtySr sh) (srCmd sh) buf hgranted
      (fun i _ => viewWords_eq ids (hbound (.sr sh (Fin.ofNat 128 i)))) hwidth
      (by rw [hbuf]; decide)
    simp only [Nat.mul_one] at he
    exact ⟨e, he, hexact⟩
  · intro hgranted
    have hwidth : ∀ i < 32, (told ids vbAttributes (vbAt b i)).length = 3 :=
      fun i _ => told_length ids (fun _ => rfl) _
    exact collect_exact b.dirtyVb vbCmd buf hgranted
      (fun i _ => vbWords_eq ids (hbound (.vb (Fin.ofNat 32 i)))) hwidth (by rw [hbuf]; decide)

end Emitters

/-- Three dirty shader resource slots in a row: a view, one that is scrubbed, an unbound one. A
    dirty vertex buffer has the last slot. -/
def dirtyViews : Cbs where
  slots
    | .sr 0 3 => ⟨some 1, some 5, .sr, false, [], .self⟩
    | .sr 0 4 => ⟨some 1, some 6, .sr, true, [], .self⟩
    | .vb 31 => ⟨some 1, some 7, .vb, false, [64, 16], .self⟩
    | _ => ⟨none, none, .shader, false, [], .self⟩
  list := [.vb 31, .sr 0 4, .sr 0 3]
  dirty _ := true
  dirtyVb k := k = 31
  dirtyPs sh := sh = 0
  dirtySr sh k := sh = 0 ∧ 3 ≤ k ∧ k ≤ 5

def zeroBuffer : BindBuffer := ⟨List.replicate vmwMaxViewBindings 0, 0, 0⟩

theorem dirtyViews_told :
    (∃ e, vmwEmitSetSr id dirtyViews 0 zeroBuffer = some e ∧ (∀ k < 128, e.dirty k = false) ∧
      e.cmd = some ⟨1, 1149, 20, [3, 1], [5, svga3dInvalidId, svga3dInvalidId]⟩) ∧
    ∃ e, vmwEmitSetVb id dirtyViews zeroBuffer = some e ∧ (∀ k < 32, e.dirty k = false) ∧
      e.cmd = some ⟨1, 1158, 16, [31], [7, 16, 64]⟩ := by
  have hbound : ∀ l, (dirtyViews.slots l).ctx.isSome → (dirtyViews.slots l).res.isSome := by
    intro l
    unfold dirtyViews
    dsimp only
    split
    · exact fun _ => rfl
    · exact fun _ => rfl
    · exact fun _ => rfl
    · exact fun h => by cases h
  have hctx : vmwCbsContext dirtyViews = some 1 := rfl
  obtain ⟨hsr, hvb⟩ := @emits_exact id dirtyViews 1 zeroBuffer hbound
    (List.length_replicate ..)
  constructor
  · obtain ⟨e, he, hexact⟩ := hsr 0 fun _ => hctx
    have hcmd : (vmwEmitSetSr id dirtyViews 0 zeroBuffer).map Emission.cmd =
        some (some ⟨1, 1149, 20, [3, 1], [5, svga3dInvalidId, svga3dInvalidId]⟩) := by
      decide +kernel
    rw [he] at hcmd
    exact ⟨e, he, hexact.clear, Option.some.inj hcmd⟩
  · obtain ⟨e, he, hexact⟩ := hvb fun _ => hctx
    have hcmd : (vmwEmitSetVb id dirtyViews zeroBuffer).map Emission.cmd =
        some (some ⟨1, 1158, 16, [31], [7, 16, 64]⟩) := by
      decide +kernel
    rw [he] at hcmd
    exact ⟨e, he, hexact.clear, Option.some.inj hcmd⟩

end Vmwgfx.BindingCollect
