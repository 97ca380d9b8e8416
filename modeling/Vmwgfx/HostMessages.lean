import Vmwgfx.BoundedRetries
import Vmwgfx.ExecbufState

set_option autoImplicit false

/-!
# Messages of the host

`vmwgfx_msg.c`: the retry loops that send a message to the host and receive its reply, and
`vmw_host_get_guestinfo`, which copies the reply without its code. The host may answer
anything; what it is asked does not bear on the results.
-/
namespace Vmwgfx.HostMessages
open ExecbufState (Errno)
open BoundedRetries

def messageStatusSuccess : BitVec 64 := 0x0001
def messageStatusDorecv : BitVec 64 := 0x0002
def messageStatusCpt : BitVec 64 := 0x0010
def messageStatusHb : BitVec 64 := 0x0080

/-- `RETRIES`. -/
def maxRetries : ℕ := 3

def highWord (x : BitVec 64) : BitVec 64 := (x &&& 0xFFFF0000) >>> 16

def hasStatus (x status : BitVec 64) : Bool := highWord x &&& status != 0

/-- What the host answers to `VMW_PORT_CMD_SENDSIZE` and to the message. -/
structure SendAttempt where
  sizeEcx : BitVec 64
  hbEbx : BitVec 64
  deriving DecidableEq, Repr

/-- A pass of the loop in `vmw_send_msg`; 0 is `none`. -/
def sendAttempt (a : SendAttempt) : Verdict (Option Errno) :=
  if !hasStatus a.sizeEcx messageStatusSuccess || !hasStatus a.sizeEcx messageStatusHb then
    .stop (some .einval)
  else if hasStatus a.hbEbx messageStatusSuccess then .stop none
  else if hasStatus a.hbEbx messageStatusCpt then .again
  else .stop (some .einval)

def vmwSendMsg (host : ℕ → SendAttempt) : Option Errno :=
  match (retry (fun k u => (sendAttempt (host k), u)) maxRetries ()).1.2 with
  | some ret => ret
  | none => some .einval

theorem vmwSendMsg_eq_none (host : ℕ → SendAttempt) : vmwSendMsg host = none ↔
    ∃ k < maxRetries, (∀ j < k, sendAttempt (host j) = .again) ∧
      sendAttempt (host k) = .stop none := by
  unfold vmwSendMsg
  rcases again_or_first (fun j => sendAttempt (host j) = .again) maxRetries with
    hall | ⟨k, hk, hbefore, hnot⟩
  · rw [retry_exhausted fun j hj => by rw [hall j hj]]
    apply iff_of_false (by simp)
    rintro ⟨k, hk, -, hsent⟩
    rw [hall k hk] at hsent
    cases hsent
  · cases hstop : sendAttempt (host k) with
    | again => exact absurd hstop hnot
    | stop ret =>
      rw [retry_stop hk (fun j hj => by rw [hbefore j hj]) (by rw [hstop])]
      constructor
      · rintro rfl
        exact ⟨k, hk, hbefore, hstop⟩
      · rintro ⟨i, -, hi, hsent⟩
        have hik := first_unique hi hbefore (by rw [hsent]; simp) hnot
        rw [hik, hstop] at hsent
        cases hsent
        rfl

/-- What the host answers to `VMW_PORT_CMD_RECVSIZE`, whether there is memory for the reply, the
    bytes that the reply has, and what the host answers to its reading and its
    acknowledgement. -/
structure RecvAttempt where
  sizeEcx : BitVec 64
  sizeEbx : BitVec 64
  memory : Bool
  bytes : ℕ → UInt8
  hbEbx : BitVec 64
  ackEcx : BitVec 64

/-- The memory of a reply, named by the attempt that has allocated it. -/
structure Reply where
  id : ℕ
  len : BitVec 64
  bytes : ℕ → UInt8

/-- How the loop in `vmw_recv_msg` is left: by a `return`, by its `break`, or, which ends
    everything, by the host writing past the memory of the reply. -/
inductive RecvEnd where
  | returns (ret : Option Errno)
  | breaks (reply : Reply)
  | overruns

inductive Stop where
  | errno (e : Errno)
  | overrun
  deriving DecidableEq, Repr

/-- The reply of an attempt, with the end that the driver puts to it. -/
def replyOf (host : ℕ → RecvAttempt) (k : ℕ) : Reply :=
  ⟨k, (host k).sizeEbx, Function.update (host k).bytes (host k).sizeEbx.toNat 0⟩

/-- Whether `reply[reply_len]` lies past the `reply_len + 1` bytes that are allocated. -/
def pastBlock (len : BitVec 64) : Bool := decide ((len + 1).toNat ≤ len.toNat)

/-- A pass of the loop in `vmw_recv_msg`. `live` are the replies that are allocated. -/
def recvAttempt (host : ℕ → RecvAttempt) (k : ℕ) (live : List ℕ) : Verdict RecvEnd × List ℕ :=
  let a := host k
  if !hasStatus a.sizeEcx messageStatusSuccess || !hasStatus a.sizeEcx messageStatusHb then
    (.stop (.returns (some .einval)), live)
  else if !hasStatus a.sizeEcx messageStatusDorecv then (.stop (.returns none), live)
  else if !a.memory then (.stop (.returns (some .enomem)), live)
  else if pastBlock a.sizeEbx then (.stop .overruns, k :: live)
  else if !hasStatus a.hbEbx messageStatusSuccess then
    (if hasStatus a.hbEbx messageStatusCpt then .again else .stop (.returns (some .einval)),
      (k :: live).erase k)
  else if !hasStatus a.ackEcx messageStatusSuccess then
    (if hasStatus a.ackEcx messageStatusCpt then .again else .stop (.returns (some .einval)),
      (k :: live).erase k)
  else (.stop (.breaks (replyOf host k)), k :: live)

/-- `vmw_recv_msg`; `none` is a reply that is NULL. -/
def vmwRecvMsg (host : ℕ → RecvAttempt) (live : List ℕ) : Except Stop (Option Reply) × List ℕ :=
  match retry (recvAttempt host) maxRetries live with
  | ((_, some (.returns none)), t) => (.ok none, t)
  | ((_, some (.returns (some e))), t) => (.error (.errno e), t)
  | ((_, some .overruns), t) => (.error .overrun, t)
  | ((retries, some (.breaks reply)), t) =>
    if retries = maxRetries then (.error (.errno .einval), t) else (.ok (some reply), t)
  -- the loop has come to its end, so that `retries` is `RETRIES`
  | ((_, none), t) => (.error (.errno .einval), t)

def enodev : Errno := .other 19

/-- The arguments of `vmw_host_get_guestinfo` and what it meets. `param` says that
    `guest_info_param` is not NULL, `msgMemory` that `kasprintf` has memory. -/
structure GuestInfoCall where
  enabled : Bool
  param : Bool
  buffer : Option (ℕ → UInt8)
  length : Option (BitVec 64)
  msgMemory : Bool
  openEcx : BitVec 64
  send : ℕ → SendAttempt
  recv : ℕ → RecvAttempt

/-- What a call returns and leaves: the bytes that it has copied, the buffer, `*length` and the
    replies that are allocated. -/
structure GuestInfoEnd where
  ret : Except Stop Unit
  copied : ℕ
  buffer : Option (ℕ → UInt8)
  length : Option (BitVec 64)
  live : List ℕ

/-- `max` and `min` of `size_t`. -/
def maxSize (x y : BitVec 64) : BitVec 64 := if y < x then x else y

def minSize (x y : BitVec 64) : BitVec 64 := if x < y then x else y

def copyLen (replyLen length : BitVec 64) : BitVec 64 := minSize (maxSize (replyLen - 2) 0) length

/-- `memcpy(buffer, reply + 2, n)`. -/
def copyReply (bytes buffer : ℕ → UInt8) (n : ℕ) : ℕ → UInt8 :=
  fun i => if i < n then bytes (2 + i) else buffer i

/-- A failure after `kasprintf`. -/
def guestInfoFails (c : GuestInfoCall) (e : Stop) (live : List ℕ) : GuestInfoEnd :=
  ⟨.error e, 0, c.buffer, some 0, live⟩

/-- The end of a call, from what `vmw_recv_msg` has returned. -/
def guestInfoEnd (c : GuestInfoCall) (length : BitVec 64) :
    Except Stop (Option Reply) × List ℕ → GuestInfoEnd
  | (.error .overrun, t) => ⟨.error .overrun, 0, c.buffer, c.length, t⟩
  | (.error (.errno _), t) => guestInfoFails c (.errno .einval) t
  | (.ok none, t) => ⟨.ok (), 0, c.buffer, some 0, t⟩
  | (.ok (some r), t) =>
    match c.buffer with
    | none => ⟨.ok (), 0, none, some r.len, t.erase r.id⟩
    | some buffer =>
      if r.len = 0 then ⟨.ok (), 0, some buffer, some 0, t.erase r.id⟩
      else
        let n := copyLen r.len length
        ⟨.ok (), n.toNat, some (copyReply r.bytes buffer n.toNat), some n, t.erase r.id⟩

def vmwHostGetGuestinfo (c : GuestInfoCall) (live : List ℕ) : GuestInfoEnd :=
  if !c.enabled then ⟨.error (.errno enodev), 0, c.buffer, c.length, live⟩
  else if !c.param || c.length.isNone then
    ⟨.error (.errno .einval), 0, c.buffer, c.length, live⟩
  else if !c.msgMemory then ⟨.error (.errno .enomem), 0, c.buffer, c.length, live⟩
  else if !hasStatus c.openEcx messageStatusSuccess then guestInfoFails c (.errno .einval) live
  else if (vmwSendMsg c.send).isSome then guestInfoFails c (.errno .einval) live
  else guestInfoEnd c (c.length.getD 0) (vmwRecvMsg c.recv live)

/-- The host announces the size of a reply, or that there is none. -/
def Answers (a : RecvAttempt) : Prop :=
  hasStatus a.sizeEcx messageStatusSuccess = true ∧ hasStatus a.sizeEcx messageStatusHb = true

def NoReply (a : RecvAttempt) : Prop :=
  Answers a ∧ hasStatus a.sizeEcx messageStatusDorecv = false

def Receives (a : RecvAttempt) : Prop :=
  Answers a ∧ hasStatus a.sizeEcx messageStatusDorecv = true ∧ a.memory = true

def Completes (a : RecvAttempt) : Prop :=
  Receives a ∧ hasStatus a.hbEbx messageStatusSuccess = true ∧
    hasStatus a.ackEcx messageStatusSuccess = true

/-- A checkpoint occurred while the reply was read or acknowledged. -/
def Checkpointed (a : RecvAttempt) : Prop :=
  Receives a ∧ ((hasStatus a.hbEbx messageStatusSuccess = false ∧
      hasStatus a.hbEbx messageStatusCpt = true) ∨
    (hasStatus a.hbEbx messageStatusSuccess = true ∧
      hasStatus a.ackEcx messageStatusSuccess = false ∧
      hasStatus a.ackEcx messageStatusCpt = true))

/-- The size of the memory for a reply does not wrap around. -/
def Fits (a : RecvAttempt) : Prop := a.sizeEbx.toNat + 1 < 2 ^ 64

/-- The attempt is made: a checkpoint occurred in all before it. -/
def Attempted (host : ℕ → RecvAttempt) (k : ℕ) : Prop := ∀ j < k, Checkpointed (host j)

def Freed (host : ℕ → RecvAttempt) (live : List ℕ) : Prop :=
  (vmwRecvMsg host live).2 =
    match (vmwRecvMsg host live).1 with
    | .ok (some r) => r.id :: live
    | _ => live

/-- A reply is returned when an attempt completes, NULL when the host says that there is none,
    and no other reply stays allocated. -/
structure RecvMeets (host : ℕ → RecvAttempt) (live : List ℕ) : Prop where
  received : ∀ r, (vmwRecvMsg host live).1 = .ok (some r) ↔
    ∃ k < maxRetries, Attempted host k ∧ Completes (host k) ∧ r = replyOf host k
  noReply : (vmwRecvMsg host live).1 = .ok none ↔
    ∃ k < maxRetries, Attempted host k ∧ NoReply (host k)
  freed : Freed host live

/-- The host lets the driver do so: it does not complete the last attempt, and no length of a
    reply wraps around. -/
structure RecvServed (host : ℕ → RecvAttempt) : Prop where
  fits : ∀ k < maxRetries, Attempted host k → Receives (host k) → Fits (host k)
  notLast : Attempted host (maxRetries - 1) → ¬ Completes (host (maxRetries - 1))

variable {host : ℕ → RecvAttempt} {live t : List ℕ} {k : ℕ} {e : RecvEnd}

theorem fits_iff {a : RecvAttempt} : Fits a ↔ pastBlock a.sizeEbx = false := by
  have hlt := a.sizeEbx.isLt
  have hadd : (a.sizeEbx + 1).toNat = (a.sizeEbx.toNat + 1) % 2 ^ 64 := BitVec.toNat_add ..
  rw [Fits, pastBlock, decide_eq_false_iff_not, hadd]
  rcases Nat.lt_or_ge (a.sizeEbx.toNat + 1) (2 ^ 64) with h | h
  · rw [Nat.mod_eq_of_lt h]
    omega
  · have heq : a.sizeEbx.toNat + 1 = 2 ^ 64 := by omega
    rw [heq, Nat.mod_self]
    omega

theorem recvAttempt_cases (host : ℕ → RecvAttempt) (k : ℕ) (live : List ℕ) :
    (NoReply (host k) ∧ recvAttempt host k live = (.stop (.returns none), live)) ∨
    (Receives (host k) ∧ ¬ Fits (host k) ∧
      recvAttempt host k live = (.stop .overruns, k :: live)) ∨
    (Checkpointed (host k) ∧ Fits (host k) ∧ recvAttempt host k live = (.again, live)) ∨
    (Completes (host k) ∧ Fits (host k) ∧
      recvAttempt host k live = (.stop (.breaks (replyOf host k)), k :: live)) ∨
    (¬ NoReply (host k) ∧ ¬ Checkpointed (host k) ∧ ¬ Completes (host k) ∧
      (Receives (host k) → Fits (host k)) ∧
      ∃ e, recvAttempt host k live = (.stop (.returns (some e)), live)) := by
  unfold NoReply Checkpointed Completes Receives Answers
  simp only [fits_iff, recvAttempt, List.erase_cons_head]
  generalize pastBlock (host k).sizeEbx = past
  generalize hasStatus (host k).sizeEcx messageStatusSuccess = s₁
  generalize hasStatus (host k).sizeEcx messageStatusHb = s₂
  generalize hasStatus (host k).sizeEcx messageStatusDorecv = s₃
  generalize hasStatus (host k).hbEbx messageStatusSuccess = s₄
  generalize hasStatus (host k).hbEbx messageStatusCpt = s₅
  generalize hasStatus (host k).ackEcx messageStatusSuccess = s₆
  generalize hasStatus (host k).ackEcx messageStatusCpt = s₇
  cases s₁
  · simp
  cases s₂
  · simp
  cases s₃
  · simp
  cases (host k).memory
  · simp
  cases past
  · cases s₄
    · cases s₅ <;> simp
    cases s₆
    · cases s₇ <;> simp
    · simp
  · simp

theorem Checkpointed.not_noReply {a : RecvAttempt} (h : Checkpointed a) : ¬ NoReply a := by
  intro hno
  rw [Checkpointed, Receives, hno.2] at h
  cases h.1.2.1

theorem Completes.not_noReply {a : RecvAttempt} (h : Completes a) : ¬ NoReply a := by
  intro hno
  rw [Completes, Receives, hno.2] at h
  cases h.1.2.1

theorem Completes.not_checkpointed {a : RecvAttempt} (h : Completes a) : ¬ Checkpointed a := by
  rintro ⟨-, ⟨hhb, -⟩ | ⟨-, hack, -⟩⟩
  · rw [h.2.1] at hhb
    cases hhb
  · rw [h.2.2] at hack
    cases hack

theorem recvAttempt_again (h : Checkpointed (host k)) (hfits : Fits (host k)) :
    recvAttempt host k live = (.again, live) := by
  rcases recvAttempt_cases host k live with h' | h' | h' | h' | h'
  · exact absurd h'.1 h.not_noReply
  · exact absurd hfits h'.2.1
  · exact h'.2.2
  · exact absurd h h'.1.not_checkpointed
  · exact absurd h h'.2.1

theorem recvAttempt_completes (h : Completes (host k)) (hfits : Fits (host k)) :
    recvAttempt host k live = (.stop (.breaks (replyOf host k)), k :: live) := by
  rcases recvAttempt_cases host k live with h' | h' | h' | h' | h'
  · exact absurd h'.1 h.not_noReply
  · exact absurd hfits h'.2.1
  · exact absurd h'.1 h.not_checkpointed
  · exact h'.2.2
  · exact absurd h h'.2.2.1

def Passed (host : ℕ → RecvAttempt) (k : ℕ) : Prop :=
  ∀ j < k, Checkpointed (host j) ∧ Fits (host j)

theorem Passed.attempted (h : Passed host k) : Attempted host k := fun j hj => (h j hj).1

def recvResult (k : ℕ) : RecvEnd → Except Stop (Option Reply)
  | .returns none => .ok none
  | .returns (some e) => .error (.errno e)
  | .overruns => .error .overrun
  | .breaks r => if k + 1 = maxRetries then .error (.errno .einval) else .ok (some r)

theorem vmwRecvMsg_stop (hk : k < maxRetries) (hp : Passed host k)
    (hstop : recvAttempt host k live = (.stop e, t)) :
    vmwRecvMsg host live = (recvResult k e, t) := by
  rw [vmwRecvMsg, retry_stop hk (fun j hj => recvAttempt_again (hp j hj).1 (hp j hj).2) hstop]
  rcases e with (_ | e) | r | _
  · rfl
  · rfl
  · dsimp only [recvResult]
    split_ifs <;> rfl
  · rfl

theorem vmwRecvMsg_exhausted (hp : Passed host maxRetries) :
    vmwRecvMsg host live = (.error (.errno .einval), live) := by
  rw [vmwRecvMsg, retry_exhausted fun j hj => recvAttempt_again (hp j hj).1 (hp j hj).2]

theorem Attempted.unique {i : ℕ} (hi : Attempted host i) (hk : Attempted host k)
    (hni : ¬ Checkpointed (host i)) (hnk : ¬ Checkpointed (host k)) : i = k :=
  first_unique (p := fun j => Checkpointed (host j)) hi hk hni hnk

theorem recvMeets_of_other {r : Except Stop (Option Reply)} (hrun : vmwRecvMsg host live = (r, live))
    (hr : ∀ reply, r ≠ .ok (some reply))
    (hstops : ∀ i < maxRetries, Attempted host i → ¬ Completes (host i))
    (hno : r = .ok none ↔ ∃ i < maxRetries, Attempted host i ∧ NoReply (host i)) :
    RecvMeets host live := by
  refine ⟨?_, ?_, ?_⟩
  · intro reply
    rw [hrun]
    exact iff_of_false (hr reply) fun ⟨i, hi, hmade, hdone, _⟩ => hstops i hi hmade hdone
  · rw [hrun]
    exact hno
  · rw [Freed, hrun]
    rcases r with e | _ | reply
    · rfl
    · rfl
    · exact absurd rfl (hr reply)

theorem recvMeets_of_completes (hk : k < maxRetries) (hp : Passed host k)
    (hdone : Completes (host k))
    (hrun : recvAttempt host k live = (.stop (.breaks (replyOf host k)), k :: live))
    (hlast : k + 1 ≠ maxRetries) : RecvMeets host live := by
  have hresult : vmwRecvMsg host live = (.ok (some (replyOf host k)), k :: live) := by
    rw [vmwRecvMsg_stop hk hp hrun, recvResult, if_neg hlast]
  refine ⟨?_, ?_, ?_⟩
  · intro r
    rw [hresult]
    constructor
    · intro hr
      exact ⟨k, hk, hp.attempted, hdone, by simpa using hr.symm⟩
    · rintro ⟨i, -, hi, hdone', rfl⟩
      rw [hi.unique hp.attempted hdone'.not_checkpointed hdone.not_checkpointed]
  · rw [hresult]
    apply iff_of_false (by simp)
    rintro ⟨i, -, hi, hno⟩
    obtain rfl := hi.unique hp.attempted (fun hcpt => hcpt.not_noReply hno) hdone.not_checkpointed
    exact hdone.not_noReply hno
  · simp only [Freed, hresult]
    rfl

theorem RecvServed.meets (h : RecvServed host) : RecvMeets host live := by
  rcases again_or_first (fun j => Checkpointed (host j) ∧ Fits (host j)) maxRetries with
    hall | ⟨k, hk, hp, hnot⟩
  · apply recvMeets_of_other (vmwRecvMsg_exhausted hall) (fun _ => by simp)
    · exact fun i hi _ hdone => hdone.not_checkpointed (hall i hi).1
    · exact iff_of_false (by simp) fun ⟨i, hi, _, hno⟩ => (hall i hi).1.not_noReply hno
  · have hmade : Attempted host k := Passed.attempted hp
    rcases recvAttempt_cases host k live with
      ⟨hno, hrun⟩ | ⟨hreceives, hpast, -⟩ | ⟨hcpt, hfits, -⟩ | ⟨hdone, hfits, hrun⟩ |
        ⟨hno, hcpt, hdone, -, e, hrun⟩
    · apply recvMeets_of_other (vmwRecvMsg_stop hk hp hrun) (fun _ => by simp [recvResult])
      · intro i _ hi hdone
        obtain rfl := hi.unique hmade hdone.not_checkpointed fun hcpt => hcpt.not_noReply hno
        exact hdone.not_noReply hno
      · exact iff_of_true rfl ⟨k, hk, hmade, hno⟩
    · exact absurd (h.fits k hk hmade hreceives) hpast
    · exact absurd ⟨hcpt, hfits⟩ hnot
    · exact recvMeets_of_completes hk hp hdone hrun fun hlast => by
        obtain rfl : k = maxRetries - 1 := by omega
        exact h.notLast hmade hdone
    · apply recvMeets_of_other (vmwRecvMsg_stop hk hp hrun) (fun _ => by simp [recvResult])
      · intro i _ hi hdone'
        obtain rfl := hi.unique hmade hdone'.not_checkpointed hcpt
        exact hdone hdone'
      · apply iff_of_false (by simp [recvResult])
        rintro ⟨i, _, hi, hno'⟩
        obtain rfl := hi.unique hmade (fun hcpt => hcpt.not_noReply hno') hcpt
        exact hno hno'

theorem Freed.served (h : Freed host live) : RecvServed host := by
  have hfits : ∀ k < maxRetries, Attempted host k → Receives (host k) → Fits (host k) := by
    intro k hk hmade hreceives
    by_contra hpast
    rcases again_or_first (fun j => Checkpointed (host j) ∧ Fits (host j)) maxRetries with
      hall | ⟨i, hi, hp, hnot⟩
    · exact hpast (hall k hk).2
    · have hik : i ≤ k := by
        by_contra hlt
        exact hpast (hp k (by omega)).2
      -- an attempt before the one whose length wraps around was asked to be made again
      have hbefore : ¬ Checkpointed (host i) → i = k := by
        intro hcpt
        by_contra hne
        exact hcpt (hmade i (by omega))
      rcases recvAttempt_cases host i live with
        ⟨hno, -⟩ | ⟨-, -, hrun⟩ | ⟨hcpt, hfits, -⟩ | ⟨hdone, hfits, -⟩ | ⟨-, hcpt, -, hfits, -⟩
      · obtain rfl := hbefore fun hcpt => hcpt.not_noReply hno
        rw [Receives, hno.2] at hreceives
        cases hreceives.2.1
      · rw [Freed, vmwRecvMsg_stop hi hp hrun] at h
        exact List.cons_ne_self i live h
      · exact hnot ⟨hcpt, hfits⟩
      · obtain rfl := hbefore hdone.not_checkpointed
        exact hpast hfits
      · obtain rfl := hbefore hcpt
        exact hpast (hfits hreceives)
  refine ⟨hfits, ?_⟩
  intro hmade hdone
  have hk : maxRetries - 1 < maxRetries := by decide
  have hp : Passed host (maxRetries - 1) := fun j hj =>
    ⟨hmade j hj, hfits j (hj.trans hk) (fun i hi => hmade i (hi.trans hj)) (hmade j hj).1⟩
  rw [Freed, vmwRecvMsg_stop hk hp
    (recvAttempt_completes hdone (hfits _ hk hmade hdone.1))] at h
  exact List.cons_ne_self _ live h

/-- `vmw_recv_msg` returns the replies of the attempts that complete, and frees the others, if
    and only if the host serves it. -/
theorem recvMeets_iff : RecvMeets host live ↔ RecvServed host :=
  ⟨fun h => h.freed.served, RecvServed.meets⟩

variable {c : GuestInfoCall} {r : Reply} {n : BitVec 64}

/-- The call comes to `vmw_recv_msg`. -/
structure GuestInfoCall.Reaches (c : GuestInfoCall) : Prop where
  enabled : c.enabled = true
  param : c.param = true
  length : c.length.isSome = true
  msgMemory : c.msgMemory = true
  opened : hasStatus c.openEcx messageStatusSuccess = true
  sent : vmwSendMsg c.send = none

theorem guestInfo_of_reaches (h : c.Reaches) :
    vmwHostGetGuestinfo c live = guestInfoEnd c (c.length.getD 0) (vmwRecvMsg c.recv live) := by
  obtain ⟨n, hn⟩ := Option.isSome_iff_exists.1 h.length
  simp [vmwHostGetGuestinfo, h.enabled, h.param, hn, h.msgMemory, h.opened, h.sent]

theorem guestInfo_of_not (h : ¬ c.Reaches) : (vmwHostGetGuestinfo c live).copied = 0 ∧
    (vmwHostGetGuestinfo c live).buffer = c.buffer ∧ (vmwHostGetGuestinfo c live).live = live := by
  unfold vmwHostGetGuestinfo guestInfoFails
  split_ifs with henabled hparam hmemory hopen hsend
  · exact ⟨rfl, rfl, rfl⟩
  · exact ⟨rfl, rfl, rfl⟩
  · exact ⟨rfl, rfl, rfl⟩
  · exact ⟨rfl, rfl, rfl⟩
  · exact ⟨rfl, rfl, rfl⟩
  · simp only [Bool.not_eq_true', Bool.or_eq_true, Option.isNone_iff_eq_none, not_or,
      Bool.not_eq_false, Option.not_isSome_iff_eq_none] at henabled hparam hmemory hopen hsend
    exact absurd ⟨henabled, hparam.1, Option.isSome_iff_ne_none.2 hparam.2, hmemory, hopen, hsend⟩ h

theorem maxSize_zero (x : BitVec 64) : maxSize x 0 = x := by
  unfold maxSize
  split_ifs with h
  · rfl
  · exact (BitVec.not_lt.1 h |> BitVec.le_zero_iff.1).symm

theorem minSize_toNat (x y : BitVec 64) : (minSize x y).toNat = min x.toNat y.toNat := by
  unfold minSize
  split_ifs with h
  · exact (Nat.min_eq_left (Nat.le_of_lt h)).symm
  · exact (Nat.min_eq_right (Nat.le_of_not_lt h)).symm

theorem copyLen_toNat (len n : BitVec 64) (h : 2 ≤ len.toNat) :
    (copyLen len n).toNat = min (len.toNat - 2) n.toNat := by
  rw [copyLen, maxSize_zero, minSize_toNat, BitVec.toNat_sub_of_le h]
  rfl

theorem copyLen_one (n : BitVec 64) : (copyLen 1 n).toNat = n.toNat := by
  rw [copyLen, maxSize_zero, minSize_toNat]
  have hlt := n.isLt
  have hone : ((1 : BitVec 64) - 2).toNat = 2 ^ 64 - 1 := by decide
  rw [hone]
  omega

def copied (len n : BitVec 64) : ℕ := if len = 0 then 0 else (copyLen len n).toNat

theorem copied_eq_iff (len n : BitVec 64) :
    copied len n = min (len.toNat - 2) n.toNat ↔ (len = 1 → n = 0) := by
  unfold copied
  by_cases hzero : len = 0
  · subst hzero
    simp
  · rw [if_neg hzero]
    by_cases hone : len = 1
    · subst hone
      rw [copyLen_one]
      have hempty : n.toNat = 0 ↔ n = 0#64 := by rw [BitVec.toNat_eq, BitVec.toNat_zero]
      simp [hempty]
    · have hlen : 2 ≤ len.toNat := by
        have h0 : len.toNat ≠ 0 := fun h => hzero (BitVec.toNat_eq.2 h)
        have h1 : len.toNat ≠ 1 := fun h => hone (BitVec.toNat_eq.2 h)
        omega
      exact iff_of_true (copyLen_toNat len n hlen) fun h => absurd h hone

def Received (c : GuestInfoCall) (live : List ℕ) (r : Reply) : Prop :=
  c.Reaches ∧ (vmwRecvMsg c.recv live).1 = .ok (some r)

theorem Received.run (hr : Received c live r) :
    ∃ t, vmwRecvMsg c.recv live = (.ok (some r), t) :=
  ⟨(vmwRecvMsg c.recv live).2, Prod.ext hr.2 rfl⟩

/-- What is copied is the reply without its code, as far as the buffer has room for it. -/
structure CopiesReply (c : GuestInfoCall) (live : List ℕ) : Prop where
  count : ∀ r n, Received c live r → c.buffer.isSome = true → c.length = some n →
    (vmwHostGetGuestinfo c live).copied = min (r.len.toNat - 2) n.toNat
  nothing : (¬ ∃ r, Received c live r) ∨ c.buffer = none →
    (vmwHostGetGuestinfo c live).copied = 0 ∧ (vmwHostGetGuestinfo c live).buffer = c.buffer
  contents : ∀ r buffer, Received c live r → c.buffer = some buffer →
    (vmwHostGetGuestinfo c live).buffer =
      some (copyReply r.bytes buffer (vmwHostGetGuestinfo c live).copied)
  inside : ∀ r, Received c live r → ∀ i < (vmwHostGetGuestinfo c live).copied, 2 + i < r.len.toNat

/-- A reply that is received for a buffer has more than one byte, or the buffer has none. -/
def CopyServed (c : GuestInfoCall) : Prop :=
  c.Reaches → c.buffer.isSome = true → ∀ k, k + 1 < maxRetries → Passed c.recv k →
    Completes (c.recv k) → (c.recv k).sizeEbx = 1 → c.length = some 0

theorem vmwRecvMsg_received (hk : k + 1 < maxRetries) (hp : Passed host k)
    (hdone : Completes (host k)) (hfits : Fits (host k)) :
    vmwRecvMsg host live = (.ok (some (replyOf host k)), k :: live) := by
  rw [vmwRecvMsg_stop (by omega) hp (recvAttempt_completes hdone hfits), recvResult,
    if_neg (by omega)]

theorem exists_of_received (h : vmwRecvMsg host live = (.ok (some r), t)) :
    ∃ k, k + 1 < maxRetries ∧ Passed host k ∧ Completes (host k) ∧ r = replyOf host k ∧
      t = k :: live := by
  rcases again_or_first (fun j => Checkpointed (host j) ∧ Fits (host j)) maxRetries with
    hall | ⟨k, hk, hp, hnot⟩
  · rw [vmwRecvMsg_exhausted hall] at h
    cases h
  · rcases recvAttempt_cases host k live with
      ⟨-, hrun⟩ | ⟨-, -, hrun⟩ | ⟨hcpt, hfits, -⟩ | ⟨hdone, -, hrun⟩ | ⟨-, -, -, -, e, hrun⟩
    · rw [vmwRecvMsg_stop hk hp hrun] at h
      cases h
    · rw [vmwRecvMsg_stop hk hp hrun] at h
      cases h
    · exact absurd ⟨hcpt, hfits⟩ hnot
    · rw [vmwRecvMsg_stop hk hp hrun, recvResult] at h
      split_ifs at h with hlast
      · cases h
      · cases h
        exact ⟨k, by omega, hp, hdone, rfl, rfl⟩
    · rw [vmwRecvMsg_stop hk hp hrun] at h
      cases h

theorem copyReply_zero (bytes buffer : ℕ → UInt8) : copyReply bytes buffer 0 = buffer := by
  funext i
  rw [copyReply, if_neg (Nat.not_lt_zero i)]

theorem guestInfo_copied {buffer : ℕ → UInt8} (hr : Received c live r)
    (hb : c.buffer = some buffer) (hn : c.length = some n) :
    (vmwHostGetGuestinfo c live).copied = copied r.len n ∧
      (vmwHostGetGuestinfo c live).buffer = some (copyReply r.bytes buffer (copied r.len n)) := by
  obtain ⟨t, hrun⟩ := hr.run
  rw [guestInfo_of_reaches hr.1, hrun, hn, Option.getD_some, guestInfoEnd, hb]
  unfold copied
  dsimp only
  split_ifs
  · exact ⟨rfl, by rw [copyReply_zero]⟩
  · exact ⟨rfl, rfl⟩

theorem guestInfo_nothing (h : (¬ ∃ r, Received c live r) ∨ c.buffer = none) :
    (vmwHostGetGuestinfo c live).copied = 0 ∧
      (vmwHostGetGuestinfo c live).buffer = c.buffer := by
  by_cases hreach : c.Reaches
  · rw [guestInfo_of_reaches hreach]
    rcases hrun : vmwRecvMsg c.recv live with ⟨(e | _) | _ | r, t⟩
    · exact ⟨rfl, rfl⟩
    · exact ⟨rfl, rfl⟩
    · exact ⟨rfl, rfl⟩
    · have hb := h.resolve_left fun hno => hno ⟨r, hreach, by rw [hrun]⟩
      rw [guestInfoEnd, hb]
      exact ⟨rfl, rfl⟩
  · exact ⟨(guestInfo_of_not hreach).1, (guestInfo_of_not hreach).2.1⟩

theorem copiesReply_iff : CopiesReply c live ↔ CopyServed c := by
  constructor
  · intro h hreach hbuffer k hk hp hdone hone
    obtain ⟨n, hn⟩ := Option.isSome_iff_exists.1 hreach.length
    obtain ⟨buffer, hb⟩ := Option.isSome_iff_exists.1 hbuffer
    have hfits : Fits (c.recv k) := by
      rw [Fits, hone]
      decide
    have hr : Received c live (replyOf c.recv k) :=
      ⟨hreach, by rw [vmwRecvMsg_received hk hp hdone hfits]⟩
    have hcount := h.count _ n hr hbuffer hn
    rw [(guestInfo_copied hr hb hn).1] at hcount
    rw [hn, (copied_eq_iff _ n).1 hcount hone]
  · intro h
    have hcount : ∀ r n, Received c live r → c.buffer.isSome = true → c.length = some n →
        (vmwHostGetGuestinfo c live).copied = min (r.len.toNat - 2) n.toNat := by
      intro r n hr hbuffer hn
      obtain ⟨buffer, hb⟩ := Option.isSome_iff_exists.1 hbuffer
      rw [(guestInfo_copied hr hb hn).1, copied_eq_iff]
      intro hone
      obtain ⟨t, hrun⟩ := hr.run
      obtain ⟨k, hk, hp, hdone, rfl, -⟩ := exists_of_received hrun
      have hzero := h hr.1 hbuffer k hk hp hdone hone
      rw [hn] at hzero
      exact Option.some.inj hzero
    refine ⟨hcount, fun hno => guestInfo_nothing hno, ?_, ?_⟩
    · intro r buffer hr hb
      obtain ⟨n, hn⟩ := Option.isSome_iff_exists.1 hr.1.length
      rw [(guestInfo_copied hr hb hn).2, (guestInfo_copied hr hb hn).1]
    · intro r hr i hi
      obtain ⟨n, hn⟩ := Option.isSome_iff_exists.1 hr.1.length
      cases hb : c.buffer with
      | none =>
        rw [(guestInfo_nothing (.inr hb)).1] at hi
        exact absurd hi (Nat.not_lt_zero i)
      | some buffer =>
        rw [hcount r n hr (by rw [hb]; rfl) hn] at hi
        omega

theorem guestInfoEnd_live_iff (c : GuestInfoCall) (n : BitVec 64) :
    (guestInfoEnd c n (vmwRecvMsg c.recv live)).live = live ↔ Freed c.recv live := by
  rw [Freed]
  rcases hrun : vmwRecvMsg c.recv live with ⟨(e | _) | _ | r, t⟩
  · exact Iff.rfl
  · exact Iff.rfl
  · exact Iff.rfl
  · obtain ⟨k, -, -, -, rfl, rfl⟩ := exists_of_received hrun
    refine iff_of_true ?_ rfl
    rw [guestInfoEnd]
    cases c.buffer with
    | none => exact List.erase_cons_head ..
    | some buffer =>
      dsimp only
      split_ifs <;> exact List.erase_cons_head ..

theorem guestInfo_live_iff : (vmwHostGetGuestinfo c live).live = live ↔
    (c.Reaches → RecvServed c.recv) := by
  by_cases hreach : c.Reaches
  · simp only [hreach, true_imp_iff]
    rw [guestInfo_of_reaches hreach, guestInfoEnd_live_iff]
    exact ⟨fun hfreed => hfreed.served, fun hserved => (RecvServed.meets hserved).freed⟩
  · exact iff_of_true (guestInfo_of_not hreach).2.2 fun h => absurd h hreach

/-- What `vmw_recv_msg` returns and frees is right if and only if the host neither completes the
    last attempt nor gives a length that wraps around. What `vmw_host_get_guestinfo` copies is
    right if and only if no reply of one byte is received for a buffer that has room. -/
theorem host_messages (host : ℕ → RecvAttempt) (c : GuestInfoCall) (live : List ℕ) :
    (RecvMeets host live ↔ RecvServed host) ∧ (CopiesReply c live ↔ CopyServed c) ∧
      ((vmwHostGetGuestinfo c live).live = live ↔ (c.Reaches → RecvServed c.recv)) :=
  ⟨recvMeets_iff, copiesReply_iff, guestInfo_live_iff⟩

/-- An attempt that completes with a reply of a given length, or meets a checkpoint. -/
def sampleAttempt (len : BitVec 64) (completes : Bool) : RecvAttempt :=
  ⟨0x00830000, len, true, fun _ => 65, if completes then 0x00010000 else 0x00100000, 0x00010000⟩

/-- A host with checkpoints in all attempts but the last. -/
def lateHost (k : ℕ) : RecvAttempt := sampleAttempt 4 (k == 2)

/-- A call with room for four bytes whose reply has one. -/
def shortReply : GuestInfoCall where
  enabled := true
  param := true
  buffer := some fun _ => 0
  length := some 4
  msgMemory := true
  openEcx := 0x00010000
  send := fun _ => ⟨0x00810000, 0x00010000⟩
  recv := fun _ => sampleAttempt 1 true

theorem late_and_short_replies :
    ¬ RecvMeets lateHost [] ∧ Attempted lateHost 2 ∧ Completes (lateHost 2) ∧
    (vmwRecvMsg lateHost []).2 = [2] ∧
    ¬ CopiesReply shortReply [] ∧ (vmwHostGetGuestinfo shortReply []).copied = 4 ∧
    ∃ r, Received shortReply [] r ∧ r.len = 1 := by
  have hmade : Attempted lateHost 2 := by
    intro j hj
    obtain rfl | rfl : j = 0 ∨ j = 1 := by omega
    · exact ⟨⟨⟨rfl, rfl⟩, rfl, rfl⟩, .inl ⟨rfl, rfl⟩⟩
    · exact ⟨⟨⟨rfl, rfl⟩, rfl, rfl⟩, .inl ⟨rfl, rfl⟩⟩
  have hdone : Completes (lateHost 2) := ⟨⟨⟨rfl, rfl⟩, rfl, rfl⟩, rfl, rfl⟩
  have hfreed : (vmwRecvMsg lateHost []).2 = [2] := rfl
  have hcopied : (vmwHostGetGuestinfo shortReply []).copied = 4 := by rfl
  have hreach : shortReply.Reaches := ⟨rfl, rfl, rfl, rfl, rfl, rfl⟩
  have hr : Received shortReply [] (replyOf shortReply.recv 0) := ⟨hreach, rfl⟩
  refine ⟨?_, hmade, hdone, hfreed, ?_, hcopied, _, hr, rfl⟩
  · intro h
    have hresult := (h.received (replyOf lateHost 2)).2 ⟨2, by decide, hmade, hdone, rfl⟩
    cases hresult
  · intro h
    have hcount := h.count _ 4 hr rfl rfl
    rw [hcopied] at hcount
    exact absurd hcount (by decide)

end Vmwgfx.HostMessages
