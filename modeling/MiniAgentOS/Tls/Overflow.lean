import MiniAgentOS.Lib.Runs
import MiniAgentOS.Tls.Reassembly

/-! What the receive path acknowledges, and what it keeps of it: a payload without room takes the unread
bytes with it, and is acknowledged all the same. -/
namespace MiniAgentOS.Tls
open Net

variable {rx : Rx} {seq : UInt32} {payload : Bytes}

section Contiguous

/-- The bytes a slot adds behind the acknowledged position. -/
def freshOf (rx : Rx) (slot : Fin pendingSlots) : Bytes :=
  (rx.slot slot).data.drop
    (if tcpSeqCmp (rx.slot slot).seq rx.ack < 0 then (rx.ack - (rx.slot slot).seq).toNat else 0)

/-- The slot used up, with its bytes acknowledged. -/
def consume (rx : Rx) (slot : Fin pendingSlots) : Rx :=
  (updateAck rx (rx.ack + UInt32.ofNat (freshOf rx slot).length)).setSlot slot
    ⟨false, (rx.slot slot).seq, []⟩

/-- The pending bytes that are contiguous with the acknowledged position. -/
def contiguous : ℕ → Rx → Bytes
  | 0, _ => []
  | fuel + 1, rx =>
    match bestSlot rx with
    | none => []
    | some (slot, _) => freshOf rx slot ++ contiguous fuel (consume rx slot)

/-- The part of a segment that starts at the acknowledged position, if it has one. -/
def inOrderPart (rx : Rx) (seq : UInt32) (payload : Bytes) : Bytes :=
  if tcpSeqCmp seq rx.ack < 0 then payload.drop (rx.ack - seq).toNat
  else if seq = rx.ack then payload else []

/-- The bytes that become contiguous with the acknowledged position when a segment arrives. -/
def newBytes (rx : Rx) (seq : UInt32) (payload : Bytes) : Bytes :=
  let part := inOrderPart rx seq payload
  if part = [] then []
  else part ++ contiguous (pendingSlots + 1) (updateAck rx (rx.ack + UInt32.ofNat part.length))

/-- Two states that differ in buffer and counters only. -/
structure SameQueue (rx other : Rx) : Prop where
  ack : rx.ack = other.ack
  slots : rx.slots = other.slots

theorem SameQueue.slot {other : Rx} (h : SameQueue rx other) (slot : Fin pendingSlots) :
    rx.slot slot = other.slot slot := by
  rw [Rx.slot, Rx.slot, h.slots]

theorem SameQueue.betterSlot {other : Rx} (h : SameQueue rx other) : betterSlot rx = betterSlot other := by
  funext best slot
  unfold Tls.betterSlot
  rw [h.slot slot, h.ack]

theorem SameQueue.bestSlot {other : Rx} (h : SameQueue rx other) : bestSlot rx = bestSlot other := by
  unfold Tls.bestSlot
  rw [h.betterSlot]

theorem SameQueue.freshOf {other : Rx} (h : SameQueue rx other) (slot : Fin pendingSlots) :
    freshOf rx slot = freshOf other slot := by
  unfold Tls.freshOf
  rw [h.slot slot, h.ack]

theorem SameQueue.consume {other : Rx} (h : SameQueue rx other) (slot : Fin pendingSlots) :
    SameQueue (consume rx slot) (consume other slot) := by
  constructor
  · change rx.ack + _ = other.ack + _
    rw [h.ack, h.freshOf slot]
  · unfold Tls.consume Rx.setSlot
    rw [h.slot slot]
    change rx.slots.set _ _ = other.slots.set _ _
    rw [h.slots]

theorem replaySlot_fresh (slot : Fin pendingSlots) :
    (replaySlot rx slot (rx.slot slot).seq).1 = freshOf rx slot := rfl

/-- A replay leaves the queue as if only the acknowledgement had moved. -/
theorem replaySlot_consume (slot : Fin pendingSlots) :
    SameQueue (replaySlot rx slot (rx.slot slot).seq).2 (consume rx slot) := by
  constructor
  · unfold replaySlot consume freshOf
    dsimp only
    split_ifs with hless hnew hnew
    · rfl
    · rw [List.drop_of_length_le (by omega)]
      simp
    · rfl
    · rw [List.drop_of_length_le (by omega)]
      simp
  · rw [replaySlot_slots]
    rfl

theorem replayPending_contiguous (fuel : ℕ) : ∀ {rx other : Rx}, SameQueue rx other →
    (replayPending fuel rx).1 = contiguous fuel other := by
  induction fuel with
  | zero => exact fun _ => rfl
  | succ fuel ih =>
    intro rx other h
    rw [replayPending, contiguous, ← h.bestSlot]
    cases hbest : bestSlot rx with
    | none => rfl
    | some best =>
      obtain ⟨slot, seq⟩ := best
      obtain ⟨-, rfl⟩ := bestSlot_eq_some hbest
      dsimp only
      rw [replaySlot_fresh, h.freshOf slot]
      congr 1
      apply ih
      have hreplay := @replaySlot_consume rx slot
      have hconsume := h.consume slot
      exact ⟨hreplay.ack.trans hconsume.ack, hreplay.slots.trans hconsume.slots⟩

theorem pushTrimmed_pushed (rx : Rx) (payload : Bytes) : (pushTrimmed rx rx.ack payload).pushed =
    payload ++ contiguous (pendingSlots + 1) (updateAck rx (rx.ack + UInt32.ofNat payload.length)) := by
  unfold pushTrimmed
  rw [if_pos rfl]
  have hsame : SameQueue (updateAck (pushRxPayload rx payload) (rx.ack + UInt32.ofNat payload.length))
      (updateAck rx (rx.ack + UInt32.ofNat payload.length)) := ⟨rfl, pushRxPayload_slots rx payload⟩
  exact congrArg (payload ++ ·) (replayPending_contiguous _ hsame)

theorem pushTrimmed_ahead (h : seq ≠ rx.ack) : (pushTrimmed rx seq payload).pushed = [] := by
  unfold pushTrimmed
  rw [if_neg h]
  split_ifs <;> rfl

/-- What a call hands over is what the segment makes contiguous. -/
theorem pushRxPayloadSeq_pushed (rx : Rx) (seq : UInt32) (payload : Bytes) :
    (pushRxPayloadSeq rx seq payload).pushed = newBytes rx seq payload := by
  unfold pushRxPayloadSeq newBytes inOrderPart
  by_cases hnil : payload.length = 0
  · rw [if_pos hnil, List.length_eq_zero_iff.mp hnil]
    simp
  have hne : payload ≠ [] := fun heq => hnil (by rw [heq, List.length_nil])
  rw [if_neg hnil]
  dsimp only
  by_cases hbehind : tcpSeqCmp seq rx.ack < 0
  · rw [if_pos hbehind, if_pos hbehind]
    by_cases hold : (rx.ack - seq).toNat ≥ payload.length
    · rw [if_pos hold, if_pos (List.drop_of_length_le hold)]
    · have hdrop : payload.drop (rx.ack - seq).toNat ≠ [] := by
        rw [Ne, List.drop_eq_nil_iff]
        omega
      rw [if_neg hold, if_neg hdrop, pushTrimmed_pushed]
  · rw [if_neg hbehind, if_neg hbehind]
    by_cases hexpected : seq = rx.ack
    · rw [hexpected, if_pos rfl, if_neg hne, pushTrimmed_pushed]
    · rw [if_neg hexpected, if_pos rfl, pushTrimmed_ahead hexpected]

end Contiguous

section Keeping

/-- The buffer is within its bounds. -/
structure Sound (rx : Rx) : Prop where
  off_le : rx.off ≤ rx.buf.length
  length_le : rx.buf.length ≤ rxBufLen

theorem Sound.unread_le (h : Sound rx) : rx.unread.length ≤ rxBufLen := by
  have hlen := h.length_le
  rw [length_unread]
  omega

theorem configure_sound (ack : UInt32) : Sound (configure ack) := ⟨le_rfl, Nat.zero_le _⟩

theorem Sound.push (h : Sound rx) (payload : Bytes) : Sound (pushRxPayload rx payload) := by
  have hoff : (compact (discardRead rx) payload.length).off ≤
      (compact (discardRead rx) payload.length).buf.length := compact_off_le (discardRead_off_le rx)
  unfold pushRxPayload
  dsimp only
  split_ifs with hnil hover
  · exact h
  · exact ⟨le_rfl, Nat.zero_le _⟩
  · constructor
    · change (compact (discardRead rx) payload.length).off ≤ (_ ++ payload).length
      rw [List.length_append]
      omega
    · change (_ ++ payload).length ≤ rxBufLen
      rw [List.length_append]
      omega

theorem Sound.of_same {other : Rx} (h : Sound rx) (hbuf : other.buf = rx.buf) (hoff : other.off = rx.off) :
    Sound other := by
  constructor
  · rw [hbuf, hoff]
    exact h.off_le
  · rw [hbuf]
    exact h.length_le

theorem Sound.recv (h : Sound rx) (len : ℕ) : Sound (tlsRecv rx len).2.2 := by
  have hoff := h.off_le
  unfold tlsRecv
  dsimp only
  split_ifs with hempty hall
  · exact h
  · exact ⟨le_rfl, Nat.zero_le _⟩
  · refine ⟨?_, h.length_le⟩
    dsimp only
    omega

/-- The state of the path behind a push: within its bounds, and with the bytes if they fit. -/
structure Took (rx : Rx) (pushed : Bytes) (after : Rx) : Prop where
  sound : Sound after
  ack : after.ack = rx.ack + UInt32.ofNat pushed.length
  unread : rx.unread.length + pushed.length ≤ rxBufLen → after.unread = rx.unread ++ pushed

theorem Took.refl (h : Sound rx) : Took rx [] rx := by
  refine ⟨h, ?_, fun _ => (List.append_nil _).symm⟩
  exact (UInt32.add_zero _).symm

theorem Took.trans {first second : Bytes} {middle after : Rx} (h : Took rx first middle)
    (hnext : Took middle second after) : Took rx (first ++ second) after := by
  refine ⟨hnext.sound, ?_, ?_⟩
  · rw [hnext.ack, h.ack, List.length_append, UInt32.ofNat_add, UInt32.add_assoc]
  · intro hfit
    rw [List.length_append] at hfit
    have hfirst := h.unread (by omega)
    have hsecond := hnext.unread (by rw [hfirst, List.length_append]; omega)
    rw [hsecond, hfirst, List.append_assoc]

/-- A push that is acknowledged. -/
theorem took_push (h : Sound rx) (payload : Bytes) :
    Took rx payload (updateAck (pushRxPayload rx payload) (rx.ack + UInt32.ofNat payload.length)) := by
  refine ⟨(h.push payload).of_same rfl rfl, rfl, ?_⟩
  intro hfit
  exact (pushRxPayload_unread h.off_le hfit).1

theorem replaySlot_buffer (rx : Rx) (slot : Fin pendingSlots) :
    ((replaySlot rx slot (rx.slot slot).seq).2.buf = (pushRxPayload rx (freshOf rx slot)).buf ∧
      (replaySlot rx slot (rx.slot slot).seq).2.off = (pushRxPayload rx (freshOf rx slot)).off) ∨
    (replaySlot rx slot (rx.slot slot).seq).2.buf = rx.buf ∧
      (replaySlot rx slot (rx.slot slot).seq).2.off = rx.off ∧ freshOf rx slot = [] := by
  unfold replaySlot freshOf
  generalize (if tcpSeqCmp (rx.slot slot).seq rx.ack < 0 then (rx.ack - (rx.slot slot).seq).toNat else 0) = overlap
  dsimp only
  by_cases hnew : overlap < (rx.slot slot).data.length
  · rw [if_pos hnew]
    exact .inl ⟨rfl, rfl⟩
  · rw [if_neg hnew]
    exact .inr ⟨rfl, rfl, List.drop_of_length_le (by omega)⟩

theorem took_replaySlot (h : Sound rx) (slot : Fin pendingSlots) :
    Took rx (freshOf rx slot) (replaySlot rx slot (rx.slot slot).seq).2 := by
  have hack := (@replaySlot_consume rx slot).ack
  rcases replaySlot_buffer rx slot with ⟨hbuf, hoff⟩ | ⟨hbuf, hoff, hfresh⟩
  · refine ⟨(h.push (freshOf rx slot)).of_same hbuf hoff, hack, ?_⟩
    intro hfit
    rw [Rx.unread, hbuf, hoff]
    exact (pushRxPayload_unread h.off_le hfit).1
  · refine ⟨h.of_same hbuf hoff, hack, ?_⟩
    intro _
    rw [Rx.unread, hbuf, hoff, hfresh, List.append_nil]
    rfl

theorem took_replayPending (fuel : ℕ) : ∀ {rx : Rx}, Sound rx →
    Took rx (replayPending fuel rx).1 (replayPending fuel rx).2 := by
  induction fuel with
  | zero => exact fun h => Took.refl h
  | succ fuel ih =>
    intro rx h
    rw [replayPending]
    cases hbest : bestSlot rx with
    | none => exact Took.refl h
    | some best =>
      obtain ⟨slot, seq⟩ := best
      obtain ⟨-, rfl⟩ := bestSlot_eq_some hbest
      have hslot := took_replaySlot h slot
      exact hslot.trans (ih hslot.sound)

theorem storePending_took (h : Sound rx) : Took rx [] (storePending rx seq payload) := by
  have hsame : (storePending rx seq payload).buf = rx.buf ∧ (storePending rx seq payload).off = rx.off := by
    unfold storePending
    split_ifs
    · exact ⟨rfl, rfl⟩
    · split
      · split_ifs <;> exact ⟨rfl, rfl⟩
      · split <;> exact ⟨rfl, rfl⟩
  refine ⟨h.of_same hsame.1 hsame.2, ?_, ?_⟩
  · rw [storePending_ack]
    exact (UInt32.add_zero _).symm
  · intro _
    rw [Rx.unread, hsame.1, hsame.2, List.append_nil]
    rfl

theorem took_pushTrimmed (h : Sound rx) (seq : UInt32) (payload : Bytes) :
    Took rx (pushTrimmed rx seq payload).pushed (pushTrimmed rx seq payload).rx := by
  unfold pushTrimmed
  dsimp only
  split_ifs with hexpected hhalf
  · have hpush := took_push h payload
    exact hpush.trans (took_replayPending _ hpush.sound)
  · exact storePending_took h
  · exact Took.refl h

/-- A call acknowledges what it hands over, and keeps it if all of it fits. -/
theorem took_pushRxPayloadSeq (h : Sound rx) (seq : UInt32) (payload : Bytes) :
    Took rx (newBytes rx seq payload) (pushRxPayloadSeq rx seq payload).rx := by
  rw [← pushRxPayloadSeq_pushed]
  unfold pushRxPayloadSeq
  dsimp only
  split_ifs with hnil hbehind hold
  · exact Took.refl h
  · exact Took.refl h
  · exact took_pushTrimmed h _ _
  · exact took_pushTrimmed h _ _

end Keeping

section History

/-- A call of the receive path: `push_rx_payload_seq` or `tls_recv`. -/
inductive RxCall where
  | segment (seq : UInt32) (payload : Bytes)
  | recv (len : ℕ)
  deriving DecidableEq, Repr

/-- The receive path, the bytes the library has read and the bytes that were acknowledged. -/
structure RxHistory where
  rx : Rx
  returned : Bytes
  acked : Bytes
  deriving DecidableEq, Repr

def RxHistory.step (history : RxHistory) : RxCall → RxHistory
  | .segment seq payload =>
    { history with
      rx := (pushRxPayloadSeq history.rx seq payload).rx
      acked := history.acked ++ (pushRxPayloadSeq history.rx seq payload).pushed }
  | .recv len =>
    { history with
      rx := (tlsRecv history.rx len).2.2
      returned := history.returned ++ (tlsRecv history.rx len).2.1 }

def RxHistory.start (ack : UInt32) : RxHistory := ⟨configure ack, [], []⟩

/-- Any calls, in any order. -/
def rxCalls (ack : UInt32) : Machine RxHistory RxCall where
  init history := history = RxHistory.start ack
  allowed _ _ := True
  step := RxHistory.step

/-- No acknowledged byte is lost. -/
def RxHistory.Kept (history : RxHistory) : Prop := history.returned ++ history.rx.unread = history.acked

/-- A segment without room changes neither the unread bytes nor the acknowledgement, and no call loses an
acknowledged byte. -/
structure LosslessCall (history : RxHistory) (call : RxCall) : Prop where
  unchanged : ∀ seq payload, call = .segment seq payload →
    rxBufLen < history.rx.unread.length + (inOrderPart history.rx seq payload).length →
    (history.step call).rx.unread = history.rx.unread ∧ (history.step call).rx.ack = history.rx.ack
  kept : (history.step call).Kept

/-- What the segment makes contiguous fits with the unread bytes. -/
def RoomFor (history : RxHistory) : RxCall → Prop
  | .segment seq payload => history.rx.unread.length + (newBytes history.rx seq payload).length ≤ rxBufLen
  | .recv _ => True

theorem inOrderPart_length_le (rx : Rx) (seq : UInt32) (payload : Bytes) :
    (inOrderPart rx seq payload).length ≤ (newBytes rx seq payload).length := by
  unfold newBytes
  dsimp only
  split_ifs with hnil
  · rw [hnil]
  · rw [List.length_append]
    omega

theorem RxHistory.step_sound {history : RxHistory} (h : Sound history.rx) (call : RxCall) :
    Sound (history.step call).rx := by
  cases call with
  | segment seq payload => exact (took_pushRxPayloadSeq h seq payload).sound
  | recv len => exact h.recv len

theorem losslessCall_iff {history : RxHistory} (hsound : Sound history.rx) (hkept : history.Kept)
    (call : RxCall) : LosslessCall history call ↔ RoomFor history call := by
  cases call with
  | recv len =>
    refine iff_of_true ⟨fun _ _ h => (nomatch h), ?_⟩ trivial
    change (history.returned ++ (tlsRecv history.rx len).2.1) ++ (tlsRecv history.rx len).2.2.unread = history.acked
    rw [List.append_assoc, tlsRecv_unread]
    exact hkept
  | segment seq payload =>
    have htook := took_pushRxPayloadSeq hsound seq payload
    constructor
    · intro h
      have hafter : history.returned ++ (pushRxPayloadSeq history.rx seq payload).rx.unread =
          history.acked ++ (pushRxPayloadSeq history.rx seq payload).pushed := h.kept
      rw [← hkept, List.append_assoc, pushRxPayloadSeq_pushed] at hafter
      have hunread := List.append_cancel_left hafter
      have hle := htook.sound.unread_le
      rw [hunread, List.length_append] at hle
      exact hle
    · intro hroom
      have hlen := inOrderPart_length_le history.rx seq payload
      have hfits : history.rx.unread.length + (newBytes history.rx seq payload).length ≤ rxBufLen := hroom
      constructor
      · rintro _ _ ⟨⟩ hover
        omega
      · change history.returned ++ (pushRxPayloadSeq history.rx seq payload).rx.unread =
          history.acked ++ (pushRxPayloadSeq history.rx seq payload).pushed
        rw [htook.unread hfits, pushRxPayloadSeq_pushed, ← hkept, List.append_assoc]

theorem lossless_iff_from {ack : UInt32} (calls : List RxCall) : ∀ {history : RxHistory}, Sound history.rx →
    history.Kept →
    ((rxCalls ack).Meets LosslessCall history calls ↔ (rxCalls ack).Meets RoomFor history calls) := by
  induction calls with
  | nil => exact fun _ _ => Iff.rfl
  | cons call calls ih =>
    intro history hsound hkept
    have hcall := losslessCall_iff hsound hkept call
    constructor
    · intro h
      exact ⟨hcall.mp h.1, (ih (history.step_sound hsound call) h.1.kept).mp h.2⟩
    · intro h
      have hlossless := hcall.mpr h.1
      exact ⟨hlossless, (ih (history.step_sound hsound call) hlossless.kept).mpr h.2⟩

/-- The calls of a run are lossless just when, at each segment, what it makes contiguous fits with the unread
bytes. -/
theorem overflow_lossless_iff (ack : UInt32) (calls : List RxCall) :
    (rxCalls ack).Meets LosslessCall (RxHistory.start ack) calls ↔
      (rxCalls ack).Meets RoomFor (RxHistory.start ack) calls :=
  lossless_iff_from calls (configure_sound ack) rfl

end History

section Flood

def fullSegment : Bytes := List.replicate 1460 0

theorem fullSegment_length : fullSegment.length = 1460 := List.length_replicate

theorem fullSegment_ne_nil : fullSegment ≠ [] := by
  intro h
  have hlen := fullSegment_length
  rw [h] at hlen
  cases hlen

/-- Segments of 1460 bytes, in order. -/
def flood (n : ℕ) : List RxCall :=
  (List.range n).map fun i => .segment (UInt32.ofNat (1460 * i)) fullSegment

theorem bestSlot_of_invalid (h : ∀ slot : Fin pendingSlots, (rx.slot slot).valid = false) :
    bestSlot rx = none := by
  cases hbest : bestSlot rx with
  | none => rfl
  | some best =>
    obtain ⟨slot, seq⟩ := best
    have hvalid := (bestSlot_eq_some hbest).1.1
    rw [h slot] at hvalid
    cases hvalid

theorem newBytes_inOrder (h : ∀ slot : Fin pendingSlots, (rx.slot slot).valid = false) (hne : payload ≠ []) :
    newBytes rx rx.ack payload = payload := by
  have hself : ¬ tcpSeqCmp rx.ack rx.ack < 0 := by
    unfold tcpSeqCmp
    simp
  have hpart : inOrderPart rx rx.ack payload = payload := by
    unfold inOrderPart
    rw [if_neg hself, if_pos rfl]
  have hbest : bestSlot (updateAck rx (rx.ack + UInt32.ofNat payload.length)) = none := bestSlot_of_invalid h
  unfold newBytes
  rw [hpart]
  dsimp only
  rw [if_neg hne, contiguous, hbest, List.append_nil]

theorem pushRxPayloadSeq_slots (h : ∀ slot : Fin pendingSlots, (rx.slot slot).valid = false)
    (hne : payload ≠ []) (slot : Fin pendingSlots) :
    ((pushRxPayloadSeq rx rx.ack payload).rx.slot slot).valid = false := by
  have hself : ¬ tcpSeqCmp rx.ack rx.ack < 0 := by
    unfold tcpSeqCmp
    simp
  have hlen : payload.length ≠ 0 := fun hzero => hne (List.length_eq_zero_iff.mp hzero)
  have hbest : bestSlot (updateAck (pushRxPayload rx payload) (rx.ack + UInt32.ofNat payload.length)) = none := by
    apply bestSlot_of_invalid
    intro other
    rw [updateAck_slot, pushRxPayload_slot]
    exact h other
  unfold pushRxPayloadSeq pushTrimmed
  dsimp only
  rw [if_neg hlen, if_neg hself, if_pos rfl, replayPending, hbest]
  dsimp only
  rw [updateAck_slot, pushRxPayload_slot]
  exact h slot

theorem run_flood (n : ℕ) :
    let history := (rxCalls 0).run (RxHistory.start 0) (flood n)
    Sound history.rx ∧ history.rx.ack = UInt32.ofNat (1460 * n) ∧
      (∀ slot : Fin pendingSlots, (history.rx.slot slot).valid = false) ∧ history.acked.length = 1460 * n ∧
      history.returned = [] := by
  induction n with
  | zero =>
    refine ⟨configure_sound 0, rfl, ?_, rfl, rfl⟩
    intro slot
    change ((configure 0).slot slot).valid = false
    simp [configure, Rx.slot]
  | succ n ih =>
    obtain ⟨hsound, hack, hslots, hlen, hreturned⟩ := ih
    have hlast : flood (n + 1) = flood n ++ [.segment (UInt32.ofNat (1460 * n)) fullSegment] := by
      rw [flood, List.range_succ, List.map_append]
      rfl
    have hrun : (rxCalls 0).run (RxHistory.start 0) (flood (n + 1)) =
        ((rxCalls 0).run (RxHistory.start 0) (flood n)).step
          (.segment (UInt32.ofNat (1460 * n)) fullSegment) := by
      rw [hlast, Machine.run, List.foldl_append]
      rfl
    rw [hrun]
    generalize (rxCalls 0).run (RxHistory.start 0) (flood n) = history at hsound hack hslots hlen hreturned
    have hlength := fullSegment_length
    have hne := fullSegment_ne_nil
    generalize fullSegment = payload at hlength hne
    rw [← hack]
    have htook := took_pushRxPayloadSeq hsound history.rx.ack payload
    rw [newBytes_inOrder hslots hne] at htook
    refine ⟨htook.sound, ?_, pushRxPayloadSeq_slots hslots hne, ?_, hreturned⟩
    · change (pushRxPayloadSeq history.rx history.rx.ack payload).rx.ack = _
      rw [htook.ack, hack, hlength, ← UInt32.ofNat_add, Nat.mul_succ]
    · change (history.acked ++ (pushRxPayloadSeq history.rx history.rx.ack payload).pushed).length = _
      rw [pushRxPayloadSeq_pushed, newBytes_inOrder hslots hne, List.length_append, hlength, hlen, Nat.mul_succ]

theorem meets_last {machine : Machine RxHistory RxCall} {history : RxHistory} {calls : List RxCall}
    (hstart : history.Kept) (h : machine.Meets LosslessCall history calls) (hstep : machine.step = RxHistory.step) :
    (machine.run history calls).Kept := by
  induction calls generalizing history with
  | nil => exact hstart
  | cons call calls ih =>
    rw [Machine.run_cons, hstep]
    rw [Machine.Meets, hstep] at h
    exact ih h.1.kept h.2

/-- 180 segments that nobody reads. -/
theorem overflow_loses_acked : ¬ ∀ ack calls,
    (rxCalls ack).Meets LosslessCall (RxHistory.start ack) calls := by
  intro h
  have hstart : (RxHistory.start 0).Kept := rfl
  have hkept := meets_last hstart (h 0 (flood 180)) rfl
  obtain ⟨hsound, -, -, hlen, hreturned⟩ := run_flood 180
  generalize (rxCalls 0).run (RxHistory.start 0) (flood 180) = history at hkept hsound hlen hreturned
  unfold RxHistory.Kept at hkept
  rw [hreturned, List.nil_append] at hkept
  have hle := hsound.unread_le
  rw [hkept, hlen] at hle
  unfold rxBufLen at hle
  omega

end Flood

end MiniAgentOS.Tls
