import Mathlib
import MiniAgentOS.Lib.Piece
import MiniAgentOS.Tls.Rx

/-! The TLS receive path delivers the server's stream: what the library has read, followed by
what is buffered, is the stream up to the acknowledged position. -/
namespace MiniAgentOS.Tls
open Net

variable {stream : Bytes} {isn : UInt32} {returned : Bytes} {base position : ℕ} {rx : Rx}

section Slots

@[simp] theorem slot_setSlot (rx : Rx) (slot other : Fin pendingSlots) (pending : PendingSlot) :
    (rx.setSlot slot pending).slot other = if slot = other then pending else rx.slot other := by
  simp only [Rx.slot, Rx.setSlot, Fin.getElem_fin, Vector.getElem_set, Fin.ext_iff]

@[simp] theorem setSlot_ack (rx : Rx) (slot : Fin pendingSlots) (pending : PendingSlot) :
    (rx.setSlot slot pending).ack = rx.ack := rfl

theorem countP_setSlot (rx : Rx) (slot : Fin pendingSlots) (pending : PendingSlot)
    (hvalid : (rx.slot slot).valid) (hinvalid : pending.valid = false) :
    (rx.setSlot slot pending).slots.countP (·.valid) + 1 = rx.slots.countP (·.valid) := by
  have hpos : 0 < rx.slots.countP (·.valid) :=
    Vector.countP_pos_iff.mpr ⟨rx.slot slot, Vector.getElem_mem _, hvalid⟩
  have hslot : rx.slots[slot.val].valid = true := hvalid
  simp only [Rx.setSlot, Vector.countP_set, hslot, hinvalid, if_true, Bool.false_eq_true, if_false]
  omega

end Slots

section Push

variable (rx) (len : ℕ) (payload : Bytes) (ack : UInt32)

@[simp] theorem updateAck_ack : (updateAck rx ack).ack = ack := rfl

@[simp] theorem updateAck_slots : (updateAck rx ack).slots = rx.slots := rfl

@[simp] theorem updateAck_slot (slot : Fin pendingSlots) :
    (updateAck rx ack).slot slot = rx.slot slot := rfl

@[simp] theorem updateAck_unread : (updateAck rx ack).unread = rx.unread := rfl

@[simp] theorem discardRead_ack : (discardRead rx).ack = rx.ack := by
  unfold discardRead
  split_ifs <;> rfl

@[simp] theorem discardRead_slots : (discardRead rx).slots = rx.slots := by
  unfold discardRead
  split_ifs <;> rfl

@[simp] theorem discardRead_unread : (discardRead rx).unread = rx.unread := by
  unfold discardRead
  split_ifs with hread
  · rw [Rx.unread, Rx.unread, List.drop_of_length_le hread]
    rfl
  · rfl

theorem discardRead_off_le : (discardRead rx).off ≤ (discardRead rx).buf.length := by
  unfold discardRead
  split_ifs with hread
  · exact Nat.le_refl 0
  · omega

@[simp] theorem compact_ack : (compact rx len).ack = rx.ack := by
  unfold compact
  split_ifs <;> rfl

@[simp] theorem compact_slots : (compact rx len).slots = rx.slots := by
  unfold compact
  split_ifs <;> rfl

@[simp] theorem compact_unread : (compact rx len).unread = rx.unread := by
  unfold compact
  split_ifs <;> rfl

variable {rx len}

theorem compact_off_le (hoff : rx.off ≤ rx.buf.length) :
    (compact rx len).off ≤ (compact rx len).buf.length := by
  unfold compact
  split_ifs
  · exact Nat.zero_le _
  · exact hoff

theorem length_unread : rx.unread.length = rx.buf.length - rx.off := List.length_drop

/-- After compaction, whatever fits with the unread bytes fits behind the buffer. -/
theorem compact_room (hfit : rx.unread.length + len ≤ rxBufLen) :
    (compact rx len).buf.length + len ≤ rxBufLen := by
  rw [length_unread] at hfit
  unfold compact
  split_ifs with hover
  · rw [List.length_drop]
    exact hfit
  · rcases Nat.eq_zero_or_pos rx.off with hzero | hpos
    · omega
    · by_contra hlarge
      exact hover ⟨by omega, hpos⟩

variable (rx)

@[simp] theorem pushRxPayload_ack : (pushRxPayload rx payload).ack = rx.ack := by
  unfold pushRxPayload
  dsimp only
  split_ifs <;> simp

@[simp] theorem pushRxPayload_slots : (pushRxPayload rx payload).slots = rx.slots := by
  unfold pushRxPayload
  dsimp only
  split_ifs <;> simp

@[simp] theorem pushRxPayload_slot (slot : Fin pendingSlots) :
    (pushRxPayload rx payload).slot slot = rx.slot slot := by
  rw [Rx.slot, pushRxPayload_slots]
  rfl

variable {rx payload}

/-- A payload that fits with the unread bytes is appended to them. -/
theorem pushRxPayload_unread (hoff : rx.off ≤ rx.buf.length)
    (hfit : rx.unread.length + payload.length ≤ rxBufLen) :
    (pushRxPayload rx payload).unread = rx.unread ++ payload ∧
      (pushRxPayload rx payload).off ≤ (pushRxPayload rx payload).buf.length := by
  unfold pushRxPayload
  dsimp only
  split_ifs with hnil hover
  · rw [List.length_eq_zero_iff.mp hnil, List.append_nil]
    exact ⟨rfl, hoff⟩
  · have hroom : (compact (discardRead rx) payload.length).buf.length + payload.length ≤ rxBufLen :=
      compact_room (by simpa using hfit)
    omega
  · have hle : (compact (discardRead rx) payload.length).off ≤
        (compact (discardRead rx) payload.length).buf.length :=
      compact_off_le (discardRead_off_le rx)
    constructor
    · change List.drop _ (_ ++ payload) = _
      rw [List.drop_append_of_le_length hle]
      change (compact (discardRead rx) payload.length).unread ++ payload = _
      rw [compact_unread, discardRead_unread]
    · change (compact (discardRead rx) payload.length).off ≤ _
      rw [List.length_append]
      omega

end Push

/-- A slot holds a piece of the stream that starts after `base`, at most half a turn away. -/
def HoldsPiece (stream : Bytes) (isn : UInt32) (base : ℕ) (pending : PendingSlot) : Prop :=
  ∃ offset, base < offset ∧ offset < base + 2 ^ 31 ∧ pending.seq = seqAt isn offset ∧
    Piece.At stream offset pending.data

/-- The receive path has taken the stream up to `position`, and its slots hold pieces of the
stream beyond `base`. -/
structure Synced (stream : Bytes) (isn : UInt32) (returned : Bytes) (base position : ℕ)
    (rx : Rx) : Prop where
  position_le : position ≤ stream.length
  bytes : returned ++ rx.unread = stream.take position
  ack : rx.ack = seqAt isn position
  off_le : rx.off ≤ rx.buf.length
  slots : ∀ slot : Fin pendingSlots, (rx.slot slot).valid → HoldsPiece stream isn base (rx.slot slot)

theorem Synced.length_eq (h : Synced stream isn returned base position rx) :
    returned.length + rx.unread.length = position := by
  have hlen := congrArg List.length h.bytes
  rwa [List.length_append, List.length_take_of_le h.position_le] at hlen

/-- Pushing the piece that starts where the stream stands, and acknowledging it. -/
theorem Synced.push {payload : Bytes} {ack : UInt32}
    (h : Synced stream isn returned base position rx)
    (hpiece : Piece.At stream position payload)
    (hfit : rx.unread.length + payload.length ≤ rxBufLen)
    (hack : ack = rx.ack + UInt32.ofNat payload.length) :
    Synced stream isn returned base (position + payload.length)
      (updateAck (pushRxPayload rx payload) ack) := by
  obtain ⟨hunread, hoff⟩ := pushRxPayload_unread h.off_le hfit
  refine ⟨?_, ?_, ?_, hoff, ?_⟩
  · exact hpiece.position_le h.position_le
  · rw [updateAck_unread, hunread, ← List.append_assoc, h.bytes, hpiece.take_append]
  · rw [seqAt_add, ← h.ack]
    exact hack
  · simpa only [updateAck_slot, pushRxPayload_slot] using h.slots

theorem Synced.setCounters (h : Synced stream isn returned base position rx)
    (counters : RxCounters) : Synced stream isn returned base position { rx with counters } :=
  ⟨h.position_le, h.bytes, h.ack, h.off_le, h.slots⟩

theorem Synced.setSlot (h : Synced stream isn returned base position rx)
    (slot : Fin pendingSlots) (pending : PendingSlot)
    (hpending : pending.valid → HoldsPiece stream isn base pending) :
    Synced stream isn returned base position (rx.setSlot slot pending) := by
  refine ⟨h.position_le, h.bytes, h.ack, h.off_le, ?_⟩
  intro other hvalid
  rw [slot_setSlot] at hvalid ⊢
  by_cases hsame : slot = other
  · rw [if_pos hsame] at hvalid ⊢
    exact hpending hvalid
  · rw [if_neg hsame] at hvalid ⊢
    exact h.slots other hvalid

section Scan

/-- A slot the replay loop may take: valid, and at or before the acknowledged position. -/
def Replayable (rx : Rx) (slot : Fin pendingSlots) : Prop :=
  (rx.slot slot).valid ∧ tcpSeqCmp (rx.slot slot).seq rx.ack ≤ 0

/-- The scan has seen `slot` with the sequence number it recorded. -/
def Recorded (rx : Rx) : Option (Fin pendingSlots × UInt32) → Prop
  | none => True
  | some (slot, seq) => Replayable rx slot ∧ seq = (rx.slot slot).seq

theorem betterSlot_recorded {best : Option (Fin pendingSlots × UInt32)} (slot : Fin pendingSlots)
    (hbest : Recorded rx best) : Recorded rx (betterSlot rx best slot) := by
  unfold betterSlot
  dsimp only
  by_cases hslot : Replayable rx slot
  · rw [if_pos (show _ ∧ _ from hslot)]
    cases best with
    | none => exact ⟨hslot, rfl⟩
    | some best =>
      dsimp only
      split_ifs
      · exact ⟨hslot, rfl⟩
      · exact hbest
  · rw [if_neg (show ¬ (_ ∧ _) from hslot)]
    exact hbest

theorem betterSlot_eq_none {best : Option (Fin pendingSlots × UInt32)} {slot : Fin pendingSlots}
    (h : betterSlot rx best slot = none) : best = none ∧ ¬ Replayable rx slot := by
  unfold betterSlot at h
  dsimp only at h
  by_cases hslot : Replayable rx slot
  · rw [if_pos (show _ ∧ _ from hslot)] at h
    cases best with
    | none => exact absurd h (by simp)
    | some best =>
      dsimp only at h
      split_ifs at h
  · rw [if_neg (show ¬ (_ ∧ _) from hslot)] at h
    exact ⟨h, hslot⟩

theorem foldl_betterSlot_recorded (slots : List (Fin pendingSlots)) :
    ∀ {best}, Recorded rx best → Recorded rx (slots.foldl (betterSlot rx) best) := by
  induction slots with
  | nil => exact fun h => h
  | cons slot slots ih => exact fun h => ih (betterSlot_recorded slot h)

theorem foldl_betterSlot_eq_none (slots : List (Fin pendingSlots)) :
    ∀ {best}, slots.foldl (betterSlot rx) best = none →
      best = none ∧ ∀ slot ∈ slots, ¬ Replayable rx slot := by
  induction slots with
  | nil => exact fun h => ⟨h, by simp⟩
  | cons slot slots ih =>
    intro best h
    obtain ⟨hstep, hrest⟩ := ih h
    obtain ⟨hbest, hslot⟩ := betterSlot_eq_none hstep
    refine ⟨hbest, ?_⟩
    rintro other (_ | ⟨_, hother⟩)
    · exact hslot
    · exact hrest other hother

theorem bestSlot_eq_some {slot : Fin pendingSlots} {seq : UInt32}
    (h : bestSlot rx = some (slot, seq)) : Replayable rx slot ∧ seq = (rx.slot slot).seq := by
  have hrecorded : Recorded rx (bestSlot rx) := foldl_betterSlot_recorded _ trivial
  rwa [h] at hrecorded

theorem bestSlot_eq_none (h : bestSlot rx = none) (slot : Fin pendingSlots) :
    ¬ Replayable rx slot :=
  (foldl_betterSlot_eq_none _ h).2 slot (List.mem_finRange slot)

end Scan

section Replay

/-- The body of the replay loop once its overlap is worked out. -/
theorem replaySlot_eq (slot : Fin pendingSlots) (seq : UInt32) {overlap : ℕ}
    (hoverlap : (if tcpSeqCmp seq rx.ack < 0 then (rx.ack - seq).toNat else 0) = overlap) :
    (replaySlot rx slot seq).1 = (rx.slot slot).data.drop overlap := by
  simp only [replaySlot, hoverlap]

/-- Replaying a slot invalidates it and leaves the others as they are. -/
theorem replaySlot_slots (slot : Fin pendingSlots) (seq : UInt32) :
    (replaySlot rx slot seq).2.slots = (rx.setSlot slot ⟨false, (rx.slot slot).seq, []⟩).slots := by
  unfold replaySlot
  dsimp only
  split_ifs <;> simp [Rx.setSlot]

/-- Distance from a slot that may be replayed to the acknowledged position. -/
theorem replay_overlap {offset : ℕ} (hle : offset ≤ position) (hnear : position < offset + 2 ^ 31) :
    (if tcpSeqCmp (seqAt isn offset) (seqAt isn position) < 0 then
      (seqAt isn position - seqAt isn offset).toNat else 0) = position - offset := by
  rw [toNat_seqAt_sub isn hle (by omega)]
  split_ifs with hless
  · rfl
  · have hnot := (tcpSeqCmp_lt_zero_iff isn (by omega) (by omega)).not.mp hless
    omega

/-- Replaying one slot takes the stream on by the part of the slot that is new. -/
theorem Synced.replaySlot {slot : Fin pendingSlots}
    (h : Synced stream isn returned base position rx) (hslot : Replayable rx slot)
    (hbase : base ≤ position) (hnear : position < base + 2 ^ 31)
    (hfit : rx.unread.length + (replaySlot rx slot (rx.slot slot).seq).1.length ≤ rxBufLen) :
    Synced stream isn returned base
      (position + (Tls.replaySlot rx slot (rx.slot slot).seq).1.length)
      (Tls.replaySlot rx slot (rx.slot slot).seq).2 := by
  obtain ⟨hvalid, hcmp⟩ := hslot
  obtain ⟨offset, hafter, hwindow, hseq, hpiece⟩ := h.slots slot hvalid
  rw [hseq, h.ack, tcpSeqCmp_le_zero_iff isn (by omega) (by omega)] at hcmp
  have hoverlap : (if tcpSeqCmp (rx.slot slot).seq rx.ack < 0 then
      (rx.ack - (rx.slot slot).seq).toNat else 0) = position - offset := by
    rw [hseq, h.ack]
    exact replay_overlap hcmp (by omega)
  rw [replaySlot_eq slot _ hoverlap] at hfit ⊢
  simp only [Tls.replaySlot, hoverlap]
  split_ifs with hnew
  · have hpushed := h.push (hpiece.trim hcmp) hfit rfl
    refine (hpushed.setCounters _).setSlot slot ⟨false, _, []⟩ ?_
    exact fun htrue => absurd htrue Bool.false_ne_true
  · have hold : (rx.slot slot).data.drop (position - offset) = [] :=
      List.drop_of_length_le (by omega)
    rw [hold, List.length_nil, Nat.add_zero]
    refine h.setSlot slot ⟨false, _, []⟩ ?_
    exact fun htrue => absurd htrue Bool.false_ne_true

/-- The bytes the replay hands over take the stream on, however many rounds it makes. -/
theorem Synced.replayPending (fuel : ℕ) : ∀ {position : ℕ} {rx : Rx},
    Synced stream isn returned base position rx → base ≤ position →
    position + (replayPending fuel rx).1.length < base + 2 ^ 31 →
    rx.unread.length + (Tls.replayPending fuel rx).1.length ≤ rxBufLen →
    Synced stream isn returned base (position + (Tls.replayPending fuel rx).1.length)
      (Tls.replayPending fuel rx).2 := by
  induction fuel with
  | zero => exact fun h _ _ _ => h
  | succ fuel ih =>
    intro position rx h hbase hnear hfit
    rw [Tls.replayPending] at hnear hfit ⊢
    cases hbest : bestSlot rx with
    | none => exact h
    | some best =>
      obtain ⟨slot, seq⟩ := best
      obtain ⟨hslot, rfl⟩ := bestSlot_eq_some hbest
      simp only [hbest, List.length_append] at hnear hfit ⊢
      have hstep := h.replaySlot hslot hbase (by omega) (by omega)
      have hbefore := h.length_eq
      have hafter := hstep.length_eq
      have hrest := ih hstep (by omega) (by omega) (by omega)
      rwa [Nat.add_assoc] at hrest

/-- Each round invalidates a valid slot, so that enough fuel leaves none to replay. -/
theorem replayPending_bestSlot (fuel : ℕ) : ∀ {rx : Rx}, rx.slots.countP (·.valid) < fuel →
    bestSlot (replayPending fuel rx).2 = none := by
  induction fuel with
  | zero => exact fun hfuel => absurd hfuel (Nat.not_lt_zero _)
  | succ fuel ih =>
    intro rx hfuel
    rw [replayPending]
    cases hbest : bestSlot rx with
    | none => exact hbest
    | some best =>
      obtain ⟨slot, seq⟩ := best
      obtain ⟨hvalid, -⟩ := (bestSlot_eq_some hbest).1
      have hcount := countP_setSlot rx slot ⟨false, (rx.slot slot).seq, []⟩ hvalid rfl
      apply ih
      rw [replaySlot_slots]
      omega

end Replay

section Segment

variable {seq : UInt32} {payload : Bytes}

/-- Storing a piece that starts after the acknowledged position keeps the stream. -/
theorem Synced.storePending {offset : ℕ} (h : Synced stream isn returned base position rx)
    (hafter : base < offset) (hwindow : offset < base + 2 ^ 31)
    (hpiece : Piece.At stream offset payload) :
    Synced stream isn returned base position (storePending rx (seqAt isn offset) payload) := by
  have hholds (valid : Bool) : HoldsPiece stream isn base ⟨valid, seqAt isn offset, payload⟩ :=
    ⟨offset, hafter, hwindow, rfl, hpiece⟩
  unfold Tls.storePending
  split_ifs with hoversize
  · exact h.setCounters _
  · split
    · rename_i slot hfound
      have hseq : (rx.slot slot).seq = seqAt isn offset := by
        have htest := List.find?_some hfound
        simp only [Bool.and_eq_true, beq_iff_eq] at htest
        exact htest.2
      split_ifs
      · refine (h.setSlot slot _ fun _ => ?_).setCounters _
        change HoldsPiece stream isn base ⟨(rx.slot slot).valid, (rx.slot slot).seq, payload⟩
        rw [hseq]
        exact hholds _
      · exact h.setCounters _
    · split
      · exact (h.setSlot _ _ fun _ => hholds true).setCounters _
      · exact h.setCounters _

theorem storePending_ack : (storePending rx seq payload).ack = rx.ack := by
  unfold storePending
  split_ifs
  · rfl
  · split
    · split_ifs <;> rfl
    · split <;> rfl

/-- Once nothing is left to replay, the slots hold pieces beyond the acknowledged position. -/
theorem Synced.advance (h : Synced stream isn returned base position rx) (hbase : base ≤ position)
    (hnear : position < base + 2 ^ 31) (hdone : bestSlot rx = none) :
    Synced stream isn returned position position rx := by
  refine ⟨h.position_le, h.bytes, h.ack, h.off_le, ?_⟩
  intro slot hvalid
  obtain ⟨offset, hafter, hwindow, hseq, hpiece⟩ := h.slots slot hvalid
  have hahead : ¬ tcpSeqCmp (rx.slot slot).seq rx.ack ≤ 0 :=
    fun hle => bestSlot_eq_none hdone slot ⟨hvalid, hle⟩
  rw [hseq, h.ack, tcpSeqCmp_le_zero_iff isn (by omega) (by omega)] at hahead
  exact ⟨offset, by omega, by omega, hseq, hpiece⟩

/-- A piece that starts where the stream stands takes it on, together with every slot that
the piece makes contiguous. -/
theorem Synced.pushTrimmed_inOrder (h : Synced stream isn returned position position rx)
    (hpiece : Piece.At stream position payload)
    (hfit : rx.unread.length + (pushTrimmed rx rx.ack payload).pushed.length ≤ rxBufLen) :
    Synced stream isn returned (position + (pushTrimmed rx rx.ack payload).pushed.length)
      (position + (pushTrimmed rx rx.ack payload).pushed.length)
      (pushTrimmed rx rx.ack payload).rx := by
  simp only [pushTrimmed, if_true, List.length_append] at hfit ⊢
  have hpushed := h.push hpiece (by omega) rfl
  have hbefore := h.length_eq
  have hafter := hpushed.length_eq
  have hcap : rxBufLen < 2 ^ 31 := by decide
  have hreplayed := hpushed.replayPending (pendingSlots + 1) (by omega) (by omega) (by omega)
  rw [Nat.add_assoc] at hreplayed
  refine hreplayed.advance (by omega) (by omega) (replayPending_bestSlot _ ?_)
  exact Nat.lt_succ_of_le Vector.countP_le_size

/-- A call of `push_rx_payload_seq` on a piece of the stream takes the stream on by the bytes
it hands over. -/
theorem Synced.pushRxPayloadSeq {offset : ℕ} (h : Synced stream isn returned position position rx)
    (hpiece : Piece.At stream offset payload) (hlow : position ≤ offset + 2 ^ 31)
    (hhigh : offset < position + 2 ^ 31)
    (hfit : rx.unread.length + (pushRxPayloadSeq rx (seqAt isn offset) payload).pushed.length ≤
      rxBufLen) :
    Synced stream isn returned
      (position + (Tls.pushRxPayloadSeq rx (seqAt isn offset) payload).pushed.length)
      (position + (Tls.pushRxPayloadSeq rx (seqAt isn offset) payload).pushed.length)
      (Tls.pushRxPayloadSeq rx (seqAt isn offset) payload).rx := by
  unfold Tls.pushRxPayloadSeq at hfit ⊢
  by_cases hnil : payload.length = 0
  · simp only [hnil, if_true]
    exact h
  simp only [hnil, if_false, h.ack, tcpSeqCmp_lt_zero_iff isn hlow hhigh] at hfit ⊢
  by_cases hbehind : offset < position
  · have hle : offset ≤ position := Nat.le_of_lt hbehind
    have hturn : position < offset + 2 ^ 32 := by omega
    simp only [hbehind, if_true, toNat_seqAt_sub isn hle hturn] at hfit ⊢
    by_cases hold : position - offset ≥ payload.length
    · simp only [hold, if_true]
      exact h
    · simp only [hold, if_false, ← h.ack] at hfit ⊢
      exact h.pushTrimmed_inOrder (hpiece.trim hle) hfit
  · simp only [hbehind, if_false] at hfit ⊢
    rcases Nat.eq_or_lt_of_le (Nat.not_lt.mp hbehind) with rfl | hahead
    · rw [← h.ack] at hfit ⊢
      exact h.pushTrimmed_inOrder hpiece hfit
    · have hne : seqAt isn offset ≠ seqAt isn position :=
        (seqAt_eq_iff isn hlow hhigh).not.mpr (Nat.ne_of_gt hahead)
      unfold pushTrimmed at hfit ⊢
      simp only [h.ack, hne, if_false] at hfit ⊢
      split_ifs with hhalf
      · exact h.storePending hahead hhigh hpiece
      · exact h

end Segment

end MiniAgentOS.Tls
