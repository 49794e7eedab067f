import MiniAgentOS.Lib.Machine
import MiniAgentOS.Tls.Stream

/-! Runs of the TLS receive path: segments of the server's stream in any order, interleaved
with reads by the TLS library. -/
namespace MiniAgentOS.Tls
open Net

variable {stream : Bytes} {isn : UInt32}

/-- A call from outside: `push_rx_payload_seq` on a segment that starts at `offset` of the
stream, or `tls_recv` with room for `len` bytes. -/
inductive RxEvent where
  | segment (offset : ℕ) (payload : Bytes)
  | recv (len : ℕ)
  deriving DecidableEq, Repr

/-- The receive path, the bytes `tls_recv` has returned so far and the number of bytes handed
to `push_rx_payload` so far. -/
structure RxRun where
  rx : Rx
  returned : Bytes
  accepted : ℕ
  deriving DecidableEq, Repr

def rxStep (isn : UInt32) (run : RxRun) : RxEvent → RxRun
  | .segment offset payload =>
    let result := pushRxPayloadSeq run.rx (seqAt isn offset) payload
    { run with rx := result.rx, accepted := run.accepted + result.pushed.length }
  | .recv len =>
    let (_, out, rx) := tlsRecv run.rx len
    { run with rx, returned := run.returned ++ out }

/-- Segments are pieces of the stream that start within half a turn of the acknowledged
position, and the bytes they add fit in the buffer together with the unread ones. -/
def RxAllowed (stream : Bytes) (isn : UInt32) (run : RxRun) : RxEvent → Prop
  | .segment offset payload =>
    Piece.At stream offset payload ∧ run.accepted ≤ offset + 2 ^ 31 ∧
      offset < run.accepted + 2 ^ 31 ∧
      run.rx.unread.length + (pushRxPayloadSeq run.rx (seqAt isn offset) payload).pushed.length ≤
        rxBufLen
  | .recv _ => True

instance (run : RxRun) : ∀ event, Decidable (RxAllowed stream isn run event)
  | .segment _ _ => inferInstanceAs (Decidable (_ ∧ _))
  | .recv _ => inferInstanceAs (Decidable True)

def rxMachine (stream : Bytes) (isn : UInt32) : Machine RxRun RxEvent where
  init run := run = ⟨configure isn, [], 0⟩
  allowed := RxAllowed stream isn
  step := rxStep isn

instance (run : RxRun) (event : RxEvent) : Decidable ((rxMachine stream isn).allowed run event) :=
  inferInstanceAs (Decidable (RxAllowed stream isn run event))

/-- The invariant of the receive path. -/
def RxInv (stream : Bytes) (isn : UInt32) (run : RxRun) : Prop :=
  Synced stream isn run.returned run.accepted run.accepted run.rx

theorem configure_synced : Synced stream isn [] 0 0 (configure isn) := by
  refine ⟨Nat.zero_le _, rfl, (seqAt_zero isn).symm, Nat.le_refl 0, ?_⟩
  intro slot hvalid
  simp [configure, Rx.slot] at hvalid

/-- Reading moves bytes from the front of the unread ones to the returned ones. -/
theorem tlsRecv_unread (rx : Rx) (len : ℕ) :
    (tlsRecv rx len).2.1 ++ (tlsRecv rx len).2.2.unread = rx.unread := by
  unfold tlsRecv
  dsimp only
  split_ifs with hempty hall
  · exact List.nil_append _
  · have hlen : rx.buf.length - rx.off ≤ min (rx.buf.length - rx.off) len := by omega
    rw [List.take_of_length_le (by rwa [List.length_drop])]
    exact List.append_nil _
  · change _ ++ List.drop _ rx.buf = _
    rw [← List.drop_drop, List.take_append_drop]
    rfl

theorem Synced.tlsRecv {returned : Bytes} {base position : ℕ} {rx : Rx} (len : ℕ)
    (h : Synced stream isn returned base position rx) :
    Synced stream isn (returned ++ (tlsRecv rx len).2.1) base position (Tls.tlsRecv rx len).2.2 := by
  refine ⟨h.position_le, ?_, ?_, ?_, ?_⟩
  · rw [List.append_assoc, tlsRecv_unread, h.bytes]
  · rw [← h.ack]
    unfold Tls.tlsRecv
    dsimp only
    split_ifs <;> rfl
  · have hoff := h.off_le
    unfold Tls.tlsRecv
    dsimp only
    split_ifs with hempty hall
    · exact hoff
    · exact Nat.le_refl 0
    · dsimp only
      omega
  · have hslots : (Tls.tlsRecv rx len).2.2.slots = rx.slots := by
      unfold Tls.tlsRecv
      dsimp only
      split_ifs <;> rfl
    intro slot
    rw [Rx.slot, hslots]
    exact h.slots slot

theorem rxStep_inv (run : RxRun) (event : RxEvent) (h : RxInv stream isn run)
    (hallowed : RxAllowed stream isn run event) : RxInv stream isn (rxStep isn run event) := by
  cases event with
  | segment offset payload =>
    obtain ⟨hpiece, hlow, hhigh, hfit⟩ := hallowed
    exact Synced.pushRxPayloadSeq h hpiece hlow hhigh hfit
  | recv len => exact Synced.tlsRecv len h

theorem reachable_rxInv {run : RxRun} (h : (rxMachine stream isn).Reachable run) :
    RxInv stream isn run := by
  refine h.invariant ?_ rxStep_inv
  rintro _ rfl
  exact configure_synced

/-- An allowed call never takes the acknowledged position back. -/
theorem rxStep_ack_le {run : RxRun} {event : RxEvent} (h : RxInv stream isn run)
    (hallowed : RxAllowed stream isn run event) :
    0 ≤ tcpSeqCmp (rxStep isn run event).rx.ack run.rx.ack := by
  have hcap : rxBufLen < 2 ^ 31 := by decide
  have hafter := rxStep_inv run event h hallowed
  have hgrow : run.accepted ≤ (rxStep isn run event).accepted ∧
      (rxStep isn run event).accepted < run.accepted + 2 ^ 31 := by
    cases event with
    | segment offset payload =>
      have hfit := hallowed.2.2.2
      simp only [rxStep]
      omega
    | recv len =>
      simp only [rxStep]
      omega
  rw [hafter.ack, h.ack, tcpSeqCmp_nonneg_iff isn (by omega) hgrow.2]
  exact hgrow.1

/-- What the library has read, followed by what is buffered, is the stream up to the
acknowledged position, which never moves back, and every pending slot lies beyond it. -/
theorem receive_reassembles {run : RxRun} (h : (rxMachine stream isn).Reachable run) :
    run.returned ++ run.rx.unread = stream.take run.accepted ∧
    run.accepted ≤ stream.length ∧
    run.rx.ack = seqAt isn run.accepted ∧
    (∀ slot : Fin pendingSlots, (run.rx.slot slot).valid →
      0 < tcpSeqCmp (run.rx.slot slot).seq run.rx.ack) ∧
    (∀ event, RxAllowed stream isn run event →
      0 ≤ tcpSeqCmp (rxStep isn run event).rx.ack run.rx.ack) := by
  have hinv := reachable_rxInv h
  refine ⟨hinv.bytes, hinv.position_le, hinv.ack, ?_, fun event => rxStep_ack_le hinv⟩
  intro slot hvalid
  obtain ⟨offset, hafter, hwindow, hseq, -⟩ := hinv.slots slot hvalid
  rw [hseq, hinv.ack, tcpSeqCmp_pos_iff isn (by omega) hwindow]
  exact hafter

/-- Segments out of order and overlapping, across the wrap of the sequence numbers. -/
theorem receive_reassembles_run :
    let run := (rxMachine [10, 20, 30, 40, 50, 60] 0xFFFFFFFE).run ⟨configure 0xFFFFFFFE, [], 0⟩
      [.segment 3 [40, 50], .segment 1 [20, 30], .segment 0 [10, 20], .recv 2]
    run.returned ++ run.rx.unread = [10, 20, 30, 40, 50] ∧ run.rx.ack = 3 := by
  have hreach : (rxMachine [10, 20, 30, 40, 50, 60] 0xFFFFFFFE).Reachable _ :=
    Machine.Reachable.run (.init rfl)
      (show (rxMachine _ _).Allows ⟨configure 0xFFFFFFFE, [], 0⟩
        [.segment 3 [40, 50], .segment 1 [20, 30], .segment 0 [10, 20], .recv 2] by decide)
  obtain ⟨hbytes, -, hack, -, -⟩ := receive_reassembles hreach
  exact ⟨hbytes, hack⟩

end MiniAgentOS.Tls
