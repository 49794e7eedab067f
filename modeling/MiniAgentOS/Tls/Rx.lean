import MiniAgentOS.Net.TcpSeq

/-! The receive side of the TLS transport: the linear receive buffer and the slots for
segments that arrived ahead of the acknowledged position. -/
namespace MiniAgentOS.Tls
open Net

abbrev Bytes := List UInt8

/-- Length of `TLS_RX_BUF`. -/
def rxBufLen : ℕ := 262144

/-- `TLS_PENDING_SLOTS`. -/
abbrev pendingSlots : ℕ := 32

/-- `TLS_PENDING_MAX`. -/
def pendingMax : ℕ := 4096

/-- `MBEDTLS_ERR_SSL_WANT_READ`. -/
def errWantRead : ℤ := -0x6900

/-- One entry of the `TLS_PENDING_*` arrays. `data` is the first `TLS_PENDING_LEN` bytes of
the slot's buffer. -/
structure PendingSlot where
  valid : Bool
  seq : UInt32
  data : Bytes
  deriving DecidableEq, Repr, Inhabited

/-- The counters the receive path keeps. -/
structure RxCounters where
  compactions : UInt32 := 0
  overflowResets : UInt32 := 0
  stored : UInt32 := 0
  replaced : UInt32 := 0
  dupDropped : UInt32 := 0
  oversizeDropped : UInt32 := 0
  noSlotDropped : UInt32 := 0
  replayed : UInt32 := 0
  replayBytes : UInt32 := 0
  deriving DecidableEq, Repr, Inhabited

/-- `buf` is the first `TLS_RX_LEN` bytes of `TLS_RX_BUF`, `off` is `TLS_RX_OFF` and `ack` is
`TLS_BIO.ack`. -/
structure Rx where
  buf : Bytes
  off : ℕ
  ack : UInt32
  slots : Vector PendingSlot pendingSlots
  counters : RxCounters
  deriving DecidableEq, Repr, Inhabited

/-- The bytes the TLS library has not read yet. -/
def Rx.unread (rx : Rx) : Bytes := rx.buf.drop rx.off

def Rx.slot (rx : Rx) (slot : Fin pendingSlots) : PendingSlot := rx.slots[slot]

def Rx.setSlot (rx : Rx) (slot : Fin pendingSlots) (pending : PendingSlot) : Rx :=
  { rx with slots := rx.slots.set slot pending }

/-- What `configure` leaves for the receive path. -/
def configure (ack : UInt32) : Rx where
  buf := []
  off := 0
  ack
  slots := Vector.replicate pendingSlots ⟨false, 0, []⟩
  counters := {}

/-- `update_ack`. -/
def updateAck (rx : Rx) (ack : UInt32) : Rx := { rx with ack }

/-- `tls_recv` with room for `len` bytes: the return value and the bytes copied out. -/
def tlsRecv (rx : Rx) (len : ℕ) : ℤ × Bytes × Rx :=
  let available := rx.buf.length - rx.off
  if available = 0 then
    (errWantRead, [], rx)
  else
    let n := min available len
    let out := (rx.buf.drop rx.off).take n
    let off := rx.off + n
    if off ≥ rx.buf.length then
      (n, out, { rx with buf := [], off := 0 })
    else
      (n, out, { rx with off })

/-- Start over at the front of the buffer once everything in it has been read. -/
def discardRead (rx : Rx) : Rx :=
  if rx.off ≥ rx.buf.length then { rx with buf := [], off := 0 } else rx

/-- Move the unread bytes to the front when `len` more would not fit behind them. -/
def compact (rx : Rx) (len : ℕ) : Rx :=
  if rx.buf.length + len > rxBufLen ∧ rx.off > 0 then
    { rx with
      buf := rx.buf.drop rx.off
      off := 0
      counters.compactions := rx.counters.compactions + 1 }
  else rx

/-- `push_rx_payload` on the bytes at the given address. -/
def pushRxPayload (rx : Rx) (payload : Bytes) : Rx :=
  if payload.length = 0 then
    rx
  else
    let rx := compact (discardRead rx) payload.length
    if rx.buf.length + payload.length > rxBufLen then
      { rx with
        buf := []
        off := 0
        counters.overflowResets := rx.counters.overflowResets + 1 }
    else
      { rx with buf := rx.buf ++ payload }

/-- One step of the scan for the slot to replay next. -/
def betterSlot (rx : Rx) (best : Option (Fin pendingSlots × UInt32)) (slot : Fin pendingSlots) :
    Option (Fin pendingSlots × UInt32) :=
  let pending := rx.slot slot
  if pending.valid ∧ tcpSeqCmp pending.seq rx.ack ≤ 0 then
    match best with
    | none => some (slot, pending.seq)
    | some (bestSlot, bestSeq) =>
      if tcpSeqCmp pending.seq bestSeq < 0 then some (slot, pending.seq) else some (bestSlot, bestSeq)
  else best

/-- The valid slot at or before `ack` with the earliest sequence number. -/
def bestSlot (rx : Rx) : Option (Fin pendingSlots × UInt32) :=
  (List.finRange pendingSlots).foldl (betterSlot rx) none

/-- The body of the replay loop, on the slot the scan found: the bytes handed to
`push_rx_payload` and the new state. -/
def replaySlot (rx : Rx) (slot : Fin pendingSlots) (seq : UInt32) : Bytes × Rx :=
  let pending := rx.slot slot
  let overlap := if tcpSeqCmp seq rx.ack < 0 then (rx.ack - seq).toNat else 0
  let pushed := pending.data.drop overlap
  let rx :=
    if overlap < pending.data.length then
      let rx := updateAck (pushRxPayload rx pushed) (rx.ack + UInt32.ofNat pushed.length)
      { rx with
        counters.replayed := rx.counters.replayed + 1
        counters.replayBytes := rx.counters.replayBytes + UInt32.ofNat pushed.length }
    else rx
  (pushed, rx.setSlot slot { pending with valid := false, data := [] })

/-- The replay loop of `push_rx_payload_seq`. Each round invalidates a slot, so that one round
more than there are slots is enough. -/
def replayPending : ℕ → Rx → Bytes × Rx
  | 0, rx => ([], rx)
  | fuel + 1, rx =>
    match bestSlot rx with
    | none => ([], rx)
    | some (slot, seq) =>
      let (pushed, rx) := replaySlot rx slot seq
      let (rest, rx) := replayPending fuel rx
      (pushed ++ rest, rx)

/-- Store a segment that starts after `ack`, in the slot it already has or in a free one. -/
def storePending (rx : Rx) (seq : UInt32) (payload : Bytes) : Rx :=
  if payload.length > pendingMax then
    { rx with counters.oversizeDropped := rx.counters.oversizeDropped + 1 }
  else
    match (List.finRange pendingSlots).find? fun slot =>
      (rx.slot slot).valid && (rx.slot slot).seq == seq with
    | some slot =>
      if payload.length > (rx.slot slot).data.length then
        { rx.setSlot slot { rx.slot slot with data := payload } with
          counters.replaced := rx.counters.replaced + 1 }
      else
        { rx with counters.dupDropped := rx.counters.dupDropped + 1 }
    | none =>
      match (List.finRange pendingSlots).find? fun slot => !(rx.slot slot).valid with
      | some slot =>
        { rx.setSlot slot ⟨true, seq, payload⟩ with
          counters.stored := rx.counters.stored + 1 }
      | none => { rx with counters.noSlotDropped := rx.counters.noSlotDropped + 1 }

/-- What a call of `push_rx_payload_seq` does: its return value, all bytes it hands to
`push_rx_payload`, in order, and the new state. -/
structure SegmentResult where
  accepted : Bool
  pushed : Bytes
  rx : Rx
  deriving DecidableEq, Repr, Inhabited

/-- The in-order and ahead-of-order branches of `push_rx_payload_seq`, after trimming. -/
def pushTrimmed (rx : Rx) (seq : UInt32) (payload : Bytes) : SegmentResult :=
  let expected := rx.ack
  if seq = expected then
    let rx := updateAck (pushRxPayload rx payload) (expected + UInt32.ofNat payload.length)
    let (replayed, rx) := replayPending (pendingSlots + 1) rx
    ⟨true, payload ++ replayed, rx⟩
  else if seq - expected < 0x80000000 then
    ⟨false, [], storePending rx seq payload⟩
  else
    ⟨false, [], rx⟩

/-- `push_rx_payload_seq`. -/
def pushRxPayloadSeq (rx : Rx) (seq : UInt32) (payload : Bytes) : SegmentResult :=
  if payload.length = 0 then
    ⟨false, [], rx⟩
  else
    let expected := rx.ack
    if tcpSeqCmp seq expected < 0 then
      let overlap := (expected - seq).toNat
      if overlap ≥ payload.length then ⟨false, [], rx⟩
      else pushTrimmed rx expected (payload.drop overlap)
    else
      pushTrimmed rx seq payload

end MiniAgentOS.Tls
