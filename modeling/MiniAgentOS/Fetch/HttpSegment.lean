import MiniAgentOS.Http.Feed
import MiniAgentOS.Lib.Piece
import MiniAgentOS.Net.TcpSeq

/-! A TCP segment that arrives while the fetch is in `FETCH_HTTP`. -/
namespace MiniAgentOS.Fetch
open Http Net

def fetchChunkBytes : ℕ := 900

/-- What the handlers of the transport read of a segment. -/
structure Segment where
  seq : UInt32
  payload : Bytes
  fin : Bool
  deriving DecidableEq, Repr

/-- The sequence number behind the payload. -/
def Segment.stop (seg : Segment) : UInt32 := seg.seq + UInt32.ofNat seg.payload.length

/-- The payload behind the bytes that are already acknowledged. -/
def newPayload (ack : UInt32) (seg : Segment) : Bytes :=
  if 0 < tcpSeqCmp seg.seq ack then []
  else if tcpSeqCmp seg.seq ack < 0 then seg.payload.drop (ack - seg.seq).toNat
  else seg.payload

/-- The pieces of at most 900 bytes in which the payload is copied for `http_feed`. -/
def feedChunks (data : Bytes) : List Bytes :=
  (List.range ((data.length + fetchChunkBytes - 1) / fetchChunkBytes)).map fun k =>
    (data.drop (fetchChunkBytes * k)).take fetchChunkBytes

/-- The globals after the segment, what `http_feed` handed on and the pieces that were fed. -/
structure SegmentResult where
  ack : UInt32
  http : HttpParser
  effects : List HttpEffect
  pieces : List Bytes
  deriving DecidableEq, Repr

/-- The handler of a segment in `FETCH_HTTP`; a FIN then ends the fetch. -/
def httpSegment (ack : UInt32) (http : HttpParser) (seg : Segment) : Checked SegmentResult := do
  let fresh := newPayload ack seg
  let (http, effects) ← feedAll http (feedChunks fresh)
  let ack := if fresh = [] then ack else seg.stop
  let ack := if seg.fin ∧ 0 < tcpSeqCmp (seg.stop + 1) ack then seg.stop + 1 else ack
  pure ⟨ack, http, effects, feedChunks fresh⟩

theorem httpSegment_eq_ok {ack : UInt32} {http : HttpParser} {seg : Segment} {result : SegmentResult}
    (h : httpSegment ack http seg = .ok result) :
    result.pieces = feedChunks (newPayload ack seg) ∧
    feedAll http result.pieces = .ok (result.http, result.effects) ∧
    ∃ fed, fed = (if newPayload ack seg = [] then ack else seg.stop) ∧
      result.ack = if seg.fin ∧ 0 < tcpSeqCmp (seg.stop + 1) fed then seg.stop + 1 else fed := by
  unfold httpSegment at h
  dsimp only at h
  cases hfeed : feedAll http (feedChunks (newPayload ack seg)) with
  | error trap =>
    rw [hfeed] at h
    cases h
  | ok fed =>
    rw [hfeed] at h
    cases h
    exact ⟨rfl, hfeed, _, rfl, rfl⟩

theorem flatten_takes (n count : ℕ) (data : Bytes) :
    ((List.range count).map fun k => (data.drop (n * k)).take n).flatten = data.take (n * count) := by
  induction count with
  | zero => simp
  | succ count ih =>
    rw [List.range_succ, List.map_append, List.flatten_append, ih, List.map_singleton,
      List.flatten_singleton, Nat.mul_succ, List.take_add]

@[simp] theorem flatten_feedChunks (data : Bytes) : (feedChunks data).flatten = data := by
  unfold feedChunks
  rw [flatten_takes]
  apply List.take_of_length_le
  unfold fetchChunkBytes
  omega

/-- Of a payload that is shorter than half a turn, the bytes from the acknowledged one on are new. -/
theorem newPayload_eq_drop {ack : UInt32} {seg : Segment} (hlen : seg.payload.length ≤ 2 ^ 31) :
    newPayload ack seg = seg.payload.drop (ack - seg.seq).toNat := by
  have hcmp := toInt_tcpSeqCmp_cond seg.seq ack
  have hahead : 0 < tcpSeqCmp seg.seq ack ↔ 0 < (tcpSeqCmp seg.seq ack).toInt :=
    Int32.lt_iff_toInt_lt
  have hbehind : tcpSeqCmp seg.seq ack < 0 ↔ (tcpSeqCmp seg.seq ack).toInt < 0 :=
    Int32.lt_iff_toInt_lt
  have hback := toNat_sub_swap seg.seq ack
  have hlt := (seg.seq - ack).toNat_lt
  unfold newPayload
  generalize (seg.seq - ack).toNat = distance at hcmp hback hlt
  split_ifs at hcmp hback with hhalf hzero hzero
  · rw [if_neg (mt hahead.mp (by omega)), if_neg (mt hbehind.mp (by omega)), hback, List.drop_zero]
  · rw [if_pos (hahead.mpr (by omega)), List.drop_of_length_le (by omega)]
  · omega
  · rw [if_neg (mt hahead.mp (by omega)), if_pos (hbehind.mpr (by omega))]

end MiniAgentOS.Fetch
