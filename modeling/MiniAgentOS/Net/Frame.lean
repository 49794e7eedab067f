import MiniAgentOS.Net.RxRing
import MiniAgentOS.Text.Ascii

/-! Parsing a received frame: UDP datagrams and TCP segments. Addresses are offsets into the
receive buffer, whose bytes are read without a check; the model checks them. -/
namespace MiniAgentOS.Net
open Checked

def virtioNetHdrLen : ℕ := 10

def ethHdrLen : ℕ := 14

/-- The current receive buffer: `valid` when `RX_CUR_VALID` is set and the pointer is one of the
buffers in the heap, with the length that the device reported. -/
structure RxBuffer where
  bytes : Bytes
  curLen : ℕ
  valid : Bool
  size : bytes.length = rxBufLen

structure Ipv4 where
  a : UInt8
  b : UInt8
  c : UInt8
  d : UInt8
  deriving DecidableEq, Repr

structure UdpInfo where
  srcIp : Ipv4
  srcPort : ℕ
  dstPort : ℕ
  payloadAddr : ℕ
  payloadLen : ℕ
  deriving DecidableEq, Repr

structure TcpInfo where
  srcIp : Ipv4
  srcPort : ℕ
  dstPort : ℕ
  seq : UInt32
  ack : UInt32
  flags : UInt8
  payloadAddr : ℕ
  payloadLen : ℕ
  deriving DecidableEq, Repr

def currentRxBounds (rx : RxBuffer) (minLen : ℕ) : Option ℕ :=
  let rxLen := min rx.curLen rxBufLen
  if rx.valid ∧ minLen ≤ rxLen then some rxLen else none

def read16 (buf : Bytes) (off : ℕ) : Checked ℕ := do
  let hi ← index buf off
  let lo ← index buf (off + 1)
  pure (hi.toNat * 256 + lo.toNat)

def read32 (buf : Bytes) (off : ℕ) : Checked UInt32 := do
  let hi ← read16 buf off
  let lo ← read16 buf (off + 2)
  pure (UInt32.ofNat (hi * 65536 + lo))

def readIp (buf : Bytes) (off : ℕ) : Checked Ipv4 := do
  let a ← index buf off
  let b ← index buf (off + 1)
  let c ← index buf (off + 2)
  let d ← index buf (off + 3)
  pure ⟨a, b, c, d⟩

/-- The upper and the lower nibble of a byte. -/
def nibbles (b : UInt8) : ℕ × ℕ := (b.toNat / 16, b.toNat % 16)

/-- The header of the IPv4 packet of a frame: the start of its payload, the length of that payload
and the source. `proto` is the protocol wanted and `minLen` the least length of its header. -/
def parseRxIp (rx : RxBuffer) (proto : UInt8) (minLen : ℕ) : Checked (Option (ℕ × ℕ × Ipv4)) := do
  let ethType ← read16 rx.bytes (virtioNetHdrLen + 12)
  if ethType ≠ 0x0800 then return none
  let ip := virtioNetHdrLen + ethHdrLen
  let verIhl ← index rx.bytes ip
  let (ver, words) := nibbles verIhl
  if ver ≠ 4 then return none
  let ihl := words * 4
  if ihl < 20 then return none
  let ipTotalLen ← read16 rx.bytes (ip + 2)
  let maxIpLen := rxBufLen - (virtioNetHdrLen + ethHdrLen)
  let least ← add (2 ^ 16) ihl minLen
  if ipTotalLen < least ∨ ipTotalLen > maxIpLen then return none
  let p ← index rx.bytes (ip + 9)
  if p ≠ proto then return none
  let src ← readIp rx.bytes (ip + 12)
  let payloadLen ← sub ipTotalLen ihl
  return some (ip + ihl, payloadLen, src)

def parseRxUdpAny (rx : RxBuffer) : Checked (Option UdpInfo) := do
  match currentRxBounds rx (virtioNetHdrLen + ethHdrLen + 20) with
  | none => return none
  | some rxLen =>
    match ← parseRxIp rx 17 8 with
    | none => return none
    | some (udp, ipPayloadLen, src) =>
      let srcPort ← read16 rx.bytes udp
      let dstPort ← read16 rx.bytes (udp + 2)
      let udpLen ← read16 rx.bytes (udp + 4)
      if udpLen < 8 ∨ udpLen > ipPayloadLen then return none
      let payloadLen ← sub udpLen 8
      let payloadAddr := udp + 8
      if payloadAddr + payloadLen > rxLen then return none
      return some ⟨src, srcPort, dstPort, payloadAddr, payloadLen⟩

def parseRxTcp (rx : RxBuffer) : Checked (Option TcpInfo) := do
  match currentRxBounds rx (virtioNetHdrLen + ethHdrLen + 20) with
  | none => return none
  | some rxLen =>
    match ← parseRxIp rx 6 20 with
    | none => return none
    | some (tcp, tcpLen, src) =>
      let srcPort ← read16 rx.bytes tcp
      let dstPort ← read16 rx.bytes (tcp + 2)
      let seq ← read32 rx.bytes (tcp + 4)
      let ack ← read32 rx.bytes (tcp + 8)
      let off ← index rx.bytes (tcp + 12)
      let dataOff := (nibbles off).1 * 4
      if dataOff < 20 then return none
      let flags ← index rx.bytes (tcp + 13)
      if tcpLen < dataOff then return none
      let payloadLen ← sub tcpLen dataOff
      let payloadAddr := tcp + dataOff
      if payloadAddr + payloadLen > rxLen then return none
      return some ⟨src, srcPort, dstPort, seq, ack, flags, payloadAddr, payloadLen⟩

section Safety

variable {buf : Bytes} {off : ℕ}

theorem read16_returns (h : off + 2 ≤ buf.length) :
    Returns (read16 buf off) fun n => n < 2 ^ 16 := by
  apply Returns.bind (index_returns (by omega))
  intro hi _
  apply Returns.bind (index_returns (by omega))
  intro lo _
  have hhi := hi.toNat_lt
  have hlo := lo.toNat_lt
  exact Returns.pure (by omega)

theorem read32_returns (h : off + 4 ≤ buf.length) : Returns (read32 buf off) fun _ => True := by
  apply Returns.bind (read16_returns (by omega))
  intro hi _
  apply Returns.bind (read16_returns (by omega))
  intro lo _
  exact Returns.pure trivial

theorem readIp_returns (h : off + 4 ≤ buf.length) : Returns (readIp buf off) fun _ => True := by
  apply Returns.bind (index_returns (by omega))
  intro a _
  apply Returns.bind (index_returns (by omega))
  intro b _
  apply Returns.bind (index_returns (by omega))
  intro c _
  apply Returns.bind (index_returns (by omega))
  intro d _
  exact Returns.pure trivial

theorem nibbles_lt (b : UInt8) : (nibbles b).1 < 16 ∧ (nibbles b).2 < 16 := by
  have hb := b.toNat_lt
  unfold nibbles
  omega

variable {rx : RxBuffer}

theorem currentRxBounds_le {minLen rxLen : ℕ} (h : currentRxBounds rx minLen = some rxLen) :
    rxLen ≤ rxBufLen := by
  unfold currentRxBounds at h
  dsimp only at h
  split_ifs at h
  rw [Option.some.injEq] at h
  omega

/-- The payload of the packet starts within the first bytes of the buffer. -/
theorem parseRxIp_returns {proto : UInt8} {minLen : ℕ} (hmin : minLen ≤ 20) :
    Returns (parseRxIp rx proto minLen) fun r => ∀ info, r = some info → info.1 ≤ 84 := by
  have hsize : rx.bytes.length = 8192 := rx.size
  have hnone : ∀ info : ℕ × ℕ × Ipv4, none = some info → info.1 ≤ 84 := by simp
  have hhdr : virtioNetHdrLen + ethHdrLen = 24 := rfl
  apply Returns.bind (read16_returns (by rw [hsize]; decide))
  intro ethType _
  apply Returns.ite
  · exact fun _ => Returns.pure hnone
  intro _
  apply Returns.bind (index_returns (by rw [hsize]; decide))
  intro verIhl _
  have hwords := (nibbles_lt verIhl).2
  apply Returns.ite
  · exact fun _ => Returns.pure hnone
  intro _
  apply Returns.ite
  · exact fun _ => Returns.pure hnone
  intro hihl
  apply Returns.bind (read16_returns (by omega))
  intro ipTotalLen _
  apply Returns.bind (returns_add.mpr ⟨by omega, rfl⟩)
  rintro least rfl
  apply Returns.ite
  · exact fun _ => Returns.pure hnone
  intro hlen
  apply Returns.bind (index_returns (by omega))
  intro p _
  apply Returns.ite
  · exact fun _ => Returns.pure hnone
  intro _
  apply Returns.bind (readIp_returns (by omega))
  intro src _
  apply Returns.bind (returns_sub.mpr ⟨by omega, rfl⟩)
  rintro payloadLen rfl
  apply Returns.pure
  rintro info ⟨⟩
  dsimp only
  omega

/-- The UDP header and what lies behind it, once the IP header is read. -/
def udpFields (buf : Bytes) (rxLen udp ipPayloadLen : ℕ) (src : Ipv4) :
    Checked (Option UdpInfo) := do
  let srcPort ← read16 buf udp
  let dstPort ← read16 buf (udp + 2)
  let udpLen ← read16 buf (udp + 4)
  if udpLen < 8 ∨ udpLen > ipPayloadLen then return none
  let payloadLen ← sub udpLen 8
  let payloadAddr := udp + 8
  if payloadAddr + payloadLen > rxLen then return none
  return some ⟨src, srcPort, dstPort, payloadAddr, payloadLen⟩

/-- The TCP header and what lies behind it, once the IP header is read. -/
def tcpFields (buf : Bytes) (rxLen tcp tcpLen : ℕ) (src : Ipv4) : Checked (Option TcpInfo) := do
  let srcPort ← read16 buf tcp
  let dstPort ← read16 buf (tcp + 2)
  let seq ← read32 buf (tcp + 4)
  let ack ← read32 buf (tcp + 8)
  let off ← index buf (tcp + 12)
  let dataOff := (nibbles off).1 * 4
  if dataOff < 20 then return none
  let flags ← index buf (tcp + 13)
  if tcpLen < dataOff then return none
  let payloadLen ← sub tcpLen dataOff
  let payloadAddr := tcp + dataOff
  if payloadAddr + payloadLen > rxLen then return none
  return some ⟨src, srcPort, dstPort, seq, ack, flags, payloadAddr, payloadLen⟩

theorem parseRxUdpAny_eq {rxLen : ℕ}
    (h : currentRxBounds rx (virtioNetHdrLen + ethHdrLen + 20) = some rxLen) :
    parseRxUdpAny rx = parseRxIp rx 17 8 >>= fun
      | none => .ok none
      | some (udp, ipPayloadLen, src) => udpFields rx.bytes rxLen udp ipPayloadLen src := by
  rw [parseRxUdpAny, h]
  rfl

theorem parseRxTcp_eq {rxLen : ℕ}
    (h : currentRxBounds rx (virtioNetHdrLen + ethHdrLen + 20) = some rxLen) :
    parseRxTcp rx = parseRxIp rx 6 20 >>= fun
      | none => .ok none
      | some (tcp, tcpLen, src) => tcpFields rx.bytes rxLen tcp tcpLen src := by
  rw [parseRxTcp, h]
  rfl

/-- An accepted payload lies behind its header and within the received bytes. -/
theorem udpFields_returns {rxLen udp ipPayloadLen : ℕ} (src : Ipv4) (h : udp + 8 ≤ buf.length) :
    Returns (udpFields buf rxLen udp ipPayloadLen src) fun r => ∀ info, r = some info →
      udp + 8 ≤ info.payloadAddr ∧ info.payloadAddr + info.payloadLen ≤ rxLen := by
  have hnone : ∀ info : UdpInfo, none = some info →
      udp + 8 ≤ info.payloadAddr ∧ info.payloadAddr + info.payloadLen ≤ rxLen := by simp
  apply Returns.bind (read16_returns (by omega))
  intro srcPort _
  apply Returns.bind (read16_returns (by omega))
  intro dstPort _
  apply Returns.bind (read16_returns (by omega))
  intro udpLen _
  apply Returns.ite
  · exact fun _ => Returns.pure hnone
  intro hrange
  apply Returns.bind (returns_sub.mpr ⟨by omega, rfl⟩)
  rintro payloadLen rfl
  apply Returns.ite
  · exact fun _ => Returns.pure hnone
  intro hend
  apply Returns.pure
  rintro info ⟨⟩
  dsimp only
  omega

theorem tcpFields_returns {rxLen tcp tcpLen : ℕ} (src : Ipv4) (h : tcp + 14 ≤ buf.length) :
    Returns (tcpFields buf rxLen tcp tcpLen src) fun r => ∀ info, r = some info →
      tcp + 20 ≤ info.payloadAddr ∧ info.payloadAddr + info.payloadLen ≤ rxLen := by
  have hnone : ∀ info : TcpInfo, none = some info →
      tcp + 20 ≤ info.payloadAddr ∧ info.payloadAddr + info.payloadLen ≤ rxLen := by simp
  apply Returns.bind (read16_returns (by omega))
  intro srcPort _
  apply Returns.bind (read16_returns (by omega))
  intro dstPort _
  apply Returns.bind (read32_returns (by omega))
  intro seq _
  apply Returns.bind (read32_returns (by omega))
  intro ack _
  apply Returns.bind (index_returns (by omega))
  intro off _
  apply Returns.ite
  · exact fun _ => Returns.pure hnone
  intro hoff
  apply Returns.bind (index_returns (by omega))
  intro flags _
  apply Returns.ite
  · exact fun _ => Returns.pure hnone
  intro hfits
  apply Returns.bind (returns_sub.mpr ⟨by omega, rfl⟩)
  rintro payloadLen rfl
  apply Returns.ite
  · exact fun _ => Returns.pure hnone
  intro hend
  apply Returns.pure
  rintro info ⟨⟩
  dsimp only
  omega

theorem parseRxUdpAny_returns (rx : RxBuffer) : Returns (parseRxUdpAny rx) fun r =>
    ∀ info, r = some info → info.payloadAddr + info.payloadLen ≤ rx.bytes.length := by
  have hsize : rx.bytes.length = 8192 := rx.size
  have hnone : ∀ info : UdpInfo, none = some info →
      info.payloadAddr + info.payloadLen ≤ rx.bytes.length := by simp
  cases hrx : currentRxBounds rx (virtioNetHdrLen + ethHdrLen + 20) with
  | none =>
    rw [parseRxUdpAny, hrx]
    exact Returns.pure hnone
  | some rxLen =>
    have hlen : rxLen ≤ 8192 := currentRxBounds_le hrx
    rw [parseRxUdpAny_eq hrx]
    apply Returns.bind (parseRxIp_returns (by decide))
    intro r hr
    cases r with
    | none => exact Returns.pure hnone
    | some info =>
      have hudp : info.1 ≤ 84 := hr _ rfl
      apply (udpFields_returns info.2.2 (by omega)).mono
      intro r h info hinfo
      have hend := (h info hinfo).2
      omega

theorem parseRxTcp_returns (rx : RxBuffer) : Returns (parseRxTcp rx) fun r =>
    ∀ info, r = some info → info.payloadAddr + info.payloadLen ≤ rx.bytes.length := by
  have hsize : rx.bytes.length = 8192 := rx.size
  have hnone : ∀ info : TcpInfo, none = some info →
      info.payloadAddr + info.payloadLen ≤ rx.bytes.length := by simp
  cases hrx : currentRxBounds rx (virtioNetHdrLen + ethHdrLen + 20) with
  | none =>
    rw [parseRxTcp, hrx]
    exact Returns.pure hnone
  | some rxLen =>
    have hlen : rxLen ≤ 8192 := currentRxBounds_le hrx
    rw [parseRxTcp_eq hrx]
    apply Returns.bind (parseRxIp_returns (by decide))
    intro r hr
    cases r with
    | none => exact Returns.pure hnone
    | some info =>
      have htcp : info.1 ≤ 84 := hr _ rfl
      apply (tcpFields_returns info.2.2 (by omega)).mono
      intro r h info hinfo
      have hend := (h info hinfo).2
      omega

end Safety

end MiniAgentOS.Net
