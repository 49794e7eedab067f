import MiniAgentOS.Net.Frame

/-! What a parsed packet depends on: the bytes that the device reported as received. Header fields are
read before the last length check, but a packet whose headers end behind the received bytes is refused
whatever they say. -/
namespace MiniAgentOS.Net
open Checked

section Agreement

variable {a b : Bytes} {n off : ℕ}

theorem index_congr (h : a.take n = b.take n) (hoff : off < n) : index a off = index b off := by
  have hcell : a[off]? = b[off]? := by
    rw [← List.getElem?_take_of_lt hoff, h, List.getElem?_take_of_lt hoff]
  unfold index
  rw [hcell]

theorem read16_congr (h : a.take n = b.take n) (hoff : off + 2 ≤ n) : read16 a off = read16 b off := by
  unfold read16
  rw [index_congr h (by omega), index_congr h (by omega)]

theorem read32_congr (h : a.take n = b.take n) (hoff : off + 4 ≤ n) : read32 a off = read32 b off := by
  unfold read32
  rw [read16_congr h (by omega), read16_congr h (by omega)]

theorem readIp_congr (h : a.take n = b.take n) (hoff : off + 4 ≤ n) : readIp a off = readIp b off := by
  unfold readIp
  rw [index_congr h (by omega), index_congr h (by omega), index_congr h (by omega),
    index_congr h (by omega)]

theorem udpFields_congr {udp ipPayloadLen : ℕ} {src : Ipv4} (h : a.take n = b.take n)
    (hudp : udp + 8 ≤ n) :
    udpFields a n udp ipPayloadLen src = udpFields b n udp ipPayloadLen src := by
  unfold udpFields
  rw [read16_congr h (by omega), read16_congr h (by omega), read16_congr h (by omega)]

theorem tcpFields_congr {tcp tcpLen : ℕ} {src : Ipv4} (h : a.take n = b.take n)
    (htcp : tcp + 20 ≤ n) : tcpFields a n tcp tcpLen src = tcpFields b n tcp tcpLen src := by
  unfold tcpFields
  rw [read16_congr h (by omega), read16_congr h (by omega), read32_congr h (by omega),
    read32_congr h (by omega), index_congr h (by omega), index_congr h (by omega)]

/-- Headers that end behind the received bytes are refused, wherever their bytes come from. -/
theorem udpFields_short {udp ipPayloadLen : ℕ} (src : Ipv4) (hread : udp + 8 ≤ a.length)
    (hshort : n < udp + 8) : udpFields a n udp ipPayloadLen src = .ok none := by
  obtain ⟨r, hr, hinfo⟩ : Returns (udpFields a n udp ipPayloadLen src) _ := udpFields_returns src hread
  cases r with
  | none => exact hr
  | some info =>
    have hend := hinfo info rfl
    omega

theorem tcpFields_short {tcp tcpLen : ℕ} (src : Ipv4) (hread : tcp + 14 ≤ a.length)
    (hshort : n < tcp + 20) : tcpFields a n tcp tcpLen src = .ok none := by
  obtain ⟨r, hr, hinfo⟩ : Returns (tcpFields a n tcp tcpLen src) _ := tcpFields_returns src hread
  cases r with
  | none => exact hr
  | some info =>
    have hend := hinfo info rfl
    omega

end Agreement

/-- The two buffers hold the same packet: they agree on the bytes that were received. -/
structure SamePacket (rx stale : RxBuffer) : Prop where
  valid : stale.valid = rx.valid
  curLen : stale.curLen = rx.curLen
  bytes : stale.bytes.take rx.curLen = rx.bytes.take rx.curLen

section Packet

variable {rx stale : RxBuffer} {rxLen : ℕ}

theorem currentRxBounds_congr (h : SamePacket rx stale) (minLen : ℕ) :
    currentRxBounds stale minLen = currentRxBounds rx minLen := by
  unfold currentRxBounds
  rw [h.valid, h.curLen]

theorem currentRxBounds_spec {minLen : ℕ} (h : currentRxBounds rx minLen = some rxLen) :
    minLen ≤ rxLen ∧ rxLen ≤ rx.curLen := by
  unfold currentRxBounds at h
  dsimp only at h
  split_ifs at h with hfits
  rw [Option.some.injEq] at h
  omega

theorem SamePacket.take (h : SamePacket rx stale) (hlen : rxLen ≤ rx.curLen) :
    stale.bytes.take rxLen = rx.bytes.take rxLen := by
  have htake := congrArg (List.take rxLen) h.bytes
  rwa [List.take_take, List.take_take, Nat.min_eq_left hlen] at htake

/-- The IP header lies within the first 44 bytes. -/
theorem parseRxIp_congr {proto : UInt8} {minLen : ℕ} (h : stale.bytes.take rxLen = rx.bytes.take rxLen)
    (hlen : virtioNetHdrLen + ethHdrLen + 20 ≤ rxLen) :
    parseRxIp stale proto minLen = parseRxIp rx proto minLen := by
  have hhdr : virtioNetHdrLen + ethHdrLen = 24 := rfl
  have hvirtio : virtioNetHdrLen = 10 := rfl
  unfold parseRxIp
  dsimp only
  rw [read16_congr h (by omega), index_congr h (by omega), read16_congr h (by omega),
    index_congr h (by omega), readIp_congr h (by omega)]

theorem parseRxUdpAny_congr (h : SamePacket rx stale) : parseRxUdpAny stale = parseRxUdpAny rx := by
  have hsize : rx.bytes.length = 8192 := rx.size
  have hstale : stale.bytes.length = 8192 := stale.size
  have hbounds := currentRxBounds_congr h (virtioNetHdrLen + ethHdrLen + 20)
  cases hrx : currentRxBounds rx (virtioNetHdrLen + ethHdrLen + 20) with
  | none => rw [parseRxUdpAny, parseRxUdpAny, hbounds, hrx]
  | some rxLen =>
    obtain ⟨hmin, hcur⟩ := currentRxBounds_spec hrx
    have hagree := h.take hcur
    rw [parseRxUdpAny_eq (hbounds.trans hrx), parseRxUdpAny_eq hrx, parseRxIp_congr hagree hmin]
    obtain ⟨r, hr, hstart⟩ : Returns (parseRxIp rx 17 8) _ := parseRxIp_returns (by decide)
    rw [hr, ok_bind, ok_bind]
    cases r with
    | none => rfl
    | some info =>
      have hudp : info.1 ≤ 84 := hstart info rfl
      by_cases hfits : info.1 + 8 ≤ rxLen
      · exact udpFields_congr hagree hfits
      · calc udpFields stale.bytes rxLen info.1 info.2.1 info.2.2 = .ok none :=
              udpFields_short _ (by omega) (by omega)
          _ = udpFields rx.bytes rxLen info.1 info.2.1 info.2.2 :=
              (udpFields_short _ (by omega) (by omega)).symm

theorem parseRxTcp_congr (h : SamePacket rx stale) : parseRxTcp stale = parseRxTcp rx := by
  have hsize : rx.bytes.length = 8192 := rx.size
  have hstale : stale.bytes.length = 8192 := stale.size
  have hbounds := currentRxBounds_congr h (virtioNetHdrLen + ethHdrLen + 20)
  cases hrx : currentRxBounds rx (virtioNetHdrLen + ethHdrLen + 20) with
  | none => rw [parseRxTcp, parseRxTcp, hbounds, hrx]
  | some rxLen =>
    obtain ⟨hmin, hcur⟩ := currentRxBounds_spec hrx
    have hagree := h.take hcur
    rw [parseRxTcp_eq (hbounds.trans hrx), parseRxTcp_eq hrx, parseRxIp_congr hagree hmin]
    obtain ⟨r, hr, hstart⟩ : Returns (parseRxIp rx 6 20) _ := parseRxIp_returns (by decide)
    rw [hr, ok_bind, ok_bind]
    cases r with
    | none => rfl
    | some info =>
      have htcp : info.1 ≤ 84 := hstart info rfl
      by_cases hfits : info.1 + 20 ≤ rxLen
      · exact tcpFields_congr hagree hfits
      · calc tcpFields stale.bytes rxLen info.1 info.2.1 info.2.2 = .ok none :=
              tcpFields_short _ (by omega) (by omega)
          _ = tcpFields rx.bytes rxLen info.1 info.2.1 info.2.2 :=
              (tcpFields_short _ (by omega) (by omega)).symm

/-- An accepted payload lies within the received bytes. -/
theorem parseRxUdpAny_inside {info : UdpInfo} (h : parseRxUdpAny rx = .ok (some info)) :
    info.payloadAddr + info.payloadLen ≤ rx.curLen := by
  have hsize : rx.bytes.length = 8192 := rx.size
  cases hrx : currentRxBounds rx (virtioNetHdrLen + ethHdrLen + 20) with
  | none =>
    rw [parseRxUdpAny, hrx] at h
    cases h
  | some rxLen =>
    obtain ⟨-, hcur⟩ := currentRxBounds_spec hrx
    rw [parseRxUdpAny_eq hrx] at h
    obtain ⟨r, hr, hstart⟩ : Returns (parseRxIp rx 17 8) _ := parseRxIp_returns (by decide)
    rw [hr, ok_bind] at h
    cases r with
    | none => cases h
    | some ip =>
      have hudp : ip.1 ≤ 84 := hstart ip rfl
      have hend := ((udpFields_returns ip.2.2 (by omega)).of_eq h info rfl).2
      omega

theorem parseRxTcp_inside {info : TcpInfo} (h : parseRxTcp rx = .ok (some info)) :
    info.payloadAddr + info.payloadLen ≤ rx.curLen := by
  have hsize : rx.bytes.length = 8192 := rx.size
  cases hrx : currentRxBounds rx (virtioNetHdrLen + ethHdrLen + 20) with
  | none =>
    rw [parseRxTcp, hrx] at h
    cases h
  | some rxLen =>
    obtain ⟨-, hcur⟩ := currentRxBounds_spec hrx
    rw [parseRxTcp_eq hrx] at h
    obtain ⟨r, hr, hstart⟩ : Returns (parseRxIp rx 6 20) _ := parseRxIp_returns (by decide)
    rw [hr, ok_bind] at h
    cases r with
    | none => cases h
    | some ip =>
      have htcp : ip.1 ≤ 84 := hstart ip rfl
      have hend := ((tcpFields_returns ip.2.2 (by omega)).of_eq h info rfl).2
      omega

end Packet

/-- What is parsed does not depend on the bytes behind the received ones, and the payloads that are
accepted lie within the received bytes. -/
theorem parse_ignores_stale (rx stale : RxBuffer) (h : SamePacket rx stale) :
    (parseRxTcp stale = parseRxTcp rx ∧ parseRxUdpAny stale = parseRxUdpAny rx) ∧
      (∀ info, parseRxTcp rx = .ok (some info) → info.payloadAddr + info.payloadLen ≤ rx.curLen) ∧
      ∀ info, parseRxUdpAny rx = .ok (some info) →
        info.payloadAddr + info.payloadLen ≤ rx.curLen :=
  ⟨⟨parseRxTcp_congr h, parseRxUdpAny_congr h⟩, fun _ => parseRxTcp_inside,
    fun _ => parseRxUdpAny_inside⟩

/-- A UDP datagram with two bytes of payload. -/
def datagram : Bytes :=
  List.replicate 22 0 ++ [0x08, 0x00, 0x45, 0, 0, 30, 0, 0, 0, 0, 64, 17, 0, 0, 10, 0, 2, 2,
    10, 0, 2, 15, 0, 53, 0x1f, 0x90, 0, 10, 0, 0, 7, 7]

/-- That datagram, before bytes that an earlier packet left. -/
def datagramBuffer (stale : UInt8) : RxBuffer where
  bytes := datagram ++ List.replicate (rxBufLen - 54) stale
  curLen := 54
  valid := true
  size := by
    rw [List.length_append, List.length_replicate]
    rfl

theorem datagramBuffer_received (stale : UInt8) : (datagramBuffer stale).bytes.take 54 = datagram :=
  List.take_left' rfl

theorem parse_datagram_ignores_stale :
    (parseRxTcp (datagramBuffer 9) = parseRxTcp (datagramBuffer 0) ∧
      parseRxUdpAny (datagramBuffer 9) = parseRxUdpAny (datagramBuffer 0)) ∧
    (∀ info, parseRxTcp (datagramBuffer 0) = .ok (some info) →
      info.payloadAddr + info.payloadLen ≤ 54) ∧
    ∀ info, parseRxUdpAny (datagramBuffer 0) = .ok (some info) →
      info.payloadAddr + info.payloadLen ≤ 54 :=
  parse_ignores_stale (datagramBuffer 0) (datagramBuffer 9)
    ⟨rfl, rfl, (datagramBuffer_received 9).trans (datagramBuffer_received 0).symm⟩

example : parseRxUdpAny (datagramBuffer 0) = .ok (some ⟨⟨10, 0, 2, 2⟩, 53, 8080, 52, 2⟩) := by
  decide +kernel

end MiniAgentOS.Net
