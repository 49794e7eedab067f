import MiniAgentOS.Net.Segment

/-! A datagram between two kernels: the frame that `send_udp` leaves in `TX_BUF`, and what the two parsers of datagrams
read from it. -/
namespace MiniAgentOS.Net
open Checked Fetch

section Parsers

/-- The address of the host, from which `parse_rx_udp` takes no datagram. -/
def gatewayIp : Ipv4 := ⟨10, 0, 2, 2⟩

def parseRxUdp (rx : RxBuffer) : Checked (Option UdpInfo) := do
  match currentRxBounds rx (virtioNetHdrLen + ethHdrLen + 20) with
  | none => return none
  | some rxLen =>
    match ← parseRxIp rx 17 8 with
    | none => return none
    | some (udp, ipPayloadLen, src) =>
      if src = gatewayIp then return none
      udpFields rx.bytes rxLen udp ipPayloadLen src

variable {rx : RxBuffer}

theorem parseRxUdp_eq {rxLen : ℕ} (h : currentRxBounds rx (virtioNetHdrLen + ethHdrLen + 20) = some rxLen) :
    parseRxUdp rx = parseRxIp rx 17 8 >>= fun
      | none => .ok none
      | some (udp, ipPayloadLen, src) =>
        if src = gatewayIp then .ok none else udpFields rx.bytes rxLen udp ipPayloadLen src := by
  rw [parseRxUdp, h]
  rfl

end Parsers

section Layout

/-- The headers before an IPv4 payload of `len` bytes. -/
def ipFront (srcMac : Mac) (srcIp : Ipv4) (dstMac : Mac) (dstIp : Ipv4) (proto : UInt8) (len : ℕ) : Bytes :=
  List.replicate virtioNetHdrLen 0 ++ ethHeader dstMac srcMac 0x0800 ++
    (ipHeader (20 + len) proto ++
      be16 (checksum16Be (ipHeader (20 + len) proto ++ [0, 0] ++ ipAddresses srcIp dstIp)) ++
      ipAddresses srcIp dstIp)

def udpHeader (srcPort dstPort : UInt16) (udpLen : ℕ) : Bytes :=
  be16 srcPort ++ be16 dstPort ++ be16 (UInt16.ofNat udpLen) ++ be16 0

theorem length_ipFront (srcMac : Mac) (srcIp : Ipv4) (dstMac : Mac) (dstIp : Ipv4) (proto : UInt8) (len : ℕ) :
    (ipFront srcMac srcIp dstMac dstIp proto len).length = packetOff + 20 := rfl

theorem length_udpHeader (srcPort dstPort : UInt16) (udpLen : ℕ) : (udpHeader srcPort dstPort udpLen).length = 8 := rfl

/-- What `send_udp` leaves in `TX_BUF`. -/
theorem stored_sendUdp (buf : TxBuffer) (srcMac : Mac) (srcIp : Ipv4) (srcPort : UInt16) (dstMac : Mac) (dstIp : Ipv4)
    (dstPort : UInt16) (payload : Bytes) (hlen : packetOff + (20 + (8 + payload.length)) ≤ txBufLen) :
    stored buf.bytes (sendUdp buf.bytes srcMac srcIp srcPort dstMac dstIp dstPort payload) =
      ipFront srcMac srcIp dstMac dstIp 17 (8 + payload.length) ++
        (udpHeader srcPort dstPort (8 + payload.length) ++ payload) ++
        buf.bytes.drop (packetOff + (20 + (8 + payload.length))) := by
  have hwrites : sendUdp buf.bytes srcMac srcIp srcPort dstMac dstIp dstPort payload =
      ipFrame buf.bytes dstMac srcMac (20 + (8 + payload.length)) 17 srcIp dstIp ++
        copyTo (packetOff + 20) (udpHeader srcPort dstPort (8 + payload.length) ++ payload) := by
    simp only [sendUdp, udpHeader, copyTo_append, writeBe16, List.append_assoc]
    rfl
  have hzeros : 20 + (8 + payload.length) - 20 = 8 + payload.length := by omega
  rw [hwrites, stored_append, stored_ipFrame buf _ _ _ _ _ (by omega) hlen, hzeros, ← List.append_assoc]
  refine stored_copyTo (length_ipFront srcMac srcIp dstMac dstIp 17 _) ?_
  rw [List.length_replicate, List.length_append, length_udpHeader]

end Layout

section Reading

variable {rx : RxBuffer} {rest : Bytes}

/-- The headers before a payload are read as they were written. -/
theorem parseRxIp_ipFront (srcMac : Mac) (srcIp : Ipv4) (dstMac : Mac) (dstIp : Ipv4) (proto : UInt8) {len minLen : ℕ}
    (hbytes : rx.bytes = ipFront srcMac srcIp dstMac dstIp proto len ++ rest) (hmin : minLen ≤ len)
    (hleast : minLen < 2 ^ 15) (hmax : packetOff + (20 + len) ≤ rxBufLen) :
    parseRxIp rx proto minLen = .ok (some (packetOff + 20, len, srcIp)) := by
  have hsize : rxBufLen = 8192 := rfl
  have hpacket : virtioNetHdrLen + ethHdrLen = 24 := rfl
  have hoff : packetOff = 24 := rfl
  have htype : read16 rx.bytes (virtioNetHdrLen + 12) = .ok 0x0800 := by
    rw [hbytes]
    rfl
  have hver : index rx.bytes (virtioNetHdrLen + ethHdrLen) = .ok 0x45 := by
    rw [hbytes]
    rfl
  have htotal : read16 rx.bytes (virtioNetHdrLen + ethHdrLen + 2) = .ok (20 + len) := by
    have hvalue : (UInt16.ofNat (20 + len)).toNat = 20 + len := by
      rw [UInt16.toNat_ofNat']
      omega
    rw [← hvalue, ← be16_word (UInt16.ofNat (20 + len)), hbytes]
    rfl
  have hproto : index rx.bytes (virtioNetHdrLen + ethHdrLen + 9) = .ok proto := by
    rw [hbytes]
    rfl
  have hsrc : readIp rx.bytes (virtioNetHdrLen + ethHdrLen + 12) = .ok srcIp := by
    rw [hbytes]
    rfl
  have hnibbles : nibbles 0x45 = (4, 5) := rfl
  have hadd : add (2 ^ 16) (5 * 4) minLen = .ok (20 + minLen) := if_pos (by omega)
  have hrange : ¬ (20 + len < 20 + minLen ∨ 20 + len > rxBufLen - (virtioNetHdrLen + ethHdrLen)) := by omega
  have hpayload : sub (20 + len) (5 * 4) = .ok len := by
    rw [sub, if_pos (by omega)]
    congr 1
    omega
  unfold parseRxIp
  dsimp only
  simp only [htype, hver, htotal, hproto, hsrc, hnibbles, hadd, hpayload, ok_bind, hrange, if_false, ne_eq,
    not_true_eq_false]
  rfl

theorem udpFields_datagram (srcMac : Mac) (srcIp : Ipv4) (srcPort : UInt16) (dstMac : Mac) (dstIp : Ipv4)
    (dstPort : UInt16) (payload : Bytes) (hlen : 8 + payload.length < 2 ^ 16) {buf : Bytes}
    (hbuf : buf = ipFront srcMac srcIp dstMac dstIp 17 (8 + payload.length) ++
      (udpHeader srcPort dstPort (8 + payload.length) ++ payload) ++ rest) :
    udpFields buf (packetOff + (20 + (8 + payload.length))) (packetOff + 20) (8 + payload.length) srcIp =
      .ok (some ⟨srcIp, srcPort.toNat, dstPort.toNat, packetOff + 20 + 8, payload.length⟩) := by
  have hsrc : read16 buf (packetOff + 20) = .ok srcPort.toNat := by
    rw [← be16_word srcPort, hbuf]
    rfl
  have hdst : read16 buf (packetOff + 20 + 2) = .ok dstPort.toNat := by
    rw [← be16_word dstPort, hbuf]
    rfl
  have hudp : read16 buf (packetOff + 20 + 4) = .ok (8 + payload.length) := by
    have hvalue : (UInt16.ofNat (8 + payload.length)).toNat = 8 + payload.length := by
      rw [UInt16.toNat_ofNat', Nat.mod_eq_of_lt hlen]
    rw [← hvalue, ← be16_word (UInt16.ofNat (8 + payload.length)), hbuf]
    rfl
  have hpayload : sub (8 + payload.length) 8 = .ok payload.length := by
    rw [sub, if_pos (by omega)]
    congr 1
    omega
  have hrange : ¬ (8 + payload.length < 8 ∨ 8 + payload.length > 8 + payload.length) := by omega
  have hend : ¬ packetOff + 20 + 8 + payload.length > packetOff + (20 + (8 + payload.length)) := by omega
  unfold udpFields
  simp only [hsrc, hdst, hudp, hpayload, ok_bind, hrange, hend, if_false]
  rfl

/-- A datagram that fits into `TX_BUF` is sent, its IPv4 header verifies, and a receiver reads its addresses and its
payload; only the parser that keeps out the host refuses it where the host is its source. One that does not fit is not
sent. -/
theorem udp_datagram_round_trip (buf : TxBuffer) (srcMac : Mac) (srcIp : Ipv4) (srcPort : UInt16) (dstMac : Mac)
    (dstIp : Ipv4) (dstPort : UInt16) (payload : Bytes) :
    let packet := Packet.udp srcMac srcIp srcPort dstMac dstIp dstPort payload
    let frame := sentFrame buf packet
    (packet.tooLarge = true ↔ txBufLen - 52 < payload.length) ∧
      (packet.tooLarge = false → Verifies (bytesAt frame packetOff 20) ∧
        ∀ rx, Delivered frame packet.totalLen rx → ∃ info, parseRxUdpAny rx = .ok (some info) ∧ info.srcIp = srcIp ∧
          info.srcPort = srcPort.toNat ∧ info.dstPort = dstPort.toNat ∧
          bytesAt rx.bytes info.payloadAddr info.payloadLen = payload ∧
          parseRxUdp rx = .ok (if srcIp = gatewayIp then none else some info)) := by
  intro packet frame
  have hrxLen : rxBufLen = 8192 := rfl
  have htxLen : txBufLen = 8192 := rfl
  have hoff : packetOff = 24 := rfl
  have htotal : packet.totalLen = packetOff + (20 + (8 + payload.length)) := rfl
  have hlarge : packet.tooLarge = true ↔ packet.totalLen > txBufLen := decide_eq_true_iff
  refine ⟨by rw [hlarge]; omega, fun hfits => ?_⟩
  have hlen : packetOff + (20 + (8 + payload.length)) ≤ txBufLen := by
    by_contra hover
    have htrue := hlarge.mpr (by omega)
    rw [hfits] at htrue
    cases htrue
  have hframe : frame = ipFront srcMac srcIp dstMac dstIp 17 (8 + payload.length) ++
      (udpHeader srcPort dstPort (8 + payload.length) ++ payload) ++
      buf.bytes.drop (packetOff + (20 + (8 + payload.length))) :=
    stored_sendUdp buf srcMac srcIp srcPort dstMac dstIp dstPort payload hlen
  have hfrontLen := length_ipFront srcMac srcIp dstMac dstIp 17 (8 + payload.length)
  have hudpLen : (udpHeader srcPort dstPort (8 + payload.length) ++ payload).length = 8 + payload.length := by
    rw [List.length_append, length_udpHeader]
  constructor
  · have hverify : Verifies (ipHeader (20 + (8 + payload.length)) 17 ++
        be16 (checksum16Be (ipHeader (20 + (8 + payload.length)) 17 ++ [0, 0] ++ ipAddresses srcIp dstIp)) ++
        ipAddresses srcIp dstIp) :=
      verifies_checksum16Be ⟨5, rfl⟩ (by
        change 20 < 2 ^ 16
        norm_num)
    rw [hframe]
    exact hverify
  · intro rx hrx
    have hbytes : rx.bytes = ipFront srcMac srcIp dstMac dstIp 17 (8 + payload.length) ++
        (udpHeader srcPort dstPort (8 + payload.length) ++ payload) ++ rx.bytes.drop packet.totalLen := by
      have htake := hrx.bytes
      rw [hframe, List.take_left' (by rw [List.length_append, hfrontLen, hudpLen, htotal, Nat.add_assoc])] at htake
      rw [← htake, List.take_append_drop]
    have hbounds : currentRxBounds rx (virtioNetHdrLen + ethHdrLen + 20) =
        some (packetOff + (20 + (8 + payload.length))) := by
      have hmin : min rx.curLen rxBufLen = packetOff + (20 + (8 + payload.length)) := by
        rw [hrx.curLen, htotal]
        omega
      rw [currentRxBounds, hmin]
      exact if_pos ⟨hrx.valid, by change 44 ≤ _; omega⟩
    have hip : parseRxIp rx 17 8 = .ok (some (packetOff + 20, 8 + payload.length, srcIp)) :=
      parseRxIp_ipFront srcMac srcIp dstMac dstIp 17 (hbytes.trans (List.append_assoc _ _ _)) (by omega) (by decide)
        (by omega)
    have hfields := udpFields_datagram srcMac srcIp srcPort dstMac dstIp dstPort payload (by omega) hbytes
    refine ⟨⟨srcIp, srcPort.toNat, dstPort.toNat, packetOff + 20 + 8, payload.length⟩, ?_, rfl, rfl, rfl, ?_, ?_⟩
    · rw [parseRxUdpAny_eq hbounds, hip, ok_bind]
      exact hfields
    · change bytesAt rx.bytes (packetOff + 20 + 8) payload.length = payload
      have hsplit : rx.bytes = (ipFront srcMac srcIp dstMac dstIp 17 (8 + payload.length) ++
          udpHeader srcPort dstPort (8 + payload.length)) ++ (payload ++ rx.bytes.drop packet.totalLen) :=
        hbytes.trans (by simp only [List.append_assoc])
      rw [hsplit, bytesAt, List.drop_left' (by rw [List.length_append, hfrontLen, length_udpHeader]),
        List.take_left' rfl]
    · rw [parseRxUdp_eq hbounds, hip, ok_bind]
      dsimp only
      split_ifs
      · rfl
      · exact hfields

end Reading

end MiniAgentOS.Net
