import MiniAgentOS.Fetch.State
import MiniAgentOS.Net.Transmit

/-! A TCP segment between two kernels: the layout of the frame that `send_tcp` leaves in `TX_BUF`, its
checksums, and what `parse_rx_tcp` reads from it. -/
namespace MiniAgentOS.Net
open Checked Fetch

def ethHeader (dstMac srcMac : Mac) (ethType : UInt16) : Bytes :=
  dstMac.bytes ++ srcMac.bytes ++ be16 ethType

/-- The IPv4 header up to its checksum. -/
def ipHeader (ipLen : ℕ) (proto : UInt8) : Bytes :=
  [0x45, 0] ++ be16 (UInt16.ofNat ipLen) ++ be16 0 ++ be16 0 ++ [64, proto]

def ipAddresses (srcIp dstIp : Ipv4) : Bytes := srcIp.bytes ++ dstIp.bytes

/-- The TCP header up to its checksum. -/
def tcpHeader (srcPort dstPort : UInt16) (seq ack : UInt32) (flags : UInt8) : Bytes :=
  be16 srcPort ++ be16 dstPort ++ be32 seq ++ be32 ack ++ [0x50, flags] ++ be16 16384

section Layout

theorem writeEth_eq (dstMac srcMac : Mac) (ethType : UInt16) :
    writeEth dstMac srcMac ethType = copyTo virtioNetHdrLen (ethHeader dstMac srcMac ethType) := by
  unfold ethHeader
  rw [copyTo_append, copyTo_append]
  rfl

theorem writeIp_eq (ipLen : ℕ) (proto : UInt8) (srcIp dstIp : Ipv4) :
    writeIp ipLen proto srcIp dstIp =
      copyTo packetOff (ipHeader ipLen proto ++ be16 0 ++ ipAddresses srcIp dstIp) := by
  simp only [ipHeader, ipAddresses, copyTo_append, writeIp, List.append_assoc]
  rfl

theorem stored_ipChecksum (dstMac srcMac : Mac) (ipLen : ℕ) (proto : UInt8) (srcIp dstIp : Ipv4)
    (checksum : UInt16) (rest : Bytes) :
    stored (List.replicate virtioNetHdrLen 0 ++ ethHeader dstMac srcMac 0x0800 ++
      (ipHeader ipLen proto ++ be16 0 ++ ipAddresses srcIp dstIp) ++ rest)
      (writeBe16 (packetOff + 10) checksum) =
    List.replicate virtioNetHdrLen 0 ++ ethHeader dstMac srcMac 0x0800 ++
      (ipHeader ipLen proto ++ be16 checksum ++ ipAddresses srcIp dstIp) ++ rest := rfl

/-- The frame with its Ethernet and IPv4 headers. -/
theorem stored_ipFrame (buf : TxBuffer) (dstMac srcMac : Mac) {ipLen : ℕ} (proto : UInt8)
    (srcIp dstIp : Ipv4) (hmin : 20 ≤ ipLen) (hmax : packetOff + ipLen ≤ txBufLen) :
    stored buf.bytes (ipFrame buf.bytes dstMac srcMac ipLen proto srcIp dstIp) =
      List.replicate virtioNetHdrLen 0 ++ ethHeader dstMac srcMac 0x0800 ++
        (ipHeader ipLen proto ++
          be16 (checksum16Be (ipHeader ipLen proto ++ [0, 0] ++ ipAddresses srcIp dstIp)) ++
          ipAddresses srcIp dstIp) ++
        (List.replicate (ipLen - 20) 0 ++ buf.bytes.drop (packetOff + ipLen)) := by
  have hclear : List.replicate (packetOff + ipLen) (0 : UInt8) =
      List.replicate virtioNetHdrLen 0 ++ List.replicate ethHdrLen 0 ++ List.replicate 20 0 ++
        List.replicate (ipLen - 20) 0 := by
    rw [← List.replicate_add, ← List.replicate_add, ← List.replicate_add]
    congr 1
    unfold packetOff
    omega
  have heth : stored (List.replicate virtioNetHdrLen 0 ++ List.replicate ethHdrLen 0 ++
      (List.replicate 20 0 ++ (List.replicate (ipLen - 20) 0 ++ buf.bytes.drop (packetOff + ipLen))))
      (copyTo virtioNetHdrLen (ethHeader dstMac srcMac 0x0800)) =
      List.replicate virtioNetHdrLen 0 ++ ethHeader dstMac srcMac 0x0800 ++
        (List.replicate 20 0 ++ (List.replicate (ipLen - 20) 0 ++
          buf.bytes.drop (packetOff + ipLen))) :=
    stored_copyTo List.length_replicate rfl
  have hip : stored (List.replicate virtioNetHdrLen 0 ++ ethHeader dstMac srcMac 0x0800 ++
      List.replicate 20 0 ++ (List.replicate (ipLen - 20) 0 ++ buf.bytes.drop (packetOff + ipLen)))
      (copyTo packetOff (ipHeader ipLen proto ++ be16 0 ++ ipAddresses srcIp dstIp)) =
      List.replicate virtioNetHdrLen 0 ++ ethHeader dstMac srcMac 0x0800 ++
        (ipHeader ipLen proto ++ be16 0 ++ ipAddresses srcIp dstIp) ++
        (List.replicate (ipLen - 20) 0 ++ buf.bytes.drop (packetOff + ipLen)) :=
    stored_copyTo rfl rfl
  have hcleared : stored buf.bytes (clear (packetOff + ipLen) ++ writeEth dstMac srcMac 0x0800 ++
      writeIp ipLen proto srcIp dstIp) =
      List.replicate virtioNetHdrLen 0 ++ ethHeader dstMac srcMac 0x0800 ++
        (ipHeader ipLen proto ++ be16 0 ++ ipAddresses srcIp dstIp) ++
        (List.replicate (ipLen - 20) 0 ++ buf.bytes.drop (packetOff + ipLen)) := by
    rw [stored_append, stored_append, stored_clear (by rw [buf.size]; exact hmax), hclear, writeEth_eq,
      writeIp_eq, List.append_assoc, List.append_assoc, heth, ← List.append_assoc _ (List.replicate 20 0),
      hip]
  have hread : bytesAt (List.replicate virtioNetHdrLen 0 ++ ethHeader dstMac srcMac 0x0800 ++
        (ipHeader ipLen proto ++ be16 0 ++ ipAddresses srcIp dstIp) ++
        (List.replicate (ipLen - 20) 0 ++ buf.bytes.drop (packetOff + ipLen))) packetOff 20 =
      ipHeader ipLen proto ++ [0, 0] ++ ipAddresses srcIp dstIp := rfl
  rw [ipFrame, stored_andThen, hcleared, hread]
  exact stored_ipChecksum _ _ _ _ _ _ _ _

theorem writeTcp_eq (srcPort dstPort : UInt16) (seq ack : UInt32) (flags : UInt8) (payload : Bytes) :
    writeTcp srcPort dstPort seq ack flags payload =
      copyTo (packetOff + 20)
        (tcpHeader srcPort dstPort seq ack flags ++ [0, 0] ++ (be16 0 ++ payload)) := by
  simp only [tcpHeader, copyTo_append, writeTcp, List.append_assoc]
  rfl

theorem length_tcpHeader (srcPort dstPort : UInt16) (seq ack : UInt32) (flags : UInt8) :
    (tcpHeader srcPort dstPort seq ack flags).length = 16 := rfl

theorem length_be16 (value : UInt16) : (be16 value).length = 2 := rfl

/-- The headers before a TCP segment of `tcpLen` bytes. -/
def tcpFront (srcMac : Mac) (srcIp : Ipv4) (dstMac : Mac) (dstIp : Ipv4) (tcpLen : ℕ) : Bytes :=
  List.replicate virtioNetHdrLen 0 ++ ethHeader dstMac srcMac 0x0800 ++
    (ipHeader (20 + tcpLen) 6 ++
      be16 (checksum16Be (ipHeader (20 + tcpLen) 6 ++ [0, 0] ++ ipAddresses srcIp dstIp)) ++
      ipAddresses srcIp dstIp)

theorem length_tcpFront (srcMac : Mac) (srcIp : Ipv4) (dstMac : Mac) (dstIp : Ipv4) (tcpLen : ℕ) :
    (tcpFront srcMac srcIp dstMac dstIp tcpLen).length = packetOff + 20 := rfl

/-- The segment, with a zero checksum and with its own. -/
def tcpCleared (srcPort dstPort : UInt16) (seq ack : UInt32) (flags : UInt8) (payload : Bytes) : Bytes :=
  tcpHeader srcPort dstPort seq ack flags ++ [0, 0] ++ (be16 0 ++ payload)

def tcpSegment (srcIp : Ipv4) (srcPort : UInt16) (dstIp : Ipv4) (dstPort : UInt16) (seq ack : UInt32)
    (flags : UInt8) (payload : Bytes) : Bytes :=
  tcpHeader srcPort dstPort seq ack flags ++
    be16 (checksum16Tcp srcIp dstIp (tcpCleared srcPort dstPort seq ack flags payload)) ++
    (be16 0 ++ payload)

theorem length_tcpCleared (srcPort dstPort : UInt16) (seq ack : UInt32) (flags : UInt8)
    (payload : Bytes) :
    (tcpCleared srcPort dstPort seq ack flags payload).length = 20 + payload.length := by
  rw [tcpCleared, List.length_append, List.length_append, List.length_append, length_tcpHeader,
    length_be16, List.length_cons, List.length_singleton]
  omega

theorem length_tcpSegment (srcIp : Ipv4) (srcPort : UInt16) (dstIp : Ipv4) (dstPort : UInt16)
    (seq ack : UInt32) (flags : UInt8) (payload : Bytes) :
    (tcpSegment srcIp srcPort dstIp dstPort seq ack flags payload).length = 20 + payload.length := by
  rw [tcpSegment, List.length_append, List.length_append, List.length_append, length_tcpHeader,
    length_be16, length_be16]
  omega

/-- What `send_tcp` leaves in `TX_BUF`. -/
theorem stored_sendTcp (buf : TxBuffer) (srcMac : Mac) (srcIp : Ipv4) (srcPort : UInt16) (dstMac : Mac)
    (dstIp : Ipv4) (dstPort : UInt16) (seq ack : UInt32) (flags : UInt8) (payload : Bytes)
    (hlen : payload.length ≤ maxTcpPayloadLen) :
    stored buf.bytes (sendTcp buf.bytes srcMac srcIp srcPort dstMac dstIp dstPort seq ack flags payload) =
      tcpFront srcMac srcIp dstMac dstIp (20 + payload.length) ++
        tcpSegment srcIp srcPort dstIp dstPort seq ack flags payload ++
        buf.bytes.drop (packetOff + (20 + (20 + payload.length))) := by
  have hmax : packetOff + (20 + (20 + payload.length)) ≤ txBufLen := by
    have hroom : maxTcpPayloadLen + packetOff + 40 = txBufLen := rfl
    omega
  have hzeros : (20 + (20 + payload.length)) - 20 = 20 + payload.length := by omega
  have hfields : stored buf.bytes (ipFrame buf.bytes dstMac srcMac (20 + (20 + payload.length)) 6 srcIp
      dstIp ++ copyTo (packetOff + 20) (tcpCleared srcPort dstPort seq ack flags payload)) =
      tcpFront srcMac srcIp dstMac dstIp (20 + payload.length) ++
        tcpCleared srcPort dstPort seq ack flags payload ++
        buf.bytes.drop (packetOff + (20 + (20 + payload.length))) := by
    rw [stored_append, stored_ipFrame buf _ _ _ _ _ (by omega) hmax, hzeros, ← List.append_assoc]
    exact stored_copyTo (length_tcpFront srcMac srcIp dstMac dstIp _)
      (by rw [List.length_replicate, length_tcpCleared])
  have hread : bytesAt (tcpFront srcMac srcIp dstMac dstIp (20 + payload.length) ++
      tcpCleared srcPort dstPort seq ack flags payload ++
      buf.bytes.drop (packetOff + (20 + (20 + payload.length)))) (packetOff + 20)
      (20 + payload.length) = tcpCleared srcPort dstPort seq ack flags payload := by
    rw [bytesAt, List.append_assoc, List.drop_left' (length_tcpFront _ _ _ _ _),
      List.take_left' (length_tcpCleared _ _ _ _ _ _)]
  have hfront : (tcpFront srcMac srcIp dstMac dstIp (20 + payload.length) ++
      tcpHeader srcPort dstPort seq ack flags).length = packetOff + 20 + 16 := by
    rw [List.length_append, length_tcpFront, length_tcpHeader]
  rw [sendTcp, stored_andThen, writeTcp_eq]
  change stored (stored buf.bytes (_ ++ copyTo _ (tcpCleared srcPort dstPort seq ack flags payload)))
    (writeBe16 _ (checksum16Tcp srcIp dstIp (bytesAt (stored buf.bytes
      (_ ++ copyTo _ (tcpCleared srcPort dstPort seq ack flags payload))) _ _))) = _
  rw [hfields, hread]
  have hsum : ∀ checksum rest, stored (tcpFront srcMac srcIp dstMac dstIp (20 + payload.length) ++
      tcpHeader srcPort dstPort seq ack flags ++ [0, 0] ++ rest)
      (copyTo (packetOff + 20 + 16) (be16 checksum)) =
      tcpFront srcMac srcIp dstMac dstIp (20 + payload.length) ++
      tcpHeader srcPort dstPort seq ack flags ++ be16 checksum ++ rest := by
    intro checksum rest
    exact stored_copyTo hfront rfl
  have happly := hsum (checksum16Tcp srcIp dstIp (tcpCleared srcPort dstPort seq ack flags payload))
    (be16 0 ++ payload ++ buf.bytes.drop (packetOff + (20 + (20 + payload.length))))
  simpa only [tcpSegment, tcpCleared, writeBe16, List.append_assoc] using happly

end Layout

section Parsing

theorem be32_value (value : UInt32) :
    UInt32.ofNat (((value >>> 24).toUInt8.toNat * 256 + (value >>> 16).toUInt8.toNat) * 65536 +
      ((value >>> 8).toUInt8.toNat * 256 + value.toUInt8.toNat)) = value := by
  have hlt := value.toNat_lt
  have h24 : (24 : UInt32).toNat % 32 = 24 := rfl
  have h16 : (16 : UInt32).toNat % 32 = 16 := rfl
  have h8 : (8 : UInt32).toNat % 32 = 8 := rfl
  rw [← UInt32.toNat_inj, UInt32.toNat_ofNat', UInt32.toNat_toUInt8, UInt32.toNat_toUInt8,
    UInt32.toNat_toUInt8, UInt32.toNat_toUInt8, UInt32.toNat_shiftRight, UInt32.toNat_shiftRight,
    UInt32.toNat_shiftRight, h24, h16, h8, Nat.shiftRight_eq_div_pow, Nat.shiftRight_eq_div_pow,
    Nat.shiftRight_eq_div_pow]
  omega

variable {rx : RxBuffer} {rest : Bytes}

/-- The headers before a segment are read as they were written. -/
theorem parseRxIp_tcpFront (srcMac : Mac) (srcIp : Ipv4) (dstMac : Mac) (dstIp : Ipv4) {tcpLen : ℕ}
    (hbytes : rx.bytes = tcpFront srcMac srcIp dstMac dstIp tcpLen ++ rest) (hmin : 20 ≤ tcpLen)
    (hmax : packetOff + (20 + tcpLen) ≤ rxBufLen) :
    parseRxIp rx 6 20 = .ok (some (packetOff + 20, tcpLen, srcIp)) := by
  have hsize : rxBufLen = 8192 := rfl
  have hpacket : virtioNetHdrLen + ethHdrLen = 24 := rfl
  have hoff : packetOff = 24 := rfl
  have htype : read16 rx.bytes (virtioNetHdrLen + 12) = .ok 0x0800 := by
    rw [hbytes]
    rfl
  have hver : index rx.bytes (virtioNetHdrLen + ethHdrLen) = .ok 0x45 := by
    rw [hbytes]
    rfl
  have htotal : read16 rx.bytes (virtioNetHdrLen + ethHdrLen + 2) = .ok (20 + tcpLen) := by
    have hvalue : (UInt16.ofNat (20 + tcpLen)).toNat = 20 + tcpLen := by
      rw [UInt16.toNat_ofNat']
      omega
    rw [← hvalue, ← be16_word (UInt16.ofNat (20 + tcpLen)), hbytes]
    rfl
  have hproto : index rx.bytes (virtioNetHdrLen + ethHdrLen + 9) = .ok 6 := by
    rw [hbytes]
    rfl
  have hsrc : readIp rx.bytes (virtioNetHdrLen + ethHdrLen + 12) = .ok srcIp := by
    rw [hbytes]
    rfl
  have hnibbles : nibbles 0x45 = (4, 5) := rfl
  have hleast : add (2 ^ 16) (5 * 4) 20 = .ok 40 := rfl
  have hrange : ¬ (20 + tcpLen < 40 ∨ 20 + tcpLen > rxBufLen - (virtioNetHdrLen + ethHdrLen)) := by
    omega
  have hpayload : sub (20 + tcpLen) (5 * 4) = .ok tcpLen := by
    rw [sub, if_pos (by omega)]
    congr 1
    omega
  unfold parseRxIp
  dsimp only
  simp only [htype, hver, htotal, hproto, hsrc, hnibbles, hleast, hpayload, ok_bind, hrange, if_false]
  rfl

/-- The segment is read as it was written. -/
theorem tcpFields_tcpSegment (srcMac : Mac) (srcIp : Ipv4) (srcPort : UInt16) (dstMac : Mac)
    (dstIp : Ipv4) (dstPort : UInt16) (seq ack : UInt32) (flags : UInt8) (payload : Bytes)
    {buf : Bytes} (hbuf : buf = tcpFront srcMac srcIp dstMac dstIp (20 + payload.length) ++
      tcpSegment srcIp srcPort dstIp dstPort seq ack flags payload ++ rest) :
    tcpFields buf (packetOff + (20 + (20 + payload.length))) (packetOff + 20) (20 + payload.length)
      srcIp =
    .ok (some ⟨srcIp, srcPort.toNat, dstPort.toNat, seq, ack, flags, packetOff + 20 + 20,
      payload.length⟩) := by
  have hsrc : read16 buf (packetOff + 20) = .ok srcPort.toNat := by
    rw [← be16_word srcPort, hbuf]
    rfl
  have hdst : read16 buf (packetOff + 20 + 2) = .ok dstPort.toNat := by
    rw [← be16_word dstPort, hbuf]
    rfl
  have hseq : read32 buf (packetOff + 20 + 4) = .ok seq := by
    rw [← be32_value seq, hbuf]
    rfl
  have hack : read32 buf (packetOff + 20 + 8) = .ok ack := by
    rw [← be32_value ack, hbuf]
    rfl
  have hoff : index buf (packetOff + 20 + 12) = .ok 0x50 := by
    rw [hbuf]
    rfl
  have hflags : index buf (packetOff + 20 + 13) = .ok flags := by
    rw [hbuf]
    rfl
  have hnibbles : (nibbles 0x50).1 * 4 = 20 := rfl
  have hpayload : sub (20 + payload.length) 20 = .ok payload.length := by
    rw [sub, if_pos (by omega)]
    congr 1
    omega
  have hshort : ¬ 20 + payload.length < 20 := by omega
  have hend : ¬ packetOff + 20 + 20 + payload.length > packetOff + (20 + (20 + payload.length)) := by
    omega
  unfold tcpFields
  simp only [hsrc, hdst, hseq, hack, hoff, hflags, hnibbles, hpayload, ok_bind, hshort, hend, if_false,
    lt_self_iff_false]
  rfl

end Parsing

theorem bytesAt_payload (srcMac : Mac) (srcIp : Ipv4) (srcPort : UInt16) (dstMac : Mac)
    (dstIp : Ipv4) (dstPort : UInt16) (seq ack : UInt32) (flags : UInt8) (payload rest : Bytes) :
    bytesAt (tcpFront srcMac srcIp dstMac dstIp (20 + payload.length) ++
      tcpSegment srcIp srcPort dstIp dstPort seq ack flags payload ++ rest) (packetOff + 20 + 20)
      payload.length = payload := by
  have hsplit : tcpFront srcMac srcIp dstMac dstIp (20 + payload.length) ++
      tcpSegment srcIp srcPort dstIp dstPort seq ack flags payload ++ rest =
      (tcpFront srcMac srcIp dstMac dstIp (20 + payload.length) ++
        (tcpHeader srcPort dstPort seq ack flags ++
          be16 (checksum16Tcp srcIp dstIp (tcpCleared srcPort dstPort seq ack flags payload)) ++
          be16 0)) ++ (payload ++ rest) := by
    simp only [tcpSegment, List.append_assoc]
  rw [hsplit, bytesAt, List.drop_left', List.take_left' rfl]
  rw [List.length_append, length_tcpFront]
  rfl

/-- The packet that a receiver finds in its buffer is the frame of `len` bytes in `buf`. -/
structure Delivered (buf : Bytes) (len : ℕ) (rx : RxBuffer) : Prop where
  valid : rx.valid = true
  curLen : rx.curLen = len
  bytes : rx.bytes.take len = buf.take len

/-- What `send_tcp` sends is received as it was meant, and its checksums verify. -/
theorem tcp_segment_round_trip (buf : TxBuffer) (srcMac : Mac) (srcIp : Ipv4) (srcPort : UInt16)
    (dstMac : Mac) (dstIp : Ipv4) (dstPort : UInt16) (seq ack : UInt32) (flags : UInt8) (payload : Bytes)
    (hlen : payload.length ≤ maxTcpPayloadLen) :
    let packet := Packet.tcp srcMac srcIp srcPort dstMac dstIp dstPort seq ack flags payload
    let frame := sentFrame buf packet
    packet.tooLarge = false ∧
      (∀ rx, Delivered frame packet.totalLen rx →
        ∃ info, parseRxTcp rx = .ok (some info) ∧ info.srcIp = srcIp ∧
          info.srcPort = srcPort.toNat ∧ info.dstPort = dstPort.toNat ∧ info.seq = seq ∧
          info.ack = ack ∧ info.flags = flags ∧
          bytesAt rx.bytes info.payloadAddr info.payloadLen = payload) ∧
      Verifies (bytesAt frame packetOff 20) ∧
      Verifies (pseudoHeader srcIp dstIp (20 + payload.length) ++
        bytesAt frame (packetOff + 20) (20 + payload.length)) := by
  intro packet frame
  have hroom : maxTcpPayloadLen + packetOff + 40 = 8192 := rfl
  have hrxLen : rxBufLen = 8192 := rfl
  have htxLen : txBufLen = 8192 := rfl
  have hoff : packetOff = 24 := rfl
  have htotal : packet.totalLen = packetOff + (20 + (20 + payload.length)) := rfl
  have hframe : frame = tcpFront srcMac srcIp dstMac dstIp (20 + payload.length) ++
      tcpSegment srcIp srcPort dstIp dstPort seq ack flags payload ++
      buf.bytes.drop (packetOff + (20 + (20 + payload.length))) :=
    stored_sendTcp buf srcMac srcIp srcPort dstMac dstIp dstPort seq ack flags payload hlen
  have hfrontLen := length_tcpFront srcMac srcIp dstMac dstIp (20 + payload.length)
  have hsegmentLen := length_tcpSegment srcIp srcPort dstIp dstPort seq ack flags payload
  refine ⟨?_, ?_, ?_, ?_⟩
  · have hfits : ¬ packet.totalLen > txBufLen := by omega
    exact decide_eq_false hfits
  · intro rx hrx
    have hbytes : rx.bytes = tcpFront srcMac srcIp dstMac dstIp (20 + payload.length) ++
        tcpSegment srcIp srcPort dstIp dstPort seq ack flags payload ++
        rx.bytes.drop packet.totalLen := by
      have htake := hrx.bytes
      rw [hframe, List.take_left' (by rw [List.length_append, hfrontLen, hsegmentLen, htotal,
        Nat.add_assoc])] at htake
      rw [← htake, List.take_append_drop]
    have hbounds : currentRxBounds rx (virtioNetHdrLen + ethHdrLen + 20) =
        some (packetOff + (20 + (20 + payload.length))) := by
      have hmin : min rx.curLen rxBufLen = packetOff + (20 + (20 + payload.length)) := by
        rw [hrx.curLen, htotal]
        omega
      rw [currentRxBounds, hmin]
      exact if_pos ⟨hrx.valid, by change 44 ≤ _; omega⟩
    refine ⟨⟨srcIp, srcPort.toNat, dstPort.toNat, seq, ack, flags, packetOff + 20 + 20,
      payload.length⟩, ?_, rfl, rfl, rfl, rfl, rfl, rfl, ?_⟩
    · rw [parseRxTcp_eq hbounds, parseRxIp_tcpFront srcMac srcIp dstMac dstIp
        (hbytes.trans (List.append_assoc _ _ _)) (by omega) (by omega), ok_bind]
      exact tcpFields_tcpSegment srcMac srcIp srcPort dstMac dstIp dstPort seq ack flags payload hbytes
    · change bytesAt rx.bytes (packetOff + 20 + 20) payload.length = payload
      rw [hbytes]
      exact bytesAt_payload _ _ _ _ _ _ _ _ _ _ _
  · have hverify : Verifies (ipHeader (20 + (20 + payload.length)) 6 ++
        be16 (checksum16Be (ipHeader (20 + (20 + payload.length)) 6 ++ [0, 0] ++
          ipAddresses srcIp dstIp)) ++ ipAddresses srcIp dstIp) :=
      verifies_checksum16Be ⟨5, rfl⟩ (by
        change 20 < 2 ^ 16
        norm_num)
    rw [hframe]
    exact hverify
  · have hsegment : bytesAt frame (packetOff + 20) (20 + payload.length) =
        tcpSegment srcIp srcPort dstIp dstPort seq ack flags payload := by
      rw [hframe, bytesAt, List.append_assoc, List.drop_left' hfrontLen, List.take_left' hsegmentLen]
    have hcleared := length_tcpCleared srcPort dstPort seq ack flags payload
    have hverify : Verifies (pseudoHeader srcIp dstIp
        (tcpCleared srcPort dstPort seq ack flags payload).length ++
        tcpHeader srcPort dstPort seq ack flags ++
        be16 (checksum16Tcp srcIp dstIp (tcpCleared srcPort dstPort seq ack flags payload)) ++
        (be16 0 ++ payload)) :=
      verifies_checksum16Tcp srcIp dstIp ⟨8, rfl⟩ (by
        change (tcpCleared srcPort dstPort seq ack flags payload).length < 2 ^ 15
        omega)
    rw [hsegment, tcpSegment, ← List.append_assoc, ← List.append_assoc, ← hcleared]
    exact hverify

theorem length_replicate_txBufLen : (List.replicate txBufLen (0 : UInt8)).length = txBufLen :=
  List.length_replicate

/-- `TX_BUF` before the first frame. -/
def txBufferStart : TxBuffer where
  bytes := List.replicate txBufLen 0
  size := length_replicate_txBufLen

theorem tcp_segment_round_trip_odd :
    let packet := Packet.tcp ⟨2, 0, 0, 0, 0, 1⟩ ⟨10, 0, 2, 15⟩ 40000 ⟨0x52, 0x55, 10, 0, 2, 2⟩
      ⟨10, 0, 2, 2⟩ 80 0xfffffff0 7 0x18 [71, 69, 84]
    let frame := sentFrame txBufferStart packet
    packet.tooLarge = false ∧
      (∀ rx, Delivered frame packet.totalLen rx →
        ∃ info, parseRxTcp rx = .ok (some info) ∧ info.srcIp = ⟨10, 0, 2, 15⟩ ∧
          info.srcPort = (40000 : UInt16).toNat ∧ info.dstPort = (80 : UInt16).toNat ∧
          info.seq = 0xfffffff0 ∧ info.ack = 7 ∧ info.flags = 0x18 ∧
          bytesAt rx.bytes info.payloadAddr info.payloadLen = [71, 69, 84]) ∧
      Verifies (bytesAt frame packetOff 20) ∧
      Verifies (pseudoHeader ⟨10, 0, 2, 15⟩ ⟨10, 0, 2, 2⟩ (20 + 3) ++
        bytesAt frame (packetOff + 20) (20 + 3)) :=
  tcp_segment_round_trip txBufferStart _ _ _ _ _ _ _ _ _ [71, 69, 84] (by decide)

end MiniAgentOS.Net
