import MiniAgentOS.Net.Checksum

/-! The frames that the driver sends. A sender clears as much of `TX_BUF` as its frame takes and stores
the fields of the headers, the payload and the checksums, in the order of the code; of two fields that
one loop fills, the first comes first. -/
namespace MiniAgentOS.Net

/-- `TX_BUF_LEN`. -/
def txBufLen : ℕ := 8192

def arpPktLen : ℕ := 28

structure Mac where
  a : UInt8
  b : UInt8
  c : UInt8
  d : UInt8
  e : UInt8
  f : UInt8
  deriving DecidableEq, Repr

def Mac.bytes (mac : Mac) : Bytes := [mac.a, mac.b, mac.c, mac.d, mac.e, mac.f]

/-- `TX_BUF`. -/
structure TxBuffer where
  bytes : Bytes
  size : bytes.length = txBufLen

/-- One `store8` into `TX_BUF`. -/
structure Store where
  off : ℕ
  byte : UInt8
  deriving DecidableEq, Repr

def TxBuffer.store (buf : TxBuffer) (store : Store) : TxBuffer where
  bytes := buf.bytes.set store.off store.byte
  size := by rw [List.length_set, buf.size]

def stored (buf : Bytes) (stores : List Store) : Bytes :=
  stores.foldl (fun buf store => buf.set store.off store.byte) buf

/-- The bytes that a checksum reads. -/
def bytesAt (buf : Bytes) (base len : ℕ) : Bytes := (buf.drop base).take len

def clear (len : ℕ) : List Store := (List.range len).map fun i => ⟨i, 0⟩

def copyTo (off : ℕ) (bytes : Bytes) : List Store :=
  bytes.zipIdx.map fun (byte, j) => ⟨off + j, byte⟩

def writeBe16 (off : ℕ) (value : UInt16) : List Store := copyTo off (be16 value)

def writeBe32 (off : ℕ) (value : UInt32) : List Store := copyTo off (be32 value)

/-- Where the packet behind the Ethernet header begins. -/
def packetOff : ℕ := virtioNetHdrLen + ethHdrLen

def writeEth (dstMac srcMac : Mac) (ethType : UInt16) : List Store :=
  copyTo virtioNetHdrLen dstMac.bytes ++ copyTo (virtioNetHdrLen + 6) srcMac.bytes ++
    writeBe16 (virtioNetHdrLen + 12) ethType

/-- The IPv4 header that all senders write, with a zero checksum. -/
def writeIp (ipLen : ℕ) (proto : UInt8) (srcIp dstIp : Ipv4) : List Store :=
  [⟨packetOff, 0x45⟩, ⟨packetOff + 1, 0⟩] ++ writeBe16 (packetOff + 2) (UInt16.ofNat ipLen) ++
    writeBe16 (packetOff + 4) 0 ++ writeBe16 (packetOff + 6) 0 ++
    [⟨packetOff + 8, 64⟩, ⟨packetOff + 9, proto⟩] ++ writeBe16 (packetOff + 10) 0 ++
    copyTo (packetOff + 12) srcIp.bytes ++ copyTo (packetOff + 16) dstIp.bytes

/-- Go on with stores that depend on what `TX_BUF` holds after the ones before. -/
def andThen (buf : Bytes) (stores : List Store) (more : Bytes → List Store) : List Store :=
  stores ++ more (stored buf stores)

/-- The cleared frame with its Ethernet and IPv4 headers. -/
def ipFrame (buf : Bytes) (dstMac srcMac : Mac) (ipLen : ℕ) (proto : UInt8) (srcIp dstIp : Ipv4) :
    List Store :=
  andThen buf (clear (packetOff + ipLen) ++ writeEth dstMac srcMac 0x0800 ++
    writeIp ipLen proto srcIp dstIp) fun buf =>
      writeBe16 (packetOff + 10) (checksum16Be (bytesAt buf packetOff 20))

/-- What is sent: the arguments of `send_arp`, `send_icmp_echo`, `send_udp` and `send_tcp`. -/
inductive Packet where
  | arp (srcMac : Mac) (srcIp targetIp : Ipv4)
  | icmpEcho (srcMac : Mac) (srcIp : Ipv4) (dstMac : Mac) (dstIp : Ipv4)
  | udp (srcMac : Mac) (srcIp : Ipv4) (srcPort : UInt16) (dstMac : Mac) (dstIp : Ipv4)
      (dstPort : UInt16) (payload : Bytes)
  | tcp (srcMac : Mac) (srcIp : Ipv4) (srcPort : UInt16) (dstMac : Mac) (dstIp : Ipv4)
      (dstPort : UInt16) (seq ack : UInt32) (flags : UInt8) (payload : Bytes)
  deriving DecidableEq, Repr

/-- The payload of `send_icmp_echo`. -/
def icmpPayload : Bytes := "minios".toUTF8.toList

def sendArp (srcMac : Mac) (srcIp targetIp : Ipv4) : List Store :=
  let arp := packetOff
  clear (packetOff + arpPktLen) ++
    writeEth ⟨0xff, 0xff, 0xff, 0xff, 0xff, 0xff⟩ srcMac 0x0806 ++
    writeBe16 arp 1 ++ writeBe16 (arp + 2) 0x0800 ++ [⟨arp + 4, 6⟩, ⟨arp + 5, 4⟩] ++
    writeBe16 (arp + 6) 1 ++ copyTo (arp + 8) srcMac.bytes ++ copyTo (arp + 14) srcIp.bytes ++
    copyTo (arp + 18) (List.replicate 6 0) ++ copyTo (arp + 24) targetIp.bytes

def sendIcmpEcho (buf : Bytes) (srcMac : Mac) (srcIp : Ipv4) (dstMac : Mac) (dstIp : Ipv4) :
    List Store :=
  let icmpLen := 8 + icmpPayload.length
  let icmp := packetOff + 20
  andThen buf (ipFrame buf dstMac srcMac (20 + icmpLen) 1 srcIp dstIp ++ [⟨icmp, 8⟩, ⟨icmp + 1, 0⟩] ++
    writeBe16 (icmp + 2) 0 ++ writeBe16 (icmp + 4) 0x1234 ++ writeBe16 (icmp + 6) 1 ++
    copyTo (icmp + 8) icmpPayload) fun buf =>
      writeBe16 (icmp + 2) (checksum16Be (bytesAt buf icmp icmpLen))

def sendUdp (buf : Bytes) (srcMac : Mac) (srcIp : Ipv4) (srcPort : UInt16) (dstMac : Mac)
    (dstIp : Ipv4) (dstPort : UInt16) (payload : Bytes) : List Store :=
  let udpLen := 8 + payload.length
  let udp := packetOff + 20
  ipFrame buf dstMac srcMac (20 + udpLen) 17 srcIp dstIp ++ writeBe16 udp srcPort ++
    writeBe16 (udp + 2) dstPort ++ writeBe16 (udp + 4) (UInt16.ofNat udpLen) ++
    writeBe16 (udp + 6) 0 ++ copyTo (udp + 8) payload

/-- The TCP header, with a zero checksum, and the payload. -/
def writeTcp (srcPort dstPort : UInt16) (seq ack : UInt32) (flags : UInt8) (payload : Bytes) :
    List Store :=
  let tcp := packetOff + 20
  writeBe16 tcp srcPort ++ writeBe16 (tcp + 2) dstPort ++ writeBe32 (tcp + 4) seq ++
    writeBe32 (tcp + 8) ack ++ [⟨tcp + 12, (5 : UInt8) <<< 4⟩, ⟨tcp + 13, flags⟩] ++
    writeBe16 (tcp + 14) 16384 ++ writeBe16 (tcp + 16) 0 ++ writeBe16 (tcp + 18) 0 ++
    copyTo (tcp + 20) payload

def sendTcp (buf : Bytes) (srcMac : Mac) (srcIp : Ipv4) (srcPort : UInt16) (dstMac : Mac)
    (dstIp : Ipv4) (dstPort : UInt16) (seq ack : UInt32) (flags : UInt8) (payload : Bytes) :
    List Store :=
  let tcpLen := 20 + payload.length
  let tcp := packetOff + 20
  andThen buf (ipFrame buf dstMac srcMac (20 + tcpLen) 6 srcIp dstIp ++
    writeTcp srcPort dstPort seq ack flags payload) fun buf =>
      writeBe16 (tcp + 16) (checksum16Tcp srcIp dstIp (bytesAt buf tcp tcpLen))

namespace Packet

/-- The bytes of the frame, with the virtio header. -/
def totalLen : Packet → ℕ
  | arp .. => packetOff + arpPktLen
  | icmpEcho .. => packetOff + (20 + (8 + icmpPayload.length))
  | udp _ _ _ _ _ _ payload => packetOff + (20 + (8 + payload.length))
  | tcp _ _ _ _ _ _ _ _ _ payload => packetOff + (20 + (20 + payload.length))

/-- Only the senders that take a payload check the size of the frame. -/
def tooLarge : Packet → Bool
  | arp .. => false
  | icmpEcho .. => false
  | packet => packet.totalLen > txBufLen

def stores (buf : Bytes) : Packet → List Store
  | arp srcMac srcIp targetIp => sendArp srcMac srcIp targetIp
  | icmpEcho srcMac srcIp dstMac dstIp => sendIcmpEcho buf srcMac srcIp dstMac dstIp
  | udp srcMac srcIp srcPort dstMac dstIp dstPort payload =>
    sendUdp buf srcMac srcIp srcPort dstMac dstIp dstPort payload
  | tcp srcMac srcIp srcPort dstMac dstIp dstPort seq ack flags payload =>
    sendTcp buf srcMac srcIp srcPort dstMac dstIp dstPort seq ack flags payload

end Packet

/-- What a sender leaves in `TX_BUF`. -/
def sentFrame (buf : TxBuffer) (packet : Packet) : Bytes := stored buf.bytes (packet.stores buf.bytes)

section Stored

variable {buf front old new rest : Bytes}

theorem stored_append (buf : Bytes) (first second : List Store) :
    stored buf (first ++ second) = stored (stored buf first) second := List.foldl_append

@[simp] theorem length_stored (buf : Bytes) (stores : List Store) :
    (stored buf stores).length = buf.length := by
  induction stores generalizing buf with
  | nil => rfl
  | cons store stores ih =>
    change (stored (buf.set store.off store.byte) stores).length = buf.length
    rw [ih, List.length_set]

theorem stored_andThen (buf : Bytes) (stores : List Store) (more : Bytes → List Store) :
    stored buf (andThen buf stores more) = stored (stored buf stores) (more (stored buf stores)) :=
  stored_append _ _ _

theorem stored_clear {len : ℕ} (h : len ≤ buf.length) :
    stored buf (clear len) = List.replicate len 0 ++ buf.drop len := by
  induction len with
  | zero => rfl
  | succ len ih =>
    have hcell : buf.drop len = buf[len] :: buf.drop (len + 1) := List.drop_eq_getElem_cons h
    rw [clear, List.range_succ, List.map_append, stored_append]
    change (stored buf (clear len)).set len 0 = _
    rw [ih (by omega), hcell, List.set_append_right _ _ (by simp), List.length_replicate,
      Nat.sub_self, List.set_cons_zero, List.replicate_succ', List.append_assoc, List.singleton_append]

theorem copyTo_append (off : ℕ) (first second : Bytes) :
    copyTo off (first ++ second) = copyTo off first ++ copyTo (off + first.length) second := by
  have hshift : second.zipIdx first.length =
      second.zipIdx.map fun (byte, j) => (byte, first.length + j) := by
    rw [List.zipIdx_eq_map_add]
  unfold copyTo
  rw [List.zipIdx_append, List.map_append, Nat.zero_add, hshift, List.map_map]
  congr 1
  apply List.map_congr_left
  intro cell _
  simp only [Function.comp_apply, Nat.add_assoc]

/-- Bytes stored over as many others. -/
theorem stored_copyTo {off : ℕ} (hoff : front.length = off) (hlen : old.length = new.length) :
    stored (front ++ old ++ rest) (copyTo off new) = front ++ new ++ rest := by
  suffices h : ∀ start, (front.length = off + start) →
      stored (front ++ old ++ rest) ((new.zipIdx start).map fun (byte, j) => ⟨off + j, byte⟩) =
        front ++ new ++ rest from h 0 hoff
  intro start hstart
  clear hoff
  induction new generalizing front old start with
  | nil =>
    rw [List.length_nil, List.length_eq_zero_iff] at hlen
    rw [hlen]
    rfl
  | cons byte new ih =>
    cases old with
    | nil => cases hlen
    | cons first old =>
      have hset : (front ++ first :: old ++ rest).set (off + start) byte =
          front ++ [byte] ++ old ++ rest := by
        rw [List.append_assoc, ← hstart, List.set_append_right _ _ (Nat.le_refl _), Nat.sub_self]
        simp
      rw [List.zipIdx_cons, List.map_cons]
      change stored ((front ++ first :: old ++ rest).set (off + start) byte) _ = _
      rw [hset, ih (Nat.succ.inj hlen) (start + 1) (by rw [List.length_append, hstart]; rfl)]
      simp

end Stored

end MiniAgentOS.Net
