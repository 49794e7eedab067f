import MiniAgentOS.Lib.OnesComplement
import MiniAgentOS.Net.Frame

/-! The Internet checksum, as the driver computes it and as a receiver verifies it. -/
namespace MiniAgentOS.Net
open OnesComplement

/-- The loop of `checksum16_be` and `sum_be16_words` over the words, which wraps at 32 bits. -/
def sumBe16From (sum : ℕ) : Bytes → ℕ
  | [] => sum
  | [hi] => (sum + hi.toNat * 256) % 2 ^ 32
  | hi :: lo :: rest => sumBe16From ((sum + (hi.toNat * 256 + lo.toNat)) % 2 ^ 32) rest

def sumBe16Words (bytes : Bytes) : ℕ := sumBe16From 0 bytes

def checksum16Be (bytes : Bytes) : UInt16 := ~~~UInt16.ofNat (fold (2 ^ 16) (sumBe16Words bytes))

def checksum16Tcp (srcIp dstIp : Ipv4) (tcp : Bytes) : UInt16 :=
  let sum := (srcIp.a.toNat * 256 + srcIp.b.toNat) % 2 ^ 32
  let sum := (sum + (srcIp.c.toNat * 256 + srcIp.d.toNat)) % 2 ^ 32
  let sum := (sum + (dstIp.a.toNat * 256 + dstIp.b.toNat)) % 2 ^ 32
  let sum := (sum + (dstIp.c.toNat * 256 + dstIp.d.toNat)) % 2 ^ 32
  let sum := (sum + 6) % 2 ^ 32
  let sum := (sum + tcp.length) % 2 ^ 32
  let sum := (sum + sumBe16Words tcp) % 2 ^ 32
  ~~~UInt16.ofNat (fold (2 ^ 16) sum)

def be16 (value : UInt16) : Bytes := [(value >>> 8).toUInt8, value.toUInt8]

def be32 (value : UInt32) : Bytes :=
  [(value >>> 24).toUInt8, (value >>> 16).toUInt8, (value >>> 8).toUInt8, value.toUInt8]

def Ipv4.bytes (ip : Ipv4) : Bytes := [ip.a, ip.b, ip.c, ip.d]

/-- The 16-bit words of some bytes. A last odd byte is padded with zero. -/
def beWords : Bytes → List ℕ
  | [] => []
  | [hi] => [hi.toNat * 256]
  | hi :: lo :: rest => (hi.toNat * 256 + lo.toNat) :: beWords rest

/-- What a receiver checks: the one's complement sum over all words is all ones. -/
def Verifies (bytes : Bytes) : Prop := sumWords (2 ^ 16) (beWords bytes) = 2 ^ 16 - 1

instance (bytes : Bytes) : Decidable (Verifies bytes) := inferInstanceAs (Decidable (_ = _))

/-- The addresses, the protocol and the length that the checksum of a TCP segment covers too. -/
def pseudoHeader (srcIp dstIp : Ipv4) (tcpLen : ℕ) : Bytes :=
  srcIp.bytes ++ dstIp.bytes ++ [0, 6] ++ be16 (UInt16.ofNat tcpLen)

section Words

variable {bytes front rest : Bytes}

theorem word_lt (hi lo : UInt8) : hi.toNat * 256 + lo.toNat < 2 ^ 16 := by
  have hhi := hi.toNat_lt
  have hlo := lo.toNat_lt
  omega

theorem beWords_lt : ∀ (bytes : Bytes), ∀ word ∈ beWords bytes, word < 2 ^ 16
  | [], _, h => absurd h List.not_mem_nil
  | [hi], word, h => by
    rw [List.mem_singleton.mp h]
    have hlt := word_lt hi 0
    simpa using hlt
  | hi :: lo :: rest, word, h => by
    rcases List.mem_cons.mp h with rfl | hrest
    · exact word_lt hi lo
    · exact beWords_lt rest word hrest

/-- Words of an even number of bytes end where those of the rest begin. -/
theorem beWords_append : ∀ {front : Bytes} (_ : 2 ∣ front.length) (rest : Bytes),
    beWords (front ++ rest) = beWords front ++ beWords rest
  | [], _, _ => rfl
  | [_], h, _ => by
    rw [List.length_singleton] at h
    omega
  | hi :: lo :: front, h, rest => by
    have heven : 2 ∣ front.length := by
      simp only [List.length_cons] at h
      omega
    rw [List.cons_append, List.cons_append, beWords, beWords_append heven rest, beWords,
      List.cons_append]

theorem sum_beWords_lt : ∀ (bytes : Bytes), (beWords bytes).sum ≤ bytes.length * 2 ^ 16
  | [] => Nat.zero_le _
  | [hi] => by
    have hlt := hi.toNat_lt
    simp only [beWords, List.sum_cons, List.sum_nil, List.length_singleton]
    omega
  | hi :: lo :: rest => by
    have hword := word_lt hi lo
    have ih := sum_beWords_lt rest
    simp only [beWords, List.sum_cons, List.length_cons]
    omega

theorem sumBe16From_eq : ∀ {sum : ℕ} (_ : sum < 2 ^ 32) (bytes : Bytes),
    sumBe16From sum bytes = (sum + (beWords bytes).sum) % 2 ^ 32
  | sum, h, [] => by
    rw [sumBe16From, beWords, List.sum_nil, Nat.add_zero, Nat.mod_eq_of_lt h]
  | sum, _, [hi] => by
    rw [sumBe16From, beWords, List.sum_singleton]
  | sum, _, hi :: lo :: rest => by
    rw [sumBe16From, sumBe16From_eq (Nat.mod_lt _ (by norm_num)) rest, Nat.mod_add_mod, beWords,
      List.sum_cons, Nat.add_assoc]

theorem sumBe16Words_eq (h : bytes.length < 2 ^ 16) :
    sumBe16Words bytes = (beWords bytes).sum := by
  have hsum := sum_beWords_lt bytes
  rw [sumBe16Words, sumBe16From_eq (by norm_num), Nat.zero_add]
  apply Nat.mod_eq_of_lt
  omega

theorem toNat_complement (sum : ℕ) :
    (~~~UInt16.ofNat (fold (2 ^ 16) sum)).toNat = 2 ^ 16 - 1 - fold (2 ^ 16) sum := by
  have hlt : fold (2 ^ 16) sum < 2 ^ 16 := fold_lt (by norm_num) sum
  rw [UInt16.toNat_not, UInt16.toNat_ofNat', Nat.mod_eq_of_lt hlt]
  rfl

theorem be16_word (value : UInt16) :
    (value >>> 8).toUInt8.toNat * 256 + value.toUInt8.toNat = value.toNat := by
  have hlt := value.toNat_lt
  have hshift : (8 : UInt16).toNat % 16 = 8 := rfl
  rw [UInt16.toNat_toUInt8, UInt16.toNat_toUInt8, UInt16.toNat_shiftRight, hshift,
    Nat.shiftRight_eq_div_pow]
  omega

@[simp] theorem beWords_be16 (value : UInt16) : beWords (be16 value) = [value.toNat] := by
  rw [be16, beWords, be16_word, beWords]

/-- Words in which the complement of their sum takes the place of a zero verify. -/
theorem verifies_of_complement (hfront : 2 ∣ front.length) {sum : ℕ}
    (hsum : sum = (beWords front).sum + (beWords rest).sum) {value : UInt16}
    (hvalue : value = ~~~UInt16.ofNat (fold (2 ^ 16) sum)) :
    Verifies (front ++ be16 value ++ rest) := by
  have heven : 2 ∣ (front ++ be16 value).length := by
    rw [List.length_append]
    exact Nat.dvd_add hfront ⟨1, rfl⟩
  have htotal : (beWords (front ++ be16 value ++ rest)).sum =
      sum + (2 ^ 16 - 1 - fold (2 ^ 16) sum) := by
    rw [beWords_append heven, beWords_append hfront, beWords_be16, List.sum_append, List.sum_append,
      List.sum_singleton, hvalue, toNat_complement]
    omega
  unfold Verifies
  rw [sumWords_eq_fold (by norm_num) (beWords_lt _), htotal]
  exact fold_add_complement (by norm_num) sum

/-- The checksum of a header in which its own place is zero. -/
theorem verifies_checksum16Be (hfront : 2 ∣ front.length)
    (hlen : (front ++ [0, 0] ++ rest).length < 2 ^ 16) :
    Verifies (front ++ be16 (checksum16Be (front ++ [0, 0] ++ rest)) ++ rest) := by
  have heven : 2 ∣ (front ++ [0, 0]).length := by
    rw [List.length_append]
    exact Nat.dvd_add hfront ⟨1, rfl⟩
  have hzero : (beWords [0, 0]).sum = 0 := rfl
  apply verifies_of_complement hfront _ rfl
  rw [sumBe16Words_eq hlen, beWords_append heven, beWords_append hfront, List.sum_append,
    List.sum_append, hzero, Nat.add_zero]

theorem beWords_ip (ip : Ipv4) :
    beWords ip.bytes = [ip.a.toNat * 256 + ip.b.toNat, ip.c.toNat * 256 + ip.d.toNat] := rfl

theorem sum_pseudoHeader (srcIp dstIp : Ipv4) {tcpLen : ℕ} (h : tcpLen < 2 ^ 16) :
    (beWords (pseudoHeader srcIp dstIp tcpLen)).sum =
      (beWords srcIp.bytes).sum + (beWords dstIp.bytes).sum + 6 + tcpLen := by
  have hproto : beWords [0, 6] = [6] := rfl
  have hsrc : 2 ∣ srcIp.bytes.length := ⟨2, rfl⟩
  have hboth : 2 ∣ (srcIp.bytes ++ dstIp.bytes).length := ⟨4, rfl⟩
  have hall : 2 ∣ (srcIp.bytes ++ dstIp.bytes ++ [0, 6]).length := ⟨5, rfl⟩
  rw [pseudoHeader, beWords_append hall, beWords_append hboth, beWords_append hsrc, hproto,
    beWords_be16, UInt16.toNat_ofNat', Nat.mod_eq_of_lt h]
  simp only [List.sum_append, List.sum_singleton]

/-- The checksum of a TCP segment in which its own place is zero, with the pseudo header. -/
theorem verifies_checksum16Tcp (srcIp dstIp : Ipv4) (hfront : 2 ∣ front.length)
    (hlen : (front ++ [0, 0] ++ rest).length < 2 ^ 15) :
    Verifies (pseudoHeader srcIp dstIp (front ++ [0, 0] ++ rest).length ++ front ++
      be16 (checksum16Tcp srcIp dstIp (front ++ [0, 0] ++ rest)) ++ rest) := by
  have hpseudo : 2 ∣ (pseudoHeader srcIp dstIp (front ++ [0, 0] ++ rest).length).length := ⟨6, rfl⟩
  have heven : 2 ∣ (front ++ [0, 0]).length := by
    rw [List.length_append]
    exact Nat.dvd_add hfront ⟨1, rfl⟩
  have hzero : (beWords [0, 0]).sum = 0 := rfl
  have hwords := sum_beWords_lt (front ++ [0, 0] ++ rest)
  have hsrc := sum_beWords_lt srcIp.bytes
  have hdst := sum_beWords_lt dstIp.bytes
  have hfour : ∀ ip : Ipv4, ip.bytes.length = 4 := fun _ => rfl
  rw [hfour] at hsrc hdst
  have hall : 2 ∣ (pseudoHeader srcIp dstIp (front ++ [0, 0] ++ rest).length ++ front).length := by
    rw [List.length_append]
    exact Nat.dvd_add hpseudo hfront
  have hsum : (beWords srcIp.bytes).sum + (beWords dstIp.bytes).sum + 6 +
      (front ++ [0, 0] ++ rest).length + (beWords (front ++ [0, 0] ++ rest)).sum =
      (beWords (pseudoHeader srcIp dstIp (front ++ [0, 0] ++ rest).length ++ front)).sum +
        (beWords rest).sum := by
    rw [beWords_append hpseudo, List.sum_append, sum_pseudoHeader _ _ (by omega),
      beWords_append heven, beWords_append hfront, List.sum_append, List.sum_append, hzero]
    omega
  apply verifies_of_complement hall hsum
  unfold checksum16Tcp
  rw [sumBe16Words_eq (by omega)]
  simp only [beWords_ip, List.sum_cons, List.sum_nil, Nat.add_zero] at hsrc hdst ⊢
  simp only [Nat.mod_add_mod]
  rw [Nat.mod_eq_of_lt (by omega)]
  simp only [Nat.add_assoc]

end Words

end MiniAgentOS.Net
