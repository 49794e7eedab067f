import MiniAgentOS.Lib.Cells
import MiniAgentOS.Memory.Allocator
import MiniAgentOS.Net.RxRing

/-! Setting up the two queues of the network device: where their parts lie in memory, and what the
device is told of them. -/
namespace MiniAgentOS.Net.Queues
open Checked Cells
open Arena (Block Stacked)

/-- `VIRTQ_HEAP_SIZE`. -/
def virtqHeapSize : ℕ := 128 * 1024

/-- `LEGACY_QUEUE_ALIGN`. -/
def legacyQueueAlign : ℕ := 4096

/-- `MAX_QSIZE`. -/
def maxQsize : ℕ := 256

/-- `VIRTQ_DESC_F_WRITE`. -/
def virtqDescFWrite : ℕ := 2

/-- `VIRTQ_HEAP_OFF` and the memory. -/
structure Pool where
  off : ℕ
  bytes : ℕ → UInt8

/-- `virtq_alloc` from the array at `base`: `none` is the null pointer. -/
def virtqAlloc (base : ℕ) (pool : Pool) (size align : ℕ) : Checked (Option ℕ × Pool) := do
  let stop ← add (2 ^ 64) base virtqHeapSize
  let top ← add (2 ^ 64) base pool.off
  let start ← Memory.alignUp top align
  if start + size < 2 ^ 64 then
    if start + size > stop then pure (none, pool)
    else do
      let off ← sub (start + size) base
      pure (some start, { pool with off })
  else pure (none, pool)

/-- The fields of a `Virtq`: addresses of its parts. -/
structure Virtq where
  desc : ℕ
  avail : ℕ
  used : ℕ
  qsize : ℕ
  ring : ℕ
  ringSize : ℕ

namespace Virtq

variable (q : Virtq)

def availFlagsPtr : ℕ := q.avail
def availIdxPtr : ℕ := q.avail + 2
def availRingPtr : ℕ := q.avail + 4
def availUsedEventPtr : ℕ := q.availRingPtr + 2 * q.qsize
def usedFlagsPtr : ℕ := q.used
def usedIdxPtr : ℕ := q.used + 2
def usedRingPtr : ℕ := q.used + 4
def usedAvailEventPtr : ℕ := q.usedRingPtr + 8 * q.qsize

/-- The table of descriptors, and the two rings with their flags and events. -/
def descBlock : Block := ⟨q.desc, 16 * q.qsize⟩
def availBlock : Block := ⟨q.avail, 4 + q.qsize * 2 + 2⟩
def usedBlock : Block := ⟨q.used, 4 + 8 * q.qsize + 2⟩

end Virtq

/-- The fields that `alloc_virtq` clears. -/
def clearIndexes (q : Virtq) (bytes : ℕ → UInt8) : ℕ → UInt8 :=
  [q.availFlagsPtr, q.availIdxPtr, q.availUsedEventPtr, q.usedFlagsPtr, q.usedIdxPtr, q.usedAvailEventPtr].foldl
    (fun bytes addr => store bytes 2 addr 0) bytes

/-- `alloc_virtq`. -/
def allocVirtq (base : ℕ) (pool : Pool) (qsize : ℕ) (legacy : Bool) : Checked (Option Virtq × Pool) := do
  if qsize = 0 then pure (none, pool)
  else do
    let descSize := 16 * qsize
    let availSize := 4 + qsize * 2 + 2
    let usedSize := 4 + 8 * qsize + 2
    let usedOff ← Memory.alignUp (descSize + availSize) (if legacy then legacyQueueAlign else 4)
    let total := usedOff + usedSize
    let (ring, pool) ← virtqAlloc base pool total (if legacy then legacyQueueAlign else 16)
    match ring with
    | none => pure (none, pool)
    | some ring =>
      let q : Virtq := ⟨ring, ring + descSize, ring + usedOff, qsize, ring, total⟩
      pure (some q, { pool with bytes := clearIndexes q pool.bytes })

/-- The loop that allocates the receive buffers. It stops at the first that there is no room for. -/
def allocRxBufs (base : ℕ) : ℕ → Pool → Checked (List ℕ × Pool)
  | 0, pool => pure ([], pool)
  | count + 1, pool => do
    let (buf, pool) ← virtqAlloc base pool rxBufLen 4096
    match buf with
    | none => pure ([], pool)
    | some buf => do
      let (bufs, pool) ← allocRxBufs base count pool
      pure (buf :: bufs, pool)

/-- A descriptor that lets the device write to a buffer, and its place in the avail ring. -/
def fillDesc (q : Virtq) (bytes : ℕ → UInt8) (buf j : ℕ) : ℕ → UInt8 :=
  let d := q.desc + 16 * j
  let bytes := store bytes 8 d buf
  let bytes := store bytes 4 (d + 8) rxBufLen
  let bytes := store bytes 2 (d + 12) virtqDescFWrite
  let bytes := store bytes 2 (d + 14) 0
  store bytes 2 (q.availRingPtr + 2 * j) j

def fillDescs (q : Virtq) : ℕ → List ℕ → (ℕ → UInt8) → (ℕ → UInt8)
  | _, [], bytes => bytes
  | j, buf :: bufs, bytes => fillDescs q (j + 1) bufs (fillDesc q bytes buf j)

/-- The registers of the device that `init_queues` writes. -/
inductive Reg where
  | guestPageSize
  | queueSel
  | queueNum
  | queueAlign
  | queuePfn
  | queueReady
  | descLow
  | descHigh
  | availLow
  | availHigh
  | usedLow
  | usedHigh
  | notify
  deriving DecidableEq, Repr

/-- The low and the high word of an address. -/
def words (low high : Reg) (addr : ℕ) : List (Reg × ℕ) := [(low, addr % 2 ^ 32), (high, addr / 2 ^ 32 % 2 ^ 32)]

/-- The device is told of a queue. -/
def tellQueue (modern : Bool) (sel : ℕ) (q : Virtq) : List (Reg × ℕ) :=
  [(.queueSel, sel), (.queueNum, q.qsize)] ++
    if modern then
      words .descLow .descHigh q.desc ++ words .availLow .availHigh q.avail ++
        words .usedLow .usedHigh q.used ++ [(.queueReady, 1)]
    else [(.queueAlign, legacyQueueAlign), (.queuePfn, q.ring / 4096 % 2 ^ 32)]

/-- What `init_queues` leaves: both queues, the receive buffers, memory, and the writes to the
device's registers. -/
structure Driver where
  rxq : Virtq
  txq : Virtq
  bufs : List ℕ
  bytes : ℕ → UInt8
  regs : List (Reg × ℕ)

/-- `init_queues`, for a device that reports `max0` and `max1` as the sizes of its queues: `none` when
it returns false. -/
def initQueues (base : ℕ) (pool : Pool) (modern : Bool) (max0 max1 : UInt16) : Checked (Option Driver) := do
  let start := if modern then [] else [(Reg.guestPageSize, legacyQueueAlign)]
  if max0 = 0 then pure none
  else do
    let qsize := if max0.toNat < maxQsize then max0.toNat else maxQsize
    let (rxq, pool) ← allocVirtq base pool qsize !modern
    match rxq with
    | none => pure none
    | some rxq => do
      let (bufs, pool) ← allocRxBufs base (if qsize < rxBufCountMax then qsize else rxBufCountMax) pool
      if bufs.length = 0 then pure none
      else do
        let bytes := store (fillDescs rxq 0 bufs pool.bytes) 2 rxq.availIdxPtr bufs.length
        if max1 = 0 then pure none
        else do
          let qsize1 := if max1.toNat < maxQsize then max1.toNat else maxQsize
          let (txq, pool) ← allocVirtq base { pool with bytes } qsize1 !modern
          match txq with
          | none => pure none
          | some txq => pure (some
              { rxq, txq, bufs, bytes := pool.bytes
                regs := start ++ tellQueue modern 0 rxq ++ [(.notify, 0)] ++ tellQueue modern 1 txq })

/-- What a device keeps of the writes to its registers. -/
structure Device where
  pageSize : ℕ
  sel : ℕ
  queue : ℕ → Reg → ℕ

def Device.write (device : Device) : Reg × ℕ → Device
  | (.guestPageSize, value) => { device with pageSize := value }
  | (.queueSel, value) => { device with sel := value }
  | (.notify, _) => device
  | (reg, value) =>
    let regs := Function.update (device.queue device.sel) reg value
    { device with queue := Function.update device.queue device.sel regs }

def Device.afterWrites (regs : List (Reg × ℕ)) : Device := regs.foldl Device.write ⟨0, 0, fun _ _ => 0⟩

/-- Where a device looks for the descriptors, the avail ring and the used ring of a queue: a legacy
device lays them out itself from one page number. -/
def Device.parts (device : Device) (modern : Bool) (queue : ℕ) : ℕ × ℕ × ℕ :=
  let reg := device.queue queue
  if modern then
    (reg .descLow + 2 ^ 32 * reg .descHigh, reg .availLow + 2 ^ 32 * reg .availHigh,
      reg .usedLow + 2 ^ 32 * reg .usedHigh)
  else
    let ring := reg .queuePfn * device.pageSize
    let avail := ring + 16 * reg .queueNum
    (ring, avail, Arena.alignUp (avail + 2 * (3 + reg .queueNum)) (reg .queueAlign))

section Alloc

variable {base qsize : ℕ} {pool : Pool} {legacy : Bool}

theorem virtqAlloc_eq {size align k : ℕ} (hbase : base + virtqHeapSize < 2 ^ 63) (halign : align = 2 ^ k) (hk : k < 63)
    (hroom : pool.off + (align - 1) + size ≤ virtqHeapSize) :
    virtqAlloc base pool size align = .ok (some (Arena.alignUp (base + pool.off) align),
      { pool with off := Arena.alignUp (base + pool.off) align + size - base }) := by
  have hpow : 2 ^ k ≤ 2 ^ 62 := Nat.pow_le_pow_right (by decide) (by omega)
  have hpos : 0 < align := halign ▸ Nat.two_pow_pos k
  have hle := Arena.alignUp_le (base + pool.off) align
  have hge : base + pool.off ≤ Arena.alignUp (base + pool.off) align := Arena.le_alignUp hpos
  unfold virtqAlloc
  rw [add, if_pos (by omega), ok_bind, add, if_pos (by omega), ok_bind,
    Memory.alignUp_eq halign (by omega) (by omega), ok_bind, if_pos (by omega), if_neg (by omega), sub,
    if_pos (by omega)]
  rfl

/-- What `alloc_virtq` is asked for, laid out behind what was handed out before. -/
structure Laid (base : ℕ) (pool : Pool) (legacy : Bool) (q : Virtq) (after : Pool) : Prop where
  start : base + pool.off ≤ q.desc
  ring : q.ring = q.desc
  avail : q.avail = q.desc + 16 * q.qsize
  used : q.used = q.desc + Arena.alignUp (16 * q.qsize + (4 + q.qsize * 2 + 2)) (if legacy then legacyQueueAlign else 4)
  aligned : (if legacy then legacyQueueAlign else 16) ∣ q.desc
  stop : q.usedBlock.stop = base + after.off
  room : after.off ≤ pool.off + 14858
  bytes : after.bytes = clearIndexes q pool.bytes

theorem allocVirtq_eq (hbase : base + virtqHeapSize < 2 ^ 63) (hpos : 0 < qsize) (hsize : qsize ≤ maxQsize)
    (hroom : pool.off + 14858 ≤ virtqHeapSize) (legacy : Bool) :
    ∃ q after, allocVirtq base pool qsize legacy = .ok (some q, after) ∧ q.qsize = qsize ∧
      Laid base pool legacy q after := by
  have hmax : maxQsize = 256 := rfl
  have hheap : virtqHeapSize = 131072 := rfl
  obtain ⟨k, hk, hused⟩ : ∃ k ≤ 12, (if legacy then legacyQueueAlign else 4) = 2 ^ k := by
    cases legacy
    · exact ⟨2, by decide, rfl⟩
    · exact ⟨12, by decide, rfl⟩
  obtain ⟨l, hl, hring⟩ : ∃ l ≤ 12, (if legacy then legacyQueueAlign else 16) = 2 ^ l := by
    cases legacy
    · exact ⟨4, by decide, rfl⟩
    · exact ⟨12, by decide, rfl⟩
  have hkpow : 2 ^ k ≤ 2 ^ 12 := Nat.pow_le_pow_right (by decide) hk
  have hlpow : 2 ^ l ≤ 2 ^ 12 := Nat.pow_le_pow_right (by decide) hl
  have hkpos := Nat.two_pow_pos k
  have hlpos := Nat.two_pow_pos l
  have hoff := Arena.alignUp_le (16 * qsize + (4 + qsize * 2 + 2)) (2 ^ k)
  have hstart := Arena.alignUp_le (base + pool.off) (2 ^ l)
  have hbelow : base + pool.off ≤ Arena.alignUp (base + pool.off) (2 ^ l) := Arena.le_alignUp hlpos
  unfold allocVirtq
  dsimp only
  rw [if_neg hpos.ne', hused, hring, Memory.alignUp_eq rfl (by omega) (by omega), ok_bind,
    virtqAlloc_eq hbase rfl (by omega) (by omega), ok_bind]
  refine ⟨_, _, rfl, rfl, ?_⟩
  constructor
  · exact hbelow
  · rfl
  · rfl
  · dsimp only
    rw [hused]
  · rw [hring]
    exact Arena.dvd_alignUp _ _
  · unfold Virtq.usedBlock Block.stop
    dsimp only
    omega
  · dsimp only
    omega
  · rfl

theorem allocRxBufs_eq (hbase : base + virtqHeapSize < 2 ^ 63) (count : ℕ)
    (hroom : pool.off + count * 12287 ≤ virtqHeapSize) :
    ∃ bufs after, allocRxBufs base count pool = .ok (bufs, after) ∧ bufs.length = count ∧
      after.off ≤ pool.off + count * 12287 ∧ after.bytes = pool.bytes ∧ (∀ buf ∈ bufs, 4096 ∣ buf) ∧
      ∀ blocks, Stacked base (base + pool.off) blocks →
        Stacked base (base + after.off) ((bufs.map (Block.mk · rxBufLen)).reverse ++ blocks) := by
  have hlen : rxBufLen = 8192 := rfl
  induction count generalizing pool with
  | zero => exact ⟨[], pool, rfl, rfl, by omega, rfl, by simp, fun blocks h => h⟩
  | succ count ih =>
    have hstart := Arena.alignUp_le (base + pool.off) 4096
    have hbelow : base + pool.off ≤ Arena.alignUp (base + pool.off) 4096 := Arena.le_alignUp (by decide)
    have halloc : virtqAlloc base pool rxBufLen 4096 = .ok (some (Arena.alignUp (base + pool.off) 4096),
        { pool with off := Arena.alignUp (base + pool.off) 4096 + rxBufLen - base }) :=
      virtqAlloc_eq (k := 12) hbase rfl (by decide) (by omega)
    have hnext : (Pool.mk (Arena.alignUp (base + pool.off) 4096 + rxBufLen - base) pool.bytes).off + count * 12287 ≤
        virtqHeapSize := by
      dsimp only
      omega
    obtain ⟨bufs, after, hbufs, hcount, hoff, hbytes, haligned, hstacked⟩ := ih hnext
    refine ⟨Arena.alignUp (base + pool.off) 4096 :: bufs, after, ?_, ?_, ?_, hbytes, ?_, ?_⟩
    · unfold allocRxBufs
      rw [halloc, ok_bind]
      dsimp only
      rw [hbufs]
      rfl
    · rw [List.length_cons, hcount]
    · dsimp only at hoff
      omega
    · intro buf hmem
      rcases List.mem_cons.mp hmem with rfl | hmem
      · exact Arena.dvd_alignUp _ _
      · exact haligned buf hmem
    · intro blocks h
      rw [List.map_cons, List.reverse_cons, List.append_assoc, List.singleton_append]
      apply hstacked
      have hbuf : base + pool.off ≤ Block.start ⟨Arena.alignUp (base + pool.off) 4096, rxBufLen⟩ := hbelow
      apply (h.push hbuf).raise
      unfold Block.stop
      dsimp only
      omega

end Alloc

section Told

variable {base : ℕ} {pool after : Pool} {modern : Bool} {rxq txq q : Virtq}

/-- The writes to the registers for two queues. -/
def setUp (modern : Bool) (rxq txq : Virtq) : List (Reg × ℕ) :=
  (if modern then [] else [(Reg.guestPageSize, legacyQueueAlign)]) ++ tellQueue modern 0 rxq ++ [(.notify, 0)] ++
    tellQueue modern 1 txq

/-- The parts of a queue, as the registers hold them. -/
def told (modern : Bool) (q : Virtq) : ℕ × ℕ × ℕ :=
  if modern then
    (q.desc % 2 ^ 32 + 2 ^ 32 * (q.desc / 2 ^ 32 % 2 ^ 32), q.avail % 2 ^ 32 + 2 ^ 32 * (q.avail / 2 ^ 32 % 2 ^ 32),
      q.used % 2 ^ 32 + 2 ^ 32 * (q.used / 2 ^ 32 % 2 ^ 32))
  else
    let ring := q.ring / 4096 % 2 ^ 32 * legacyQueueAlign
    (ring, ring + 16 * q.qsize, Arena.alignUp (ring + 16 * q.qsize + 2 * (3 + q.qsize)) legacyQueueAlign)

theorem parts_setUp (modern : Bool) (rxq txq : Virtq) :
    (Device.afterWrites (setUp modern rxq txq)).parts modern 0 = told modern rxq ∧
      (Device.afterWrites (setUp modern rxq txq)).parts modern 1 = told modern txq := by
  cases modern
  · simp [setUp, tellQueue, Device.afterWrites, Device.write, Device.parts, told]
  · simp [setUp, tellQueue, words, Device.afterWrites, Device.write, Device.parts, told]

/-- Below `2 ^ 44` the registers hold the whole of each address, and a legacy device that counts from
the page finds the same places. -/
theorem told_eq (h : Laid base pool (!modern) q after) (hbase : base + virtqHeapSize < 2 ^ 44)
    (hroom : after.off ≤ virtqHeapSize) : told modern q = (q.desc, q.avail, q.used) := by
  have hstop := h.stop
  have havail := h.avail
  have hstart : q.desc + Arena.alignUp (16 * q.qsize + (4 + q.qsize * 2 + 2))
      (if !modern then legacyQueueAlign else 4) = q.used := h.used.symm
  have hbelow : 16 * q.qsize ≤ Arena.alignUp (16 * q.qsize + (4 + q.qsize * 2 + 2))
      (if !modern then legacyQueueAlign else 4) := by
    have hle : 16 * q.qsize + (4 + q.qsize * 2 + 2) ≤ Arena.alignUp (16 * q.qsize + (4 + q.qsize * 2 + 2))
        (if !modern then legacyQueueAlign else 4) := Arena.le_alignUp (by cases modern <;> decide)
    omega
  unfold Virtq.usedBlock Block.stop at hstop
  dsimp only at hstop
  cases modern with
  | true =>
    have hword : ∀ addr < 2 ^ 44, addr % 2 ^ 32 + 2 ^ 32 * (addr / 2 ^ 32 % 2 ^ 32) = addr := by
      intro addr haddr
      omega
    change (_, _, _) = _
    rw [hword q.desc (by omega), hword q.avail (by omega), hword q.used (by omega)]
  | false =>
    have haligned : legacyQueueAlign ∣ q.desc := h.aligned
    have hpage : q.desc / 4096 % 2 ^ 32 * 4096 = q.desc := by
      obtain ⟨page, hpage⟩ := haligned
      have hpage : q.desc = 4096 * page := hpage
      omega
    have hring : q.ring / 4096 % 2 ^ 32 * legacyQueueAlign = q.desc := by
      rw [h.ring]
      exact hpage
    have hused : q.used = q.desc + Arena.alignUp (16 * q.qsize + (4 + q.qsize * 2 + 2)) legacyQueueAlign := h.used
    have hsum : q.desc + 16 * q.qsize + 2 * (3 + q.qsize) = q.desc + (16 * q.qsize + (4 + q.qsize * 2 + 2)) := by omega
    change (_, _, _) = _
    rw [hring, hsum, Arena.alignUp_add_of_dvd haligned, ← hused, ← havail]

end Told

section Filled

variable {q : Virtq} {bytes : ℕ → UInt8} {addr : ℕ}

theorem clearIndexes_outside (havail : addr < q.avail ∨ q.availBlock.stop ≤ addr)
    (hused : addr < q.used ∨ q.usedBlock.stop ≤ addr) : clearIndexes q bytes addr = bytes addr := by
  unfold Virtq.availBlock Block.stop at havail
  unfold Virtq.usedBlock Block.stop at hused
  dsimp only at havail hused
  unfold clearIndexes Virtq.availFlagsPtr Virtq.availIdxPtr Virtq.availUsedEventPtr Virtq.availRingPtr
    Virtq.usedFlagsPtr Virtq.usedIdxPtr Virtq.usedAvailEventPtr Virtq.usedRingPtr
  simp only [List.foldl_cons, List.foldl_nil]
  rw [store_outside (by omega), store_outside (by omega), store_outside (by omega), store_outside (by omega),
    store_outside (by omega), store_outside (by omega)]

theorem clearIndexes_zero (h : bytes addr = 0) : clearIndexes q bytes addr = 0 := by
  unfold clearIndexes
  simp only [List.foldl_cons, List.foldl_nil]
  exact store_zero (store_zero (store_zero (store_zero (store_zero (store_zero h)))))

/-- The flags, the events and the idle cells of the avail ring are not touched when descriptors are
filled in. -/
theorem fillDesc_outside {buf j : ℕ} (hdesc : addr < q.desc + 16 * j ∨ q.desc + 16 * (j + 1) ≤ addr)
    (hring : addr < q.availRingPtr + 2 * j ∨ q.availRingPtr + 2 * (j + 1) ≤ addr) :
    fillDesc q bytes buf j addr = bytes addr := by
  unfold fillDesc
  rw [store_outside (by omega), store_outside (by omega), store_outside (by omega), store_outside (by omega),
    store_outside (by omega)]

theorem fillDescs_outside (bufs : List ℕ) (j : ℕ) (bytes : ℕ → UInt8)
    (hdesc : addr < q.desc + 16 * j ∨ q.desc + 16 * (j + bufs.length) ≤ addr)
    (hring : addr < q.availRingPtr + 2 * j ∨ q.availRingPtr + 2 * (j + bufs.length) ≤ addr) :
    fillDescs q j bufs bytes addr = bytes addr := by
  induction bufs generalizing j bytes with
  | nil => rfl
  | cons buf bufs ih =>
    rw [List.length_cons] at hdesc hring
    rw [fillDescs, ih _ _ (by omega) (by omega), fillDesc_outside (by omega) (by omega)]

/-- A descriptor hands a whole receive buffer to the device, and has its place in the avail ring. -/
structure DescAt (q : Virtq) (bytes : ℕ → UInt8) (j buf : ℕ) : Prop where
  addr : load bytes 8 (q.desc + 16 * j) = buf
  len : load bytes 4 (q.desc + 16 * j + 8) = rxBufLen
  flags : load bytes 2 (q.desc + 16 * j + 12) = virtqDescFWrite
  next : load bytes 2 (q.desc + 16 * j + 14) = 0
  offered : load bytes 2 (q.availRingPtr + 2 * j) = j

theorem DescAt.congr {other : ℕ → UInt8} {j buf : ℕ} (h : DescAt q bytes j buf)
    (hdesc : ∀ i < 16, other (q.desc + 16 * j + i) = bytes (q.desc + 16 * j + i))
    (hring : ∀ i < 2, other (q.availRingPtr + 2 * j + i) = bytes (q.availRingPtr + 2 * j + i)) :
    DescAt q other j buf := by
  have hfield : ∀ off width, off + width ≤ 16 →
      load other width (q.desc + 16 * j + off) = load bytes width (q.desc + 16 * j + off) := by
    intro off width hle
    apply load_congr
    intro i hi
    rw [Nat.add_assoc]
    exact hdesc _ (by omega)
  constructor
  · exact (hfield 0 8 (by decide)).trans h.addr
  · exact (hfield 8 4 (by decide)).trans h.len
  · exact (hfield 12 2 (by decide)).trans h.flags
  · exact (hfield 14 2 (by decide)).trans h.next
  · exact (load_congr hring).trans h.offered

theorem apart_of_le {a b m n : ℕ} (h : a + m ≤ b ∨ b + n ≤ a) : Block.Apart ⟨a, m⟩ ⟨b, n⟩ := h

theorem descAt_fillDesc {buf j : ℕ} (havail : q.avail = q.desc + 16 * q.qsize) (hj : j < q.qsize)
    (hbuf : buf < 2 ^ 64) (hcount : j < 2 ^ 16) : DescAt q (fillDesc q bytes buf j) j buf := by
  have hring : q.desc + 16 * (j + 1) ≤ q.availRingPtr + 2 * j := by
    unfold Virtq.availRingPtr
    omega
  have hlen : rxBufLen = 8192 := rfl
  unfold fillDesc
  dsimp only
  constructor
  · rw [load_store_apart (apart_of_le (by omega)), load_store_apart (apart_of_le (by omega)),
      load_store_apart (apart_of_le (by omega)), load_store_apart (apart_of_le (by omega)), load_store hbuf]
  · rw [load_store_apart (apart_of_le (by omega)), load_store_apart (apart_of_le (by omega)),
      load_store_apart (apart_of_le (by omega)), load_store (by decide)]
  · rw [load_store_apart (apart_of_le (by omega)), load_store_apart (apart_of_le (by omega)), load_store (by decide)]
  · rw [load_store_apart (apart_of_le (by omega)), load_store (by decide)]
  · rw [load_store hcount]

theorem descAt_fillDescs (havail : q.avail = q.desc + 16 * q.qsize) (hsize : q.qsize < 2 ^ 16) (bufs : List ℕ)
    (j : ℕ) (bytes : ℕ → UInt8) (hlen : j + bufs.length ≤ q.qsize) (hbufs : ∀ buf ∈ bufs, buf < 2 ^ 64) :
    ∀ i buf, bufs[i]? = some buf → DescAt q (fillDescs q j bufs bytes) (j + i) buf := by
  induction bufs generalizing j bytes with
  | nil => simp
  | cons first bufs ih =>
    rw [List.length_cons] at hlen
    have hring : q.desc + 16 * q.qsize + 4 = q.availRingPtr := by
      unfold Virtq.availRingPtr
      omega
    intro i buf hi
    cases i with
    | zero =>
      obtain rfl : first = buf := Option.some.inj hi
      have hfirst : DescAt q (fillDesc q bytes first j) j first :=
        descAt_fillDesc havail (by omega) (hbufs first List.mem_cons_self) (by omega)
      have hrest : ∀ addr, (addr < q.desc + 16 * (j + 1)) ∨ (q.desc + 16 * q.qsize ≤ addr ∧
          addr < q.availRingPtr + 2 * (j + 1)) →
          fillDescs q (j + 1) bufs (fillDesc q bytes first j) addr = fillDesc q bytes first j addr := by
        intro addr haddr
        exact fillDescs_outside bufs (j + 1) _ (by omega) (by omega)
      apply hfirst.congr
      · intro i hi
        exact hrest _ (.inl (by omega))
      · intro i hi
        exact hrest _ (.inr ⟨by omega, by omega⟩)
    | succ i =>
      have hrest := ih (j + 1) (fillDesc q bytes first j) (by omega) (fun buf hbuf => hbufs buf (List.mem_cons_of_mem _ hbuf))
        i buf hi
      rw [fillDescs, show j + (i + 1) = j + 1 + i by omega]
      exact hrest

end Filled

section Ready

variable {base : ℕ} {pool after : Pool} {legacy : Bool} {q : Virtq} {blocks : List Block}

/-- All that is handed out, the last part first. -/
def Driver.areas (d : Driver) : List Block :=
  d.txq.usedBlock :: d.txq.availBlock :: d.txq.descBlock :: ((d.bufs.map (Block.mk · rxBufLen)).reverse ++
    [d.rxq.usedBlock, d.rxq.availBlock, d.rxq.descBlock])

theorem Laid.avail_le (h : Laid base pool legacy q after) : q.availBlock.stop ≤ q.used := by
  have hle : 16 * q.qsize + (4 + q.qsize * 2 + 2) ≤ Arena.alignUp (16 * q.qsize + (4 + q.qsize * 2 + 2))
      (if legacy then legacyQueueAlign else 4) := Arena.le_alignUp (by cases legacy <;> decide)
  have havail := h.avail
  have hused := h.used
  unfold Virtq.availBlock Block.stop
  dsimp only
  omega

theorem Laid.stacked (h : Laid base pool legacy q after) (hblocks : Stacked base (base + pool.off) blocks) :
    Stacked base (base + after.off) (q.usedBlock :: q.availBlock :: q.descBlock :: blocks) := by
  have hdesc : base + pool.off ≤ q.descBlock.start := h.start
  have havail : q.descBlock.stop ≤ q.availBlock.start := h.avail.ge
  have hused : q.availBlock.stop ≤ q.usedBlock.start := h.avail_le
  rw [← h.stop]
  exact ((hblocks.push hdesc).push havail).push hused

/-- The parts share no byte, the device looks for them where they are, each descriptor offers a
receive buffer of its own, and the avail ring is that of the receive loop before its first packet. -/
structure Ready (base : ℕ) (modern : Bool) (d : Driver) : Prop where
  apart : d.areas.Pairwise Block.Apart
  inside : ∀ area ∈ d.areas, area.Within base (base + virtqHeapSize)
  rx : (Device.afterWrites d.regs).parts modern 0 = (d.rxq.desc, d.rxq.avail, d.rxq.used)
  tx : (Device.afterWrites d.regs).parts modern 1 = (d.txq.desc, d.txq.avail, d.txq.used)
  pages : ∀ buf ∈ d.bufs, 4096 ∣ buf
  count : d.bufs.length = min d.rxq.qsize rxBufCountMax
  descs : ∀ j buf, d.bufs[j]? = some buf → DescAt d.rxq d.bytes j buf
  ring : (List.range d.rxq.qsize).map (fun j => UInt16.ofNat (load d.bytes 2 (d.rxq.availRingPtr + 2 * j))) =
    (Net.initQueues d.rxq.qsize d.bufs.length).rxq.avail
  idx : UInt16.ofNat (load d.bytes 2 d.rxq.availIdxPtr) = (Net.initQueues d.rxq.qsize d.bufs.length).rxq.availIdx

theorem Ready.of_laid {modern : Bool} {rxq txq : Virtq} {pool1 pool2 pool3 : Pool} {bufs : List ℕ}
    (hbase : base + virtqHeapSize < 2 ^ 44) (hrx : Laid base ⟨0, fun _ => 0⟩ (!modern) rxq pool1)
    (hsize : rxq.qsize ≤ maxQsize) (hlen : bufs.length = min rxq.qsize rxBufCountMax)
    (hbytes2 : pool2.bytes = pool1.bytes) (hpages : ∀ buf ∈ bufs, 4096 ∣ buf)
    (hbufs : ∀ blocks, Stacked base (base + pool1.off) blocks →
      Stacked base (base + pool2.off) ((bufs.map (Block.mk · rxBufLen)).reverse ++ blocks))
    (htx : Laid base { pool2 with bytes := store (fillDescs rxq 0 bufs pool2.bytes) 2 rxq.availIdxPtr bufs.length }
      (!modern) txq pool3) (hroom1 : pool1.off ≤ virtqHeapSize) (hroom : pool3.off ≤ virtqHeapSize) :
    Ready base modern ⟨rxq, txq, bufs, pool3.bytes, setUp modern rxq txq⟩ := by
  have hmax : maxQsize = 256 := rfl
  have hbufMax : rxBufCountMax = 8 := rfl
  have hempty : Stacked base (base + 0) [] := Nat.le_add_right base 0
  have hstack2 := hbufs _ (hrx.stacked hempty)
  have hstack := htx.stacked hstack2
  have hinside := hstack.within
  have hbelow : rxq.usedBlock.stop ≤ txq.desc := by
    have hused := (hstack2.within rxq.usedBlock (List.mem_append_right _ List.mem_cons_self)).2
    have hstart : base + pool2.off ≤ txq.desc := htx.start
    omega
  have hring := hrx.avail
  have hrxUsed := hrx.avail_le
  have htxAvail := htx.avail
  have htxUsed := htx.avail_le
  unfold Virtq.usedBlock Block.stop at hbelow
  unfold Virtq.availBlock Block.stop at hrxUsed htxUsed
  dsimp only at hbelow hrxUsed htxUsed
  have hbytes : ∀ addr < rxq.used, pool3.bytes addr =
      store (fillDescs rxq 0 bufs pool2.bytes) 2 rxq.availIdxPtr bufs.length addr := by
    intro addr haddr
    rw [htx.bytes, clearIndexes_outside (.inl (by omega)) (.inl (by omega))]
  have hidx : rxq.availIdxPtr = rxq.avail + 2 := rfl
  have hcells : rxq.availRingPtr = rxq.avail + 4 := rfl
  have hword : ∀ buf ∈ bufs, buf < 2 ^ 64 := by
    intro buf hmem
    have hblock : Block.mk buf rxBufLen ∈ txq.usedBlock :: txq.availBlock :: txq.descBlock ::
        ((bufs.map (Block.mk · rxBufLen)).reverse ++ [rxq.usedBlock, rxq.availBlock, rxq.descBlock]) := by
      simp only [List.mem_cons, List.mem_append, List.mem_reverse]
      exact .inr (.inr (.inr (.inl (List.mem_map_of_mem hmem))))
    have hstop : buf + rxBufLen ≤ base + pool3.off := (hinside _ hblock).2
    omega
  have hdescs : ∀ j buf, bufs[j]? = some buf → DescAt rxq pool3.bytes j buf := by
    intro j buf hj
    have hlt := (List.getElem?_eq_some_iff.mp hj).1
    have hfilled := descAt_fillDescs hring (by omega) bufs 0 pool2.bytes (by omega) hword j buf hj
    rw [Nat.zero_add] at hfilled
    apply hfilled.congr
    · intro i hi
      rw [hbytes _ (by omega), store_outside (by omega)]
    · intro i hi
      rw [hbytes _ (by omega), store_outside (by omega)]
  constructor
  · exact hstack.apart
  · intro area hmem
    obtain ⟨hlow, hhigh⟩ := hinside area hmem
    exact ⟨hlow, by omega⟩
  · rw [(parts_setUp modern rxq txq).1, told_eq hrx hbase hroom1]
  · rw [(parts_setUp modern rxq txq).2, told_eq htx hbase hroom]
  · exact hpages
  · exact hlen
  · exact hdescs
  · apply List.map_congr_left
    intro j hmem
    have hj : j < rxq.qsize := List.mem_range.mp hmem
    by_cases hlt : j < bufs.length
    · rw [if_pos hlt, (hdescs j _ (List.getElem?_eq_getElem hlt)).offered]
    · rw [if_neg hlt]
      have hzero : load pool3.bytes 2 (rxq.availRingPtr + 2 * j) = load (fun _ => 0) 2 (rxq.availRingPtr + 2 * j) := by
        apply load_congr
        intro i hi
        rw [hbytes _ (by omega), store_outside (by omega), fillDescs_outside _ _ _ (by omega) (by omega), hbytes2,
          hrx.bytes, clearIndexes_zero rfl]
      rw [hzero]
      rfl
  · have hload : load pool3.bytes 2 rxq.availIdxPtr = bufs.length := by
      have hstored : load (store (fillDescs rxq 0 bufs pool2.bytes) 2 rxq.availIdxPtr bufs.length) 2
          rxq.availIdxPtr = bufs.length := load_store (by omega)
      exact (load_congr fun i hi => hbytes _ (by omega)).trans hstored
    rw [hload]
    rfl

theorem clamped {max : UInt16} (h : max ≠ 0) : 0 < (if max.toNat < maxQsize then max.toNat else maxQsize) ∧
    (if max.toNat < maxQsize then max.toNat else maxQsize) ≤ maxQsize := by
  have hpos : max.toNat ≠ 0 := fun hzero => h (UInt16.toNat_inj.mp hzero)
  have hmax : maxQsize = 256 := rfl
  split_ifs
  · omega
  · omega

end Ready

end MiniAgentOS.Net.Queues
