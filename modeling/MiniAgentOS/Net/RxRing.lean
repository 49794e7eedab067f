import MiniAgentOS.Lib.Ring

/-! The receive queue of the network driver: the virtio rings, the current packet and the
re-arming of its descriptor. -/
namespace MiniAgentOS.Net
open Ring16

/-- `RX_BUF_LEN`. -/
def rxBufLen : ℕ := 8192

/-- `RX_BUF_COUNT_MAX`. -/
def rxBufCountMax : ℕ := 8

/-- The rings of a `Virtq`, both of `qsize` cells. Cells of the used ring hold the id and the
length of a `VirtqUsedElem`. -/
structure Virtq where
  avail : List UInt16
  availIdx : UInt16
  used : List (UInt32 × UInt32)
  usedIdx : UInt16
  same_size : used.length = avail.length

def Virtq.qsize (q : Virtq) : ℕ := q.avail.length

/-- The receive side of the driver: `RXQ`, `RX_BUF_COUNT` and the `RX_CUR_*` globals. -/
structure RxDriver where
  rxq : Virtq
  bufCount : ℕ
  curId : UInt16
  curLen : ℕ
  curValid : Bool
  needsRearm : Bool

/-- `init_queues` once `count` buffers are allocated for a queue of `qsize` entries: every
descriptor is in the avail ring. -/
def initQueues (qsize count : ℕ) : RxDriver where
  rxq :=
    { avail := (List.range qsize).map fun slot => if slot < count then UInt16.ofNat slot else 0
      availIdx := UInt16.ofNat count
      used := List.replicate qsize (0, 0)
      usedIdx := 0
      same_size := by simp }
  bufCount := count
  curId := 0
  curLen := 0
  curValid := true
  needsRearm := false

/-- `rx_used_idx`. -/
def rxUsedIdx (rx : RxDriver) : UInt16 := rx.rxq.usedIdx

/-- `rx_used_elem_fields`. -/
def rxUsedElemFields (rx : RxDriver) (idx : UInt16) : Option (UInt32 × UInt32) :=
  if idx = 0 then
    none
  else if rx.rxq.qsize = 0 then
    none
  else
    some (read rx.rxq.used (0, 0) (idx - 1))

/-- `rx_set_current`. -/
def rxSetCurrent (rx : RxDriver) (id len : UInt32) : Bool × RxDriver :=
  let idx := id.toNat
  if idx ≥ rx.bufCount then
    (false, { rx with curValid := false, curLen := 0 })
  else
    (true, { rx with
      curId := UInt16.ofNat idx
      curLen := if len.toNat > rxBufLen then rxBufLen else len.toNat
      curValid := true
      needsRearm := true })

/-- Write `id` at the head of the avail ring and advance the index. -/
def Virtq.makeAvailable (q : Virtq) (id : UInt16) : Virtq :=
  { q with
    avail := write q.avail q.availIdx id
    availIdx := q.availIdx + 1
    same_size := by rw [length_write, q.same_size] }

/-- `rx_rearm_id`. -/
def rxRearmId (rx : RxDriver) (id : UInt16) : RxDriver :=
  if rx.rxq.qsize = 0 then rx else { rx with rxq := rx.rxq.makeAvailable id }

/-- The guard of `rx_rearm`: there is a current packet that was not re-armed yet. -/
def RxDriver.owesRearm (rx : RxDriver) : Bool := rx.curValid && rx.needsRearm

/-- `rx_rearm`. -/
def rxRearm (rx : RxDriver) : RxDriver :=
  if rx.rxq.qsize = 0 ∨ !rx.owesRearm then
    rx
  else
    { rxRearmId rx rx.curId with needsRearm := false }

/-- The device's side of the queue: how far it has read the avail ring, and the descriptors it
has taken from there and not completed. -/
structure RxDevice where
  lastAvail : UInt16
  held : List UInt16

/-- The device takes the next descriptor from the avail ring. -/
def RxDevice.fetch (device : RxDevice) (q : Virtq) : RxDevice where
  lastAvail := device.lastAvail + 1
  held := device.held ++ [read q.avail 0 device.lastAvail]

/-- The device completes a descriptor. -/
def RxDevice.complete (device : RxDevice) (id : UInt16) : RxDevice :=
  { device with held := device.held.erase id }

/-- The used ring after the device has completed `id`. -/
def Virtq.complete (q : Virtq) (id : UInt16) (len : UInt32) : Virtq :=
  { q with
    used := write q.used q.usedIdx (id.toUInt32, len)
    usedIdx := q.usedIdx + 1
    same_size := by rw [length_write, q.same_size] }

end MiniAgentOS.Net
