import MiniAgentOS.Lib.Machine
import MiniAgentOS.Net.RxRing

/-! The receive loop of `kmain` and the device as one machine. An event is a step of either;
what a packet contains decides only whether its handling ends in a TLS yield. -/
namespace MiniAgentOS.Net
open Ring16

/-- Where the loop stands: at the head of the outer loop, at the head of `'rx`, or in the body
of `'rx` with a packet. -/
inductive LoopPhase where
  | outer
  | inner
  | handling
  deriving DecidableEq, Repr

/-- The loop, its variables `last_rx` and `cur`, and the device. `yielded` says that the last
packet left `'rx` early and was not re-armed since. The lists are the descriptors the device
has completed, those the loop has processed and those it has put back, in order. -/
structure RxLoop where
  rx : RxDriver
  device : RxDevice
  phase : LoopPhase
  lastRx : UInt16
  cur : UInt16
  yielded : Bool
  completed : List UInt16
  processed : List UInt16
  returned : List UInt16

inductive LoopEvent where
  /-- The device takes a descriptor from the avail ring. -/
  | deviceFetch
  /-- The device completes a descriptor it holds. -/
  | deviceComplete (id : UInt16) (len : UInt32)
  /-- `let mut cur = net::rx_used_idx()` at the head of the outer loop. -/
  | poll
  /-- `'rx` takes the next used element. -/
  | take
  /-- The body of `'rx` ends with `rx_rearm` and reads the used index again. -/
  | finish
  /-- The body of `'rx` leaves the loop to drain TLS. -/
  | yield
  /-- `'rx` has reached `cur`. -/
  | leave
  /-- `fetch_tick`, which calls `rx_rearm` before it sends in some states. -/
  | tick (rearms : Bool)
  deriving DecidableEq, Repr

/-- The head of the body of `'rx`: the next used element becomes the current packet. -/
def takePacket (rx : RxDriver) (lastRx : UInt16) : RxDriver :=
  match rxUsedElemFields rx lastRx with
  | some (id, len) => (rxSetCurrent rx id len).2
  | none => rx

/-- `rx_rearm`, with the descriptor it puts back. -/
def RxLoop.rearm (run : RxLoop) : RxLoop :=
  { run with
    rx := rxRearm run.rx
    yielded := false
    returned := if run.rx.owesRearm then run.returned ++ [run.rx.curId] else run.returned }

def loopStep (run : RxLoop) : LoopEvent → RxLoop
  | .deviceFetch => { run with device := run.device.fetch run.rx.rxq }
  | .deviceComplete id len =>
    { run with
      rx.rxq := run.rx.rxq.complete id len
      device := run.device.complete id
      completed := run.completed ++ [id] }
  | .poll => { run with phase := .inner, cur := rxUsedIdx run.rx }
  | .take =>
    let lastRx := run.lastRx + 1
    let rx := takePacket run.rx lastRx
    { run with
      rx, lastRx
      phase := .handling
      processed := run.processed ++ [rx.curId] }
  | .finish =>
    let run := run.rearm
    { run with phase := .inner, cur := rxUsedIdx run.rx }
  | .yield => { run with phase := .outer, yielded := true }
  | .leave => { run with phase := .outer }
  | .tick rearms => if rearms then run.rearm else run

/-- What the control flow of the loop and a device that obeys virtio allow. -/
def LoopAllowed (run : RxLoop) : LoopEvent → Prop
  | .deviceFetch => run.device.lastAvail ≠ run.rx.rxq.availIdx
  | .deviceComplete id _ => id ∈ run.device.held
  | .poll => run.phase = .outer
  | .take => run.phase = .inner ∧ run.cur ≠ run.lastRx
  | .finish => run.phase = .handling
  | .yield => run.phase = .handling
  | .leave => run.phase = .inner ∧ run.cur = run.lastRx
  | .tick _ => run.phase = .outer

instance (run : RxLoop) : ∀ event, Decidable (LoopAllowed run event)
  | .deviceFetch => inferInstanceAs (Decidable (_ ≠ _))
  | .deviceComplete _ _ => inferInstanceAs (Decidable (_ ∈ _))
  | .poll => inferInstanceAs (Decidable (_ = _))
  | .take => inferInstanceAs (Decidable (_ ∧ _))
  | .finish => inferInstanceAs (Decidable (_ = _))
  | .yield => inferInstanceAs (Decidable (_ = _))
  | .leave => inferInstanceAs (Decidable (_ ∧ _))
  | .tick _ => inferInstanceAs (Decidable (_ = _))

/-- What the avail ring holds for the device. -/
def RxLoop.availWindow (run : RxLoop) : List UInt16 :=
  window run.rx.rxq.avail 0 run.device.lastAvail run.rx.rxq.availIdx

/-- What the used ring holds for the loop. -/
def RxLoop.usedWindow (run : RxLoop) : List (UInt32 × UInt32) :=
  window run.rx.rxq.used (0, 0) run.lastRx run.rx.rxq.usedIdx

/-- Descriptors the device may still fill: those it holds and those in the avail ring. -/
def RxLoop.queued (run : RxLoop) : List UInt16 := run.device.held ++ run.availWindow

/-- Descriptors completed in the used ring and not yet processed. -/
def RxLoop.pending (run : RxLoop) : List UInt16 := run.usedWindow.map fun elem => elem.1.toUInt16

/-- The descriptor of the current packet while its re-arm is still owed. -/
def RxLoop.owed (run : RxLoop) : List UInt16 :=
  if run.rx.owesRearm then [run.rx.curId] else []

/-- Every descriptor. -/
def RxLoop.descriptors (run : RxLoop) : List UInt16 :=
  (List.range run.rx.bufCount).map UInt16.ofNat

/-- Every descriptor is in exactly one place; every completed element is processed once, in
order, and every processed descriptor is put back once, except one whose re-arm is owed: in
the body of `'rx`, or after a TLS yield. -/
structure Conserved (run : RxLoop) : Prop where
  places : (run.queued ++ run.pending ++ run.owed).Perm run.descriptors
  processed : run.processed ++ run.pending = run.completed
  returned : run.returned ++ run.owed = run.processed
  atHead : run.phase ≠ .handling → run.yielded = false → run.owed = []

/-- The loop starts with every descriptor queued and nothing completed: the rings are set up
and `last_rx` is the used index. The indices may stand anywhere. -/
structure LoopStart (run : RxLoop) : Prop where
  places : run.queued.Perm run.descriptors
  lastRx : run.lastRx = run.rx.rxq.usedIdx
  phase : run.phase = .outer
  curValid : run.rx.curValid = true
  needsRearm : run.rx.needsRearm = false
  traces : run.completed = [] ∧ run.processed = [] ∧ run.returned = []
  count_le : run.rx.bufCount ≤ rxBufCountMax
  fits : run.rx.bufCount ≤ run.rx.rxq.qsize
  pos : 0 < run.rx.rxq.qsize
  size_dvd : run.rx.rxq.qsize ∣ 2 ^ 16

/-- The receive loop and its device. -/
def rxLoopMachine : Machine RxLoop LoopEvent where
  init := LoopStart
  allowed := LoopAllowed
  step := loopStep

instance (run : RxLoop) (event : LoopEvent) : Decidable (rxLoopMachine.allowed run event) :=
  inferInstanceAs (Decidable (LoopAllowed run event))

/-- The steps that keep the receive buffers: no packet is taken as the used index goes on from
`0xFFFF`, nor after a TLS yield before the yielded packet is re-armed. -/
def KeepsBuffers (run : RxLoop) : LoopEvent → Prop
  | .take => run.lastRx ≠ 0xFFFF ∧ run.yielded = false
  | _ => True

instance (run : RxLoop) : ∀ event, Decidable (KeepsBuffers run event)
  | .take => inferInstanceAs (Decidable (_ ∧ _))
  | .deviceFetch | .deviceComplete _ _ | .poll | .finish | .yield | .leave | .tick _ => isTrue trivial

end MiniAgentOS.Net
