import MiniAgentOS.Lib.Machine
import MiniAgentOS.Net.RxRing
import MiniAgentOS.Net.Transmit

/-! The transmit queue. All senders share `TX_BUF` and descriptor 0. Every store of a sender is a step of
its own, and the device may complete a frame between any two of them. -/
namespace MiniAgentOS.Net

/-- A store into descriptor 0, field by field. -/
inductive DescStore where
  | addr (value : UInt64)
  | len (value : UInt32)
  | flags (value : UInt16)
  | next (value : UInt16)
  deriving DecidableEq, Repr

structure VirtqDesc where
  addr : UInt64
  len : UInt32
  flags : UInt16
  next : UInt16
  deriving DecidableEq, Repr

def VirtqDesc.store (desc : VirtqDesc) : DescStore → VirtqDesc
  | .addr value => { desc with addr := value }
  | .len value => { desc with len := value }
  | .flags value => { desc with flags := value }
  | .next value => { desc with next := value }

/-- The steps of a sender after `tx_wait_ready`. -/
inductive TxOp where
  | buf (store : Store)
  | desc (store : DescStore)
  /-- `cur` is read from the avail index. -/
  | loadAvail
  /-- The avail ring gets descriptor 0 at `cur`. -/
  | storeRing
  /-- The avail index becomes `cur + 1`. -/
  | storeAvail
  /-- The barrier and the write of `QUEUE_NOTIFY`. -/
  | notify
  /-- `TX_LAST_SENT` becomes `cur + 1`. -/
  | setLastSent
  deriving DecidableEq, Repr

/-- What runs in the driver: nothing, the loop of `tx_wait_ready` after some turns, or what is left of a
sender. -/
inductive TxCall where
  | idle
  | waiting (packet : Packet) (spins : ℕ)
  | sending (cur : UInt16) (todo : List TxOp)
  deriving DecidableEq, Repr

/-- The transmit side of the driver and the device. `queued` and `completed` count the frames that the
driver has made available and the device has completed. -/
structure TxDriver where
  txq : Virtq
  desc : VirtqDesc
  txBuf : TxBuffer
  lastSent : UInt16
  call : TxCall
  queued : ℕ
  completed : ℕ

inductive TxEvent where
  /-- A sender is called. -/
  | send (packet : Packet)
  /-- The driver takes its next step. -/
  | run
  /-- The device completes a frame. -/
  | complete (len : UInt32)
  deriving DecidableEq, Repr

/-- After so many turns `tx_wait_ready` gives up. -/
def txSpinLimit : ℕ := 200000

/-- The end of every sender. -/
def publish : List TxOp := [.loadAvail, .storeRing, .storeAvail, .notify, .setLastSent]

/-- A sender once `tx_wait_ready` has returned true. -/
def sender (txBufAddr : UInt64) (buf : TxBuffer) (packet : Packet) : List TxOp :=
  if packet.tooLarge then
    []
  else
    (packet.stores buf.bytes).map .buf ++
      [.desc (.addr txBufAddr), .desc (.len (UInt32.ofNat packet.totalLen)), .desc (.flags 0),
        .desc (.next 0)] ++ publish

/-- A sender with no step left has returned. -/
def TxCall.sendRest (cur : UInt16) : List TxOp → TxCall
  | [] => .idle
  | todo => .sending cur todo

/-- A step of a sender, which goes on with `todo`. -/
def TxDriver.op (tx : TxDriver) (cur : UInt16) (todo : List TxOp) : TxOp → TxDriver
  | .buf store => { tx with txBuf := tx.txBuf.store store, call := .sendRest cur todo }
  | .desc store => { tx with desc := tx.desc.store store, call := .sendRest cur todo }
  | .loadAvail => { tx with call := .sendRest tx.txq.availIdx todo }
  | .storeRing =>
    { tx with
      txq :=
        { tx.txq with
          avail := Ring16.write tx.txq.avail cur 0
          same_size := by rw [Ring16.length_write, tx.txq.same_size] }
      call := .sendRest cur todo }
  | .storeAvail =>
    { tx with
      txq.availIdx := cur + 1
      queued := tx.queued + 1
      call := .sendRest cur todo }
  | .notify => { tx with call := .sendRest cur todo }
  | .setLastSent => { tx with lastSent := cur + 1, call := .sendRest cur todo }

/-- A turn of the loop of `tx_wait_ready`. -/
def TxDriver.spin (txBufAddr : UInt64) (tx : TxDriver) (packet : Packet) (spins : ℕ) : TxDriver :=
  if tx.txq.usedIdx = tx.lastSent then
    { tx with call := .sendRest 0 (sender txBufAddr tx.txBuf packet) }
  else if spins + 1 > txSpinLimit then
    { tx with call := .idle }
  else
    { tx with call := .waiting packet (spins + 1) }

def TxDriver.step (txBufAddr : UInt64) (tx : TxDriver) : TxEvent → TxDriver
  | .send packet => { tx with call := .waiting packet 0 }
  | .run =>
    match tx.call with
    | .idle => tx
    | .waiting packet spins => tx.spin txBufAddr packet spins
    | .sending _ [] => tx
    | .sending cur (op :: todo) => tx.op cur todo op
  | .complete len => { tx with txq := tx.txq.complete 0 len, completed := tx.completed + 1 }

/-- Calls do not overlap, and the device completes each frame at most once. -/
def TxDriver.Allowed (tx : TxDriver) : TxEvent → Prop
  | .send _ => tx.call = .idle
  | .run => tx.call ≠ .idle
  | .complete _ => tx.completed < tx.queued

instance (tx : TxDriver) : ∀ event, Decidable (tx.Allowed event)
  | .send _ => inferInstanceAs (Decidable (_ = _))
  | .run => inferInstanceAs (Decidable (_ ≠ _))
  | .complete _ => inferInstanceAs (Decidable (_ < _))

/-- `alloc_virtq` and the end of `init_queues`: a queue of `qsize` entries with cleared indices, the
rings and `TX_BUF` as memory was. -/
structure TxStart (tx : TxDriver) : Prop where
  availIdx : tx.txq.availIdx = 0
  usedIdx : tx.txq.usedIdx = 0
  lastSent : tx.lastSent = 0
  call : tx.call = .idle
  queued : tx.queued = 0
  completed : tx.completed = 0

def txMachine (txBufAddr : UInt64) : Machine TxDriver TxEvent where
  init := TxStart
  allowed := TxDriver.Allowed
  step := TxDriver.step txBufAddr

instance (txBufAddr : UInt64) (tx : TxDriver) (event : TxEvent) :
    Decidable ((txMachine txBufAddr).allowed tx event) :=
  inferInstanceAs (Decidable (tx.Allowed event))

/-- The next step of the driver is a store into `TX_BUF` or descriptor 0. -/
def TxDriver.writesFrame (tx : TxDriver) : Prop :=
  match tx.call with
  | .sending _ (.buf _ :: _) => True
  | .sending _ (.desc _ :: _) => True
  | _ => False

/-- A step that stores into the frame or its descriptor. -/
def TxOp.fills : TxOp → Prop
  | .buf _ => True
  | .desc _ => True
  | _ => False

/-- Where the driver stands. The last index sent is the avail index except while a sender moves it, and a
sender fills the frame while the device owns none. -/
inductive Standing (tx : TxDriver) : TxCall → Prop where
  | idle : tx.lastSent = tx.txq.availIdx → Standing tx .idle
  | waiting (packet : Packet) (spins : ℕ) : tx.lastSent = tx.txq.availIdx →
      Standing tx (.waiting packet spins)
  | filling (cur : UInt16) (frame : List TxOp) : (∀ op ∈ frame, op.fills) →
      tx.lastSent = tx.txq.availIdx → tx.completed = tx.queued →
      Standing tx (.sending cur (frame ++ publish))
  | storingRing : tx.lastSent = tx.txq.availIdx → tx.completed = tx.queued →
      Standing tx (.sending tx.txq.availIdx [.storeRing, .storeAvail, .notify, .setLastSent])
  | storingAvail : tx.lastSent = tx.txq.availIdx → tx.completed = tx.queued →
      Standing tx (.sending tx.txq.availIdx [.storeAvail, .notify, .setLastSent])
  | notifying (cur : UInt16) : cur + 1 = tx.txq.availIdx →
      Standing tx (.sending cur [.notify, .setLastSent])
  | leaving (cur : UInt16) : cur + 1 = tx.txq.availIdx → Standing tx (.sending cur [.setLastSent])

/-- The indices count the frames, of which at most one is not completed. -/
structure Counted (tx : TxDriver) : Prop where
  avail : tx.txq.availIdx = UInt16.ofNat tx.queued
  used : tx.txq.usedIdx = UInt16.ofNat tx.completed
  completed_le : tx.completed ≤ tx.queued
  queued_le : tx.queued ≤ tx.completed + 1

/-- What holds of the transmit side in every run. -/
structure Owned (tx : TxDriver) : Prop where
  counted : Counted tx
  standing : Standing tx tx.call

section Ownership

variable {tx : TxDriver} {txBufAddr : UInt64}

/-- The counters may differ by one only, so equal indices mean that they are equal. -/
theorem Counted.completed_eq (h : Counted tx) (hidx : tx.txq.usedIdx = tx.txq.availIdx) :
    tx.completed = tx.queued := by
  have hmod : tx.completed % 2 ^ 16 = tx.queued % 2 ^ 16 := by
    have hnat := congrArg UInt16.toNat hidx
    rwa [h.avail, h.used, UInt16.toNat_ofNat', UInt16.toNat_ofNat'] at hnat
  have hle := h.completed_le
  have hlt := h.queued_le
  omega

theorem ofNat_succ (n : ℕ) : UInt16.ofNat n + 1 = UInt16.ofNat (n + 1) := by
  rw [UInt16.ofNat_add]
  rfl

theorem sendRest_publish (cur : UInt16) (frame : List TxOp) :
    TxCall.sendRest cur (frame ++ publish) = .sending cur (frame ++ publish) := by
  cases frame with
  | nil => rfl
  | cons op frame => rfl

/-- A sender that fits begins with stores into the frame and its descriptor. -/
theorem sender_eq (txBufAddr : UInt64) (buf : TxBuffer) {packet : Packet} (hfits : packet.tooLarge = false) :
    ∃ frame, sender txBufAddr buf packet = frame ++ publish ∧ ∀ op ∈ frame, op.fills := by
  unfold sender
  rw [hfits, if_neg Bool.false_ne_true]
  refine ⟨_, rfl, ?_⟩
  intro op hop
  rcases List.mem_append.mp hop with hbuf | hdesc
  · obtain ⟨store, -, rfl⟩ := List.mem_map.mp hbuf
    trivial
  · simp only [List.mem_cons, List.not_mem_nil, or_false] at hdesc
    rcases hdesc with rfl | rfl | rfl | rfl <;> trivial

/-- The loop of `tx_wait_ready` lets a sender go on only when the device owns no frame. -/
theorem Owned.spin (h : Owned tx) (packet : Packet) (spins : ℕ)
    (hlast : tx.lastSent = tx.txq.availIdx) : Owned (tx.spin txBufAddr packet spins) := by
  unfold TxDriver.spin
  split_ifs with hready hlimit
  · have hdone := h.counted.completed_eq (hready.trans hlast)
    refine ⟨⟨h.counted.avail, h.counted.used, h.counted.completed_le, h.counted.queued_le⟩, ?_⟩
    cases hfits : packet.tooLarge with
    | true =>
      rw [show sender txBufAddr tx.txBuf packet = [] from if_pos hfits]
      exact .idle hlast
    | false =>
      obtain ⟨frame, hsender, hfills⟩ := sender_eq txBufAddr tx.txBuf hfits
      rw [hsender, sendRest_publish]
      exact .filling 0 frame hfills hlast hdone
  · exact ⟨⟨h.counted.avail, h.counted.used, h.counted.completed_le, h.counted.queued_le⟩, .idle hlast⟩
  · exact ⟨⟨h.counted.avail, h.counted.used, h.counted.completed_le, h.counted.queued_le⟩,
      .waiting packet _ hlast⟩

/-- A step of a sender. -/
theorem Owned.op (h : Owned tx) {cur : UInt16} {op : TxOp} {todo : List TxOp}
    (hcall : tx.call = .sending cur (op :: todo)) : Owned (tx.op cur todo op) := by
  obtain ⟨hcounted, hstanding⟩ := h
  have hsame : ∀ call txBuf desc lastSent,
      Counted { tx with call := call, txBuf := txBuf, desc := desc, lastSent := lastSent } :=
    fun _ _ _ _ => ⟨hcounted.avail, hcounted.used, hcounted.completed_le, hcounted.queued_le⟩
  rw [hcall] at hstanding
  generalize hops : TxCall.sending cur (op :: todo) = call at hstanding
  cases hstanding with
  | idle hlast => cases hops
  | waiting packet spins hlast => cases hops
  | filling cur frame hfills hlast hdone =>
    cases frame with
    | nil =>
      cases hops
      exact ⟨hsame _ _ _ _, .storingRing hlast hdone⟩
    | cons first frame =>
      cases hops
      have hrest : ∀ op ∈ frame, op.fills := fun op hop => hfills op (List.mem_cons_of_mem _ hop)
      have hop : op.fills := hfills op List.mem_cons_self
      cases op with
      | buf store =>
        refine ⟨hsame _ _ _ _, ?_⟩
        change Standing _ (.sendRest cur (frame ++ publish))
        rw [sendRest_publish]
        exact .filling cur frame hrest hlast hdone
      | desc store =>
        refine ⟨hsame _ _ _ _, ?_⟩
        change Standing _ (.sendRest cur (frame ++ publish))
        rw [sendRest_publish]
        exact .filling cur frame hrest hlast hdone
      | _ => exact hop.elim
  | storingRing hlast hdone =>
    cases hops
    exact ⟨⟨hcounted.avail, hcounted.used, hcounted.completed_le, hcounted.queued_le⟩,
      .storingAvail hlast hdone⟩
  | storingAvail hlast hdone =>
    cases hops
    refine ⟨⟨?_, hcounted.used, ?_, ?_⟩, .notifying _ rfl⟩
    · change tx.txq.availIdx + 1 = UInt16.ofNat (tx.queued + 1)
      rw [hcounted.avail, ofNat_succ]
    · change tx.completed ≤ tx.queued + 1
      omega
    · change tx.queued + 1 ≤ tx.completed + 1
      omega
  | notifying cur hcur =>
    cases hops
    exact ⟨hsame _ _ _ _, .leaving cur hcur⟩
  | leaving cur hcur =>
    cases hops
    exact ⟨hsame _ _ _ _, .idle hcur⟩

theorem Owned.run (h : Owned tx) : Owned (tx.step txBufAddr .run) := by
  cases hcall : tx.call with
  | idle =>
    have hsame : tx.step txBufAddr .run = tx := by rw [TxDriver.step, hcall]
    rwa [hsame]
  | waiting packet spins =>
    have hspin : tx.step txBufAddr .run = tx.spin txBufAddr packet spins := by
      rw [TxDriver.step, hcall]
    have hstanding := h.standing
    rw [hcall] at hstanding
    cases hstanding with
    | waiting packet spins hlast =>
      rw [hspin]
      exact h.spin packet spins hlast
  | sending cur todo =>
    cases todo with
    | nil =>
      have hsame : tx.step txBufAddr .run = tx := by rw [TxDriver.step, hcall]
      rwa [hsame]
    | cons op todo =>
      have hop : tx.step txBufAddr .run = tx.op cur todo op := by rw [TxDriver.step, hcall]
      rw [hop]
      exact h.op hcall

/-- The device completes a frame only after a sender made it available. -/
theorem Owned.complete (h : Owned tx) (len : UInt32) (howned : tx.completed < tx.queued) :
    Owned (tx.step txBufAddr (.complete len)) := by
  obtain ⟨⟨havail, hused, hle, hlt⟩, hstanding⟩ := h
  constructor
  · constructor
    · exact havail
    · change tx.txq.usedIdx + 1 = UInt16.ofNat (tx.completed + 1)
      rw [hused, ofNat_succ]
    · exact howned
    · change tx.queued ≤ tx.completed + 1 + 1
      omega
  · change Standing _ tx.call
    generalize tx.call = call at hstanding ⊢
    cases hstanding with
    | idle hlast => exact .idle hlast
    | waiting packet spins hlast => exact .waiting packet spins hlast
    | filling cur frame hfills hlast hdone => omega
    | storingRing hlast hdone => omega
    | storingAvail hlast hdone => omega
    | notifying cur hcur => exact .notifying cur hcur
    | leaving cur hcur => exact .leaving cur hcur

theorem owned_step (event : TxEvent) (h : Owned tx) (hallowed : tx.Allowed event) :
    Owned (tx.step txBufAddr event) := by
  cases event with
  | send packet =>
    have hstanding := h.standing
    rw [show tx.call = .idle from hallowed] at hstanding
    cases hstanding with
    | idle hlast =>
      exact ⟨⟨h.counted.avail, h.counted.used, h.counted.completed_le, h.counted.queued_le⟩,
        .waiting packet 0 hlast⟩
  | run => exact h.run
  | complete len => exact h.complete len hallowed

theorem owned_start (h : TxStart tx) : Owned tx := by
  have havail := h.availIdx
  refine ⟨⟨?_, ?_, ?_, ?_⟩, ?_⟩
  · rw [havail, h.queued]
    rfl
  · rw [h.usedIdx, h.completed]
    rfl
  · rw [h.queued, h.completed]
  · rw [h.queued, h.completed]
    omega
  · rw [h.call]
    exact .idle (h.lastSent.trans havail.symm)

/-- Before a store into the frame or its descriptor, the device owns nothing. -/
theorem Owned.writesFrame (h : Owned tx) (hwrites : tx.writesFrame) : tx.completed = tx.queued := by
  unfold TxDriver.writesFrame at hwrites
  have hstanding := h.standing
  generalize tx.call = call at hwrites hstanding
  cases hstanding with
  | filling cur frame hfills hlast hdone => exact hdone
  | _ => exact hwrites.elim

end Ownership

/-- In every run `TX_BUF` and descriptor 0 are stored into only while the device has completed every frame
that was made available, and there is never more than one that it has not. The ring indices count the
frames modulo `2 ^ 16`. -/
theorem tx_buffer_owned (txBufAddr : UInt64) {tx : TxDriver}
    (h : (txMachine txBufAddr).Reachable tx) :
    (tx.writesFrame → tx.txq.usedIdx = tx.txq.availIdx ∧ tx.completed = tx.queued) ∧
      tx.queued ≤ tx.completed + 1 ∧ tx.completed ≤ tx.queued ∧
      tx.txq.availIdx = UInt16.ofNat tx.queued ∧ tx.txq.usedIdx = UInt16.ofNat tx.completed := by
  have howned : Owned tx :=
    h.invariant (fun _ => owned_start) (fun _ event howned hallowed => owned_step event howned hallowed)
  have hcounted := howned.counted
  refine ⟨?_, hcounted.queued_le, hcounted.completed_le, hcounted.avail, hcounted.used⟩
  intro hwrites
  have hdone := howned.writesFrame hwrites
  rw [hcounted.avail, hcounted.used, hdone]
  exact ⟨rfl, rfl⟩

/-- The driver after its start, with a queue of four entries. -/
def txDriverStart : TxDriver where
  txq := ⟨List.replicate 4 0, 0, List.replicate 4 (0, 0), 0, rfl⟩
  desc := ⟨0, 0, 0, 0⟩
  txBuf := ⟨List.replicate txBufLen 0, List.length_replicate⟩
  lastSent := 0
  call := .idle
  queued := 0
  completed := 0

/-- A second sender waits for the frame of the first, and stores once the device has completed it. -/
theorem tx_buffer_owned_twice :
    let request := Packet.arp ⟨2, 0, 0, 0, 0, 1⟩ ⟨10, 0, 2, 15⟩ ⟨10, 0, 2, 2⟩
    let tx := (txMachine 4096).run txDriverStart
      ([.send request] ++ List.replicate 104 .run ++ [.send request, .run, .complete 0, .run, .run])
    (tx.writesFrame → tx.txq.usedIdx = tx.txq.availIdx ∧ tx.completed = tx.queued) ∧
      tx.queued ≤ tx.completed + 1 ∧ tx.completed ≤ tx.queued ∧
      tx.txq.availIdx = UInt16.ofNat tx.queued ∧ tx.txq.usedIdx = UInt16.ofNat tx.completed := by
  intro request tx
  have h : (txMachine 4096).Reachable tx :=
    Machine.Reachable.run (.init ⟨rfl, rfl, rfl, rfl, rfl, rfl⟩) (by decide +kernel)
  clear_value tx
  exact tx_buffer_owned 4096 h

end MiniAgentOS.Net
