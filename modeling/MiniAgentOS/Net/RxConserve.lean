import MiniAgentOS.Net.RxLoop

/-! Receive buffers are conserved: over every run of the receive loop whose steps keep them,
each descriptor is queued, completed or owed a re-arm, and goes round once. -/
namespace MiniAgentOS.Net
open Ring16

variable {run : RxLoop}

/-- The invariant of the loop: buffers are conserved, and the rings are large enough to show
every descriptor that is in them. -/
structure LoopInv (run : RxLoop) : Prop extends Conserved run where
  curValid : run.rx.curValid = true
  count_le : run.rx.bufCount ≤ rxBufCountMax
  fits : run.rx.bufCount ≤ run.rx.rxq.qsize
  pos : 0 < run.rx.rxq.qsize
  size_dvd : run.rx.rxq.qsize ∣ 2 ^ 16
  cur_le : run.phase = .inner → count run.lastRx run.cur ≤ count run.lastRx run.rx.rxq.usedIdx
  ids_small : ∀ elem ∈ run.usedWindow, elem.1.toNat < 2 ^ 16

theorem length_descriptors : run.descriptors.length = run.rx.bufCount := by
  rw [RxLoop.descriptors, List.length_map, List.length_range]

theorem length_pending : run.pending.length = count run.lastRx run.rx.rxq.usedIdx := by
  rw [RxLoop.pending, RxLoop.usedWindow, List.length_map, length_window]

theorem length_queued : run.queued.length =
    run.device.held.length + count run.device.lastAvail run.rx.rxq.availIdx := by
  rw [RxLoop.queued, RxLoop.availWindow, List.length_append, length_window]

/-- The three places together hold as many descriptors as there are. -/
theorem LoopInv.length_places (h : LoopInv run) :
    run.device.held.length + count run.device.lastAvail run.rx.rxq.availIdx +
      count run.lastRx run.rx.rxq.usedIdx + run.owed.length = run.rx.bufCount := by
  have hlen := h.places.length_eq
  rwa [List.length_append, List.length_append, length_queued, length_pending,
    length_descriptors] at hlen

theorem LoopInv.start (h : LoopStart run) : LoopInv run := by
  obtain ⟨hcompleted, hprocessed, hreturned⟩ := h.traces
  have hpending : run.pending = [] := by
    rw [RxLoop.pending, RxLoop.usedWindow, h.lastRx, window_self, List.map_nil]
  have howed : run.owed = [] := by
    simp [RxLoop.owed, RxDriver.owesRearm, h.needsRearm]
  refine ⟨⟨?_, ?_, ?_, fun _ _ => howed⟩, h.curValid, h.count_le, h.fits, h.pos, h.size_dvd, ?_, ?_⟩
  · rw [hpending, howed, List.append_nil, List.append_nil]
    exact h.places
  · rw [hprocessed, hpending, hcompleted, List.append_nil]
  · rw [hreturned, howed, hprocessed, List.append_nil]
  · rw [h.phase]
    exact fun hinner => by cases hinner
  · rw [RxLoop.usedWindow, h.lastRx, window_self]
    exact fun _ hmem => by cases hmem

/-- The device moves a descriptor from the avail ring to those it holds. -/
theorem LoopInv.deviceFetch (h : LoopInv run)
    (hallowed : run.device.lastAvail ≠ run.rx.rxq.availIdx) :
    LoopInv (loopStep run .deviceFetch) := by
  have hqueued : (loopStep run .deviceFetch).queued = run.queued := by
    have hwindow : run.availWindow =
        read run.rx.rxq.avail 0 run.device.lastAvail :: (loopStep run .deviceFetch).availWindow :=
      window_next hallowed
    rw [RxLoop.queued, RxLoop.queued, hwindow]
    exact List.append_assoc _ _ _
  refine ⟨⟨?_, h.processed, h.returned, h.atHead⟩, h.curValid, h.count_le, h.fits, h.pos,
    h.size_dvd, h.cur_le, h.ids_small⟩
  rw [hqueued]
  exact h.places

/-- The device moves a descriptor that it holds to the used ring. -/
theorem LoopInv.deviceComplete {id : UInt16} {len : UInt32} (h : LoopInv run)
    (hheld : id ∈ run.device.held) : LoopInv (loopStep run (.deviceComplete id len)) := by
  have hplaces := h.length_places
  have hpos : 0 < run.device.held.length := List.length_pos_of_mem hheld
  have hcap := h.count_le
  have hfits := h.fits
  have hmax : rxBufCountMax + 1 < 2 ^ 16 := by decide
  have hsize : run.rx.rxq.used.length = run.rx.rxq.qsize := run.rx.rxq.same_size
  have hpush : (loopStep run (.deviceComplete id len)).usedWindow =
      run.usedWindow ++ [(id.toUInt32, len)] := by
    have hroom : count run.lastRx run.rx.rxq.usedIdx < run.rx.rxq.used.length := by omega
    apply window_push
    · rw [hsize]
      exact h.size_dvd
    · exact hroom
    · change count run.lastRx run.rx.rxq.usedIdx + 1 < 2 ^ 16
      omega
  have hpending : (loopStep run (.deviceComplete id len)).pending = run.pending ++ [id] := by
    have hround : id.toUInt32.toUInt16 = id := UInt16.toUInt16_toUInt32 id
    rw [RxLoop.pending, hpush, List.map_append, List.map_cons, List.map_nil, hround]
    rfl
  have hqueued : run.queued.Perm ((loopStep run (.deviceComplete id len)).queued ++ [id]) := by
    have hperm : run.device.held.Perm (run.device.held.erase id ++ [id]) :=
      (List.perm_cons_erase hheld).trans (List.perm_append_singleton id _).symm
    refine (hperm.append_right _).trans ?_
    rw [List.append_assoc]
    refine (List.perm_append_comm.append_left _).trans ?_
    rw [← List.append_assoc]
    rfl
  refine ⟨⟨?_, ?_, h.returned, h.atHead⟩, h.curValid, h.count_le, h.fits, h.pos, h.size_dvd, ?_, ?_⟩
  · rw [hpending]
    refine List.Perm.trans ?_ h.places
    refine List.Perm.append_right _ ?_
    refine List.Perm.trans ?_ (hqueued.append_right run.pending).symm
    rw [List.append_assoc]
    exact List.perm_append_comm.append_left _
  · rw [hpending, ← List.append_assoc]
    exact congrArg (· ++ [id]) h.processed
  · intro hinner
    have hcur := h.cur_le hinner
    have hgrow : count run.lastRx (run.rx.rxq.usedIdx + 1) =
        count run.lastRx run.rx.rxq.usedIdx + 1 := count_succ (by omega)
    change count run.lastRx run.cur ≤ count run.lastRx (run.rx.rxq.usedIdx + 1)
    omega
  · intro elem hmem
    rw [hpush] at hmem
    rcases List.mem_append.mp hmem with hold | hnew
    · exact h.ids_small elem hold
    · rw [List.mem_singleton.mp hnew]
      exact UInt16.toNat_lt id

section Rearm

theorem rxRearm_of_owes {rx : RxDriver} (hpos : 0 < rx.rxq.qsize) (howes : rx.owesRearm) :
    rxRearm rx = { rx with rxq := rx.rxq.makeAvailable rx.curId, needsRearm := false } := by
  have hne : rx.rxq.qsize ≠ 0 := Nat.ne_of_gt hpos
  simp [rxRearm, rxRearmId, howes, hne]

theorem rxRearm_of_not_owes {rx : RxDriver} (howes : rx.owesRearm = false) : rxRearm rx = rx := by
  simp [rxRearm, howes]

/-- Putting a descriptor back appends it to what the avail ring holds for the device. -/
theorem availWindow_makeAvailable (hdvd : run.rx.rxq.qsize ∣ 2 ^ 16)
    (hroom : count run.device.lastAvail run.rx.rxq.availIdx < run.rx.rxq.qsize)
    (hlt : count run.device.lastAvail run.rx.rxq.availIdx + 1 < 2 ^ 16) (id : UInt16) :
    window (run.rx.rxq.makeAvailable id).avail 0 run.device.lastAvail
      (run.rx.rxq.makeAvailable id).availIdx = run.availWindow ++ [id] :=
  window_push hdvd hroom hlt

/-- Re-arming the current packet while it is owed puts its descriptor back. -/
theorem LoopInv.rearm_of_owes (h : LoopInv run) (howes : run.rx.owesRearm = true) :
    LoopInv run.rearm ∧ run.rearm.owed = [] := by
  have howed : run.owed = [run.rx.curId] := by simp [RxLoop.owed, howes]
  have hplaces := h.length_places
  have hcap := h.count_le
  have hfits := h.fits
  have hmax : rxBufCountMax < 2 ^ 16 := by decide
  rw [howed, List.length_singleton] at hplaces
  have hroom : count run.device.lastAvail run.rx.rxq.availIdx < run.rx.rxq.qsize := by omega
  have hpush := availWindow_makeAvailable h.size_dvd hroom (by omega) run.rx.curId
  have hsame : run.rearm =
      { run with
        rx := { run.rx with rxq := run.rx.rxq.makeAvailable run.rx.curId, needsRearm := false }
        yielded := false
        returned := run.returned ++ [run.rx.curId] } := by
    simp [RxLoop.rearm, howes, rxRearm_of_owes h.pos howes]
  have hqueued : run.rearm.queued = run.queued ++ run.owed := by
    rw [hsame, howed, RxLoop.queued, RxLoop.queued, List.append_assoc, ← hpush]
    rfl
  have hpending : run.rearm.pending = run.pending := by
    rw [hsame]
    rfl
  have hafter : run.rearm.owed = [] := by
    rw [hsame]
    simp [RxLoop.owed, RxDriver.owesRearm]
  refine ⟨⟨⟨?_, ?_, ?_, fun _ _ => hafter⟩, ?_, ?_, ?_, ?_, ?_, ?_, ?_⟩, hafter⟩
  · rw [hqueued, hpending, hafter, List.append_nil, List.append_assoc]
    refine (List.perm_append_comm.append_left _).trans ?_
    rw [← List.append_assoc, hsame]
    exact h.places
  · rw [hpending, hsame]
    exact h.processed
  · have hreturned := h.returned
    rw [howed] at hreturned
    rw [hafter, List.append_nil, hsame]
    exact hreturned
  · rw [hsame]
    exact h.curValid
  · rw [hsame]
    exact h.count_le
  · rw [hsame]
    exact (congrArg (run.rx.bufCount ≤ ·) (length_write _ _)).mpr h.fits
  · rw [hsame]
    exact (congrArg (0 < ·) (length_write _ _)).mpr h.pos
  · rw [hsame]
    exact (congrArg (· ∣ 2 ^ 16) (length_write _ _)).mpr h.size_dvd
  · rw [hsame]
    exact h.cur_le
  · rw [hsame]
    exact h.ids_small

theorem LoopInv.rearm_of_not_owes (h : LoopInv run) (howes : run.rx.owesRearm = false) :
    LoopInv run.rearm ∧ run.rearm.owed = [] := by
  have howed : run.owed = [] := by simp [RxLoop.owed, howes]
  have hsame : run.rearm = { run with yielded := false } := by
    simp [RxLoop.rearm, howes, rxRearm_of_not_owes]
  rw [hsame]
  exact ⟨⟨⟨h.places, h.processed, h.returned, fun _ _ => howed⟩, h.curValid, h.count_le, h.fits,
    h.pos, h.size_dvd, h.cur_le, h.ids_small⟩, howed⟩

/-- Re-arming puts back what is owed, and nothing else. -/
theorem LoopInv.rearm (h : LoopInv run) : LoopInv run.rearm ∧ run.rearm.owed = [] := by
  cases howes : run.rx.owesRearm with
  | false => exact h.rearm_of_not_owes howes
  | true => exact h.rearm_of_owes howes

end Rearm

section Take

/-- The used element that the loop takes next, when its index is not 0. -/
theorem takePacket_eq {elem : UInt32 × UInt32} {rest : List (UInt32 × UInt32)} (h : LoopInv run)
    (hwindow : run.usedWindow = elem :: rest) (hindex : run.lastRx + 1 ≠ 0)
    (hid : elem.1.toNat < run.rx.bufCount) :
    takePacket run.rx (run.lastRx + 1) =
      { run.rx with
        curId := elem.1.toUInt16
        curLen := if elem.2.toNat > rxBufLen then rxBufLen else elem.2.toNat
        curValid := true
        needsRearm := true } := by
  have hne : run.lastRx ≠ run.rx.rxq.usedIdx := by
    intro hsame
    rw [RxLoop.usedWindow, hsame, window_self] at hwindow
    cases hwindow
  have hread : read run.rx.rxq.used (0, 0) run.lastRx = elem := by
    rw [RxLoop.usedWindow, window_next hne] at hwindow
    exact (List.cons.inj hwindow).1
  have hsize : run.rx.rxq.qsize ≠ 0 := Nat.ne_of_gt h.pos
  have hback : run.lastRx + 1 - 1 = run.lastRx := UInt16.add_sub_cancel run.lastRx 1
  have hbound : ¬ run.rx.bufCount ≤ elem.1.toNat := by omega
  simp only [takePacket, rxUsedElemFields, hindex, hsize, if_false, hback, hread, rxSetCurrent,
    ge_iff_le, hbound]
  rfl

/-- A descriptor in the used ring is the number of a receive buffer. -/
theorem LoopInv.id_lt {elem : UInt32 × UInt32} (h : LoopInv run) (hmem : elem ∈ run.usedWindow) :
    elem.1.toNat < run.rx.bufCount := by
  have hpending : elem.1.toUInt16 ∈ run.pending := List.mem_map_of_mem hmem
  have hplace : elem.1.toUInt16 ∈ run.queued ++ run.pending ++ run.owed :=
    List.mem_append_left _ (List.mem_append_right _ hpending)
  obtain ⟨slot, hslot, hid⟩ := List.mem_map.mp (h.places.mem_iff.mp hplace)
  have hcap := h.count_le
  have hmax : rxBufCountMax < 2 ^ 16 := by decide
  have hlt := List.mem_range.mp hslot
  have hsmall := h.ids_small elem hmem
  have hnat := congrArg UInt16.toNat hid
  rw [UInt16.toNat_ofNat', UInt32.toNat_toUInt16, Nat.mod_eq_of_lt hsmall] at hnat
  omega

/-- Taking the next packet moves its descriptor from the used ring to the loop. -/
theorem LoopInv.take (h : LoopInv run) (hinner : run.phase = .inner) (hcur : run.cur ≠ run.lastRx)
    (hindex : run.lastRx ≠ 0xFFFF) (hyielded : run.yielded = false) :
    LoopInv (loopStep run .take) := by
  have hne : run.lastRx ≠ run.rx.rxq.usedIdx := by
    intro hsame
    have hle := h.cur_le hinner
    rw [← hsame, count_self, Nat.le_zero, count_eq_zero_iff] at hle
    exact hcur hle.symm
  have hnext : run.lastRx + 1 ≠ 0 := by
    intro hzero
    apply hindex
    rw [← UInt16.add_sub_cancel run.lastRx 1, hzero]
    rfl
  have howed : run.owed = [] := h.atHead (by rw [hinner]; decide) hyielded
  obtain ⟨elem, rest, hwindow, hrest⟩ : ∃ elem rest, run.usedWindow = elem :: rest ∧
      window run.rx.rxq.used (0, 0) (run.lastRx + 1) run.rx.rxq.usedIdx = rest :=
    ⟨_, _, window_next hne, rfl⟩
  have hid : elem.1.toNat < run.rx.bufCount := h.id_lt (by rw [hwindow]; exact List.mem_cons_self)
  have hpacket := takePacket_eq h hwindow hnext hid
  have hafterOwed : (loopStep run .take).owed = [elem.1.toUInt16] := by
    simp [loopStep, hpacket, RxLoop.owed, RxDriver.owesRearm]
  have hafterProcessed : (loopStep run .take).processed = run.processed ++ [elem.1.toUInt16] := by
    simp [loopStep, hpacket]
  have hafterWindow : (loopStep run .take).usedWindow = rest := by
    rw [← hrest]
    simp [loopStep, hpacket, RxLoop.usedWindow]
  have hafterQueued : (loopStep run .take).queued = run.queued := by
    simp [loopStep, hpacket, RxLoop.queued, RxLoop.availWindow]
  have hpending : run.pending = elem.1.toUInt16 :: (loopStep run .take).pending := by
    rw [RxLoop.pending, RxLoop.pending, hwindow, hafterWindow, List.map_cons]
  have hplaces := h.places
  have hprocessed := h.processed
  rw [howed, List.append_nil, hpending] at hplaces
  rw [hpending] at hprocessed
  refine ⟨⟨?_, ?_, ?_, fun hphase => absurd rfl hphase⟩, ?_, ?_, ?_, ?_, ?_, ?_, ?_⟩
  · have hsame : (loopStep run .take).descriptors = run.descriptors := by
      simp [loopStep, hpacket, RxLoop.descriptors]
    rw [hafterQueued, hafterOwed, hsame, List.append_assoc]
    exact ((List.perm_append_singleton _ _).append_left _).trans hplaces
  · rw [hafterProcessed, List.append_assoc]
    exact hprocessed
  · rw [hafterProcessed, hafterOwed, ← h.returned, howed, List.append_nil]
    rfl
  · simp [loopStep, hpacket]
  · simpa [loopStep, hpacket] using h.count_le
  · simpa [loopStep, hpacket] using h.fits
  · simpa [loopStep, hpacket] using h.pos
  · simpa [loopStep, hpacket] using h.size_dvd
  · exact fun hphase => by cases hphase
  · intro other hmem
    rw [hafterWindow] at hmem
    exact h.ids_small other (by rw [hwindow]; exact List.mem_cons_of_mem _ hmem)

end Take

/-- Moving the head of the loop, with a fresh read of the used index when `'rx` is entered. -/
theorem LoopInv.setPhase (h : LoopInv run) {phase : LoopPhase} {cur : UInt16}
    (hcur : phase = .inner → cur = run.rx.rxq.usedIdx)
    (hhead : phase ≠ .handling → run.yielded = false → run.owed = []) :
    LoopInv { run with phase, cur } := by
  refine ⟨⟨h.places, h.processed, h.returned, hhead⟩, h.curValid, h.count_le, h.fits, h.pos,
    h.size_dvd, ?_, h.ids_small⟩
  intro hinner
  rw [hcur hinner]

/-- One step that keeps the buffers keeps the invariant. -/
theorem LoopInv.step (event : LoopEvent) (h : LoopInv run) (hallowed : LoopAllowed run event)
    (hkeeps : KeepsBuffers run event) : LoopInv (loopStep run event) := by
  cases event with
  | deviceFetch => exact h.deviceFetch hallowed
  | deviceComplete id len => exact h.deviceComplete hallowed
  | poll =>
    refine h.setPhase (fun _ => rfl) fun _ => h.atHead ?_
    rw [show run.phase = .outer from hallowed]
    decide
  | take => exact h.take hallowed.1 hallowed.2 hkeeps.1 hkeeps.2
  | finish =>
    obtain ⟨hrearm, howed⟩ := h.rearm
    exact hrearm.setPhase (fun _ => rfl) fun _ _ => howed
  | yield =>
    refine ⟨⟨h.places, h.processed, h.returned, ?_⟩, h.curValid, h.count_le, h.fits, h.pos,
      h.size_dvd, (fun hinner => by cases hinner), h.ids_small⟩
    exact fun _ hyielded => by cases hyielded
  | leave =>
    refine h.setPhase (fun hinner => by cases hinner) fun _ => h.atHead ?_
    rw [hallowed.1]
    decide
  | tick rearms =>
    cases rearms with
    | false => exact h
    | true => exact h.rearm.1

/-- The loop right after `init_queues`. -/
def bootLoop (qsize count : ℕ) : RxLoop where
  rx := initQueues qsize count
  device := ⟨0, []⟩
  phase := .outer
  lastRx := 0
  cur := 0
  yielded := false
  completed := []
  processed := []
  returned := []

/-- Setting up the rings queues every receive buffer. -/
theorem bootLoop_start {qsize count : ℕ} (hcap : count ≤ rxBufCountMax) (hfits : count ≤ qsize)
    (hpos : 0 < qsize) (hdvd : qsize ∣ 2 ^ 16) : LoopStart (bootLoop qsize count) := by
  have hmax : rxBufCountMax < 2 ^ 16 := by decide
  have hlength : (initQueues qsize count).rxq.avail.length = qsize := by
    rw [initQueues, List.length_map, List.length_range]
  have hwindow : (bootLoop qsize count).availWindow = (bootLoop qsize count).descriptors := by
    have hcount : Ring16.count 0 (UInt16.ofNat count) = count := by
      rw [count_eq, UInt16.toNat_ofNat', UInt16.toNat_zero]
      omega
    change (List.range (Ring16.count 0 (UInt16.ofNat count))).map _ = (List.range count).map _
    rw [hcount]
    apply List.map_congr_left
    intro i hi
    have hlt : i < count := List.mem_range.mp hi
    have hcell : cellOf (initQueues qsize count).rxq.avail (0 + UInt16.ofNat i) = i := by
      rw [cellOf_add (by rwa [hlength]), hlength, UInt16.toNat_zero, Nat.zero_add,
        Nat.mod_eq_of_lt (by omega)]
    change List.getD (initQueues qsize count).rxq.avail
      (cellOf (initQueues qsize count).rxq.avail (0 + UInt16.ofNat i)) 0 = _
    rw [hcell, initQueues]
    simp [List.getD_eq_getElem?_getD, hlt, show i < qsize by omega]
  refine ⟨?_, rfl, rfl, rfl, rfl, ⟨rfl, rfl, rfl⟩, hcap, ?_, ?_, ?_⟩
  · rw [RxLoop.queued, hwindow]
    exact List.Perm.refl _
  · exact hfits.trans_eq hlength.symm
  · exact hpos.trans_eq hlength.symm
  · rw [Virtq.qsize]
    exact hlength.symm ▸ hdvd

end MiniAgentOS.Net
