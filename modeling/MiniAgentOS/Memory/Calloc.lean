import MiniAgentOS.Memory.Allocator

/-! The heap of the TLS library: `calloc`, whose blocks keep what is written to them until the heap
is reset. -/
namespace MiniAgentOS.Memory
open Checked
open Arena (Block Stacked)

/-- `MBEDTLS_HEAP_SIZE`. -/
def mbedtlsHeapSize : ℕ := 16 * 1024 * 1024

/-- `MBEDTLS_HEAP_OFF` and the memory. -/
structure MbedtlsHeap where
  off : ℕ
  bytes : ℕ → UInt8

/-- `mbedtls_heap_reset`. -/
def mbedtlsHeapReset (heap : MbedtlsHeap) : MbedtlsHeap := { heap with off := 0 }

/-- The loop at the end of `calloc`. -/
def clear (bytes : ℕ → UInt8) (ptr total : ℕ) : ℕ → UInt8 :=
  (List.range total).foldl (fun bytes i => Function.update bytes (ptr + i) 0) bytes

/-- `calloc` on the array at `base`: `none` is the null pointer. -/
def calloc (base : ℕ) (heap : MbedtlsHeap) (nmemb size : ℕ) : Checked (Option ℕ × MbedtlsHeap) := do
  if nmemb * size < 2 ^ 64 then
    let total := nmemb * size
    if total = 0 then pure (none, heap)
    else
      let off := if heap.off = 0 then base else heap.off
      let aligned ← alignUp off 16
      if aligned + total < 2 ^ 64 then
        let limit ← add (2 ^ 64) base mbedtlsHeapSize
        if aligned + total > limit then pure (none, heap)
        else pure (some aligned, { off := aligned + total, bytes := clear heap.bytes aligned total })
      else pure (none, heap)
  else pure (none, heap)

/-- A block handed out, and what its owner has in it. -/
structure Chunk where
  block : Block
  contents : ℕ → UInt8

/-- The heap, and the blocks handed out since it was reset. -/
structure MbedtlsRun where
  heap : MbedtlsHeap
  live : List Chunk

/-- What the library does: ask for a block, write into one of its blocks, free one, and start over. -/
inductive MbedtlsEvent where
  | calloc (nmemb size : ℕ)
  | write (chunk offset : ℕ) (byte : UInt8)
  | free (ptr : ℕ)
  | reset

section Run

variable {base : ℕ} {run : MbedtlsRun} {event : MbedtlsEvent} {heap next : MbedtlsHeap} {nmemb size ptr : ℕ}

def mbedtlsStep (base : ℕ) (run : MbedtlsRun) : MbedtlsEvent → Checked MbedtlsRun
  | .calloc nmemb size => do
    let (ptr, heap) ← calloc base run.heap nmemb size
    match ptr with
    | none => pure { run with heap }
    | some ptr => pure { heap, live := ⟨⟨ptr, nmemb * size⟩, fun _ => 0⟩ :: run.live }
  | .write chunk offset byte =>
    match run.live[chunk]? with
    | none => pure run
    | some owned => pure {
        heap := { run.heap with
          bytes := Function.update run.heap.bytes (owned.block.start + offset) byte }
        live := run.live.set chunk
          { owned with contents := Function.update owned.contents offset byte } }
  | .free _ => pure run
  | .reset => pure { heap := mbedtlsHeapReset run.heap, live := [] }

/-- The library writes inside the block that it means. -/
def mbedtlsAllowed (run : MbedtlsRun) : MbedtlsEvent → Prop
  | .write chunk offset _ => ∃ owned, run.live[chunk]? = some owned ∧ offset < owned.block.size
  | _ => True

def mbedtlsHeap (base : ℕ) : Machine MbedtlsRun MbedtlsEvent :=
  .ofChecked (fun run => run.heap.off = 0 ∧ run.live = []) mbedtlsAllowed (mbedtlsStep base)

/-- Where the free part of the heap starts. -/
def MbedtlsHeap.top (base : ℕ) (heap : MbedtlsHeap) : ℕ := if heap.off = 0 then base else heap.off

theorem clear_apply (bytes : ℕ → UInt8) (ptr total addr : ℕ) :
    clear bytes ptr total addr = if Block.Holds ⟨ptr, total⟩ addr then 0 else bytes addr := by
  unfold clear
  induction total with
  | zero =>
    rw [if_neg]
    · rfl
    · intro h
      have hlow : ptr ≤ addr := h.1
      have hhigh : addr < ptr + 0 := h.2
      omega
  | succ total ih =>
    rw [List.range_succ, List.foldl_append, List.foldl_cons, List.foldl_nil, Function.update_apply, ih]
    have hlast : Block.Holds ⟨ptr, total + 1⟩ addr ↔ addr = ptr + total ∨ Block.Holds ⟨ptr, total⟩ addr := by
      unfold Block.Holds Block.stop
      dsimp only
      omega
    by_cases haddr : addr = ptr + total
    · rw [if_pos haddr, if_pos (hlast.mpr (.inl haddr))]
    · rw [if_neg haddr]
      by_cases hin : Block.Holds ⟨ptr, total⟩ addr
      · rw [if_pos hin, if_pos (hlast.mpr (.inr hin))]
      · rw [if_neg hin, if_neg]
        intro h
        exact (hlast.mp h).elim haddr hin

/-- A call returns null and changes nothing, or it clears the bytes from the next multiple of 16. -/
theorem calloc_cases {result : Option ℕ} (h : calloc base heap nmemb size = .ok (result, next)) :
    (result = none ∧ next = heap) ∨
      ∃ ptr, result = some ptr ∧ 0 < nmemb * size ∧ ptr = Arena.alignUp (heap.top base) 16 ∧
        ptr + nmemb * size ≤ base + mbedtlsHeapSize ∧
        next = { off := ptr + nmemb * size, bytes := clear heap.bytes ptr (nmemb * size) } := by
  have hnull : (Except.ok (none, heap) : Checked (Option ℕ × MbedtlsHeap)) = .ok (result, next) →
      result = none ∧ next = heap := by
    intro h
    cases h
    exact ⟨rfl, rfl⟩
  unfold calloc at h
  by_cases hword : nmemb * size < 2 ^ 64
  · rw [if_pos hword] at h
    dsimp only at h
    by_cases htotal : nmemb * size = 0
    · rw [if_pos htotal] at h
      exact .inl (hnull h)
    · rw [if_neg htotal] at h
      change (alignUp (heap.top base) 16 >>= _) = _ at h
      cases halign : alignUp (heap.top base) 16 with
      | error trap =>
        rw [halign] at h
        cases h
      | ok aligned =>
        have hvalue := alignUp_value (k := 4) rfl (by decide) halign
        rw [halign, ok_bind] at h
        by_cases hend : aligned + nmemb * size < 2 ^ 64
        · rw [if_pos hend, add] at h
          by_cases hlimit : base + mbedtlsHeapSize < 2 ^ 64
          · rw [if_pos hlimit, ok_bind] at h
            by_cases hgt : aligned + nmemb * size > base + mbedtlsHeapSize
            · rw [if_pos hgt] at h
              exact .inl (hnull h)
            · rw [if_neg hgt] at h
              cases h
              exact .inr ⟨aligned, rfl, Nat.pos_of_ne_zero htotal, hvalue, Nat.not_lt.mp hgt, rfl⟩
          · rw [if_neg hlimit] at h
            cases h
        · rw [if_neg hend] at h
          exact .inl (hnull h)
  · rw [if_neg hword] at h
    exact .inl (hnull h)

/-- The live blocks lie one behind the other below the free part of the heap, and memory holds what
their owners have in them. -/
structure MbedtlsInv (base : ℕ) (run : MbedtlsRun) : Prop where
  stacked : Stacked base (run.heap.top base) (run.live.map Chunk.block)
  room : run.heap.top base ≤ base + mbedtlsHeapSize
  aligned : ∀ chunk ∈ run.live, 16 ∣ chunk.block.start
  kept : ∀ chunk ∈ run.live, ∀ offset < chunk.block.size,
    run.heap.bytes (chunk.block.start + offset) = chunk.contents offset

theorem mbedtlsInv_reset (heap : MbedtlsHeap) (h : heap.off = 0) : MbedtlsInv base ⟨heap, []⟩ := by
  have htop : heap.top base = base := if_pos h
  constructor
  · exact htop.ge
  · exact htop.le.trans (Nat.le_add_right _ _)
  · simp
  · simp

theorem mbedtlsInv_calloc (h : MbedtlsInv base run) (hpos : 0 < nmemb * size)
    (hptr : ptr = Arena.alignUp (run.heap.top base) 16) (hroom : ptr + nmemb * size ≤ base + mbedtlsHeapSize) :
    MbedtlsInv base ⟨{ off := ptr + nmemb * size, bytes := clear run.heap.bytes ptr (nmemb * size) },
      ⟨⟨ptr, nmemb * size⟩, fun _ => 0⟩ :: run.live⟩ := by
  have htop : MbedtlsHeap.top base ⟨ptr + nmemb * size, clear run.heap.bytes ptr (nmemb * size)⟩ =
      ptr + nmemb * size := if_neg (by dsimp only; omega)
  have hle : run.heap.top base ≤ ptr := hptr ▸ Arena.le_alignUp (by decide)
  constructor
  · rw [htop]
    have hstart : run.heap.top base ≤ Block.start ⟨ptr, nmemb * size⟩ := hle
    exact h.stacked.push hstart
  · exact htop.le.trans hroom
  · intro chunk hchunk
    rcases List.mem_cons.mp hchunk with rfl | hchunk
    · exact hptr ▸ Arena.dvd_alignUp _ _
    · exact h.aligned chunk hchunk
  · intro chunk hchunk offset hoffset
    dsimp only
    rw [clear_apply]
    rcases List.mem_cons.mp hchunk with rfl | hchunk
    · rw [if_pos]
      exact ⟨Nat.le_add_right _ _, Nat.add_lt_add_left hoffset _⟩
    · have hbelow := (h.stacked.within _ (List.mem_map_of_mem hchunk)).2
      have hkept := h.kept chunk hchunk offset hoffset
      rw [if_neg, hkept]
      intro hholds
      have hlow : ptr ≤ chunk.block.start + offset := hholds.1
      unfold Block.stop at hbelow
      omega

theorem mbedtlsInv_write {chunk offset : ℕ} {byte : UInt8} {owned : Chunk} (h : MbedtlsInv base run)
    (howned : run.live[chunk]? = some owned) (hoffset : offset < owned.block.size) :
    MbedtlsInv base {
      heap := { run.heap with bytes := Function.update run.heap.bytes (owned.block.start + offset) byte }
      live := run.live.set chunk { owned with contents := Function.update owned.contents offset byte } } := by
  have hblocks : (run.live.set chunk { owned with contents := Function.update owned.contents offset byte }).map
      Chunk.block = run.live.map Chunk.block := by
    have hcell : (run.live.map Chunk.block)[chunk]? = some owned.block := by
      rw [List.getElem?_map, howned]
      rfl
    obtain ⟨hlt, hvalue⟩ := List.getElem?_eq_some_iff.mp hcell
    rw [List.map_set]
    change (run.live.map Chunk.block).set chunk owned.block = _
    rw [← hvalue, List.set_getElem_self]
  have hother : ∀ i other, (run.live.set chunk { owned with
      contents := Function.update owned.contents offset byte })[i]? = some other →
      (i = chunk ∧ other = { owned with contents := Function.update owned.contents offset byte }) ∨
        (i ≠ chunk ∧ run.live[i]? = some other) := by
    intro i other hi
    rw [List.getElem?_set] at hi
    by_cases hne : chunk = i
    · rw [if_pos hne, if_pos (List.getElem?_eq_some_iff.mp howned).1] at hi
      exact .inl ⟨hne.symm, (Option.some.inj hi).symm⟩
    · rw [if_neg hne] at hi
      exact .inr ⟨Ne.symm hne, hi⟩
  constructor
  · rw [hblocks]
    exact h.stacked
  · exact h.room
  · intro other hmem
    obtain ⟨i, hi⟩ := List.mem_iff_getElem?.mp hmem
    rcases hother i other hi with ⟨-, rfl⟩ | ⟨-, hlive⟩
    · exact h.aligned owned (List.mem_of_getElem? howned)
    · exact h.aligned other (List.mem_of_getElem? hlive)
  · intro other hmem cell hcell
    obtain ⟨i, hi⟩ := List.mem_iff_getElem?.mp hmem
    rcases hother i other hi with ⟨-, rfl⟩ | ⟨hne, hlive⟩
    · have hkept := h.kept owned (List.mem_of_getElem? howned) cell hcell
      simp only [Function.update_apply, Nat.add_left_cancel_iff]
      rw [hkept]
    · have hkept := h.kept other (List.mem_of_getElem? hlive) cell hcell
      have hapart : owned.block.Apart other.block := by
        apply Arena.apart_of_ne h.stacked.apart (i := chunk) (j := i) _ _ (Ne.symm hne)
        · rw [List.getElem?_map, howned]
          rfl
        · rw [List.getElem?_map, hlive]
          rfl
      have haddr : other.block.start + cell ≠ owned.block.start + offset := by
        intro heq
        have hin : other.block.Holds (other.block.start + cell) :=
          ⟨Nat.le_add_right _ _, Nat.add_lt_add_left hcell _⟩
        rw [heq] at hin
        exact hapart.not_holds ⟨Nat.le_add_right _ _, Nat.add_lt_add_left hoffset _⟩ hin
      dsimp only
      rw [Function.update_of_ne haddr, hkept]

theorem mbedtlsStep_inv {after : MbedtlsRun} (h : MbedtlsInv base run) (hallowed : mbedtlsAllowed run event)
    (hstep : mbedtlsStep base run event = .ok after) : MbedtlsInv base after := by
  cases event with
  | calloc nmemb size =>
    cases hcalloc : calloc base run.heap nmemb size with
    | error trap =>
      simp only [mbedtlsStep, hcalloc, error_bind] at hstep
      cases hstep
    | ok found =>
      obtain ⟨result, heap⟩ := found
      simp only [mbedtlsStep, hcalloc, ok_bind] at hstep
      rcases calloc_cases hcalloc with ⟨rfl, rfl⟩ | ⟨ptr, rfl, hpos, hptr, hroom, rfl⟩
      · obtain rfl := Except.ok.inj hstep
        exact h
      · obtain rfl := Except.ok.inj hstep
        exact mbedtlsInv_calloc h hpos hptr hroom
  | write chunk offset byte =>
    obtain ⟨owned, howned, hoffset⟩ := hallowed
    simp only [mbedtlsStep, howned] at hstep
    obtain rfl := Except.ok.inj hstep
    exact mbedtlsInv_write h howned hoffset
  | free ptr =>
    obtain rfl := Except.ok.inj hstep
    exact h
  | reset =>
    obtain rfl := Except.ok.inj hstep
    exact mbedtlsInv_reset _ rfl

theorem mbedtlsInv_reachable (h : (mbedtlsHeap base).Reachable run) : MbedtlsInv base run := by
  apply h.invariant
  · rintro ⟨heap, live⟩ ⟨hoff, hlive⟩
    obtain rfl : live = [] := hlive
    exact mbedtlsInv_reset heap hoff
  · intro run event hinv hallowed
    obtain ⟨hevent, hstep⟩ := Machine.ofChecked_step hallowed
    exact mbedtlsStep_inv hinv hevent hstep

/-- Whatever the library asks for, writes and frees, its live blocks share no byte, lie in the heap at
a multiple of 16, and hold zeros and what was written to them. -/
theorem calloc_memory (h : (mbedtlsHeap base).Reachable run) :
    (run.live.map Chunk.block).Pairwise Block.Apart ∧
      ∀ chunk ∈ run.live, 16 ∣ chunk.block.start ∧ chunk.block.Within base (base + mbedtlsHeapSize) ∧
        ∀ offset < chunk.block.size, run.heap.bytes (chunk.block.start + offset) = chunk.contents offset := by
  have hinv := mbedtlsInv_reachable h
  refine ⟨hinv.stacked.apart, ?_⟩
  intro chunk hchunk
  obtain ⟨hlow, hhigh⟩ := hinv.stacked.within _ (List.mem_map_of_mem hchunk)
  exact ⟨hinv.aligned chunk hchunk, ⟨hlow, hhigh.trans hinv.room⟩, hinv.kept chunk hchunk⟩

/-- No call traps, and one returns null just when the product is zero or no word, or when no aligned
block of that size is free. -/
theorem calloc_null_iff (hbase : base + mbedtlsHeapSize + 16 < 2 ^ 64) (h : (mbedtlsHeap base).Reachable run)
    (nmemb size : ℕ) : ∃ result next, calloc base run.heap nmemb size = .ok (result, next) ∧
      (result = none ↔ 2 ^ 64 ≤ nmemb * size ∨ nmemb * size = 0 ∨
        ∀ block : Block, block.size = nmemb * size → 16 ∣ block.start →
          ¬ block.Within (run.heap.top base) (base + mbedtlsHeapSize)) := by
  have hroom := (mbedtlsInv_reachable h).room
  have hnone : Arena.bump (run.heap.top base) (base + mbedtlsHeapSize) (nmemb * size) 16 = none ↔ _ :=
    Arena.bump_eq_none_iff (by decide)
  rw [← hnone]
  unfold calloc Arena.bump
  by_cases hword : nmemb * size < 2 ^ 64
  · rw [if_pos hword]
    dsimp only
    by_cases htotal : nmemb * size = 0
    · rw [if_pos htotal]
      exact ⟨none, run.heap, rfl, by simp [htotal]⟩
    · rw [if_neg htotal]
      change ∃ result next, (alignUp (run.heap.top base) 16 >>= _) = _ ∧ _
      have halign : alignUp (run.heap.top base) 16 = .ok (Arena.alignUp (run.heap.top base) 16) :=
        alignUp_eq (k := 4) rfl (by decide) (by omega)
      rw [halign, ok_bind]
      by_cases hstop : Arena.alignUp (run.heap.top base) 16 + nmemb * size ≤ base + mbedtlsHeapSize
      · rw [if_pos (by omega), add, if_pos (by omega), ok_bind, if_neg (by omega), if_pos hstop]
        refine ⟨_, _, rfl, ?_⟩
        simp only [reduceCtorEq, false_iff, htotal, or_false]
        omega
      · rw [if_neg hstop]
        refine ⟨none, run.heap, ?_, by simp⟩
        by_cases hend : Arena.alignUp (run.heap.top base) 16 + nmemb * size < 2 ^ 64
        · rw [if_pos hend, add, if_pos (by omega), ok_bind, if_pos (Nat.not_le.mp hstop)]
          rfl
        · rw [if_neg hend]
          rfl
  · rw [if_neg hword]
    exact ⟨none, run.heap, rfl, iff_of_true rfl (.inl (Nat.not_lt.mp hword))⟩

/-- A heap at 4096: two blocks, and a byte written to the first of them. -/
def twoChunks : List MbedtlsEvent := [.calloc 2 3, .calloc 1 5, .write 1 4 7]

theorem twoChunks_reachable : (mbedtlsHeap 4096).Reachable
    ((mbedtlsHeap 4096).run ⟨⟨0, fun _ => 255⟩, []⟩ twoChunks) := by
  have hinit : (mbedtlsHeap 4096).Reachable ⟨⟨0, fun _ => 255⟩, []⟩ := .init ⟨rfl, rfl⟩
  apply hinit.run
  exact ⟨⟨trivial, by decide +kernel⟩, ⟨trivial, by decide +kernel⟩,
    ⟨⟨⟨⟨4096, 6⟩, fun _ => 0⟩, rfl, by decide⟩, by decide +kernel⟩, trivial⟩

theorem calloc_memory_twoChunks : ∃ run : MbedtlsRun, run.live.map Chunk.block = [⟨4112, 5⟩, ⟨4096, 6⟩] ∧
    (run.live.map Chunk.block).Pairwise Block.Apart :=
  ⟨_, by decide +kernel, (calloc_memory twoChunks_reachable).1⟩

theorem calloc_null_iff_twoChunks : ∃ run result next, (mbedtlsHeap 4096).Reachable run ∧
    calloc 4096 run.heap 1 (2 ^ 24) = .ok (result, next) ∧
      (result = none ↔ 2 ^ 64 ≤ 1 * 2 ^ 24 ∨ 1 * 2 ^ 24 = 0 ∨
        ∀ block : Block, block.size = 1 * 2 ^ 24 → 16 ∣ block.start →
          ¬ block.Within (run.heap.top 4096) (4096 + mbedtlsHeapSize)) := by
  obtain ⟨result, next, hcalloc, hnull⟩ := calloc_null_iff (by decide) twoChunks_reachable 1 (2 ^ 24)
  exact ⟨_, result, next, twoChunks_reachable, hcalloc, hnull⟩

end Run

end MiniAgentOS.Memory
