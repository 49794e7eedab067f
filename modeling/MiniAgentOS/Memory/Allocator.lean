import MiniAgentOS.Lib.Arena
import MiniAgentOS.Lib.Machine

/-! The kernel's allocator: callers that interleave their steps over one shared word. -/
namespace MiniAgentOS.Memory
open Checked
open Arena (Block Stacked)

/-- `HEAP_SIZE`. -/
def heapSize : ℕ := 1024 * 1024

/-- `align_up`. -/
def alignUp (addr align : ℕ) : Checked ℕ := do
  let sum ← add (2 ^ 64) addr align
  let sum ← sub sum 1
  let low ← sub align 1
  pure (sum &&& (2 ^ 64 - 1 - low))

theorem alignUp_eq {addr align k : ℕ} (halign : align = 2 ^ k) (hk : k < 64) (h : addr + align < 2 ^ 64) :
    alignUp addr align = .ok (Arena.alignUp addr align) := by
  have hpos : 0 < align := halign ▸ Nat.two_pow_pos k
  have hword : addr + align - 1 < 2 ^ 64 := by omega
  have hsum : addr + align - 1 = addr + (align - 1) := by omega
  unfold alignUp
  rw [add, if_pos h, ok_bind, sub, if_pos (by omega), ok_bind, sub, if_pos (Nat.one_le_iff_ne_zero.mpr hpos.ne'), ok_bind, halign,
    Arena.land_high_bits hk.le (halign ▸ hword), ← halign, hsum]
  rfl

theorem alignUp_value {addr align start k : ℕ} (halign : align = 2 ^ k) (hk : k < 64)
    (h : alignUp addr align = .ok start) : start = Arena.alignUp addr align := by
  by_cases hfits : addr + align < 2 ^ 64
  · rw [alignUp_eq halign hk hfits] at h
    exact (Except.ok.inj h).symm
  · unfold alignUp at h
    rw [add, if_neg hfits] at h
    cases h

/-- `Layout`: the alignment is a power of two, and the size rounded up to it stays below `2 ^ 63`. -/
structure Layout where
  size : ℕ
  align : ℕ
  pow : ∃ k < 64, align = 2 ^ k
  fits : size + (align - 1) < 2 ^ 63

/-- A block that `alloc` has returned, with the layout it was asked for. -/
structure Grant where
  layout : Layout
  start : ℕ

def Grant.block (grant : Grant) : Block := ⟨grant.start, grant.layout.size⟩

/-- How far a caller of `alloc` is. -/
inductive Progress where
  | idle
  | entered (layout : Layout)
  | unset (layout : Layout)
  | trying (layout : Layout) (current : ℕ)

/-- The values that `next` has had, the last one first: a relaxed load may still return an old
one. -/
structure Heap (ι : Type) where
  next : List ℕ
  callers : ι → Progress
  given : List Grant

/-- The steps of `alloc` at which callers interleave, with the value that the atomic access
reads. -/
inductive HeapEvent (ι : Type) where
  | alloc (caller : ι) (layout : Layout)
  | load (caller : ι) (seen : ℕ)
  | store (caller : ι)
  | exchange (caller : ι) (seen : ℕ)

section Machine

variable {ι : Type} [DecidableEq ι] {heapStart : ℕ} {heap : Heap ι} {event : HeapEvent ι}

def Heap.moveTo (heap : Heap ι) (caller : ι) (progress : Progress) : Heap ι :=
  { heap with callers := Function.update heap.callers caller progress }

/-- A round of the loop in `alloc` before the exchange: `none` is the null pointer. -/
def place (heapStart current : ℕ) (layout : Layout) : Checked (Option Block) := do
  let heapEnd ← add (2 ^ 64) heapStart heapSize
  let allocStart ← alignUp current layout.align
  if allocStart + layout.size < 2 ^ 64 then
    if allocStart + layout.size > heapEnd then pure none else pure (some ⟨allocStart, layout.size⟩)
  else pure none

/-- What the next access of a caller does. -/
def heapStep (heapStart : ℕ) (heap : Heap ι) : HeapEvent ι → Checked (Heap ι)
  | .alloc caller layout => pure (heap.moveTo caller (.entered layout))
  | .load caller seen =>
    match heap.callers caller with
    | .entered layout =>
      pure (heap.moveTo caller (if seen = 0 then .unset layout else .trying layout seen))
    | _ => pure heap
  | .store caller =>
    match heap.callers caller with
    | .unset layout =>
      pure { heap.moveTo caller (.trying layout heapStart) with next := heapStart :: heap.next }
    | _ => pure heap
  | .exchange caller seen =>
    match heap.callers caller with
    | .trying layout current => do
      match ← place heapStart current layout with
      | none => pure (heap.moveTo caller .idle)
      | some block =>
        if seen = current then
          pure { heap.moveTo caller .idle with
            next := block.stop :: heap.next
            given := ⟨layout, block.start⟩ :: heap.given }
        else pure (heap.moveTo caller (.trying layout seen))
    | _ => pure heap

/-- A caller takes its steps in order. An exchange that succeeds reads the last value of `next`. -/
def heapAllowed (heap : Heap ι) : HeapEvent ι → Prop
  | .alloc caller _ => heap.callers caller = .idle
  | .load caller seen => (∃ layout, heap.callers caller = .entered layout) ∧ seen ∈ heap.next
  | .store caller => ∃ layout, heap.callers caller = .unset layout
  | .exchange caller seen => ∃ layout current, heap.callers caller = .trying layout current ∧
      seen ∈ heap.next ∧ (seen = current → heap.next.head? = some seen)

/-- `BumpAllocator` over the heap at `heapStart`. -/
def allocator (ι : Type) [DecidableEq ι] (heapStart : ℕ) : Machine (Heap ι) (HeapEvent ι) :=
  .ofChecked (fun heap => heap = ⟨[0], fun _ => .idle, []⟩) heapAllowed (heapStep heapStart)

/-- `next` is set to the start of the heap only while no block is handed out. -/
def StoresFirst (heap : Heap ι) : HeapEvent ι → Prop
  | .store _ => heap.given = []
  | _ => True

/-- `next` is not set, and nobody has got as far as the exchange. -/
structure Unset (heap : Heap ι) : Prop where
  next : heap.next = [0]
  given : heap.given = []
  callers : ∀ caller layout current, heap.callers caller ≠ .trying layout current

/-- The blocks handed out lie one behind the other below the last value of `next`. -/
def Filled (heapStart : ℕ) (heap : Heap ι) : Prop :=
  Unset heap ∨ ∃ top older, heap.next = top :: older ∧ Stacked heapStart top (heap.given.map Grant.block)

/-- A block lies in the heap, at its alignment. -/
structure Grant.Sound (heapStart : ℕ) (grant : Grant) : Prop where
  aligned : grant.layout.align ∣ grant.start
  inside : grant.block.stop ≤ heapStart + heapSize

structure HeapInv (heapStart : ℕ) (heap : Heap ι) : Prop where
  filled : Filled heapStart heap
  sound : ∀ grant ∈ heap.given, grant.Sound heapStart

/-- What a round of the loop finds. -/
theorem place_some {current : ℕ} {layout : Layout} {block : Block}
    (h : place heapStart current layout = .ok (some block)) :
    block = ⟨Arena.alignUp current layout.align, layout.size⟩ ∧ block.stop ≤ heapStart + heapSize := by
  obtain ⟨k, hk, halign⟩ := layout.pow
  unfold place at h
  rw [add] at h
  split_ifs at h with hend
  · rw [ok_bind] at h
    cases hstart : alignUp current layout.align with
    | error trap =>
      rw [hstart] at h
      cases h
    | ok start =>
      have hvalue := alignUp_value halign hk hstart
      rw [hstart, ok_bind] at h
      split_ifs at h with hword hle
      · cases h
      · obtain rfl := Option.some.inj (Except.ok.inj h)
        rw [hvalue] at hle ⊢
        exact ⟨rfl, Nat.not_lt.mp hle⟩
      · cases h
  · cases h

theorem Layout.align_pos (layout : Layout) : 0 < layout.align := by
  obtain ⟨k, -, halign⟩ := layout.pow
  rw [halign]
  exact Nat.two_pow_pos k

/-- On a heap below `2 ^ 63` a round never traps, and finds the first aligned block if there is one. -/
theorem place_eq {current : ℕ} (hheap : heapStart + heapSize < 2 ^ 63) (h : current ≤ heapStart + heapSize)
    (layout : Layout) :
    place heapStart current layout = .ok (Arena.bump current (heapStart + heapSize) layout.size layout.align) := by
  obtain ⟨k, hk, halign⟩ := layout.pow
  have hfits := layout.fits
  have hpos := layout.align_pos
  have hword : current + layout.align < 2 ^ 64 := by omega
  unfold place Arena.bump
  rw [add, if_pos (by omega), ok_bind, alignUp_eq halign hk hword, ok_bind]
  by_cases hstop : Arena.alignUp current layout.align + layout.size ≤ heapStart + heapSize
  · rw [if_pos (by omega), if_neg (by omega), if_pos hstop]
    rfl
  · rw [if_neg hstop]
    split_ifs with hlt hgt
    · rfl
    · exact absurd (Nat.not_lt.mp hgt) hstop
    · rfl

/-- `alloc` gives up just when no aligned block of the size lies behind those handed out. -/
theorem place_null_iff {current : ℕ} (hheap : heapStart + heapSize < 2 ^ 63) (h : current ≤ heapStart + heapSize)
    (layout : Layout) : place heapStart current layout = .ok none ↔
      ∀ block : Block, block.size = layout.size → layout.align ∣ block.start →
        ¬ block.Within current (heapStart + heapSize) := by
  rw [place_eq hheap h, Except.ok.injEq]
  exact Arena.bump_eq_none_iff layout.align_pos

theorem heapInv_move {caller : ι} {progress : Progress} (h : HeapInv heapStart heap)
    (hprogress : ∀ layout current, progress = .trying layout current → ¬ Unset heap) :
    HeapInv heapStart (heap.moveTo caller progress) := by
  refine ⟨?_, h.sound⟩
  cases h.filled with
  | inl hunset =>
    refine .inl ⟨hunset.next, hunset.given, ?_⟩
    intro other layout current hother
    change Function.update heap.callers caller progress other = _ at hother
    by_cases hother' : other = caller
    · rw [hother', Function.update_self] at hother
      exact hprogress layout current hother hunset
    · rw [Function.update_of_ne hother'] at hother
      exact hunset.callers other layout current hother
  | inr hset => exact .inr hset

theorem heapStep_inv {next : Heap ι} (h : HeapInv heapStart heap) (hallowed : heapAllowed heap event)
    (hfirst : StoresFirst heap event) (hstep : heapStep heapStart heap event = .ok next) :
    HeapInv heapStart next := by
  cases event with
  | alloc caller layout =>
    obtain rfl := Except.ok.inj hstep
    exact heapInv_move h fun _ _ hprogress => by cases hprogress
  | load caller seen =>
    obtain ⟨⟨layout, hcaller⟩, hseen⟩ := hallowed
    simp only [heapStep, hcaller] at hstep
    obtain rfl := Except.ok.inj hstep
    apply heapInv_move h
    intro _ _ hprogress hunset
    rw [hunset.next, List.mem_singleton] at hseen
    rw [if_pos hseen] at hprogress
    cases hprogress
  | store caller =>
    obtain ⟨layout, hcaller⟩ := hallowed
    simp only [heapStep, hcaller] at hstep
    obtain rfl := Except.ok.inj hstep
    have hgiven : heap.given = [] := hfirst
    refine ⟨.inr ⟨heapStart, heap.next, rfl, ?_⟩, h.sound⟩
    change Stacked heapStart heapStart (heap.given.map Grant.block)
    rw [hgiven]
    exact le_rfl
  | exchange caller seen =>
    obtain ⟨layout, current, hcaller, hseen, hlast⟩ := hallowed
    obtain ⟨top, older, hnext, hstacked⟩ : ∃ top older, heap.next = top :: older ∧
        Stacked heapStart top (heap.given.map Grant.block) := by
      rcases h.filled with hunset | hset
      · exact absurd hcaller (hunset.callers caller layout current)
      · exact hset
    simp only [heapStep, hcaller] at hstep
    cases hplace : place heapStart current layout with
    | error trap =>
      rw [hplace] at hstep
      cases hstep
    | ok placed =>
      rw [hplace, ok_bind] at hstep
      cases placed with
      | none =>
        obtain rfl := Except.ok.inj hstep
        exact heapInv_move h fun _ _ hprogress => by cases hprogress
      | some block =>
        obtain ⟨hblock, hstop⟩ := place_some hplace
        dsimp only at hstep
        split_ifs at hstep with hseen'
        · obtain rfl := Except.ok.inj hstep
          have htop : top = current := by
            have hhead := hlast hseen'
            rw [hnext] at hhead
            exact (Option.some.inj hhead).trans hseen'
          have hle : top ≤ block.start := by
            rw [hblock, htop]
            exact Arena.le_alignUp layout.align_pos
          have hgrant : Grant.block ⟨layout, block.start⟩ = block := by
            rw [hblock]
            rfl
          constructor
          · right
            refine ⟨block.stop, heap.next, rfl, ?_⟩
            rw [List.map_cons, hgrant]
            exact hstacked.push hle
          · intro grant hmem
            rcases List.mem_cons.mp hmem with rfl | hmem
            · refine ⟨?_, ?_⟩
              · change layout.align ∣ block.start
                rw [hblock]
                exact Arena.dvd_alignUp _ _
              · rw [hgrant]
                exact hstop
            · exact h.sound grant hmem
        · obtain rfl := Except.ok.inj hstep
          apply heapInv_move h
          intro _ _ _ hunset
          exact hunset.callers caller layout current hcaller

omit [DecidableEq ι] in
theorem Filled.apart (h : Filled heapStart heap) : (heap.given.map Grant.block).Pairwise Block.Apart ∧
    ∀ grant ∈ heap.given, heapStart ≤ grant.start := by
  rcases h with hunset | ⟨top, older, -, hstacked⟩
  · simp [hunset.given]
  · refine ⟨hstacked.apart, ?_⟩
    intro grant hgrant
    exact (hstacked.within _ (List.mem_map_of_mem hgrant)).1

/-- As long as `next` is set to the start of the heap before the first block is handed out, whatever
the callers interleave and however old the values are that they load, no two blocks share a byte, and
each lies in the heap at its alignment. -/
theorem given_apart (h : ((allocator ι heapStart).restrict StoresFirst).Reachable heap) :
    (heap.given.map Grant.block).Pairwise Block.Apart ∧
      ∀ grant ∈ heap.given, grant.layout.align ∣ grant.start ∧
        grant.block.Within heapStart (heapStart + heapSize) := by
  have hinv : HeapInv heapStart heap := by
    apply h.invariant
    · rintro _ rfl
      exact ⟨.inl ⟨rfl, rfl, fun _ _ _ h => by cases h⟩, by simp⟩
    · intro state event hinv hallowed
      obtain ⟨hstep, hnext⟩ := Machine.ofChecked_step hallowed.1
      exact heapStep_inv hinv hstep hallowed.2 hnext
  obtain ⟨hapart, hlow⟩ := hinv.filled.apart
  refine ⟨hapart, ?_⟩
  intro grant hgrant
  obtain ⟨haligned, hinside⟩ := hinv.sound grant hgrant
  exact ⟨haligned, hlow grant hgrant, hinside⟩

theorem sixteen_pow : ∃ k < 64, 16 = 2 ^ k := ⟨4, by decide, rfl⟩

theorem sixteen_fits : 16 + (16 - 1) < 2 ^ 63 := by decide

def sixteen : Layout := ⟨16, 16, sixteen_pow, sixteen_fits⟩

/-- Two callers both find `next` unset, and one loses the first exchange. -/
def racingCalls : List (HeapEvent Bool) :=
  [.alloc true sixteen, .alloc false sixteen, .load true 0, .load false 0, .store true, .store false,
    .exchange true 4096, .exchange false 4112, .exchange false 4112]

theorem given_apart_racing : ∃ heap : Heap Bool, heap.given.length = 2 ∧
    (heap.given.map Grant.block).Pairwise Block.Apart := by
  have h : ((allocator Bool 4096).restrict StoresFirst).Allows ⟨[0], fun _ => .idle, []⟩ racingCalls := by
    refine ⟨⟨⟨rfl, rfl⟩, trivial⟩, ⟨⟨rfl, rfl⟩, trivial⟩, ⟨⟨⟨⟨_, rfl⟩, by decide⟩, rfl⟩, trivial⟩,
      ⟨⟨⟨⟨_, rfl⟩, by decide⟩, rfl⟩, trivial⟩, ⟨⟨⟨_, rfl⟩, rfl⟩, rfl⟩, ⟨⟨⟨_, rfl⟩, rfl⟩, rfl⟩,
      ⟨⟨⟨_, _, rfl, by decide, fun _ => rfl⟩, by decide +kernel⟩, trivial⟩,
      ⟨⟨⟨_, _, rfl, by decide, fun _ => rfl⟩, by decide +kernel⟩, trivial⟩,
      ⟨⟨⟨_, _, rfl, by decide +kernel, fun _ => by decide +kernel⟩, by decide +kernel⟩, trivial⟩, trivial⟩
  exact ⟨_, by decide +kernel, (given_apart (Machine.Reachable.run (.init rfl) h)).1⟩

/-- Calls of `alloc` do not overlap, and a load reads the last value of `next`. -/
def Serial (heap : Heap ι) : HeapEvent ι → Prop
  | .alloc _ _ => ∀ caller, heap.callers caller = .idle
  | .load _ seen => heap.next.head? = some seen
  | _ => True

/-- At most one caller is inside `alloc`, and it is not about to set `next` once a block is handed
out. -/
structure Alone (heap : Heap ι) : Prop where
  busy : ∀ a b, heap.callers a ≠ .idle → heap.callers b ≠ .idle → a = b
  set : heap.given ≠ [] → ∃ top older, heap.next = top :: older ∧ 0 < top
  unset : ∀ caller layout, heap.callers caller = .unset layout → heap.given = []

theorem Alone.move {next : Heap ι} {caller : ι} {progress : Progress}
    (hcallers : next.callers = Function.update heap.callers caller progress)
    (hidle : ∀ other, other ≠ caller → heap.callers other = .idle)
    (hset : next.given ≠ [] → ∃ top older, next.next = top :: older ∧ 0 < top)
    (hunset : ∀ layout, progress = .unset layout → next.given = []) : Alone next := by
  have hother : ∀ other, other ≠ caller → next.callers other = .idle := by
    intro other hne
    rw [hcallers, Function.update_of_ne hne]
    exact hidle other hne
  constructor
  · intro a b ha hb
    have hcaller : ∀ other, next.callers other ≠ .idle → other = caller :=
      fun other hbusy => by_contra fun hne => hbusy (hother other hne)
    exact (hcaller a ha).trans (hcaller b hb).symm
  · exact hset
  · intro other layout hlayout
    by_cases hne : other = caller
    · rw [hne, hcallers, Function.update_self] at hlayout
      exact hunset layout hlayout
    · rw [hother other hne] at hlayout
      cases hlayout

theorem heapStep_alone {next : Heap ι} (hpos : 0 < heapStart) (hinv : HeapInv heapStart heap) (h : Alone heap)
    (hallowed : heapAllowed heap event) (hserial : Serial heap event)
    (hstep : heapStep heapStart heap event = .ok next) : Alone next := by
  have hidle : ∀ caller, heap.callers caller ≠ .idle → ∀ other, other ≠ caller → heap.callers other = .idle :=
    fun caller hbusy other hne => by_contra fun hother => hne (h.busy other caller hother hbusy)
  cases event with
  | alloc caller layout =>
    obtain rfl := Except.ok.inj hstep
    exact .move rfl (fun other _ => hserial other) h.set fun _ hunset => by cases hunset
  | load caller seen =>
    obtain ⟨⟨layout, hcaller⟩, -⟩ := hallowed
    have hlast : heap.next.head? = some seen := hserial
    simp only [heapStep, hcaller] at hstep
    obtain rfl := Except.ok.inj hstep
    refine .move rfl (hidle caller (by simp [hcaller])) h.set ?_
    intro _ hunset
    by_contra hgiven
    obtain ⟨top, older, hnext, htop⟩ := h.set hgiven
    rw [hnext] at hlast
    rw [if_neg (Option.some.inj hlast ▸ htop.ne')] at hunset
    cases hunset
  | store caller =>
    obtain ⟨layout, hcaller⟩ := hallowed
    have hgiven := h.unset caller layout hcaller
    simp only [heapStep, hcaller] at hstep
    obtain rfl := Except.ok.inj hstep
    exact .move rfl (hidle caller (by simp [hcaller])) (fun hset => absurd hgiven hset)
      fun _ hunset => by cases hunset
  | exchange caller seen =>
    obtain ⟨layout, current, hcaller, -, hlast⟩ := hallowed
    have hothers := hidle caller (by simp [hcaller])
    simp only [heapStep, hcaller] at hstep
    cases hplace : place heapStart current layout with
    | error trap =>
      rw [hplace] at hstep
      cases hstep
    | ok placed =>
      rw [hplace, ok_bind] at hstep
      cases placed with
      | none =>
        obtain rfl := Except.ok.inj hstep
        exact .move rfl hothers h.set fun _ hunset => by cases hunset
      | some block =>
        dsimp only at hstep
        split_ifs at hstep with hseen
        · obtain rfl := Except.ok.inj hstep
          have hcaller' : ∀ layout', Progress.idle = .unset layout' → (⟨layout, block.start⟩ :: heap.given) = [] :=
            fun _ hunset => by cases hunset
          refine .move rfl hothers (fun _ => ⟨block.stop, heap.next, rfl, ?_⟩) hcaller'
          have hstart : current ≤ block.start := by
            rw [(place_some hplace).1]
            exact Arena.le_alignUp layout.align_pos
          have hcurrent : heapStart ≤ current := by
            rcases hinv.filled with hunset | ⟨top, older, hnext, hstacked⟩
            · exact absurd hcaller (hunset.callers caller layout current)
            · have hhead := hlast hseen
              rw [hnext] at hhead
              rw [← hseen, ← Option.some.inj hhead]
              exact hstacked.base_le
          unfold Block.stop
          omega
        · obtain rfl := Except.ok.inj hstep
          exact .move rfl hothers h.set fun _ hunset => by cases hunset

/-- Calls that do not overlap set `next` before the first block is handed out. -/
theorem serial_storesFirst (hpos : 0 < heapStart) (h : ((allocator ι heapStart).restrict Serial).Reachable heap) :
    ((allocator ι heapStart).restrict StoresFirst).Reachable heap ∧ HeapInv heapStart heap ∧ Alone heap := by
  induction h with
  | init hstart =>
    refine ⟨.init hstart, ?_, ?_⟩
    · obtain rfl := hstart
      exact ⟨.inl ⟨rfl, rfl, fun _ _ _ h => by cases h⟩, by simp⟩
    · obtain rfl := hstart
      exact ⟨fun _ _ h => absurd rfl h, fun h => absurd rfl h, fun _ _ _ => rfl⟩
  | @step before event _ hallowed ih =>
    obtain ⟨hreach, hinv, halone⟩ := ih
    have hfirst : StoresFirst before event := by
      cases event with
      | store caller =>
        obtain ⟨layout, hcaller⟩ := hallowed.1.1
        exact halone.unset caller layout hcaller
      | _ => trivial
    obtain ⟨hstep, hnext⟩ := Machine.ofChecked_step hallowed.1
    exact ⟨hreach.step ⟨hallowed.1, hfirst⟩, heapStep_inv hinv hstep hfirst hnext,
      heapStep_alone hpos hinv halone hstep hallowed.2 hnext⟩

end Machine

end MiniAgentOS.Memory
