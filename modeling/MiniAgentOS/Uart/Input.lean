import MiniAgentOS.Lib.Mealy
import MiniAgentOS.Text.Ascii

/-! What is typed on the UART: the line that `kmain` collects byte by byte, the cleaning of the line before
it is handled, and which bytes of terminal input each of them keeps. -/
namespace MiniAgentOS.Uart
open Mealy

def uartLineMax : ℕ := 2048
def uartCleanLineMax : ℕ := 2048
def esc : UInt8 := 27

def isFinal (b : UInt8) : Bool := 0x40 ≤ b && b ≤ 0x7e

def isUtf8ContinuationByte (b : UInt8) : Bool := b &&& 0xc0 == 0x80

/-- The loop of `utf8_previous_boundary` from index `idx` down. -/
def previousBoundary (buf : Bytes) : ℕ → ℕ
  | 0 => 0
  | idx + 1 => if (buf[idx + 1]?).any isUtf8ContinuationByte then previousBoundary buf idx else idx + 1

def utf8PreviousBoundary (buf : Bytes) : ℕ := previousBoundary buf (buf.length - 1)

def trimAsciiInPlace (buf : Bytes) : Bytes := (buf.dropWhile isSpace).rdropWhile isSpace

structure CleanLine where
  out : Bytes := []
  skipEscape : Bool := false

/-- One byte of the loop in `sanitize_uart_line`, and whether it is stored. The loop ends with a full
buffer, and so nothing happens from there on. -/
def sanitizeStep (s : CleanLine) (b : UInt8) : CleanLine × Bool :=
  if uartCleanLineMax ≤ s.out.length then (s, false)
  else if s.skipEscape then ({ s with skipEscape := !isFinal b }, false)
  else if b = esc then ({ s with skipEscape := true }, false)
  else if b < 0x20 ∨ b = 0x7f then
    if b = tab then ({ s with out := s.out ++ [space] }, true) else (s, false)
  else ({ s with out := s.out ++ [b] }, true)

def sanitizeUartLine (line : Bytes) : Bytes := trimAsciiInPlace (last sanitizeStep {} line).out

/-- `UART_LINE_BUF` up to `UART_LINE_LEN`, and `UART_INPUT_ESCAPE_ACTIVE`. -/
structure UartInput where
  line : Bytes := []
  escapeActive : Bool := false

/-- What moves the input: a byte that is read, and a prompt that some part of the kernel prints. -/
inductive UartEvent where
  | byte (b : UInt8)
  | prompt

/-- What becomes of an event: the byte stands in the line, it does not, or a line is handled. -/
inductive Fate where
  | stored
  | lost
  | handled (line : Bytes)
deriving DecidableEq

/-- One byte of the input loop in `kmain`, or one call of `uart_prompt`. -/
def uartInput (s : UartInput) : UartEvent → UartInput × Fate
  | .prompt => ({ s with escapeActive := false }, .lost)
  | .byte b =>
    if s.escapeActive then ({ s with escapeActive := !isFinal b }, .lost)
    else if b = esc then ({ s with escapeActive := true }, .lost)
    else if b = cr ∨ b = lf then ({}, .handled (sanitizeUartLine s.line))
    else if b = 0x08 ∨ b = 0x7f then ({ s with line := s.line.take (utf8PreviousBoundary s.line) }, .lost)
    else if s.line.length + 1 < uartLineMax then ({ s with line := s.line ++ [b] }, .stored)
    else (s, .lost)

/-- The escape automaton that both loops contain, with the room that is left for text. -/
def skim (s : ℕ × Bool) : UartEvent → (ℕ × Bool) × Bool
  | .prompt => ((s.1, false), false)
  | .byte b =>
    if s.2 then ((s.1, !isFinal b), false)
    else if b = esc then ((s.1, true), false)
    else if s.1 = 0 then (s, false)
    else ((s.1 - 1, false), true)

/-- Terminal input. Prompts may fall anywhere between its bytes: `gap` of them behind an `ESC`, and those of
`params` that are no byte. -/
inductive Item where
  | text (b : {b : UInt8 // 0x20 ≤ b ∧ b ≠ 0x7f})
  | csi (gap : ℕ) (params : List (Option {b : UInt8 // 0x20 ≤ b ∧ b ≤ 0x3f})) (final : {b : UInt8 // isFinal b})
  | two (gap : ℕ) (x : {b : UInt8 // 0x30 ≤ b ∧ b ≤ 0x7e ∧ b ≠ 0x5b})
  | prompt

def UartEvent.ofOption {p : UInt8 → Prop} : Option {b : UInt8 // p b} → UartEvent
  | none => .prompt
  | some b => .byte b.1

def UartEvent.read : UartEvent → Option UInt8
  | .byte b => some b
  | .prompt => none

namespace Item

def events : Item → List UartEvent
  | text b => [.byte b.1]
  | csi gap params final =>
    .byte esc :: (List.replicate gap .prompt ++ .byte 0x5b :: (params.map .ofOption ++ [.byte final.1]))
  | two gap x => .byte esc :: (List.replicate gap .prompt ++ [.byte x.1])
  | prompt => [.prompt]

/-- Which events are to be stored: ordinary text. -/
def wanted : Item → List Bool
  | text _ => [true]
  | i => List.replicate i.events.length false

def ordinary : Item → Bytes
  | text b => [b.1]
  | _ => []

/-- The item without its prompts. -/
def typed : Item → Option Item
  | text b => some (text b)
  | csi _ params final => some (csi 0 (params.filter Option.isSome) final)
  | two _ x => some (two 0 x)
  | prompt => none

def isText : Item → Bool
  | text _ => true
  | _ => false

def isCsi : Item → Bool
  | csi _ _ _ => true
  | _ => false

/-- An `ESC x` whose `x` does not end the escape for the automaton. -/
def opens : Item → Bool
  | two gap x => gap = 0 && !isFinal x.1
  | _ => false

/-- The prompts between an `ESC` and its `x`. -/
def gap : Item → ℕ
  | two gap _ => gap
  | _ => 0

/-- When the automaton treats an item as it should. -/
def Fits (room : ℕ) (active : Bool) : Item → Prop
  | text _ => active = false ∧ 0 < room
  | csi _ _ _ => room = 0
  | two gap _ => gap = 0 ∨ room = 0
  | prompt => True

/-- What such an item leaves. -/
def after (room : ℕ) (i : Item) : ℕ × Bool := (room - i.ordinary.length, i.opens)

end Item

/-- Every item is treated as it should be, from a state on. -/
def Kept (room : ℕ) (active : Bool) : List Item → Prop
  | [] => True
  | i :: is => i.Fits room active ∧ Kept (i.after room).1 (i.after room).2 is

def settled (room : ℕ) (active : Bool) (is : List Item) : ℕ × Bool :=
  is.foldl (fun s i => i.after s.1) (room, active)

/-- No text stands directly behind an `ESC x` that opens. -/
def Follows : Bool → List Item → Prop
  | _, [] => True
  | opened, i :: is => (i.isText → opened = false) ∧ Follows i.opens is

/-- As long as there is room for text, no prompt splits an `ESC x`. -/
def Unsplit : ℕ → List Item → Prop
  | _, [] => True
  | room, i :: is => (i.gap = 0 ∨ room = 0) ∧ Unsplit (room - i.ordinary.length) is

/-- A typed line: terminal input, and the byte that ends it. -/
structure TypedLine where
  items : List Item
  ending : {b : UInt8 // b = cr ∨ b = lf}

def fate (kept : Bool) : Fate := if kept then .stored else .lost

namespace TypedLine

def text (l : TypedLine) : Bytes := l.items.flatMap Item.ordinary

def events (l : TypedLine) : List UartEvent := l.items.flatMap Item.events ++ [.byte l.ending.1]

/-- The text is stored and no other byte is, and the text is what is handled. -/
def fates (l : TypedLine) : List Fate := (l.items.flatMap Item.wanted).map fate ++ [.handled l.text]

def typed (l : TypedLine) : List Item := l.items.filterMap Item.typed

/-- The bytes of the line. -/
def raw (l : TypedLine) : Bytes := (l.items.flatMap Item.events).filterMap UartEvent.read

/-- The lines for which text arrives as it was typed. -/
structure Fine (l : TypedLine) : Prop where
  plain : ∀ i ∈ l.items, i.isCsi = false
  short : l.text.length < uartLineMax
  follows : Follows false l.items
  typed_follows : Follows false l.typed
  closed : ∀ i, l.items.getLast? = some i → i.opens = false
  unsplit : Unsplit (uartLineMax - 1) l.items
  head : l.text.head? ≠ some space
  last : l.text.getLast? ≠ some space

end TypedLine

/-- The input loop keeps the text of every line, no byte of a sequence, and hands the text over. -/
def KmainMeets (lines : List TypedLine) : Prop :=
  outputs uartInput {} (lines.flatMap TypedLine.events) = lines.flatMap TypedLine.fates

/-- `sanitize_uart_line` keeps the text of the line, no byte of a sequence, and returns the text. -/
def SanitizeMeets (l : TypedLine) : Prop :=
  outputs sanitizeStep {} l.raw = l.typed.flatMap Item.wanted ∧ sanitizeUartLine l.raw = l.text

def UartMeets (lines : List TypedLine) : Prop := KmainMeets lines ∧ ∀ l ∈ lines, SanitizeMeets l

variable {room : ℕ} {active : Bool}

@[simp] theorem skim_prompt : skim (room, active) .prompt = ((room, false), false) := rfl

@[simp] theorem skim_active {b : UInt8} : skim (room, true) (.byte b) = ((room, !isFinal b), false) := rfl

@[simp] theorem skim_esc : skim (room, active) (.byte esc) = ((room, true), false) := by
  cases active <;> rfl

@[simp] theorem skim_full {b : UInt8} (h : b ≠ esc) : skim (0, false) (.byte b) = ((0, false), false) := by
  simp [skim, h]

theorem skim_stored {b : UInt8} (h : b ≠ esc) (hroom : room ≠ 0) :
    skim (room, false) (.byte b) = ((room - 1, false), true) := by
  simp [skim, h, hroom]

theorem skim_prompts (room : ℕ) (active : Bool) (gap : ℕ) :
    outputs skim (room, active) (List.replicate gap .prompt) = List.replicate gap false ∧
    last skim (room, active) (List.replicate gap .prompt) = (room, active && gap == 0) := by
  induction gap generalizing active with
  | zero => simp
  | succ gap ih => simp [List.replicate_succ, ih]

theorem param_not_esc (p : {b : UInt8 // 0x20 ≤ b ∧ b ≤ 0x3f}) : p.1 ≠ esc := by
  intro h
  have hlow := p.2.1
  rw [h] at hlow
  exact absurd hlow (by decide)

/-- Outside of an escape the parameters of a sequence are lost only where no text is kept. -/
theorem skim_params (params : List (Option {b : UInt8 // 0x20 ≤ b ∧ b ≤ 0x3f})) :
    outputs skim (room, false) (params.map .ofOption) = List.replicate params.length false →
    last skim (room, false) (params.map .ofOption) = (room, false) := by
  intro h
  induction params with
  | nil => rfl
  | cons p params ih =>
    rw [List.map_cons, outputs_cons, List.length_cons, List.replicate_succ] at h
    obtain ⟨hfst, hrest⟩ := List.cons.inj h
    have hstep : (skim (room, false) (.ofOption p)).1 = (room, false) := by
      cases p with
      | none => rfl
      | some p =>
        rcases Nat.eq_zero_or_pos room with rfl | hroom
        · rw [UartEvent.ofOption, skim_full (param_not_esc p)]
        · rw [UartEvent.ofOption, skim_stored (param_not_esc p) hroom.ne'] at hfst
          exact absurd hfst (by simp)
    rw [hstep] at hrest
    rw [List.map_cons, last_cons, hstep, ih hrest]

theorem skim_params_full (params : List (Option {b : UInt8 // 0x20 ≤ b ∧ b ≤ 0x3f})) :
    outputs skim (0, false) (params.map .ofOption) = List.replicate params.length false := by
  induction params with
  | nil => rfl
  | cons p params ih =>
    have hstep : skim (0, false) (.ofOption p) = ((0, false), false) := by
      cases p with
      | none => rfl
      | some p => exact skim_full (param_not_esc p)
    rw [List.map_cons, outputs_cons, hstep, ih, List.length_cons, List.replicate_succ]

theorem text_not_esc (b : {b : UInt8 // 0x20 ≤ b ∧ b ≠ 0x7f}) : b.1 ≠ esc := by
  intro h
  have hlow := b.2.1
  rw [h] at hlow
  exact absurd hlow (by decide)

theorem final_not_esc {b : UInt8} (h : isFinal b) : b ≠ esc := by
  rintro rfl
  exact absurd h (by decide)

theorem two_not_esc (x : {b : UInt8 // 0x30 ≤ b ∧ b ≤ 0x7e ∧ b ≠ 0x5b}) : x.1 ≠ esc := by
  intro h
  have hlow := x.2.1
  rw [h] at hlow
  exact absurd hlow (by decide)

theorem bracket_not_esc : (0x5b : UInt8) ≠ esc := by decide

@[simp] theorem isFinal_bracket : isFinal 0x5b = true := rfl

@[simp] theorem Item.wanted_length (i : Item) : i.wanted.length = i.events.length := by
  cases i <;> simp [wanted, events]

theorem skim_text {b : {b : UInt8 // 0x20 ≤ b ∧ b ≠ 0x7f}} :
    outputs skim (room, active) (Item.text b).events = (Item.text b).wanted ↔ (Item.text b).Fits room active := by
  cases active with
  | true => simp [Item.events, Item.wanted, Item.Fits]
  | false =>
    rcases Nat.eq_zero_or_pos room with rfl | hroom
    · simp [Item.events, Item.wanted, Item.Fits, skim_full (text_not_esc b)]
    · simp [Item.events, Item.wanted, Item.Fits, skim_stored (text_not_esc b) hroom.ne', hroom]

/-- Behind an `ESC` and the prompts after it, a byte is lost where none of these ended the escape, or the
line is full. -/
theorem skim_second {b : UInt8} (h : b ≠ esc) (gap : ℕ) :
    (skim (room, gap == 0) (.byte b)).2 = false ↔ gap = 0 ∨ room = 0 := by
  rcases Nat.eq_zero_or_pos gap with rfl | hgap
  · simp
  · rw [show (gap == 0) = false by simp [hgap.ne']]
    rcases Nat.eq_zero_or_pos room with rfl | hroom
    · simp [skim_full h]
    · simp [skim_stored h hroom.ne', hgap.ne', hroom.ne']

theorem skim_two {gap : ℕ} {x : {b : UInt8 // 0x30 ≤ b ∧ b ≤ 0x7e ∧ b ≠ 0x5b}} :
    outputs skim (room, active) (Item.two gap x).events = (Item.two gap x).wanted ↔
    (Item.two gap x).Fits room active := by
  have hwanted : (Item.two gap x).wanted = false :: (List.replicate gap false ++ [false]) := by
    simp [Item.wanted, Item.events, List.replicate_succ, ← List.replicate_succ']
  obtain ⟨hprompts, hlast⟩ := skim_prompts room true gap
  rw [hwanted, Item.events, outputs_cons, skim_esc, List.cons_eq_cons, outputs_append_iff (by simp), hprompts, hlast,
    outputs_cons, outputs_nil, Bool.true_and, List.cons_eq_cons, skim_second (two_not_esc x)]
  simp [Item.Fits]

theorem skim_csi {gap : ℕ} {params : List (Option {b : UInt8 // 0x20 ≤ b ∧ b ≤ 0x3f})}
    {final : {b : UInt8 // isFinal b}} :
    outputs skim (room, active) (Item.csi gap params final).events = (Item.csi gap params final).wanted ↔
    (Item.csi gap params final).Fits room active := by
  have hwanted : (Item.csi gap params final).wanted =
      false :: (List.replicate gap false ++ false :: (List.replicate params.length false ++ [false])) := by
    simp [Item.wanted, Item.events, List.replicate_add, List.replicate_succ, ← List.replicate_succ']
  obtain ⟨hprompts, hlast⟩ := skim_prompts room true gap
  rw [hwanted, Item.events, outputs_cons, skim_esc, List.cons_eq_cons, outputs_append_iff (by simp), hprompts, hlast,
    outputs_cons, Bool.true_and, List.cons_eq_cons, skim_second bracket_not_esc]
  constructor
  · rintro ⟨-, -, hsecond, hrest⟩
    by_contra hroom
    have hroom : room ≠ 0 := hroom
    -- the bracket is a final byte, so from it on nothing is skipped
    have hgap : gap = 0 := by simpa [hroom] using hsecond
    have hstate : (skim (room, gap == 0) (.byte 0x5b)).1 = (room, false) := by simp [hgap]
    rw [hstate, outputs_append_iff (by simp)] at hrest
    rw [skim_params params hrest.1, outputs_cons, skim_stored (final_not_esc final.2) hroom] at hrest
    simp at hrest
  · intro hroom
    have hroom : room = 0 := hroom
    have hstate : (skim (room, gap == 0) (.byte 0x5b)).1 = (room, false) := by
      cases h : gap == 0 <;> simp [hroom, skim_full bracket_not_esc]
    have hparams := skim_params_full params
    refine ⟨rfl, rfl, Or.inr hroom, ?_⟩
    rw [hstate, outputs_append_iff (by simp), hroom]
    refine ⟨hparams, ?_⟩
    rw [skim_params params hparams, outputs_cons, skim_full (final_not_esc final.2), outputs_nil]

/-- An item is treated as it should be just where it fits. -/
theorem skim_item (i : Item) : outputs skim (room, active) i.events = i.wanted ↔ i.Fits room active := by
  cases i with
  | text b => exact skim_text
  | csi gap params final => exact skim_csi
  | two gap x => exact skim_two
  | prompt => simp [Item.events, Item.wanted, Item.Fits]

theorem skim_after {i : Item} (h : i.Fits room active) : last skim (room, active) i.events = i.after room := by
  cases i with
  | text b =>
    obtain ⟨hactive, hroom⟩ := h
    rw [hactive, Item.events, last_cons, skim_stored (text_not_esc b) hroom.ne', last_nil]
    rfl
  | csi gap params final =>
    have hroom : room = 0 := h
    subst hroom
    obtain ⟨-, hlast⟩ := skim_prompts 0 true gap
    have hstate : (skim (0, gap == 0) (.byte 0x5b)).1 = (0, false) := by
      cases h : gap == 0 <;> simp [skim_full bracket_not_esc]
    rw [Item.events, last_cons, skim_esc, last_append, hlast, Bool.true_and, last_cons, hstate, last_append,
      skim_params params (skim_params_full params), last_cons, skim_full (final_not_esc final.2), last_nil]
    rfl
  | two gap x =>
    obtain ⟨-, hlast⟩ := skim_prompts room true gap
    rw [Item.events, last_cons, skim_esc, last_append, hlast, Bool.true_and, last_cons, last_nil]
    have hafter : (Item.two gap x).after room = (room, decide (gap = 0) && !isFinal x.1) := rfl
    rw [hafter]
    rcases Nat.eq_zero_or_pos gap with rfl | hgap
    · simp
    · have hfull : room = 0 := (or_iff_right hgap.ne').mp h
      rw [hfull, show (gap == 0) = false by simp [hgap.ne'], skim_full (two_not_esc x)]
      simp [hgap.ne']
  | prompt => rfl

/-- What terminal input keeps is its ordinary text just where every item fits. -/
theorem skim_items (is : List Item) : outputs skim (room, active) (is.flatMap Item.events) = is.flatMap Item.wanted ↔
    Kept room active is := by
  induction is generalizing room active with
  | nil => simp [Kept]
  | cons i is ih =>
    rw [List.flatMap_cons, List.flatMap_cons, outputs_append_iff i.wanted_length, skim_item, Kept]
    apply and_congr_right
    intro hfits
    rw [skim_after hfits, ih]

theorem skim_settled {is : List Item} (h : Kept room active is) :
    last skim (room, active) (is.flatMap Item.events) = settled room active is := by
  induction is generalizing room active with
  | nil => rfl
  | cons i is ih =>
    rw [List.flatMap_cons, last_append, skim_after h.1, ih h.2, settled, settled, List.foldl_cons]

theorem Kept.length {is : List Item} (h : Kept room active is) : (is.flatMap Item.ordinary).length ≤ room := by
  induction is generalizing room active with
  | nil => simp
  | cons i is ih =>
    obtain ⟨hfits, hrest⟩ := h
    have hle : i.ordinary.length ≤ room := by
      cases i with
      | text b => exact hfits.2
      | csi gap params final => simp [Item.ordinary]
      | two gap x => simp [Item.ordinary]
      | prompt => simp [Item.ordinary]
    have hrest' := ih hrest
    rw [Item.after] at hrest'
    rw [List.flatMap_cons, List.length_append]
    omega

/-- A `CSI` is left out only where the text before it already fills the line. -/
theorem Kept.full_of_csi {is : List Item} (h : Kept room active is) {i : Item} (hi : i ∈ is) (hcsi : i.isCsi) :
    (is.flatMap Item.ordinary).length = room := by
  induction is generalizing room active with
  | nil => simp at hi
  | cons j is ih =>
    have hle := h.length
    rw [List.flatMap_cons, List.length_append] at hle ⊢
    rcases List.mem_cons.mp hi with rfl | hi
    · cases i with
      | csi gap params final =>
        have hroom : room = 0 := h.1
        omega
      | _ => simp [Item.isCsi] at hcsi
    · have hrest := ih h.2 hi
      rw [Item.after] at hrest
      omega

/-- Without a `CSI`, what the automaton does depends on the pieces that stand next to each other. -/
theorem kept_iff {is : List Item} (hplain : ∀ i ∈ is, i.isCsi = false) : Kept room active is ↔
    Follows active is ∧ (is.flatMap Item.ordinary).length ≤ room ∧ Unsplit room is := by
  induction is generalizing room active with
  | nil => simp [Kept, Follows, Unsplit]
  | cons i is ih =>
    rw [Kept, Item.after, ih fun j hj => hplain j (List.mem_cons_of_mem _ hj), Follows, Unsplit, List.flatMap_cons,
      List.length_append]
    cases i with
    | text b =>
      simp only [Item.Fits, Item.isText, Item.gap, Item.ordinary, List.length_singleton]
      constructor
      · rintro ⟨⟨hactive, hroom⟩, hfollows, hlength, hsplit⟩
        exact ⟨⟨fun _ => hactive, hfollows⟩, by omega, Or.inl trivial, hsplit⟩
      · rintro ⟨⟨hactive, hfollows⟩, hlength, -, hsplit⟩
        exact ⟨⟨hactive trivial, by omega⟩, hfollows, by omega, hsplit⟩
    | csi gap params final => exact absurd (hplain _ List.mem_cons_self) (by simp [Item.isCsi])
    | two gap x =>
      simp only [Item.Fits, Item.isText, Item.gap, Item.ordinary, List.length_nil, Nat.sub_zero, Nat.zero_add]
      simp only [Bool.false_eq_true, false_imp_iff, true_and]
      exact ⟨fun h => ⟨h.2.1, h.2.2.1, h.1, h.2.2.2⟩, fun h => ⟨h.2.2.1, h.1, h.2.1, h.2.2.2⟩⟩
    | prompt => simp [Item.Fits, Item.isText, Item.gap, Item.ordinary]

theorem settled_snd (is : List Item) : (settled room active is).2 = false ↔
    (is = [] → active = false) ∧ ∀ i, is.getLast? = some i → i.opens = false := by
  cases is using List.reverseRecOn with
  | nil => simp [settled]
  | append_singleton is i => simp [settled, Item.after]

/-- A byte that the escape automaton tells apart only by the `ESC` and the final bytes. -/
def Printable (b : UInt8) : Prop := b = esc ∨ 0x20 ≤ b ∧ b ≠ 0x7f

def UartEvent.Plain : UartEvent → Prop
  | .prompt => True
  | .byte b => Printable b

/-- The byte of an event that is kept. -/
def emitted : UartEvent → Bool → Bytes
  | .byte b, true => [b]
  | _, _ => []

theorem plain_of_range {b low high : UInt8} (h : low ≤ b ∧ b ≤ high) (hlow : 0x20 ≤ low) (hhigh : high ≤ 0x7e) :
    Printable b := by
  refine Or.inr ⟨UInt8.le_trans hlow h.1, ?_⟩
  rintro rfl
  exact absurd (UInt8.le_trans h.2 hhigh) (by decide)

theorem Item.plain (i : Item) : ∀ e ∈ i.events, e.Plain := by
  intro e he
  cases i with
  | text b =>
    rw [List.mem_singleton.mp he]
    exact Or.inr b.2
  | csi gap params final =>
    have hfinal : Printable final.1 := by
      have hrange : 0x40 ≤ final.1 ∧ final.1 ≤ 0x7e := by simpa [isFinal] using final.2
      exact plain_of_range hrange (by decide) (by decide)
    simp only [events, List.mem_cons, List.mem_append, List.mem_map, List.not_mem_nil, or_false] at he
    rcases he with rfl | he | rfl | ⟨p, -, rfl⟩ | rfl
    · exact Or.inl rfl
    · rw [List.eq_of_mem_replicate he]
      trivial
    · exact Or.inr (by decide)
    · cases p with
      | none => trivial
      | some p => exact plain_of_range p.2 (by decide) (by decide)
    · exact hfinal
  | two gap x =>
    simp only [events, List.mem_cons, List.mem_append, List.not_mem_nil, or_false] at he
    rcases he with rfl | he | rfl
    · exact Or.inl rfl
    · rw [List.eq_of_mem_replicate he]
      trivial
    · exact plain_of_range ⟨x.2.1, x.2.2.1⟩ (by decide) (by decide)
  | prompt =>
    rw [List.mem_singleton.mp he]
    trivial

theorem items_plain (is : List Item) : ∀ e ∈ is.flatMap Item.events, e.Plain := by
  intro e he
  obtain ⟨i, -, hi⟩ := List.mem_flatMap.mp he
  exact i.plain e hi

theorem emitted_lost (es : List UartEvent) :
    (List.zipWith emitted es (List.replicate es.length false)).flatten = [] := by
  induction es with
  | nil => rfl
  | cons e es ih => cases e <;> simpa [List.replicate_succ, emitted] using ih

theorem Item.emitted_wanted (i : Item) : (List.zipWith emitted i.events i.wanted).flatten = i.ordinary := by
  cases i with
  | text b => rfl
  | _ => exact emitted_lost _

/-- The events that are to be stored make up the text. -/
theorem emitted_items (is : List Item) :
    (List.zipWith emitted (is.flatMap Item.events) (is.flatMap Item.wanted)).flatten = is.flatMap Item.ordinary := by
  induction is with
  | nil => rfl
  | cons i is ih =>
    rw [List.flatMap_cons, List.flatMap_cons, List.flatMap_cons, List.zipWith_append i.wanted_length.symm,
      List.flatten_append, i.emitted_wanted, ih]

/-- The text is made of the bytes that are no control characters. -/
theorem ordinary_printable (is : List Item) : ∀ b ∈ is.flatMap Item.ordinary, 0x20 ≤ b ∧ b ≠ 0x7f := by
  intro b hb
  obtain ⟨i, -, hi⟩ := List.mem_flatMap.mp hb
  cases i with
  | text c =>
    rw [List.mem_singleton.mp hi]
    exact c.2
  | _ => simp [Item.ordinary] at hi

theorem control_not_printable {b : UInt8} (h : 0x20 ≤ b ∧ b ≠ 0x7f) :
    ¬(b < 0x20 ∨ b = 0x7f) ∧ ¬(b = cr ∨ b = lf) ∧ ¬(b = 0x08 ∨ b = 0x7f) ∧ b ≠ esc := by
  have hnot : ∀ c : UInt8, ¬ 0x20 ≤ c → b ≠ c := by
    rintro c hc rfl
    exact hc h.1
  refine ⟨?_, ?_, ?_, hnot esc (by decide)⟩
  · rintro (hlow | hdel)
    · exact absurd (UInt8.lt_of_le_of_lt h.1 hlow) (by simp)
    · exact h.2 hdel
  · rintro (hcr | hlf)
    · exact hnot cr (by decide) hcr
    · exact hnot lf (by decide) hlf
  · rintro (hback | hdel)
    · exact hnot 0x08 (by decide) hback
    · exact h.2 hdel

/-- The input loop in the state of the escape automaton. -/
def UartInput.At (t : ℕ × Bool) (s : UartInput) : Prop :=
  s.line.length + t.1 + 1 = uartLineMax ∧ s.escapeActive = t.2

/-- One step of the input loop is one of the automaton, where no line ends and nothing is deleted. -/
theorem uartInput_skim {t : ℕ × Bool} {s : UartInput} (hs : s.At t) {e : UartEvent} (he : e.Plain) :
    (uartInput s e).1.At (skim t e).1 ∧ (uartInput s e).2 = fate (skim t e).2 := by
  obtain ⟨room, active⟩ := t
  obtain ⟨hlength, hactive⟩ := hs
  cases e with
  | prompt => exact ⟨⟨hlength, rfl⟩, rfl⟩
  | byte b =>
    unfold uartInput
    rw [hactive]
    cases active with
    | true => exact ⟨⟨hlength, rfl⟩, rfl⟩
    | false =>
      rcases he with rfl | he
      · exact ⟨⟨hlength, rfl⟩, rfl⟩
      · obtain ⟨-, hend, hdelete, hesc⟩ := control_not_printable he
        rcases Nat.eq_zero_or_pos room with rfl | hroom
        · rw [skim_full hesc]
          simp only [hesc, hend, hdelete, Bool.false_eq_true, if_false]
          rw [if_neg (by simp at hlength; omega)]
          exact ⟨⟨hlength, hactive⟩, rfl⟩
        · rw [skim_stored hesc hroom.ne']
          simp only [hesc, hend, hdelete, Bool.false_eq_true, if_false]
          rw [if_pos (by simp at hlength; omega)]
          refine ⟨⟨?_, rfl⟩, rfl⟩
          simp at hlength ⊢
          omega

/-- The cleaning in the state of the escape automaton. With a full buffer the loop is over. -/
def CleanLine.At (t : ℕ × Bool) (s : CleanLine) : Prop :=
  s.out.length + t.1 = uartCleanLineMax ∧ (t.1 = 0 ∨ s.skipEscape = t.2)

theorem sanitizeStep_skim {t : ℕ × Bool} {s : CleanLine} (hs : s.At t) {b : UInt8} (hb : Printable b) :
    (sanitizeStep s b).1.At (skim t (.byte b)).1 ∧ (skim t (.byte b)).2 = (sanitizeStep s b).2 := by
  obtain ⟨room, active⟩ := t
  obtain ⟨hlength, hactive⟩ := hs
  unfold sanitizeStep
  rcases Nat.eq_zero_or_pos room with rfl | hroom
  · rw [if_pos (by simp at hlength; omega)]
    have hskim : (skim (0, active) (.byte b)).1.1 = 0 ∧ (skim (0, active) (.byte b)).2 = false := by
      rcases hb with rfl | hb
      · simp
      · cases active with
        | true => exact ⟨rfl, rfl⟩
        | false => simp [(control_not_printable hb).2.2.2]
    exact ⟨⟨by rw [hskim.1]; exact hlength, Or.inl hskim.1⟩, hskim.2⟩
  · have hactive : s.skipEscape = active := hactive.resolve_left hroom.ne'
    rw [if_neg (by simp at hlength; omega), hactive]
    cases active with
    | true => exact ⟨⟨hlength, Or.inr rfl⟩, rfl⟩
    | false =>
      rcases hb with rfl | hb
      · exact ⟨⟨hlength, Or.inr rfl⟩, rfl⟩
      · obtain ⟨hcontrol, -, -, hesc⟩ := control_not_printable hb
        rw [skim_stored hesc hroom.ne']
        simp only [hesc, hcontrol, Bool.false_eq_true, if_false]
        refine ⟨⟨?_, Or.inr (by simp)⟩, trivial⟩
        simp at hlength ⊢
        omega

theorem uartInput_line (s : UartInput) {e : UartEvent} (he : e.Plain) :
    (uartInput s e).1.line = s.line ++ emitted e (decide ((uartInput s e).2 = .stored)) := by
  cases e with
  | prompt => simp [uartInput, emitted]
  | byte b =>
    unfold uartInput
    rcases he with rfl | he
    · by_cases hactive : s.escapeActive <;> simp [hactive, emitted]
    · obtain ⟨-, hend, hdelete, hesc⟩ := control_not_printable he
      simp only [hesc, hend, hdelete, if_false]
      by_cases hactive : s.escapeActive
      · simp [hactive, emitted]
      · by_cases hroom : s.line.length + 1 < uartLineMax <;> simp [hactive, hroom, emitted]

theorem sanitizeStep_out (s : CleanLine) {b : UInt8} (hb : Printable b) :
    (sanitizeStep s b).1.out = s.out ++ emitted (.byte b) (sanitizeStep s b).2 := by
  unfold sanitizeStep
  split_ifs with hfull hskip hesc hcontrol htab
  · simp [emitted]
  · simp [emitted]
  · simp [emitted]
  · exact absurd hcontrol (control_not_printable (hb.resolve_left hesc)).1
  · exact absurd hcontrol (control_not_printable (hb.resolve_left hesc)).1
  · simp [emitted]

@[simp] theorem decide_fate (kept : Bool) : decide (fate kept = .stored) = kept := by
  cases kept <;> rfl

theorem fate_injective : Function.Injective fate := by
  intro k k' h
  rw [← decide_fate k, ← decide_fate k', h]

/-- Between two line ends the input loop keeps just the text where every item fits, and then the text is in
the line. -/
theorem uartInput_items (is : List Item) :
    (outputs uartInput {} (is.flatMap Item.events) = (is.flatMap Item.wanted).map fate ↔
      Kept (uartLineMax - 1) false is) ∧
    (Kept (uartLineMax - 1) false is → (last uartInput {} (is.flatMap Item.events)).line = is.flatMap Item.ordinary ∧
      (last uartInput {} (is.flatMap Item.events)).escapeActive = (settled (uartLineMax - 1) false is).2) := by
  have hinit : UartInput.At (uartLineMax - 1, false) {} := ⟨rfl, rfl⟩
  obtain ⟨houts, -, hactive⟩ := outputs_simulate skim uartInput UartInput.At id fate
    (fun t s hs e he => uartInput_skim hs (items_plain is e he)) hinit
  rw [List.map_id] at houts hactive
  have hiff : outputs uartInput {} (is.flatMap Item.events) = (is.flatMap Item.wanted).map fate ↔
      Kept (uartLineMax - 1) false is := by
    rw [houts, (List.map_injective_iff.mpr fate_injective).eq_iff, skim_items]
  refine ⟨hiff, fun hkept => ⟨?_, ?_⟩⟩
  · have hlog := log_last uartInput UartInput.line (fun e f => emitted e (decide (f = .stored)))
      (fun s e he => uartInput_line s (items_plain is e he)) (s := {})
    rw [hlog, hiff.mpr hkept, List.zipWith_map_right]
    simp only [decide_fate]
    rw [emitted_items]
    rfl
  · rw [hactive, skim_settled hkept]

@[simp] theorem read_prompts (gap : ℕ) : (List.replicate gap UartEvent.prompt).filterMap UartEvent.read = [] := by
  induction gap with
  | zero => rfl
  | succ gap ih => rw [List.replicate_succ, List.filterMap_cons_none rfl, ih]

theorem read_params {p : UInt8 → Prop} (params : List (Option {b : UInt8 // p b})) :
    ((params.map UartEvent.ofOption).filterMap UartEvent.read).map UartEvent.byte =
    (params.filter Option.isSome).map .ofOption := by
  induction params with
  | nil => rfl
  | cons q params ih =>
    cases q with
    | none => rw [List.map_cons, UartEvent.ofOption, List.filterMap_cons_none rfl, List.filter_cons_of_neg (by simp), ih]
    | some b => simpa [UartEvent.ofOption, UartEvent.read] using ih

theorem Item.typed_events (i : Item) :
    i.typed.elim [] Item.events = (i.events.filterMap UartEvent.read).map .byte := by
  cases i with
  | text b => rfl
  | csi gap params final => simp [typed, events, UartEvent.read, ← read_params, List.filterMap_append]
  | two gap x => simp [typed, events, UartEvent.read, List.filterMap_append]
  | prompt => rfl

theorem typed_events (is : List Item) :
    ((is.flatMap Item.events).filterMap UartEvent.read).map .byte = (is.filterMap Item.typed).flatMap Item.events := by
  induction is with
  | nil => rfl
  | cons i is ih =>
    rw [List.flatMap_cons, List.filterMap_append, List.map_append, ih, ← i.typed_events]
    cases h : i.typed with
    | none => rw [List.filterMap_cons_none h, Option.elim_none, List.nil_append]
    | some j => rw [List.filterMap_cons_some h, List.flatMap_cons, Option.elim_some]

theorem typed_ordinary (is : List Item) :
    (is.filterMap Item.typed).flatMap Item.ordinary = is.flatMap Item.ordinary := by
  induction is with
  | nil => rfl
  | cons i is ih => cases i <;> simp [List.filterMap_cons, Item.typed, Item.ordinary, ih]

/-- The cleaning keeps just the text where every item of the line fits, and then the text is what it has. -/
theorem sanitize_items (is : List Item) (raw : Bytes) (h : raw.map .byte = is.flatMap Item.events) :
    (outputs sanitizeStep {} raw = is.flatMap Item.wanted ↔ Kept uartCleanLineMax false is) ∧
    (Kept uartCleanLineMax false is → (last sanitizeStep {} raw).out = is.flatMap Item.ordinary) := by
  have hinit : CleanLine.At (uartCleanLineMax, false) {} := ⟨rfl, Or.inr rfl⟩
  have hraw : ∀ b ∈ raw, Printable b := by
    intro b hb
    exact items_plain is (.byte b) (by rw [← h]; exact List.mem_map_of_mem hb)
  obtain ⟨houts, -⟩ := outputs_simulate sanitizeStep skim (fun s t => s.At t) UartEvent.byte id
    (fun s t hs b hb => sanitizeStep_skim hs (hraw b hb)) hinit
  rw [List.map_id, h] at houts
  have hiff : outputs sanitizeStep {} raw = is.flatMap Item.wanted ↔ Kept uartCleanLineMax false is := by
    rw [← houts, skim_items]
  refine ⟨hiff, fun hkept => ?_⟩
  have hlog := log_last sanitizeStep CleanLine.out (fun b k => emitted (.byte b) k)
    (fun s b hb => sanitizeStep_out s (hraw b hb)) (s := {})
  rw [hlog, hiff.mpr hkept, ← emitted_items, ← h, List.zipWith_map_left]
  rfl

/-- Text that fits goes through the cleaning unchanged, but for the blanks at its ends. -/
theorem sanitizeUartLine_text {text : Bytes} (h : ∀ b ∈ text, 0x20 ≤ b ∧ b ≠ 0x7f)
    (hlength : text.length ≤ uartCleanLineMax) : sanitizeUartLine text = trimAsciiInPlace text := by
  have hrun : ∀ (text out : Bytes), (∀ b ∈ text, 0x20 ≤ b ∧ b ≠ 0x7f) →
      out.length + text.length ≤ uartCleanLineMax → (last sanitizeStep ⟨out, false⟩ text).out = out ++ text := by
    intro text
    induction text with
    | nil => simp
    | cons b text ih =>
      intro out hplain hroom
      obtain ⟨hcontrol, -, -, hesc⟩ := control_not_printable (hplain b List.mem_cons_self)
      rw [List.length_cons] at hroom
      have hstep : (sanitizeStep ⟨out, false⟩ b).1 = ⟨out ++ [b], false⟩ := by
        unfold sanitizeStep
        simp only [hesc, hcontrol, Bool.false_eq_true, if_false]
        rw [if_neg (by simp; omega)]
      rw [last_cons, hstep, ih _ (fun c hc => hplain c (List.mem_cons_of_mem _ hc))
        (by rw [List.length_append, List.length_singleton]; omega), List.append_assoc, List.singleton_append]
  rw [sanitizeUartLine, hrun text [] h (by simpa using hlength), List.nil_append]

theorem space_of_printable {b : UInt8} (h : 0x20 ≤ b ∧ b ≠ 0x7f) : isSpace b = true ↔ b = space := by
  have hend := (control_not_printable h).2.1
  have htab : b ≠ tab := by
    rintro rfl
    exact absurd h.1 (by decide)
  simp [isSpace, htab, not_or.mp hend]

/-- Text stays what it is when it is trimmed, if it has no blank at an end. -/
theorem trimAsciiInPlace_eq_self {text : Bytes} (h : ∀ b ∈ text, 0x20 ≤ b ∧ b ≠ 0x7f) :
    trimAsciiInPlace text = text ↔ text.head? ≠ some space ∧ text.getLast? ≠ some space := by
  have hhead : text.dropWhile isSpace = text ↔ text.head? ≠ some space := by
    cases text with
    | nil => simp
    | cons b text =>
      rw [List.dropWhile_eq_self_iff]
      simpa using not_congr (space_of_printable (h b List.mem_cons_self))
  have hlast : text.rdropWhile isSpace = text ↔ text.getLast? ≠ some space := by
    rw [List.rdropWhile_eq_self_iff]
    cases text using List.reverseRecOn with
    | nil => simp
    | append_singleton text b => simpa using not_congr (space_of_printable (h b (by simp)))
  rw [← hhead, ← hlast]
  constructor
  · intro htrim
    have htail := List.rdropWhile_prefix isSpace (text.dropWhile isSpace)
    have hdrop : text.dropWhile isSpace = text := by
      apply (List.dropWhile_suffix isSpace).eq_of_length_le
      calc text.length = (trimAsciiInPlace text).length := by rw [htrim]
        _ ≤ (text.dropWhile isSpace).length := htail.length_le
    rw [trimAsciiInPlace, hdrop] at htrim
    exact ⟨hdrop, htrim⟩
  · intro hends
    rw [trimAsciiInPlace, hends.1, hends.2]

/-- What the input loop and the cleaning need of a line, in the automaton's terms. -/
def TypedLine.Treated (l : TypedLine) : Prop :=
  Kept (uartLineMax - 1) false l.items ∧ (settled (uartLineMax - 1) false l.items).2 = false ∧
  trimAsciiInPlace l.text = l.text

theorem TypedLine.text_printable (l : TypedLine) : ∀ b ∈ l.text, 0x20 ≤ b ∧ b ≠ 0x7f := ordinary_printable l.items

theorem ending_not_esc (ending : {b : UInt8 // b = cr ∨ b = lf}) : ending.1 ≠ esc := by
  rcases ending.2 with h | h <;> rw [h] <;> decide

/-- One line through the input loop. -/
theorem uartInput_line_iff (l : TypedLine) : outputs uartInput {} l.events = l.fates ↔ l.Treated := by
  obtain ⟨hiff, hstate⟩ := uartInput_items l.items
  have hlength : ((l.items.flatMap Item.wanted).map fate).length = (l.items.flatMap Item.events).length := by
    rw [List.length_map, List.length_flatMap, List.length_flatMap]
    simp only [Item.wanted_length]
  rw [TypedLine.events, TypedLine.fates, outputs_append_iff hlength, hiff, TypedLine.Treated]
  apply and_congr_right
  intro hkept
  obtain ⟨hline, hactive⟩ := hstate hkept
  have hshort := hkept.length
  rw [outputs_cons, outputs_nil, ← hactive]
  generalize last uartInput {} (l.items.flatMap Item.events) = s at hline hactive ⊢
  cases hs : s.escapeActive with
  | true => simp [uartInput, hs]
  | false =>
    have hclean : sanitizeUartLine s.line = trimAsciiInPlace l.text := by
      rw [hline]
      exact sanitizeUartLine_text l.text_printable (hshort.trans (by decide))
    simp [uartInput, hs, ending_not_esc l.ending, l.ending.2, hclean]

theorem uartInput_line_last {l : TypedLine} (h : l.Treated) : last uartInput {} l.events = {} := by
  obtain ⟨hkept, hclosed, -⟩ := h
  have hactive := ((uartInput_items l.items).2 hkept).2.trans hclosed
  rw [TypedLine.events, last_append, last_cons, last_nil]
  simp [uartInput, hactive, ending_not_esc l.ending, l.ending.2]

theorem kmain_iff (lines : List TypedLine) : KmainMeets lines ↔ ∀ l ∈ lines, l.Treated := by
  induction lines with
  | nil => simp [KmainMeets]
  | cons l lines ih =>
    have hlength : l.fates.length = l.events.length := by
      rw [TypedLine.fates, TypedLine.events, List.length_append, List.length_append, List.length_map,
        List.length_flatMap, List.length_flatMap]
      simp only [Item.wanted_length, List.length_singleton]
    rw [KmainMeets, List.flatMap_cons, List.flatMap_cons, outputs_append_iff hlength, uartInput_line_iff,
      List.forall_mem_cons]
    apply and_congr_right
    intro hl
    rw [uartInput_line_last hl]
    exact ih

theorem sanitize_iff (l : TypedLine) : SanitizeMeets l ↔
    Kept uartCleanLineMax false l.typed ∧ trimAsciiInPlace l.text = l.text := by
  obtain ⟨hiff, hout⟩ := sanitize_items l.typed l.raw (typed_events l.items)
  rw [SanitizeMeets, hiff]
  apply and_congr_right
  intro hkept
  rw [sanitizeUartLine, hout hkept, TypedLine.typed, typed_ordinary]
  rfl

theorem typed_csi {is : List Item} {i : Item} (hi : i ∈ is) (hcsi : i.isCsi) :
    ∃ j ∈ is.filterMap Item.typed, j.isCsi := by
  cases i with
  | csi gap params final => exact ⟨_, List.mem_filterMap.mpr ⟨_, hi, rfl⟩, rfl⟩
  | _ => simp [Item.isCsi] at hcsi

theorem typed_plain {is : List Item} (h : ∀ i ∈ is, i.isCsi = false) :
    ∀ j ∈ is.filterMap Item.typed, j.isCsi = false := by
  intro j hj
  obtain ⟨i, hi, htyped⟩ := List.mem_filterMap.mp hj
  have hplain := h i hi
  cases i with
  | text b => rw [← Option.some.inj htyped]; rfl
  | csi gap params final => simp [Item.isCsi] at hplain
  | two gap x => rw [← Option.some.inj htyped]; rfl
  | prompt => simp [Item.typed] at htyped

theorem typed_unsplit (is : List Item) : Unsplit room (is.filterMap Item.typed) := by
  induction is generalizing room with
  | nil => trivial
  | cons i is ih => cases i <;> simp [List.filterMap_cons, Item.typed, Unsplit, Item.gap, ih]

/-- A line is treated as it should be, by the input loop and by the cleaning, just when it is a fine one. -/
theorem treated_iff (l : TypedLine) : l.Treated ∧ SanitizeMeets l ↔ l.Fine := by
  rw [sanitize_iff]
  constructor
  · rintro ⟨⟨hkept, hclosed, htrim⟩, hclean, -⟩
    have hshort : l.text.length ≤ uartLineMax - 1 := hkept.length
    have hplain : ∀ i ∈ l.items, i.isCsi = false := by
      intro i hi
      by_contra hcsi
      obtain ⟨j, hj, hjcsi⟩ := typed_csi hi (by simpa using hcsi)
      have hfull := hclean.full_of_csi hj hjcsi
      rw [TypedLine.typed, typed_ordinary] at hfull
      rw [TypedLine.text, hfull] at hshort
      exact absurd hshort (by decide)
    obtain ⟨hfollows, -, hunsplit⟩ := (kept_iff hplain).mp hkept
    obtain ⟨htyped, -, -⟩ := (kept_iff (typed_plain hplain)).mp hclean
    obtain ⟨hhead, hlast⟩ := (trimAsciiInPlace_eq_self l.text_printable).mp htrim
    exact ⟨hplain, Nat.lt_of_le_pred (by decide) hshort, hfollows, htyped,
      ((settled_snd l.items).mp hclosed).2, hunsplit, hhead, hlast⟩
  · intro h
    have htrim := (trimAsciiInPlace_eq_self l.text_printable).mpr ⟨h.head, h.last⟩
    have hshort : l.text.length ≤ uartLineMax - 1 := Nat.le_pred_of_lt h.short
    have htyped : (l.typed.flatMap Item.ordinary).length ≤ uartCleanLineMax := by
      rw [TypedLine.typed, typed_ordinary]
      exact hshort.trans (by decide)
    exact ⟨⟨(kept_iff h.plain).mpr ⟨h.follows, hshort, h.unsplit⟩,
      (settled_snd l.items).mpr ⟨fun _ => rfl, h.closed⟩, htrim⟩, (kept_iff (typed_plain h.plain)).mpr ⟨h.typed_follows, htyped, typed_unsplit l.items⟩, htrim⟩

/-- Terminal input reaches command handling as its ordinary text just when every line is a fine one. -/
theorem uartMeets_iff (lines : List TypedLine) : UartMeets lines ↔ ∀ l ∈ lines, l.Fine := by
  rw [UartMeets, kmain_iff, ← forall₂_and]
  simp only [treated_iff]

/-- The up arrow, `ESC [ A`. -/
def arrowUp : TypedLine := ⟨[.csi 0 [] ⟨0x41, rfl⟩], ⟨cr, Or.inl rfl⟩⟩

/-- The bracket ends the escape, and the line that is handled is `A`. -/
theorem uart_arrowUp : ¬ UartMeets [arrowUp] := by
  intro h
  exact absurd h.1 (by unfold KmainMeets; decide)

end MiniAgentOS.Uart
