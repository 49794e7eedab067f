import MiniAgentOS.Agent.Requests
import MiniAgentOS.Text.Literal

/-! The body of the request that posts a text, and how short a text of a JSON object can be. -/
namespace MiniAgentOS.Agent

set_option maxRecDepth 4000

section Bounds

/-- The fewest bytes that stand for a byte of a string. -/
def leastLength (b : UInt8) : ℕ := if b = quote ∨ b = backslash ∨ b < 0x20 then 2 else 1

def leastText (text : Bytes) : ℕ := (text.map leastLength).sum

variable {text decoded key value : Bytes}

@[simp] theorem leastText_append (text more : Bytes) : leastText (text ++ more) = leastText text + leastText more := by
  simp [leastText]

theorem leastText_le (text : Bytes) : leastText text ≤ 2 * text.length := by
  induction text with
  | nil => exact le_rfl
  | cons b text ih =>
    have hb : leastLength b ≤ 2 := by
      unfold leastLength
      split_ifs <;> omega
    have hcons : leastText (b :: text) = leastLength b + leastText text := by simp [leastText]
    rw [hcons, List.length_cons]
    omega

theorem leastText_plain (h : ∀ b ∈ text, b ≠ quote ∧ b ≠ backslash ∧ 0x20 ≤ b) : leastText text = text.length := by
  induction text with
  | nil => rfl
  | cons b text ih =>
    obtain ⟨hquote, hslash, hge⟩ := h b List.mem_cons_self
    have hb : leastLength b = 1 := by
      refine if_neg ?_
      rintro (hb | hb | hb)
      · exact hquote hb
      · exact hslash hb
      · exact absurd hb (UInt8.not_lt.mpr hge)
    have hcons : leastText (b :: text) = leastLength b + leastText text := by simp [leastText]
    rw [hcons, hb, ih fun a ha => h a (List.mem_cons_of_mem _ ha), List.length_cons, Nat.add_comm]

theorem hex_plain : ∀ b : UInt8, isHex b = true → 0x20 ≤ b := forall_byte (by decide +kernel)

theorem utf8Bytes_length_le_four (cp : ℕ) : (utf8Bytes cp).length ≤ 4 := by
  unfold utf8Bytes
  dsimp only
  split_ifs <;> simp

/-- A character of a string is no shorter than its bytes need, and has no control byte. -/
theorem jsonChar_bounds (h : JsonChar text decoded) : leastText decoded ≤ text.length ∧ ∀ b ∈ text, 0x20 ≤ b := by
  cases h with
  | plain char plain => exact ⟨(leastText_plain plain).le, fun b hb => (plain b hb).2.2⟩
  | @letter e b known =>
    refine ⟨leastText_le [b], fun c hc => ?_⟩
    rcases List.mem_cons.mp hc with rfl | hc
    · decide
    · rw [List.mem_singleton.mp hc]
      simp only [jsonLetters, List.mem_cons, Prod.mk.injEq, List.not_mem_nil, or_false] at known
      rcases known with ⟨rfl, -⟩ | ⟨rfl, -⟩ | ⟨rfl, -⟩ | ⟨rfl, -⟩ | ⟨rfl, -⟩ | ⟨rfl, -⟩ | ⟨rfl, -⟩ | ⟨rfl, -⟩ <;> decide
  | @unicode d0 d1 d2 d3 hex scalar =>
    have hlt := hexWord4_lt hex
    have hthree := utf8Bytes_length_le (show hexWord4 d0 d1 d2 d3 ≤ 0xffff by omega)
    have hleast := leastText_le (utf8Bytes (hexWord4 d0 d1 d2 d3))
    refine ⟨hleast.trans (by simp only [List.length_cons, List.length_nil]; omega), fun b hb => ?_⟩
    rcases List.mem_append.mp (show b ∈ [backslash, 117] ++ [d0, d1, d2, d3] from hb) with hlead | hdigit
    · simp only [List.mem_cons, List.not_mem_nil, or_false] at hlead
      rcases hlead with rfl | rfl <;> decide
    · exact hex_plain b (hex b hdigit)
  | @surrogates d0 d1 d2 d3 e0 e1 e2 e3 hex high low =>
    refine ⟨(leastText_le _).trans ?_, fun b hb => ?_⟩
    · have hfour := utf8Bytes_length_le_four (pairCodepoint (hexWord4 d0 d1 d2 d3) (hexWord4 e0 e1 e2 e3))
      unfold pairCodepoint at hfour
      simp only [List.length_cons, List.length_nil]
      omega
    · have hdigits : b = backslash ∨ b = 117 ∨ b ∈ [d0, d1, d2, d3, e0, e1, e2, e3] := by
        simp only [List.mem_cons, List.not_mem_nil, or_false] at hb ⊢
        tauto
      rcases hdigits with rfl | rfl | hdigit
      · decide
      · decide
      · exact hex_plain b (hex b hdigit)

theorem jsonChars_bounds (h : JsonChars text decoded) : leastText decoded ≤ text.length ∧ ∀ b ∈ text, 0x20 ≤ b := by
  induction h with
  | nil => exact ⟨le_rfl, by simp⟩
  | cons hchar _ ih =>
    obtain ⟨hleast, hplain⟩ := jsonChar_bounds hchar
    constructor
    · rw [leastText_append, List.length_append]
      omega
    · intro b hb
      exact (List.mem_append.mp hb).elim (hplain b) (ih.2 b)

/-- The control bytes of a text are blanks, and the text has at least `n` bytes. -/
def Sparse (n : ℕ) (text : Bytes) : Prop := n ≤ text.length ∧ ∀ b ∈ text, 0x20 ≤ b ∨ isSpace b

theorem Sparse.before {n : ℕ} {b : UInt8} (h : Sparse n text) (hb : isSpace b) : Sparse n (b :: text) :=
  ⟨Nat.le_succ_of_le h.1, fun _ hc => (List.mem_cons.mp hc).elim (fun heq => .inr (heq ▸ hb)) (h.2 _)⟩

theorem Sparse.append {n k : ℕ} {more : Bytes} (h : Sparse n text) (hmore : Sparse k more) :
    Sparse (n + k) (text ++ more) := by
  refine ⟨?_, fun b hb => (List.mem_append.mp hb).elim (h.2 b) (hmore.2 b)⟩
  rw [List.length_append]
  exact Nat.add_le_add h.1 hmore.1

theorem Sparse.after {n : ℕ} {b : UInt8} (h : Sparse n text) (hb : isSpace b) : Sparse n (text ++ [b]) :=
  h.append (k := 0) ⟨Nat.zero_le 1, fun _ hc => .inr (List.mem_singleton.mp hc ▸ hb)⟩

theorem sparse_byte {b : UInt8} (h : 0x20 ≤ b) : Sparse 1 [b] :=
  ⟨le_rfl, fun _ hc => .inl (List.mem_singleton.mp hc ▸ h)⟩

/-- A text of a string is no shorter than the string needs. -/
theorem jsonText_str (h : JsonText (.str decoded) text) : Sparse (leastText decoded + 2) text := by
  obtain ⟨n, hn⟩ : ∃ n, text.length = n := ⟨_, rfl⟩
  induction n using Nat.strong_induction_on generalizing text with
  | _ n ih =>
    cases h with
    | @str _ chars hchars =>
      obtain ⟨hleast, hplain⟩ := jsonChars_bounds hchars
      have hinner : Sparse (leastText decoded) chars := ⟨hleast, fun b hb => .inl (hplain b hb)⟩
      have hquote : Sparse 1 [quote] := sparse_byte (by decide)
      have hall := (hquote.append hinner).append hquote
      rwa [show 1 + leastText decoded + 1 = leastText decoded + 2 by omega] at hall
    | before hb htext => exact (ih _ (by rw [← hn, List.length_cons]; omega) htext rfl).before hb
    | after hb htext => exact (ih _ (by rw [← hn, List.length_append, List.length_singleton]; omega) htext rfl).after hb

/-- A text of an object with one string is no shorter than its key and its string need. -/
theorem jsonText_member (h : JsonText (.obj [(key, .str value)]) text) :
    Sparse (leastText key + leastText value + 7) text := by
  obtain ⟨n, hn⟩ : ∃ n, text.length = n := ⟨_, rfl⟩
  induction n using Nat.strong_induction_on generalizing text with
  | _ n ih =>
    cases h with
    | obj hmembers =>
      cases hmembers with
      | one hname hvalue =>
        have hopen : Sparse 1 [openBrace] := sparse_byte (by decide)
        have hcolon : Sparse 1 [colon] := sparse_byte (by decide)
        have hclose : Sparse 1 [closeBrace] := sparse_byte (by decide)
        have hall := (((hopen.append (jsonText_str hname)).append hcolon).append (jsonText_str hvalue)).append hclose
        rw [show 1 + (leastText key + 2) + 1 + (leastText value + 2) + 1 = leastText key + leastText value + 7 by omega]
          at hall
        simpa using hall
    | before hb htext => exact (ih _ (by rw [← hn, List.length_cons]; omega) htext rfl).before hb
    | after hb htext => exact (ih _ (by rw [← hn, List.length_append, List.length_singleton]; omega) htext rfl).after hb

end Bounds

section Tweets

/-- What `build_tweet_body` writes for a byte. -/
def tweetByte (b : UInt8) : Bytes :=
  if b = quote ∨ b = backslash then [backslash, b]
  else if b = lf then [backslash, 110]
  else if b = cr then [backslash, 114]
  else if b = tab then [backslash, 116]
  else [b]

def tweetLoop (capacity : ℕ) : Bytes → Bytes → Bytes
  | out, [] => out
  | out, b :: text => if out.length + 2 < capacity then tweetLoop capacity (out ++ tweetByte b) text else out

def buildTweetBody (capacity : ℕ) (text : Bytes) : Bytes :=
  appendBytes capacity (tweetLoop capacity (appendBytes capacity [] (ascii "\x7b\"text\":\"")) text) (ascii "\"\x7d")

/-- The whole body. -/
def tweetBody (text : Bytes) : Bytes := ascii "\x7b\"text\":\"" ++ text.flatMap tweetByte ++ ascii "\"\x7d"

/-- The body is a JSON object whose text is the one that is given, or there is none. -/
def TweetMeets (capacity : ℕ) (text : Bytes) : Prop :=
  buildTweetBody capacity text = [] ∨ JsonText (.obj [(ascii "text", .str text)]) (buildTweetBody capacity text)

/-- The control bytes that `build_tweet_body` does not escape. -/
def Unescaped (b : UInt8) : Prop := b < 0x20 ∧ b ≠ lf ∧ b ≠ cr ∧ b ≠ tab

variable {capacity : ℕ} {text out : Bytes}

theorem tweetByte_pos (b : UInt8) : 0 < (tweetByte b).length := by
  unfold tweetByte
  split_ifs <;> simp

theorem tweetByte_length_le (b : UInt8) : (tweetByte b).length ≤ leastLength b := by
  have hlf : leastLength lf = 2 := by decide
  have hcr : leastLength cr = 2 := by decide
  have htab : leastLength tab = 2 := by decide
  unfold tweetByte
  split_ifs with hself hb hb hb
  · have htwo : leastLength b = 2 := if_pos (by tauto)
    rw [htwo]
    rfl
  · rw [hb, hlf]
    rfl
  · rw [hb, hcr]
    rfl
  · rw [hb, htab]
    rfl
  · unfold leastLength
    split_ifs <;> simp

theorem flatMap_tweetByte_length_le (text : Bytes) : (text.flatMap tweetByte).length ≤ leastText text := by
  rw [List.length_flatMap]
  exact List.sum_le_sum fun b _ => tweetByte_length_le b

theorem tweetLoop_eq (h : out.length + (text.flatMap tweetByte).length + 2 ≤ capacity) :
    tweetLoop capacity out text = out ++ text.flatMap tweetByte := by
  induction text generalizing out with
  | nil => exact (List.append_nil out).symm
  | cons b text ih =>
    have hpos := tweetByte_pos b
    rw [List.flatMap_cons, List.length_append] at h
    rw [tweetLoop, if_pos (by omega), ih (by rw [List.length_append]; omega), List.flatMap_cons, List.append_assoc]

theorem tweetLoop_bounds (text : Bytes) (h : out.length ≤ capacity) :
    out <+: tweetLoop capacity out text ∧ (tweetLoop capacity out text).length ≤ capacity := by
  induction text generalizing out with
  | nil => exact ⟨List.prefix_rfl, h⟩
  | cons b text ih =>
    unfold tweetLoop
    split_ifs with hroom
    · have htwo : (tweetByte b).length ≤ 2 := (tweetByte_length_le b).trans (by unfold leastLength; split_ifs <;> omega)
      have hfits : (out ++ tweetByte b).length ≤ capacity := by
        rw [List.length_append]
        omega
      obtain ⟨hkeeps, hlength⟩ := ih hfits
      exact ⟨(List.prefix_append _ _).trans hkeeps, hlength⟩
    · exact ⟨List.prefix_rfl, h⟩

theorem buildTweetBody_bounds (capacity : ℕ) (text : Bytes) :
    (ascii "\x7b\"text\":\"").take capacity <+: buildTweetBody capacity text ∧
      (buildTweetBody capacity text).length ≤ capacity := by
  have hhead : appendBytes capacity [] (ascii "\x7b\"text\":\"") = (ascii "\x7b\"text\":\"").take capacity := rfl
  obtain ⟨hkeeps, hlength⟩ := tweetLoop_bounds text (List.length_take_le capacity (ascii "\x7b\"text\":\""))
  have htail := Bounded.takes_append capacity (ascii "\"\x7d")
  unfold buildTweetBody
  rw [hhead]
  exact ⟨hkeeps.trans (htail.keeps _ hlength), htail.bounded _ hlength⟩

theorem tweetBody_length (text : Bytes) : (tweetBody text).length = (text.flatMap tweetByte).length + 11 := by
  have hhead : (ascii "\x7b\"text\":\"").length = 9 := rfl
  have htail : (ascii "\"\x7d").length = 2 := rfl
  rw [tweetBody, List.length_append, List.length_append, hhead, htail]
  omega

theorem buildTweetBody_whole (h : (tweetBody text).length ≤ capacity) : buildTweetBody capacity text = tweetBody text := by
  have hhead : (ascii "\x7b\"text\":\"").length = 9 := rfl
  have htail : (ascii "\"\x7d").length = 2 := rfl
  rw [tweetBody_length] at h
  have hfirst : appendBytes capacity [] (ascii "\x7b\"text\":\"") = ascii "\x7b\"text\":\"" :=
    appendBytes_eq (by rw [hhead, List.length_nil]; omega)
  have hloop : tweetLoop capacity (ascii "\x7b\"text\":\"") text = _ := tweetLoop_eq (by rw [hhead]; omega)
  rw [buildTweetBody, hfirst, hloop, appendBytes_eq (by rw [List.length_append, hhead, htail]; omega)]
  rfl

/-- A character without control bytes that stay is written as it should be. -/
theorem tweet_char {c : Bytes} (h : Utf8Char c) (hescaped : ∀ b ∈ c, ¬ Unescaped b) : JsonChar (c.flatMap tweetByte) c := by
  rcases h.high with ⟨b, rfl, hlow⟩ | hhigh
  · rw [List.flatMap_singleton]
    unfold tweetByte
    split_ifs with hself hb hb hb
    · apply JsonChar.letter
      rcases hself with rfl | rfl <;> decide
    · rw [hb]
      exact .letter (by decide)
    · rw [hb]
      exact .letter (by decide)
    · rw [hb]
      exact .letter (by decide)
    · apply JsonChar.plain h
      intro d hd
      rw [List.mem_singleton.mp hd]
      refine ⟨fun heq => hself (.inl heq), fun heq => hself (.inr heq), ?_⟩
      by_contra hcontrol
      exact hescaped b List.mem_cons_self ⟨UInt8.not_le.mp hcontrol, by assumption, by assumption, by assumption⟩
  · have hplain : ∀ b : UInt8, 0x80 ≤ b → tweetByte b = [b] ∧ b ≠ quote ∧ b ≠ backslash ∧ 0x20 ≤ b :=
      forall_byte (by decide +kernel)
    have hself : c.flatMap tweetByte = c := by
      rw [List.flatMap_congr fun b hb => (hplain b (hhigh b hb)).1]
      exact List.flatMap_singleton' c
    rw [hself]
    exact .plain h fun b hb => (hplain b (hhigh b hb)).2

theorem tweet_chars (h : Utf8 text) (hescaped : ∀ b ∈ text, ¬ Unescaped b) : JsonChars (text.flatMap tweetByte) text := by
  induction h with
  | nil => exact .nil
  | cons hchar _ ih =>
    rw [List.flatMap_append]
    exact .cons (tweet_char hchar fun b hb => hescaped b (List.mem_append_left _ hb))
      (ih fun b hb => hescaped b (List.mem_append_right _ hb))

/-- A text is posted as it is given exactly when its body fits the buffer and it has no control byte that is not
escaped, or when there is no buffer. -/
theorem tweetMeets_iff (htext : Utf8 text) (capacity : ℕ) : TweetMeets capacity text ↔
    capacity = 0 ∨ ((∀ b ∈ text, ¬ Unescaped b) ∧ (tweetBody text).length ≤ capacity) := by
  obtain ⟨hhead, hlength⟩ := buildTweetBody_bounds capacity text
  constructor
  · rintro (hnil | hjson)
    · left
      rw [hnil, List.prefix_nil, List.take_eq_nil_iff] at hhead
      exact hhead.resolve_right (by decide)
    · right
      have hkey : leastText (ascii "text") = 4 := by decide
      have hbyte := flatMap_tweetByte_length_le text
      obtain ⟨hleast, hblank⟩ := jsonText_member hjson
      have hfits : (tweetBody text).length ≤ capacity := by
        rw [tweetBody_length]
        omega
      rw [buildTweetBody_whole hfits] at hblank
      refine ⟨fun b hb hcontrol => ?_, hfits⟩
      have hself : ∀ b : UInt8, b < 0x20 → b ≠ lf → b ≠ cr → b ≠ tab → b ∈ tweetByte b ∧ ¬ (0x20 ≤ b ∨ isSpace b) :=
        forall_byte (by decide +kernel)
      obtain ⟨hlow, hlf, hcr, htab⟩ := hcontrol
      obtain ⟨hmem, hnot⟩ := hself b hlow hlf hcr htab
      apply hnot
      apply hblank
      unfold tweetBody
      exact List.mem_append_left _ (List.mem_append_right _ (List.mem_flatMap.mpr ⟨b, hb, hmem⟩))
  · rintro (hzero | ⟨hescaped, hfits⟩)
    · left
      rw [hzero, Nat.le_zero, List.length_eq_zero_iff] at hlength
      rw [hzero]
      exact hlength
    · right
      have hopen : ascii "\x7b\"text\":\"" = openBrace :: quote :: (ascii "text" ++ [quote, colon, quote]) := by decide
      have hclose : ascii "\"\x7d" = [quote, closeBrace] := by decide
      have hobject := JsonText.obj (JsonMembers.one (keyText (s := "text") rfl (by decide))
        (.str (tweet_chars htext hescaped)))
      rw [buildTweetBody_whole hfits, tweetBody, hopen, hclose]
      simpa using hobject

theorem tweetMeets_hi : TweetMeets 65536 (ascii "hi") ↔ 65536 = 0 ∨
    ((∀ b ∈ ascii "hi", ¬ Unescaped b) ∧ (tweetBody (ascii "hi")).length ≤ 65536) :=
  tweetMeets_iff (utf8_ascii (by decide)) 65536

/-- A control byte is posted as it is. -/
theorem tweet_control : ¬ ∀ capacity text, Utf8 text → TweetMeets capacity text := by
  intro h
  rcases h 64 [1] (utf8_ascii (by decide)) with hnil | hjson
  · exact absurd hnil (by decide)
  · have hblank := (jsonText_member hjson).2 1 (by decide)
    exact absurd hblank (by decide)

end Tweets

end MiniAgentOS.Agent
