import MiniAgentOS.Fetch.State

/-! The key of the model API: how it is replaced, and the header that is made of it. -/
namespace MiniAgentOS.Fetch

section Keys

/-- Length of `OPENAI_API_KEY`. -/
def apiKeyLen : ℕ := 256

/-- Length of `FETCH_EXTRA_HEADER`. -/
def extraHeaderLen : ℕ := 512

/-- The `OPENAI_API_KEY` globals. -/
structure ApiKey where
  cells : Bytes
  len : ℕ
  size : cells.length = apiKeyLen
  fits : len ≤ apiKeyLen

/-- The key that is stored. -/
def ApiKey.text (s : ApiKey) : Bytes := s.cells.take s.len

/-- The loop of `set_api_key` that copies the key, from a cell on. -/
def copyKey : Bytes → ℕ → Bytes → Bool × Bytes
  | [], _, cells => (true, cells)
  | b :: key, i, cells => if isLineEnd b then (false, cells) else copyKey key (i + 1) (cells.set i b)

/-- The loop of `set_api_key` that clears the rest of the old key, `n` cells from `i` on. -/
def clearKey : ℕ → ℕ → Bytes → Bytes
  | 0, _, cells => cells
  | n + 1, i, cells => clearKey n (i + 1) (cells.set i 0)

variable {key cells : Bytes} {i n : ℕ} {s : ApiKey}

@[simp] theorem copyKey_length (key : Bytes) (i : ℕ) (cells : Bytes) : (copyKey key i cells).2.length = cells.length := by
  induction key generalizing i cells with
  | nil => rfl
  | cons b key ih =>
    unfold copyKey
    split
    · rfl
    · rw [ih, List.length_set]

@[simp] theorem clearKey_length (n i : ℕ) (cells : Bytes) : (clearKey n i cells).length = cells.length := by
  induction n generalizing i cells with
  | zero => rfl
  | succ n ih => rw [clearKey, ih, List.length_set]

def setApiKey (key : Bytes) (s : ApiKey) : Bool × ApiKey :=
  if h : key = [] ∨ apiKeyLen < key.length then (false, s)
  else if (copyKey key 0 s.cells).1 then
    (true,
      { cells := clearKey (min s.len apiKeyLen - key.length) key.length (copyKey key 0 s.cells).2
        len := key.length
        size := ((clearKey_length _ _ _).trans (copyKey_length _ _ _)).trans s.size
        fits := Nat.not_lt.mp (not_or.mp h).2 })
  else (false, { s with cells := (copyKey key 0 s.cells).2, size := (copyKey_length _ _ _).trans s.size })

/-- `build_bearer_header` into a buffer with `room` bytes, empty when it fails. -/
def buildBearerHeader (room : ℕ) (s : ApiKey) : Bytes :=
  let header := ascii "Authorization: Bearer " ++ s.text ++ crlf
  if s.len = 0 ∨ room < header.length then [] else header

/-- The header that requests to the model carry. -/
def ApiKey.header (s : ApiKey) : Bytes := buildBearerHeader extraHeaderLen s

end Keys

section Copies

variable {key cells : Bytes} {i n : ℕ} {s : ApiKey}

/-- What is copied is the key up to the first end of a line. -/
theorem copyKey_eq (h : i + key.length ≤ cells.length) :
    copyKey key i cells = (key.all fun b => !isLineEnd b,
      cells.take i ++ key.takeWhile (fun b => !isLineEnd b) ++
        cells.drop (i + (key.takeWhile fun b => !isLineEnd b).length)) := by
  induction key generalizing i cells with
  | nil => simp [copyKey]
  | cons b key ih =>
    rw [List.length_cons] at h
    unfold copyKey
    cases hend : isLineEnd b with
    | true => simp [hend]
    | false =>
      have hset : (cells.set i b).take (i + 1) = cells.take i ++ [b] := by
        rw [List.take_add_one, List.take_set_of_le (le_refl i), List.getElem?_set_self (by omega)]
        rfl
      rw [if_neg Bool.false_ne_true, ih (by rw [List.length_set]; omega), hset]
      simp only [List.all_cons, hend, Bool.not_false, Bool.true_and, List.takeWhile_cons, if_pos, List.length_cons]
      rw [List.drop_set_of_lt (by omega)]
      rw [List.append_assoc, List.append_assoc, List.append_assoc, Nat.add_assoc, Nat.add_comm 1]
      rfl

/-- A list whose front is overwritten keeps a prefix just when the front agrees with it. -/
theorem overwritten_take (front cells : Bytes) (n : ℕ) :
    (front ++ cells.drop front.length).take n = cells.take n ↔ front.take n <+: cells.take n := by
  rw [List.take_append]
  constructor
  · intro heq
    exact ⟨_, heq⟩
  · intro hfront
    have hsame := List.prefix_iff_eq_take.mp hfront
    rw [List.take_take, List.length_take] at hsame
    rcases Nat.le_total front.length n with hle | hle
    · rw [Nat.min_eq_right hle, Nat.min_eq_left hle, List.take_of_length_le hle] at hsame
      rw [List.take_of_length_le hle]
      calc front ++ (cells.drop front.length).take (n - front.length)
          = cells.take front.length ++ (cells.drop front.length).take (n - front.length) := by rw [← hsame]
        _ = cells.take n := by rw [← List.take_add, Nat.add_sub_cancel' hle]
    · rw [Nat.min_eq_left hle, Nat.min_self] at hsame
      rw [Nat.sub_eq_zero_of_le hle, List.take_zero, List.append_nil, hsame]

/-- The cells in front of those that are cleared stay. -/
theorem clearKey_take (h : n ≤ i) : ∀ k, (clearKey k i cells).take n = cells.take n := by
  intro k
  induction k generalizing i cells with
  | zero => rfl
  | succ k ih => rw [clearKey, ih (by omega), List.take_set_of_le h]

end Copies

section Updates

variable {key : Bytes} {s : ApiKey}

theorem text_length (s : ApiKey) : s.text.length = s.len := by
  have hsize := s.size
  have hfits := s.fits
  rw [ApiKey.text, List.length_take]
  omega

/-- The buffer has room for the header of every key. -/
theorem header_eq (s : ApiKey) : s.header = if s.len = 0 then [] else ascii "Authorization: Bearer " ++ s.text ++ crlf := by
  have hfits := s.fits
  have htext := text_length s
  have hlead : (ascii "Authorization: Bearer ").length = 22 := rfl
  have hroom : ¬ extraHeaderLen < (ascii "Authorization: Bearer " ++ s.text ++ crlf).length := by
    rw [List.length_append, List.length_append, htext, hlead]
    unfold extraHeaderLen apiKeyLen at *
    simp only [crlf, List.length_cons, List.length_nil]
    omega
  unfold ApiKey.header buildBearerHeader
  simp only [hroom, or_false]

/-- The header changes exactly when the key does. -/
theorem header_inj {s s' : ApiKey} (h : s'.len = s.len) : s'.header = s.header ↔ s'.text = s.text := by
  rw [header_eq, header_eq, h]
  split_ifs with hzero
  · have hs : s.text = [] := List.length_eq_zero_iff.mp ((text_length s).trans hzero)
    have hs' : s'.text = [] := List.length_eq_zero_iff.mp ((text_length s').trans (h.trans hzero))
    rw [hs, hs']
  · rw [List.append_left_inj, List.append_right_inj]

/-- The header after an update: the old one if the key was rejected, and else that of the new key, which has no end
of a line. -/
def Atomic (key : Bytes) (s : ApiKey) : Prop :=
  if (setApiKey key s).1 then
    (setApiKey key s).2.header = ascii "Authorization: Bearer " ++ key ++ crlf ∧ ∀ b ∈ key, isLineEnd b = false
  else (setApiKey key s).2.header = s.header

/-- An update is atomic unless the key is rejected for an end of a line behind bytes that differ from the old key. -/
theorem atomic_iff (key : Bytes) (s : ApiKey) : Atomic key s ↔
    key = [] ∨ apiKeyLen < key.length ∨ (∀ b ∈ key, isLineEnd b = false) ∨
      (key.takeWhile fun b => !isLineEnd b).take s.len <+: s.text := by
  unfold Atomic
  by_cases hlength : key = [] ∨ apiKeyLen < key.length
  · have hset : setApiKey key s = (false, s) := dif_pos hlength
    rw [hset, if_neg Bool.false_ne_true]
    exact iff_of_true rfl (hlength.elim .inl fun h => .inr (.inl h))
  have hroom : 0 + key.length ≤ s.cells.length := by
    rw [s.size, Nat.zero_add]
    exact Nat.not_lt.mp (not_or.mp hlength).2
  obtain ⟨hne, hfits⟩ := not_or.mp hlength
  have hcopy := copyKey_eq hroom
  rw [List.take_zero, List.nil_append, Nat.zero_add] at hcopy
  by_cases hends : ∀ b ∈ key, isLineEnd b = false
  · have hall : (key.all fun b => !isLineEnd b) = true := by simpa using hends
    have hwhole : (key.takeWhile fun b => !isLineEnd b) = key := by simpa using hends
    rw [hall, hwhole] at hcopy
    have hcopied : (copyKey key 0 s.cells).1 = true := by rw [hcopy]
    have haccepted : (setApiKey key s).1 = true := by
      rw [setApiKey, dif_neg hlength, if_pos hcopied]
    have htext : (setApiKey key s).2.text = key := by
      rw [setApiKey, dif_neg hlength, if_pos hcopied, ApiKey.text]
      dsimp only
      rw [clearKey_take le_rfl, hcopy, List.take_left]
    have hlen : (setApiKey key s).2.len = key.length := by rw [← text_length, htext]
    rw [if_pos haccepted, header_eq, hlen, htext, if_neg (by simpa using hne)]
    exact iff_of_true ⟨rfl, hends⟩ (.inr (.inr (.inl hends)))
  · have hall : (key.all fun b => !isLineEnd b) = false := by
      rw [← Bool.not_eq_true]
      simpa using hends
    rw [hall] at hcopy
    have hset : setApiKey key s = (false, { s with
        cells := (copyKey key 0 s.cells).2, size := (copyKey_length _ _ _).trans s.size }) := by
      rw [setApiKey, dif_neg hlength, if_neg (by rw [hcopy]; exact Bool.false_ne_true)]
    have hrejected : (setApiKey key s).1 = false := by rw [hset]
    have hlen : (setApiKey key s).2.len = s.len := by rw [hset]
    rw [hrejected, if_neg Bool.false_ne_true, header_inj hlen, hset, ApiKey.text, ApiKey.text]
    dsimp only
    rw [hcopy, overwritten_take]
    simp only [hne, hfits, hends, false_or]

theorem padded_length {text : Bytes} (fits : text.length ≤ apiKeyLen) :
    (text ++ List.replicate (apiKeyLen - text.length) 0).length = apiKeyLen := by
  rw [List.length_append, List.length_replicate, Nat.add_sub_cancel' fits]

/-- A key in cells that are clear behind it. -/
def ApiKey.ofText (text : Bytes) (fits : text.length ≤ apiKeyLen) : ApiKey :=
  ⟨text ++ List.replicate (apiKeyLen - text.length) 0, text.length, padded_length fits, fits⟩

/-- A rejected key leaves its first byte in the old one. -/
theorem atomic_mixed : ¬ ∀ key s, Atomic key s := by
  intro h
  have hmixed := h (ascii "x\n") (.ofText (ascii "ab") (by decide))
  unfold Atomic at hmixed
  rw [if_neg (by decide +kernel)] at hmixed
  exact absurd hmixed (by decide +kernel)

end Updates

end MiniAgentOS.Fetch
