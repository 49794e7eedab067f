import MiniAgentOS.Http.Complete
import MiniAgentOS.Http.Segmentation

/-! Framing by a content length: which bytes behind the headers are the body, and when the parser is
complete. -/
namespace MiniAgentOS.Http
open Checked

variable {http : HttpParser} {pieces : List Bytes} {block rest data : Bytes} {n : ℕ}

/-- A header block that announces a body of `n` bytes. -/
structure Announces (block : Bytes) (n : ℕ) : Prop where
  ends : headerEnd block = some block.length
  fits : block.length ≤ headerBufLen
  length : ∃ start stop, headerValue block block.length (ascii "content-length") = .ok (some (start, stop)) ∧
    decimalValue 0 ((block.take stop).drop start) = n
  unchunked : fieldHasToken block block.length (ascii "transfer-encoding") (ascii "chunked") = .ok false

/-- The body handed on is what came of the `n` bytes, and the parser is complete just when all of them came. -/
def FramesExactly (pieces : List Bytes) (rest : Bytes) (n : ℕ) : Prop :=
  ∃ http body, delivered <$> feedAll httpReset pieces = .ok (http, body) ∧ body = rest.take n ∧
    (http.state = .complete ↔ n ≤ rest.length)

theorem Announces.last (h : Announces block n) : block.getLast? = some lf := by
  obtain ⟨hfour, -, hat, -⟩ := headerEnd_eq_some h.ends
  have hdrop : block.drop (block.length - 4) = headerTerminator := by
    obtain ⟨tail, htail⟩ := hat
    have hlen := congrArg List.length htail
    have hterm : headerTerminator.length = 4 := rfl
    rw [List.length_append, List.length_drop, hterm] at hlen
    have hnil : tail = [] := List.length_eq_zero_iff.mp (by omega)
    rw [← htail, hnil, List.append_nil]
  have hsplit := List.take_append_drop (block.length - 4) block
  rw [hdrop] at hsplit
  rw [← hsplit, List.getLast?_append]
  rfl

theorem parseContentLength_eq (h : Announces block n) (old : ℕ) :
    parseContentLength block block.length old = if n < 2 ^ 64 then .ok n else .error .overflow := by
  obtain ⟨start, stop, hvalue, hdigits⟩ := h.length
  obtain ⟨r, hr, hbounds⟩ := headerValue_returns block (ascii "content-length")
  rw [hvalue] at hr
  obtain ⟨-, hle, -⟩ := hbounds (start, stop) (Except.ok.inj hr).symm
  rw [parseContentLength, hvalue, ok_bind]
  dsimp only
  rw [contentLength_eq hle, hdigits]

/-- Reading the headers gives the length, or traps when no machine word holds it. -/
theorem readHeaders_announced (h : Announces block n) :
    if n < 2 ^ 64 then ∃ http, readHeaders httpReset block = .ok http ∧ http.chunked = false ∧ http.contentLen = n
    else ∃ trap, readHeaders httpReset block = .error trap := by
  obtain ⟨status, hstatus, -⟩ := parseStatus_returns block
  have hlength := parseContentLength_eq h httpReset.contentLen
  rw [readHeaders, httpParseHeaders, hstatus, ok_bind, h.unchunked, ok_bind, hlength]
  by_cases hword : n < 2 ^ 64
  · rw [if_pos hword, if_pos hword, ok_bind]
    have hne : ascii "application/json" ≠ [] := by decide
    have hjson : Returns (fieldHasToken block block.length (ascii "content-type") (ascii "application/json"))
        fun _ => True := fieldHasToken_returns h.last hne
    obtain ⟨nowJson, hjson, -⟩ := hjson
    obtain ⟨date, hdate, -⟩ := parseDate_returns block
    obtain ⟨redirect, hredirect, -⟩ := redirectTarget_returns block
    rw [hjson, ok_bind, hdate, ok_bind, hredirect, ok_bind]
    exact ⟨_, rfl, rfl, rfl⟩
  · rw [if_neg hword, if_neg hword]
    exact ⟨.overflow, rfl⟩

/-- A body with a content length is what came of it, and complete when all of it came. -/
theorem bodyRun_exact (hstate : http.state = .body) (hrecv : http.bodyRecv = 0) (hpos : 0 < http.contentLen)
    (hword : http.contentLen < 2 ^ 64) (data : Bytes) :
    (bodyRun http data).2 = data.take http.contentLen ∧
      ((bodyRun http data).1.state = .complete ↔ http.contentLen ≤ data.length) := by
  by_cases hnil : data = []
  · rw [hnil, bodyRun, hstate, List.take_nil, List.length_nil]
    exact ⟨rfl, iff_of_false (by simp) (by omega)⟩
  have hstart : http.contentLen > 0 → http.bodyRecv < http.contentLen := by omega
  rcases Nat.lt_or_ge data.length http.contentLen with hshort | hlong
  · have hrun := bodyRun_body data hstate hstart (by omega) hnil
    have hopen : ¬ (http.contentLen > 0 ∧ saturatingAdd http.bodyRecv data.length ≥ http.contentLen) := by
      unfold saturatingAdd
      omega
    rw [hrun, if_neg hopen, List.take_of_length_le (by omega)]
    exact ⟨rfl, iff_of_false (by simp) (by omega)⟩
  · have hlen : (data.take http.contentLen).length = http.contentLen := by
      rw [List.length_take]
      omega
    have hfront : data.take http.contentLen ≠ [] := by
      intro h
      rw [h, List.length_nil] at hlen
      omega
    have hrun := bodyRun_body (data.take http.contentLen) hstate hstart (by omega) hfront
    have hdone : http.contentLen > 0 ∧
        saturatingAdd http.bodyRecv (data.take http.contentLen).length ≥ http.contentLen := by
      unfold saturatingAdd
      omega
    rw [if_pos hdone] at hrun
    have hstop : (bodyRun http (data.take http.contentLen)).1.state = .complete := by
      rw [hrun]
    have hsplit := @bodyRun_append (data.take http.contentLen) (data.drop http.contentLen) http
    rw [List.take_append_drop, bodyRun_complete hstop, List.append_nil] at hsplit
    rw [hsplit]
    exact ⟨congrArg Prod.snd hrun, iff_of_true hstop hlong⟩

def lengthHeaders (digits : Bytes) : Bytes :=
  ascii "HTTP/1.1 200 OK" ++ [cr, lf] ++ ascii "Content-Length: " ++ digits ++ headerTerminator

theorem announces_four : Announces (lengthHeaders (ascii "4")) 4 :=
  ⟨by decide, by decide, ⟨33, 34, by decide, by decide⟩, by decide⟩

theorem announces_zero : Announces (lengthHeaders (ascii "0")) 0 :=
  ⟨by decide, by decide, ⟨33, 34, by decide, by decide⟩, by decide⟩

end MiniAgentOS.Http
