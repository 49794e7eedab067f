import MiniAgentOS.Fetch.HttpSegment
import MiniAgentOS.Lib.Machine
import MiniAgentOS.Net.RxRing

/-! Runs of the plain HTTP receive path: segments of the server's stream in any order, and a FIN
on those that carry its end. -/
namespace MiniAgentOS.Fetch
open Http Net

variable {stream : Bytes} {isn : UInt32}

/-- A segment that starts at `offset` of the stream. -/
structure HttpEvent where
  offset : ℕ
  payload : Bytes
  fin : Bool
  deriving DecidableEq, Repr

def HttpEvent.segment (isn : UInt32) (event : HttpEvent) : Segment :=
  ⟨seqAt isn event.offset, event.payload, event.fin⟩

@[simp] theorem HttpEvent.segment_fin (event : HttpEvent) : (event.segment isn).fin = event.fin := rfl

@[simp] theorem HttpEvent.segment_stop (event : HttpEvent) :
    (event.segment isn).stop = seqAt isn (event.offset + event.payload.length) :=
  (seqAt_add isn event.offset event.payload.length).symm

/-- `FETCH_ACK`, the parser and the pieces fed to it so far. The fetch is `done` by a FIN or by
headers that are too large, and `finished` by a FIN. -/
structure HttpRun where
  ack : UInt32
  http : HttpParser
  fed : List Bytes
  done : Bool
  finished : Bool
  deriving DecidableEq, Repr

/-- How many bytes of the stream were fed, if they were those of the stream in order. -/
def HttpRun.position (run : HttpRun) : ℕ := run.fed.flatten.length

def httpStep (isn : UInt32) (run : HttpRun) (event : HttpEvent) : Checked HttpRun := do
  let result ← httpSegment run.ack run.http (event.segment isn)
  pure
    { ack := result.ack
      http := result.http
      fed := run.fed ++ result.pieces
      done := event.fin || result.effects.contains .headersTooLarge
      finished := event.fin }

/-- Before the fetch is done, any piece of the stream that fits a frame may arrive, with a FIN only
if it ends with the stream. -/
def HttpAllowed (stream : Bytes) (run : HttpRun) (event : HttpEvent) : Prop :=
  run.done = false ∧ Piece.At stream event.offset event.payload ∧ event.offset ≤ stream.length ∧
    event.payload.length ≤ rxBufLen ∧
    (event.fin → event.offset + event.payload.length = stream.length)

instance (run : HttpRun) (event : HttpEvent) : Decidable (HttpAllowed stream run event) :=
  inferInstanceAs (Decidable (_ ∧ _ ∧ _ ∧ _ ∧ _))

def httpMachine (stream : Bytes) (isn : UInt32) (http : HttpParser) : Machine HttpRun HttpEvent :=
  Machine.ofChecked (fun run => run = ⟨isn, http, [], false, false⟩) (HttpAllowed stream)
    (httpStep isn)

instance (http : HttpParser) (run : HttpRun) (event : HttpEvent) :
    Decidable ((httpMachine stream isn http).allowed run event) :=
  inferInstanceAs (Decidable (_ ∧ _))

/-- The parser was fed the stream up to the acknowledged byte, and a FIN finished the fetch only
behind the last one. -/
structure StreamReceived (stream : Bytes) (isn : UInt32) (run : HttpRun) : Prop where
  bytes : run.fed.flatten = stream.take run.position
  ack : run.ack = seqAt isn (run.position + if run.finished then 1 else 0)
  finished : run.finished → run.fed.flatten = stream

/-- No byte of the segment has the sequence number of the next byte of the stream without being that
byte, and no FIN arrives while a byte in front of its segment is missing. -/
def InSequence (isn : UInt32) (run : HttpRun) (event : HttpEvent) : Prop :=
  (∀ i < event.payload.length, seqAt isn (event.offset + i) = run.ack →
    event.offset + i = run.position) ∧
  (event.fin → event.offset ≤ run.position)

instance (run : HttpRun) (event : HttpEvent) : Decidable (InSequence isn run event) :=
  inferInstanceAs (Decidable (_ ∧ _))

variable {run : HttpRun} {event : HttpEvent}

/-- In sequence, the new payload is what the segment holds of the stream behind the position. -/
theorem newPayload_eq (hack : run.ack = seqAt isn run.position)
    (hlen : event.payload.length ≤ rxBufLen)
    (hseq : ∀ i < event.payload.length, seqAt isn (event.offset + i) = run.ack →
      event.offset + i = run.position) :
    newPayload run.ack (event.segment isn) =
      if event.offset ≤ run.position then event.payload.drop (run.position - event.offset) else [] := by
  have hcap : rxBufLen < 2 ^ 31 := by decide
  rw [newPayload_eq_drop (show event.payload.length ≤ 2 ^ 31 by omega)]
  change event.payload.drop (run.ack - seqAt isn event.offset).toNat = _
  by_cases htaken : (run.ack - seqAt isn event.offset).toNat < event.payload.length
  · have hnumber : seqAt isn (event.offset + (run.ack - seqAt isn event.offset).toNat) = run.ack := by
      rw [seqAt_add, UInt32.ofNat_toNat, add_sub_cancel]
    have hposition := hseq _ htaken hnumber
    rw [if_pos (by omega)]
    congr 1
    omega
  · rw [List.drop_of_length_le (by omega)]
    split_ifs with hle
    · by_cases hnear : run.position < event.offset + event.payload.length
      · rw [hack, toNat_seqAt_sub isn hle (by omega)] at htaken
        omega
      · rw [List.drop_of_length_le (by omega)]
    · rfl

theorem position_le (hbytes : run.fed.flatten = stream.take run.position) :
    run.position ≤ stream.length := by
  have hlength := congrArg List.length hbytes
  rw [List.length_take] at hlength
  change run.position = _ at hlength
  omega

/-- What an allowed segment in sequence adds to the stream, and what it acknowledges. -/
theorem newPayload_spec (hbytes : run.fed.flatten = stream.take run.position)
    (hack : run.ack = seqAt isn run.position) (hallowed : HttpAllowed stream run event)
    (hseq : InSequence isn run event) :
    ∃ fresh, newPayload run.ack (event.segment isn) = fresh ∧
      run.fed.flatten ++ fresh = stream.take (run.position + fresh.length) ∧
      (if fresh = [] then run.ack else (event.segment isn).stop) =
        seqAt isn (run.position + fresh.length) ∧
      (event.fin → run.position + fresh.length = stream.length) := by
  obtain ⟨-, hpiece, hinside, hlen, hfin⟩ := hallowed
  have hle := position_le hbytes
  refine ⟨_, rfl, ?_⟩
  rw [newPayload_eq hack hlen hseq.1]
  by_cases hahead : run.position < event.offset
  · rw [if_neg (by omega), List.append_nil, if_pos rfl]
    refine ⟨hbytes, hack, fun hf => ?_⟩
    have hbefore := hseq.2 hf
    omega
  · have hoffset : event.offset ≤ run.position := by omega
    have htrim := hpiece.trim_append hoffset
    rw [if_pos hoffset, List.length_drop, hbytes]
    refine ⟨htrim, ?_, fun hf => ?_⟩
    · split_ifs with hempty
      · have hshort := List.drop_eq_nil_iff.mp hempty
        rw [hack]
        congr 1
        omega
      · have hlong := mt List.drop_eq_nil_iff.mpr hempty
        have hstop : run.position + (event.payload.length - (run.position - event.offset)) =
            event.offset + event.payload.length := by omega
        rw [hstop, HttpEvent.segment_stop]
    · have hend := hfin hf
      omega

theorem httpStep_eq_ok {next : HttpRun} (h : httpStep isn run event = .ok next) :
    ∃ result, httpSegment run.ack run.http (event.segment isn) = .ok result ∧
      next.ack = result.ack ∧ next.fed = run.fed ++ result.pieces ∧ next.finished = event.fin ∧
      (next.finished → next.done) := by
  unfold httpStep at h
  cases hresult : httpSegment run.ack run.http (event.segment isn) with
  | error trap =>
    rw [hresult] at h
    cases h
  | ok result =>
    rw [hresult] at h
    cases h
    refine ⟨result, rfl, rfl, rfl, rfl, ?_⟩
    intro hfin
    exact Bool.or_eq_true_iff.mpr (.inl hfin)

theorem httpStep_received (h : StreamReceived stream isn run) (hopen : run.finished → run.done)
    (hallowed : HttpAllowed stream run event) (hseq : InSequence isn run event) {next : HttpRun}
    (hstep : httpStep isn run event = .ok next) : StreamReceived stream isn next := by
  have hack : run.ack = seqAt isn run.position := by
    have hunfinished : ¬ run.finished := by
      intro hfinished
      have hdone := hopen hfinished
      rw [hallowed.1] at hdone
      cases hdone
    rw [h.ack, if_neg hunfinished]
    rfl
  obtain ⟨fresh, hfresh, hbytes, hstop, hend⟩ := newPayload_spec h.bytes hack hallowed hseq
  obtain ⟨result, hresult, hnextAck, hnextFed, hnextFin, -⟩ := httpStep_eq_ok hstep
  obtain ⟨hpieces, -, fed, hfed, hresultAck⟩ := httpSegment_eq_ok hresult
  rw [hfresh] at hpieces hfed
  rw [hstop] at hfed
  have hflatten : next.fed.flatten = run.fed.flatten ++ fresh := by
    rw [hnextFed, List.flatten_append, hpieces, flatten_feedChunks]
  have hposition : next.position = run.position + fresh.length := by
    rw [HttpRun.position, hflatten, List.length_append]
    rfl
  constructor
  · rw [hposition, hflatten, hbytes]
  · rw [hposition, hnextAck, hresultAck, hfed, hnextFin, HttpEvent.segment_fin]
    by_cases hfin : event.fin
    · have hone : (event.segment isn).stop + 1 = seqAt isn (run.position + fresh.length + 1) := by
        rw [HttpEvent.segment_stop, hend hfin, hallowed.2.2.2.2 hfin, seqAt_add isn _ 1]
        rfl
      have hnext : 0 < tcpSeqCmp (seqAt isn (run.position + fresh.length + 1))
          (seqAt isn (run.position + fresh.length)) :=
        (tcpSeqCmp_pos_iff isn (by omega) (by omega)).mpr (Nat.lt_succ_self _)
      rw [hone, if_pos ⟨hfin, hnext⟩, if_pos hfin]
    · rw [if_neg (fun hboth => hfin hboth.1), if_neg hfin]
      rfl
  · intro hfin
    rw [hnextFin] at hfin
    rw [hflatten, hbytes, hend hfin, List.take_length]

/-- Along every run whose segments are in sequence, the parser gets the stream up to the acknowledged
byte, and a FIN finishes the fetch only behind the whole stream. -/
theorem stream_received {http : HttpParser}
    (h : ((httpMachine stream isn http).restrict (InSequence isn)).Reachable run) :
    StreamReceived stream isn run := by
  have hinv : StreamReceived stream isn run ∧ (run.finished → run.done) := by
    apply h.invariant
    · rintro _ rfl
      refine ⟨⟨rfl, (seqAt_zero isn).symm, ?_⟩, id⟩
      intro hfinished
      cases hfinished
    · rintro run event ⟨hreceived, hopen⟩ ⟨hallowed, hseq⟩
      obtain ⟨hallowed, hstep⟩ := Machine.ofChecked_step hallowed
      obtain ⟨-, -, -, -, -, hdone⟩ := httpStep_eq_ok hstep
      exact ⟨httpStep_received hreceived hopen hallowed hseq hstep, hdone⟩
  exact hinv.1

/-- Segments out of order, twice and overlapping, across the wrap of the sequence numbers. -/
theorem stream_received_run :
    let run := (httpMachine (ascii "HTTP/1.") 0xFFFFFFFE httpReset).run
      ⟨0xFFFFFFFE, httpReset, [], false, false⟩
      [⟨3, ascii "P/", false⟩, ⟨0, ascii "HT", false⟩, ⟨0, ascii "HTTP", false⟩,
        ⟨2, ascii "TP/1.", true⟩]
    run.fed.flatten = ascii "HTTP/1." ∧ run.ack = 6 := by
  have hreach : ((httpMachine (ascii "HTTP/1.") 0xFFFFFFFE httpReset).restrict
      (InSequence 0xFFFFFFFE)).Reachable _ :=
    Machine.Reachable.run (.init rfl)
      (show ((httpMachine _ _ _).restrict _).Allows ⟨0xFFFFFFFE, httpReset, [], false, false⟩
        [⟨3, ascii "P/", false⟩, ⟨0, ascii "HT", false⟩, ⟨0, ascii "HTTP", false⟩,
          ⟨2, ascii "TP/1.", true⟩] by decide)
  have hreceived := stream_received hreach
  exact ⟨hreceived.finished rfl, hreceived.ack⟩

/-- The end of the stream arrives before its beginning, with the FIN. -/
theorem early_fin_finishes : ¬ ∀ run, (httpMachine (ascii "ab") 0 httpReset).Reachable run →
    StreamReceived (ascii "ab") 0 run := by
  intro hall
  have hreach : (httpMachine (ascii "ab") 0 httpReset).Reachable _ :=
    Machine.Reachable.run (.init rfl)
      (show (httpMachine _ _ _).Allows ⟨0, httpReset, [], false, false⟩ [⟨1, ascii "b", true⟩] by
        decide)
  have hfed := (hall _ hreach).finished rfl
  revert hfed
  decide

end MiniAgentOS.Fetch
