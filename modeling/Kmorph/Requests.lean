import Kmorph.RequestCore
import Kmorph.Scanning

/-!
What one side of the line protocol makes of what the other side wrote.
-/

namespace Kmorph

theorem toList_of_formatted {text sent : String} {len : ℕ} (ok : formatted text len = .ok sent) :
    sent.toList = text.toList := by
  rw [formatted] at ok
  split at ok
  · cases ok
  · cases ok
    rfl

section Status

theorem toString_nat (n : ℕ) : (toString n).toList = formatUnsigned n := by
  show (Nat.repr n).toList = _
  simp [Nat.repr, formatUnsigned]

theorem toString_int (n : Int) : (toString n).toList = formatSigned n := by
  show (Int.repr n).toList = _
  cases n with
  | ofNat n => simp [Int.repr, formatSigned, Nat.repr, formatUnsigned]
  | negSucc n => simp [Int.repr, formatSigned, Nat.repr, formatUnsigned]

/-- What the fields of a status reply can hold. -/
structure StatusReply.Valid (r : StatusReply) : Prop where
  state : IsWord 15 r.state.toList
  predecessor : IsWord 15 r.predecessor.toList
  low : -2 ^ 31 ≤ r.lastError
  high : r.lastError < 2 ^ 31

def statusLine (r : StatusReply) : List Char :=
  "ok".toList ++ ' ' :: (r.state.toList ++ ' ' :: ("predecessor=".toList ++
    (r.predecessor.toList ++ ' ' :: ("last_probe=".toList ++ (formatUnsigned r.lastProbeMs.toNat ++
      ("ms".toList ++ ' ' :: ("error=".toList ++ (formatSigned r.lastError ++ ['\n']))))))))

theorem requestFormatStatus_toList {r : StatusReply} {len : ℕ} {sent : String}
    (ok : requestFormatStatus r len = .ok sent) : sent.toList = statusLine r := by
  rw [toList_of_formatted ok]
  simp only [String.toList_append, toString_nat, toString_int, statusLine]
  simp

theorem stops_space (rest : List Char) : Stops (fun c => !isSpace c) (' ' :: rest) :=
  stops_cons (by decide)

theorem scanStatus_line {r : StatusReply} (valid : r.Valid) : scanStatus (statusLine r) = some r := by
  have predecessor (rest : List Char) : (' ' :: ("predecessor=".toList ++ rest)).dropWhile isSpace =
      "predecessor=".toList ++ rest := rfl
  have lastProbe (rest : List Char) : (' ' :: ("last_probe=".toList ++ rest)).dropWhile isSpace =
      "last_probe=".toList ++ rest := rfl
  have error (rest : List Char) : (' ' :: ("error=".toList ++ rest)).dropWhile isSpace =
      "error=".toList ++ rest := rfl
  have unit (rest : List Char) : Stops Char.isDigit ("ms".toList ++ rest) := stops_cons (by decide)
  have newline : Stops Char.isDigit ['\n'] := stops_cons (by decide)
  simp only [scanStatus, statusLine, scanLiteral_append, Option.bind_eq_bind, Option.bind_some,
    scanWord_space, scanWord_word valid.state (stops_space _), predecessor,
    scanWord_word valid.predecessor (stops_space _), lastProbe,
    scanUnsigned_format r.lastProbeMs.toNat_lt (unit _), error,
    scanSigned_format valid.low valid.high newline, String.ofList_toList, UInt64.ofNat_toNat]
  rfl

end Status

section Acks

variable {ok reason sent : String} {len cap : ℕ}

theorem lineLen_line {text : List Char} (ends : ∀ c ∈ text.getLast?, c ≠ '\n' ∧ c ≠ '\r') :
    lineLen (text ++ ['\n']) = text.length := by
  have stops : Stops (fun c => c = '\n' || c = '\r') text.reverse := by
    intro c first
    rw [List.head?_reverse] at first
    simpa using ends c first
  rw [lineLen, List.reverse_append, List.reverse_singleton, List.singleton_append,
    List.dropWhile_cons_of_pos (by decide), dropWhile_of_stops stops, List.length_reverse]

theorem getLast?_append_found {before text : List Char} (found : text ≠ []) :
    (before ++ text).getLast? = text.getLast? := by
  rw [List.getLast?_append, List.getLast?_eq_some_getLast found, Option.some_or]

/-- Text that ends a line, so that nothing of it is cut off with the newline. -/
structure EndsLine (text : List Char) : Prop where
  found : text ≠ []
  ends : ∀ c ∈ text.getLast?, c ≠ '\n' ∧ c ≠ '\r'

theorem endsLine_of_getLast? {text : List Char} {last : Char} (found : text.getLast? = some last)
    (plain : last ≠ '\n' ∧ last ≠ '\r') : EndsLine text := by
  constructor
  · rintro rfl
    simp at found
  · intro c isLast
    obtain rfl := Option.some.inj (found.symm.trans isLast)
    exact plain

theorem EndsLine.lineLen {text : List Char} (endsLine : EndsLine text) (before : List Char) :
    lineLen (before ++ text ++ ['\n']) = before.length + text.length := by
  rw [lineLen_line, List.length_append]
  rw [getLast?_append_found endsLine.found]
  exact endsLine.ends

theorem parseAck_accepted (format : formatAck ok none len = .ok sent) (endsLine : EndsLine ok.toList) :
    parseAck ok.toList sent.toList cap = (0, []) := by
  have line : sent.toList = "ok ".toList ++ ok.toList ++ ['\n'] := by
    rw [toList_of_formatted format, String.toList_append, String.toList_append]
    rfl
  have length : lineLen sent.toList = 3 + ok.toList.length := by
    rw [line]
    exact endsLine.lineLen _
  have start : sent.toList.take 3 = "ok ".toList := by
    rw [line]
    rfl
  have name : (sent.toList.drop 3).take (3 + ok.toList.length - 3) = ok.toList := by
    rw [line, Nat.add_sub_cancel_left]
    exact List.take_left
  simp only [parseAck]
  rw [length, if_pos ⟨Nat.add_comm _ _, start, name⟩]

theorem parseAck_refused (format : formatAck ok (some reason) len = .ok sent)
    (endsLine : EndsLine reason.toList) (kind : List Char) :
    parseAck kind sent.toList cap = (-EBUSY, reason.toList.take (cap - 1)) := by
  have line : sent.toList = "refused ".toList ++ reason.toList ++ ['\n'] := by
    rw [toList_of_formatted format, String.toList_append, String.toList_append]
    rfl
  have length : lineLen sent.toList = 8 + reason.toList.length := by
    rw [line]
    exact endsLine.lineLen _
  have other : sent.toList.take 3 ≠ "ok ".toList := by
    rw [line]
    exact show ['r', 'e', 'f'] ≠ ['o', 'k', ' '] by decide
  have start : sent.toList.take 8 = "refused ".toList := by
    rw [line]
    rfl
  have text : (sent.toList.drop 8).take (8 + reason.toList.length - 8) = reason.toList := by
    rw [line, Nat.add_sub_cancel_left]
    exact List.take_left
  have found := List.length_pos_iff.mpr endsLine.found
  simp only [parseAck]
  rw [if_neg fun accepted => other accepted.2.1, length, if_pos ⟨by omega, start⟩, text]

theorem parseAck_eq_zero {line kind : List Char} (accepted : (parseAck kind line cap).1 = 0) :
    (line.drop 3).take (lineLen line - 3) = kind := by
  simp only [parseAck] at accepted
  split at accepted
  · rename_i isOk
    exact isOk.2.2
  · split at accepted
    · exact absurd accepted (show -EBUSY ≠ 0 by decide)
    · exact absurd accepted (show -EINVAL ≠ 0 by decide)

end Acks

/-- Each side reads what the other wrote. -/
theorem replies_roundTrip :
    (∀ (r : StatusReply) (len : ℕ) (sent : String), r.Valid → requestFormatStatus r len = .ok sent →
      requestParseStatus sent.toList = .ok r) ∧
    (∀ (len cap : ℕ) (sent : String),
      (requestFormatHandover none len = .ok sent → requestParseHandover sent.toList cap = (0, [])) ∧
      (requestFormatNetworkReply none len = .ok sent →
        requestParseNetworkReply sent.toList cap = (0, [])) ∧
      ∀ reason : String, EndsLine reason.toList →
        (requestFormatHandover (some reason) len = .ok sent →
          requestParseHandover sent.toList cap = (-EBUSY, reason.toList.take (cap - 1))) ∧
        (requestFormatNetworkReply (some reason) len = .ok sent →
          requestParseNetworkReply sent.toList cap = (-EBUSY, reason.toList.take (cap - 1)))) ∧
    ∀ (line : List Char) (cap capOther : ℕ),
      ¬ ((requestParseHandover line cap).1 = 0 ∧ (requestParseNetworkReply line capOther).1 = 0) := by
  refine ⟨?_, ?_, ?_⟩
  · intro r len sent valid format
    rw [requestParseStatus, requestFormatStatus_toList format, scanStatus_line valid]
    rfl
  · intro len cap sent
    refine ⟨fun format => ?_, fun format => ?_, fun reason endsLine => ⟨fun format => ?_, fun format => ?_⟩⟩
    · exact parseAck_accepted format (@endsLine_of_getLast? _ 'g' (by decide) (by decide))
    · exact parseAck_accepted format (@endsLine_of_getLast? _ 'k' (by decide) (by decide))
    · exact parseAck_refused format endsLine _
    · exact parseAck_refused format endsLine _
  · rintro line cap capOther ⟨handover, network⟩
    have same := (parseAck_eq_zero handover).symm.trans (parseAck_eq_zero network)
    exact absurd same (by decide)

/-- What an armed `kmorphd` reports, and a refusal that is cut to its buffer. -/
theorem replies_roundTrip_armed :
    (∃ sent, requestFormatStatus ⟨"armed", "alive", 250, -111⟩ 96 = .ok sent ∧
      requestParseStatus sent.toList = .ok ⟨"armed", "alive", 250, -111⟩) ∧
    ∃ sent, requestFormatHandover (some "not armed") 64 = .ok sent ∧
      requestParseHandover sent.toList 4 = (-EBUSY, "not".toList) := by
  obtain ⟨statuses, acks, -⟩ := replies_roundTrip
  have valid : StatusReply.Valid ⟨"armed", "alive", 250, -111⟩ := ⟨by decide, by decide, by decide, by decide⟩
  have status : requestFormatStatus ⟨"armed", "alive", 250, -111⟩ 96 =
      .ok "ok armed predecessor=alive last_probe=250ms error=-111\n" := by decide +kernel
  have refused : requestFormatHandover (some "not armed") 64 = .ok "refused not armed\n" := by decide +kernel
  refine ⟨⟨_, status, statuses _ 96 _ valid status⟩, _, refused, ?_⟩
  exact (((acks 64 4 _).2.2 "not armed" (@endsLine_of_getLast? _ 'd' (by decide) (by decide))).1 refused)

end Kmorph
