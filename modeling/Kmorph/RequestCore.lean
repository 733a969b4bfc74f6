import Kmorph.Libc

/-!
The line protocol between `kmorph` on the predecessor and `kmorphd` in the
successor, `lib/request.c`.
-/

namespace Kmorph

inductive RequestKind
  | status
  | handover
  | network
deriving Repr, DecidableEq

structure StatusReply where
  state : String
  predecessor : String
  lastProbeMs : UInt64
  lastError : Int
deriving Repr, DecidableEq

def lineLen (line : List Char) : ℕ :=
  (line.reverse.dropWhile fun c => c = '\n' || c = '\r').length

def NETWORK_MAX : ℕ := 2 ^ 20

/-- `sscanf(line, "network %lu%n", ...)`: the number and how much of the line it took. -/
def scanNetwork (line : List Char) : Option (ℕ × ℕ) :=
  if "network".toList.isPrefixOf line then
    (scanUnsigned (line.drop 7)).map fun (payload, rest) => (payload, line.length - rest.length)
  else none

def requestParse (line : List Char) : Except Int (RequestKind × ℕ) :=
  let n := lineLen line
  if n = 6 ∧ line.take 6 = "status".toList then .ok (.status, 0)
  else if n = 8 ∧ line.take 8 = "handover".toList then .ok (.handover, 0)
  else
    match scanNetwork line with
    | some (payload, used) =>
        if used = n ∧ payload ≤ NETWORK_MAX then .ok (.network, payload) else .error (-EINVAL)
    | none => .error (-EINVAL)

def formatted (text : String) (len : ℕ) : Except Int String :=
  if text.length ≥ len then .error (-ENOSPC) else .ok text

def requestFormatStatus (r : StatusReply) (len : ℕ) : Except Int String :=
  formatted ("ok " ++ r.state ++ " predecessor=" ++ r.predecessor ++ " last_probe=" ++
    toString r.lastProbeMs.toNat ++ "ms error=" ++ toString r.lastError ++ "\n") len

def scanStatus (line : List Char) : Option StatusReply := do
  let rest ← scanLiteral "ok".toList line
  let (state, rest) ← scanWord 15 rest
  let rest ← scanLiteral "predecessor=".toList (rest.dropWhile isSpace)
  let (predecessor, rest) ← scanWord 15 rest
  let rest ← scanLiteral "last_probe=".toList (rest.dropWhile isSpace)
  let (ms, rest) ← scanUnsigned rest
  let rest ← scanLiteral "ms".toList rest
  let rest ← scanLiteral "error=".toList (rest.dropWhile isSpace)
  let (error, _) ← scanSigned rest
  return ⟨.ofList state, .ofList predecessor, .ofNat ms, error⟩

def requestParseStatus (line : List Char) : Except Int StatusReply :=
  (scanStatus line).elim (.error (-EINVAL)) .ok

def formatAck (ok : String) (reason : Option String) (len : ℕ) : Except Int String :=
  match reason with
  | some reason => formatted ("refused " ++ reason ++ "\n") len
  | none => formatted ("ok " ++ ok ++ "\n") len

def requestFormatHandover (reason : Option String) (len : ℕ) : Except Int String :=
  formatAck "fencing" reason len

def requestFormatNetworkReply (reason : Option String) (len : ℕ) : Except Int String :=
  formatAck "network" reason len

def parseAck (ok line : List Char) (len : ℕ) : Int × List Char :=
  let n := lineLen line
  if n = ok.length + 3 ∧ line.take 3 = "ok ".toList ∧ (line.drop 3).take (n - 3) = ok then (0, [])
  else if n > 8 ∧ line.take 8 = "refused ".toList then
    (-EBUSY, ((line.drop 8).take (n - 8)).take (len - 1))
  else (-EINVAL, [])

def requestParseHandover (line : List Char) (len : ℕ) : Int × List Char :=
  parseAck "fencing".toList line len

def requestParseNetworkReply (line : List Char) (len : ℕ) : Int × List Char :=
  parseAck "network".toList line len

def requestFormatNetwork (len buflen : ℕ) : Except Int (List Char) :=
  let line := "network ".toList ++ formatUnsigned len ++ ['\n']
  if line.length ≥ buflen then .error (-ENOSPC) else .ok line

/-- What one round of `poll` and `recv` on a connection gives. -/
inductive Recv
  | data (bytes : List Char)
  | timeout
  | closed
  | error (errno : Int)
deriving Repr, DecidableEq

structure RequestHead where
  line : ℕ
  kind : RequestKind
  payload : ℕ
deriving Repr, DecidableEq

def REQUEST_LINE_MAX : ℕ := 64

def requestHead (cap : ℕ) (got : List Char) : Except Int (Option RequestHead) :=
  match got.idxOf? '\n' with
  | none => .ok none
  | some newline =>
      let line := newline + 1
      if line > REQUEST_LINE_MAX then .error (-EINVAL)
      else
        match requestParse (cString (got.take line)) with
        | .error _ => .error (-EINVAL)
        | .ok (kind, payload) =>
            if line + payload ≥ cap then .error (-E2BIG) else .ok (some ⟨line, kind, payload⟩)

/-- The head once it is parsed, and what is in the buffer. -/
structure FrameState where
  head : Option RequestHead
  got : List Char
deriving Repr, DecidableEq

inductive FrameStep
  | more (s : FrameState)
  | done (outcome : Except Int (RequestHead × List Char))

/-- One round of `read_request`. -/
def frameStep (cap : ℕ) (s : FrameState) : Recv → FrameStep
  | .timeout => .done (.error (-ETIMEDOUT))
  | .closed => .done (.error (-ECONNRESET))
  | .error errno => .done (.error (-errno))
  | .data bytes =>
      let room := cap - 1 - s.got.length
      let read := bytes.take room
      if read = [] then .done (.error (-ECONNRESET))
      else
        let got := s.got ++ read
        -- What there is no room for stays in the socket, and the next `recv`, of 0 bytes, returns 0.
        let next := fun head =>
          if bytes.length > room then .done (.error (-ECONNRESET)) else .more ⟨head, got⟩
        match s.head.elim (requestHead cap got) fun head => .ok (some head) with
        | .error errno => .done (.error errno)
        | .ok none => next none
        | .ok (some head) =>
            if got.length ≥ head.line + head.payload then
              .done (.ok (head, (got.drop head.line).take head.payload))
            else next (some head)

/-- The request line, its kind and the payload. The input ends when the deadline passes. -/
def readFrame (cap : ℕ) (s : FrameState) : List Recv → Except Int (RequestHead × List Char)
  | [] => .error (-ETIMEDOUT)
  | r :: input =>
      match frameStep cap s r with
      | .done outcome => outcome
      | .more s => readFrame cap s input

/-- The request and its payload. -/
def readRequest (cap : ℕ) (head : Option RequestHead) (got : List Char) (input : List Recv) :
    Except Int (RequestKind × List Char) :=
  (readFrame cap ⟨head, got⟩ input).map fun frame => (frame.1.kind, frame.2)

example : readRequest 100 none [] [.data "hand".toList, .data "over\r\n".toList] =
    .ok (.handover, []) := rfl

example : readRequest 100 none [] [.data "network 3\nab".toList, .data "cd".toList] =
    .ok (.network, "abc".toList) := rfl

end Kmorph
