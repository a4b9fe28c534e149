import AgaveSdk.Library.Runs
import AgaveSdk.SchedulerHandshake.Rejections
import AgaveSdk.SchedulerHandshake.SessionLayout

/-! Any number of clients connect to one server. What the clients write, what the server reads and
what it answers interleave in any order, and every stream may fail. -/
namespace AgaveSdk.SchedulerHandshake
open FallibleState ByteOrder Runs

/-- What all handshakes of one machine have in common. -/
structure Platform where
  host : Endian
  current : ProtocolVersions
  debug : LibraryError → String
  minimumFileSize : MinimumFileSize

/-- What happens to the server on one connection, apart from its reads. -/
structure Circumstances where
  timeoutError : Option String
  failure : ℕ → Call → Option String
  sendError : Option String
  nonblockingError : Option String
  write : Except String ℕ

namespace Client

/-- What `connect_path` does once the logon message is sent. -/
def awaitSession (env : Environment) (logon : ClientLogon) (msg : Except String Received) :
    Outcome ClientHandshakeError ClientSession := do
  let files ← recvResponse msg
  (exec (setupSession env logon files) .empty).1

end Client

/-- A connection with the client at its other end. The client closes its end when it has a result,
and the server closes its own when `accept` has one. -/
structure Exchange where
  logon : ClientLogon
  versions : ProtocolVersions
  unsent : List UInt8
  inFlight : List UInt8
  chunks : List (List UInt8)
  last : Option ReadEvent
  accepted : Option (Outcome AgaveHandshakeError AgaveSession)
  reply : List UInt8
  replyFiles : List ℕ
  connected : Option (Outcome ClientHandshakeError ClientSession)

namespace Exchange

def opened (host : Endian) (logon : ClientLogon) (versions : ProtocolVersions) : Exchange where
  logon := logon
  versions := versions
  unsent := Client.sendLogon host logon versions
  inFlight := []
  chunks := []
  last := none
  accepted := none
  reply := []
  replyFiles := []
  connected := none

/-- What the reads of the server found so far. -/
def events (x : Exchange) : List ReadEvent := arrivals x.chunks ++ x.last.toList

/-- The server asks for nothing more, or there is nothing more to come. -/
def Conclusive (x : Exchange) : Prop :=
  x.last ≠ none ∨ bufferSize ≤ x.chunks.flatten.length ∨ x.inFlight = [] ∧ x.connected.isSome

instance (x : Exchange) : Decidable x.Conclusive :=
  inferInstanceAs (Decidable (x.last ≠ none ∨ bufferSize ≤ x.chunks.flatten.length ∨
    x.inFlight = [] ∧ x.connected.isSome))

/-- The server goes on to answer. It does not read where the timeout could not be set. -/
def Ready (c : Circumstances) (x : Exchange) : Prop :=
  c.timeoutError = none ∧ x.Conclusive ∨ c.timeoutError ≠ none ∧ x.events = []

instance (c : Circumstances) (x : Exchange) : Decidable (x.Ready c) :=
  inferInstanceAs (Decidable (c.timeoutError = none ∧ x.Conclusive ∨
    c.timeoutError ≠ none ∧ x.events = []))

/-- The client writes some bytes. -/
def write (n : ℕ) (x : Exchange) : Option Exchange :=
  if x.connected.isNone ∧ x.accepted.isNone ∧ 0 < n ∧ n ≤ x.unsent.length then
    some { x with unsent := x.unsent.drop n, inFlight := x.inFlight ++ x.unsent.take n }
  else none

/-- The client gives up on an error of its stream, or on a timeout. -/
def giveUp (text : String) (x : Exchange) : Option Exchange :=
  if x.connected.isNone then some { x with connected := some (.error (.err (.io text))) } else none

/-- The server reads some bytes, and stops reading when it finds the time is up. -/
def read (n : ℕ) (late : Bool) (x : Exchange) : Option Exchange :=
  if x.last = none ∧ 0 < n ∧ n ≤ x.inFlight.length ∧ x.chunks.flatten.length + n ≤ bufferSize then
    let bytes := x.inFlight.take n
    some <|
      if late then { x with inFlight := x.inFlight.drop n, last := some (.data bytes true) }
      else { x with inFlight := x.inFlight.drop n, chunks := x.chunks ++ [bytes] }
  else none

def failRead (text : String) (x : Exchange) : Option Exchange :=
  if x.last = none ∧ x.chunks.flatten.length < bufferSize then
    some { x with last := some (.error text) }
  else none

/-- What the server finds on the connection. -/
def connection (p : Platform) (c : Circumstances) (x : Exchange) : Connection where
  acceptError := none
  timeoutError := c.timeoutError
  events := x.events
  environment := ⟨p.minimumFileSize, c.failure⟩
  sendError := c.sendError
  nonblockingError := c.nonblockingError
  write := c.write

/-- The result of `accept` and what it sent. -/
def answered (answer : Outcome AgaveHandshakeError AgaveSession × Server) (x : Exchange) :
    Exchange :=
  { x with accepted := some answer.1, reply := answer.2.sent, replyFiles := answer.2.sentFiles }

/-- What `recvmsg` returns when it finds at most so many bytes. The files come with the first byte,
and the list is cut off when there are more than the control message holds. The kernel is taken to
deliver every descriptor that was sent, which it does as long as the process of the client may open
so many files. -/
def arrived (n : ℕ) (x : Exchange) : Received where
  bytes := x.reply.take n
  cmsgs :=
    if x.replyFiles = [] then some []
    else if x.replyFiles.length ≤ Client.cmsgMaxSize / 4 then some [.scmRights x.replyFiles]
    else none

/-- The client receives the answer, once it has written its message. -/
def receive (p : Platform) (n : ℕ) (failure : ℕ → Call → Option String) (x : Exchange) :
    Option Exchange :=
  if x.connected.isNone ∧ x.unsent = [] ∧ x.accepted.isSome ∧ 0 < n then
    some { x with
      connected := some (Client.awaitSession ⟨p.minimumFileSize, failure⟩ x.logon
        (.ok (x.arrived n))) }
  else none

end Exchange

/-- The connections in the order of the backlog, the number of those that the server took from it,
and the one it serves. -/
structure Network where
  server : Server
  exchanges : List Exchange
  next : ℕ
  serving : Option ℕ

inductive Action where
  | connect (logon : ClientLogon) (versions : ProtocolVersions)
  | write (i n : ℕ)
  | giveUp (i : ℕ) (text : String)
  | take
  | read (n : ℕ) (late : Bool)
  | failRead (text : String)
  | finish (c : Circumstances)
  | receive (i n : ℕ) (failure : ℕ → Call → Option String)

namespace Network

def new : Network := ⟨Server.new, [], 0, none⟩

/-- The network with one more client. -/
def connected (p : Platform) (s : Network) (logon : ClientLogon)
    (versions : ProtocolVersions) : Network :=
  { s with exchanges := s.exchanges ++ [.opened p.host logon versions] }

/-- Changes one exchange, if it admits the change. -/
def update (s : Network) (i : ℕ) (change : Exchange → Option Exchange) : Option Network := do
  let x ← s.exchanges[i]?
  let y ← change x
  return { s with exchanges := s.exchanges.set i y }

def step (p : Platform) (s : Network) : Action → Option Network
  | .connect logon versions => some (s.connected p logon versions)
  | .write i n => s.update i (Exchange.write n)
  | .giveUp i text => s.update i (Exchange.giveUp text)
  | .take =>
      if s.serving = none ∧ s.next < s.exchanges.length then
        some { s with next := s.next + 1, serving := some s.next }
      else none
  | .read n late => do
      let i ← s.serving
      s.update i (Exchange.read n late)
  | .failRead text => do
      let i ← s.serving
      s.update i (Exchange.failRead text)
  | .finish c => do
      let i ← s.serving
      let x ← s.exchanges[i]?
      if x.Ready c then
        let answer := exec (Server.accept p.host p.current p.debug (x.connection p c)) s.server
        return { s with
          server := answer.2, serving := none, exchanges := s.exchanges.set i (x.answered answer) }
      else none
  | .receive i n failure => s.update i (Exchange.receive p n failure)

end Network

/-- Nothing fails, and the stream takes the whole of a rejection. -/
structure Circumstances.Smooth (c : Circumstances) : Prop where
  timeout : c.timeoutError = none
  willing : ∀ number call, c.failure number call = none
  send : c.sendError = none
  nonblocking : c.nonblockingError = none
  write : ∃ written, c.write = .ok written ∧ maxRejectionSize ≤ written

/-- Every stream works, no call fails, no time is up, and the answer is written and received in one
piece. -/
def Action.Smooth : Action → Prop
  | .connect _ _ | .write _ _ | .take => True
  | .giveUp _ _ | .failRead _ => False
  | .read _ late => late = false
  | .finish c => c.Smooth
  | .receive _ n failure => (∀ number call, failure number call = none) ∧ maxRejectionSize ≤ n

/-- The changes of one exchange other than the answer of the server, and whether each is smooth. -/
inductive Exchange.Moves (p : Platform) (x : Exchange) : Prop → Exchange → Prop
  | write (n : ℕ) (hclient : x.connected = none) (hserver : x.accepted = none) (hpos : 0 < n)
      (hle : n ≤ x.unsent.length) :
      Moves p x True
        { x with unsent := x.unsent.drop n, inFlight := x.inFlight ++ x.unsent.take n }
  | giveUp (text : String) (hclient : x.connected = none) :
      Moves p x False { x with connected := some (.error (.err (.io text))) }
  | readLate (n : ℕ) (hlast : x.last = none) (hpos : 0 < n) (hle : n ≤ x.inFlight.length)
      (hfits : x.chunks.flatten.length + n ≤ bufferSize) :
      Moves p x False
        { x with inFlight := x.inFlight.drop n, last := some (.data (x.inFlight.take n) true) }
  | read (n : ℕ) (hlast : x.last = none) (hpos : 0 < n) (hle : n ≤ x.inFlight.length)
      (hfits : x.chunks.flatten.length + n ≤ bufferSize) :
      Moves p x True
        { x with inFlight := x.inFlight.drop n, chunks := x.chunks ++ [x.inFlight.take n] }
  | failRead (text : String) (hlast : x.last = none)
      (hmore : x.chunks.flatten.length < bufferSize) :
      Moves p x False { x with last := some (.error text) }
  | receive (n : ℕ) (failure : ℕ → Call → Option String) (hclient : x.connected = none)
      (hsent : x.unsent = []) (hserver : x.accepted.isSome) (hpos : 0 < n) :
      Moves p x ((∀ number call, failure number call = none) ∧ maxRejectionSize ≤ n)
        { x with
          connected := some (Client.awaitSession ⟨p.minimumFileSize, failure⟩ x.logon
            (.ok (x.arrived n))) }

namespace Exchange

variable {p : Platform} {x y : Exchange}

theorem write_moves {n : ℕ} (h : x.write n = some y) : x.Moves p True y := by
  unfold write at h
  split at h
  case isTrue hc =>
    obtain ⟨hclient, hserver, hpos, hle⟩ := hc
    cases h
    exact .write n (by simpa using hclient) (by simpa using hserver) hpos hle
  case isFalse => cases h

theorem giveUp_moves {text : String} (h : x.giveUp text = some y) : x.Moves p False y := by
  unfold giveUp at h
  split at h
  case isTrue hc =>
    cases h
    exact .giveUp text (by simpa using hc)
  case isFalse => cases h

theorem read_moves {n : ℕ} {late : Bool} (h : x.read n late = some y) :
    ∃ smooth, (late = false → smooth) ∧ x.Moves p smooth y := by
  unfold read at h
  split at h
  case isTrue hc =>
    obtain ⟨hlast, hpos, hle, hfits⟩ := hc
    cases late with
    | true =>
      cases h
      exact ⟨False, by simp, .readLate n hlast hpos hle hfits⟩
    | false =>
      cases h
      exact ⟨True, by simp, .read n hlast hpos hle hfits⟩
  case isFalse => cases h

theorem failRead_moves {text : String} (h : x.failRead text = some y) : x.Moves p False y := by
  unfold failRead at h
  split at h
  case isTrue hc =>
    cases h
    exact .failRead text hc.1 hc.2
  case isFalse => cases h

theorem receive_moves {n : ℕ} {failure : ℕ → Call → Option String}
    (h : x.receive p n failure = some y) :
    x.Moves p ((∀ number call, failure number call = none) ∧ maxRejectionSize ≤ n) y := by
  unfold receive at h
  split at h
  case isTrue hc =>
    obtain ⟨hclient, hsent, hserver, hpos⟩ := hc
    cases h
    exact .receive n failure (by simpa using hclient) hsent hserver hpos
  case isFalse => cases h

end Exchange

/-- What an action of the parties does to the network, and whether it is smooth. -/
inductive Network.Steps (p : Platform) (s : Network) : Prop → Network → Prop
  | move {i : ℕ} {x y : Exchange} {smooth : Prop} (hx : s.exchanges[i]? = some x)
      (hmoves : x.Moves p smooth y) :
      Steps p s smooth { s with exchanges := s.exchanges.set i y }
  | take (hidle : s.serving = none) (hnext : s.next < s.exchanges.length) :
      Steps p s True { s with next := s.next + 1, serving := some s.next }
  | finish {c : Circumstances} {i : ℕ} {x : Exchange}
      {answer : Outcome AgaveHandshakeError AgaveSession × Server} (hserving : s.serving = some i)
      (hx : s.exchanges[i]? = some x) (hready : x.Ready c)
      (hanswer : exec (Server.accept p.host p.current p.debug (x.connection p c)) s.server =
        answer) :
      Steps p s c.Smooth { s with
        server := answer.2, serving := none, exchanges := s.exchanges.set i (x.answered answer) }

namespace Network

variable {p : Platform} {s s' : Network}

theorem update_eq_some {i : ℕ} {change : Exchange → Option Exchange} :
    s.update i change = some s' ↔ ∃ x y, s.exchanges[i]? = some x ∧ change x = some y ∧
      s' = { s with exchanges := s.exchanges.set i y } := by
  unfold update
  simp only [Option.bind_eq_bind, Option.bind_eq_some_iff, Option.pure_def, Option.some.injEq,
    eq_comm (a := s')]
  constructor
  · rintro ⟨x, hx, y, hy, hs⟩
    exact ⟨x, y, hx, hy, hs⟩
  · rintro ⟨x, y, hx, hy, hs⟩
    exact ⟨x, hx, y, hy, hs⟩

/-- A step is that of a new client, or one of the parties. -/
theorem step_cases {a : Action} (h : s.step p a = some s') :
    (∃ logon versions, a = .connect logon versions ∧ s' = s.connected p logon versions) ∨
      ∃ smooth, (a.Smooth → smooth) ∧ Steps p s smooth s' := by
  cases a with
  | connect logon versions =>
    cases h
    exact .inl ⟨logon, versions, rfl, rfl⟩
  | write i n =>
    obtain ⟨x, y, hx, hy, rfl⟩ := update_eq_some.mp h
    exact .inr ⟨True, by simp, .move hx (Exchange.write_moves hy)⟩
  | giveUp i text =>
    obtain ⟨x, y, hx, hy, rfl⟩ := update_eq_some.mp h
    exact .inr ⟨False, id, .move hx (Exchange.giveUp_moves hy)⟩
  | take =>
    simp only [step] at h
    split at h
    case isTrue hc =>
      cases h
      exact .inr ⟨True, by simp, .take hc.1 hc.2⟩
    case isFalse => cases h
  | read n late =>
    obtain ⟨i, -, hu⟩ := Option.bind_eq_some_iff.mp h
    obtain ⟨x, y, hx, hy, rfl⟩ := update_eq_some.mp hu
    obtain ⟨smooth, hsmooth, hmoves⟩ := Exchange.read_moves hy
    exact .inr ⟨smooth, hsmooth, .move hx hmoves⟩
  | failRead text =>
    obtain ⟨i, -, hu⟩ := Option.bind_eq_some_iff.mp h
    obtain ⟨x, y, hx, hy, rfl⟩ := update_eq_some.mp hu
    exact .inr ⟨False, id, .move hx (Exchange.failRead_moves hy)⟩
  | finish c =>
    obtain ⟨i, hi, h⟩ := Option.bind_eq_some_iff.mp h
    obtain ⟨x, hx, h⟩ := Option.bind_eq_some_iff.mp h
    split at h
    case isTrue hc =>
      cases h
      exact .inr ⟨c.Smooth, id, .finish hi hx hc rfl⟩
    case isFalse => cases h
  | receive i n failure =>
    obtain ⟨x, y, hx, hy, rfl⟩ := update_eq_some.mp h
    exact .inr ⟨_, id, .move hx (Exchange.receive_moves hy)⟩

end Network
end AgaveSdk.SchedulerHandshake
