import Mathlib

/-!
# One session of the bridge

A session connects one WebSocket to one guest.  This file holds what belongs to a single session:
the socket's ready state, the life of the guest process, and the handler of client messages, which
counts every byte, answers flag submissions on the control channel and writes everything else to
the guest's standard input.

What the bridge takes from its host (JSON parsing, `trim`, the hash) enters through `Host`.
-/

namespace ZiranOS

/-! ## Configuration and host -/

/-- The limits of the bridge. -/
structure Config where
  maxConcurrent : ℕ
  maxPerIp : ℕ
  rateWindowMs : ℕ
  rateMax : ℕ
  hourlyBudget : ℕ
  maxMsgBytes : ℕ
  maxInBytes : ℕ
  maxWsBacklog : ℕ
  submitMax : ℕ
  honeytoken : List Char
  turnstileSecret : List Char

/-- The default limits; `turnstileSecret` has to be set to ask for a human check. -/
def Config.default (honeytoken turnstileSecret : List Char) : Config :=
  ⟨12, 2, 60000, 10, 1000, 262144, 4194304, 8388608, 30, honeytoken, turnstileSecret⟩

/-- The functions of the host that the bridge applies to client data. -/
structure Host where
  /-- `new URL(url, ..).searchParams.get('t')`; `none` when the constructor throws. -/
  searchToken : List Char → Option (Option (List Char))
  /-- The flag of a control frame that parses as a submission, `none` for any other frame. -/
  parseSubmit : List UInt8 → Option (List Char)
  /-- `String.prototype.trim`. -/
  trim : List Char → List Char
  /-- The hex digest of a string. -/
  sha256 : List Char → List UInt8

/-! ## Sockets and guests -/

/-- The ready state of a connected WebSocket. -/
inductive ReadyState where
  | open
  | closing
  | closed
  deriving DecidableEq, Repr

/-- `ws.close(..)`: an open socket starts closing. -/
def ReadyState.close : ReadyState → ReadyState
  | .open => .closing
  | ws => ws

/-- The life of a guest process.  It is `dead` from its death until its `exit` event is
delivered; a guest that cannot be started never runs. -/
inductive Guest where
  | starting
  | running
  | dead
  | exited
  deriving DecidableEq, Repr

/-- The stdin stream of a guest is destroyed when its `exit` event is delivered. -/
def Guest.writable (guest : Guest) : Bool := guest != .exited

/-! ## Sessions -/

/-- The answer to a flag submission. -/
inductive Verdict where
  | correct
  | honeytoken
  | incorrect
  deriving DecidableEq, Repr

/-- A reserved session. -/
structure Session where
  flagHash : List UInt8
  guest : Guest
  /-- `SIGKILL` has been sent to the guest. -/
  killed : Bool
  /-- The bytes written to the guest. -/
  stdin : List UInt8
  /-- Bytes were written to a dead guest. -/
  brokenPipe : Bool
  inBytes : ℕ
  submits : ℕ
  /-- The answers sent on the control channel. -/
  replies : List Verdict
  /-- The lifetime timer is armed. -/
  hardTimer : Bool
  /-- The idle timer is armed. -/
  idleTimer : Bool
  cleaned : Bool
  deriving DecidableEq, Repr

/-- The prefix of a control frame. -/
def ctl : List UInt8 := [0x00, 0x43, 0x54, 0x4C]

namespace Session

/-- A session right after its slot was reserved and its guest spawned. -/
def start (host : Host) (flag : List Char) : Session where
  flagHash := host.sha256 flag
  guest := .starting
  killed := false
  stdin := []
  brokenPipe := false
  inBytes := 0
  submits := 0
  replies := []
  hardTimer := true
  idleTimer := true
  cleaned := false

/-- Send `SIGKILL` to the guest. -/
def kill (s : Session) : Session := { s with killed := true }

/-- Send an answer if the socket is open. -/
def sendCtl (s : Session) (ws : ReadyState) (verdict : Verdict) : Session :=
  if ws = .open then { s with replies := s.replies ++ [verdict] } else s

/-- Examine a control frame, up to the cap on submissions. -/
def handleControl (host : Host) (config : Config) (s : Session) (ws : ReadyState)
    (json : List UInt8) : Session :=
  if s.submits ≥ config.submitMax then s
  else
    let s := { s with submits := s.submits + 1 }
    match host.parseSubmit json with
    | none => s
    | some flag =>
      let h := host.sha256 (host.trim flag)
      if h = s.flagHash then s.sendCtl ws .correct
      else if config.honeytoken ≠ [] ∧ h = host.sha256 config.honeytoken then
        s.sendCtl ws .honeytoken
      else s.sendCtl ws .incorrect

/-- Write to the guest if its stdin still is writable. -/
def writeStdin (s : Session) (buf : List UInt8) : Session :=
  if s.guest.writable then
    { s with stdin := s.stdin ++ buf, brokenPipe := s.brokenPipe || s.guest == .dead }
  else s

/-- The handler of a client message: the idle timer is rearmed, every byte is counted, and the
message goes to the control channel or to the guest. -/
def message (host : Host) (config : Config) (s : Session) (ws : ReadyState) (buf : List UInt8) :
    Session × ReadyState :=
  let s := { s with idleTimer := true, inBytes := s.inBytes + buf.length }
  if s.inBytes > config.maxInBytes then (s.kill, ws.close)
  else if ctl.isPrefixOf buf then (s.handleControl host config ws (buf.drop ctl.length), ws)
  else (s.writeStdin buf, ws)

/-- The handler of guest output, with `backlog` bytes waiting in the socket: a client that cannot
keep up is killed. -/
def stdout (config : Config) (s : Session) (ws : ReadyState) (backlog : ℕ) :
    Session × ReadyState :=
  if ws ≠ .open then (s, ws)
  else if backlog > config.maxWsBacklog then (s.kill, ws.close)
  else (s, ws)

/-- Nothing was received, written to the guest or answered; a stdin that is writable was so
before. -/
structure SameTraffic (s s' : Session) : Prop where
  flagHash : s'.flagHash = s.flagHash
  stdin : s'.stdin = s.stdin
  inBytes : s'.inBytes = s.inBytes
  submits : s'.submits = s.submits
  replies : s'.replies = s.replies
  writable : s'.guest.writable = true → s.guest.writable = true

/-- Guest output is not traffic from the client. -/
lemma sameTraffic_stdout (config : Config) (s : Session) (ws : ReadyState) (backlog : ℕ) :
    SameTraffic s (s.stdout config ws backlog).1 := by
  unfold stdout
  split_ifs <;> exact ⟨rfl, rfl, rfl, rfl, rfl, id⟩

/-- A client message does not clean the session. -/
@[simp] lemma message_cleaned (host : Host) (config : Config) (s : Session) (ws : ReadyState)
    (buf : List UInt8) : (s.message host config ws buf).1.cleaned = s.cleaned := by
  simp only [message, kill, handleControl, sendCtl, writeStdin]
  grind

/-- Guest output does not clean the session. -/
@[simp] lemma stdout_cleaned (config : Config) (s : Session) (ws : ReadyState) (backlog : ℕ) :
    (s.stdout config ws backlog).1.cleaned = s.cleaned := by
  simp only [stdout, kill]
  grind

end Session

end ZiranOS
