import Mathlib
import ZiranOS.Lib.Run
import ZiranOS.Lib.Window
import ZiranOS.Bridge.Session

/-!
# The bridge as a state machine

The bridge is one process that runs every handler to completion, so an event is one synchronous
stretch of code.  The connection handler has two of them: `connect` runs the admission checks up to
the `await` of the human check, and `verified` is the rest, from the answer of the human check to
the reservation of a slot.  In between any other events may happen.

The events also follow the emitters.  A listener is attached to a socket only after its slot is
reserved; an `error` event without a listener, like an exception that nobody catches, terminates
the process, which is what `alive` records.  No guest ever gets a listener for the `error` events
of its process or of its stdin.

Times come with the events and do not run backwards.  `spawnLog` is the only field the code does
not have: it keeps every time that was ever pushed on `spawnTimes`.
-/

namespace ZiranOS

open ProgLib

/-! ## Connections -/

/-- How far the handler of a connection has come. -/
inductive Phase where
  /-- Awaiting the human check. -/
  | awaiting
  /-- Rejected. -/
  | rejected
  /-- The client was gone when the human check was answered. -/
  | vanished
  /-- A slot was reserved and a guest spawned; the session may have been cleaned since. -/
  | reserved (session : Session)
  deriving DecidableEq, Repr

/-- A slot was reserved, and with it the listeners of the socket were attached. -/
def Phase.isReserved : Phase → Bool
  | .reserved _ => true
  | _ => false

variable {Ip : Type} [DecidableEq Ip]

/-- A connected client. -/
structure Conn (Ip : Type) where
  ip : Ip
  token : Option (List Char)
  ws : ReadyState
  phase : Phase
  deriving DecidableEq, Repr

/-- The state of the bridge. -/
structure Bridge (Ip : Type) where
  /-- The process is running. -/
  alive : Bool
  live : ℕ
  spawned : ℕ
  rejected : ℕ
  livePerIp : Ip → Option ℕ
  rateHits : Ip → Option (List ℕ)
  spawnTimes : List ℕ
  /-- The connections, in the order in which they came. -/
  conns : List (Conn Ip)
  /-- The latest time that was read. -/
  clock : ℕ
  /-- Every time that was pushed on `spawnTimes`. -/
  spawnLog : List ℕ

/-- An hour in milliseconds. -/
def hourMs : ℕ := 3600000

/-- The number of live sessions of an address. -/
def Bridge.liveOf (b : Bridge Ip) (ip : Ip) : ℕ := (b.livePerIp ip).getD 0

namespace Bridge

/-- The bridge at its start. -/
def init : Bridge Ip where
  alive := true
  live := 0
  spawned := 0
  rejected := 0
  livePerIp := fun _ => none
  rateHits := fun _ => none
  spawnTimes := []
  conns := []
  clock := 0
  spawnLog := []

/-! ## Admission -/

/-- Forget the spawns that are more than an hour old and compare the rest with the budget. -/
def overHourlyBudget (config : Config) (b : Bridge Ip) (now : ℕ) : Bridge Ip × Bool :=
  let times := prune hourMs now b.spawnTimes
  ({ b with spawnTimes := times }, decide (times.length ≥ config.hourlyBudget))

/-- Record a hit of the address and compare the hits of the current window with the limit. -/
def rateLimited (config : Config) (b : Bridge Ip) (ip : Ip) (now : ℕ) : Bridge Ip × Bool :=
  let hits := (((b.rateHits ip).getD []).filter fun t => decide (now - t < config.rateWindowMs)) ++
    [now]
  ({ b with rateHits := Function.update b.rateHits ip (some hits) },
    decide (hits.length > config.rateMax))

/-- The human check: passed without a secret, failed without a token, else the answer of the
verification service. -/
def verifyTurnstile (config : Config) (token : Option (List Char)) (success : Bool) : Bool :=
  if config.turnstileSecret = [] then true
  else if token.getD [] = [] then false
  else success

/-- Turn a new client away. -/
def rejectNew (b : Bridge Ip) (ip : Ip) : Bridge Ip :=
  { b with rejected := b.rejected + 1, conns := b.conns ++ [⟨ip, none, .closing, .rejected⟩] }

/-- The connection handler up to the human check, with `t₁` and `t₂` the times at which the hourly
budget and the rate limit are looked up. -/
def connect (host : Host) (config : Config) (b : Bridge Ip) (ip : Ip) (url : List Char)
    (paused : Bool) (t₁ t₂ : ℕ) : Bridge Ip :=
  if paused then b.rejectNew ip
  else
    let (b, full) := b.overHourlyBudget config t₁
    if full then b.rejectNew ip
    else
      let (b, limited) := b.rateLimited config ip t₂
      if limited then b.rejectNew ip
      else if b.live ≥ config.maxConcurrent then b.rejectNew ip
      else if b.liveOf ip ≥ config.maxPerIp then b.rejectNew ip
      else
        match host.searchToken url with
        -- the exception rejects the promise of the handler, which nobody handles
        | none => { b with alive := false }
        | some token => { b with conns := b.conns ++ [⟨ip, token, .open, .awaiting⟩] }

/-! ## Reservation and cleanup -/

/-- Replace the connection with index `i`. -/
def setConn (b : Bridge Ip) (i : ℕ) (c : Conn Ip) : Bridge Ip :=
  { b with conns := b.conns.set i c }

/-- Count a new session of the address, spawned at time `t`. -/
def reserve (b : Bridge Ip) (ip : Ip) (t : ℕ) : Bridge Ip :=
  { b with
    live := b.live + 1
    spawned := b.spawned + 1
    livePerIp := Function.update b.livePerIp ip (some (b.liveOf ip + 1))
    spawnTimes := b.spawnTimes ++ [t]
    spawnLog := b.spawnLog ++ [t] }

/-- Uncount a session of the address. -/
def release (b : Bridge Ip) (ip : Ip) : Bridge Ip :=
  { b with
    live := b.live - 1
    livePerIp := Function.update b.livePerIp ip (some ((b.livePerIp ip).getD 1 - 1)) }

/-- The connection handler from the answer of the human check on, at time `t`. -/
def verified (host : Host) (config : Config) (b : Bridge Ip) (i : ℕ) (c : Conn Ip) (success : Bool)
    (flag : List Char) (t : ℕ) : Bridge Ip :=
  if !verifyTurnstile config c.token success then
    ({ b with rejected := b.rejected + 1 } : Bridge Ip).setConn i
      { c with ws := c.ws.close, phase := .rejected }
  else if c.ws ≠ .open then
    -- client vanished during verify
    b.setConn i { c with phase := .vanished }
  else
    (b.reserve c.ip t).setConn i { c with phase := .reserved (Session.start host flag) }

/-- Clean the session of the connection `c` with index `i` unless that was done before. -/
def cleanup (b : Bridge Ip) (i : ℕ) (c : Conn Ip) (s : Session) : Bridge Ip :=
  if s.cleaned then b.setConn i { c with phase := .reserved s }
  else
    let s := { s.kill with hardTimer := false, idleTimer := false, cleaned := true }
    (b.release c.ip).setConn i { c with phase := .reserved s }

end Bridge

/-! ## Events -/

/-- What can happen to the bridge.  Every event but `connect` belongs to the connection with the
given index. -/
inductive BridgeEvent (Ip : Type) where
  /-- A client connects. -/
  | connect (ip : Ip) (url : List Char) (paused : Bool) (t₁ t₂ : ℕ)
  /-- The human check is answered; `flag` is the flag minted if a guest is spawned. -/
  | verified (i : ℕ) (success : Bool) (flag : List Char) (t : ℕ)
  /-- The peer starts closing the socket. -/
  | wsClosing (i : ℕ)
  /-- The socket emits `close`. -/
  | wsClose (i : ℕ)
  /-- The socket emits `error`. -/
  | wsError (i : ℕ)
  /-- The socket emits `message`. -/
  | message (i : ℕ) (buf : List UInt8)
  /-- The lifetime timer fires. -/
  | hardTimeout (i : ℕ)
  /-- The idle timer fires. -/
  | idleTimeout (i : ℕ)
  /-- The guest prints, with `backlog` bytes waiting in the socket. -/
  | stdout (i backlog : ℕ)
  /-- The guest process starts. -/
  | guestStarts (i : ℕ)
  /-- The guest process dies. -/
  | guestDies (i : ℕ)
  /-- The guest emits `exit`. -/
  | exit (i : ℕ)
  /-- The guest could not be started and emits `error`. -/
  | childError (i : ℕ)
  /-- The stdin of the guest emits `error`. -/
  | stdinError (i : ℕ)
  deriving DecidableEq, Repr

namespace Bridge

/-- The effect of an event on the connection `c` with index `i`, `none` when the event is not
possible in its phase.  Times and the process are handled by `step`. -/
def onConn (host : Host) (config : Config) (b : Bridge Ip) (i : ℕ) (c : Conn Ip) :
    BridgeEvent Ip → Option (Bridge Ip)
  | .connect .. => none
  | .verified _ success flag t =>
    if c.phase = .awaiting ∧ b.clock ≤ t then
      some { b.verified host config i c success flag t with clock := t }
    else none
  | .wsClosing _ => if c.ws = .open then some (b.setConn i { c with ws := .closing }) else none
  | .wsClose _ =>
    if c.ws = .closed then none
    else
      let c := { c with ws := .closed }
      match c.phase with
      | .reserved s => some (b.cleanup i c s)
      | _ => some (b.setConn i c)
  | .wsError _ =>
    if c.ws = .closed then none
    else
      let c := { c with ws := c.ws.close }
      match c.phase with
      | .reserved s => some (b.cleanup i c s)
      -- no listener yet, or none any more to come
      | _ => some { b with alive := false }
  | .message _ buf =>
    if c.ws = .closed ∨ buf.length > config.maxMsgBytes then none
    else
      match c.phase with
      | .reserved s =>
        let (s, ws) := s.message host config c.ws buf
        some (b.setConn i { c with ws := ws, phase := .reserved s })
      -- no listener: the message is dropped
      | _ => some b
  | .hardTimeout _ =>
    match c.phase with
    | .reserved s =>
      if s.hardTimer then
        some (b.setConn i
          { c with ws := c.ws.close, phase := .reserved { s.kill with hardTimer := false } })
      else none
    | _ => none
  | .idleTimeout _ =>
    match c.phase with
    | .reserved s =>
      if s.idleTimer then
        some (b.setConn i
          { c with ws := c.ws.close, phase := .reserved { s.kill with idleTimer := false } })
      else none
    | _ => none
  | .stdout _ backlog =>
    match c.phase with
    | .reserved s =>
      if s.guest = .starting then none
      else
        let (s, ws) := s.stdout config c.ws backlog
        some (b.setConn i { c with ws := ws, phase := .reserved s })
    | _ => none
  | .guestStarts _ =>
    match c.phase with
    | .reserved s =>
      if s.guest = .starting then
        some (b.setConn i { c with phase := .reserved { s with guest := .running } })
      else none
    | _ => none
  | .guestDies _ =>
    match c.phase with
    | .reserved s =>
      if s.guest = .running then
        some (b.setConn i { c with phase := .reserved { s with guest := .dead } })
      else none
    | _ => none
  | .exit _ =>
    match c.phase with
    | .reserved s =>
      if s.guest = .dead then
        some (b.cleanup i { c with ws := c.ws.close } { s with guest := .exited })
      else none
    | _ => none
  | .childError _ =>
    match c.phase with
    | .reserved s => if s.guest = .starting then some { b with alive := false } else none
    | _ => none
  | .stdinError _ =>
    match c.phase with
    | .reserved s => if s.brokenPipe then some { b with alive := false } else none
    | _ => none

end Bridge

/-- The index of the connection an event belongs to; a new connection comes last. -/
def BridgeEvent.target (b : Bridge Ip) : BridgeEvent Ip → ℕ
  | .connect .. => b.conns.length
  | .verified i .. | .wsClosing i | .wsClose i | .wsError i | .message i _ | .hardTimeout i
  | .idleTimeout i | .stdout i _ | .guestStarts i | .guestDies i | .exit i | .childError i
  | .stdinError i => i

namespace Bridge

/-- One event of the bridge, `none` when it is not possible. -/
def step (host : Host) (config : Config) (b : Bridge Ip) (e : BridgeEvent Ip) :
    Option (Bridge Ip) :=
  if !b.alive then none
  else
    match e with
    | .connect ip url paused t₁ t₂ =>
      if b.clock ≤ t₁ ∧ t₁ ≤ t₂ then
        some { b.connect host config ip url paused t₁ t₂ with clock := t₂ }
      else none
    | e =>
      match b.conns[e.target b]? with
      | none => none
      | some c => b.onConn host config (e.target b) c e

/-- The step relation of the bridge. -/
def Steps (host : Host) (config : Config) (b : Bridge Ip) (e : BridgeEvent Ip)
    (b' : Bridge Ip) : Prop :=
  b.step host config e = some b'

end Bridge

end ZiranOS
