import ZiranOS.Lib.Exec
import ZiranOS.Lib.Run

/-!
# The loopback interface

A socket is an address with a receive queue.  `send` appends a frame to the transmit queue of the
device, `poll` moves every frame of that queue to the receive queue of its destination or drops it,
and `recv` takes a frame from a receive queue.

`Net` is the interface once it is installed.  A call names the address of its socket, so that the
runs of this file include calls through handles that no longer exist.
-/

namespace ZiranOS

open ProgLib

/-- The largest payload of a frame. -/
def mtu : ℕ := 1500

/-- A frame: who sent it, whom it is for, and its bytes. -/
structure Frame where
  src : UInt16
  dst : UInt16
  payload : List UInt8
  deriving DecidableEq, Repr

/-- Why a call of a socket failed. -/
inductive NetError where
  | addrInUse
  | tooLong
  deriving DecidableEq, Repr

/-- The interface: its transmit queue, the receive queues of the bound addresses, and the number of
frames that no socket owned. -/
structure Net where
  tx : List Frame
  sockets : UInt16 → Option (List Frame)
  dropped : ℕ

namespace Net

/-- The interface at its start. -/
def new : Net := ⟨[], fun _ => none, 0⟩

/-- Set the receive queue of an address, or remove it. -/
def setQueue (net : Net) (addr : UInt16) (q : Option (List Frame)) : Net :=
  { net with sockets := Function.update net.sockets addr q }

@[simp] lemma setQueue_tx (net : Net) (addr : UInt16) (q : Option (List Frame)) :
    (net.setQueue addr q).tx = net.tx := rfl

@[simp] lemma setQueue_dropped (net : Net) (addr : UInt16) (q : Option (List Frame)) :
    (net.setQueue addr q).dropped = net.dropped := rfl

@[simp] lemma setQueue_sockets (net : Net) (addr : UInt16) (q : Option (List Frame))
    (a : UInt16) : (net.setQueue addr q).sockets a = if a = addr then q else net.sockets a :=
  Function.update_apply ..

/-! ## The calls -/

/-- Bind an address that is free. -/
def bind (net : Net) (addr : UInt16) : Except NetError Net :=
  if (net.sockets addr).isSome then .error .addrInUse
  else .ok (net.setQueue addr (some []))

/-- Queue a frame on the device. -/
def send (net : Net) (src dst : UInt16) (bytes : List UInt8) : Except NetError Net :=
  if bytes.length > mtu then .error .tooLong
  else .ok { net with tx := net.tx ++ [⟨src, dst, bytes⟩] }

/-- Take the next frame of the receive queue of an address. -/
def recv (net : Net) (addr : UInt16) : Net × Option Frame :=
  match net.sockets addr with
  | none => (net, none)
  | some [] => (net, none)
  | some (frame :: rx) => (net.setQueue addr (some rx), some frame)

/-- Unbind an address; its receive queue is discarded. -/
def close (net : Net) (addr : UInt16) : Net := net.setQueue addr none

/-- Deliver a frame to its destination, or drop it. -/
def route (net : Net) (delivered : ℕ) (frame : Frame) : Exec Unit (Net × ℕ) :=
  match net.sockets frame.dst with
  | some rx => do
    let delivered ← addUsize delivered 1
    pure (net.setQueue frame.dst (some (rx ++ [frame])), delivered)
  | none => do
    let dropped ← addUsize net.dropped 1
    pure ({ net with dropped }, delivered)

/-- The loop of `poll`, with the frames that are left in the transmit queue. -/
def pollLoop : List Frame → Net → ℕ → Exec Unit (Net × ℕ)
  | [], net, delivered => pure ({ net with tx := [] }, delivered)
  | frame :: tx, net, delivered => do
    let (net, delivered) ← route { net with tx } delivered frame
    pollLoop tx net delivered

/-- Drain the transmit queue; the result is the number of frames that were delivered. -/
def poll (net : Net) : Exec Unit (Net × ℕ) := pollLoop net.tx net 0

end Net

/-- A call of a socket or of the device. -/
inductive NetCall where
  | bind (addr : UInt16)
  | send (src dst : UInt16) (bytes : List UInt8)
  | recv (addr : UInt16)
  | close (addr : UInt16)
  | poll
  deriving DecidableEq, Repr

/-- What a call returns. -/
inductive NetReply where
  | done
  | error (e : NetError)
  | frame (frame : Option Frame)
  | delivered (n : ℕ)
  deriving DecidableEq, Repr

namespace Net

/-- The reply of a call that can fail; the interface is unchanged if it does. -/
def reply (net : Net) : Except NetError Net → Net × NetReply
  | .ok net' => (net', .done)
  | .error e => (net, .error e)

/-- Run a call. -/
def call (net : Net) : NetCall → Exec Unit (Net × NetReply)
  | .bind addr => pure (net.reply (net.bind addr))
  | .send src dst bytes => pure (net.reply (net.send src dst bytes))
  | .recv addr => pure ((net.recv addr).1, .frame (net.recv addr).2)
  | .close addr => pure (net.close addr, .done)
  | .poll => do
    let (net', n) ← net.poll
    pure (net', .delivered n)

/-- One call with its reply. -/
def Steps (net : Net) (x : NetCall × NetReply) (net' : Net) : Prop :=
  net.call x.1 = .ok (net', x.2)

/-! ## What a call does -/

/-- The receive queue of an address; an address that is not bound has none. -/
def rx (net : Net) (addr : UInt16) : List Frame := (net.sockets addr).getD []

/-- The number of frames in the receive queues. -/
def queued (net : Net) : ℕ := ∑ addr, (net.rx addr).length

variable {net net' : Net}

/-- The number of queued frames after the queue of one address changed. -/
lemma queued_setQueue (net : Net) (addr : UInt16) (q : Option (List Frame)) :
    (net.setQueue addr q).queued + (net.rx addr).length = net.queued + (q.getD []).length := by
  have hmem := Finset.mem_univ addr
  have hrest : ∀ a ∈ Finset.univ.erase addr,
      ((net.setQueue addr q).rx a).length = (net.rx a).length := by
    intro a ha
    rw [rx, setQueue_sockets, if_neg (Finset.ne_of_mem_erase ha), rx]
  rw [queued, queued, ← Finset.add_sum_erase _ _ hmem, ← Finset.add_sum_erase _ _ hmem,
    Finset.sum_congr rfl hrest, rx, setQueue_sockets, if_pos rfl]
  omega

/-- Routing a frame appends it to the receive queue of its destination, or counts it as dropped. -/
lemma route_spec {delivered n : ℕ} {frame : Frame}
    (h : net.route delivered frame = .ok (net', n)) :
    (∀ a, net'.sockets a =
        (net.sockets a).map fun rx => rx ++ [frame].filter fun f => f.dst = a) ∧
      net'.queued + delivered = net.queued + n ∧ net.dropped ≤ net'.dropped ∧
      n + net'.dropped = delivered + net.dropped + 1 := by
  unfold route at h
  cases hrx : net.sockets frame.dst with
  | some rx =>
    rw [hrx] at h
    obtain ⟨m, hm, heq⟩ := Exec.bind_eq_ok.mp h
    obtain rfl := eq_of_addUsize hm
    obtain ⟨rfl, rfl⟩ := Prod.mk.inj (Except.ok.inj heq)
    have hq := net.queued_setQueue frame.dst (some (rx ++ [frame]))
    simp only [Net.rx, hrx, Option.getD_some, List.length_append, List.length_singleton] at hq
    refine ⟨fun a => ?_, by omega, le_rfl, by rw [setQueue_dropped]; omega⟩
    rw [setQueue_sockets]
    split_ifs with ha
    · simp [ha, hrx]
    · simp [Ne.symm ha]
  | none =>
    rw [hrx] at h
    obtain ⟨m, hm, heq⟩ := Exec.bind_eq_ok.mp h
    obtain rfl := eq_of_addUsize hm
    obtain ⟨rfl, rfl⟩ := Prod.mk.inj (Except.ok.inj heq)
    refine ⟨fun a => ?_, rfl, Nat.le_succ _, by simp only []; omega⟩
    rcases eq_or_ne a frame.dst with rfl | hne
    · simp [hrx]
    · simp [hne.symm]

/-- **The loop of `poll`** empties the transmit queue; every bound address gets the frames for it,
in their order, and every frame is delivered or dropped. -/
lemma pollLoop_spec {tx : List Frame} {delivered n : ℕ}
    (h : pollLoop tx net delivered = .ok (net', n)) :
    net'.tx = [] ∧
      (∀ a, net'.sockets a = (net.sockets a).map fun rx => rx ++ tx.filter fun f => f.dst = a) ∧
      net'.queued + delivered = net.queued + n ∧ net.dropped ≤ net'.dropped ∧
      n + net'.dropped = delivered + net.dropped + tx.length := by
  induction tx generalizing net delivered with
  | nil =>
    obtain ⟨rfl, rfl⟩ := Prod.mk.inj (Except.ok.inj h)
    exact ⟨rfl, fun a => by simp, rfl, le_rfl, rfl⟩
  | cons frame tx ih =>
    obtain ⟨⟨mid, m⟩, hroute, hrest⟩ := Exec.bind_eq_ok.mp h
    obtain ⟨hsock, hqueued, hmono, hcount⟩ := route_spec hroute
    obtain ⟨htx, hsock', hqueued', hmono', hcount'⟩ := ih hrest
    refine ⟨htx, fun a => ?_, ?_, le_trans hmono hmono', ?_⟩
    · rw [hsock', hsock, Option.map_map]
      congr 1
      funext rx
      rw [Function.comp_apply, List.append_assoc, ← List.filter_append, List.singleton_append]
    · have hsame : queued { net with tx := tx } = net.queued := rfl
      omega
    · simp only [List.length_cons] at hcount hcount' ⊢
      omega

/-- The effect of a call on the interface. -/
inductive Effect (net : Net) : NetCall × NetReply → Net → Prop
  /-- A free address is bound to an empty queue. -/
  | bound (addr : UInt16) (h : net.sockets addr = none) :
    Effect net (.bind addr, .done) (net.setQueue addr (some []))
  /-- A bound address is not bound again. -/
  | inUse (addr : UInt16) (h : (net.sockets addr).isSome) :
    Effect net (.bind addr, .error .addrInUse) net
  /-- A frame is queued for transmission. -/
  | sent (src dst : UInt16) (bytes : List UInt8) (h : bytes.length ≤ mtu) :
    Effect net (.send src dst bytes, .done) { net with tx := net.tx ++ [⟨src, dst, bytes⟩] }
  /-- A payload is too long. -/
  | tooLong (src dst : UInt16) (bytes : List UInt8) (h : mtu < bytes.length) :
    Effect net (.send src dst bytes, .error .tooLong) net
  /-- Nothing is there to be received. -/
  | empty (addr : UInt16) (h : net.rx addr = []) : Effect net (.recv addr, .frame none) net
  /-- The first frame of a receive queue is taken. -/
  | received (addr : UInt16) (frame : Frame) (rx : List Frame)
    (h : net.sockets addr = some (frame :: rx)) :
    Effect net (.recv addr, .frame (some frame)) (net.setQueue addr (some rx))
  /-- A receive queue is discarded. -/
  | closed (addr : UInt16) : Effect net (.close addr, .done) (net.setQueue addr none)
  /-- The transmit queue is drained. -/
  | polled (n : ℕ) (net' : Net) (htx : net'.tx = [])
    (hsockets : ∀ a, net'.sockets a =
      (net.sockets a).map fun rx => rx ++ net.tx.filter fun frame => frame.dst = a)
    (hqueued : net'.queued = net.queued + n) (hmono : net.dropped ≤ net'.dropped)
    (hcount : n + net'.dropped = net.dropped + net.tx.length) :
    Effect net (.poll, .delivered n) net'

/-- **Every call has one of the effects.** -/
lemma steps_effect {x : NetCall × NetReply} (h : net.Steps x net') : net.Effect x net' := by
  obtain ⟨call, reply⟩ := x
  unfold Steps Net.call at h
  cases call with
  | bind addr =>
    obtain ⟨rfl, rfl⟩ := Prod.mk.inj (Except.ok.inj h)
    unfold bind
    split_ifs with hbound
    · exact .inUse addr hbound
    · exact .bound addr (Option.not_isSome_iff_eq_none.mp hbound)
  | send src dst bytes =>
    obtain ⟨rfl, rfl⟩ := Prod.mk.inj (Except.ok.inj h)
    unfold send
    split_ifs with hlong
    · exact .tooLong src dst bytes hlong
    · exact .sent src dst bytes (Nat.le_of_not_lt hlong)
  | recv addr =>
    obtain ⟨rfl, rfl⟩ := Prod.mk.inj (Except.ok.inj h)
    unfold recv
    split
    · next hrx => exact .empty addr (by rw [rx, hrx]; rfl)
    · next hrx => exact .empty addr (by rw [rx, hrx]; rfl)
    · next frame rx hrx => exact .received addr frame rx hrx
  | close addr =>
    obtain ⟨rfl, rfl⟩ := Prod.mk.inj (Except.ok.inj h)
    exact .closed addr
  | poll =>
    obtain ⟨⟨drained, n⟩, hpoll, heq⟩ := Exec.bind_eq_ok.mp h
    obtain ⟨rfl, rfl⟩ := Prod.mk.inj (Except.ok.inj heq)
    obtain ⟨htx, hsockets, hqueued, hmono, hcount⟩ := pollLoop_spec hpoll
    rw [Nat.add_zero] at hqueued
    rw [Nat.zero_add] at hcount
    exact .polled n drained htx hsockets hqueued hmono hcount

end Net

end ZiranOS
