import ZiranOS.Net.Loopback

/-!
# Delivery over the loopback interface

A run of the interface is read as a history: the frames that were sent, the frames that `poll`
drained, the frames that a socket received.  Between a `bind` and the next `close` of its address, a
socket receives the frames for it that are drained in that time, in the order in which they were
sent; and every frame that was sent is somewhere (`loopback_delivery`).
-/

namespace ZiranOS

open ProgLib

namespace Net

/-- A call with the states before and after it. -/
abbrev Call := Transition Net (NetCall × NetReply)

/-! ## The history of a run -/

/-- The frame that a call sends successfully. -/
def sentBy (x : Call) : List Frame :=
  match x.event with
  | (.send src dst bytes, .done) => [⟨src, dst, bytes⟩]
  | _ => []

/-- The frames that a poll takes from the transmit queue. -/
def drainedBy (x : Call) : List Frame :=
  match x.event.1 with
  | .poll => x.pre.tx
  | _ => []

/-- The frame that a call receives. -/
def receivedBy (x : Call) : List Frame :=
  match x.event with
  | (.recv _, .frame (some frame)) => [frame]
  | _ => []

/-- The frame that the socket at `addr` receives. -/
def receivedAt (addr : UInt16) (x : Call) : List Frame :=
  if x.event.1 = .recv addr then receivedBy x else []

/-- The number of frames that a close discards. -/
def discardedBy (x : Call) : ℕ :=
  match x.event.1 with
  | .close addr => (x.pre.rx addr).length
  | _ => 0

/-! ## What one call does -/

variable {s t : Net} {e : NetCall × NetReply}

/-- The transmit queue holds what was sent and not drained. -/
lemma tx_step (h : s.Steps e t) : s.tx ++ sentBy ⟨s, e, t⟩ = drainedBy ⟨s, e, t⟩ ++ t.tx := by
  cases steps_effect h with
  | polled n t htx => simp [sentBy, drainedBy, htx]
  | _ => simp [sentBy, drainedBy]

/-- The frames that were sent and not received are in a queue, dropped or discarded. -/
lemma amount_step (h : s.Steps e t) :
    s.tx.length + s.queued + s.dropped + (sentBy ⟨s, e, t⟩).length =
      (receivedBy ⟨s, e, t⟩).length + discardedBy ⟨s, e, t⟩ +
        (t.tx.length + t.queued + t.dropped) := by
  cases steps_effect h with
  | bound addr hfree =>
    have hq := s.queued_setQueue addr (some [])
    simp only [rx, hfree, Option.getD_none, Option.getD_some, List.length_nil] at hq
    simp only [sentBy, receivedBy, discardedBy, setQueue_tx, setQueue_dropped, List.length_nil]
    omega
  | sent src dst bytes =>
    have hq : queued { s with tx := s.tx ++ [⟨src, dst, bytes⟩] } = s.queued := rfl
    simp only [sentBy, receivedBy, discardedBy, List.length_append, List.length_cons,
      List.length_nil, hq]
    omega
  | received addr frame rx hrx =>
    have hq := s.queued_setQueue addr (some rx)
    simp only [Net.rx, hrx, Option.getD_some, List.length_cons] at hq
    simp only [sentBy, receivedBy, discardedBy, setQueue_tx, setQueue_dropped, List.length_cons,
      List.length_nil]
    omega
  | closed addr =>
    have hq := s.queued_setQueue addr none
    simp only [Option.getD_none, List.length_nil] at hq
    simp only [sentBy, receivedBy, discardedBy, setQueue_tx, setQueue_dropped, List.length_nil]
    omega
  | polled n t htx _ hqueued _ hcount =>
    simp only [sentBy, receivedBy, discardedBy, List.length_nil, htx]
    omega
  | _ => simp [sentBy, receivedBy, discardedBy]

/-- The receive queue of a bound address holds what was drained for it and not received. -/
lemma rx_step {addr : UInt16} (hbound : (s.sockets addr).isSome) (hclose : e.1 ≠ .close addr)
    (h : s.Steps e t) :
    (t.sockets addr).isSome ∧
      s.rx addr ++ (drainedBy ⟨s, e, t⟩).filter (fun frame => frame.dst = addr) =
        receivedAt addr ⟨s, e, t⟩ ++ t.rx addr := by
  cases steps_effect h with
  | bound a hfree =>
    have hne : addr ≠ a := by
      rintro rfl
      simp [hfree] at hbound
    simp [drainedBy, receivedAt, rx, hne, hbound]
  | received a frame queue hrx =>
    rcases eq_or_ne addr a with rfl | hne
    · simp [drainedBy, receivedAt, receivedBy, rx, hrx]
    · simp [drainedBy, receivedAt, rx, hne, hne.symm, hbound]
  | closed a =>
    have hne : addr ≠ a := fun heq => hclose (heq ▸ rfl)
    simp [drainedBy, receivedAt, rx, hne, hbound]
  | polled n t htx hsockets =>
    obtain ⟨queue, hqueue⟩ := Option.isSome_iff_exists.mp hbound
    simp [drainedBy, receivedAt, rx, hsockets, hqueue]
  | empty a hempty => simp [drainedBy, receivedAt, receivedBy, hbound]
  | _ => simp [drainedBy, receivedAt, hbound, rx]

/-! ## Whole runs -/

/-- A socket receives what is drained for its address while it is bound, in order; what it has not
received yet is in its queue. -/
lemma received_append_rx {addr : UInt16} {life : List Call}
    (h : Run Steps s life t) (hbound : s.sockets addr = some [])
    (hclose : ∀ x ∈ life, x.event.1 ≠ .close addr) :
    life.flatMap (receivedAt addr) ++ t.rx addr =
      (life.flatMap drainedBy).filter fun frame => frame.dst = addr := by
  have hflow := h.flow_of (I := fun s => (s.sockets addr).isSome)
    (C := fun _ e => e.1 ≠ .close addr) (q := fun s => s.rx addr)
    (f := fun x => (drainedBy x).filter fun frame => frame.dst = addr) (g := receivedAt addr)
    (fun _ _ _ hs he hstep => rx_step hs he hstep) hclose (by simp [hbound])
  rw [← hflow, rx, hbound, List.filter_flatMap]
  rfl

end Net

/-- **Loopback delivery is exactly-once, addressed and in order.**  In every run of the interface
from its start: the frames that `poll` drains, followed by the transmit queue, are the frames that
were sent, in their order; a poll returns and newly drops as many frames as were queued; what a
socket receives between its `bind` and its `close` is a prefix of the frames for its address that
were drained in that time; and the number of frames sent is the number of frames queued for
transmission, queued for reception, received, dropped and discarded by a `close`. -/
theorem loopback_delivery (tr : List Net.Call) (net : Net) (h : Run Net.Steps Net.new tr net) :
    tr.flatMap Net.sentBy = tr.flatMap Net.drainedBy ++ net.tx ∧
      (∀ x ∈ tr, ∀ n, x.event = (.poll, .delivered n) → x.pre.dropped ≤ x.post.dropped ∧
        n + (x.post.dropped - x.pre.dropped) = x.pre.tx.length) ∧
      (∀ before bind life after addr, tr = before ++ bind :: (life ++ after) →
        bind.event = (.bind addr, .done) → (∀ x ∈ life, x.event.1 ≠ .close addr) →
        life.flatMap (Net.receivedAt addr) <+:
          (life.flatMap Net.drainedBy).filter fun frame => frame.dst = addr) ∧
      (tr.flatMap Net.sentBy).length = net.tx.length + net.queued +
        (tr.flatMap Net.receivedBy).length + net.dropped + (tr.map Net.discardedBy).sum := by
  refine ⟨?_, ?_, ?_, ?_⟩
  · exact h.flow_of (I := fun _ => True) (C := fun _ _ => True)
      (fun _ _ _ _ _ hstep => ⟨trivial, Net.tx_step hstep⟩) (fun _ _ => trivial) trivial
  · intro x hx n hevent
    obtain ⟨hstep, -⟩ := h.mem hx
    rw [hevent] at hstep
    cases Net.steps_effect hstep with
    | polled _ _ _ _ _ hmono hcount => exact ⟨hmono, by omega⟩
  · rintro before bind life after addr rfl hevent hclose
    obtain ⟨s, -, hrest⟩ := h.exists_of_append
    cases hrest with
    | cons hbind hrest =>
      obtain ⟨t, hlife, -⟩ := hrest.exists_of_append
      rw [← Net.received_append_rx hlife ?_ hclose]
      · exact List.prefix_append _ _
      · dsimp only at hevent
        rw [hevent] at hbind
        cases Net.steps_effect hbind with
        | bound _ _ => simp
  · have hamount := h.balance (n := fun s => s.tx.length + s.queued + s.dropped)
      (f := fun x => (Net.sentBy x).length)
      (g := fun x => (Net.receivedBy x).length + Net.discardedBy x) fun _ _ _ => Net.amount_step
    have hnew : Net.new.queued = 0 := by simp [Net.queued, Net.rx, Net.new]
    have hsplit : (tr.map fun x => (Net.receivedBy x).length + Net.discardedBy x).sum =
        (tr.flatMap Net.receivedBy).length + (tr.map Net.discardedBy).sum := by
      rw [List.sum_map_add, List.length_flatMap]
    have htx : Net.new.tx.length = 0 := rfl
    have hdropped : Net.new.dropped = 0 := rfl
    rw [htx, hnew, hdropped, hsplit, Nat.zero_add] at hamount
    rw [List.length_flatMap, hamount]
    omega

/-- The interface with the address 2 bound to a queue, and frames to transmit. -/
def boundNet (tx rx : List Frame) : Net := { Net.new.setQueue 2 (some rx) with tx }

/-- A greeting from the address 1 to the address 2. -/
def helloFrame : Frame := ⟨1, 2, [0x68, 0x69]⟩

/-- The address 2 is bound, the greeting is sent, polled and received. -/
def helloCalls : List Net.Call :=
  [⟨Net.new, (.bind 2, .done), boundNet [] []⟩,
    ⟨boundNet [] [], (.send 1 2 [0x68, 0x69], .done), boundNet [helloFrame] []⟩,
    ⟨boundNet [helloFrame] [], (.poll, .delivered 1), boundNet [] [helloFrame]⟩,
    ⟨boundNet [] [helloFrame], (.recv 2, .frame (some helloFrame)), boundNet [] []⟩]

lemma run_helloCalls : Run Net.Steps Net.new helloCalls (boundNet [] []) := by
  have hset : ∀ tx rx rx', (boundNet tx rx).setQueue 2 (some rx') = boundNet tx rx' := by
    intro tx rx rx'
    simp [boundNet, Net.setQueue]
  refine .cons rfl (.cons rfl (.cons ?_ (.cons ?_ (.nil _))))
  · change (Net.route (boundNet [] []) 0 helloFrame >>= fun x =>
      Net.pollLoop [] x.1 x.2 >>= fun y => pure (y.1, NetReply.delivered y.2)) = _
    have hroute : Net.route (boundNet [] []) 0 helloFrame = .ok (boundNet [] [helloFrame], 1) := by
      change Except.ok ((boundNet [] []).setQueue 2 (some [helloFrame]), 1) = _
      rw [hset]
    rw [hroute]
    rfl
  · change Except.ok ((boundNet [] [helloFrame]).setQueue 2 (some []), _) = _
    rw [hset]
    rfl

/-- The greeting is received as it was drained. -/
theorem loopback_delivery_helloCalls :
    (helloCalls.drop 1).flatMap (Net.receivedAt 2) = [helloFrame] ∧
      (helloCalls.drop 1).flatMap (Net.receivedAt 2) <+:
        ((helloCalls.drop 1).flatMap Net.drainedBy).filter fun frame => frame.dst = 2 :=
  ⟨by decide, (loopback_delivery _ _ run_helloCalls).2.2.1 [] _ (helloCalls.drop 1) [] 2 rfl rfl
    (by decide)⟩

end ZiranOS
