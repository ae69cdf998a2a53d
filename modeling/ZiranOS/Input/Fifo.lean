import ZiranOS.Input.Ring

/-!
# The input ring is a queue

The invariant of the ring says what the local state of the producer and of the consumer mean in the
middle of their calls.  From it, in every interleaving, the bytes that are popped are those that
were accepted, in order, and no cell is overwritten before it is read (`input_ring_fifo`).
-/

namespace ZiranOS

open ProgLib

namespace InputRing

/-! ## The invariant -/

/-- The elements between `HEAD` and `TAIL`. -/
def queue (s : InputRing) : List UInt8 := Ring.contents ringCap s.ring s.head s.tail

/-- What the producer knows in the middle of a push. -/
def ProducerOk (s : InputRing) : Prop :=
  match s.producer with
  | .idle => True
  | .loaded _ tail => tail = s.tail
  | .room _ tail => tail = s.tail ∧ Ring.next ringCap s.tail ≠ s.head
  | .stored byte tail => tail = s.tail ∧ Ring.next ringCap s.tail ≠ s.head ∧ s.ring s.tail = byte

/-- What the consumer knows in the middle of a pop. -/
def ConsumerOk (s : InputRing) : Prop :=
  match s.consumer with
  | .idle => True
  | .loaded head => head = s.head
  | .ready head => head = s.head ∧ s.head ≠ s.tail
  | .taken head byte => head = s.head ∧ s.head ≠ s.tail ∧ s.ring s.head = byte

/-- The invariant of the ring. -/
structure Ok (s : InputRing) : Prop where
  head : s.head < ringCap
  tail : s.tail < ringCap
  producer : s.ProducerOk
  consumer : s.ConsumerOk

/-- The first cell that was written and not read. -/
def readIndex (s : InputRing) : ℕ :=
  match s.consumer with
  | .taken _ _ => Ring.next ringCap s.head
  | _ => s.head

/-- The first cell that will be written. -/
def writeIndex (s : InputRing) : ℕ :=
  match s.producer with
  | .stored _ _ => Ring.next ringCap s.tail
  | _ => s.tail

/-- The cell was written and not read since. -/
def InUse (s : InputRing) (i : ℕ) : Prop := Ring.Held ringCap s.readIndex s.writeIndex i

/-- The ring starts empty. -/
lemma ok_new : Ok new := ⟨by decide, by decide, trivial, trivial⟩

variable {s t : InputRing} {e : RingEvent}

/-- Storing the byte changes no element of the queue, and nothing that the consumer knows. -/
lemma Ok.store {byte : UInt8} {tail : ℕ} (hok : s.Ok) (hroom : s.producer = .room byte tail) :
    Ok { s with ring := Function.update s.ring tail byte, producer := .stored byte tail } ∧
      queue { s with ring := Function.update s.ring tail byte, producer := .stored byte tail } =
        s.queue := by
  have hprod := hok.producer
  rw [ProducerOk, hroom] at hprod
  obtain ⟨rfl, hne⟩ := hprod
  refine ⟨⟨hok.head, hok.tail, ⟨rfl, hne, Function.update_self ..⟩, ?_⟩,
    Ring.contents_update_tail s.ring byte hok.head hok.tail⟩
  have hcons := hok.consumer
  unfold ConsumerOk at hcons ⊢
  cases hc : s.consumer with
  | taken head b =>
    rw [hc] at hcons
    obtain ⟨rfl, hempty, hcell⟩ := hcons
    exact ⟨rfl, hempty, by rw [← hcell]; exact Function.update_of_ne hempty _ _⟩
  | _ =>
    rw [hc] at hcons
    exact hcons

/-- Storing `TAIL` appends the byte to the queue. -/
lemma Ok.publish {byte : UInt8} {tail : ℕ} (hok : s.Ok) (hstored : s.producer = .stored byte tail) :
    Ok { s with tail := (tail + 1) % ringCap, producer := .idle } ∧
      queue { s with tail := (tail + 1) % ringCap, producer := .idle } = s.queue ++ [byte] := by
  have hprod := hok.producer
  rw [ProducerOk, hstored] at hprod
  obtain ⟨rfl, hne, rfl⟩ := hprod
  refine ⟨⟨hok.head, Ring.next_lt hok.tail, trivial, ?_⟩,
    Ring.contents_push s.ring hok.head hok.tail hne⟩
  have hcons := hok.consumer
  unfold ConsumerOk at hcons ⊢
  cases hc : s.consumer with
  | idle => trivial
  | loaded head =>
    rw [hc] at hcons
    exact hcons
  | ready head =>
    rw [hc] at hcons
    exact ⟨hcons.1, hne.symm⟩
  | taken head b =>
    rw [hc] at hcons
    exact ⟨hcons.1, hne.symm, hcons.2.2⟩

/-- Storing `HEAD` takes the byte from the queue. -/
lemma Ok.release {byte : UInt8} {head : ℕ} (hok : s.Ok) (htaken : s.consumer = .taken head byte) :
    Ok { s with head := (head + 1) % ringCap, consumer := .idle } ∧
      s.queue = byte :: queue { s with head := (head + 1) % ringCap, consumer := .idle } := by
  have hcons := hok.consumer
  rw [ConsumerOk, htaken] at hcons
  obtain ⟨rfl, hne, rfl⟩ := hcons
  refine ⟨⟨Ring.next_lt hok.head, hok.tail, ?_, trivial⟩,
    Ring.contents_pop s.ring hok.head hok.tail hne⟩
  -- the ring is not full after a pop
  have hroom : Ring.next ringCap s.tail ≠ Ring.next ringCap s.head :=
    fun heq => hne (Ring.next_inj hok.tail hok.head heq).symm
  have hprod := hok.producer
  unfold ProducerOk at hprod ⊢
  cases hp : s.producer with
  | idle => trivial
  | loaded b tail =>
    rw [hp] at hprod
    exact hprod
  | room b tail =>
    rw [hp] at hprod
    exact ⟨hprod.1, hroom⟩
  | stored b tail =>
    rw [hp] at hprod
    exact ⟨hprod.1, hroom, hprod.2.2⟩

/-- **One step** keeps the invariant, and the queue holds what was accepted and not popped. -/
lemma Ok.step (hok : s.Ok) (h : s.Steps e t) :
    t.Ok ∧ s.queue ++ acceptedBy ⟨s, e, t⟩ = poppedBy ⟨s, e, t⟩ ++ t.queue := by
  have hprod := hok.producer
  have hcons := hok.consumer
  unfold ProducerOk at hprod
  unfold ConsumerOk at hcons
  cases h with
  | pushTail byte hidle =>
    exact ⟨⟨hok.head, hok.tail, rfl, hok.consumer⟩, List.append_nil _⟩
  | pushFull byte tail hloaded hfull =>
    exact ⟨⟨hok.head, hok.tail, trivial, hok.consumer⟩, List.append_nil _⟩
  | pushRoom byte tail hloaded hroom =>
    rw [hloaded] at hprod
    exact ⟨⟨hok.head, hok.tail, ⟨hprod, hprod ▸ hroom⟩, hok.consumer⟩, List.append_nil _⟩
  | pushStore byte tail hroom =>
    obtain ⟨hok', hqueue⟩ := hok.store hroom
    exact ⟨hok', (List.append_nil _).trans hqueue.symm⟩
  | pushPublish byte tail hstored =>
    obtain ⟨hok', hqueue⟩ := hok.publish hstored
    exact ⟨hok', hqueue.symm⟩
  | popHead hidle =>
    exact ⟨⟨hok.head, hok.tail, hok.producer, rfl⟩, List.append_nil _⟩
  | popEmpty head hloaded hempty =>
    exact ⟨⟨hok.head, hok.tail, hok.producer, trivial⟩, List.append_nil _⟩
  | popReady head hloaded hready =>
    rw [hloaded] at hcons
    exact ⟨⟨hok.head, hok.tail, hok.producer, hcons, hcons ▸ hready⟩, List.append_nil _⟩
  | popLoad head hready =>
    rw [hready] at hcons
    exact ⟨⟨hok.head, hok.tail, hok.producer, hcons.1, hcons.2, by rw [hcons.1]⟩,
      List.append_nil _⟩
  | popPublish head byte htaken =>
    obtain ⟨hok', hqueue⟩ := hok.release htaken
    exact ⟨hok', (List.append_nil _).trans hqueue⟩

/-! ## The cells in use -/

/-- The first cell to be read is not the one after the first cell to be written. -/
lemma Ok.next_tail_ne_readIndex (hok : s.Ok) (hroom : Ring.next ringCap s.tail ≠ s.head) :
    Ring.next ringCap s.tail ≠ s.readIndex := by
  have hcons := hok.consumer
  unfold ConsumerOk at hcons
  unfold readIndex
  cases hc : s.consumer with
  | taken head byte =>
    rw [hc] at hcons
    exact fun heq => hcons.2.1 (Ring.next_inj hok.tail hok.head heq).symm
  | _ => exact hroom

/-- The first cell to be read is a cell. -/
lemma Ok.readIndex_lt (hok : s.Ok) : s.readIndex < ringCap := by
  unfold readIndex
  split
  · exact Ring.next_lt hok.head
  · exact hok.head

/-- The first cell to be written is a cell. -/
lemma Ok.writeIndex_lt (hok : s.Ok) : s.writeIndex < ringCap := by
  unfold writeIndex
  split
  · exact Ring.next_lt hok.tail
  · exact hok.tail

/-- A byte that is about to be loaded is in use. -/
lemma Ok.head_ne_writeIndex (hok : s.Ok) (hne : s.head ≠ s.tail) : s.head ≠ s.writeIndex := by
  have hprod := hok.producer
  unfold ProducerOk at hprod
  unfold writeIndex
  cases hp : s.producer with
  | stored byte tail =>
    rw [hp] at hprod
    exact hprod.2.1.symm
  | _ => exact hne

/-- **Accesses alternate**: a step writes a cell only if it is not in use, and reads a cell only if
it is. -/
lemma Ok.access (hok : s.Ok) (h : s.Steps e t) {i : ℕ} {as : List Access}
    (has : ∀ full, (full = true ↔ t.InUse i) → Alternating full as) {full : Bool}
    (hfull : full = true ↔ s.InUse i) : Alternating full (accessOf i ⟨s, e, t⟩ ++ as) := by
  have hsame : t.readIndex = s.readIndex → t.writeIndex = s.writeIndex → Alternating full as := by
    intro hread hwrite
    exact has full (by rw [InUse, hread, hwrite]; exact hfull)
  have hprod := hok.producer
  have hcons := hok.consumer
  unfold ProducerOk at hprod
  unfold ConsumerOk at hcons
  cases h with
  | pushStore byte tail hroom =>
    rw [hroom] at hprod
    obtain ⟨rfl, hne⟩ := hprod
    have hw : s.writeIndex = s.tail := by rw [writeIndex, hroom]
    have hpush := Ring.held_push hok.readIndex_lt hok.tail (hok.next_tail_ne_readIndex hne) i
    rw [InUse, hw] at hfull
    unfold accessOf
    dsimp only
    split_ifs with hi
    · subst hi
      have hfree := Ring.not_held_tail hok.readIndex_lt hok.tail
      exact ⟨eq_false_of_ne_true (hfull.not.mpr hfree),
        has true (iff_of_true rfl (hpush.mpr (.inr rfl)))⟩
    · exact has full (hfull.trans (hpush.trans (or_iff_left (Ne.symm hi))).symm)
  | popLoad head hready =>
    rw [hready] at hcons
    obtain ⟨rfl, hne⟩ := hcons
    have hr : s.readIndex = s.head := by rw [readIndex, hready]
    have hlast := hok.head_ne_writeIndex hne
    have hpop := Ring.held_pop hok.head hok.writeIndex_lt hlast i
    rw [InUse, hr] at hfull
    unfold accessOf
    dsimp only
    split_ifs with hi
    · subst hi
      exact ⟨hfull.mpr (Ring.held_head hok.head hok.writeIndex_lt hlast),
        has false (iff_of_false Bool.false_ne_true fun hheld => (hpop.mp hheld).2 rfl)⟩
    · exact has full (hfull.trans (hpop.trans (and_iff_left (Ne.symm hi))).symm)
  | pushTail byte hidle => exact hsame rfl (by simp [writeIndex, hidle])
  | pushFull byte tail hloaded => exact hsame rfl (by simp [writeIndex, hloaded])
  | pushRoom byte tail hloaded => exact hsame rfl (by simp [writeIndex, hloaded])
  | pushPublish byte tail hstored =>
    rw [hstored] at hprod
    exact hsame rfl (by simp [writeIndex, hstored, Ring.next, hprod.1])
  | popHead hidle => exact hsame (by simp [readIndex, hidle]) rfl
  | popEmpty head hloaded => exact hsame (by simp [readIndex, hloaded]) rfl
  | popReady head hloaded => exact hsame (by simp [readIndex, hloaded]) rfl
  | popPublish head byte htaken =>
    rw [htaken] at hcons
    exact hsame (by simp [readIndex, htaken, Ring.next, hcons.1]) rfl

/-- The accesses of a run alternate, from whatever the cells hold. -/
lemma Ok.accesses {tr : List (Transition InputRing RingEvent)} (h : Run Steps s tr t)
    (hok : s.Ok) {i : ℕ} {full : Bool} (hfull : full = true ↔ s.InUse i) :
    Alternating full (tr.flatMap (accessOf i)) := by
  induction h generalizing full with
  | nil => trivial
  | cons hstep _ ih => exact hok.access hstep (fun _ hfull' => ih (hok.step hstep).1 hfull') hfull

/-- A byte is dropped only if the queue has 255 elements. -/
lemma Ok.length_queue_of_full (hok : s.Ok) (h : s.Steps (.pushHead true) t) :
    s.queue.length + 1 = ringCap := by
  have hprod := hok.producer
  unfold ProducerOk at hprod
  cases h with
  | pushFull byte tail hloaded hfull =>
    rw [hloaded] at hprod
    rw [queue, Ring.length_contents]
    exact (Ring.next_eq_iff hok.head hok.tail).mp (hprod ▸ hfull)

end InputRing

/-- **The input ring is a bounded queue**, in every interleaving of the steps of the producer and
the consumer: what was popped is a prefix of what was accepted; every read of a cell follows a
write, and no cell is written again before it is read; both indices stay below 256; and a push
drops its byte only if 255 accepted bytes were not yet popped when it loaded `HEAD`. -/
theorem input_ring_fifo (tr : List (Transition InputRing RingEvent)) (s : InputRing)
    (h : Run InputRing.Steps InputRing.new tr s) :
    tr.flatMap InputRing.poppedBy <+: tr.flatMap InputRing.acceptedBy ∧
      (∀ i, Alternating false (tr.flatMap (InputRing.accessOf i))) ∧
      (∀ x ∈ tr, x.post.head < 256 ∧ x.post.tail < 256) ∧
      ∀ before x after, tr = before ++ x :: after → x.event = .pushHead true →
        (before.flatMap InputRing.acceptedBy).length =
          (before.flatMap InputRing.poppedBy).length + 255 := by
  have hflow : ∀ {tr : List (Transition InputRing RingEvent)} {s : InputRing},
      Run InputRing.Steps InputRing.new tr s →
      tr.flatMap InputRing.acceptedBy = tr.flatMap InputRing.poppedBy ++ s.queue :=
    fun h => h.flow_of (I := InputRing.Ok) (C := fun _ _ => True)
      (q := InputRing.queue) (f := InputRing.acceptedBy) (g := InputRing.poppedBy)
      (fun _ _ _ hok _ hstep => hok.step hstep) (fun _ _ => trivial) InputRing.ok_new
  have hinv := fun {tr s} (h : Run InputRing.Steps InputRing.new tr s) =>
    h.invariant_of (I := InputRing.Ok) (C := fun _ _ => True)
      (fun _ _ _ hok _ hstep => (hok.step hstep).1) (fun _ _ => trivial) InputRing.ok_new
  refine ⟨?_, fun i => InputRing.ok_new.accesses h ?_, fun x hx => ?_, ?_⟩
  · rw [hflow h]
    exact List.prefix_append _ _
  · refine iff_of_false Bool.false_ne_true ?_
    rintro ⟨k, hk, -⟩
    exact absurd hk (Nat.not_lt_zero k)
  · have hok := ((hinv h).2 x hx).2
    exact ⟨hok.head, hok.tail⟩
  · rintro before x after rfl hfull
    obtain ⟨m, hbefore, hrest⟩ := h.exists_of_append
    cases hrest with
    | cons hstep _ =>
      dsimp only at hfull
      rw [hfull] at hstep
      have hlen := (hinv hbefore).1.length_queue_of_full hstep
      have hcap : ringCap = 255 + 1 := rfl
      rw [hflow hbefore, List.length_append, Nat.add_right_cancel (hlen.trans hcap)]

/-- The ring in which a byte is pushed while nothing is popped, and popped afterwards. -/
def oneKey (head tail : ℕ) (producer : Producer) (consumer : Consumer) : InputRing :=
  ⟨Function.update (fun _ => 0) 0 0x68, head, tail, producer, consumer⟩

/-- The steps of a push up to its store. -/
def keyPushed : List (Transition InputRing RingEvent) :=
  [⟨.new, .pushTail 0x68, { InputRing.new with producer := .loaded 0x68 0 }⟩,
    ⟨{ InputRing.new with producer := .loaded 0x68 0 }, .pushHead false,
      { InputRing.new with producer := .room 0x68 0 }⟩,
    ⟨{ InputRing.new with producer := .room 0x68 0 }, .pushStore 0,
      oneKey 0 0 (.stored 0x68 0) .idle⟩]

/-- The byte is published in the middle of a pop. -/
def keyPopped : List (Transition InputRing RingEvent) :=
  [⟨oneKey 0 0 (.stored 0x68 0) .idle, .popHead, oneKey 0 0 (.stored 0x68 0) (.loaded 0)⟩,
    ⟨oneKey 0 0 (.stored 0x68 0) (.loaded 0), .pushPublish 0x68, oneKey 0 1 .idle (.loaded 0)⟩,
    ⟨oneKey 0 1 .idle (.loaded 0), .popTail false, oneKey 0 1 .idle (.ready 0)⟩,
    ⟨oneKey 0 1 .idle (.ready 0), .popLoad 0, oneKey 0 1 .idle (.taken 0 0x68)⟩,
    ⟨oneKey 0 1 .idle (.taken 0 0x68), .popPublish 0x68, oneKey 1 1 .idle .idle⟩]

lemma run_key :
    Run InputRing.Steps InputRing.new (keyPushed ++ keyPopped) (oneKey 1 1 .idle .idle) :=
  .cons (.pushTail _ _ rfl) <| .cons (.pushRoom _ _ _ rfl (by decide)) <|
    .cons (.pushStore _ _ _ rfl (by decide)) <| .cons (.popHead _ rfl) <|
    .cons (.pushPublish _ _ 0 rfl) <| .cons (.popReady _ _ rfl (by decide)) <|
    .cons (.popLoad _ _ rfl (by decide)) <| .cons (.popPublish _ 0 _ rfl) (.nil _)

theorem input_ring_fifo_key :
    (keyPushed ++ keyPopped).flatMap InputRing.poppedBy <+:
        (keyPushed ++ keyPopped).flatMap InputRing.acceptedBy ∧
      Alternating false ((keyPushed ++ keyPopped).flatMap (InputRing.accessOf 0)) :=
  have h := input_ring_fifo _ _ run_key
  ⟨h.1, h.2.1 0⟩

end ZiranOS
