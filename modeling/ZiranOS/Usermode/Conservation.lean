import ZiranOS.Heap.FreeList
import ZiranOS.Lib.Text
import ZiranOS.Usermode.Pages
import ZiranOS.Usermode.Stale

/-!
# No frame is lost or shared

After the first tables the kernel maps the pages of its heap, plants a secret on a page of its own,
and again and again maps a program, lets it run and takes its pages back.  Each of these is a
sequence of the basic operations of `Usermode/Pages`, so each follows a sequence of operations on
the account (`Kernel.initHeap_follows` and so on).  For whole runs that gives `frame_conservation`:
every frame that was free at first has exactly one use.
-/

namespace ZiranOS

open ProgLib

/-- The address of the secret. -/
def secretVa : ℕ := 0x60000000

namespace Kernel

/-- The flag that is planted for the attacks of ring 3. -/
def secret : List UInt8 := Text.utf8 "FLAG\x7bring3-cant-read-kernel-mem\x7d"

/-- Map one page of the heap to a new frame. -/
def mapHeapPage (k : Kernel) (virt : ℕ) : Exec Unit Kernel := do
  let (k, frame) ← k.expectFrame
  k.expectPage virt frame.start writable

/-- Map all pages of the heap. -/
def initHeap (k : Kernel) : Exec Unit Kernel :=
  (List.range (heapSize / frameSize)).foldlM
    (fun k i => k.mapHeapPage (heapBase + i * frameSize)) k

/-- Put the flag on a page of the kernel, and make sure that ring 3 may not read it. -/
def plantSecret (k : Kernel) (fuel : ℕ) : Exec Unit Kernel := do
  let (k, frame) ← k.expectFrame
  let k ← k.expectPage secretVa frame.start writable
  let k ← k.copyBytes secretVa secret
  if ← k.paging.userRangeOk fuel secretVa secret.length then
    Exec.panic .assertion
  else
    pure k

/-- Take the pages of a program back. -/
def unmapUserProgram (k : Kernel) (codeFrame stackFrame : PhysFrame) : Exec Unit Kernel := do
  let (k, _) ← k.call (.unmapPage uvaCode)
  let (k, _) ← k.call (.unmapPage uvaStack)
  let (k, _) ← k.free codeFrame
  let (k, _) ← k.free stackFrame
  pure k

end Kernel

/-! ## The same on the account -/

namespace Account

/-- Map a page to a new frame. -/
def mapFresh (a : Account) (ring : Ring) (virt : ℕ) : Option (Account × PhysFrame) := do
  let (a, frame) ← a.take
  let a ← a.map ring virt frame.start
  pure (a, frame)

/-- Map one page of the heap to a new frame. -/
def mapHeapPage (a : Account) (virt : ℕ) : Option Account := do
  let (a, _) ← a.mapFresh .kernel virt
  pure a

/-- Map all pages of the heap. -/
def initHeap (a : Account) : Option Account :=
  (List.range (heapSize / frameSize)).foldlM
    (fun a i => a.mapHeapPage (heapBase + i * frameSize)) a

/-- Map the page of the secret. -/
def plantSecret (a : Account) : Option Account := do
  let (a, _) ← a.mapFresh .kernel secretVa
  pure a

/-- Map the two pages of a program. -/
def mapUserProgram (a : Account) : Option (Account × PhysFrame × PhysFrame) := do
  let (a, codeFrame) ← a.mapFresh .user uvaCode
  let (a, stackFrame) ← a.mapFresh .user uvaStack
  pure (a, codeFrame, stackFrame)

/-- Take the pages of a program back. -/
def unmapUserProgram (a : Account) (codeFrame stackFrame : PhysFrame) : Account :=
  (((a.unmap uvaCode).unmap uvaStack).release codeFrame.index).release stackFrame.index

end Account

variable {F : Finset ℕ} {k k' : Kernel} {a a' : Account}

namespace Account

/-- What a new page does: it takes the first free frame, and the tables take the next ones. -/
lemma mapFresh_cases {ring : Ring} {virt : ℕ} {frame : PhysFrame}
    (h : a.mapFresh ring virt = some (a', frame)) :
    ∃ i ∈ a.free, i ∉ FrameSet.rest a.free ∧ frame = ⟨i * physFrameSize⟩ ∧
      a.missing virt ≤ (FrameSet.rest a.free).card ∧
      a' = mapped ⟨FrameSet.rest a.free, a.tables, a.pages⟩ ring virt frame.start := by
  obtain ⟨⟨a₁, frame₁⟩, htake, hrest⟩ := Option.bind_eq_some_iff.mp h
  obtain ⟨a₂, hmap, hret⟩ := Option.bind_eq_some_iff.mp hrest
  obtain ⟨rfl, rfl⟩ := Prod.mk.inj (Option.some.inj hret)
  obtain ⟨f, hanswer, hret⟩ := Option.map_eq_some_iff.mp htake
  obtain ⟨rfl, rfl⟩ := Prod.mk.inj hret
  obtain ⟨i, hi, rfl, hgone⟩ := FrameSet.answer_spec hanswer
  unfold Account.map at hmap
  split_ifs at hmap with hcard
  exact ⟨i, hi, hgone, rfl, hcard, (Option.some.inj hmap).symm⟩

/-- The pages with a new one. -/
lemma mapFresh_pages {ring : Ring} {virt : ℕ} {frame : PhysFrame}
    (h : a.mapFresh ring virt = some (a', frame)) (n : ℕ) :
    a'.pages n = if n = virt / 4096 then some (ring, frame.start) else a.pages n := by
  obtain ⟨i, -, -, -, -, rfl⟩ := mapFresh_cases h
  exact mapped_pages _ ring virt _ n

/-- A new page takes a frame and those for the missing tables. -/
lemma mapFresh_card {ring : Ring} {virt : ℕ} {frame : PhysFrame}
    (h : a.mapFresh ring virt = some (a', frame)) :
    a'.free.card + 1 + a.missing virt = a.free.card ∧ a'.tables = a.tables ∪ walkTables virt := by
  obtain ⟨i, hi, -, -, hcard, rfl⟩ := mapFresh_cases h
  have hpos := Finset.card_pos.mpr ⟨i, hi⟩
  have hrest := FrameSet.card_rest a.free
  have hend := FrameSet.card_iterate_rest (FrameSet.rest a.free) (a.missing virt)
  refine ⟨?_, rfl⟩
  show (FrameSet.rest^[a.missing virt] (FrameSet.rest a.free)).card + 1 + _ = _
  omega

/-- The frame of a new page was free and is free no more; nothing else becomes free. -/
lemma mapFresh_free {ring : Ring} {virt : ℕ} {frame : PhysFrame}
    (h : a.mapFresh ring virt = some (a', frame)) :
    frame.index ∈ a.free ∧ frame.index ∉ a'.free ∧ a'.free ⊆ a.free := by
  obtain ⟨i, hi, hgone, rfl, -, rfl⟩ := mapFresh_cases h
  have hsub : (mapped ⟨FrameSet.rest a.free, a.tables, a.pages⟩ ring virt
      (i * physFrameSize)).free ⊆ FrameSet.rest a.free :=
    FrameSet.iterate_rest_subset _ (Nat.zero_le _)
  rw [PhysFrame.index, Nat.mul_div_cancel i (by decide)]
  exact ⟨hi, fun hin => hgone (hsub hin), hsub.trans (FrameSet.rest_subset _)⟩

/-- A new page needs that many frames. -/
lemma mapFresh_isSome (a : Account) (ring : Ring) (virt : ℕ) :
    (a.mapFresh ring virt).isSome ↔ 1 + a.missing virt ≤ a.free.card := by
  have hrest := FrameSet.card_rest a.free
  rw [Account.mapFresh]
  cases hanswer : FrameSet.answer a.free 0 with
  | none =>
    have hzero : ¬ 0 < a.free.card := by
      rw [← FrameSet.answer_isSome_iff, hanswer]
      exact Bool.false_ne_true
    rw [Account.take, hanswer]
    exact iff_of_false Bool.false_ne_true (by omega)
  | some f =>
    have hpos := FrameSet.answer_isSome_iff.mp (Option.isSome_of_eq_some hanswer)
    have hsame : ({ a with free := FrameSet.rest a.free } : Account).missing virt =
      a.missing virt := rfl
    rw [Account.take, hanswer]
    show (Option.bind (Account.map _ ring virt f) _).isSome ↔ _
    rw [Account.map, hsame]
    dsimp only
    split_ifs with hcard
    · exact iff_of_true rfl (by omega)
    · exact iff_of_false Bool.false_ne_true (by omega)

/-- The pages without those of a program. -/
lemma unmapUserProgram_pages {codeFrame stackFrame : PhysFrame} (n : ℕ) :
    (a.unmapUserProgram codeFrame stackFrame).pages n =
      if n = uvaStack / 4096 then none else if n = uvaCode / 4096 then none else a.pages n := by
  rw [unmapUserProgram, release, release, unmap_pages,
    unmap_pages]

end Account

/-! ## The kernel follows the account -/

/-- **A new page**: take a frame, perhaps store into it, and map it. -/
lemma Kernel.Keeps.mapFresh {σ : Type} {τ : Type} {R : σ → τ → Prop} (h : k.Keeps F ∅ a)
    (ring : Ring) {virt flags : ℕ} (hlow : identityLimit ≤ virt) (hvirt : virt < 2 ^ 47)
    (hflags : flags = 0 ∨ flags = writable) (hpage : a.pages (virt / 4096) = none)
    (fill : Kernel → PhysFrame → Exec Unit Kernel)
    (hfill : ∀ k frame a, physFrameSize ∣ frame.start → k.Keeps F {frame.index} a →
      ∃ k', fill k frame = .ok k' ∧ k'.Keeps F {frame.index} a)
    (next : Kernel → PhysFrame → Exec Unit σ) (next' : Account × PhysFrame → Option τ)
    (hnext : ∀ k a' frame, a.mapFresh ring virt = some (a', frame) → k.Keeps F ∅ a' →
      Follows R (next k frame) (next' (a', frame))) :
    Follows R (do
      let (k, frame) ← k.expectFrame
      let k ← fill k frame
      let k ← k.expectMapped (ring.mapping virt frame.start flags)
      next k frame) (a.mapFresh ring virt >>= next') := by
  obtain ⟨frames, T, hbooks⟩ := h
  have hsplit : a.mapFresh ring virt >>= next' = a.take >>= fun x =>
      x.1.map ring virt x.2.start >>= fun a => next' (a, x.2) := by
    cases htake : a.take with
    | none => rw [Account.mapFresh, htake]; rfl
    | some x =>
      rw [Account.mapFresh, htake]
      dsimp only [Option.bind_eq_bind, Option.bind_some]
      cases x.1.map ring virt x.2.start <;> rfl
  rw [hsplit]
  refine hbooks.take.bind fun ⟨k₁, frame⟩ ⟨a₁, frame'⟩ htake htook => ?_
  obtain ⟨rfl, -, halign, -, hkeeps⟩ := htook
  have hpage₁ : a₁.pages (virt / 4096) = none := by
    obtain ⟨f, -, hret⟩ := Option.map_eq_some_iff.mp htake
    obtain ⟨rfl, -⟩ := Prod.mk.inj hret
    exact hpage
  obtain ⟨k₂, hrun, frames₂, T₂, hbooks₂⟩ := hfill k₁ frame a₁ halign hkeeps
  dsimp only
  rw [hrun, Exec.bind_ok]
  refine (hbooks₂.map ring hlow hvirt (Finset.mem_singleton_self _) halign hflags hpage₁).bind
    fun k₃ a₃ hmap hkeeps₃ => hnext k₃ a₃ frame ?_ ?_
  · rw [Account.mapFresh, htake]
    show (a₁.map ring virt frame.start >>= fun a => some (a, frame)) = _
    rw [hmap]
    rfl
  · rwa [show frame.start / physFrameSize = frame.index from rfl, Finset.erase_singleton]
      at hkeeps₃

/-- Nothing is stored first. -/
lemma fill_nothing (k : Kernel) (frame : PhysFrame) (a : Account) (_ : physFrameSize ∣ frame.start)
    (h : k.Keeps F {frame.index} a) :
    ∃ k', (pure k : Exec Unit Kernel) = .ok k' ∧ k'.Keeps F {frame.index} a := ⟨k, rfl, h⟩

/-- A kernel with new pages of its own. -/
structure KernelPages (F : Finset ℕ) (new : ℕ → Prop) (a : Account) (k' : Kernel) (a' : Account) :
    Prop where
  keeps : k'.Keeps F ∅ a'
  /-- The new pages are for the kernel. -/
  inside : ∀ n, new n → (a'.pages n).map Prod.fst = some .kernel
  /-- The other pages stay. -/
  outside : ∀ n, ¬ new n → a'.pages n = a.pages n

/-- One new page of the kernel. -/
lemma KernelPages.single {virt : ℕ} {frame : PhysFrame} (h : k.Keeps F ∅ a')
    (hmap : a.mapFresh .kernel virt = some (a', frame)) :
    KernelPages F (· = virt / 4096) a k a' where
  keeps := h
  inside n hn := by rw [Account.mapFresh_pages hmap, if_pos hn]; rfl
  outside n hn := by rw [Account.mapFresh_pages hmap, if_neg hn]

/-- **A new page of the heap.** -/
lemma Kernel.mapHeapPage_follows (h : k.Keeps F ∅ a) {virt : ℕ} (hlow : identityLimit ≤ virt)
    (hvirt : virt < 2 ^ 47) (hpage : a.pages (virt / 4096) = none) :
    Follows (KernelPages F (· = virt / 4096) a) (k.mapHeapPage virt) (a.mapHeapPage virt) := by
  have hpure : k.mapHeapPage virt = (do
      let (k, frame) ← k.expectFrame
      let k ← (pure k : Exec Unit Kernel)
      k.expectMapped (Ring.kernel.mapping virt frame.start writable) >>= fun k => pure k) := by
    simp only [Kernel.mapHeapPage, Kernel.expectPage, Ring.mapping, pure_bind, bind_pure]
  rw [hpure, Account.mapHeapPage]
  refine h.mapFresh .kernel hlow hvirt (.inr rfl) hpage (fun k _ => pure k) fill_nothing
    (fun k _ => pure k) (fun x => some x.1) ?_
  exact fun k' a' frame hmap hkeeps => Follows.of_ok (.single hkeeps hmap)

/-- The pages of the heap. -/
def HeapPage (n : ℕ) : Prop := heapBase ≤ n * 4096 ∧ n * 4096 < heapBase + heapSize

instance (n : ℕ) : Decidable (HeapPage n) := inferInstanceAs (Decidable (_ ∧ _))

/-- **Mapping the heap.** -/
lemma Kernel.initHeap_follows (h : k.Keeps F ∅ a) (hpages : ∀ n, HeapPage n → a.pages n = none) :
    Follows (KernelPages F HeapPage a) k.initHeap a.initHeap := by
  have h30 : identityLimit = 0x40000000 := rfl
  have hcount : heapSize / frameSize = 256 := by decide
  have hheap : ∀ n, HeapPage n ↔ 0x40000 ≤ n ∧ n < 0x40000 + 256 := fun n => by
    rw [HeapPage, show heapBase = 0x40000000 from rfl, show heapSize = 0x100000 from rfl]
    omega
  -- after some pages those before the next one are mapped
  have hstart : KernelPages F (fun n => 0x40000 ≤ n ∧ n < 0x40000 + 0) a k a :=
    ⟨h, fun n hn => absurd (hn.1.trans_lt hn.2) (lt_irrefl _), fun n _ => rfl⟩
  have hloop := Follows.foldlM_range (R := fun count => KernelPages F
    (fun n => 0x40000 ≤ n ∧ n < 0x40000 + count) a) hstart 256 fun i hi k₁ a₁ h₁ => by
    obtain ⟨hkeeps, hinside, houtside⟩ := h₁
    have hnext : (heapBase + i * frameSize) / 4096 = 0x40000 + i := by
      rw [show heapBase = 0x40000 * 4096 from rfl, show frameSize = 4096 from rfl, ← Nat.add_mul,
        Nat.mul_div_cancel _ (by norm_num)]
    have haddr : heapBase + i * frameSize = 0x40000000 + i * 4096 := rfl
    have hnone : a₁.pages ((heapBase + i * frameSize) / 4096) = none := by
      rw [hnext, houtside (0x40000 + i) (by omega)]
      exact hpages (0x40000 + i) ((hheap _).mpr (by omega))
    refine (Kernel.mapHeapPage_follows hkeeps (by omega) (by omega) hnone).mono
      fun k' a' _ h' => ⟨h'.keeps, fun n hn => ?_, fun n hn => ?_⟩
    · by_cases hlast : n = 0x40000 + i
      · exact h'.inside n (hlast.trans hnext.symm)
      · rw [h'.outside n (hnext ▸ hlast)]
        exact hinside n (by omega)
    · rw [h'.outside n (by omega), houtside n (by omega)]
  rw [Kernel.initHeap, Account.initHeap, hcount]
  exact hloop.mono fun k' a' _ h' =>
    ⟨h'.keeps, fun n hn => h'.inside n ((hheap n).mp hn), fun n hn => h'.outside n fun hin =>
      hn ((hheap n).mpr hin)⟩

/-- Filling a frame in hand through the identity map. -/
lemma Kernel.Keeps.copyBytes_hand {blob : List UInt8} (hblob : blob.length ≤ 4096)
    (k : Kernel) (frame : PhysFrame) (a : Account) (halign : physFrameSize ∣ frame.start)
    (h : k.Keeps F {frame.index} a) :
    ∃ k', k.copyBytes frame.start blob = .ok k' ∧ k'.Keeps F {frame.index} a := by
  obtain ⟨frames, T, hbooks⟩ := h
  have h30 := identityLimit_eq
  have hin := Finset.mem_singleton_self frame.index
  have hlow := hbooks.start_lt halign (hbooks.hand_usable hin)
  obtain ⟨m, hm⟩ := halign
  rw [physFrameSize] at hm
  obtain ⟨k', hrun, hbooks', -⟩ := Books.copyBytes blob k frame.start frame.start hbooks
    fun j hj => by
      have hplace : frame.start + j < identityLimit := by omega
      refine ⟨⟨by omega, ?_⟩, if_pos hplace⟩
      rw [if_pos hplace]
      refine .inr (Finset.mem_singleton.mpr ?_)
      rw [PhysFrame.index, physFrameSize]
      omega
  exact ⟨k', hrun, frames, T, hbooks'⟩

/-- A store to a page. -/
lemma Account.storable_page {H : Finset ℕ} {virt f : ℕ} {ring : Ring} (hlow : identityLimit ≤ virt)
    (hvirt : virt < 2 ^ 48) (hpage : a.pages (virt / 4096) = some (ring, f)) :
    a.Storable F H virt ∧ a.lookup virt = some (f + virt % 4096) := by
  constructor
  · refine ⟨hvirt, ?_⟩
    rw [if_neg (not_lt.mpr hlow), hpage]
    rfl
  · rw [Account.lookup, if_neg (not_lt.mpr hlow), hpage]
    rfl

/-- **A program.** -/
lemma Kernel.mapUserProgram_follows (h : k.Keeps F ∅ a) {blob : List UInt8}
    (hblob : blob.length ≤ 4096) (hcode : a.pages (uvaCode / 4096) = none)
    (hstack : a.pages (uvaStack / 4096) = none) :
    Follows (fun x y => x.2 = y.2 ∧ x.1.Keeps F ∅ y.1 ∧ ∀ n, y.1.pages n =
        if n = uvaStack / 4096 then some (.user, y.2.2.start)
        else if n = uvaCode / 4096 then some (.user, y.2.1.start) else a.pages n)
      (k.mapUserProgram blob) a.mapUserProgram := by
  have h30 := identityLimit_eq
  have hcodeVa : uvaCode = 0x50000000 := rfl
  have hstackVa : uvaStack = 0x50100000 := rfl
  have hsplit : k.mapUserProgram blob = (do
      let (k, codeFrame) ← k.expectFrame
      let k ← k.copyBytes codeFrame.start blob
      let k ← k.expectMapped (Ring.user.mapping uvaCode codeFrame.start 0)
      (do
        let (k, stackFrame) ← k.expectFrame
        let k ← (pure k : Exec Unit Kernel)
        let k ← k.expectMapped (Ring.user.mapping uvaStack stackFrame.start writable)
        pure (k, codeFrame, stackFrame))) := rfl
  rw [hsplit, Account.mapUserProgram]
  refine h.mapFresh .user (by omega) (by omega) (.inl rfl) hcode
    (fun k frame => k.copyBytes frame.start blob) (Kernel.Keeps.copyBytes_hand hblob)
    (fun k codeFrame => do
      let (k, stackFrame) ← k.expectFrame
      let k ← (pure k : Exec Unit Kernel)
      let k ← k.expectMapped (Ring.user.mapping uvaStack stackFrame.start writable)
      pure (k, codeFrame, stackFrame))
    (fun x => x.1.mapFresh .user uvaStack >>= fun y => some (y.1, x.2, y.2)) ?_
  intro k₁ a₁ codeFrame hmap₁ hkeeps₁
  have hpages₁ := Account.mapFresh_pages hmap₁
  refine hkeeps₁.mapFresh .user (by omega) (by omega) (.inr rfl) ?_ (fun k _ => pure k)
    fill_nothing (fun k stackFrame => pure (k, codeFrame, stackFrame))
    (fun y => some (y.1, codeFrame, y.2)) ?_
  · rw [hpages₁, if_neg (by omega), hstack]
  · intro k₂ a₂ stackFrame hmap₂ hkeeps₂
    refine Follows.of_ok ⟨rfl, hkeeps₂, fun n => ?_⟩
    rw [Account.mapFresh_pages hmap₂, hpages₁]

/-- The secret lies on a page of the kernel. -/
def Kernel.Planted (k : Kernel) (a : Account) : Prop :=
  ∃ f, a.pages (secretVa / 4096) = some (.kernel, f) ∧
    ∀ j < secret.length, Lanes.byteAt k.paging.mem (f + j) = secret.getD j 0

/-- **The secret**, if the check of its page ends. -/
lemma Kernel.plantSecret_follows (h : k.Keeps F ∅ a) {fuel : ℕ} (hfuel : 0 < fuel)
    (hpage : a.pages (secretVa / 4096) = none) :
    Follows (fun k' a' => KernelPages F (· = secretVa / 4096) a k' a' ∧ k'.Planted a')
      (k.plantSecret fuel) a.plantSecret := by
  have h30 := identityLimit_eq
  have hva : secretVa = 0x60000000 := rfl
  have hlength : Kernel.secret.length = 32 := by decide
  have hsplit : k.plantSecret fuel = (do
      let (k, frame) ← k.expectFrame
      let k ← (pure k : Exec Unit Kernel)
      let k ← k.expectMapped (Ring.kernel.mapping secretVa frame.start writable)
      (do
        let k ← k.copyBytes secretVa Kernel.secret
        if ← k.paging.userRangeOk fuel secretVa Kernel.secret.length then
          Exec.panic .assertion
        else
          pure k)) := rfl
  rw [hsplit, Account.plantSecret]
  refine h.mapFresh .kernel (by omega) (by omega) (.inr rfl) hpage (fun k _ => pure k)
    fill_nothing (fun k _ => do
      let k ← k.copyBytes secretVa Kernel.secret
      if ← k.paging.userRangeOk fuel secretVa Kernel.secret.length then
        Exec.panic .assertion
      else
        pure k) (fun x => some x.1) ?_
  rintro k₁ a₁ frame hmap ⟨frames, T, hbooks⟩
  have hpages := Account.mapFresh_pages hmap
  obtain ⟨k₂, hcopy, hbooks₂, -, hbytes⟩ := Books.copyBytes Kernel.secret k₁ secretVa frame.start
    hbooks fun j hj => by
      have hpage₁ : a₁.pages ((secretVa + j) / 4096) = some (.kernel, frame.start) := by
        rw [hpages, if_pos (by omega)]
      have hoffset : (secretVa + j) % 4096 = j := by omega
      obtain ⟨hstore, hlookup⟩ := Account.storable_page (by omega) (by omega) hpage₁
      exact ⟨hstore, by rw [hlookup, hoffset]⟩
  -- the page is one of the kernel
  obtain ⟨b, hb, hiff⟩ : ∃ b, k₂.paging.userRangeOk fuel secretVa Kernel.secret.length = .ok b ∧
      (b = true ↔ RangeAccessible (fun n => (a₁.pages n).map Prod.fst = some .user) secretVa
        Kernel.secret.length) := by
    refine userRangeOk_eq _ (fun n hn => ?_) (by omega) (.inl (by omega))
    refine ⟨_, hbooks₂.guards.pageUserAccessible_eq hbooks₂.fresh (by omega), ?_⟩
    rw [Nat.mul_div_cancel n (by norm_num)]
    exact decide_eq_true_iff
  have hno : b = false := by
    rw [Bool.eq_false_iff, Ne, hiff]
    rintro (hzero | ⟨-, -, hall⟩)
    · omega
    · have hring : (a₁.pages (secretVa / 4096)).map Prod.fst = some .user :=
        hall (secretVa / 4096) le_rfl (by omega)
      rw [hpages, if_pos rfl] at hring
      cases hring
  subst hno
  dsimp only
  rw [hcopy, Exec.bind_ok, hb, Exec.bind_ok, if_neg Bool.false_ne_true]
  refine Follows.of_ok ⟨.single ⟨frames, T, hbooks₂⟩ hmap, frame.start, ?_, fun j hj => ?_⟩
  · rw [hpages, if_pos rfl]
  · rw [hbytes, if_pos (by omega), Nat.add_sub_cancel_left]

/-- **Taking the pages of a program back.** -/
lemma Kernel.Keeps.unmapUserProgram (h : k.Keeps F ∅ a) {codeFrame stackFrame : PhysFrame}
    (hcode : a.pages (uvaCode / 4096) = some (.user, codeFrame.start))
    (hstack : a.pages (uvaStack / 4096) = some (.user, stackFrame.start)) :
    ∃ k', k.unmapUserProgram codeFrame stackFrame = .ok k' ∧
      k'.Keeps F ∅ (a.unmapUserProgram codeFrame stackFrame) := by
  have hcodeVa : uvaCode = 0x50000000 := rfl
  have hstackVa : uvaStack = 0x50100000 := rfl
  obtain ⟨frames, T, hbooks⟩ := h
  have hne : stackFrame.index ≠ codeFrame.index := by
    intro heq
    have hsame : codeFrame.start = stackFrame.start := by
      rw [← frame_div (hbooks.page hcode).aligned, ← frame_div (hbooks.page hstack).aligned]
      exact congrArg (· * physFrameSize) heq.symm
    have hpages := hbooks.page_inj hcode (hsame ▸ hstack)
    omega
  obtain ⟨k₁, hrun₁, frames₁, T₁, hbooks₁⟩ := hbooks.unmap (by omega) hcode
  obtain ⟨k₂, hrun₂, frames₂, T₂, hbooks₂⟩ := hbooks₁.unmap (show uvaStack < 2 ^ 47 by omega)
    (by rw [Account.unmap_pages, if_neg (by omega), hstack])
  obtain ⟨k₃, hrun₃, -, frames₃, T₃, hbooks₃⟩ := hbooks₂.release (show codeFrame.index ∈ _ from
    Finset.mem_insert_of_mem (Finset.mem_insert_self _ _))
  obtain ⟨k₄, hrun₄, -, frames₄, T₄, hbooks₄⟩ := hbooks₃.release (show stackFrame.index ∈ _ from
    Finset.mem_erase.mpr ⟨hne, Finset.mem_insert_self _ _⟩)
  refine ⟨k₄, ?_, frames₄, T₄, ?_⟩
  · rw [Kernel.unmapUserProgram, hrun₁, Exec.bind_ok]
    dsimp only
    rw [hrun₂, Exec.bind_ok]
    dsimp only
    rw [hrun₃, Exec.bind_ok]
    dsimp only
    rw [hrun₄]
    rfl
  · have hempty : ((insert stackFrame.index (insert codeFrame.index (∅ : Finset ℕ))).erase
        codeFrame.index).erase stackFrame.index = ∅ := by
      ext i
      simp only [Finset.notMem_empty, Finset.mem_erase, Finset.mem_insert, iff_false]
      tauto
    rw [← hempty]
    exact hbooks₄

/-! ## Whole runs -/

/-- The kernel, and how far it has come: whether its heap is mapped, whether the secret is planted,
and the frames of the program that is mapped. -/
structure MemoryUse where
  kernel : Kernel
  heap : Bool
  secret : Bool
  program : Option (PhysFrame × PhysFrame)

/-- What the kernel does with its memory. -/
inductive MemoryEvent where
  | initHeap
  | plantSecret
  | mapUserProgram (blob : List UInt8)
  | unmapUserProgram
  | store (virt : ℕ) (b : UInt8)

namespace MemoryUse

/-- One step.  The heap is mapped once and the secret is planted once; a program is mapped when none
is, and its blob fits into a page.  Between these the kernel and the program store bytes: to any
page above the identity map, and below its end to memory that never belonged to the frame allocator,
which owns the frames `F`. -/
def Steps (F : Finset ℕ) (fuel : ℕ) (s : MemoryUse) : MemoryEvent → MemoryUse → Prop
  | .initHeap, s' => s.heap = false ∧ ∃ k, s.kernel.initHeap = .ok k ∧
      s' = { s with kernel := k, heap := true }
  | .plantSecret, s' => s.secret = false ∧ ∃ k, s.kernel.plantSecret fuel = .ok k ∧
      s' = { s with kernel := k, secret := true }
  | .mapUserProgram blob, s' => s.program = none ∧ blob.length ≤ 4096 ∧
      ∃ k frames, s.kernel.mapUserProgram blob = .ok (k, frames) ∧
        s' = { s with kernel := k, program := some frames }
  | .unmapUserProgram, s' => ∃ frames k, s.program = some frames ∧
      s.kernel.unmapUserProgram frames.1 frames.2 = .ok k ∧
      s' = { s with kernel := k, program := none }
  | .store virt b, s' => virt < 2 ^ 48 ∧
      (virt < identityLimit → virt / physFrameSize ∉ F) ∧
      ∃ k, s.kernel.storeByte virt b = .ok k ∧ s' = { s with kernel := k }

/-- For whom each page is mapped. -/
def rings (s : MemoryUse) (n : ℕ) : Option Ring :=
  if HeapPage n then if s.heap then some .kernel else none
  else if n = secretVa / 4096 then if s.secret then some .kernel else none
  else if n = uvaCode / 4096 ∨ n = uvaStack / 4096 then s.program.map fun _ => .user
  else none

/-- The kernel has an account whose pages are those that it has come to. -/
structure Fits (F : Finset ℕ) (s : MemoryUse) (a : Account) : Prop where
  keeps : s.kernel.Keeps F ∅ a
  pages : ∀ n, (a.pages n).map Prod.fst = s.rings n
  /-- The frames of the program are those that its pages are mapped to. -/
  program : ∀ frames, s.program = some frames →
    a.pages (uvaCode / 4096) = some (.user, frames.1.start) ∧
      a.pages (uvaStack / 4096) = some (.user, frames.2.start)

/-- The parts of the address space do not meet. -/
lemma not_heapPage : ¬ HeapPage (secretVa / 4096) ∧ ¬ HeapPage (uvaCode / 4096) ∧
    ¬ HeapPage (uvaStack / 4096) ∧ uvaCode / 4096 ≠ secretVa / 4096 ∧
    uvaStack / 4096 ≠ secretVa / 4096 := by decide

/-- The page of the secret. -/
lemma rings_secret (s : MemoryUse) :
    s.rings (secretVa / 4096) = if s.secret then some .kernel else none := by
  rw [rings, if_neg not_heapPage.1, if_pos rfl]

/-- The pages of a program. -/
lemma rings_program (s : MemoryUse) {n : ℕ} (h : n = uvaCode / 4096 ∨ n = uvaStack / 4096) :
    s.rings n = s.program.map fun _ => .user := by
  obtain ⟨-, hheapCode, hheapStack, hcodeSecret, hstackSecret⟩ := not_heapPage
  rw [rings, if_neg, if_neg, if_pos h]
  · rcases h with rfl | rfl
    exacts [hcodeSecret, hstackSecret]
  · rcases h with rfl | rfl
    exacts [hheapCode, hheapStack]

/-- New pages of the kernel keep the account. -/
lemma Fits.kernelPages {F : Finset ℕ} {s : MemoryUse} {a a' : Account} (h : s.Fits F a)
    {new : ℕ → Prop} {k : Kernel} {heap secret : Bool} (hnew : KernelPages F new a k a')
    (hcode : ¬ new (uvaCode / 4096)) (hstack : ¬ new (uvaStack / 4096))
    (hin : ∀ n, new n → rings ⟨k, heap, secret, s.program⟩ n = some .kernel)
    (hout : ∀ n, ¬ new n → rings ⟨k, heap, secret, s.program⟩ n = s.rings n) :
    Fits F ⟨k, heap, secret, s.program⟩ a' := by
  refine ⟨hnew.keeps, fun n => ?_, fun frames hframes => ?_⟩
  · by_cases hn : new n
    · rw [hnew.inside n hn, hin n hn]
    · rw [hnew.outside n hn, h.pages, hout n hn]
  · rw [hnew.outside _ hcode, hnew.outside _ hstack]
    exact h.program frames hframes

/-- A page that has come to nothing is no page of the account. -/
lemma Fits.page_none {F : Finset ℕ} {s : MemoryUse} {a : Account} (h : s.Fits F a) {n : ℕ}
    (hn : s.rings n = none) : a.pages n = none := Option.map_eq_none_iff.mp ((h.pages n).trans hn)

/-- **A program is mapped.** -/
lemma Fits.mapUserProgram {F : Finset ℕ} {s : MemoryUse} {a : Account} (h : s.Fits F a)
    (hprogram : s.program = none) {blob : List UInt8} (hblob : blob.length ≤ 4096) :
    Follows (fun x y => x.2 = y.2 ∧ Fits F ⟨x.1, s.heap, s.secret, some x.2⟩ y.1)
      (s.kernel.mapUserProgram blob) a.mapUserProgram := by
  have hfree : ∀ {n}, n = uvaCode / 4096 ∨ n = uvaStack / 4096 → a.pages n = none :=
    fun hn => h.page_none <| by rw [s.rings_program hn, hprogram, Option.map_none]
  refine (Kernel.mapUserProgram_follows h.keeps hblob (hfree (.inl rfl)) (hfree (.inr rfl))).mono ?_
  rintro ⟨k, frames⟩ ⟨a', frames'⟩ - ⟨hframes, hkeeps, hpages⟩
  obtain rfl : frames = frames' := hframes
  dsimp only at hpages hkeeps
  refine ⟨rfl, hkeeps, fun n => ?_, fun frames' hframes => ?_⟩
  · rw [hpages]
    split_ifs with hstack hcode
    · rw [rings_program _ (.inr hstack)]
      rfl
    · rw [rings_program _ (.inl hcode)]
      rfl
    · rw [h.pages]
      simp only [rings, if_neg (not_or.mpr ⟨hcode, hstack⟩)]
  · obtain rfl := Option.some.inj hframes
    have hne : uvaCode / 4096 ≠ uvaStack / 4096 := by decide
    rw [hpages, hpages, if_neg hne, if_pos rfl, if_pos rfl]
    exact ⟨rfl, rfl⟩

/-- **The pages of the program are taken back.** -/
lemma Fits.unmapUserProgram {F : Finset ℕ} {s : MemoryUse} {a : Account} (h : s.Fits F a)
    {frames : PhysFrame × PhysFrame} (hprogram : s.program = some frames) :
    ∃ k', s.kernel.unmapUserProgram frames.1 frames.2 = .ok k' ∧
      Fits F ⟨k', s.heap, s.secret, none⟩ (a.unmapUserProgram frames.1 frames.2) := by
  obtain ⟨hcode, hstack⟩ := h.program frames hprogram
  obtain ⟨k', hrun, hkeeps⟩ := h.keeps.unmapUserProgram hcode hstack
  refine ⟨k', hrun, hkeeps, fun n => ?_, nofun⟩
  rw [Account.unmapUserProgram_pages]
  split_ifs with hstack' hcode'
  · rw [rings_program _ (.inr hstack')]
    rfl
  · rw [rings_program _ (.inl hcode')]
    rfl
  · rw [h.pages]
    simp only [rings, if_neg (not_or.mpr ⟨hcode', hstack'⟩)]

/-- **A store leaves the account as it is.** -/
lemma Fits.store {F : Finset ℕ} {s : MemoryUse} {a : Account} (h : s.Fits F a) {virt : ℕ}
    {b : UInt8} {k : Kernel} (hvirt : virt < 2 ^ 48)
    (hlow : virt < identityLimit → virt / physFrameSize ∉ F)
    (hrun : s.kernel.storeByte virt b = .ok k) : Fits F { s with kernel := k } a := by
  obtain ⟨frames, T, hbooks⟩ := h.keeps
  have hstore : a.Storable F ∅ virt := by
    refine ⟨hvirt, ?_⟩
    split_ifs with hid
    · exact .inl (hlow hid)
    · -- the store has gone through, so the page is mapped
      rw [Kernel.storeByte, hbooks.translate_eq hvirt, Exec.bind_ok, Account.lookup,
        if_neg hid] at hrun
      cases hpage : a.pages (virt / 4096) with
      | none =>
        rw [hpage] at hrun
        cases hrun
      | some page => rfl
  obtain ⟨p, -, hrun', hbooks'⟩ := hbooks.storeByte hstore b
  obtain rfl := Except.ok.inj (hrun.symm.trans hrun')
  exact ⟨⟨frames, T, hbooks'⟩, h.pages, h.program⟩

/-- **Every step keeps the account.** -/
lemma Fits.step {F : Finset ℕ} {fuel : ℕ} (hfuel : 0 < fuel) {s s' : MemoryUse} {a : Account}
    (h : s.Fits F a) {e : MemoryEvent} (hstep : s.Steps F fuel e s') : ∃ a', s'.Fits F a' := by
  obtain ⟨hheapSecret, hheapCode, hheapStack, hcodeSecret, hstackSecret⟩ := not_heapPage
  cases e with
  | initHeap =>
    obtain ⟨hheap, k, hrun, rfl⟩ := hstep
    have hfree : ∀ n, HeapPage n → a.pages n = none := fun n hn => h.page_none <| by
      rw [rings, if_pos hn, hheap, if_neg Bool.false_ne_true]
    have hfollows := Kernel.initHeap_follows h.keeps hfree
    rw [hrun] at hfollows
    obtain ⟨a', -, hnew⟩ := hfollows.exists_of_ok
    refine ⟨a', h.kernelPages hnew hheapCode hheapStack (fun n hn => ?_) fun n hn => ?_⟩
    · rw [rings, if_pos hn, if_pos rfl]
    · simp only [rings, if_neg hn]
  | plantSecret =>
    obtain ⟨hsecret, k, hrun, rfl⟩ := hstep
    have hfree : a.pages (secretVa / 4096) = none := h.page_none <| by
      rw [rings_secret, hsecret, if_neg Bool.false_ne_true]
    have hfollows := Kernel.plantSecret_follows h.keeps hfuel hfree
    rw [hrun] at hfollows
    obtain ⟨a', -, hnew, -⟩ := hfollows.exists_of_ok
    refine ⟨a', h.kernelPages hnew hcodeSecret hstackSecret (fun n hn => ?_) fun n hn => ?_⟩
    · rw [hn, rings_secret, if_pos rfl]
    · simp only [rings, if_neg hn]
  | mapUserProgram blob =>
    obtain ⟨hprogram, hblob, k, frames, hrun, rfl⟩ := hstep
    have hfollows := h.mapUserProgram hprogram hblob
    rw [hrun] at hfollows
    obtain ⟨⟨a', frames'⟩, -, -, hfits⟩ := hfollows.exists_of_ok
    exact ⟨a', hfits⟩
  | unmapUserProgram =>
    obtain ⟨frames, k, hprogram, hrun, rfl⟩ := hstep
    obtain ⟨k', hrun', hfits⟩ := h.unmapUserProgram hprogram
    obtain rfl := Except.ok.inj (hrun.symm.trans hrun')
    exact ⟨_, hfits⟩
  | store virt b =>
    obtain ⟨hvirt, hlow, k, hrun, rfl⟩ := hstep
    exact ⟨a, h.store hvirt hlow hrun⟩

end MemoryUse

/-! ## One use each -/

/-- What a frame may be used for. -/
inductive FrameUse where
  | free
  | table
  | page (n : ℕ)

/-- A frame is used so: it is free in the bitmap, it is a table that the root leads to, or a page
above the identity map translates to it. -/
def Kernel.Uses (k : Kernel) (i : ℕ) : FrameUse → Prop
  | .free => k.allocator.isUsed i = .ok false
  | .table => ∃ level, k.paging.IsTable level (i * physFrameSize)
  | .page n => identityLimit ≤ n * 4096 ∧ n * 4096 < 2 ^ 48 ∧
      k.paging.translate (n * 4096) = .ok (some (i * physFrameSize))

namespace Books

variable {F H : Finset ℕ} {k : Kernel} {frames : ℕ → Option ℕ} {T : TableTree} {a : Account} {i : ℕ}

/-- The frames that are free in the bitmap. -/
lemma uses_free (h : Books F H k frames T a) : k.Uses i .free ↔ i ∈ a.free := by
  constructor
  · intro huse
    by_cases hi : i < frameCount
    · have hused := (h.refines.isUsed_eq hi).symm.trans huse
      exact not_not.mp (of_decide_eq_false (Except.ok.inj hused))
    · have hwords := bitmapWords_mul
      rw [Kernel.Uses, FrameAllocator.isUsed, if_neg (by omega)] at huse
      cases huse
  · intro hfree
    exact (h.refines.isUsed_eq (h.refines.below i hfree)).trans
      (congrArg Except.ok (decide_eq_false (not_not.mpr hfree)))

/-- The frames of tables. -/
lemma uses_table (h : Books F H k frames T a) :
    k.Uses i .table ↔ ∃ level q, T level q = some (i * physFrameSize) :=
  exists_congr fun _ => h.isTable_iff

/-- The frames of pages. -/
lemma uses_page (h : Books F H k frames T a) {n : ℕ} (hn : n * 4096 < 2 ^ 48) :
    k.Uses i (.page n) ↔
      identityLimit ≤ n * 4096 ∧ ∃ ring, a.pages n = some (ring, i * physFrameSize) := by
  have hround : n * 4096 / 4096 = n := Nat.mul_div_cancel n (by norm_num)
  rw [Kernel.Uses, h.translate_eq hn]
  refine and_congr_right fun hlow => ?_
  rw [Account.lookup, if_neg (not_lt.mpr hlow), hround, Nat.mul_mod_left]
  cases hpage : a.pages n with
  | none => simp
  | some page =>
    have hpow : n * 4096 < 281474976710656 := hn
    simp [Prod.ext_iff, hpow]

/-- **Every frame that was free at first has exactly one use**, if none is in hand and the pages lie
above the identity map. -/
lemma existsUnique_use (h : Books F ∅ k frames T a)
    (hplace : ∀ {n}, (a.pages n).isSome → identityLimit ≤ n * 4096 ∧ n * 4096 < 2 ^ 48)
    (hi : i ∈ F) : ∃! u, k.Uses i u := by
  have hstart : i * physFrameSize / physFrameSize = i := Nat.mul_div_cancel i (by decide)
  -- two uses of a frame are one
  have htable : ∀ {level q}, T level q = some (i * physFrameSize) → i ∉ a.free := fun ht hfree =>
    h.taken ht (hstart.symm ▸ hfree)
  have hpage : ∀ {n ring}, a.pages n = some (ring, i * physFrameSize) → Owned T a.free i :=
    fun {n ring} hn => by
      have howned := (h.page hn).owned
      rwa [hstart] at howned
  have hunique : ∀ {u v}, k.Uses i u → k.Uses i v → u = v := by
    intro u v hu hv
    match u, v with
    | .free, .free => rfl
    | .table, .table => rfl
    | .free, .table =>
      obtain ⟨_, _, ht⟩ := h.uses_table.mp hv
      exact absurd (h.uses_free.mp hu) (htable ht)
    | .table, .free =>
      obtain ⟨_, _, ht⟩ := h.uses_table.mp hu
      exact absurd (h.uses_free.mp hv) (htable ht)
    | .free, .page n =>
      obtain ⟨-, _, hn⟩ := (h.uses_page hv.2.1).mp hv
      exact absurd (h.uses_free.mp hu) (hpage hn).used
    | .page n, .free =>
      obtain ⟨-, _, hn⟩ := (h.uses_page hu.2.1).mp hu
      exact absurd (h.uses_free.mp hv) (hpage hn).used
    | .table, .page n =>
      obtain ⟨_, _, ht⟩ := h.uses_table.mp hu
      obtain ⟨-, _, hn⟩ := (h.uses_page hv.2.1).mp hv
      exact absurd hstart ((hpage hn).noTable ht)
    | .page n, .table =>
      obtain ⟨_, _, ht⟩ := h.uses_table.mp hv
      obtain ⟨-, _, hn⟩ := (h.uses_page hu.2.1).mp hu
      exact absurd hstart ((hpage hn).noTable ht)
    | .page n, .page n' =>
      obtain ⟨-, _, hn⟩ := (h.uses_page hu.2.1).mp hu
      obtain ⟨-, _, hn'⟩ := (h.uses_page hv.2.1).mp hv
      rw [h.page_inj hn hn']
  suffices huse : ∃ u, k.Uses i u from huse.imp fun u hu => ⟨hu, fun v hv => hunique hv hu⟩
  rcases h.cover i hi with hfree | hhand | ⟨level, q, t, ht, rfl⟩ | ⟨n, ring, f, hn, rfl⟩
  · exact ⟨.free, h.uses_free.mpr hfree⟩
  · exact absurd hhand (Finset.notMem_empty i)
  · refine ⟨.table, h.uses_table.mpr ⟨level, q, ?_⟩⟩
    rw [ht, frame_div (h.toPlaced.aligned h.fresh ht)]
  · obtain ⟨hlow, hhigh⟩ := hplace (Option.isSome_of_eq_some hn)
    refine ⟨.page n, (h.uses_page hhigh).mpr ⟨hlow, ring, ?_⟩⟩
    rw [hn, frame_div (h.page hn).aligned]

/-- **No other frame has a use.** -/
lemma not_uses (h : Books F H k frames T a) (hi : i ∉ F) (u : FrameUse) : ¬ k.Uses i u := by
  have hstart : i * physFrameSize / physFrameSize = i := Nat.mul_div_cancel i (by decide)
  intro hu
  refine hi ?_
  cases u with
  | free => exact h.free_usable (h.uses_free.mp hu)
  | table =>
    obtain ⟨_, _, ht⟩ := h.uses_table.mp hu
    exact hstart ▸ h.table_usable ht
  | page n =>
    obtain ⟨-, _, hn⟩ := (h.uses_page hu.2.1).mp hu
    exact hstart ▸ (h.page hn).usable

end Books

/-- The pages lie above the identity map. -/
lemma MemoryUse.rings_place {s : MemoryUse} {n : ℕ} (h : (s.rings n).isSome) :
    identityLimit ≤ n * 4096 ∧ n * 4096 < 2 ^ 48 := by
  have h30 : identityLimit = 0x40000000 := rfl
  rw [MemoryUse.rings] at h
  by_cases hheap : HeapPage n
  · have hsize : heapBase + heapSize = 0x40100000 := by decide
    have hbase : heapBase = 0x40000000 := rfl
    exact ⟨h30.trans_le (hbase ▸ hheap.1), hheap.2.trans (by rw [hsize]; norm_num)⟩
  rw [if_neg hheap] at h
  by_cases hsecret : n = secretVa / 4096
  · rw [hsecret]
    decide
  rw [if_neg hsecret] at h
  by_cases hprogram : n = uvaCode / 4096 ∨ n = uvaStack / 4096
  · rcases hprogram with rfl | rfl <;> decide
  · rw [if_neg hprogram] at h
    cases h

/-- At first no page is mapped. -/
lemma Account.first_pages {F : Finset ℕ} {a : Account} (h : Account.first F = some a) (n : ℕ) :
    a.pages n = none := by
  unfold Account.first at h
  split_ifs at h
  obtain rfl := Option.some.inj h
  rfl

/-- At first there is nothing above the identity map. -/
lemma MemoryUse.rings_boot (k : Kernel) (n : ℕ) :
    MemoryUse.rings ⟨k, false, false, none⟩ n = none := by
  simp only [MemoryUse.rings, Option.map_none, Bool.false_eq_true, if_false, ite_self]

/-- **What an account says of its kernel**: each frame that was free at first has one use, no other
frame has any, the pages are those of the parts that are mapped, and ring 3 has its own. -/
lemma MemoryUse.Fits.conserved {F : Finset ℕ} {s : MemoryUse} {a : Account} (h : s.Fits F a) :
    (∀ i ∈ F, ∃! u, s.kernel.Uses i u) ∧ (∀ i ∉ F, ∀ u, ¬ s.kernel.Uses i u) ∧
      ∀ virt, identityLimit ≤ virt → virt < 2 ^ 48 →
        (∃ p, s.kernel.paging.translate virt = .ok p ∧
          p.isSome = (s.rings (virt / 4096)).isSome) ∧
        s.kernel.paging.pageUserAccessible virt =
          .ok (decide (s.rings (virt / 4096) = some .user)) := by
  obtain ⟨frames, T, hbooks⟩ := h.keeps
  refine ⟨fun i hi => hbooks.existsUnique_use (fun {n} hn => ?_) hi,
    fun i hi u => hbooks.not_uses hi u, fun virt hid hvirt =>
      ⟨⟨_, hbooks.translate_eq hvirt, ?_⟩, ?_⟩⟩
  · rw [← Option.isSome_map (f := Prod.fst), h.pages] at hn
    exact MemoryUse.rings_place hn
  · rw [Account.lookup, if_neg (not_lt.mpr hid), Option.isSome_map, ← h.pages,
      Option.isSome_map]
  · rw [hbooks.guards.pageUserAccessible_eq hbooks.fresh hvirt, h.pages]

/-- **Every state that a run from boot reaches has an account.** -/
lemma MemoryUse.fits_of_run {F : Finset ℕ} {mem : ℕ → ℕ} {cr3 fuel : ℕ} {al : FrameAllocator}
    {k₀ : Kernel} {s : MemoryUse} {tr : List (Transition MemoryUse MemoryEvent)}
    (hrefines : Refines al F) (hlow : ∀ i ∈ F, i * physFrameSize < identityLimit)
    (hinit : (Kernel.atBoot mem cr3 al).init = .ok k₀) (hfuel : 0 < fuel)
    (hrun : Run (MemoryUse.Steps F fuel) ⟨k₀, false, false, none⟩ tr s) : ∃ a, s.Fits F a := by
  have hfirst := Kernel.init_follows mem cr3 hrefines hlow
  rw [hinit] at hfirst
  obtain ⟨a₀, ha₀, hkeeps⟩ := hfirst.exists_of_ok
  refine hrun.invariant (I := fun s => ∃ a, s.Fits F a)
    (fun _ _ _ ⟨_, h⟩ hstep => h.step hfuel hstep)
    ⟨a₀, hkeeps, fun n => ?_, nofun⟩
  rw [Account.first_pages ha₀, MemoryUse.rings_boot]
  rfl

/-- **Conservation of frames.**  Let the kernel boot on any memory map whose usable memory lies
below 1 GiB.  After its first tables it maps its heap, plants the secret, maps programs, unmaps them
and stores to their pages and its own, in any order.  In every state that such a run reaches, each
frame that was free at boot is free, or a table, or mapped at exactly one page above the identity
map, and just one of these; no other frame is any of these; the pages above the identity map are
those of the parts that are mapped then; and ring 3 has those of the program only. -/
theorem frame_conservation (regions : List MemoryRegion) (kernelStart kernelEnd : ℕ)
    (bootInfo : ℕ × ℕ) (al : FrameAllocator) (report : InitReport)
    (hframes : FrameAllocator.init (some regions) kernelStart kernelEnd bootInfo =
      .ok (al, report))
    (hlow : ∀ i ∈ freeFrames regions kernelStart kernelEnd bootInfo,
      i * physFrameSize < identityLimit)
    (mem : ℕ → ℕ) (cr3 : ℕ) (k₀ : Kernel) (hinit : (Kernel.atBoot mem cr3 al).init = .ok k₀)
    (fuel : ℕ) (hfuel : 0 < fuel) (s : MemoryUse) (tr : List (Transition MemoryUse MemoryEvent))
    (hrun : Run (MemoryUse.Steps (freeFrames regions kernelStart kernelEnd bootInfo) fuel)
      ⟨k₀, false, false, none⟩ tr s) :
    (∀ i ∈ freeFrames regions kernelStart kernelEnd bootInfo, ∃! u, s.kernel.Uses i u) ∧
      (∀ i ∉ freeFrames regions kernelStart kernelEnd bootInfo, ∀ u, ¬ s.kernel.Uses i u) ∧
      ∀ virt, identityLimit ≤ virt → virt < 2 ^ 48 →
        (∃ p, s.kernel.paging.translate virt = .ok p ∧
          p.isSome = (s.rings (virt / 4096)).isSome) ∧
        s.kernel.paging.pageUserAccessible virt =
          .ok (decide (s.rings (virt / 4096) = some .user)) := by
  have hrefines := refines_of_init hframes
  generalize freeFrames regions kernelStart kernelEnd bootInfo = F at *
  obtain ⟨a, hfits⟩ := MemoryUse.fits_of_run hrefines hlow hinit hfuel hrun
  exact hfits.conserved

/-- The free frames of the sample machine. -/
lemma mem_freeFrames_eightFrames (i : ℕ) :
    i ∈ freeFrames eightFrames 0 0 (0, 0) ↔ 0x10 ≤ i ∧ i < 0x18 := by
  have hcount := frameCount_eq
  have hzero : (0 : ℕ) < 2 ^ 63 := by norm_num
  simp only [freeFrames, usableFrames, eightFrames, Finset.mem_filter, Finset.mem_range,
    reserved_iff hzero, Overlaps, List.mem_singleton, exists_eq_left, hcount, MemoryRegion.Covers,
    true_and]
  omega

/-- The sample machine maps the program of the self-test and stores to its stack: then the frames of
the code and of the stack are its pages, each of them has one use, and ring 3 has both pages. -/
theorem frame_conservation_bootEight : ∃ k₀ s tr, bootEight = .ok k₀ ∧
    Run (MemoryUse.Steps (freeFrames eightFrames 0 0 (0, 0)) 1) ⟨k₀, false, false, none⟩ tr s ∧
    tr.map Transition.event = [.mapUserProgram userBlob, .store (uvaStack + 8) 0x46] ∧
    s.program = some (⟨0x13000⟩, ⟨0x16000⟩) ∧ (∃! u, s.kernel.Uses 0x13 u) ∧
    (∀ u, ¬ s.kernel.Uses 0x18 u) ∧
    s.kernel.paging.pageUserAccessible uvaStack = .ok true := by
  obtain ⟨a, report, k, ha, hinit, hk, -, -⟩ := bootEight_ok
  have hmap : (do
      let k ← bootEight
      let (k, f) ← k.mapUserProgram userBlob
      let _ ← k.storeByte (uvaStack + 8) 0x46
      pure f) = .ok (⟨0x13000⟩, ⟨0x16000⟩) := by decide +kernel
  rw [hk, Exec.bind_ok] at hmap
  obtain ⟨⟨k₁, f⟩, hrun₁, hmap⟩ := Exec.bind_eq_ok.mp hmap
  obtain ⟨k₂, hrun₂, hret⟩ := Exec.bind_eq_ok.mp hmap
  obtain rfl := Except.ok.inj hret
  have hstep₁ : MemoryUse.Steps (freeFrames eightFrames 0 0 (0, 0)) 1 ⟨k, false, false, none⟩
      (.mapUserProgram userBlob) ⟨k₁, false, false, some (⟨0x13000⟩, ⟨0x16000⟩)⟩ :=
    ⟨rfl, by decide, k₁, _, hrun₁, rfl⟩
  have hstep₂ : MemoryUse.Steps (freeFrames eightFrames 0 0 (0, 0)) 1
      ⟨k₁, false, false, some (⟨0x13000⟩, ⟨0x16000⟩)⟩ (.store (uvaStack + 8) 0x46)
      ⟨k₂, false, false, some (⟨0x13000⟩, ⟨0x16000⟩)⟩ :=
    ⟨by decide, fun h => absurd h (by decide), k₂, hrun₂, rfl⟩
  have hrun := (Run.nil _).cons hstep₂ |>.cons hstep₁
  obtain ⟨hone, hnone, hpages⟩ := frame_conservation eightFrames 0 0 (0, 0) a report ha
    freeFrames_eightFrames _ 0 k hinit 1 one_pos _ _ hrun
  exact ⟨k, _, _, hk, hrun, rfl, rfl, hone 0x13 ((mem_freeFrames_eightFrames _).mpr (by norm_num)),
    hnone 0x18 (fun h => absurd ((mem_freeFrames_eightFrames _).mp h) (by norm_num)),
    (hpages uvaStack (by decide) (by decide)).2⟩

end ZiranOS
