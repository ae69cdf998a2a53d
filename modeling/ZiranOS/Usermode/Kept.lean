import ZiranOS.Usermode.Instr
import ZiranOS.Usermode.Reuse

/-!
# What a program finds, and what it leaves alone

A program that is mapped finds its blob in its code page and what the kernel has put on its stack
page.  The pages that were there before keep their bytes: while it is mapped, while bytes are put on
its stack page, and while its pages are taken back (`Kernel.SameBytes`).
-/

namespace ZiranOS

open ProgLib

variable {F H : Finset ℕ} {k k' : Kernel} {frames : ℕ → Option ℕ} {T : TableTree}
  {S : Finset ℕ} {a a' : Account} {blob : List UInt8} {codeFrame stackFrame : PhysFrame} {p : ℕ}

/-! ## Memory outside of the tables -/

/-- Unmapping a page leaves the memory outside of the tables. -/
lemma mem_of_unmapPage {s s' : Paging} (h : Shape frames s T) (hf : FreshFrames frames)
    {virt : ℕ} (hvirt : virt < 2 ^ 48) {found : Bool} (hrun : s.unmapPage virt = .ok (s', found))
    (hp : T.Avoids p) : s'.mem p = s.mem p := by
  have hpage : virt / 4096 * 4096 < 2 ^ 48 := lt_of_le_of_lt (Nat.div_mul_le_self _ _) hvirt
  have hfind := findTable_eq h hf (virt / 4096 * 4096) 3 _ le_rfl (h.root_slot hpage)
  rw [slot_page, slot_succ, slot_zero] at hfind
  unfold Paging.unmapPage at hrun
  simp only [and_not64_frame (x := virt) (by omega), hfind, Exec.bind_ok] at hrun
  cases ht : T 0 (virt / 4096 / 512) with
  | none =>
    rw [ht] at hrun
    obtain ⟨rfl, -⟩ := Prod.mk.inj (Except.ok.inj hrun)
    rfl
  | some t =>
    simp only [ht, tableIndex_page, readEntry_eq h hf ht, Exec.bind_ok] at hrun
    split_ifs at hrun
    · obtain ⟨rfl, -⟩ := Prod.mk.inj (Except.ok.inj hrun)
      rfl
    · rw [writeEntry_eq (h.low hf ht)] at hrun
      obtain ⟨rfl, -⟩ := Prod.mk.inj (Except.ok.inj hrun)
      exact mem_setWord hp ht

/-- The word of a byte lies in the same frame. -/
lemma word_div_frame (p : ℕ) : p / 8 * 8 / physFrameSize = p / physFrameSize := by
  rw [physFrameSize]
  omega

/-- **Mapping a program leaves the frames of others.** -/
lemma Sound.mapUserProgram_byteAt (h : Sound k frames T S) (hblob : blob.length ≤ 4096)
    (hrun : k.mapUserProgram blob = .ok (k', codeFrame, stackFrame))
    (hown : Owned T S (p / physFrameSize)) :
    Lanes.byteAt k'.paging.mem p = Lanes.byteAt k.paging.mem p := by
  obtain ⟨⟨k₁, c⟩, htake, hrun⟩ := Exec.bind_eq_ok.mp hrun
  obtain ⟨k₂, hcopy, hrun⟩ := Exec.bind_eq_ok.mp hrun
  obtain ⟨k₃, hmap, hrun⟩ := Exec.bind_eq_ok.mp hrun
  obtain ⟨⟨k₄, d⟩, htake', hrun⟩ := Exec.bind_eq_ok.mp hrun
  obtain ⟨k₅, hmap', hret⟩ := Exec.bind_eq_ok.mp hrun
  obtain ⟨rfl, -⟩ := Prod.mk.inj (Except.ok.inj hret)
  have hc := h.expectFrame htake
  obtain ⟨frames₁, h₁⟩ := hc.sound
  have hdvd := hc.aligned
  obtain ⟨k₂', hcopy', h₂, -, hbytes⟩ := Sound.copyBytes hc.owned blob k₁ c.start h₁ fun j hj => by
    have hlow := hc.low
    have h30 := identityLimit_eq
    unfold physFrameSize at *
    omega
  obtain rfl := Except.ok.inj (hcopy.symm.trans hcopy')
  obtain ⟨T₁, hm⟩ := h₂.expectUserPage (by decide) hc.aligned hc.low (.inl rfl) hmap
  have hd := hm.sound.expectFrame htake'
  obtain ⟨frames₂, h₄⟩ := hd.sound
  obtain ⟨T₂, hm'⟩ := h₄.expectUserPage (by decide) hd.aligned hd.low (.inr rfl) hmap'
  have hown₁ := hm.owned hown.rest
  -- the frame of the code was free
  have hother : ¬ (c.start ≤ p ∧ p < c.start + blob.length) := by
    rintro ⟨hge, hlt⟩
    obtain ⟨i, hi, hstart, -⟩ := FrameSet.answer_spec hc.answer
    refine hown.used ?_
    have hsame : p / physFrameSize = i := by
      unfold physFrameSize at *
      omega
    rw [hsame]
    exact hi
  rw [hm'.byteAt_eq (hm'.owned hown₁.rest) rfl, hd.paging, hm.byteAt_eq hown₁ rfl, hbytes,
    if_neg hother, hc.paging]

/-! ## The pages that were there -/

/-- The pages of the account have the same bytes. -/
def Kernel.SameBytes (a : Account) (k k' : Kernel) : Prop :=
  ∀ n ring f, a.pages n = some (ring, f) → ∀ j < 4096,
    Lanes.byteAt k'.paging.mem (f + j) = Lanes.byteAt k.paging.mem (f + j)

/-- A byte of a page lies in its frame. -/
lemma PageFrame.div_eq {f j : ℕ} (h : PageFrame F H T S f) (hj : j < 4096) :
    (f + j) / physFrameSize = f / physFrameSize := by
  obtain ⟨m, rfl⟩ := h.aligned
  rw [physFrameSize]
  omega

namespace Books

/-- **Unmapping a page leaves the bytes of all pages.** -/
lemma unmap_sameBytes (h : Books F H k frames T a) {virt : ℕ} (hvirt : virt < 2 ^ 48)
    {r : PagingResult} (hrun : k.call (.unmapPage virt) = .ok (k', r)) :
    Kernel.SameBytes a k k' := by
  intro n ring f hpage j hj
  have hframe := h.page hpage
  obtain ⟨hcall, -⟩ := h.toSound.call_eq hrun
  obtain ⟨⟨s', found⟩, hunmap, hret⟩ := Exec.bind_eq_ok.mp hcall
  obtain ⟨rfl, -⟩ := Prod.mk.inj (Except.ok.inj hret)
  refine Lanes.byteAt_congr (mem_of_unmapPage h.toShape h.fresh hvirt hunmap
    (hframe.owned.avoids h.toPlaced h.fresh ?_))
  rw [word_div_frame, hframe.div_eq hj]

end Books

namespace Kernel

/-- Freeing a frame leaves the memory. -/
lemma free_paging {frame : PhysFrame} {r : FreeOutcome} (hrun : k.free frame = .ok (k', r)) :
    k'.paging = k.paging := by
  obtain ⟨x, -, hret⟩ := Exec.bind_eq_ok.mp hrun
  obtain ⟨rfl, -⟩ := Prod.mk.inj (Except.ok.inj hret)
  rfl

/-- **Taking a program back leaves the bytes of all other pages.** -/
lemma Keeps.unmapUserProgram_sameBytes (h : k.Keeps F ∅ a')
    (hcode : a'.pages (uvaCode / 4096) = some (.user, codeFrame.start))
    (hpages : ∀ n page, a.pages n = some page → a'.pages n = some page ∧ n ≠ uvaCode / 4096)
    (hrun : k.unmapUserProgram codeFrame stackFrame = .ok k') : SameBytes a k k' := by
  obtain ⟨frames, T, hbooks⟩ := h
  obtain ⟨⟨k₁, r₁⟩, hrun₁, hrun⟩ := Exec.bind_eq_ok.mp hrun
  obtain ⟨⟨k₂, r₂⟩, hrun₂, hrun⟩ := Exec.bind_eq_ok.mp hrun
  obtain ⟨⟨k₃, r₃⟩, hfree₃, hrun⟩ := Exec.bind_eq_ok.mp hrun
  obtain ⟨⟨k₄, r₄⟩, hfree₄, hret⟩ := Exec.bind_eq_ok.mp hrun
  obtain rfl := Except.ok.inj hret
  obtain ⟨k₁', hrun₁', frames₁, T₁, hbooks₁⟩ := hbooks.unmap (by decide) hcode
  obtain ⟨rfl, -⟩ := Prod.mk.inj (Except.ok.inj (hrun₁.symm.trans hrun₁'))
  intro n ring f hpage j hj
  obtain ⟨hpage', hne⟩ := hpages n _ hpage
  rw [free_paging hfree₄, free_paging hfree₃,
    hbooks₁.unmap_sameBytes (by decide) hrun₂ n ring f ?_ j hj,
    hbooks.unmap_sameBytes (by decide) hrun₁ n ring f hpage' j hj]
  rw [Account.unmap_pages, if_neg hne, hpage']

end Kernel

/-! ## A program that is mapped -/

/-- A program is mapped: its pages, its blob, and the pages that were there before. -/
structure ProgramAt (F : Finset ℕ) (k : Kernel) (a : Account) (blob : List UInt8) (k' : Kernel)
    (a' : Account) (codeFrame stackFrame : PhysFrame) : Prop where
  keeps : k'.Keeps F ∅ a'
  pages : ∀ n, a'.pages n = if n = uvaStack / 4096 then some (.user, stackFrame.start)
    else if n = uvaCode / 4096 then some (.user, codeFrame.start) else a.pages n
  /-- The blob lies in the frame of the code. -/
  code : ∀ j b, blob[j]? = some b → Lanes.byteAt k'.paging.mem (codeFrame.start + j) = b
  /-- The other pages are as before. -/
  same : Kernel.SameBytes a k k'

namespace Books

/-- What ring 3 reads on a page of its own. -/
lemma userByte_user (h : Books F H k frames T a) {virt f : ℕ} (hlow : identityLimit ≤ virt)
    (hvirt : virt < 2 ^ 48) (hpage : a.pages (virt / 4096) = some (.user, f)) :
    k.userByte virt = .ok (some (Lanes.byteAt k.paging.mem (f + virt % 4096))) := by
  rw [Kernel.userByte, h.guards.pageUserAccessible_eq h.fresh hvirt, hpage, Exec.bind_ok,
    h.translate_eq hvirt, Account.lookup, if_neg (not_lt.mpr hlow), hpage]
  rfl

/-- Ring 3 reads nothing on a page that is not its own. -/
lemma userByte_none (h : Books F H k frames T a) {virt : ℕ} (hvirt : virt < 2 ^ 48)
    (hpage : (a.pages (virt / 4096)).map Prod.fst ≠ some .user) :
    k.userByte virt = .ok none := by
  rw [Kernel.userByte, h.guards.pageUserAccessible_eq h.fresh hvirt, decide_eq_false hpage]
  rfl

end Books

/-- What a program reads at an address of the lower half. -/
lemma Kernel.userRead_eq {virt : ℕ} (hvirt : virt < 2 ^ 47) {b : Option UInt8}
    (hbyte : k.userByte virt = .ok b) : k.userRead (BitVec.ofNat 64 virt) = b := by
  obtain ⟨hcanonical, hbits⟩ := canonicalAddr_of_lt hvirt
  rw [Kernel.userRead, if_pos hcanonical, hbits, hbyte]
  rfl

/-- **Mapping a program.** -/
lemma Kernel.mapUserProgram_at (h : k.Keeps F ∅ a) (hblob : blob.length ≤ 4096)
    (hcode : a.pages (uvaCode / 4096) = none) (hstack : a.pages (uvaStack / 4096) = none) :
    Follows (fun x y => x.2 = y.2 ∧ ProgramAt F k a blob x.1 y.1 x.2.1 x.2.2)
      (k.mapUserProgram blob) a.mapUserProgram := by
  have hfollows := Kernel.mapUserProgram_follows h hblob hcode hstack
  cases hmap : a.mapUserProgram with
  | none =>
    rw [hmap] at hfollows
    exact hfollows
  | some y =>
    rw [hmap] at hfollows
    obtain ⟨⟨k', codeFrame, stackFrame⟩, hrun, hsame, hkeeps, hpages⟩ := hfollows
    refine ⟨_, hrun, hsame, hkeeps, fun n => ?_, fun j b hb => ?_, fun n ring f hpage j hj => ?_⟩
    · rw [hpages, ← hsame]
    · obtain ⟨frames, T, hbooks⟩ := h
      obtain ⟨frames', T', hbooks'⟩ := hkeeps
      obtain ⟨hlen, rfl⟩ := List.getElem?_eq_some_iff.mp hb
      -- ring 3 reads the blob on the code page
      have hread := (hbooks.toSound.mapUserProgram hblob hrun).codeByte j (by omega)
      have huva : uvaCode = 0x50000000 := rfl
      have h30 := identityLimit_eq
      have hpage : y.1.pages ((uvaCode + j) / 4096) = some (.user, codeFrame.start) := by
        have hne : uvaCode / 4096 ≠ uvaStack / 4096 := by decide
        rw [show (uvaCode + j) / 4096 = uvaCode / 4096 by omega, hpages, if_neg hne, if_pos rfl,
          ← hsame]
      rw [hbooks'.userByte_user (by omega) (by omega) hpage, if_pos hlen,
        List.getD_eq_getElem _ _ hlen, show (uvaCode + j) % 4096 = j by omega] at hread
      exact Option.some.inj (Except.ok.inj hread)
    · obtain ⟨frames, T, hbooks⟩ := h
      have hframe := hbooks.page hpage
      refine hbooks.toSound.mapUserProgram_byteAt hblob hrun ?_
      rw [hframe.div_eq hj]
      exact hframe.owned

namespace ProgramAt

/-- The page of the code. -/
lemma code_page (h : ProgramAt F k a blob k' a' codeFrame stackFrame) :
    a'.pages (uvaCode / 4096) = some (.user, codeFrame.start) := by
  have hne : uvaCode / 4096 ≠ uvaStack / 4096 := by decide
  rw [h.pages, if_neg hne, if_pos rfl]

/-- The page of the stack. -/
lemma stack_page (h : ProgramAt F k a blob k' a' codeFrame stackFrame) :
    a'.pages (uvaStack / 4096) = some (.user, stackFrame.start) := by
  rw [h.pages, if_pos rfl]

/-- The other pages. -/
lemma other_page (h : ProgramAt F k a blob k' a' codeFrame stackFrame) {n : ℕ}
    (hcode : n ≠ uvaCode / 4096) (hstack : n ≠ uvaStack / 4096) : a'.pages n = a.pages n := by
  rw [h.pages, if_neg hstack, if_neg hcode]

/-- The pages that were there before are others. -/
lemma ne_of_page (hcode : a.pages (uvaCode / 4096) = none)
    (hstack : a.pages (uvaStack / 4096) = none) {n : ℕ} {page : Ring × ℕ}
    (hpage : a.pages n = some page) : n ≠ uvaCode / 4096 ∧ n ≠ uvaStack / 4096 := by
  constructor <;> rintro rfl
  · rw [hcode] at hpage
    cases hpage
  · rw [hstack] at hpage
    cases hpage

/-- **The program finds its blob.** -/
lemma loaded (h : ProgramAt F k a blob k' a' codeFrame stackFrame) (hblob : blob.length ≤ 4096) :
    Loaded k'.userRead uvaCode blob := by
  intro j b hb
  obtain ⟨frames, T, hbooks⟩ := h.keeps
  obtain ⟨hlen, -⟩ := List.getElem?_eq_some_iff.mp hb
  have huva : uvaCode = 0x50000000 := rfl
  have h30 := identityLimit_eq
  have hpage : a'.pages ((uvaCode + j) / 4096) = some (.user, codeFrame.start) := by
    rw [show (uvaCode + j) / 4096 = uvaCode / 4096 by omega, h.code_page]
  refine Kernel.userRead_eq (by omega) ?_
  rw [hbooks.userByte_user (by omega) (by omega) hpage, show (uvaCode + j) % 4096 = j by omega,
    h.code j b hb]

/-- **Putting bytes on the stack page.** -/
lemma preload (h : ProgramAt F k a blob k' a' codeFrame stackFrame)
    (hcode : a.pages (uvaCode / 4096) = none) (hstack : a.pages (uvaStack / 4096) = none)
    (hblob : blob.length ≤ 4096) {bytes : List UInt8} (hbytes : bytes.length ≤ 4096) :
    ∃ k₂, k'.copyBytes uvaStack bytes = .ok k₂ ∧
      ProgramAt F k a blob k₂ a' codeFrame stackFrame ∧
      ∀ j < bytes.length, Lanes.byteAt k₂.paging.mem (stackFrame.start + j) = bytes.getD j 0 := by
  obtain ⟨frames, T, hbooks⟩ := h.keeps
  have huva : uvaStack = 0x50100000 := rfl
  have h30 := identityLimit_eq
  have hstackFrame := hbooks.page h.stack_page
  obtain ⟨k₂, hcopy, hbooks₂, -, hread⟩ := Books.copyBytes bytes k' uvaStack stackFrame.start
    hbooks fun j hj => by
      have hpage : a'.pages ((uvaStack + j) / 4096) = some (.user, stackFrame.start) := by
        rw [show (uvaStack + j) / 4096 = uvaStack / 4096 by omega, h.stack_page]
      obtain ⟨hstore, hlookup⟩ := Account.storable_page (by omega) (by omega) hpage
      exact ⟨hstore, by rw [hlookup, show (uvaStack + j) % 4096 = j by omega]⟩
  -- the bytes of the other pages lie in other frames
  have hother : ∀ {n ring f}, a'.pages n = some (ring, f) → n ≠ uvaStack / 4096 → ∀ j < 4096,
      Lanes.byteAt k₂.paging.mem (f + j) = Lanes.byteAt k'.paging.mem (f + j) := by
    intro n ring f hpage hne j hj
    have hframe := hbooks.page hpage
    rw [hread, if_neg]
    rintro ⟨hge, hlt⟩
    obtain ⟨m, hm⟩ := Nat.exists_eq_add_of_le hge
    have hdiv := hstackFrame.div_eq (j := m) (by omega)
    rw [← hm, hframe.div_eq hj] at hdiv
    have hsame : f = stackFrame.start := by
      rw [← frame_div hframe.aligned, hdiv, frame_div hstackFrame.aligned]
    exact hne (hbooks.page_inj hpage (hsame ▸ h.stack_page))
  refine ⟨k₂, hcopy, ⟨⟨frames, T, hbooks₂⟩, h.pages, fun j b hb => ?_,
    fun n ring f hpage j hj => ?_⟩, fun j hj => ?_⟩
  · obtain ⟨hlen, -⟩ := List.getElem?_eq_some_iff.mp hb
    rw [hother h.code_page (by decide) j (by omega), h.code j b hb]
  · have hne := ne_of_page hcode hstack hpage
    rw [hother ((h.other_page hne.1 hne.2).trans hpage) hne.2 j hj, h.same n ring f hpage j hj]
  · rw [hread, if_pos (by omega), Nat.add_sub_cancel_left]

/-- **Taking the program back.** -/
lemma unmap (h : ProgramAt F k a blob k' a' codeFrame stackFrame)
    (hcode : a.pages (uvaCode / 4096) = none) (hstack : a.pages (uvaStack / 4096) = none) :
    ∃ k₂, k'.unmapUserProgram codeFrame stackFrame = .ok k₂ ∧
      k₂.Keeps F ∅ (a'.unmapUserProgram codeFrame stackFrame) ∧ Kernel.SameBytes a k k₂ := by
  obtain ⟨k₂, hrun, hkeeps⟩ := h.keeps.unmapUserProgram h.code_page h.stack_page
  refine ⟨k₂, hrun, hkeeps, fun n ring f hpage j hj => ?_⟩
  have hsame := h.keeps.unmapUserProgram_sameBytes (a := a) h.code_page (fun n page hpage => by
    have hne := ne_of_page hcode hstack hpage
    exact ⟨(h.other_page hne.1 hne.2).trans hpage, hne.1⟩) hrun
  rw [hsame n ring f hpage j hj, h.same n ring f hpage j hj]

end ProgramAt

end ZiranOS
