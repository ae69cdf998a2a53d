import ZiranOS.Boot.EarlyTables
import ZiranOS.Usermode.Pages
import ZiranOS.Usermode.Stale

/-!
# From the tables of the boot code to those of the kernel

The kernel starts on the tables that the boot code has left in its image.  It stands up the frame
allocator, which keeps the image for itself, builds tables of its own in frames that the allocator
hands out, and switches to them.  Building writes to these frames only (`buildAddressSpace_mem`),
so the old tables are valid up to the switch, and an address means the same before and after it.
-/

namespace ZiranOS

open ProgLib

variable {frames : ℕ → Option ℕ} {s s' : Paging} {a : ℕ}

/-! ## Where building writes -/

/-- A write to an entry changes that entry only. -/
lemma writeEntry_mem {table index entry : ℕ} (h : s.writeEntry table index entry = .ok s')
    (hne : a ≠ table + 8 * index) : s'.mem a = s.mem a := by
  obtain ⟨t, ht, hret⟩ := Exec.bind_eq_ok.mp h
  obtain rfl := Except.ok.inj hret
  rw [physToVirt] at ht
  split_ifs at ht
  · obtain rfl := Except.ok.inj ht
    exact Function.update_of_ne hne _ _
  · cases ht

/-- So do writes to several entries. -/
lemma foldlM_writeEntry_mem {table : ℕ} (entry : ℕ → ℕ) : ∀ (l : List ℕ) (s s' : Paging),
    l.foldlM (fun s i => s.writeEntry table i (entry i)) s = .ok s' →
    (∀ i ∈ l, a ≠ table + 8 * i) → s'.mem a = s.mem a := by
  intro l
  induction l with
  | nil =>
    intro s s' h _
    obtain rfl := Except.ok.inj h
    rfl
  | cons i l ih =>
    intro s s' h hne
    rw [List.foldlM_cons] at h
    obtain ⟨s₁, hfirst, hrest⟩ := Exec.bind_eq_ok.mp h
    rw [ih s₁ s' hrest fun j hj => hne j (List.mem_cons_of_mem i hj)]
    exact writeEntry_mem hfirst (hne i List.mem_cons_self)

/-- A frame does not meet an address. -/
def Misses (f a : ℕ) : Prop := ¬ (f ≤ a ∧ a < f + frameSize)

/-- Zeroing a frame that does not meet an address. -/
lemma zeroed_mem {f : ℕ} (h : Misses f a) : (s.zeroed f).mem a = s.mem a :=
  if_neg fun hin => h ⟨hin.1, hin.2.1⟩

/-- An entry of a frame that does not meet an address. -/
lemma Misses.ne_entry {f i : ℕ} (h : Misses f a) (hi : i < 512) : a ≠ f + 8 * i := by
  rintro rfl
  refine h ⟨Nat.le_add_right _ _, ?_⟩
  rw [frameSize]
  omega

/-- **Building the first address space writes to its three frames only.** -/
lemma buildAddressSpace_mem (hf : FreshFrames frames) {pml4 : ℕ}
    (hb : s.buildAddressSpace frames = .ok (s', pml4))
    (hmiss : ∀ n < 3, ∀ f, frames (s.allocs + n) = some f → Misses f a) : s'.mem a = s.mem a := by
  obtain ⟨h0, pdpt, pd, h1, h2⟩ := buildAddressSpace_eq_ok hf hb
  have hpml4 := hmiss 0 (by decide) _ h0
  have hpdpt := hmiss 1 (by decide) _ h1
  have hpd := hmiss 2 (by decide) _ h2
  simp only [Paging.buildAddressSpace, expectTable_some hf h0, Exec.bind_ok,
    expectTable_some hf (s := s.zeroed pml4) h1,
    expectTable_some hf (s := (s.zeroed pml4).zeroed pdpt) h2] at hb
  obtain ⟨s₁, hfill, hb⟩ := Exec.bind_eq_ok.mp hb
  obtain ⟨s₂, hthird, hb⟩ := Exec.bind_eq_ok.mp hb
  obtain ⟨s₃, hroot, hret⟩ := Exec.bind_eq_ok.mp hb
  obtain ⟨rfl, -⟩ := Prod.mk.inj (Except.ok.inj hret)
  rw [writeEntry_mem hroot (hpml4.ne_entry (by decide)),
    writeEntry_mem hthird (hpdpt.ne_entry (by decide)),
    foldlM_writeEntry_mem Paging.identityEntry _ _ _ hfill
      fun i hi => hpd.ne_entry (List.mem_range.mp hi),
    zeroed_mem hpd, zeroed_mem hpdpt, zeroed_mem hpml4]

/-! ## The switch -/

/-- The frames of the kernel's image are not free. -/
lemma misses_of_image {regions : List MemoryRegion} {kernelStart kernelEnd : ℕ}
    {bootInfo : ℕ × ℕ} (hend : kernelEnd < 2 ^ 63) (hin : kernelStart ≤ a ∧ a < kernelEnd)
    {n f : ℕ}
    (hf : FrameSet.answer (freeFrames regions kernelStart kernelEnd bootInfo) n = some f) :
    Misses f a := by
  obtain ⟨i, hi, rfl, -⟩ := FrameSet.answer_spec hf
  have hfree := FrameSet.iterate_rest_subset _ (Nat.zero_le n) hi
  rintro ⟨hlo, hhi⟩
  have hindex : a / physFrameSize = i := by
    rw [physFrameSize] at hlo hhi ⊢
    rw [frameSize] at hhi
    omega
  exact image_notMem_freeFrames hend hin (hindex ▸ hfree)

/-- The memory as paging sees it: a word for every address. -/
def wordsOf (m : Memory) (a : ℕ) : ℕ := (m.read64 (BitVec.ofNat 64 a)).toNat

/-- **Switching to the tables of the kernel changes the meaning of no address.**  When the checks of
the boot code pass, it leaves tables in the image.  Whatever else is in memory when the kernel
stands up its frame allocator over the memory map, with at least three free frames and all of them
below 1 GiB, and builds its own tables: nothing of the image is written, the old tables translate as
before up to the switch, the new ones translate every address as the old ones did, and they are
other tables. -/
theorem init_handover (p : Processor) (img : StartImage) {fuel : ℕ} (hfuel : 512 ≤ fuel)
    (s : StartCpu) (hzero : Set.EqOn s.mem (fun _ => 0) img.tables)
    (hcheck : failedCheck p s = none) (regions : List MemoryRegion) (kernelStart kernelEnd : ℕ)
    (bootInfo : ℕ × ℕ) (hend : kernelEnd < 2 ^ 63)
    (himage : kernelStart ≤ img.pageTableL4.toNat ∧ img.pageTableL4.toNat + 0x3000 ≤ kernelEnd)
    (hlow : ∀ i ∈ freeFrames regions kernelStart kernelEnd bootInfo,
      i * physFrameSize < identityLimit)
    (hcard : 3 ≤ (freeFrames regions kernelStart kernelEnd bootInfo).card)
    (al : FrameAllocator) (report : InitReport)
    (hframes : FrameAllocator.init (some regions) kernelStart kernelEnd bootInfo =
      .ok (al, report)) :
    ∃ s', start p img fuel s = .ok s' ∧ ∀ mem, Set.EqOn mem s'.mem img.tables →
      ∃ k, (Kernel.atBoot (wordsOf mem) s'.cr3.toNat al).init = .ok k ∧
        (∀ a, kernelStart ≤ a → a < kernelEnd → k.paging.mem a = wordsOf mem a) ∧
        (∀ virt < 2 ^ 48, k.paging.translateFrom s'.cr3.toNat virt = s'.paging.translate virt) ∧
        (∀ virt < 2 ^ 48, k.paging.translate virt = s'.paging.translate virt) ∧
        k.paging.cr3 ≠ s'.cr3.toNat := by
  obtain ⟨s', hrun, -, hlong, htables, -⟩ := (start_cases p img hfuel s hzero).2 hcheck
  refine ⟨s', hrun, fun mem hmem => ?_⟩
  obtain ⟨s₀, pml4, a', hbuild, -, -, hinit⟩ := Kernel.init_eq_ok (wordsOf mem)
    s'.cr3.toNat (refines_of_init hframes) hlow hcard
  have hfresh := freshFrames_answer hlow
  have hkept : ∀ a, kernelStart ≤ a → a < kernelEnd → s₀.mem a = wordsOf mem a :=
    fun a hstart hstop => buildAddressSpace_mem hfresh hbuild fun n _ f hf =>
      misses_of_image hend ⟨hstart, hstop⟩ hf
  have hold : IdentityAt (s₀.writeCr3 pml4) img.pageTableL4.toNat :=
    (htables.congr hmem).identityAt (s := { s' with mem := mem }).congr
      fun a hstart hstop => hkept a (by omega) (by omega)
  obtain ⟨T, hshape, hnone⟩ := buildAddressSpace_shape hfresh hbuild
  have htranslate : ∀ virt < 2 ^ 48, s'.paging.translate virt =
      .ok (if virt < identityLimit then some virt else none) :=
    fun virt hvirt => translate_of_identityTables htables hlong.root hvirt
  refine ⟨_, hinit, hkept, fun virt hvirt => ?_, fun virt hvirt => ?_, ?_⟩
  · rw [htranslate virt hvirt, hlong.root]
    exact hold.translateFrom img.aligned img.tables_low hvirt
  · rw [htranslate virt hvirt, translate_eq hshape hfresh hvirt, Paging.target, hnone]
    rfl
  · -- the new root is a free frame, and the old one lies in the image
    have hmiss : Misses pml4 img.pageTableL4.toNat :=
      misses_of_image hend ⟨himage.1, by omega⟩ (buildAddressSpace_eq_ok hfresh hbuild).1
    intro heq
    have hroot : pml4 = img.pageTableL4.toNat := by
      rw [← hlong.root]
      exact heq
    exact hmiss ⟨hroot.le, by rw [hroot, frameSize]; omega⟩

/-! ### A sample machine -/

/-- Usable memory around the image. -/
def sampleRegions : List MemoryRegion := [⟨0x100000, 0x120000, memoryKindUsable⟩]

/-- The frames behind the image are free, and all free frames lie in the identity map. -/
lemma freeFrames_sampleRegions :
    {0x208, 0x209, 0x20a} ⊆ freeFrames sampleRegions 0x100000 0x208000 (0x9500, 0x9600) ∧
      ∀ i ∈ freeFrames sampleRegions 0x100000 0x208000 (0x9500, 0x9600),
        i * physFrameSize < identityLimit := by
  have hcount := frameCount_eq
  have hkernel : (0x208000 : ℕ) < 2 ^ 63 := by norm_num
  have hinfo : (0x9600 : ℕ) < 2 ^ 63 := by norm_num
  constructor
  · intro i hi
    have hrange : 0x208 ≤ i ∧ i ≤ 0x20a := by
      simp only [Finset.mem_insert, Finset.mem_singleton] at hi
      omega
    simp only [freeFrames, usableFrames, Finset.mem_filter, Finset.mem_range,
      reserved_iff hkernel, reserved_iff hinfo, Overlaps, hcount]
    refine ⟨⟨by omega, _, List.mem_singleton.mpr rfl, ?_⟩, by omega, by omega, by omega⟩
    refine ⟨rfl, ?_, ?_⟩ <;> dsimp only <;> omega
  · intro i hi
    have h30 := identityLimit_eq
    obtain ⟨-, r, hr, -, -, hstop⟩ := Finset.mem_filter.mp (Finset.mem_filter.mp hi).1
    obtain rfl := List.mem_singleton.mp hr
    have hlt : 4096 * (i + 1) ≤ 0x100000 + 0x120000 := hstop
    rw [physFrameSize]
    omega

/-- The sample machine goes over to tables of its own: the screen and the first unmapped address
mean the same as before. -/
theorem init_handover_sampleRegions : ∃ s' al k,
    start sampleProcessor sampleStart 512 (sampleLoader multiboot2Magic) = .ok s' ∧
      (Kernel.atBoot (wordsOf s'.mem) s'.cr3.toNat al).init = .ok k ∧
      k.paging.translate 0xb8000 = s'.paging.translate 0xb8000 ∧
      k.paging.translate 0x40000000 = s'.paging.translate 0x40000000 ∧
      k.paging.cr3 ≠ s'.cr3.toNat := by
  obtain ⟨hfree, hlow⟩ := freeFrames_sampleRegions
  have hcard := (Finset.card_le_card hfree)
  obtain ⟨⟨al, report⟩, hframes⟩ : ∃ r, FrameAllocator.init (some sampleRegions) 0x100000 0x208000
      (0x9500, 0x9600) = .ok r := by
    have husable : (usableFrames sampleRegions).Nonempty :=
      ⟨0x208, (Finset.mem_filter.mp (hfree (by decide))).1⟩
    obtain ⟨al, report, hinit, -⟩ := init_refines husable 0x100000 0x208000 (0x9500, 0x9600)
    exact ⟨_, hinit⟩
  obtain ⟨s', hrun, hinit⟩ := init_handover sampleProcessor sampleStart le_rfl
    (sampleLoader multiboot2Magic) (Set.eqOn_refl _ _) (by decide) sampleRegions 0x100000 0x208000
    (0x9500, 0x9600) (by norm_num) (by decide) hlow (by simpa using hcard) al report hframes
  obtain ⟨k, hk, -, -, htranslate, hcr3⟩ := hinit s'.mem (Set.eqOn_refl _ _)
  exact ⟨s', al, k, hrun, hk, htranslate _ (by norm_num), htranslate _ (by norm_num), hcr3⟩

end ZiranOS
