import ZiranOS.Usermode.Conservation

/-!
# Programs give back what they take

A program takes two frames and those for the tables that its walk lacks.  When its pages are taken
back the tables stay: the page map is as before, and the frames of the tables are gone.  So the
first program costs the missing tables, and every later one nothing (`program_gives_back`).
-/

namespace ZiranOS

open ProgLib

namespace Account

variable {a a' : Account} {codeFrame stackFrame : PhysFrame}

/-- Code and stack have the same tables. -/
lemma walkTables_stack : walkTables uvaStack = walkTables uvaCode := by decide

/-- Then the walk for the stack lacks no table. -/
lemma missing_stack (h : a'.tables = a.tables ∪ walkTables uvaCode) : a'.missing uvaStack = 0 := by
  rw [missing, walkTables_stack, h, Finset.card_eq_zero, Finset.sdiff_eq_empty_iff_subset]
  exact Finset.subset_union_right

/-- **A program needs two frames and those for the missing tables.** -/
lemma mapUserProgram_isSome (a : Account) :
    a.mapUserProgram.isSome ↔ 2 + a.missing uvaCode ≤ a.free.card := by
  have hcode := mapFresh_isSome a .user uvaCode
  rw [mapUserProgram]
  cases hmap : a.mapFresh .user uvaCode with
  | none =>
    rw [hmap] at hcode
    have hfew : ¬ 1 + a.missing uvaCode ≤ a.free.card := hcode.not.mp Bool.false_ne_true
    exact iff_of_false Bool.false_ne_true (by omega)
  | some x =>
    obtain ⟨a₁, frame⟩ := x
    obtain ⟨hcard, htables⟩ := mapFresh_card hmap
    have hstack := mapFresh_isSome a₁ .user uvaStack
    rw [missing_stack htables] at hstack
    have hsame : ((a₁.mapFresh .user uvaStack).bind fun y => some (y.1, frame, y.2)).isSome ↔
        (a₁.mapFresh .user uvaStack).isSome := by
      cases a₁.mapFresh .user uvaStack <;> rfl
    refine Iff.trans hsame (hstack.trans ?_)
    omega

/-- **What a program leaves behind**: its tables. -/
lemma mapUserProgram_back (h : a.mapUserProgram = some (a', codeFrame, stackFrame))
    (hcode : a.pages (uvaCode / 4096) = none) (hstack : a.pages (uvaStack / 4096) = none) :
    (a'.unmapUserProgram codeFrame stackFrame).pages = a.pages ∧
      (a'.unmapUserProgram codeFrame stackFrame).tables = a.tables ∪ walkTables uvaCode ∧
      (a'.unmapUserProgram codeFrame stackFrame).free ⊆ a.free ∧
      (a'.unmapUserProgram codeFrame stackFrame).free.card + a.missing uvaCode = a.free.card := by
  obtain ⟨⟨a₁, c⟩, hmap₁, hrest⟩ := Option.bind_eq_some_iff.mp h
  obtain ⟨⟨a₂, s⟩, hmap₂, hret⟩ := Option.bind_eq_some_iff.mp hrest
  obtain ⟨rfl, hframes⟩ := Prod.mk.inj (Option.some.inj hret)
  obtain ⟨rfl, rfl⟩ := Prod.mk.inj hframes
  obtain ⟨hcard₁, htables₁⟩ := mapFresh_card hmap₁
  obtain ⟨hcard₂, htables₂⟩ := mapFresh_card hmap₂
  obtain ⟨hin₁, hout₁, hsub₁⟩ := mapFresh_free hmap₁
  obtain ⟨hin₂, hout₂, hsub₂⟩ := mapFresh_free hmap₂
  rw [missing_stack htables₁] at hcard₂
  have hfree : (a₂.unmapUserProgram c s).free = insert s.index (insert c.index a₂.free) := rfl
  refine ⟨?_, ?_, ?_, ?_⟩
  · funext n
    rw [unmapUserProgram_pages, mapFresh_pages hmap₂, mapFresh_pages hmap₁]
    split_ifs with hn hn'
    · rw [hn, hstack]
    · rw [hn', hcode]
    · rfl
  · show a₂.tables = _
    rw [htables₂, htables₁, walkTables_stack, Finset.union_assoc, Finset.union_self]
  · rw [hfree]
    exact Finset.insert_subset (hsub₁ hin₂) (Finset.insert_subset hin₁ (hsub₂.trans hsub₁))
  · -- the two frames are different, and neither is free while the program is there
    have hne : s.index ∉ insert c.index a₂.free := by
      rw [Finset.mem_insert, not_or]
      exact ⟨fun heq => hout₁ (heq ▸ hin₂), hout₂⟩
    rw [hfree, Finset.card_insert_of_notMem hne,
      Finset.card_insert_of_notMem fun hin => hout₁ (hsub₂ hin)]
    omega

end Account

/-- The number of tables that the walk to the pages of a program lacks: it has an entry for each
table that is there. -/
def Kernel.missingTables (k : Kernel) : ℕ := 4 - (k.paging.walk uvaCode).length

/-- The event is a store. -/
def MemoryEvent.IsStore : MemoryEvent → Prop
  | .store _ _ => True
  | _ => False

variable {F H : Finset ℕ} {k k' : Kernel} {frames : ℕ → Option ℕ} {T : TableTree} {a : Account}

namespace Books

/-- The missing tables are those missing in the account. -/
lemma missingTables_eq (h : Books F H k frames T a) : k.missingTables = a.missing uvaCode := by
  have hlength := h.length_walkLevels (show identityLimit ≤ uvaCode by decide) 3 _ le_rfl
    (h.root_slot (by decide))
  rw [Account.missing_eq (T := T) h.tables_iff, Kernel.missingTables, Paging.walk]
  omega

/-- Kernels with the same pages translate alike and open the same pages to ring 3. -/
lemma samePages {frames' : ℕ → Option ℕ} {T' : TableTree} {a' : Account}
    (h : Books F H k frames T a) (h' : Books F H k' frames' T' a') (hpages : a'.pages = a.pages)
    {virt : ℕ} (hvirt : virt < 2 ^ 48) :
    k'.paging.translate virt = k.paging.translate virt ∧
      k'.paging.pageUserAccessible virt = k.paging.pageUserAccessible virt := by
  rw [h.translate_eq hvirt, h'.translate_eq hvirt, Account.lookup, Account.lookup,
    h.guards.pageUserAccessible_eq h.fresh hvirt, h'.guards.pageUserAccessible_eq h'.fresh hvirt,
    hpages]
  exact ⟨rfl, rfl⟩

end Books

/-- A run of stores leaves the account as it is. -/
lemma MemoryUse.Fits.stores {fuel : ℕ} {s s' : MemoryUse}
    {tr : List (Transition MemoryUse MemoryEvent)} (h : s.Fits F a)
    (hrun : Run (MemoryUse.Steps F fuel) s tr s') (hstores : ∀ x ∈ tr, x.event.IsStore) :
    s'.Fits F a ∧ s'.program = s.program := by
  refine (hrun.invariant_of (I := fun s' => s'.Fits F a ∧ s'.program = s.program)
    (C := fun _ e => e.IsStore) ?_ hstores ⟨h, rfl⟩).1
  rintro s₁ (_ | _ | _ | _ | ⟨virt, b⟩) s₂ ⟨hfits, hsame⟩ hstore hstep <;> try cases hstore
  obtain ⟨hvirt, hlow, k, hrun, rfl⟩ := hstep
  exact ⟨hfits.store hvirt hlow hrun, hsame⟩

/-- **Programs give back what they take.**  In every state that a run from boot reaches with no
program mapped: if two frames are free besides those for the missing tables, mapping a program
succeeds, and after any stores its pages can be taken back.  Then every address translates as before
the program, ring 3 has the same pages as then, the frames that are free were free before, and only
those of the missing tables are gone; no table is missing any more, and if none was missing exactly
the same frames are free.  With fewer free frames mapping the program panics. -/
theorem program_gives_back (regions : List MemoryRegion) (kernelStart kernelEnd : ℕ)
    (bootInfo : ℕ × ℕ) (al : FrameAllocator) (report : InitReport)
    (hframes : FrameAllocator.init (some regions) kernelStart kernelEnd bootInfo =
      .ok (al, report))
    (hlow : ∀ i ∈ freeFrames regions kernelStart kernelEnd bootInfo,
      i * physFrameSize < identityLimit)
    (mem : ℕ → ℕ) (cr3 : ℕ) (k₀ : Kernel) (hinit : (Kernel.atBoot mem cr3 al).init = .ok k₀)
    (fuel : ℕ) (hfuel : 0 < fuel) (s : MemoryUse) (tr : List (Transition MemoryUse MemoryEvent))
    (hrun : Run (MemoryUse.Steps (freeFrames regions kernelStart kernelEnd bootInfo) fuel)
      ⟨k₀, false, false, none⟩ tr s) (hprogram : s.program = none) (blob : List UInt8)
    (hblob : blob.length ≤ 4096) :
    if 2 + s.kernel.missingTables ≤ s.kernel.allocator.freeFrames then
      ∃ k₁ f, s.kernel.mapUserProgram blob = .ok (k₁, f) ∧
        ∀ tr' s', Run (MemoryUse.Steps (freeFrames regions kernelStart kernelEnd bootInfo) fuel)
            ⟨k₁, s.heap, s.secret, some f⟩ tr' s' → (∀ x ∈ tr', x.event.IsStore) →
          ∃ k', s'.kernel.unmapUserProgram f.1 f.2 = .ok k' ∧
            (∀ virt < 2 ^ 48, k'.paging.translate virt = s.kernel.paging.translate virt ∧
              k'.paging.pageUserAccessible virt = s.kernel.paging.pageUserAccessible virt) ∧
            k'.allocator.freeFrames + s.kernel.missingTables = s.kernel.allocator.freeFrames ∧
            (∀ i, k'.Uses i .free → s.kernel.Uses i .free) ∧ k'.missingTables = 0 ∧
            (s.kernel.missingTables = 0 → ∀ i, k'.Uses i .free ↔ s.kernel.Uses i .free)
    else s.kernel.mapUserProgram blob = Exec.panic .assertion := by
  have hrefines := refines_of_init hframes
  generalize freeFrames regions kernelStart kernelEnd bootInfo = F at *
  obtain ⟨a, hfits⟩ := MemoryUse.fits_of_run hrefines hlow hinit hfuel hrun
  obtain ⟨frames, T, hbooks⟩ := hfits.keeps
  have hcount := a.mapUserProgram_isSome
  have hfollows := hfits.mapUserProgram hprogram hblob
  rw [hbooks.missingTables_eq, hbooks.refines.count]
  cases hmap : a.mapUserProgram with
  | none =>
    rw [hmap] at hcount hfollows
    rw [if_neg (hcount.not.mp Bool.false_ne_true)]
    exact hfollows
  | some x =>
    obtain ⟨a₁, f⟩ := x
    rw [hmap] at hcount hfollows
    obtain ⟨⟨k₁, f'⟩, hrun₁, hf, hfits₁⟩ := hfollows
    obtain rfl : f' = f := hf
    rw [if_pos (hcount.mp rfl)]
    refine ⟨k₁, f', hrun₁, fun tr' s' hrun' hstores => ?_⟩
    obtain ⟨hfits', hsame⟩ := hfits₁.stores hrun' hstores
    obtain ⟨k', hunmap, hend⟩ := hfits'.unmapUserProgram hsame
    obtain ⟨frames', T', hbooks'⟩ := hend.keeps
    obtain ⟨hpages, htables, hsub, hcard⟩ := Account.mapUserProgram_back hmap
      (hfits.page_none (by rw [s.rings_program (.inl rfl), hprogram, Option.map_none]))
      (hfits.page_none (by rw [s.rings_program (.inr rfl), hprogram, Option.map_none]))
    refine ⟨k', hunmap, fun virt hvirt => hbooks.samePages hbooks' hpages hvirt, ?_, fun i hi => ?_,
      ?_, fun hnone i => ?_⟩
    · rw [hbooks'.refines.count]
      exact hcard
    · exact hbooks.uses_free.mpr (hsub (hbooks'.uses_free.mp hi))
    · rw [hbooks'.missingTables_eq, Account.missing, htables, Finset.card_eq_zero,
        Finset.sdiff_eq_empty_iff_subset]
      exact Finset.subset_union_right
    · have heq := Finset.eq_of_subset_of_card_le hsub (by omega)
      rw [hbooks'.uses_free, hbooks.uses_free, heq]

/-- The first program of the sample machine costs two of its five free frames. -/
theorem program_gives_back_bootEight : ∃ k₀ k₁ f k₂ k', bootEight = .ok k₀ ∧
    k₀.allocator.freeFrames = 5 ∧ k₀.mapUserProgram userBlob = .ok (k₁, f) ∧
    k₁.storeByte (uvaStack + 8) 0x46 = .ok k₂ ∧ k₂.unmapUserProgram f.1 f.2 = .ok k' ∧
    k'.allocator.freeFrames = 3 ∧ k'.missingTables = 0 ∧
    k'.paging.translate uvaStack = k₀.paging.translate uvaStack := by
  obtain ⟨al, report, k₀, hal, hinit, hk, -, -⟩ := bootEight_ok
  have hboot : (do
      let k ← bootEight
      let (k₁, _) ← k.mapUserProgram userBlob
      let _ ← k₁.storeByte (uvaStack + 8) 0x46
      pure (k.allocator.freeFrames, k.missingTables)) = .ok (5, 2) := by decide +kernel
  rw [hk, Exec.bind_ok] at hboot
  obtain ⟨⟨k₁, f⟩, hmap, hboot⟩ := Exec.bind_eq_ok.mp hboot
  obtain ⟨k₂, hstore, hret⟩ := Exec.bind_eq_ok.mp hboot
  obtain ⟨hfree, hmissing⟩ := Prod.mk.inj (Except.ok.inj hret)
  have hback := program_gives_back eightFrames 0 0 (0, 0) al report hal freeFrames_eightFrames _ 0
    k₀ hinit 1 one_pos ⟨k₀, false, false, none⟩ [] (.nil _) rfl userBlob (by decide)
  dsimp only at hback
  rw [hmissing, hfree, if_pos (by norm_num)] at hback
  obtain ⟨k₁', f', hmap', hback⟩ := hback
  obtain ⟨rfl, rfl⟩ := Prod.mk.inj (Except.ok.inj (hmap.symm.trans hmap'))
  have hstep : MemoryUse.Steps (freeFrames eightFrames 0 0 (0, 0)) 1 ⟨k₁, false, false, some f⟩
      (.store (uvaStack + 8) 0x46) ⟨k₂, false, false, some f⟩ :=
    ⟨by decide, fun h => absurd h (by decide), k₂, hstore, rfl⟩
  obtain ⟨k', hunmap, hpages, hcount, -, htables, -⟩ := hback _ _ ((Run.nil _).cons hstep)
    fun x hx => by
      obtain rfl := List.mem_singleton.mp hx
      trivial
  exact ⟨k₀, k₁, f, k₂, k', hk, hfree, hmap, hstore, hunmap, by omega, htables,
    (hpages uvaStack (by decide)).1⟩

end ZiranOS
