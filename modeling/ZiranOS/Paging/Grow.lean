import ZiranOS.Paging.Tree

/-!
# What a walk does to the tables

On its way down a walk that maps a page is refused a frame, opens an entry to ring 3, or links a new
table.  `Grow` has these three steps; each of them keeps the invariant (`Grow.shape`) and the
translation of every page (`Grow.pageAt_eq`), so a walk that stops half-way has changed no
translation either.  Entries above the pages are only ever opened to ring 3 (`Grow.userAt`), and
those of the pages stay as they are (`Grow.userAt_page`).
-/

namespace ZiranOS

open ProgLib

variable {frames : ℕ → Option ℕ} {s : Paging} {T : TableTree}

/-! ## Writes that keep the invariant -/

/-- A write to an entry keeps the invariant if the entry still points to the table it governs. -/
lemma Shape.setWord (h : Shape frames s T) (hf : FreshFrames frames) {level n t w : ℕ}
    (ht : T level (n / 512) = some t)
    (hw : ∀ l, level = l + 1 → (l ≠ 0 ∨ 512 ≤ n) ∧ Points w (T l n)) :
    Shape frames (s.setWord t (n % 512) w) T where
  toPlaced := h.toPlaced.setWord ..
  root := h.root
  top := h.top
  parent := h.parent
  noTable := h.noTable
  link := by
    intro level₁ n₁ entry hentry hdir
    rw [word_setWord h.toPlaced hf ht] at hentry
    split_ifs at hentry with heq
    · obtain ⟨rfl, rfl⟩ := heq
      obtain rfl := Option.some.inj hentry
      exact (hw _ rfl).2
    · exact h.link hentry hdir
  directory := by
    intro n₁ hlt
    rw [word_setWord h.toPlaced hf ht, if_neg]
    · exact h.directory hlt
    · rintro ⟨hlevel, rfl⟩
      rcases (hw 0 hlevel.symm).1 with h0 | h512
      · exact h0 rfl
      · omega

/-- Linking a new table keeps the invariant. -/
lemma Shape.insert (h : Shape frames s T) (hf : FreshFrames frames) {level n t g : ℕ}
    (ht : T (level + 1) (n / 512) = some t) (hnone : T level n = none)
    (hdir : level ≠ 0 ∨ 512 ≤ n) (hg : frames s.allocs = some g) (userPage : Bool) :
    Shape frames ((s.zeroed g).setWord t (n % 512) (g ||| Paging.newTable userPage))
      (T.insert level n g) where
  toPlaced := (h.toPlaced.insert hf hg level n).setWord ..
  root := by
    rw [TableTree.insert, if_neg]
    · exact h.root
    · rintro ⟨rfl, rfl⟩
      rw [h.root] at hnone
      cases hnone
  top := by
    intro level₁ n₁ hsome
    rw [TableTree.insert] at hsome
    split_ifs at hsome with heq
    · have := h.top (Option.isSome_of_eq_some ht)
      omega
    · exact h.top hsome
  parent := by
    intro level₁ n₁ hlt hsome
    rw [TableTree.insert] at hsome ⊢
    split_ifs with hparent
    · rfl
    · split_ifs at hsome with heq
      · obtain ⟨rfl, rfl⟩ := heq
        rw [ht]
        rfl
      · exact h.parent hlt hsome
  noTable := by
    intro n₁ hlt
    rw [TableTree.insert, if_neg]
    · exact h.noTable hlt
    · rintro ⟨rfl, rfl⟩
      rcases hdir with h0 | h512
      · exact h0 rfl
      · omega
  directory := by
    intro n₁ hlt
    rw [word_insert h.toPlaced hf ht hg, if_neg, if_neg]
    · exact h.directory hlt
    · rintro ⟨rfl, hq⟩
      -- the first page directory was there before
      have := h.isSome_of_lt.1
      rw [← hq, Nat.div_eq_of_lt hlt] at hnone
      rw [hnone] at this
      cases this
    · rintro ⟨hlevel, rfl⟩
      rcases hdir with h0 | h512
      · omega
      · omega
  link := by
    intro level₁ n₁ entry hentry hdir₁
    rw [word_insert h.toPlaced hf ht hg] at hentry
    split_ifs at hentry with h₁ h₂
    · obtain ⟨hlevel, rfl⟩ := h₁
      obtain rfl := Nat.succ.inj hlevel
      obtain rfl := Option.some.inj hentry
      rw [TableTree.insert, if_pos ⟨rfl, rfl⟩]
      exact points_newTable (hf.aligned hg) (hf.low hg) userPage
    · obtain ⟨rfl, hq⟩ := h₂
      obtain rfl := Option.some.inj hentry
      -- the tables below the new one would have needed it as their parent
      have hchild : T level₁ n₁ = none := by
        apply Option.not_isSome_iff_eq_none.mp
        intro hsome
        have htop := h.top (Option.isSome_of_eq_some ht)
        have := h.parent (by omega) hsome
        rw [hq, hnone] at this
        cases this
      rw [TableTree.insert, if_neg (by omega), hchild]
      exact Nat.zero_and _
    · have := h.link hentry hdir₁
      rwa [TableTree.insert, if_neg]
      rintro ⟨rfl, rfl⟩
      exact h₁ ⟨rfl, rfl⟩

/-! ## Steps of a walk -/

/-- What a walk does on its way down, for the kernel only or for ring 3. -/
inductive Grow (frames : ℕ → Option ℕ) (userPage : Bool) :
    Paging × TableTree → Paging × TableTree → Prop
  /-- The frame allocator has no frame for a missing table. -/
  | refuse {s : Paging} {T : TableTree} (hnone : frames s.allocs = none) :
      Grow frames userPage (s, T) ({ s with allocs := s.allocs + 1 }, T)
  /-- An entry above a user page is opened to ring 3. -/
  | loosen {s : Paging} {T : TableTree} {level n t : ℕ} (huser : userPage = true)
      (ht : T (level + 1) (n / 512) = some t) (hchild : (T level n).isSome) :
      Grow frames userPage (s, T)
        (s.setWord t (n % 512) (s.mem (t + 8 * (n % 512)) ||| user), T)
  /-- A missing table is created. -/
  | link {s : Paging} {T : TableTree} {level n t g : ℕ} (ht : T (level + 1) (n / 512) = some t)
      (hnone : T level n = none) (hdir : level ≠ 0 ∨ 512 ≤ n) (hg : frames s.allocs = some g) :
      Grow frames userPage (s, T)
        ((s.zeroed g).setWord t (n % 512) (g ||| Paging.newTable userPage), T.insert level n g)

/-- **Each step of a walk keeps the invariant.** -/
lemma Grow.shape {userPage : Bool} {x y : Paging × TableTree} (hstep : Grow frames userPage x y)
    (hf : FreshFrames frames) (h : Shape frames x.1 x.2) : Shape frames y.1 y.2 := by
  cases hstep with
  | refuse hnone =>
    refine ⟨⟨fun ht => ?_, h.inj⟩, h.root, h.top, h.parent, h.link, h.directory, h.noTable⟩
    obtain ⟨k, hlt, hk⟩ := h.used ht
    exact ⟨k, Nat.lt_succ_of_lt hlt, hk⟩
  | @loosen s T level n t huser ht hchild =>
    refine h.setWord hf ht fun l hl => ?_
    obtain rfl := Nat.succ.inj hl
    have hdir : level ≠ 0 ∨ 512 ≤ n := by
      by_contra hno
      obtain ⟨rfl, hlt⟩ : level = 0 ∧ n < 512 := by omega
      have hno : T 0 n = none := h.noTable hlt
      rw [hno] at hchild
      cases hchild
    exact ⟨hdir, (h.link (word_eq ht) hdir).loosen⟩
  | link ht hnone hdir hg => exact h.insert hf ht hnone hdir hg userPage

/-- **Each step of a walk keeps the translation of every page.** -/
lemma Grow.pageAt_eq {userPage : Bool} {x y : Paging × TableTree}
    (hstep : Grow frames userPage x y) (hf : FreshFrames frames) (h : Shape frames x.1 x.2)
    (n : ℕ) : y.1.pageAt y.2 n = x.1.pageAt x.2 n := by
  cases hstep with
  | refuse => rfl
  | loosen _ ht =>
    rw [Paging.pageAt, Paging.pageAt, word_setWord h.toPlaced hf ht, if_neg (by omega)]
  | @link s T level n₁ t g ht hnone hdir hg =>
    rw [Paging.pageAt, Paging.pageAt, word_insert h.toPlaced hf ht hg, if_neg (by omega)]
    split_ifs with hnew
    · -- the new page table maps nothing, and before it was not there
      obtain ⟨rfl, rfl⟩ := hnew
      change Paging.leafPage 0 = (Option.map _ (T 0 (n / 512))).bind _
      rw [hnone]
      rfl
    · rfl

/-! ## Entries open to ring 3 -/

/-- An entry lets ring 3 through: it is present and its `user` flag is set. -/
def UserEntry (entry : ℕ) : Prop := entry &&& present ≠ 0 ∧ entry &&& user ≠ 0

instance (entry : ℕ) : Decidable (UserEntry entry) :=
  inferInstanceAs (Decidable (entry &&& present ≠ 0 ∧ entry &&& user ≠ 0))

/-- An entry of the tables lets ring 3 through. -/
def Paging.UserAt (s : Paging) (T : TableTree) (level n : ℕ) : Prop :=
  ∃ entry, s.word T level n = some entry ∧ UserEntry entry

/-- Setting the `user` flag of a present entry lets ring 3 through. -/
lemma userEntry_or_user {w : ℕ} (hp : w &&& present ≠ 0) : UserEntry (w ||| user) := by
  have hpresent : user &&& present = 0 := by decide
  refine ⟨?_, ?_⟩
  · rwa [Nat.and_or_distrib_right, hpresent, Nat.or_zero]
  · rw [Nat.and_or_distrib_right, Nat.and_self]
    intro h
    have := (Nat.or_eq_zero_iff.mp h).2
    revert this
    decide

/-- The entry for a new table above a user page lets ring 3 through. -/
lemma userEntry_newTable {g : ℕ} (hg : frameSize ∣ g) :
    UserEntry (g ||| Paging.newTable true) := by
  have hflags : Paging.newTable true < frameSize := by decide
  refine ⟨?_, ?_⟩
  · rw [entry_and hg hflags (by decide)]
    decide
  · rw [entry_and hg hflags (by decide)]
    decide

/-- A missing table has no entries. -/
lemma not_userAt_of_none {level n : ℕ} (hnone : T level (n / 512) = none) :
    ¬ s.UserAt T level n := by
  rintro ⟨entry, hentry, -⟩
  rw [Paging.word, hnone] at hentry
  cases hentry

/-- An entry that points to nothing does not let ring 3 through. -/
lemma Shape.not_userAt (h : Shape frames s T) {level n : ℕ} (hdir : level ≠ 0 ∨ 512 ≤ n)
    (hnone : T level n = none) : ¬ s.UserAt T (level + 1) n := by
  rintro ⟨entry, hentry, hp, -⟩
  have hpoints := h.link hentry hdir
  rw [hnone] at hpoints
  exact hp hpoints

/-- A write to an entry decides whether it lets ring 3 through, and no other entry. -/
lemma userAt_setWord (h : Placed frames s T) (hf : FreshFrames frames) {level n t w : ℕ}
    (ht : T level (n / 512) = some t) (level₁ n₁ : ℕ) :
    (s.setWord t (n % 512) w).UserAt T level₁ n₁ ↔
      if level₁ = level ∧ n₁ = n then UserEntry w else s.UserAt T level₁ n₁ := by
  unfold Paging.UserAt
  rw [word_setWord h hf ht]
  split_ifs <;> simp

/-- **Each step of a walk leaves open what was open.** -/
lemma Grow.userAt {userPage : Bool} {x y : Paging × TableTree} (hstep : Grow frames userPage x y)
    (hf : FreshFrames frames) (h : Shape frames x.1 x.2) {level n : ℕ}
    (hu : x.1.UserAt x.2 level n) : y.1.UserAt y.2 level n := by
  cases hstep with
  | refuse => exact hu
  | @loosen s T level₁ n₁ t huser ht hchild =>
    rw [userAt_setWord h.toPlaced hf ht]
    split_ifs with heq
    · obtain ⟨rfl, rfl⟩ := heq
      obtain ⟨entry, hentry, hp, -⟩ := hu
      obtain rfl := Option.some.inj ((word_eq ht).symm.trans hentry)
      exact userEntry_or_user hp
    · exact hu
  | @link s T level₁ n₁ t g ht hnone hdir hg =>
    obtain ⟨entry, hentry, hopen⟩ := hu
    refine ⟨entry, ?_, hopen⟩
    rw [word_insert h.toPlaced hf ht hg, if_neg, if_neg]
    · exact hentry
    · rintro ⟨rfl, rfl⟩
      exact not_userAt_of_none hnone ⟨entry, hentry, hopen⟩
    · rintro ⟨rfl, rfl⟩
      exact h.not_userAt hdir hnone ⟨entry, hentry, hopen⟩

/-- **Each step of a walk leaves the entries of pages as they were.** -/
lemma Grow.userAt_page {userPage : Bool} {x y : Paging × TableTree}
    (hstep : Grow frames userPage x y) (hf : FreshFrames frames) (h : Shape frames x.1 x.2)
    {n : ℕ} : y.1.UserAt y.2 0 n ↔ x.1.UserAt x.2 0 n := by
  refine ⟨fun hu => ?_, hstep.userAt hf h⟩
  cases hstep with
  | refuse => exact hu
  | @loosen s T level₁ n₁ t huser ht hchild =>
    rwa [userAt_setWord h.toPlaced hf ht, if_neg (by omega)] at hu
  | @link s T level₁ n₁ t g ht hnone hdir hg =>
    obtain ⟨entry, hentry, hopen⟩ := hu
    refine ⟨entry, ?_, hopen⟩
    rw [word_insert h.toPlaced hf ht hg, if_neg (by omega)] at hentry
    split_ifs at hentry with hnew
    · obtain rfl := Option.some.inj hentry
      exact absurd (Nat.zero_and _) hopen.1
    · exact hentry

/-! ## Walks -/

/-- A walk keeps the invariant. -/
lemma shape_of_grows {userPage : Bool} {x y : Paging × TableTree}
    (hgrows : Relation.ReflTransGen (Grow frames userPage) x y) (hf : FreshFrames frames)
    (h : Shape frames x.1 x.2) : Shape frames y.1 y.2 := by
  induction hgrows with
  | refl => exact h
  | tail _ hstep ih => exact hstep.shape hf ih

/-- A walk keeps the translation of every page. -/
lemma pageAt_of_grows {userPage : Bool} {x y : Paging × TableTree}
    (hgrows : Relation.ReflTransGen (Grow frames userPage) x y) (hf : FreshFrames frames)
    (h : Shape frames x.1 x.2) (n : ℕ) : y.1.pageAt y.2 n = x.1.pageAt x.2 n := by
  induction hgrows with
  | refl => rfl
  | tail hgrows hstep ih => exact (hstep.pageAt_eq hf (shape_of_grows hgrows hf h) n).trans ih

/-- A walk leaves open what was open. -/
lemma userAt_of_grows {userPage : Bool} {x y : Paging × TableTree}
    (hgrows : Relation.ReflTransGen (Grow frames userPage) x y) (hf : FreshFrames frames)
    (h : Shape frames x.1 x.2) {level n : ℕ} (hu : x.1.UserAt x.2 level n) :
    y.1.UserAt y.2 level n := by
  induction hgrows with
  | refl => exact hu
  | tail hgrows hstep ih => exact hstep.userAt hf (shape_of_grows hgrows hf h) ih

/-- A walk leaves the entries of pages as they were. -/
lemma userAt_page_of_grows {userPage : Bool} {x y : Paging × TableTree}
    (hgrows : Relation.ReflTransGen (Grow frames userPage) x y) (hf : FreshFrames frames)
    (h : Shape frames x.1 x.2) (n : ℕ) : y.1.UserAt y.2 0 n ↔ x.1.UserAt x.2 0 n := by
  induction hgrows with
  | refl => rfl
  | tail hgrows hstep ih => exact (hstep.userAt_page hf (shape_of_grows hgrows hf h)).trans ih

end ZiranOS
