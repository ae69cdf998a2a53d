import ZiranOS.Shell.Growth

/-!
# How many loads the heap has room for

Free regions are never merged, so repeated loads can use up the room that no block has used yet:
five loads of the largest image do (`five_loads_exhaust`).  How much of the room a load needs
depends on the payload block that the load before it gave back, which is the first region of the
list: as long as the vector is smaller than that block, its growths are cut off that block
(`Serves.alloc`).  So a load needs at most `growthCost front cap` bytes of the room for its payload,
which is nothing if the vector stays smaller than that block, and at most the block of its image
(`Loadable.cmdLoad`).  Loads succeed while the sum leaves room for a node (`loads_within_room`).
-/

namespace ZiranOS

open ProgLib

/-! ## What a load takes from the room -/

/-- The bytes that a vector needs of the room at most when it grows to the given capacity, after a
region of `front` bytes. -/
def growthCost (front cap : ℕ) : ℕ := if cap < front then 0 else 2 * cap - front

/-- The bytes that loads of payloads with the given lengths need of the room at most, after a region
of `front` bytes. -/
def roomNeeded : (front : ℕ) → List ℕ → ℕ
  | _, [] => 0
  | front, n :: ns =>
    growthCost front (capacity (growths n)) + blockSize (n / 4 * 3) +
      roomNeeded (capacity (growths n)) ns

/-- Growing further takes no less. -/
lemma growthCost_mono {front cap cap' : ℕ} (h : cap ≤ cap') :
    growthCost front cap ≤ growthCost front cap' := by
  rw [growthCost, growthCost]
  split_ifs <;> omega

/-- What loads of bounded capacities and images take at most. -/
lemma roomNeeded_le (maxCap maxBlock : ℕ) : ∀ (ns : List ℕ) (front : ℕ), front ≤ maxCap →
    (∀ n ∈ ns, capacity (growths n) ≤ maxCap ∧ blockSize (n / 4 * 3) ≤ maxBlock) →
    roomNeeded front ns + front ≤ ns.length * (maxCap + maxBlock) + maxCap := by
  intro ns
  induction ns with
  | nil =>
    intro front hfront _
    rw [roomNeeded, List.length_nil]
    omega
  | cons n ns ih =>
    intro front hfront hall
    obtain ⟨⟨hcap, hblock⟩, hall⟩ := List.forall_mem_cons.mp hall
    have hrest := ih (capacity (growths n)) hcap hall
    have hcost : growthCost front (capacity (growths n)) + front ≤
        maxCap + capacity (growths n) := by
      unfold growthCost
      split_ifs <;> omega
    rw [roomNeeded, List.length_cons, Nat.add_mul, Nat.one_mul]
    omega

/-! ## Blocks of a vector -/

namespace FreeListHeap

/-- **An allocation of bytes takes no more than its block from the room.** -/
lemma allocBytes_room {h : FreeListHeap} {room size : ℕ} (hok : h.Ok)
    (hroom : Room room h.regions) (hle : blockSize size + nodeSize ≤ room) (hsize : size < 2 ^ 32) :
    ∃ h' ptr, h.allocBytes size = .ok (h', ptr) ∧ h'.Ok ∧ Region.Ok ⟨ptr, blockSize size⟩ ∧
      Room (room - blockSize size) h'.regions := by
  obtain ⟨layout, hl⟩ := layout_bytes (ε := LoadStop) hsize
  obtain ⟨h', ptr, hrun, hok', hptr, hroom'⟩ := alloc_bytes_room hok hroom hle hsize hl
  refine ⟨h', ptr, ?_, hok', hptr, hroom'⟩
  rw [allocBytes, hl, Exec.bind_ok, hrun]
  rfl

/-- An allocation of bytes from the first region that fits. -/
lemma allocBytes_first {l₁ l₂ : List Region} {r : Region} {size : ℕ}
    (hok : Ok ⟨l₁ ++ r :: l₂⟩) (hsize : size < 2 ^ 32)
    (hnone : ∀ x ∈ l₁, ¬ x.Fits (blockSize size)) (hfit : r.Fits (blockSize size)) :
    allocBytes ⟨l₁ ++ r :: l₂⟩ size =
        .ok (⟨r.rest (blockSize size) ++ (l₁ ++ l₂)⟩, r.start) ∧
      Ok ⟨r.rest (blockSize size) ++ (l₁ ++ l₂)⟩ ∧ Region.Ok ⟨r.start, blockSize size⟩ := by
  obtain ⟨layout, hl⟩ := layout_bytes (ε := LoadStop) hsize
  refine ⟨?_, hok.cut (eight_dvd_blockSize size) hfit,
    (hok r (by simp)).block (eight_dvd_blockSize size) (nodeSize_le_blockSize size) hfit⟩
  rw [allocBytes, hl, Exec.bind_ok, alloc_bytes_eq hok hsize hl hnone hfit]
  rfl

/-- A block of bytes comes back as the first region. -/
lemma deallocBytes_eq {h : FreeListHeap} (hok : h.Ok) {ptr size : ℕ} (hsize : size < 2 ^ 32)
    (hptr : Region.Ok ⟨ptr, blockSize size⟩) :
    h.deallocBytes ptr size = .ok ⟨⟨ptr, blockSize size⟩ :: h.regions⟩ ∧
      Ok ⟨⟨ptr, blockSize size⟩ :: h.regions⟩ := by
  obtain ⟨layout, hl⟩ := layout_bytes (ε := LoadStop) hsize
  refine ⟨?_, List.forall_mem_cons.mpr ⟨hptr, hok⟩⟩
  rw [deallocBytes, hl, Exec.bind_ok]
  exact dealloc_bytes_eq h hsize hl

end FreeListHeap

/-! ## Growing behind a region of the payload before -/

/-- The free list while a vector grows.  As long as it is smaller than the first region was, the
list starts with what its own blocks left of that region, and the rest of the list is untouched;
afterwards it takes its blocks from the room. -/
inductive Serves (front room cap : ℕ) (regions : List Region) : Prop
  /-- The vector lives in the first region. -/
  | reuse (start : ℕ) (l₁ left l₂ rest : List Region)
      (hlist : regions = l₁ ++ (left ++ (l₂ ++ rest)))
      (hsmall : ∀ r ∈ l₁ ++ l₂, r.size < 2 * cap)
      (hleft : left = if 2 * cap = front then [] else [⟨start, front - 2 * cap⟩])
      (hlt : 2 * cap ≤ front) (hroom : FreeListHeap.Room room rest)
  /-- The vector lives in the room. -/
  | fresh (hle : front ≤ cap) (hroom : FreeListHeap.Room (room - (2 * cap - front)) regions)

/-- The first region is missing, or it is a block that a vector gave back. -/
inductive Fronted (front room : ℕ) (regions : List Region) : Prop
  /-- There is no such region. -/
  | none (hzero : front = 0) (hroom : FreeListHeap.Room room regions)
  /-- The region is the block of a vector. -/
  | block (k start : ℕ) (rest : List Region) (hfront : front = capacity (k + 3))
      (hlist : regions = ⟨start, front⟩ :: rest) (hroom : FreeListHeap.Room room rest)

variable {front room : ℕ}

/-- What the vector leaves of the room. -/
lemma Serves.hasRoom {cap : ℕ} {l : List Region} (h : Serves front room cap l) :
    FreeListHeap.Room (room - growthCost front cap) l := by
  cases h with
  | reuse start l₁ left l₂ rest hlist hsmall hleft hlt hroom =>
    subst hlist
    exact (hroom.mono (by intro x hx; simp [hx])).le (Nat.sub_le _ _)
  | fresh hle hroom =>
    rwa [growthCost, if_neg (not_lt.mpr hle)]

/-- The block of a vector that grew. -/
lemma blockSize_capacity (k : ℕ) : blockSize (capacity (k + 2)) = capacity (k + 2) := by
  have hpow := Nat.two_pow_pos k
  refine blockSize_eq_self ⟨2 ^ (k + 1), rfl⟩ ?_
  rw [capacity, Nat.pow_succ, nodeSize]
  omega

/-- The capacity after the next growth. -/
lemma capacity_two_mul (k : ℕ) : capacity (k + 2) = 2 * capacity (k + 1) := by
  rw [capacity, capacity, Nat.pow_succ]
  ring

/-- Above a capacity, the next payload block is twice as large, or at least four times. -/
lemma capacity_gap {k m : ℕ} (h : 2 * capacity (k + 1) < capacity (m + 3)) :
    4 * capacity (k + 1) = capacity (m + 3) ∨ 8 * capacity (k + 1) ≤ capacity (m + 3) := by
  rw [← capacity_two_mul] at h
  have hlt : k + 2 < m + 3 := capacity_strictMono.lt_iff_lt.mp h
  have h4 : 4 * capacity (k + 1) = capacity (k + 3) := by
    rw [capacity_two_mul, capacity_two_mul]
    ring
  have h8 : 8 * capacity (k + 1) = capacity (k + 4) := by
    rw [capacity_two_mul (k + 2), ← h4]
    ring
  rw [h4, h8]
  rcases Nat.eq_or_lt_of_le (show k ≤ m by omega) with rfl | hkm
  · exact Or.inl rfl
  · exact Or.inr (capacity_strictMono.monotone (by omega))

/-- A vector takes its first block from the first region, or from the room. -/
lemma Fronted.alloc {h : FreeListHeap} (hfront : Fronted front room h.regions) (hok : h.Ok)
    (hcost : growthCost front (capacity 1) + nodeSize ≤ room) :
    ∃ h' ptr, h.allocBytes (capacity 1) = .ok (h', ptr) ∧ h'.Ok ∧
      Region.Ok ⟨ptr, blockSize (capacity 1)⟩ ∧ Serves front room (capacity 1) h'.regions := by
  have hblock : blockSize (capacity 1) = 16 := by decide
  have hcap : capacity 1 = 8 := by decide
  cases hfront with
  | none hzero hroom =>
    subst hzero
    have hcost' : growthCost 0 (capacity 1) = 16 := by decide
    rw [hcost'] at hcost
    obtain ⟨h', ptr, hrun, hok', hptr, hroom'⟩ := FreeListHeap.allocBytes_room hok hroom
      (show blockSize (capacity 1) + nodeSize ≤ room by omega) (by decide)
    refine ⟨h', ptr, hrun, hok', hptr, .fresh (Nat.zero_le _) ?_⟩
    rwa [hblock] at hroom'
  | block k start rest hk hlist hroom =>
    have h32 : 32 ≤ front := by
      have := Nat.two_pow_pos k
      rw [hk, capacity, Nat.pow_succ, Nat.pow_succ]
      omega
    have h16 : nodeSize = 16 := rfl
    obtain ⟨regions⟩ := h
    obtain rfl : regions = ⟨start, front⟩ :: rest := hlist
    have hfit : Region.Fits (blockSize (capacity 1)) ⟨start, front⟩ :=
      Or.inr (show blockSize (capacity 1) + nodeSize ≤ front by omega)
    have hfirst : FreeListHeap.Ok ⟨[] ++ ⟨start, front⟩ :: rest⟩ := hok
    obtain ⟨hrun, hok', hptr⟩ :=
      FreeListHeap.allocBytes_first hfirst (by decide) (by simp) hfit
    refine ⟨_, start, hrun, hok', hptr, .reuse (start + 16) [] _ [] rest rfl (by simp) ?_
      (by omega) hroom⟩
    rw [Region.rest, hblock, if_neg (show ¬ front = 16 by omega), if_neg (by omega), hcap]

/-- **A growing vector takes its next block from the first region as long as it fits, and from the
room afterwards.** -/
lemma Serves.alloc {h : FreeListHeap} {k : ℕ}
    (hserves : Serves front room (capacity (k + 1)) h.regions) (hok : h.Ok)
    (hfront : front = 0 ∨ ∃ m, front = capacity (m + 3)) (hsize : capacity (k + 2) < 2 ^ 32)
    (hcost : growthCost front (capacity (k + 2)) + nodeSize ≤ room) :
    ∃ h' ptr, h.allocBytes (capacity (k + 2)) = .ok (h', ptr) ∧ h'.Ok ∧
      Region.Ok ⟨ptr, blockSize (capacity (k + 2))⟩ ∧
      ∀ r : Region, r.size < 2 * capacity (k + 2) →
        Serves front room (capacity (k + 2)) (r :: h'.regions) := by
  have hdouble := capacity_two_mul k
  have hblock := blockSize_capacity k
  have h8 := eight_le_capacity k
  have h16 : nodeSize = 16 := rfl
  cases hserves with
  | reuse start l₁ left l₂ rest hlist hsmall hleft hlt hroom =>
    by_cases hlast : 2 * capacity (k + 1) = front
    · -- the first region is used up
      rw [if_pos hlast] at hleft
      have hroom' : FreeListHeap.Room room h.regions :=
        hroom.mono (by rw [hlist]; intro x hx; simp [hx])
      rw [growthCost, if_neg (by omega)] at hcost
      obtain ⟨h', ptr, hrun, hok', hptr, hroom''⟩ := FreeListHeap.allocBytes_room hok hroom'
        (show blockSize (capacity (k + 2)) + nodeSize ≤ room by omega) hsize
      refine ⟨h', ptr, hrun, hok', hptr, fun r _ => .fresh (by omega) ?_⟩
      exact (hroom''.mono (List.subset_cons_self r _)).le (by omega)
    · obtain ⟨m, rfl⟩ : ∃ m, front = capacity (m + 3) := hfront.resolve_left (by omega)
      have hgap := capacity_gap (k := k) (m := m) (by omega)
      rw [if_neg hlast] at hleft
      obtain ⟨regions⟩ := h
      obtain rfl : regions = l₁ ++ ⟨start, capacity (m + 3) - 2 * capacity (k + 1)⟩ ::
          (l₂ ++ rest) := by
        rw [hleft] at hlist
        exact hlist
      have hfit : Region.Fits (blockSize (capacity (k + 2)))
          ⟨start, capacity (m + 3) - 2 * capacity (k + 1)⟩ := by
        rw [Region.Fits, hblock, hdouble]
        rcases hgap with h4 | h8'
        · exact Or.inl (show capacity (m + 3) - 2 * capacity (k + 1) = _ by omega)
        · exact Or.inr (show _ ≤ capacity (m + 3) - 2 * capacity (k + 1) by omega)
      have hnone : ∀ x ∈ l₁, ¬ x.Fits (blockSize (capacity (k + 2))) := by
        intro x hx hfits
        have hlt := hsmall x (by simp [hx])
        rw [Region.Fits, hblock, hdouble] at hfits
        omega
      obtain ⟨hrun, hok', hptr⟩ := FreeListHeap.allocBytes_first hok hsize hnone hfit
      refine ⟨_, start, hrun, hok', hptr, fun r hr =>
        .reuse (start + capacity (k + 2)) [r] _ (l₁ ++ l₂) rest ?_ ?_ rfl (by omega) hroom⟩
      · rw [Region.rest, hblock, hdouble, List.append_assoc, List.singleton_append]
        refine congrArg (fun left => r :: (left ++ (l₁ ++ (l₂ ++ rest)))) ?_
        dsimp only
        split_ifs with h₁ h₂ h₂
        · rfl
        · omega
        · omega
        · rw [Nat.sub_sub, ← Nat.two_mul, ← Nat.mul_assoc]
      · intro x hx
        rcases List.mem_cons.mp hx with rfl | hx
        · exact hr
        · exact (hsmall x hx).trans (by omega)
  | fresh hle hroom =>
    rw [growthCost, if_neg (by omega)] at hcost
    obtain ⟨h', ptr, hrun, hok', hptr, hroom'⟩ := FreeListHeap.allocBytes_room hok hroom
      (show blockSize (capacity (k + 2)) + nodeSize ≤ room - (2 * capacity (k + 1) - front) by
        omega) hsize
    refine ⟨h', ptr, hrun, hok', hptr, fun r _ => .fresh (by omega) ?_⟩
    exact (hroom'.mono (List.subset_cons_self r _)).le (by omega)

/-- The first region has the size of a block that a vector gave back. -/
lemma Fronted.front_eq {l : List Region} (h : Fronted front room l) :
    front = 0 ∨ ∃ m, front = capacity (m + 3) := by
  cases h with
  | none hzero _ => exact Or.inl hzero
  | block k _ _ hk _ _ => exact Or.inr ⟨k, hk⟩

/-- **The growths of a vector succeed while the room lasts.** -/
lemma growAll_serves {h : FreeListHeap} (hok : h.Ok) (hfront : Fronted front room h.regions) :
    ∀ k, capacity (k + 1) < 2 ^ 32 → growthCost front (capacity (k + 1)) + nodeSize ≤ room →
      ∃ h' ptr, growAll h (k + 1) = .ok (h', ptr) ∧ h'.Ok ∧
        Region.Ok ⟨ptr, blockSize (capacity (k + 1))⟩ ∧
        Serves front room (capacity (k + 1)) h'.regions := by
  intro k
  induction k with
  | zero =>
    intro hsize hcost
    obtain ⟨h', ptr, hrun, hok', hptr, hserves⟩ := hfront.alloc hok hcost
    refine ⟨h', ptr, ?_, hok', hptr, hserves⟩
    rw [growAll, growAll, Exec.pure_eq_ok, Exec.bind_ok]
    simp only [Nat.zero_add, hrun, Exec.bind_ok, Exec.pure_eq_ok, if_true]
  | succ k ih =>
    intro hsize hcost
    have hlt := capacity_lt_succ (k + 1)
    have hmono : growthCost front (capacity (k + 1)) ≤ growthCost front (capacity (k + 1 + 1)) :=
      growthCost_mono hlt.le
    obtain ⟨h₁, old, hrun₁, hok₁, hold, hserves₁⟩ := ih (by omega) (by omega)
    obtain ⟨h₂, ptr, hrun₂, hok₂, hptr, hserves₂⟩ :=
      hserves₁.alloc hok₁ hfront.front_eq hsize hcost
    obtain ⟨hrun₃, hok₃⟩ := FreeListHeap.deallocBytes_eq hok₂
      (show capacity (k + 1) < 2 ^ 32 by omega) hold
    refine ⟨_, ptr, ?_, hok₃, hptr, hserves₂ _ ?_⟩
    · rw [growAll, hrun₁, Exec.bind_ok]
      simp only [hrun₂, hrun₃, Exec.bind_ok, Nat.succ_ne_zero, if_false, Exec.pure_eq_ok]
    · have := blockSize_le (capacity (k + 1))
      have h8 := eight_le_capacity k
      have hdouble := capacity_two_mul k
      exact show blockSize (capacity (k + 1)) < 2 * capacity (k + 2) by omega

/-! ## Loads one after another -/

/-- The vector of a loaded image owns a block of the heap. -/
def ByteVec.Owned (v : ByteVec) : Prop :=
  v.cap ≠ 0 ∧ v.cap < 2 ^ 32 ∧ Region.Ok ⟨v.ptr, blockSize v.cap⟩

/-- The state between two loads: the free list starts with the payload block of the last one, and
there is room in the rest of it. -/
structure Loadable (front room : ℕ) (s : LoadState) : Prop where
  /-- The heap can be used. -/
  heap : s.heap.Ok
  /-- The payload block of the last load comes first. -/
  fronted : Fronted front room s.heap.regions
  /-- The loaded image owns its block. -/
  owned : ∀ v ∈ s.loaded, v.Owned

/-- **A load succeeds while the room lasts**, and takes no more of it than the payload and the image
need. -/
lemma Loadable.cmdLoad {s : LoadState} (h : Loadable front room s) {stream image : List UInt8}
    (henc : Encodes stream image)
    (hcost : growthCost front (capacity (growths (payloadOf stream).length)) +
      blockSize ((payloadOf stream).length / 4 * 3) + nodeSize ≤ room) :
    ∃ s', ZiranOS.cmdLoad s stream = .ok (s', .mounted image.length) ∧
      Loadable (capacity (growths (payloadOf stream).length))
        (room - growthCost front (capacity (growths (payloadOf stream).length)) -
          blockSize ((payloadOf stream).length / 4 * 3)) s' := by
  obtain ⟨hcap, -, -, h24⟩ := henc.payload_le
  set n := (payloadOf stream).length with hn
  have hb64 : b64Cap = 87384 := by decide
  -- the vector grows at least three times
  obtain ⟨k, hk⟩ : ∃ k, growths n = k + 3 := by
    have h16 : capacity 2 = 16 := by decide
    have := capacity_strictMono.lt_iff_lt.mp
      (show capacity 2 < capacity (growths n) by have := (growths_spec n).1; omega)
    exact ⟨growths n - 3, by omega⟩
  have hsize : capacity (growths n) < 2 ^ 32 := by
    have hprev := (growths_spec n).2 (k + 2) hk
    have hdouble : capacity (k + 3) = 2 * capacity (k + 2) := capacity_two_mul (k + 1)
    rw [hk]
    omega
  rw [hk] at hcost hsize ⊢
  obtain ⟨h₁, ptr, hgrow, hok₁, hptr, hserves⟩ : ∃ h₁ ptr, growAll s.heap (k + 3) = .ok (h₁, ptr) ∧
      h₁.Ok ∧ Region.Ok ⟨ptr, blockSize (capacity (k + 3))⟩ ∧
      Serves front room (capacity (k + 3)) h₁.regions :=
    growAll_serves h.heap h.fronted (k + 2) hsize
      (show growthCost front (capacity (k + 3)) + nodeSize ≤ room by omega)
  obtain ⟨h₂, imagePtr, himage, hok₂, himageOk, hroom₂⟩ :=
    FreeListHeap.allocBytes_room hok₁ hserves.hasRoom
      (show blockSize (n / 4 * 3) + nodeSize ≤ room - growthCost front (capacity (k + 3)) by
        omega) (show n / 4 * 3 < 2 ^ 32 by omega)
  -- the block of the image before
  obtain ⟨h₃, hdrop, hok₃, hroom₃⟩ : ∃ h₃, dropLoaded h₂ s.loaded = .ok h₃ ∧ h₃.Ok ∧
      FreeListHeap.Room (room - growthCost front (capacity (k + 3)) - blockSize (n / 4 * 3))
        h₃.regions := by
    cases hloaded : s.loaded with
    | none => exact ⟨h₂, rfl, hok₂, hroom₂⟩
    | some old =>
      obtain ⟨hne, hlt, hold⟩ := h.owned old (by rw [hloaded]; rfl)
      obtain ⟨hrun, hok⟩ := FreeListHeap.deallocBytes_eq hok₂ hlt hold
      refine ⟨_, ?_, hok, hroom₂.mono (List.subset_cons_self _ _)⟩
      rw [dropLoaded, ByteVec.drop, if_neg hne]
      exact hrun
  obtain ⟨hrun₄, hok₄⟩ := FreeListHeap.deallocBytes_eq hok₃ hsize hptr
  refine ⟨⟨_, some ⟨image, imagePtr, n / 4 * 3⟩⟩, ?_, hok₄, ?_, ?_⟩
  · rw [cmdLoad_eq henc]
    simp only [loadBlocks, ← hn, hk, hgrow, himage, hdrop, hrun₄, Exec.bind_ok, Exec.pure_eq_ok]
  · have hblock : blockSize (capacity (k + 3)) = capacity (k + 3) := blockSize_capacity (k + 1)
    refine .block k ptr h₃.regions rfl ?_ hroom₃
    exact congrArg (fun size => (⟨ptr, size⟩ : Region) :: h₃.regions) hblock
  · intro v hv
    obtain rfl := Option.some.inj hv
    exact ⟨show n / 4 * 3 ≠ 0 by omega, show n / 4 * 3 < 2 ^ 32 by omega, himageOk⟩

/-- The heap before anything was loaded. -/
def freshState : LoadState := ⟨⟨[⟨heapBase, heapSize⟩]⟩, none⟩

/-- The fresh heap is what `init` leaves. -/
lemma init_freshState :
    (FreeListHeap.new.init heapBase heapSize : Exec LoadStop FreeListHeap) = .ok freshState.heap :=
  rfl

/-- On the fresh heap all of it is room. -/
lemma loadable_freshState : Loadable 0 heapSize freshState where
  heap := by
    intro r hr
    obtain rfl := List.mem_singleton.mp hr
    exact ⟨by decide, by decide, by decide, le_rfl⟩
  fronted := .none rfl ⟨_, List.mem_singleton_self _, le_rfl⟩
  owned := fun v hv => nomatch hv

/-- A sequence of loads succeeds while the room lasts. -/
lemma Loadable.loadAll : ∀ (streams : List (List UInt8)) (front room : ℕ) (s : LoadState),
    Loadable front room s → (∀ stream ∈ streams, ∃ image, Encodes stream image) →
    roomNeeded front (streams.map fun stream => (payloadOf stream).length) + nodeSize ≤ room →
    ∃ s', ZiranOS.loadAll s streams = .ok s' := by
  intro streams
  induction streams with
  | nil => exact fun front room s _ _ _ => ⟨s, rfl⟩
  | cons stream streams ih =>
    intro front room s h henc hcost
    obtain ⟨⟨image, himage⟩, henc⟩ := List.forall_mem_cons.mp henc
    rw [List.map_cons, roomNeeded] at hcost
    obtain ⟨s₁, hrun, h₁⟩ := h.cmdLoad himage (by omega)
    obtain ⟨s', hrest⟩ := ih _ _ s₁ h₁ henc (by omega)
    refine ⟨s', ?_⟩
    rw [ZiranOS.loadAll, List.foldlM_cons, hrun]
    exact hrest

/-- What a load of an accepted image takes at most. -/
lemma Encodes.bounds {stream image : List UInt8} (henc : Encodes stream image) :
    capacity (growths (payloadOf stream).length) ≤ 131072 ∧
      blockSize ((payloadOf stream).length / 4 * 3) ≤ 65544 := by
  obtain ⟨hcap, -, -, -⟩ := henc.payload_le
  have hb64 : b64Cap = 87384 := by decide
  have h15 : growths b64Cap = 15 := growths_eq (k := 14) (by decide) (by decide)
  constructor
  · have hmono := capacity_strictMono.monotone (growths_mono hcap)
    rw [h15] at hmono
    exact hmono
  · rw [blockSize, nodeSize]
    omega

/-- **Loads succeed while the heap has room for them.**  From the fresh heap, every sequence of at
most four loads of images that the kernel accepts succeeds without a failed allocation, and so does
every longer one whose payloads and images leave room for a node. -/
theorem loads_within_room (streams : List (List UInt8))
    (henc : ∀ stream ∈ streams, ∃ image, Encodes stream image)
    (hroom : streams.length ≤ 4 ∨
      roomNeeded 0 (streams.map fun stream => (payloadOf stream).length) + nodeSize ≤ heapSize) :
    ∃ s, loadAll freshState streams = .ok s := by
  apply loadable_freshState.loadAll streams 0 heapSize freshState henc
  rcases hroom with hfour | hroom
  · have hle := roomNeeded_le 131072 65544
      (streams.map fun stream => (payloadOf stream).length) 0 (Nat.zero_le _) (by
        intro n hn
        obtain ⟨stream, hstream, rfl⟩ := List.mem_map.mp hn
        obtain ⟨image, himage⟩ := henc stream hstream
        exact himage.bounds)
    rw [List.length_map] at hle
    have hheap : heapSize = 1048576 := rfl
    have h16 : nodeSize = 16 := rfl
    have := Nat.mul_le_mul_right (131072 + 65544) hfour
    omega
  · exact hroom

/-! ## The smallest and the largest image -/

/-- A superblock without entries, in base64, and the sentinel. -/
def smallestStream : List UInt8 :=
  [0x57, 0x6C, 0x4A, 0x47, 0x55, 0x77, 0x4D, 0x41, 0x41, 0x41, 0x41, 0x51, 0x41, 0x41, 0x41, 0x41,
    0x45, 0x41, 0x41, 0x41, 0x41, 0x41, 0x3D, 0x3D, 0x2E]

/-- The image of `smallestStream`. -/
def smallestImage : List UInt8 := [0x5A, 0x52, 0x46, 0x53, 3, 0, 0, 0, 16, 0, 0, 0, 16, 0, 0, 0]

/-- The smallest image is accepted. -/
lemma encodes_smallestStream : Encodes smallestStream smallestImage :=
  ⟨by decide, by decide, by decide, by decide⟩

/-- The number of groups of zeros in the largest image. -/
def zeroGroups : ℕ := 21840

/-- The payload of the largest image: the superblock, groups of zeros, and a last byte. -/
def largestPayload : List UInt8 :=
  [0x57, 0x6C, 0x4A, 0x47, 0x55, 0x77, 0x4D, 0x41, 0x41, 0x41, 0x41, 0x41, 0x41, 0x41, 0x45, 0x41,
    0x45, 0x41, 0x41, 0x41] ++ (List.replicate (4 * zeroGroups) 0x41 ++ [0x41, 0x41, 0x3D, 0x3D])

/-- A superblock without entries and 65520 zeros, in base64, and the sentinel. -/
def largestStream : List UInt8 := largestPayload ++ [sentinel]

/-- The image of `largestStream`. -/
def largestImage : List UInt8 :=
  [0x5A, 0x52, 0x46, 0x53, 3, 0, 0, 0, 0, 0, 1, 0, 16, 0, 0] ++
    (List.replicate (3 * zeroGroups) 0 ++ [0])

/-- A group without pads that is not the last one decodes to its bytes. -/
lemma b64Groups_cons {c₀ c₁ c₂ c₃ : UInt8} {rest vals out : List UInt8} (hne : rest ≠ [])
    (hvals : groupVals false 0 0 [c₀, c₁, c₂, c₃] = .ok (vals, 0))
    (hrest : b64Groups rest = .ok out) :
    b64Groups (c₀ :: c₁ :: c₂ :: c₃ :: rest) = .ok (groupBytes vals 0 ++ out) := by
  have hlast : rest.isEmpty = false := by
    cases rest with
    | nil => exact absurd rfl hne
    | cons c cs => rfl
  simp only [b64Groups, hlast, hvals, hrest, Exec.bind_ok]

/-- Groups of the symbol for zero decode to zeros. -/
lemma b64Groups_zeros {tail out : List UInt8} (htail : b64Groups tail = .ok out)
    (hne : tail ≠ []) : ∀ k, b64Groups (List.replicate (4 * k) 0x41 ++ tail) =
      .ok (List.replicate (3 * k) 0 ++ out) := by
  intro k
  induction k with
  | zero => exact htail
  | succ k ih =>
    have hzeros : groupVals false 0 0 [0x41, 0x41, 0x41, 0x41] = .ok ([0, 0, 0, 0], 0) := by
      decide
    exact b64Groups_cons (by simp [hne]) hzeros ih

/-- A stream of symbols is its payload. -/
lemma payloadOf_append {l : List UInt8}
    (h : ∀ b ∈ l, (b != sentinel) = true ∧ (!isAsciiWhitespace b) = true) :
    payloadOf (l ++ [sentinel]) = l := by
  have hpre : sentinel ∉ l := fun hmem => absurd (h _ hmem).1 (by simp)
  rw [payloadOf, takeWhile_sentinel hpre, List.filter_eq_self.mpr (fun b hb => (h b hb).2)]

/-- The payload of the largest image is the stream without the sentinel. -/
lemma payloadOf_largestStream : payloadOf largestStream = largestPayload := by
  apply payloadOf_append
  intro b hb
  unfold largestPayload at hb
  simp only [List.mem_cons, List.mem_append, List.mem_replicate, List.not_mem_nil, or_false] at hb
  have hcases : b = 0x57 ∨ b = 0x6C ∨ b = 0x4A ∨ b = 0x47 ∨ b = 0x55 ∨ b = 0x77 ∨ b = 0x4D ∨
      b = 0x41 ∨ b = 0x45 ∨ b = 0x3D := by tauto
  rcases hcases with rfl | rfl | rfl | rfl | rfl | rfl | rfl | rfl | rfl | rfl <;> decide

/-- The length of the payload of the largest image. -/
lemma length_largestPayload : largestPayload.length = 87384 := by
  rw [largestPayload, List.length_append, List.length_append, List.length_replicate, zeroGroups]
  rfl

/-- The length of the largest image. -/
lemma length_largestImage : largestImage.length = 65536 := by
  rw [largestImage, List.length_append, List.length_append, List.length_replicate, zeroGroups]
  rfl

/-- The largest image is accepted. -/
lemma encodes_largestStream : Encodes largestStream largestImage where
  sentinel_mem := List.mem_append_right _ (List.mem_singleton_self _)
  decode := by
    rw [b64Decode, payloadOf_largestStream, length_largestPayload, if_neg (by decide)]
    have hlast : b64Groups [0x41, 0x41, 0x3D, 0x3D] = .ok [0] := by decide
    have h₁ : groupVals false 0 0 [0x57, 0x6C, 0x4A, 0x47] = .ok ([22, 37, 9, 6], 0) := by decide
    have h₂ : groupVals false 0 0 [0x55, 0x77, 0x4D, 0x41] = .ok ([20, 48, 12, 0], 0) := by decide
    have h₃ : groupVals false 0 0 [0x41, 0x41, 0x41, 0x41] = .ok ([0, 0, 0, 0], 0) := by decide
    have h₄ : groupVals false 0 0 [0x41, 0x41, 0x45, 0x41] = .ok ([0, 0, 4, 0], 0) := by decide
    have h₅ : groupVals false 0 0 [0x45, 0x41, 0x41, 0x41] = .ok ([4, 0, 0, 0], 0) := by decide
    have hzeros := b64Groups_zeros hlast (by decide) zeroGroups
    have htail := b64Groups_cons (by simp) h₃ (b64Groups_cons (by simp) h₄
      (b64Groups_cons (by simp) h₅ hzeros))
    exact b64Groups_cons (by simp) h₁ (b64Groups_cons (by simp) h₂ htail)
  length_le := length_largestImage.le
  mount := by
    have hcount : fileCount largestImage = 0 := by decide
    have hend : dataEnd largestImage = 16 := by decide
    apply (mount_isOk_iff largestImage).mpr
    rw [length_largestImage, hcount, hend]
    exact ⟨by norm_num, by decide, by decide, by decide, by norm_num, by norm_num, by norm_num,
      .nil, rfl, trivial, by simp [Entries.extents], by simp [Entries.Ordered, Entries.tables],
      Nat.zero_le _⟩

/-- The smallest and the largest image in turn: five loads, of which those of the smallest image
need no room for their payload behind those of the largest. -/
theorem loads_within_room_inTurn : ∃ s, loadAll freshState
    [smallestStream, largestStream, smallestStream, largestStream, smallestStream] = .ok s := by
  apply loads_within_room
  · intro stream hstream
    simp only [List.mem_cons, List.not_mem_nil, or_false] at hstream
    rcases hstream with rfl | rfl | rfl | rfl | rfl
    · exact ⟨_, encodes_smallestStream⟩
    · exact ⟨_, encodes_largestStream⟩
    · exact ⟨_, encodes_smallestStream⟩
    · exact ⟨_, encodes_largestStream⟩
    · exact ⟨_, encodes_smallestStream⟩
  · right
    have hsmall : (payloadOf smallestStream).length = 24 := by decide
    have hlarge : (payloadOf largestStream).length = 87384 := by
      rw [payloadOf_largestStream, length_largestPayload]
    have h3 : growths 24 = 3 := growths_eq (k := 2) (by decide) (by decide)
    have h15 : growths 87384 = 15 := growths_eq (k := 14) (by decide) (by decide)
    have hblock : blockSize (87384 / 4 * 3) = 65544 := by decide
    rw [← hlarge] at h15 hblock
    simp only [List.map_cons, List.map_nil, hsmall]
    -- only the growths and the block of the largest payload matter
    generalize (payloadOf largestStream).length = n at h15 hblock ⊢
    rw [roomNeeded, roomNeeded, roomNeeded, roomNeeded, roomNeeded, roomNeeded, h3, h15, hblock]
    decide

/-! ## The heap runs out -/

/-- The heap after some loads of the largest image, and the block of the image. -/
def largestLoads : ℕ → Exec LoadStop (FreeListHeap × Option ByteVec)
  | 0 => pure (freshState.heap, none)
  | k + 1 => do
    let (h, loaded) ← largestLoads k
    let (h, imagePtr) ← loadBlocks h loaded 15 65538
    pure (h, some ⟨[], imagePtr, 65538⟩)

/-- A vector without its bytes. -/
def ByteVec.block (v : ByteVec) : ByteVec := ⟨[], v.ptr, v.cap⟩

/-- The heap operations of a load do not depend on the bytes of the image before. -/
lemma loadBlocks_block (h : FreeListHeap) (loaded : Option ByteVec) (k size : ℕ) :
    loadBlocks h (loaded.map ByteVec.block) k size = loadBlocks h loaded k size := by
  cases loaded <;> rfl

/-- The last of several loads. -/
lemma loadAll_concat (s : LoadState) (streams : List (List UInt8)) (stream : List UInt8) :
    loadAll s (streams ++ [stream]) = (do
      let s ← loadAll s streams
      let x ← cmdLoad s stream
      pure x.1) := by
  rw [loadAll, List.foldlM_append]
  refine bind_congr fun s₁ => ?_
  cases hrun : cmdLoad s₁ stream with
  | error e => simp only [List.foldlM_cons, hrun, Exec.bind_error]
  | ok x => simp only [List.foldlM_cons, List.foldlM_nil, hrun, Exec.bind_ok, Exec.pure_eq_ok]

/-- Loads of the largest image that succeed do so on the blocks. -/
lemma largestLoads_eq : ∀ (k : ℕ) (s : LoadState),
    loadAll freshState (List.replicate k largestStream) = .ok s →
      largestLoads k = .ok (s.heap, s.loaded.map ByteVec.block) := by
  intro k
  induction k with
  | zero =>
    intro s hrun
    obtain rfl := Except.ok.inj hrun
    rfl
  | succ k ih =>
    intro s hrun
    have h15 : growths 87384 = 15 := growths_eq (k := 14) (by decide) (by decide)
    rw [List.replicate_succ', loadAll_concat, Exec.bind_eq_ok] at hrun
    obtain ⟨s₁, hrun₁, hlast⟩ := hrun
    have hcmd := cmdLoad_eq encodes_largestStream s₁
    rw [payloadOf_largestStream, length_largestPayload] at hcmd
    simp only [h15, Nat.reduceDiv, Nat.reduceMul] at hcmd
    rw [largestLoads, ih s₁ hrun₁, Exec.bind_ok]
    simp only [loadBlocks_block]
    cases hload : loadBlocks s₁.heap s₁.loaded 15 65538 with
    | error e =>
      rw [hcmd, hload] at hlast
      cases hlast
    | ok x =>
      rw [hcmd, hload] at hlast
      obtain rfl := Except.ok.inj hlast
      rfl

/-- Five loads of the largest image, one after another, exhaust the heap. -/
theorem five_loads_exhaust : ¬ ∀ streams : List (List UInt8),
    (∀ stream ∈ streams, ∃ image, Encodes stream image) →
      ∃ s, loadAll freshState streams = .ok s := by
  intro h
  obtain ⟨s, hrun⟩ := h (List.replicate 5 largestStream) fun stream hstream =>
    ⟨largestImage, (List.mem_replicate.mp hstream).2 ▸ encodes_largestStream⟩
  have hnull : largestLoads 5 = .error (.fail .null) := by decide +kernel
  have hok := largestLoads_eq 5 s hrun
  rw [hnull] at hok
  cases hok

end ZiranOS
