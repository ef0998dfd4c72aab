import Deimos.Kalloc.Advance

set_option autoImplicit false

namespace Deimos.Kalloc

open Mem Tiling Run

theorem store_self (m : Mem) (p : Word) (f : Field) : store m p f (load m p f) = m := write_read_self m (p + f.offset)

theorem split_block_built {m : Mem} {h dist : Word} (built : Building m h dist .cut) :
    (splitBlock m h dist).1 = store (cutMem m h dist .newPrev) (h + dist) .prev h := by
  obtain ⟨cut, size, allocated, magic⟩ := built
  have first : store m (h + dist) .size (load m h .size - dist) = m := by rw [← size, store_self]
  have second : store m (h + dist) .allocated (load m h .allocated) = m := by rw [← allocated, store_self]
  have third : store m (h + dist) .magic HEAP_MAGIC = m := by rw [← magic, store_self]
  simp only [splitBlock, if_neg cut, first, second, third]
  rfl

section Cutting

variable {base stop : Nat} {s : Heap} {bs : List Block} {live : List Live} {m m' : Mem} {p' : Point} {p : Purpose} {h dist : Word}

theorem cut_begins (ready : Ready base stop s bs live (.split p h dist .cut)) :
    Halfway base stop { s with mem := store s.mem h .size dist } live (.split p h dist .nextTest) s.mem bs :=
  ⟨ready, rfl, trivial⟩

theorem cut_goes_on (here : SplitAt) (inside : here = .nextTest ∨ here = .nextPrev ∨ here = .newNext ∨ here = .link)
    (half : Halfway base stop s live (.split p h dist here) m bs) (ran : splitStatement s.mem p h dist here = (m', p')) :
    Halfway base stop { s with mem := m' } live p' m bs := by
  obtain ⟨ready, mem, passed⟩ := half
  rcases inside with rfl | rfl | rfl | rfl
  · by_cases more : load s.mem h .next ≠ 0
    · rw [splitStatement, if_pos more] at ran
      cases ran
      exact ⟨ready, mem, more⟩
    · rw [splitStatement, if_neg more] at ran
      cases ran
      refine ⟨ready, ?_, trivial⟩
      rw [mem] at more
      exact mem.trans (if_neg more).symm
  · cases ran
    refine ⟨ready, ?_, trivial⟩
    have more : load s.mem h .next ≠ 0 := passed
    rw [mem] at more ⊢
    exact (if_pos more).symm
  · cases ran
    refine ⟨ready, ?_, trivial⟩
    change store s.mem (h + dist) .next (load s.mem h .next) = cutMem m h dist .link
    rw [mem]
    rfl
  · cases ran
    refine ⟨ready, ?_, trivial⟩
    change store s.mem h .next (h + dist) = cutMem m h dist .newPrev
    rw [mem]
    rfl

end Cutting

section Cut

variable {base stop : Nat} {s : Heap} {pre post : List Block} {b : Block} {live : List Live} {dist : Word}

theorem split_ready (top : stop + 8192 < 2 ^ 32) (p : Purpose) (held : Held base stop s (pre ++ b :: post) (grip b.addr p ++ live))
    (site : Site s b.addr dist p) (cut : Splittable s.mem b.addr dist) :
    Ready base stop { s with mem := (splitBlock s.mem b.addr dist).1 } (pre ++ b.cutFront dist :: b.cutBack dist :: post) live
      (.split p b.addr dist .leave) := by
  have cuttable := (building_apart held cut).1
  have bounds := held.wf.bounds (b := b) (by simp)
  obtain ⟨low, high⟩ := cuttable_bounds b dist bounds.2.1 cuttable
  cases p with
  | front q =>
      obtain ⟨listed, fit, inside, rfl⟩ := site
      have fits := (fits_iff s.mem b _ _ q.rounded held.wf.header).mp fit
      have halves := held.split fits.1 b.alignedDist cuttable
      have whole : pre ++ b.cutFront b.alignedDist :: b.cutBack b.alignedDist :: post =
          (pre ++ [b.cutFront b.alignedDist]) ++ b.cutBack b.alignedDist :: post := by simp
      have wf := halves.wf
      rw [whole] at wf
      refine ⟨halves, ⟨on_list_here wf, (free_iff wf).mpr fits.1, fun small => ?_⟩, rfl⟩
      have rounded := round_size_bounds q.size (by omega)
      have room : q.rounded.toNat + 20 ≤ b.size.toNat := fit_room (by rw [Request.rounded]; omega) fits
      have loose : ¬ b.Stuck q.rounded := by
        rintro (tight | beyond)
        · have gap := aligned_addr_gap b.addr
          simp only [headerSize] at tight
          bv_omega
        · rw [held.wf.header.size] at inside
          exact inside beyond
      have after := aligned_room held.wf.toLayout top (by simp) room loose
      have sizes := aligned_block_size held.wf.toLayout top (by simp) room loose
      have size : load (splitBlock s.mem b.addr b.alignedDist).1 (b.addr + b.alignedDist) .size = b.alignedBlock.size := wf.header.size
      change q.size.toNat + 20 ≤ (load (splitBlock s.mem b.addr b.alignedDist).1 (b.addr + b.alignedDist) .size).toNat
      rw [size]
      rw [Request.rounded] at after
      omega
  | back q =>
      obtain ⟨c, member, used, same⟩ := (held.pointers (b.addr + headerSize)).mp (by simp [grip])
      obtain rfl := held.wf.toLayout.payload_inj member (by simp) same
      refine ⟨held.split_used _ used rfl dist cuttable (fun (small : q.size.toNat + 23 < 2 ^ 32) => ?_), trivial, site, trivial⟩
      have rounded := round_size_bounds q.size (by omega)
      have value : dist.toNat = 20 + q.rounded.toNat := by
        rw [site, Request.rounded]
        simp only [headerSize]
        bv_omega
      rw [Request.rounded] at value
      change q.size.toNat + 20 ≤ dist.toNat
      omega
  | rest q =>
      obtain ⟨listed, fit, rfl⟩ := site
      have fits := (fits_iff s.mem b _ _ q.rounded held.wf.header).mp fit
      have halves := held.split fits.1 _ cuttable
      have still : (b.cutFront (headerSize + q.rounded)).Fits q.rounded := by
        refine ⟨fits.1, ?_⟩
        rw [BitVec.add_comm]
        exact BitVec.le_refl _
      exact ⟨halves, ⟨on_list_here (b := b.cutFront (headerSize + q.rounded)) halves.wf, (fits_iff _ _ _ _ q.rounded halves.wf.header).mpr still⟩, rfl⟩

theorem Held.nonnull {bs : List Block} (held : Held base stop s bs live) (top : stop < 2 ^ 32) (ptr : Word)
    (member : ptr ∈ live.map Live.ptr) : ptr ≠ 0 := by
  obtain ⟨b, inside, -, rfl⟩ := (held.pointers ptr).mp member
  exact (held.wf.payload_ne top inside).1

theorem cut_last {m : Mem} {h : Word} (p : Purpose) (built : Building m h dist .cut) (mem : s.mem = soFar m (.split p h dist .newPrev)) :
    splitStatement s.mem p h dist .newPrev = ((splitBlock m h dist).1, .split p h dist .leave) := by
  rw [split_block_built built, splitStatement, mem]
  rfl

theorem cut_ends {bs : List Block} {m m' : Mem} {p' : Point} {h : Word} (top : stop + 8192 < 2 ^ 32) (p : Purpose)
    (half : Halfway base stop s live (.split p h dist .newPrev) m bs) (ran : splitStatement s.mem p h dist .newPrev = (m', p')) :
    ∃ bs', Ready base stop { s with mem := m' } bs' live p' := by
  have ready : Ready base stop { s with mem := m } bs live (.split p h dist .cut) := half.ready
  obtain ⟨held, site, built⟩ := (ready_split (by decide)).mp ready
  rw [cut_last p built half.mem] at ran
  obtain ⟨rfl, rfl⟩ := Prod.mk.inj ran
  obtain ⟨pre, b, post, rfl, rfl⟩ := site_block held site
  exact ⟨_, split_ready (s := { s with mem := m }) top p held site built.1⟩

theorem leave_ready {bs : List Block} {h : Word} (p : Purpose) (ready : Ready base stop s bs live (.split p h dist .leave)) :
    Ready base stop s bs live (p.next h (h + dist)) := by
  obtain ⟨held, found, own⟩ := ready
  cases p with
  | front q => exact ⟨held, .inr found, trivial⟩
  | back q =>
      have nonnull : h + dist ≠ 0 := by
        obtain ⟨b, member, -, same⟩ := (held.pointers (h + dist + headerSize)).mp (by simp [hidden])
        have here : b.addr = h + dist := payload_inj b ⟨h + dist, 0, false⟩ same
        exact here ▸ held.wf.addr_ne member
      refine ⟨?_, trivial, trivial⟩
      simp only [Purpose.next, hidden, if_neg nonnull]
      exact held
  | rest q => exact ⟨held, found, trivial⟩

end Cut

section Marking

variable {base stop : Nat} {s : Heap} {bs : List Block} {live : List Live} {m' : Mem} {p' : Point} {q : Request} {newH backH : Word}

theorem take_ready (ready : Ready base stop s bs live (.take q newH)) (ran : statement s (.take q newH) = .ok (m', p')) :
    p'.began = p' ∧ ∃ bs', Ready base stop { s with mem := m' } bs' live p' := by
  obtain ⟨held, found, -⟩ := ready
  rcases found with rfl | ⟨listed, free, room⟩
  · cases ran
  · rw [statement, deref_ne _ _ listed.1] at ran
    cases ran
    obtain ⟨pre, b, post, rfl, rfl⟩ := on_list_split held.wf listed
    have sized : Sized q.size b := by
      intro small
      have large := room small
      rwa [held.wf.header.size] at large
    exact ⟨rfl, _, held.mark ((free_iff held.wf).mp free) q.size q.align sized, trivial, trivial⟩

theorem excess_ready (top : stop < 2 ^ 32) (ready : Ready base stop s bs live (.excessTest q newH))
    (ran : statement s (.excessTest q newH) = .ok (m', p')) : p'.began = p' ∧ Ready base stop { s with mem := m' } bs live p' := by
  obtain ⟨held, -, -⟩ := ready
  cases ran
  by_cases excess : load s.mem newH .size > q.rounded + 2 * headerSize
  · rw [if_pos excess]
    exact ⟨rfl, held, trivial, rfl, trivial⟩
  · rw [if_neg excess]
    have nonnull : newH + headerSize ≠ 0 := held.nonnull top _ (by simp [hidden])
    refine ⟨rfl, ?_, trivial, trivial⟩
    simp only [hidden, if_neg nonnull]
    exact held

theorem release_ready (top : stop < 2 ^ 32) (ready : Ready base stop s bs live (.release q newH backH))
    (ran : statement s (.release q newH backH) = .ok (m', p')) :
    p'.began = p' ∧ ∃ bs', Ready base stop { s with mem := m' } bs' live p' := by
  obtain ⟨held, -, -⟩ := ready
  by_cases null : backH = 0
  · subst null
    cases ran
  · rw [statement, deref_ne _ _ null] at ran
    cases ran
    simp only [hidden, if_neg null] at held
    obtain ⟨b, member, -, same⟩ := (held.pointers (backH + headerSize)).mp (by simp)
    obtain rfl : b.addr = backH := payload_inj b ⟨backH, 0, false⟩ same
    obtain ⟨pre, post, rfl⟩ := List.append_of_mem member
    have nonnull : newH + headerSize ≠ 0 := held.nonnull top _ (by simp)
    have unmarked := held.unmark ⟨b.addr + headerSize, 0, false⟩ rfl
    refine ⟨rfl, pre ++ b.tag false :: post, ?_, trivial, trivial⟩
    simp only [hidden, if_neg nonnull]
    exact unmarked

end Marking

section Freeing

variable {base stop : Nat} {s : Heap} {bs : List Block} {live : List Live} {m m' : Mem} {p' : Point} {h : Word}

theorem free_ready (here : FreeAt) (calm : here = .magicTest ∨ here = .clear ∨ here = .nextTest ∨ here = .prevTest)
    (ready : Ready base stop s bs live (.free h here)) (ran : freeStatement s.mem h here = .ok (m', p')) :
    p'.began = p' ∧ ∃ bs', Ready base stop { s with mem := m' } bs' live p' := by
  obtain ⟨held, found, -⟩ := ready
  rcases calm with rfl | rfl | rfl | rfl
  · by_cases null : h = 0
    · subst null
      cases ran
    by_cases magic : load s.mem h .magic = HEAP_MAGIC
    · rw [freeStatement, deref_ne _ _ null, if_neg (not_not.mpr magic)] at ran
      cases ran
      exact ⟨rfl, bs, held, trivial, trivial⟩
    · rw [freeStatement, deref_ne _ _ null, if_pos magic] at ran
      cases ran
  · cases ran
    obtain ⟨b, member, -, same⟩ := (held.pointers (h + headerSize)).mp (by simp [hidden])
    obtain rfl : b.addr = h := payload_inj b ⟨h, 0, false⟩ same
    obtain ⟨pre, post, rfl⟩ := List.append_of_mem member
    have unmarked := held.unmark ⟨b.addr + headerSize, 0, false⟩ rfl
    have wf := unmarked.wf
    exact ⟨rfl, _, unmarked, ⟨on_list_here (b := b.tag false) wf, .inl ((free_iff (b := b.tag false) wf).mpr rfl)⟩, trivial⟩
  · obtain ⟨listed, mine⟩ := found
    rw [freeStatement] at ran
    cases ran
    by_cases next : load s.mem h .next ≠ 0 ∧ load s.mem (load s.mem h .next) .allocated = 0
    · rw [if_pos next]
      exact ⟨rfl, bs, held, ⟨listed, mine, next⟩, trivial⟩
    · rw [if_neg next]
      exact ⟨rfl, bs, held, ⟨listed, mine⟩, trivial⟩
  · obtain ⟨listed, mine⟩ := found
    rw [freeStatement] at ran
    cases ran
    by_cases prev : load s.mem h .prev ≠ 0 ∧ load s.mem (load s.mem h .prev) .allocated = 0
    · rw [if_pos prev]
      exact ⟨rfl, bs, held, ⟨listed, mine.resolve_right (not_not.mpr prev), prev.1⟩, trivial⟩
    · rw [if_neg prev]
      exact ⟨rfl, bs, held, trivial, trivial⟩

theorem merge_begins (here : FreeAt) (opens : here = .nextSize ∨ here = .prevSize) (ready : Ready base stop s bs live (.free h here))
    (ran : freeStatement s.mem h here = .ok (m', p')) : Halfway base stop { s with mem := m' } live p' s.mem bs := by
  rcases opens with rfl | rfl
  · rw [freeStatement] at ran
    cases ran
    exact ⟨ready, rfl, trivial⟩
  · rw [freeStatement] at ran
    cases ran
    exact ⟨ready, rfl, trivial⟩

theorem next_link_mem (m : Mem) (h : Word) : mergeMem m h .nextLink =
    if load (mergeMem m h .nextNextTest) (load (mergeMem m h .nextNextTest) h .next) .next ≠ 0 then
      store (mergeMem m h .nextNextTest) (load (mergeMem m h .nextNextTest) (load (mergeMem m h .nextNextTest) h .next) .next) .prev h
    else mergeMem m h .nextNextTest := rfl

theorem prev_link_mem (m : Mem) (h : Word) : mergeMem m h .prevLink =
    if load (mergeMem m h .prevNextTest) h .next ≠ 0 then
      store (mergeMem m h .prevNextTest) (load (mergeMem m h .prevNextTest) h .next) .prev (load (mergeMem m h .prevNextTest) h .prev)
    else mergeMem m h .prevNextTest := rfl

theorem merge_goes_on (here : FreeAt)
    (inside : here = .nextNextTest ∨ here = .nextNextPrev ∨ here = .prevNextTest ∨ here = .prevNextPrev)
    (half : Halfway base stop s live (.free h here) m bs) (ran : freeStatement s.mem h here = .ok (m', p')) :
    Halfway base stop { s with mem := m' } live p' m bs := by
  obtain ⟨ready, mem, passed⟩ := half
  rcases inside with rfl | rfl | rfl | rfl
  · rw [freeStatement] at ran
    cases ran
    by_cases more : load s.mem (load s.mem h .next) .next ≠ 0
    · rw [if_pos more]
      exact ⟨ready, mem, more⟩
    · rw [if_neg more]
      refine ⟨ready, ?_, trivial⟩
      change s.mem = mergeMem m h .nextLink
      have sofar : s.mem = mergeMem m h .nextNextTest := mem
      rw [sofar] at more ⊢
      rw [next_link_mem, if_neg more]
  · rw [freeStatement] at ran
    cases ran
    refine ⟨ready, ?_, trivial⟩
    change store s.mem (load s.mem (load s.mem h .next) .next) .prev h = mergeMem m h .nextLink
    have more : load s.mem (load s.mem h .next) .next ≠ 0 := passed
    have sofar : s.mem = mergeMem m h .nextNextTest := mem
    rw [sofar] at more ⊢
    rw [next_link_mem, if_pos more]
  · rw [freeStatement] at ran
    cases ran
    by_cases more : load s.mem h .next ≠ 0
    · rw [if_pos more]
      exact ⟨ready, mem, more⟩
    · rw [if_neg more]
      refine ⟨ready, ?_, trivial⟩
      change s.mem = mergeMem m h .prevLink
      have sofar : s.mem = mergeMem m h .prevNextTest := mem
      rw [sofar] at more ⊢
      rw [prev_link_mem, if_neg more]
  · rw [freeStatement] at ran
    cases ran
    refine ⟨ready, ?_, trivial⟩
    change store s.mem (load s.mem h .next) .prev (load s.mem h .prev) = mergeMem m h .prevLink
    have more : load s.mem h .next ≠ 0 := passed
    have sofar : s.mem = mergeMem m h .prevNextTest := mem
    rw [sofar] at more ⊢
    rw [prev_link_mem, if_pos more]

theorem next_link_last (mem : s.mem = soFar m (.free h .nextLink)) (next : NextFree m h) :
    freeStatement s.mem h .nextLink = .ok (mergeNext m h, .free h .prevTest) := by
  have whole : mergeNext m h = store (mergeMem m h .nextLink) h .next (load (mergeMem m h .nextLink) (load (mergeMem m h .nextLink) h .next) .next) :=
    if_pos next
  rw [whole, mem]
  rfl

theorem prev_link_last (mem : s.mem = soFar m (.free h .prevLink)) (apart : HeaderApart (load m h .prev) h)
    (apartNext : load m h .next ≠ 0 → HeaderApart h (load m h .next)) :
    freeStatement s.mem h .prevLink = .ok (absorb m (load m h .prev) h, .freed) := by
  rw [← link_prev_absorb m h apart apartNext, mem]
  rfl

theorem merge_next_ends (half : Halfway base stop s live (.free h .nextLink) m bs)
    (ran : freeStatement s.mem h .nextLink = .ok (m', p')) : p'.began = p' ∧ ∃ bs', Ready base stop { s with mem := m' } bs' live p' := by
  have ready : Ready base stop { s with mem := m } bs live (.free h .nextSize) := half.ready
  obtain ⟨held, ⟨listed, mine, next⟩, -⟩ := ready
  rw [next_link_last half.mem next] at ran
  cases ran
  obtain ⟨pre, b, post, rfl, rfl⟩ := on_list_split held.wf listed
  obtain ⟨c, post, rfl, free⟩ := (next_free_iff held.wf).mp next
  have joined := held.absorb free
  have nextHeader : HeaderIs m c b.addr (headOr 0 post) := ((linked_at m pre (c :: post) b 0 0).mp held.wf.linked).2.2.1
  have whole := merge_next_free m base stop pre post b c held.wf.toLayout held.wf.header.next nextHeader free
  rw [← whole] at joined
  refine ⟨rfl, _, joined, ⟨on_list_here (b := b.join c) joined.wf, ?_⟩, trivial⟩
  refine mine.imp (fun free => ?_) (fun busy => ?_)
  · exact (free_iff (b := b.join c) joined.wf).mpr ((free_iff held.wf).mp free)
  · exact fun prev => busy ((prev_free_iff held.wf).mpr ((prev_free_iff (b := b.join c) joined.wf).mp prev))

theorem merge_prev_ends (half : Halfway base stop s live (.free h .prevLink) m bs)
    (ran : freeStatement s.mem h .prevLink = .ok (m', p')) : p'.began = p' ∧ ∃ bs', Ready base stop { s with mem := m' } bs' live p' := by
  have ready : Ready base stop { s with mem := m } bs live (.free h .prevSize) := half.ready
  obtain ⟨held, ⟨listed, free, present⟩, -⟩ := ready
  obtain ⟨pre, b, post, rfl, rfl⟩ := on_list_split held.wf listed
  obtain ⟨front, p, rfl, prev⟩ := prev_present held.wf present
  have whole : (front ++ [p]) ++ b :: post = front ++ p :: b :: post := by simp
  have mark := (free_iff held.wf).mp free
  rw [whole] at held
  obtain ⟨same, apart, apartNext⟩ := link_prev_list m base stop front post p b held.wf.toHeapList
  rw [← same] at apart
  rw [prev_link_last half.mem apart apartNext] at ran
  cases ran
  have joined := held.absorb mark
  rw [← same] at joined
  exact ⟨rfl, _, joined, trivial, trivial⟩

end Freeing

section Statement

variable {base stop : Nat} {s : Heap} {bs : List Block} {live : List Live} {m m' : Mem} {p p' : Point}

theorem split_halfway (top : stop + 8192 < 2 ^ 32) (f : Purpose) (h dist : Word) (here : SplitAt)
    (half : Halfway base stop s live (.split f h dist here) m bs) (ran : splitStatement s.mem f h dist here = (m', p')) :
    ∃ m'' bs', Halfway base stop { s with mem := m' } live p' m'' bs' := by
  cases here with
  | test | addr | size | allocated | magic =>
      obtain ⟨calm, ready⟩ := split_early_ready f h dist _ (by simp) (halfway_ready rfl half) ran
      exact ⟨m', bs, ready_halfway calm ready⟩
  | cut =>
      cases ran
      exact ⟨s.mem, bs, cut_begins (halfway_ready rfl half)⟩
  | nextTest | nextPrev | newNext | link => exact ⟨m, bs, cut_goes_on _ (by simp) half ran⟩
  | newPrev =>
      obtain ⟨bs', ready⟩ := cut_ends top f half ran
      cases ran
      exact ⟨_, bs', ready_halfway rfl ready⟩
  | leave =>
      have ready := leave_ready f (halfway_ready rfl half)
      cases ran
      exact ⟨_, bs, ready_halfway (by cases f <;> rfl) ready⟩

theorem free_halfway (h : Word) (here : FreeAt) (half : Halfway base stop s live (.free h here) m bs)
    (ran : freeStatement s.mem h here = .ok (m', p')) : ∃ m'' bs', Halfway base stop { s with mem := m' } live p' m'' bs' := by
  cases here with
  | magicTest | clear | nextTest | prevTest =>
      obtain ⟨calm, bs', ready⟩ := free_ready _ (by simp) (halfway_ready rfl half) ran
      exact ⟨m', bs', ready_halfway calm ready⟩
  | nextSize | prevSize => exact ⟨s.mem, bs, merge_begins _ (by simp) (halfway_ready rfl half) ran⟩
  | nextNextTest | nextNextPrev | prevNextTest | prevNextPrev => exact ⟨m, bs, merge_goes_on _ (by simp) half ran⟩
  | nextLink =>
      obtain ⟨calm, bs', ready⟩ := merge_next_ends half ran
      exact ⟨m', bs', ready_halfway calm ready⟩
  | prevLink =>
      obtain ⟨calm, bs', ready⟩ := merge_prev_ends half ran
      exact ⟨m', bs', ready_halfway calm ready⟩

theorem statement_halfway (top : stop + 8192 < 2 ^ 32) (half : Halfway base stop s live p m bs) (ran : statement s p = .ok (m', p')) :
    ∃ m'' bs', Halfway base stop { s with mem := m' } live p' m'' bs' := by
  cases p with
  | enter q =>
      obtain ⟨held, -, -⟩ := halfway_ready rfl half
      cases ran
      by_cases none : q.size = 0
      · rw [if_pos none]
        exact ⟨_, bs, ready_halfway rfl ⟨held, trivial, trivial⟩⟩
      · rw [if_neg none]
        exact ⟨_, bs, ready_halfway rfl ⟨held, trivial, trivial⟩⟩
  | heapTest q =>
      obtain ⟨held, -, -⟩ := halfway_ready rfl half
      rw [statement, if_neg held.wf.kheap_ne] at ran
      cases ran
      exact ⟨_, bs, ready_halfway rfl ⟨held, trivial, trivial⟩⟩
  | first q =>
      obtain ⟨held, -, -⟩ := halfway_ready rfl half
      cases ran
      exact ⟨_, bs, ready_halfway rfl ⟨held, .inr ⟨held.wf.kheap_ne, .refl⟩, trivial⟩⟩
  | search q h here =>
      obtain ⟨calm, bs', ready⟩ := search_ready (by omega) q h here (halfway_ready rfl half) ran
      exact ⟨m', bs', ready_halfway calm ready⟩
  | split f h dist here => exact split_halfway top f h dist here half (Except.ok.inj ran)
  | take q newH =>
      obtain ⟨calm, bs', ready⟩ := take_ready (halfway_ready rfl half) ran
      exact ⟨m', bs', ready_halfway calm ready⟩
  | excessTest q newH =>
      obtain ⟨calm, ready⟩ := excess_ready (by omega) (halfway_ready rfl half) ran
      exact ⟨m', bs, ready_halfway calm ready⟩
  | release q newH backH =>
      obtain ⟨calm, bs', ready⟩ := release_ready (by omega) (halfway_ready rfl half) ran
      exact ⟨m', bs', ready_halfway calm ready⟩
  | allocated q ptr =>
      cases ran
      exact ⟨m, bs, half⟩
  | freeEnter ptr =>
      obtain ⟨held, -, -⟩ := halfway_ready rfl half
      cases ran
      by_cases null : ptr = 0
      · rw [if_pos null]
        simp only [hidden, if_pos null] at held
        exact ⟨_, bs, ready_halfway rfl ⟨held, trivial, trivial⟩⟩
      · rw [if_neg null]
        simp only [hidden, if_neg null] at held
        exact ⟨_, bs, ready_halfway rfl ⟨held, trivial, trivial⟩⟩
  | freeHeader ptr =>
      obtain ⟨held, -, -⟩ := halfway_ready rfl half
      cases ran
      have same : ptr - headerSize + headerSize = ptr := BitVec.sub_add_cancel ptr headerSize
      refine ⟨s.mem, bs, ready_halfway rfl ⟨?_, trivial, trivial⟩⟩
      simp only [hidden, same]
      exact held
  | free h here => exact free_halfway h here half ran
  | freed =>
      cases ran
      exact ⟨m, bs, half⟩

end Statement

end Deimos.Kalloc
