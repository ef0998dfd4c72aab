import Deimos.Lib.Memory
import Deimos.Kalloc.Defrag

set_option autoImplicit false

namespace Deimos.Kalloc

open Mem Tiling

-- The words that are written when p takes over c, behind which come the
-- blocks of post, and all that kfree of b writes. It reads the headers of b
-- and of its two neighbours only.
def absorbWrites (p c : Block) (post : List Block) : List (Word × Word) :=
  (p.addr + Field.size.offset, p.size + c.size) ::
    ((post.head?.map (fun d => (d.addr + Field.prev.offset, p.addr))).toList ++ [(p.addr + Field.next.offset, headOr 0 post)])

def nextWrites (b : Block) : List Block → List (Word × Word)
  | [] => []
  | c :: post => if c.allocated then [] else absorbWrites b c post

def prevWrites (pre : List Block) (b : Block) (post : List Block) : List (Word × Word) :=
  match pre.getLast? with
  | none => []
  | some p => if p.allocated then [] else absorbWrites p b post

def freeWrites (pre : List Block) (b : Block) (post : List Block) : List (Word × Word) :=
  (b.addr + Field.allocated.offset, 0) :: (nextWrites (b.tag false) post ++
    prevWrites pre (joinNext (b.tag false) post).1 (joinNext (b.tag false) post).2)

theorem absorb_writes (m : Mem) (p c : Block) (post : List Block) (front : load m p.addr .size = p.size)
    (size : load m c.addr .size = c.size) (next : load m c.addr .next = headOr 0 post) (apart : HeaderApart p.addr c.addr)
    (behind : ∀ d ∈ post, HeaderApart c.addr d.addr) (nonnull : ∀ d ∈ post, d.addr ≠ 0) :
    absorb m p.addr c.addr = writes (absorbWrites p c post) m := by
  cases post with
  | nil =>
      simp only [absorb, load_store_apart, apart, front, size, next, headOr, ne_eq, not_true, if_false]
      rfl
  | cons d post =>
      have dc := (behind d List.mem_cons_self).symm
      simp only [absorb, load_store_apart, apart, dc, front, size, next, headOr, ne_eq, nonnull d List.mem_cons_self, not_false_eq_true,
        if_true]
      rfl

structure NearHeaders (m : Mem) (pre : List Block) (b : Block) (post : List Block) : Prop where
  own : HeaderIs m b (lastOr 0 pre) (headOr 0 post)
  next : ∀ c rest, post = c :: rest → HeaderIs m c b.addr (headOr 0 rest)
  prev : ∀ front p, pre = front ++ [p] → HeaderIs m p (lastOr 0 front) b.addr

section Freeing

variable {base stop : Nat} {pre post : List Block} {b : Block} (layout : Layout base stop (pre ++ b :: post))

include layout

theorem merge_next_writes (m : Mem) (own : HeaderIs m b (lastOr 0 pre) (headOr 0 post))
    (next : ∀ c rest, post = c :: rest → HeaderIs m c b.addr (headOr 0 rest)) : mergeNext m b.addr = writes (nextWrites b post) m := by
  cases post with
  | nil => exact if_neg (fun guard => guard.1 own.next)
  | cons c rest =>
      have nextHeader := next c rest rfl
      cases taken : c.allocated with
      | true =>
          rw [nextWrites, taken, if_pos rfl]
          exact merge_next_idle m b c _ _ own.next nextHeader taken
      | false =>
          have apart := layout.pairwise
          simp only [List.pairwise_append, List.pairwise_cons, List.mem_cons, forall_eq_or_imp] at apart
          obtain ⟨-, ⟨⟨between, -⟩, nextPost, -⟩, -⟩ := apart
          rw [merge_next_free m base stop pre rest b c layout own.next nextHeader taken, nextWrites, taken, absorb_writes m b c rest own.size nextHeader.size nextHeader.next between nextPost
            (fun d member => layout.addr_ne (by simp [member]))]
          rfl

theorem merge_prev_writes (m : Mem) (own : HeaderIs m b (lastOr 0 pre) (headOr 0 post))
    (prev : ∀ front p, pre = front ++ [p] → HeaderIs m p (lastOr 0 front) b.addr) :
    mergePrev m b.addr = writes (prevWrites pre b post) m := by
  rcases List.eq_nil_or_concat pre with rfl | ⟨front, p, rfl⟩
  · exact if_neg (fun guard => guard.1 own.prev)
  · rw [List.concat_eq_append] at layout own prev ⊢
    have prevHeader := prev front p rfl
    rw [last_or_concat] at own
    have last : (front ++ [p]).getLast? = some p := List.getLast?_concat
    cases taken : p.allocated with
    | true =>
        rw [prevWrites, last]
        dsimp only
        rw [taken, if_pos rfl]
        exact merge_prev_idle m p b _ _ own.prev prevHeader taken
    | false =>
        rw [List.append_assoc, List.singleton_append] at layout
        have apart := layout.pairwise
        simp only [List.pairwise_append, List.pairwise_cons, List.mem_cons, forall_eq_or_imp] at apart
        obtain ⟨-, ⟨⟨between, -⟩, behind, -⟩, -⟩ := apart
        rw [merge_prev_free m base stop front post p b _ layout own prevHeader taken, prevWrites, last]
        dsimp only
        rw [taken, absorb_writes m p b post prevHeader.size own.size own.next between behind
          (fun d member => layout.addr_ne (by simp [member]))]
        rfl

theorem merge_next_headers (m : Mem) (near : NearHeaders m pre b post) :
    Layout base stop (pre ++ (joinNext b post).1 :: (joinNext b post).2) ∧
      HeaderIs (mergeNext m b.addr) (joinNext b post).1 (lastOr 0 pre) (headOr 0 (joinNext b post).2) ∧
      ∀ front p, pre = front ++ [p] → HeaderIs (mergeNext m b.addr) p (lastOr 0 front) b.addr := by
  cases post with
  | nil =>
      have idle : mergeNext m b.addr = m := if_neg (fun guard => guard.1 near.own.next)
      rw [idle]
      exact ⟨layout, near.own, near.prev⟩
  | cons c rest =>
      have nextHeader := near.next c rest rfl
      cases taken : c.allocated with
      | true =>
          have idle : mergeNext m b.addr = m := merge_next_idle m b c _ _ near.own.next nextHeader taken
          rw [idle, joinNext, taken, if_pos rfl]
          exact ⟨layout, near.own, near.prev⟩
      | false =>
          have apart := layout.pairwise
          simp only [List.pairwise_append, List.pairwise_cons, List.mem_cons, forall_eq_or_imp] at apart
          obtain ⟨-, ⟨⟨between, herePost⟩, nextPost, -⟩, before⟩ := apart
          have links : load m c.addr .next ≠ 0 → HeaderApart b.addr (load m c.addr .next) ∧ HeaderApart c.addr (load m c.addr .next) := by
            rw [nextHeader.next]
            exact fun nonnull => ⟨head_or_of_all rest _ herePost nonnull, head_or_of_all rest _ nextPost nonnull⟩
          have loads := absorb_loads m b.addr c.addr between links
          rw [joinNext, taken, merge_next_free m base stop pre rest b c layout near.own.next nextHeader taken]
          refine ⟨join_layout base stop pre rest b c layout, ⟨?_, ?_, ?_, ?_, ?_⟩, fun front p shape => ?_⟩
          · exact (loads.front .magic).trans near.own.magic
          · exact (loads.front .size).trans (by rw [if_pos rfl, near.own.size, nextHeader.size]; rfl)
          · exact (loads.front .allocated).trans near.own.allocated
          · exact (loads.front .prev).trans near.own.prev
          · exact (loads.front .next).trans nextHeader.next
          · obtain ⟨bp, -, postP⟩ := before p (by simp [shape])
            refine (near.prev front p shape).congr m _ p _ _ (loads.other p.addr bp.symm ?_)
            rw [nextHeader.next]
            exact fun nonnull => (head_or_of_all rest _ postP nonnull).symm

theorem free_tag_headers (m : Mem) (near : NearHeaders m pre b post) :
    Layout base stop (pre ++ b.tag false :: post) ∧ NearHeaders (store m b.addr .allocated 0) pre (b.tag false) post := by
  have apart := layout.pairwise
  simp only [List.pairwise_append, List.pairwise_cons, List.mem_cons] at apart
  obtain ⟨-, ⟨behind, -⟩, before⟩ := apart
  refine ⟨layout.retag pre post b (b.tag false) rfl rfl rfl, ⟨?_, ?_, ?_, ?_, ?_⟩, fun c rest shape => ?_, fun front p shape => ?_⟩
  · exact (load_store_same m b.addr 0 .allocated .magic).trans near.own.magic
  · exact (load_store_same m b.addr 0 .allocated .size).trans near.own.size
  · exact load_store_same m b.addr 0 .allocated .allocated
  · exact (load_store_same m b.addr 0 .allocated .prev).trans near.own.prev
  · exact (load_store_same m b.addr 0 .allocated .next).trans near.own.next
  · have member : c ∈ post := by simp [shape]
    exact (near.next c rest shape).congr m _ c _ _ (fun f => load_store_apart m b.addr c.addr 0 .allocated f (behind c member))
  · have member : p ∈ pre := by simp [shape]
    exact (near.prev front p shape).congr m _ p _ _
      (fun f => load_store_apart m b.addr p.addr 0 .allocated f (before p member b (.inl rfl)).symm)

theorem kfree_writes (s : Heap) (near : NearHeaders s.mem pre b post) (nonnull : b.payload ≠ 0) :
    kfree b.payload s = .ok { s with mem := writes (freeWrites pre b post) s.mem } := by
  have back : b.payload - headerSize = b.addr := BitVec.add_sub_cancel b.addr headerSize
  have start : b.addr ≠ 0 := layout.addr_ne (by simp)
  obtain ⟨tagged, nearTag⟩ := free_tag_headers layout s.mem near
  obtain ⟨joined, own, prev⟩ := merge_next_headers tagged _ nearTag
  have ahead := merge_next_writes tagged _ nearTag.own nearTag.next
  have same : (joinNext (b.tag false) post).1.addr = b.addr := join_next_addr (b.tag false) post
  have behind := merge_prev_writes joined _ own (fun front p shape => by
    rw [same]
    exact prev front p shape)
  rw [same] at behind
  have whole : writes (freeWrites pre b post) s.mem = mergePrev (mergeNext (store s.mem b.addr .allocated 0) b.addr) b.addr :=
    ((writes_append _ _ (store s.mem b.addr .allocated 0)).trans (congrArg _ ahead.symm)).trans behind.symm
  rw [kfree, if_neg nonnull, back, deref_ne _ _ start, if_neg (not_not.mpr near.own.magic), whole]

end Freeing

theorem near_headers (m : Mem) (base stop : Nat) (pre post : List Block) (b : Block) (list : HeapList m base stop (pre ++ b :: post)) :
    NearHeaders m pre b post := by
  refine ⟨list.header, fun c rest shape => ?_, fun front p shape => ?_⟩
  · rw [shape] at list
    exact ((linked_at m pre (c :: rest) b 0 0).mp list.linked).2.2.1
  · rw [shape, List.append_assoc, List.singleton_append] at list
    exact list.header

def NearBlock (pre : List Block) (b : Block) (post : List Block) (c : Block) : Prop := c = b ∨ c ∈ post.head? ∨ c ∈ pre.getLast?

def PrevLink (d : Block) (x : Word) : Prop := (x - (d.addr + Field.prev.offset)).toNat < 4

theorem NearHeaders.congr (m m' : Mem) (pre post : List Block) (b : Block) (near : NearHeaders m pre b post)
    (same : ∀ c, NearBlock pre b post c → ∀ x : Word, (x - c.addr).toNat < 20 → m' x = m x) : NearHeaders m' pre b post := by
  have loads : ∀ c, NearBlock pre b post c → ∀ f, load m' c.addr f = load m c.addr f := by
    intro c here f
    refine read_congr m m' _ (fun x near => same c here x ?_)
    have inside := field_inside f
    bv_omega
  refine ⟨near.own.congr m m' b _ _ (loads b (.inl rfl)), fun c rest shape => ?_, fun front p shape => ?_⟩
  · exact (near.next c rest shape).congr m m' c _ _ (loads c (.inr (.inl (by rw [shape]; rfl))))
  · exact (near.prev front p shape).congr m m' p _ _ (loads p (.inr (.inr (by rw [shape]; exact List.getLast?_concat))))

theorem kfree_alike (base stop : Nat) (s : Heap) (pre post : List Block) (b : Block) (wf : WellFormed base stop s (pre ++ b :: post))
    (nonnull : b.payload ≠ 0) (m : Mem) (same : ∀ c, NearBlock pre b post c → ∀ x : Word, (x - c.addr).toNat < 20 → m x = s.mem x) :
    kfree b.payload s = .ok { s with mem := writes (freeWrites pre b post) s.mem } ∧
      kfree b.payload { s with mem := m } = .ok { s with mem := writes (freeWrites pre b post) m } := by
  have near := near_headers s.mem base stop pre post b wf.toHeapList
  exact ⟨kfree_writes wf.toLayout s near nonnull, kfree_writes wf.toLayout { s with mem := m } (near.congr s.mem m pre post b same) nonnull⟩

theorem absorb_hit (p c : Block) (post : List Block) (x : Word) (hit : Hit (absorbWrites p c post) x) :
    ¬ OffHeader p.addr x ∨ ∃ d ∈ post.head?, PrevLink d x := by
  obtain ⟨w, member, near⟩ := hit
  simp only [absorbWrites, List.mem_cons, List.mem_append, List.not_mem_nil, or_false, Option.mem_toList, Option.map_eq_some_iff] at member
  have header : headerSize.toNat = 20 := rfl
  rcases member with rfl | ⟨d, first, rfl⟩ | rfl
  · refine .inl (Nat.not_le_of_lt ?_)
    simp only [Field.offset] at near
    bv_omega
  · exact .inr ⟨d, first, near⟩
  · refine .inl (Nat.not_le_of_lt ?_)
    simp only [Field.offset] at near
    bv_omega

theorem absorb_links (p c d : Block) (post : List Block) (x : Word) (first : d ∈ post.head?) (link : PrevLink d x) :
    Hit (absorbWrites p c post) x := by
  refine ⟨(d.addr + Field.prev.offset, p.addr), ?_, link⟩
  simp only [absorbWrites, List.mem_cons, List.mem_append, Option.mem_toList, Option.map_eq_some_iff]
  exact .inr (.inl ⟨d, first, rfl⟩)

theorem unless_hit (p c : Block) (post : List Block) (used : Bool) (x : Word) (hit : Hit (if used then [] else absorbWrites p c post) x) :
    used = false ∧ (¬ OffHeader p.addr x ∨ ∃ d ∈ post.head?, PrevLink d x) := by
  cases used with
  | true => exact absurd hit (not_hit_nil x)
  | false => exact ⟨rfl, absorb_hit p c post x hit⟩

-- What kfree of b writes: headers of b and of the block before it, and the
-- prev link of the block behind what b becomes.
theorem free_hit (pre post : List Block) (b : Block) (x : Word) (hit : Hit (freeWrites pre b post) x) :
    ¬ OffHeader b.addr x ∨ (∃ p ∈ pre.getLast?, ¬ OffHeader p.addr x) ∨ ∃ d ∈ (joinNext (b.tag false) post).2.head?, PrevLink d x := by
  rw [freeWrites, hit_cons, hit_append] at hit
  rcases hit with tag | ahead | behind
  · refine .inl (Nat.not_le_of_lt ?_)
    have header : headerSize.toNat = 20 := rfl
    simp only [Field.offset] at tag
    bv_omega
  · cases post with
    | nil => exact absurd ahead (not_hit_nil x)
    | cons c rest =>
        obtain ⟨taken, front | link⟩ := unless_hit _ _ _ _ x ahead
        · exact .inl front
        · rw [joinNext, taken]
          exact .inr (.inr link)
  · rw [prevWrites] at behind
    split at behind
    · exact absurd behind (not_hit_nil x)
    · rename_i p last
      obtain ⟨-, front | link⟩ := unless_hit _ _ _ _ x behind
      · exact .inr (.inl ⟨p, last, front⟩)
      · exact .inr (.inr link)

theorem free_links (pre post : List Block) (b p d : Block) (x : Word) (last : p ∈ pre.getLast?) (free : p.allocated = false)
    (first : d ∈ (joinNext (b.tag false) post).2.head?) (link : PrevLink d x) : Hit (freeWrites pre b post) x := by
  have taken : Hit (prevWrites pre (joinNext (b.tag false) post).1 (joinNext (b.tag false) post).2) x := by
    rw [prevWrites, show pre.getLast? = some p from last]
    dsimp only
    rw [free]
    exact absorb_links p _ d _ x first link
  obtain ⟨w, member, near⟩ := taken
  exact ⟨w, List.mem_cons_of_mem _ (List.mem_append_right _ member), near⟩

theorem header_bytes (base stop : Nat) (s s' : Heap) (bs : List Block) (wf : WellFormed base stop s bs) (wf' : WellFormed base stop s' bs)
    (c : Block) (member : c ∈ bs) (x : Word) (near : ¬ OffHeader c.addr x) : s.mem x = s'.mem x := by
  obtain ⟨pre, post, rfl⟩ := List.append_of_mem member
  have header := wf.header
  have header' := wf'.header
  have fields : ∀ f, load s.mem c.addr f = load s'.mem c.addr f := by
    intro f
    cases f with
    | magic => exact header.magic.trans header'.magic.symm
    | size => exact header.size.trans header'.size.symm
    | allocated => exact header.allocated.trans header'.allocated.symm
    | prev => exact header.prev.trans header'.prev.symm
    | next => exact header.next.trans header'.next.symm
  have inside : (x - c.addr).toNat < 20 := Nat.lt_of_not_le near
  have field : ∃ f : Field, (x - (c.addr + f.offset)).toNat < 4 := by
    by_cases magic : (x - c.addr).toNat < 4
    · exact ⟨.magic, by simpa [Field.offset] using magic⟩
    · by_cases size : (x - c.addr).toNat < 8
      · exact ⟨.size, by simp only [Field.offset]; bv_omega⟩
      · by_cases allocated : (x - c.addr).toNat < 12
        · exact ⟨.allocated, by simp only [Field.offset]; bv_omega⟩
        · by_cases prev : (x - c.addr).toNat < 16
          · exact ⟨.prev, by simp only [Field.offset]; bv_omega⟩
          · exact ⟨.next, by simp only [Field.offset]; bv_omega⟩
  obtain ⟨f, four⟩ := field
  exact bytes_of_read s.mem s'.mem _ x (fields f) four

section Allocating

variable {base stop : Nat} {h : Heap} {live : List Live} {bs : List Block}

theorem Safe.rewrite (safe : Safe base stop ⟨h, live⟩ bs) (m : Mem) (same : ∀ b ∈ bs, ∀ x : Word, (x - b.addr).toNat < 20 → m x = h.mem x) :
    Safe base stop ⟨{ h with mem := m }, live⟩ bs := ⟨safe.wf.rewrite m same, safe.settled, safe.pointers, safe.distinct⟩

structure Granted (base stop : Nat) (h : Heap) (live : List Live) (bs : List Block) (size : Word) (align : Bool) (ptr : Word) (h' : Heap)
    (pre post : List Block) (b : Block) : Prop extends Allocates base stop h bs size align ptr h' pre post b where
  safe : Safe base stop ⟨h', keep align size ptr live⟩ (pre ++ (b.place align (roundSize size) ++ post))
  known : ptr ∈ (keep align size ptr live).map Live.ptr
  others : ∀ z : Block, z.used → (z ∈ bs ↔ z ∈ pre ++ (b.place align (roundSize size) ++ post) ∧ z.payload ≠ ptr)

theorem Safe.allocates (safe : Safe base stop ⟨h, live⟩ bs) (top : stop < 2 ^ 32) (size ptr : Word) (align : Bool) (h' : Heap)
    (nonzero : size ≠ 0) (nonnull : ptr ≠ 0) (returned : (kmallocInt size align h).Returns (ptr, h')) :
    ∃ pre post b, Granted base stop h live bs size align ptr h' pre post b := by
  rcases kmalloc_int_returns base stop h bs size align ptr h' safe.wf nonzero returned with ⟨null, -⟩ | ⟨pre, post, b, allocates⟩
  · exact absurd null nonnull
  · rcases safe.kmalloc top size ptr align h' returned with ⟨null, -⟩ | ⟨cs, next, known, others⟩
    · exact absurd null nonnull
    · have same := well_formed_unique base stop h' cs _ next.wf allocates.after
      subst same
      exact ⟨pre, post, b, allocates, next, known, others⟩

theorem Safe.failed (safe : Safe base stop ⟨h, live⟩ bs) (top : stop < 2 ^ 32) (size : Word) (align : Bool) (h' : Heap)
    (returned : (kmallocInt size align h).Returns (0, h')) : h' = h := by
  rcases safe.kmalloc top size 0 align h' returned with ⟨-, same⟩ | ⟨cs, next, known, -⟩
  · exact same
  · exact absurd known (next.null_not_live top)

theorem Safe.released {cs : List Block} (safe : Safe base stop ⟨h, live⟩ bs) {h' : Heap} {live' : List Live} (next : Safe base stop ⟨h', live'⟩ cs)
    (top : stop < 2 ^ 32) (ptr : Word) (known : ptr ∈ live'.map Live.ptr)
    (others : ∀ z : Block, z.used → (z ∈ bs ↔ z ∈ cs ∧ z.payload ≠ ptr)) :
    ∃ h'', Kalloc.kfree ptr h' = .ok h'' ∧ Safe base stop ⟨h'', drop ptr live'⟩ bs := by
  obtain ⟨h'', ds, freed, back, shrunk⟩ := next.kfree top ptr known
  have same : ds = bs := by
    refine list_of_used base stop ds bs back.wf.toLayout safe.wf.toLayout back.settled safe.settled ?_
    intro z used
    rw [shrunk z used, others z used]
  exact ⟨h'', freed, same ▸ back⟩

end Allocating

end Deimos.Kalloc
