import Deimos.Kalloc.Model

set_option autoImplicit false

namespace Deimos.Kalloc

structure Request where
  size : Word
  align : Bool
deriving DecidableEq, Repr

def Request.rounded (q : Request) : Word := roundSize q.size

-- What kmalloc_int wants the block for that split_block returns.
inductive Purpose where
  -- new_h in the aligned branch, back_h behind it, and new_h in the other branch
  | front (q : Request)
  | back (q : Request)
  | rest (q : Request)
deriving DecidableEq, Repr

-- The statements of split_block, of the search of kmalloc_int and of kfree.
inductive SplitAt where
  | test | addr | size | allocated | magic | cut | nextTest | nextPrev | newNext | link | newPrev | leave
deriving DecidableEq, Repr

inductive SearchAt where
  | whileTest | magicTest | fitTest | alignTest | alignedAddr | gapTest | spaceTest | wholeTest | mark | advance
deriving DecidableEq, Repr

inductive FreeAt where
  | magicTest | clear | nextTest | nextSize | nextNextTest | nextNextPrev | nextLink
  | prevTest | prevSize | prevNextTest | prevNextPrev | prevLink
deriving DecidableEq, Repr

-- The statement that a call is about to run, with the local variables that
-- are still used. new_h in split_block is h + dist, aligned_addr is alignedAddr h.
inductive Point where
  | enter (q : Request)
  | heapTest (q : Request)
  | first (q : Request)
  | search (q : Request) (h : Word) (here : SearchAt)
  | split (p : Purpose) (h dist : Word) (here : SplitAt)
  | take (q : Request) (newH : Word)
  | excessTest (q : Request) (newH : Word)
  | release (q : Request) (newH backH : Word)
  | allocated (q : Request) (ptr : Word)
  | freeEnter (ptr : Word)
  | freeHeader (ptr : Word)
  | free (h : Word) (here : FreeAt)
  | freed
deriving DecidableEq, Repr

-- Behind split_block: h is its block, new what it returns.
def Purpose.next (h new : Word) : Purpose → Point
  | .front q => .take q new
  | .back q => .release q h new
  | .rest q => .search q h .mark

def splitStatement (m : Mem) (p : Purpose) (h dist : Word) : SplitAt → Mem × Point
  | .test =>
      if dist > load m h .size - headerSize ∨ dist < headerSize then (m, p.next h 0) else (m, .split p h dist .addr)
  | .addr => (m, .split p h dist .size)
  | .size => (store m (h + dist) .size (load m h .size - dist), .split p h dist .allocated)
  | .allocated => (store m (h + dist) .allocated (load m h .allocated), .split p h dist .magic)
  | .magic => (store m (h + dist) .magic HEAP_MAGIC, .split p h dist .cut)
  | .cut => (store m h .size dist, .split p h dist .nextTest)
  | .nextTest => (m, .split p h dist (if load m h .next ≠ 0 then .nextPrev else .newNext))
  | .nextPrev => (store m (load m h .next) .prev (h + dist), .split p h dist .newNext)
  | .newNext => (store m (h + dist) .next (load m h .next), .split p h dist .link)
  | .link => (store m h .next (h + dist), .split p h dist .newPrev)
  | .newPrev => (store m (h + dist) .prev h, .split p h dist .leave)
  | .leave => (m, p.next h (h + dist))

def searchStatement (m : Mem) (q : Request) (h : Word) : SearchAt → Except Stop (Mem × Point)
  | .whileTest => .ok (m, if h ≠ 0 then .search q h .magicTest else .allocated q 0)
  | .magicTest =>
      if load m h .magic ≠ HEAP_MAGIC then kpanic "kmalloc: heap magic violated" else .ok (m, .search q h .fitTest)
  | .fitTest => .ok (m, .search q h (if Fits m q.rounded h then .alignTest else .advance))
  | .alignTest => .ok (m, .search q h (if q.align then .alignedAddr else .wholeTest))
  | .alignedAddr => .ok (m, .search q h .gapTest)
  | .gapTest => .ok (m, .search q h (if alignedAddr h - h < headerSize then .whileTest else .spaceTest))
  | .spaceTest =>
      .ok (m, if alignedAddr h + q.rounded > h + load m h .size then .search q h .whileTest
        else .split (.front q) h (alignedAddr h - h - headerSize) .test)
  | .wholeTest =>
      .ok (m, if load m h .size < q.rounded + 2 * headerSize then .search q h .mark
        else .split (.rest q) h (headerSize + q.rounded) .test)
  | .mark => .ok (store m h .allocated 1, .allocated q (h + headerSize))
  | .advance => .ok (m, .search q (load m h .next) .whileTest)

def freeStatement (m : Mem) (h : Word) : FreeAt → Except Stop (Mem × Point)
  | .magicTest =>
      deref h <| if load m h .magic ≠ HEAP_MAGIC then kpanic "kfree: heap magic violated" else .ok (m, .free h .clear)
  | .clear => .ok (store m h .allocated 0, .free h .nextTest)
  | .nextTest =>
      .ok (m, .free h (if load m h .next ≠ 0 ∧ load m (load m h .next) .allocated = 0 then .nextSize else .prevTest))
  | .nextSize => .ok (store m h .size (load m h .size + load m (load m h .next) .size), .free h .nextNextTest)
  | .nextNextTest => .ok (m, .free h (if load m (load m h .next) .next ≠ 0 then .nextNextPrev else .nextLink))
  | .nextNextPrev => .ok (store m (load m (load m h .next) .next) .prev h, .free h .nextLink)
  | .nextLink => .ok (store m h .next (load m (load m h .next) .next), .free h .prevTest)
  | .prevTest =>
      .ok (m, if load m h .prev ≠ 0 ∧ load m (load m h .prev) .allocated = 0 then .free h .prevSize else .freed)
  | .prevSize =>
      .ok (store m (load m h .prev) .size (load m (load m h .prev) .size + load m h .size), .free h .prevNextTest)
  | .prevNextTest => .ok (m, .free h (if load m h .next ≠ 0 then .prevNextPrev else .prevLink))
  | .prevNextPrev => .ok (store m (load m h .next) .prev (load m h .prev), .free h .prevLink)
  | .prevLink => .ok (store m (load m h .prev) .next (load m h .next), .freed)

-- One statement of kmalloc_int, split_block or kfree. A finished call has none.
def statement (s : Heap) : Point → Except Stop (Mem × Point)
  | .enter q => .ok (s.mem, if q.size = 0 then .allocated q 0 else .heapTest q)
  | .heapTest q =>
      if s.kheap = 0 then kpanic "kmalloc: tried to allocate memory before heap initialization" else .ok (s.mem, .first q)
  | .first q => .ok (s.mem, .search q s.kheap .whileTest)
  | .search q h here => searchStatement s.mem q h here
  | .split p h dist here => .ok (splitStatement s.mem p h dist here)
  | .take q newH => deref newH <| .ok (store s.mem newH .allocated 1, .excessTest q newH)
  | .excessTest q newH =>
      .ok (s.mem, if load s.mem newH .size > q.rounded + 2 * headerSize then .split (.back q) newH (headerSize + q.rounded) .test
        else .allocated q (newH + headerSize))
  | .release q newH backH => deref backH <| .ok (store s.mem backH .allocated 0, .allocated q (newH + headerSize))
  | .freeEnter ptr => .ok (s.mem, if ptr = 0 then .freed else .freeHeader ptr)
  | .freeHeader ptr => .ok (s.mem, .free (ptr - headerSize) .magicTest)
  | .free h here => freeStatement s.mem h here
  | .allocated q ptr => .ok (s.mem, .allocated q ptr)
  | .freed => .ok (s.mem, .freed)

end Deimos.Kalloc
