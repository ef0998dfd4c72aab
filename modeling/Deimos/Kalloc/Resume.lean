import Deimos.Kalloc.Held
import Deimos.Kalloc.Statements

set_option autoImplicit false

namespace Deimos.Kalloc

open Mem Tiling Run

def OnList (s : Heap) (h : Word) : Prop :=
  h ≠ 0 ∧ Relation.ReflTransGen (fun a b => a ≠ 0 ∧ b = load s.mem a .next) s.kheap h

def NextFree (m : Mem) (h : Word) : Prop := load m h .next ≠ 0 ∧ load m (load m h .next) .allocated = 0

def PrevFree (m : Mem) (h : Word) : Prop := load m h .prev ≠ 0 ∧ load m (load m h .prev) .allocated = 0

def RoomAt (m : Mem) (q : Request) (h : Word) : Prop :=
  q.size.toNat + 23 < 2 ^ 32 → q.size.toNat + 20 ≤ (load m h .size).toNat

def Splittable (m : Mem) (h dist : Word) : Prop := ¬(dist > load m h .size - headerSize ∨ dist < headerSize)

def Building (m : Mem) (h dist : Word) : SplitAt → Prop
  | .addr | .size => Splittable m h dist
  | .allocated => Splittable m h dist ∧ load m (h + dist) .size = load m h .size - dist
  | .magic => Splittable m h dist ∧ load m (h + dist) .size = load m h .size - dist ∧
      load m (h + dist) .allocated = load m h .allocated
  | .cut => Splittable m h dist ∧ load m (h + dist) .size = load m h .size - dist ∧
      load m (h + dist) .allocated = load m h .allocated ∧ load m (h + dist) .magic = HEAP_MAGIC
  | _ => True

-- What a call relies on when it runs its next statement, for a block that
-- other calls may see: it is on the list, and what was found there still holds.
def Found (s : Heap) : Point → Prop
  | .search q h here =>
      match here with
      | .whileTest => h = 0 ∨ OnList s h
      | .magicTest | .fitTest | .advance => OnList s h
      | _ => OnList s h ∧ Fits s.mem q.rounded h
  | .split (.front q) h dist here =>
      match here with
      | .leave => OnList s (h + dist) ∧ load s.mem (h + dist) .allocated = 0 ∧ RoomAt s.mem q (h + dist)
      | _ => OnList s h ∧ Fits s.mem q.rounded h ∧ ¬(alignedAddr h + q.rounded > h + load s.mem h .size) ∧
          Building s.mem h dist here
  | .split (.rest q) h dist here =>
      match here with
      | .leave => OnList s h ∧ Fits s.mem q.rounded h
      | _ => OnList s h ∧ Fits s.mem q.rounded h ∧ Building s.mem h dist here
  | .take q newH => newH = 0 ∨ OnList s newH ∧ load s.mem newH .allocated = 0 ∧ RoomAt s.mem q newH
  | .free h here =>
      match here with
      | .magicTest | .clear => True
      | .nextSize => OnList s h ∧ (load s.mem h .allocated = 0 ∨ ¬PrevFree s.mem h) ∧ NextFree s.mem h
      | .prevSize => OnList s h ∧ load s.mem h .allocated = 0 ∧ load s.mem h .prev ≠ 0
      | _ => OnList s h ∧ (load s.mem h .allocated = 0 ∨ ¬PrevFree s.mem h)
  | _ => True

-- What it holds itself while the call is under way.
def hidden : Point → List Live
  | .excessTest q newH => [⟨newH + headerSize, q.size, q.align⟩]
  | .split (.back q) h dist here =>
      match here with
      | .leave => [⟨h + dist + headerSize, 0, false⟩, ⟨h + headerSize, q.size, q.align⟩]
      | _ => [⟨h + headerSize, q.size, q.align⟩]
  | .release q newH backH =>
      if backH = 0 then [⟨newH + headerSize, q.size, q.align⟩]
      else [⟨backH + headerSize, 0, false⟩, ⟨newH + headerSize, q.size, q.align⟩]
  | .allocated q ptr => if ptr = 0 then [] else [⟨ptr, q.size, q.align⟩]
  | .freeEnter ptr => if ptr = 0 then [] else [⟨ptr, 0, false⟩]
  | .freeHeader ptr => [⟨ptr, 0, false⟩]
  | .free h .magicTest => [⟨h + headerSize, 0, false⟩]
  | .free h .clear => [⟨h + headerSize, 0, false⟩]
  | _ => []

-- What nobody else can change: local variables, and a header that is built in a block the call holds.
def Own (m : Mem) : Point → Prop
  | .split (.front _) h dist _ => dist = alignedAddr h - h - headerSize
  | .split (.rest q) _ dist _ => dist = headerSize + q.rounded
  | .split (.back q) h dist here => dist = headerSize + q.rounded ∧ Building m h dist here
  | _ => True

-- Between these statements the list is not in order. The statement that began the update:
def Point.began : Point → Point
  | .split p h dist here =>
      match here with
      | .nextTest | .nextPrev | .newNext | .link | .newPrev => .split p h dist .cut
      | _ => .split p h dist here
  | .free h here =>
      match here with
      | .nextNextTest | .nextNextPrev | .nextLink => .free h .nextSize
      | .prevNextTest | .prevNextPrev | .prevLink => .free h .prevSize
      | _ => .free h here
  | p => p

def Point.updating (p : Point) : Prop := p.began ≠ p

def cutMem (m : Mem) (h dist : Word) : SplitAt → Mem
  | .nextTest | .nextPrev => store m h .size dist
  | .newNext =>
      let m := store m h .size dist
      if load m h .next ≠ 0 then store m (load m h .next) .prev (h + dist) else m
  | .link =>
      let m := store m h .size dist
      let m := if load m h .next ≠ 0 then store m (load m h .next) .prev (h + dist) else m
      store m (h + dist) .next (load m h .next)
  | .newPrev =>
      let m := store m h .size dist
      let m := if load m h .next ≠ 0 then store m (load m h .next) .prev (h + dist) else m
      let m := store m (h + dist) .next (load m h .next)
      store m h .next (h + dist)
  | _ => m

def mergeMem (m : Mem) (h : Word) : FreeAt → Mem
  | .nextNextTest | .nextNextPrev => store m h .size (load m h .size + load m (load m h .next) .size)
  | .nextLink =>
      let m := store m h .size (load m h .size + load m (load m h .next) .size)
      if load m (load m h .next) .next ≠ 0 then store m (load m (load m h .next) .next) .prev h else m
  | .prevNextTest | .prevNextPrev => store m (load m h .prev) .size (load m (load m h .prev) .size + load m h .size)
  | .prevLink =>
      let m := store m (load m h .prev) .size (load m (load m h .prev) .size + load m h .size)
      if load m h .next ≠ 0 then store m (load m h .next) .prev (load m h .prev) else m
  | _ => m

def soFar (m : Mem) : Point → Mem
  | .split _ h dist here => cutMem m h dist here
  | .free h here => mergeMem m h here
  | _ => m

def Passed (m : Mem) : Point → Prop
  | .split _ h _ .nextPrev => load m h .next ≠ 0
  | .free h .nextNextPrev => load m (load m h .next) .next ≠ 0
  | .free h .prevNextPrev => load m h .next ≠ 0
  | _ => True

structure Ready (base stop : Nat) (s : Heap) (bs : List Block) (live : List Live) (p : Point) : Prop where
  held : Held base stop s bs (hidden p ++ live)
  found : Found s p
  own : Own s.mem p

-- The heap is in order, or an update that began when it was has got so far.
structure Halfway (base stop : Nat) (s : Heap) (live : List Live) (p : Point) (m : Mem) (bs : List Block) : Prop where
  ready : Ready base stop { s with mem := m } bs live p.began
  mem : s.mem = soFar m p
  passed : Passed s.mem p

end Deimos.Kalloc
