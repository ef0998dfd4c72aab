import Deimos.Error
import Deimos.Lib.Bitmap
import Deimos.Lib.Comp

set_option autoImplicit false

namespace Deimos.Frame

open Comp

def FRAME_SIZE : Nat := 4096

-- The length of frame_bitmap: MAX_FRAMES/sizeof(uint32_t) is 1024*1024/4, so
-- the array has room for eight times as many bits as there are frames.
def BITMAP_WORDS : Nat := 1024 * 1024 / 4

def KERNEL_PMA : Word := 0x00100000

def KERNEL_SIZE : Word := 0x00300000

def MULTIBOOT_MEMORY_AVAILABLE : Word := 1

structure Frames where
  bitmap : Nat → Word
  numTotal : Word
  numFree : Word
  numUsed : Word

def setBit (b : Nat) (s : Frames) : Frames :=
  { s with bitmap := Bitmap.update s.bitmap (b / 32) (s.bitmap (b / 32) ||| Bitmap.mask 32 b) }

def clrBit (b : Nat) (s : Frames) : Frames :=
  { s with bitmap := Bitmap.update s.bitmap (b / 32) (s.bitmap (b / 32) &&& ~~~ Bitmap.mask 32 b) }

def getBit (b : Nat) (s : Frames) : Bool := s.bitmap (b / 32) &&& Bitmap.mask 32 b ≠ 0

-- for(i=addr/FRAME_SIZE; i<=(addr+size-1)/FRAME_SIZE; i++), with addr and size 32 bits wide
def regionFrames (addr size : Word) : List Nat :=
  let first := addr.toNat / FRAME_SIZE
  let last := (addr + size - 1).toNat / FRAME_SIZE
  List.range' first (last + 1 - first)

def freeOne (s : Frames) (i : Nat) : Frames :=
  if i ≠ 0 ∧ getBit i s then
    let s := clrBit i s
    { s with numFree := s.numFree + 1, numTotal := s.numTotal + 1 }
  else s

def freeRegion (addr size : Word) (s : Frames) : Frames := (regionFrames addr size).foldl freeOne s

def reserveOne (s : Frames) (i : Nat) : Frames :=
  if getBit i s then
    let s := setBit i s
    { s with numFree := s.numFree - 1, numTotal := s.numTotal - 1 }
  else s

def reserveRegion (addr size : Word) (s : Frames) : Frames := (regionFrames addr size).foldl reserveOne s

-- multiboot_info_t and multiboot_memory_map_t, as far as frame_init reads
-- them. addr and len are 64 bits wide, low word first.
def mmapLength (m : Mem) (mbt : Word) : Word := m.read (mbt + 44)

def mmapAddr (m : Mem) (mbt : Word) : Word := m.read (mbt + 48)

def mmapStop (m : Mem) (mbt : Word) : Word := mmapAddr m mbt + mmapLength m mbt

def entrySize (m : Mem) (mmap : Word) : Word := m.read mmap

def entryAddr (m : Mem) (mmap : Word) : BitVec 64 := m.read (mmap + 8) ++ m.read (mmap + 4)

def entryLen (m : Mem) (mmap : Word) : BitVec 64 := m.read (mmap + 16) ++ m.read (mmap + 12)

def entryType (m : Mem) (mmap : Word) : Word := m.read (mmap + 20)

def nextEntry (m : Mem) (mmap : Word) : Word := mmap + entrySize m mmap + 4

-- free_region(mmap->addr, mmap->addr+mmap->len-1): both arguments lose their high words.
def freeEntry (m : Mem) (mmap : Word) (s : Frames) : Frames :=
  freeRegion ((entryAddr m mmap).setWidth 32) ((entryAddr m mmap + entryLen m mmap - 1).setWidth 32) s

def mapBody (m : Mem) (stop : Word) (state : Word × Frames) : Except Stop (Iter (Word × Frames) Frames) :=
  let (mmap, s) := state
  if mmap < stop then
    let s := if entryType m mmap = MULTIBOOT_MEMORY_AVAILABLE then freeEntry m mmap s else s
    .ok (.next (nextEntry m mmap, s))
  else .ok (.done s)

def markAllUsed (s : Frames) : Frames :=
  { s with bitmap := fun i => if i < BITMAP_WORDS then 0xFFFFFFFF else s.bitmap i }

def frameInit (m : Mem) (mbt : Word) (s : Frames) : Comp Stop Frames := do
  let s ← loop (mapBody m (mmapStop m mbt)) (mmapAddr m mbt, markAllUsed s)
  pure (reserveRegion KERNEL_PMA KERNEL_SIZE s)

-- The two nested loops of alloc_frame: the first clear bit of the first word that is not full.
def searchFree (s : Frames) : Option Nat :=
  (List.range BITMAP_WORDS).findSome? fun i =>
    if s.bitmap i ≠ 0xFFFFFFFF then ((List.range 32).find? fun j => !getBit (i * 32 + j) s).map (i * 32 + ·)
    else none

def takeFrame (s : Frames) : Option Nat → Word × Frames
  | some b =>
      let s := setBit b s
      (BitVec.ofNat 32 (b * FRAME_SIZE), { s with numUsed := s.numUsed + 1, numFree := s.numFree - 1 })
  | none => (0, s)

def allocFrame (s : Frames) : Word × Frames := takeFrame s (searchFree s)

def freeFrame (addr : Word) (s : Frames) : Frames :=
  let b := addr.toNat / FRAME_SIZE
  if b ≠ 0 ∧ getBit b s then
    let s := clrBit b s
    { s with numUsed := s.numUsed - 1, numFree := s.numFree + 1 }
  else s

end Deimos.Frame
