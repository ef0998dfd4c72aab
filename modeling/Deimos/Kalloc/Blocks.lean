import Deimos.Kalloc.Model
import Deimos.Lib.Tiling

set_option autoImplicit false

namespace Deimos.Kalloc

open Mem Tiling

-- What the list from kheap through next spells: blocks in address order. A
-- block's size includes its header.
structure Block where
  addr : Word
  size : Word
  allocated : Bool
deriving DecidableEq, Repr

def Block.start (b : Block) : Nat := b.addr.toNat

def Block.stop (b : Block) : Nat := b.addr.toNat + b.size.toNat

def Block.used (b : Block) : Prop := b.allocated = true

def Block.payload (b : Block) : Word := b.addr + headerSize

def flag (allocated : Bool) : Word := if allocated then 1 else 0

structure HeaderIs (m : Mem) (b : Block) (prev next : Word) : Prop where
  magic : load m b.addr .magic = HEAP_MAGIC
  size : load m b.addr .size = b.size
  allocated : load m b.addr .allocated = flag b.allocated
  prev : load m b.addr .prev = prev
  next : load m b.addr .next = next

def headOr (next : Word) : List Block → Word
  | [] => next
  | b :: _ => b.addr

def lastOr (prev : Word) : List Block → Word
  | [] => prev
  | b :: rest => lastOr b.addr rest

def Linked (m : Mem) (prev : Word) : List Block → Word → Prop
  | [], _ => True
  | b :: rest, next => HeaderIs m b prev (headOr next rest) ∧ Linked m b.addr rest next

structure Layout (base stop : Nat) (bs : List Block) : Prop where
  tiles : Tiles Block.start Block.stop base bs stop
  sizes : ∀ b ∈ bs, headerSize.toNat ≤ b.size.toNat
  positive : 0 < base
  bound : stop ≤ 2 ^ 32

structure HeapList (m : Mem) (base stop : Nat) (bs : List Block) : Prop extends Layout base stop bs where
  linked : Linked m 0 bs 0

def HeaderApart (p q : Word) : Prop := Apart p 20 q 20

theorem HeaderApart.symm {p q : Word} (apart : HeaderApart p q) : HeaderApart q p := Apart.symm apart

def OffHeader (p x : Word) : Prop := headerSize.toNat ≤ (x - p).toNat

theorem load_store_same (m : Mem) (p value : Word) (f g : Field) :
    load (store m p f value) p g = if g = f then value else load m p g := by
  by_cases same : g = f
  · subst g
    rw [if_pos rfl]
    exact read_write_same m (p + f.offset) value
  · rw [if_neg same]
    apply read_write_apart
    cases f <;> cases g <;> first | exact absurd rfl same | (constructor <;> simp only [Field.offset] <;> bv_omega)

theorem field_inside (f : Field) : f.offset.toNat + 4 ≤ 20 := by cases f <;> decide

theorem load_store_apart (m : Mem) (p q value : Word) (f g : Field) (apart : HeaderApart p q) :
    load (store m p f value) q g = load m q g := by
  apply read_write_apart
  exact apart.offset f.offset g.offset 4 4 (field_inside f) (field_inside g) (by decide) (by decide)

theorem store_other (m : Mem) (p value x : Word) (f : Field) (off : OffHeader p x) : store m p f value x = m x := by
  apply write_other
  have outside : 20 ≤ (x - p).toNat := off
  cases f <;> simp only [Field.offset] <;> bv_omega

@[simp] theorem flag_eq_zero (allocated : Bool) : flag allocated = 0 ↔ allocated = false := by
  cases allocated <;> decide

theorem HeaderIs.congr (m m' : Mem) (b : Block) (prev next : Word) (header : HeaderIs m b prev next)
    (same : ∀ f, load m' b.addr f = load m b.addr f) : HeaderIs m' b prev next :=
  ⟨(same _).trans header.magic, (same _).trans header.size, (same _).trans header.allocated,
    (same _).trans header.prev, (same _).trans header.next⟩

theorem head_or_append (next : Word) (xs ys : List Block) : headOr next (xs ++ ys) = headOr (headOr next ys) xs := by
  cases xs <;> rfl

theorem linked_append (m : Mem) (prev next : Word) (xs ys : List Block) :
    Linked m prev (xs ++ ys) next ↔ Linked m prev xs (headOr next ys) ∧ Linked m (lastOr prev xs) ys next := by
  induction xs generalizing prev with
  | nil => simp [Linked, lastOr]
  | cons b xs ih => simp only [List.cons_append, Linked, lastOr, ih, head_or_append, and_assoc]

theorem linked_congr (m m' : Mem) (prev next : Word) (bs : List Block) (linked : Linked m prev bs next)
    (same : ∀ b ∈ bs, ∀ f, load m' b.addr f = load m b.addr f) : Linked m' prev bs next := by
  induction bs generalizing prev with
  | nil => trivial
  | cons b bs ih =>
      exact ⟨linked.1.congr m m' b prev _ (same b List.mem_cons_self),
        ih b.addr linked.2 (fun c member => same c (List.mem_cons_of_mem b member))⟩

theorem linked_relink (m m' : Mem) (prev prev' next : Word) (bs : List Block) (linked : Linked m prev bs next)
    (nonnull : ∀ b ∈ bs, b.addr ≠ 0)
    (first : headOr 0 bs ≠ 0 → ∀ f, load m' (headOr 0 bs) f = if f = .prev then prev' else load m (headOr 0 bs) f)
    (same : ∀ b ∈ bs.tail, ∀ f, load m' b.addr f = load m b.addr f) : Linked m' prev' bs next := by
  cases bs with
  | nil => trivial
  | cons b bs =>
      obtain ⟨header, rest⟩ := linked
      have changed : ∀ f, load m' b.addr f = if f = .prev then prev' else load m b.addr f :=
        first (nonnull b List.mem_cons_self)
      refine ⟨⟨?_, ?_, ?_, ?_, ?_⟩, linked_congr m m' b.addr next bs rest same⟩
      · simpa [changed] using header.magic
      · simpa [changed] using header.size
      · simpa [changed] using header.allocated
      · simp [changed]
      · simpa [changed] using header.next

theorem head_or_of_all (bs : List Block) (holds : Word → Prop) (all : ∀ b ∈ bs, holds b.addr)
    (nonnull : headOr 0 bs ≠ 0) : holds (headOr 0 bs) := by
  cases bs with
  | nil => exact absurd rfl nonnull
  | cons b bs => exact all b List.mem_cons_self

namespace Layout

variable {base stop : Nat} {bs : List Block}

theorem bounds (layout : Layout base stop bs) {b : Block} (member : b ∈ bs) :
    base ≤ b.addr.toNat ∧ 20 ≤ b.size.toNat ∧ b.addr.toNat + b.size.toNat ≤ stop := by
  have inside := tiles_bounds bs base stop layout.tiles b member
  exact ⟨inside.1, layout.sizes b member, inside.2.2⟩

theorem addr_ne (layout : Layout base stop bs) {b : Block} (member : b ∈ bs) : b.addr ≠ 0 := by
  have bounds := layout.bounds member
  have positive := layout.positive
  intro zero
  have start : b.addr.toNat = 0 := by rw [zero]; rfl
  omega

theorem pairwise (layout : Layout base stop bs) : bs.Pairwise (fun b c => HeaderApart b.addr c.addr) := by
  refine (tiles_pairwise bs base stop layout.tiles).imp_of_mem ?_
  intro b c first second before
  have left := layout.bounds first
  have right := layout.bounds second
  have bound := layout.bound
  simp only [Block.start, Block.stop] at before
  exact apart_of_le (by omega) (by omega) (by decide)

theorem split (layout : Layout base stop bs) (pre post : List Block) (b front back : Block) (shape : bs = pre ++ b :: post)
    (start : front.addr = b.addr) (touch : front.stop = back.start) (end' : back.stop = b.stop)
    (frontSize : headerSize.toNat ≤ front.size.toNat) (backSize : headerSize.toNat ≤ back.size.toNat) :
    Layout base stop (pre ++ front :: back :: post) := by
  subst shape
  refine ⟨?_, ?_, layout.positive, layout.bound⟩
  · obtain ⟨c, left, first, _, right⟩ := (tiles_append pre (b :: post) base stop).mp layout.tiles
    have header : headerSize.toNat = 20 := rfl
    refine (tiles_append pre (front :: back :: post) base stop).mpr ⟨c, left, ?_, ?_, touch.symm, ?_, by rwa [end']⟩
    · simpa only [Block.start, start] using first
    · simp only [Block.start, Block.stop]; omega
    · simp only [Block.start, Block.stop]; omega
  · intro c member
    simp only [List.mem_append, List.mem_cons] at member
    rcases member with early | rfl | rfl | late
    · exact layout.sizes c (by simp [early])
    · exact frontSize
    · exact backSize
    · exact layout.sizes c (by simp [late])

theorem merge (layout : Layout base stop bs) (pre post : List Block) (front back b : Block)
    (shape : bs = pre ++ front :: back :: post) (start : b.addr = front.addr) (size : b.stop = back.stop) :
    Layout base stop (pre ++ b :: post) := by
  subst shape
  have frontBounds := layout.bounds (b := front) (by simp)
  have backBounds := layout.bounds (b := back) (by simp)
  obtain ⟨c, left, first, _, touch, _, right⟩ := (tiles_append pre (front :: back :: post) base stop).mp layout.tiles
  simp only [Block.start, Block.stop] at first touch size
  refine ⟨?_, ?_, layout.positive, layout.bound⟩
  · refine (tiles_append pre (b :: post) base stop).mpr ⟨c, left, ?_, ?_, ?_⟩
    · simpa only [Block.start, start] using first
    · simp only [Block.start, Block.stop]; rw [start] at size ⊢; omega
    · simpa only [Block.stop, size] using right
  · intro d member
    simp only [List.mem_append, List.mem_cons] at member
    rcases member with early | rfl | late
    · exact layout.sizes d (by simp [early])
    · have header : headerSize.toNat = 20 := rfl
      rw [start] at size
      omega
    · exact layout.sizes d (by simp [late])

theorem retag (layout : Layout base stop bs) (pre post : List Block) (b c : Block) (shape : bs = pre ++ b :: post)
    (start : c.addr = b.addr) (size : c.size = b.size) : Layout base stop (pre ++ c :: post) := by
  subst shape
  refine ⟨?_, ?_, layout.positive, layout.bound⟩
  · obtain ⟨d, left, right⟩ := (tiles_append pre (b :: post) base stop).mp layout.tiles
    refine (tiles_append pre (c :: post) base stop).mpr ⟨d, left, ?_⟩
    simpa only [Tiles, Block.start, Block.stop, start, size] using right
  · intro d member
    simp only [List.mem_append, List.mem_cons] at member
    rcases member with early | rfl | late
    · exact layout.sizes d (by simp [early])
    · rw [size]; exact layout.sizes b (by simp)
    · exact layout.sizes d (by simp [late])

end Layout

def OffHeaders (bs : List Block) (x : Word) : Prop := ∀ h ∈ bs.map Block.addr, OffHeader h x

theorem OffHeaders.at {bs : List Block} {x : Word} (off : OffHeaders bs x) {b : Block} (member : b ∈ bs) :
    OffHeader b.addr x := off b.addr (List.mem_map_of_mem member)

end Deimos.Kalloc
