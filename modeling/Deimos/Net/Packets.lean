import Deimos.Kalloc.Borrow
import Deimos.Str.Memory

set_option autoImplicit false

namespace Deimos.Net

open Mem Comp Kalloc

-- sizeof(pkt_buf_t): len, and behind it data.
def pktBufSize : Word := 8

def netAllocPktBuf (size : Word) (s : Heap) : Comp Stop (Word × Heap) := do
  let (p, s) ← kmalloc (size + pktBufSize) s
  if p = 0 then pure (0, s) else pure (p, { s with mem := s.mem.write (p + 4) (p + pktBufSize) })

def netFreePktBuf (buf : Word) (s : Heap) : Except Stop Heap := kfree buf s

def netCpyPkt (src dest size : Word) (s : Heap) : Comp Stop Heap := do
  let (_, m) ← Str.memcpy (s.mem.read (dest + 4)) src size s.mem
  pure { s with mem := m.write dest size }

-- Passing a packet up is a full stop on the terminal so far.
def netRxPkt (pkt : Word) (s : Heap) : Except Stop Heap := netFreePktBuf pkt s

def packet (p size : Word) : Live := ⟨p, size + pktBufSize, false⟩

section Packets

variable {base stop : Nat} {s : Heap} {bs cs : List Block} {live : List Live} {p size : Word}

theorem packet_size (short : size.toNat < 2 ^ 16) : (packet p size).size.toNat = size.toNat + 8 := by
  simp only [packet, pktBufSize]
  bv_omega

theorem net_alloc_pkt_buf_returns (whole : Whole base stop s bs live) (top : stop + 8192 < 2 ^ 32) (short : size.toNat < 2 ^ 16) :
    ∃ p s', (netAllocPktBuf size s).Returns (p, s') ∧ ((p = 0 ∧ s' = s) ∨ (p ≠ 0 ∧ s'.mem.read (p + 4) = p + pktBufSize ∧ ∃ cs,
      Whole base stop s' cs (packet p size :: live) ∧ Gains bs cs p ∧ Spares live s.mem s'.mem)) := by
  obtain ⟨p, s₁, returned, outcome⟩ := whole.kmalloc top (size + pktBufSize)
  rcases outcome with ⟨null, same⟩ | ⟨nonnull, cs, taken, gains, spares⟩
  · refine ⟨0, s₁, (ends_bind_of_returns _ _ _ _ returned).mpr ?_, .inl ⟨rfl, same⟩⟩
    simp only [null, if_pos]
    exact (ends_pure _ _).mpr rfl
  · have room := packet_size (p := p) short
    have mine : Whole base stop s₁ cs (packet p size :: live) := taken
    have outside : ∀ x : Word, (packet p size).size.toNat ≤ (x - p).toNat → s₁.mem.write (p + 4) (p + pktBufSize) x = s₁.mem x :=
      fun x far => write_other _ _ _ x (by bv_omega)
    obtain ⟨written, kept⟩ := mine.scribble List.mem_cons_self (by omega) _ outside
    rw [drop_head mine.distinct] at kept
    have data := read_write_same s₁.mem (p + 4) (p + pktBufSize)
    refine ⟨p, { s₁ with mem := s₁.mem.write (p + 4) (p + pktBufSize) }, (ends_bind_of_returns _ _ _ _ returned).mpr ?_,
      .inr ⟨nonnull, data, cs, written, gains, spares.trans kept⟩⟩
    simp only [if_neg nonnull]
    exact (ends_pure _ _).mpr rfl

theorem net_alloc_pkt_buf_answer (s' : Heap) (returned : (netAllocPktBuf size s).Returns (p, s')) :
    ∃ t, (kmalloc (size + pktBufSize) s).Returns (p, t) := by
  obtain ⟨⟨q, t⟩, answered, rest⟩ := (returns_bind _ _ _).mp returned
  refine ⟨t, ?_⟩
  by_cases null : q = 0
  · simp only [if_pos null] at rest
    obtain ⟨rfl, -⟩ := Prod.mk.inj (Except.ok.inj ((ends_pure _ _).mp rest))
    exact null ▸ answered
  · simp only [if_neg null] at rest
    obtain ⟨rfl, -⟩ := Prod.mk.inj (Except.ok.inj ((ends_pure _ _).mp rest))
    exact answered

theorem packet_clear (held : Held base stop s cs (packet p size :: live)) (short : size.toNat < 2 ^ 16) (l : Live) (member : l ∈ live)
    (small : l.size.toNat + 23 < 2 ^ 32) (offset : Nat) (inside : offset + size.toNat ≤ l.size.toNat) :
    Str.Clear (p + pktBufSize) (l.ptr + BitVec.ofNat 32 offset) size.toNat := by
  intro i before
  have room := packet_size (p := p) short
  refine Nat.le_of_not_lt (fun near => ?_)
  have place : l.ptr + BitVec.ofNat 32 (offset + i) =
      (packet p size).ptr + BitVec.ofNat 32 (8 + (l.ptr + BitVec.ofNat 32 offset + BitVec.ofNat 32 i - (p + pktBufSize)).toNat) := by
    simp only [packet, pktBufSize] at near ⊢
    bv_omega
  have one := (held.bytes_apart l (packet p size) (List.mem_cons_of_mem _ member) List.mem_cons_self small (by omega) _ _ (by omega)
    (by omega) place).1
  exact (List.nodup_cons.mp held.distinct).1 (one ▸ List.mem_map_of_mem member)

theorem net_cpy_pkt_returns (whole : Whole base stop s cs (packet p size :: live)) (short : size.toNat < 2 ^ 16)
    (data : s.mem.read (p + 4) = p + pktBufSize) (src : Word) :
    ∃ s', (netCpyPkt src p size s).Returns s' ∧ Whole base stop s' cs (packet p size :: live) ∧ Spares live s.mem s'.mem ∧
      s'.mem.read p = size ∧ s'.mem.read (p + 4) = p + pktBufSize ∧
      (Str.Clear (p + pktBufSize) src size.toNat →
        ∀ i < size.toNat, s'.mem (p + pktBufSize + BitVec.ofNat 32 i) = s.mem (src + BitVec.ofNat 32 i)) := by
  have room := packet_size (p := p) short
  obtain ⟨m, returned, copied⟩ := Str.memcpy_returns (p + pktBufSize) src size s.mem
  have outside : ∀ x : Word, (packet p size).size.toNat ≤ (x - p).toNat → m.write p size x = s.mem x := by
    intro x far
    rw [write_other _ _ _ x (by omega)]
    exact copied.outside x (by simp only [pktBufSize]; bv_omega)
  obtain ⟨written, kept⟩ := whole.scribble List.mem_cons_self (by omega) (m.write p size) outside
  rw [drop_head whole.distinct] at kept
  have header : (m.write p size).read (p + 4) = p + pktBufSize := by
    rw [read_write_apart _ _ _ _ (by constructor <;> bv_omega), ← data]
    exact read_congr _ _ _ (fun x near => copied.outside x (by simp only [pktBufSize]; bv_omega))
  refine ⟨{ s with mem := m.write p size }, ?_, written, kept, read_write_same m p size, header, fun clear i before => ?_⟩
  · rw [netCpyPkt, data]
    exact (ends_bind_of_returns _ _ _ _ returned).mpr ((ends_pure _ _).mpr rfl)
  · rw [← copied.inside clear i before]
    exact write_other _ _ _ _ (by simp only [pktBufSize]; bv_omega)

end Packets

end Deimos.Net
