import Deimos.Rtl.InStep

set_option autoImplicit false

namespace Deimos.Rtl

open Run

-- What rtl_module_init allocates for rx_buf: RX_BUF_SIZE + RX_BUF_PAD.
def RX_BUF_BYTES : Nat := 32 * 1024 + 16 + 1500

def readOffset (s : Receiver) : Nat := (wrapPtr s.rxPtr).toNat

def rxStatus (s : Receiver) : BitVec 16 := (rxHeader s.rxBuf (readOffset s)).setWidth 16

def rxSize (s : Receiver) : BitVec 16 := (rxHeader s.rxBuf (readOffset s) >>> 16).setWidth 16

-- The pieces of rx_buf that a pass reads, by offset and length: the header,
-- and for net_cpy_pkt what is to be passed up.
def accesses (served : Bool) (s : Receiver) : List (Nat × Nat) :=
  (readOffset s, 4) :: if rxStatus s ≠ 0 ∧ served then [(readOffset s + 4, (rxSize s - 4).toNat)] else []

structure Inside (served : Bool) (s : Receiver) : Prop where
  reads : ∀ access ∈ accesses served s, access.1 + access.2 ≤ RX_BUF_BYTES
  size : (rxSize s - 4).toNat + 4 = (rxSize s).toNat

structure Fits (served : Bool) (s : Receiver) : Prop where
  long : 4 ≤ (rxSize s).toNat
  short : rxStatus s ≠ 0 → served = true → (rxSize s).toNat ≤ RX_BUF_BYTES - readOffset s

def HandlerPass (s s' : Receiver) : Prop := ∃ mem served, s' = rtlReceive served { s with rxBuf := mem }

section Pass

variable (served : Bool) (s : Receiver)

theorem receive_pass : rtlReceive served s =
    { s with
      rxPtr := nextPtr (wrapPtr s.rxPtr) (rxSize s)
      reads := s.reads ++ [⟨readOffset s, served, if rxStatus s = 0 then none
        else if served then some (netCpyPkt s.rxBuf (readOffset s + 4) ((rxSize s - 4).setWidth 32)) else none⟩] } := rfl

theorem copied_access (marked : rxStatus s ≠ 0) (memory : served = true) :
    (readOffset s + 4, (rxSize s - 4).toNat) ∈ accesses served s := by
  rw [accesses, if_pos ⟨marked, memory⟩]
  exact List.mem_cons_of_mem _ List.mem_cons_self

theorem receive_reads (mem : Nat → Byte)
    (same : ∀ access ∈ accesses served s, ∀ i < access.2, mem (access.1 + i) = s.rxBuf (access.1 + i)) :
    rtlReceive served { s with rxBuf := mem } = { rtlReceive served s with rxBuf := mem } := by
  have header : rxHeader mem (readOffset s) = rxHeader s.rxBuf (readOffset s) := by
    have byte : ∀ i < 4, mem (readOffset s + i) = s.rxBuf (readOffset s + i) := same _ List.mem_cons_self
    rw [rxHeader, rxHeader, byte 3 (by decide), byte 2 (by decide), byte 1 (by decide)]
    exact congrArg (_ ++ ·) (byte 0 (by decide))
  have status : rxStatus { s with rxBuf := mem } = rxStatus s := congrArg (BitVec.setWidth 16) header
  have size : rxSize { s with rxBuf := mem } = rxSize s := congrArg (fun word : Word => (word >>> 16).setWidth 16) header
  have offset : readOffset { s with rxBuf := mem } = readOffset s := rfl
  rw [receive_pass, receive_pass, status, size, offset]
  by_cases copied : rxStatus s ≠ 0 ∧ served = true
  · have bytes : ∀ i < (rxSize s - 4).toNat, mem (readOffset s + 4 + i) = s.rxBuf (readOffset s + 4 + i) :=
      same _ (copied_access served s copied.1 copied.2)
    have packet : netCpyPkt mem (readOffset s + 4) ((rxSize s - 4).setWidth 32) =
        netCpyPkt s.rxBuf (readOffset s + 4) ((rxSize s - 4).setWidth 32) := by
      refine congrArg (PktBuf.mk _) (List.map_congr_left (fun i member => bytes i ?_))
      have inside := List.mem_range.mp member
      rwa [BitVec.toNat_setWidth, Nat.mod_eq_of_lt (by omega)] at inside
    rw [packet]
  · by_cases empty : rxStatus s = 0
    · rw [if_pos empty, if_pos empty]
    · cases served with
      | false => rfl
      | true => exact absurd ⟨empty, rfl⟩ copied

theorem wrap_le : readOffset s ≤ 32768 := by
  rw [readOffset, wrap_to_nat]
  split
  · omega
  · omega

theorem header_inside : readOffset s + 4 ≤ RX_BUF_BYTES := by
  have bound := wrap_le s
  unfold RX_BUF_BYTES
  omega

theorem inside_iff : Inside served s ↔ Fits served s := by
  have bound := header_inside s
  have size := (rxSize s).isLt
  have less : (rxSize s - 4).toNat = (2 ^ 16 - 4 + (rxSize s).toNat) % 2 ^ 16 := BitVec.toNat_sub _ _
  constructor
  · intro inside
    have long : 4 ≤ (rxSize s).toNat := by
      have whole := inside.size
      omega
    refine ⟨long, fun marked memory => ?_⟩
    have copied : readOffset s + 4 + (rxSize s - 4).toNat ≤ RX_BUF_BYTES :=
      inside.reads _ (copied_access served s marked memory)
    omega
  · intro fits
    have long := fits.long
    refine ⟨fun access member => ?_, by omega⟩
    rcases List.mem_cons.mp member with rfl | copied
    · exact bound
    · split at copied
      · rename_i marked
        have short := fits.short marked.1 marked.2
        obtain rfl := List.mem_singleton.mp copied
        dsimp only
        omega
      · exact absurd copied List.not_mem_nil

end Pass

theorem pass_aligned (s s' : Receiver) (_ : 4 ∣ s.rxPtr.toNat) (pass : HandlerPass s s') : 4 ∣ s'.rxPtr.toNat := by
  obtain ⟨mem, served, rfl⟩ := pass
  rw [receive_pass, next_value]
  omega

-- In every run of the loop the header is read inside the buffer. The whole
-- pass is, exactly where the length the card has left there is a possible one.
theorem reads_inside_iff (s₀ s : Receiver) (start : s₀.rxPtr = 0) (run : Reaches HandlerPass s₀ s) (mem : Nat → Byte) (served : Bool) :
    4 ∣ s.rxPtr.toNat ∧ readOffset s + 4 ≤ RX_BUF_BYTES ∧ (Inside served { s with rxBuf := mem } ↔ Fits served { s with rxBuf := mem }) := by
  have aligned : 4 ∣ s₀.rxPtr.toNat := by
    rw [start]
    exact Nat.dvd_zero 4
  exact ⟨invariant (fun s : Receiver => 4 ∣ s.rxPtr.toNat) pass_aligned s₀ s aligned run, header_inside s, inside_iff served _⟩

def headed (header : Word) : Receiver := { quiet with rxBuf := fun i => if i < 4 then (header >>> (8 * i)).setWidth 8 else 0 }

theorem reads_inside_shortest : Inside true (headed 0x00400001) := by
  have fits : Fits true (headed 0x00400001) := ⟨by decide, fun _ _ => by decide⟩
  exact (reads_inside_iff quiet quiet rfl .refl (headed 0x00400001).rxBuf true).2.2.mpr fits

theorem reads_past_buffer : ¬ ∀ s₀ s, s₀.rxPtr = 0 → Reaches HandlerPass s₀ s → ∀ mem served, Inside served { s with rxBuf := mem } := by
  intro claim
  have inside := claim quiet quiet rfl .refl (headed 0xFFF00001).rxBuf true
  have short := ((inside_iff true (headed 0xFFF00001)).mp inside).short (by decide) rfl
  exact absurd short (by decide)

end Deimos.Rtl
