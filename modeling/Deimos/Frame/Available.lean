import Deimos.Frame.Kernel

set_option autoImplicit false

namespace Deimos.Frame

open Bitmap Comp Run

def Available (m : Mem) (mbt : Word) (x : Nat) : Prop :=
  ∃ e, Visited m mbt e ∧ entryType m e = MULTIBOOT_MEMORY_AVAILABLE ∧ (entryAddr m e).toNat ≤ x ∧
    x < (entryAddr m e).toNat + (entryLen m e).toNat

def FrameAvailable (m : Mem) (mbt : Word) (b : Nat) : Prop :=
  ∀ x, b * FRAME_SIZE ≤ x → x < (b + 1) * FRAME_SIZE → Available m mbt x

def OnlyAvailable (m : Mem) (mbt : Word) (s : Frames) : Prop := ∀ b < bitCount, getBit b s = false → FrameAvailable m mbt b

-- The addresses from the frame of first to that of last, both 32 bits wide, but for those of frame 0.
def Touches (first last : Word) (x : Nat) : Prop :=
  FRAME_SIZE ≤ x ∧ first.toNat / FRAME_SIZE * FRAME_SIZE ≤ x ∧ x < (last.toNat / FRAME_SIZE + 1) * FRAME_SIZE

-- For every available entry the frames from that of addr to that of
-- addr+(addr+len-1)-1, in 32 bits, are available.
def Contained (m : Mem) (mbt : Word) : Prop :=
  ∀ e, Visited m mbt e → entryType m e = MULTIBOOT_MEMORY_AVAILABLE →
    ∀ x, Touches ((entryAddr m e).setWidth 32)
      ((entryAddr m e).setWidth 32 + (entryAddr m e + entryLen m e - 1).setWidth 32 - 1) x → Available m mbt x

theorem touches_iff_frees (m : Mem) (e : Word) (x : Nat) (available : entryType m e = MULTIBOOT_MEMORY_AVAILABLE) :
    Touches ((entryAddr m e).setWidth 32)
      ((entryAddr m e).setWidth 32 + (entryAddr m e + entryLen m e - 1).setWidth 32 - 1) x ↔ EntryFrees m e (x / FRAME_SIZE) := by
  rw [EntryFrees, mem_region]
  simp only [available, true_and, Touches, FRAME_SIZE]
  omega

-- free_region takes the end of an entry for its size, so the free frames are
-- available exactly when all it frees that way happens to be.
theorem only_available_iff (m : Mem) (mbt : Word) (s s' : Frames) (returned : (frameInit m mbt s).Returns s') :
    OnlyAvailable m mbt s' ↔ Contained m mbt := by
  have inside : ∀ x, x / FRAME_SIZE * FRAME_SIZE ≤ x ∧ x < (x / FRAME_SIZE + 1) * FRAME_SIZE := by
    intro x
    simp only [FRAME_SIZE]
    omega
  constructor
  · intro only e visited available x touches
    have frees := (touches_iff_frees m e x available).mp touches
    have below : x / FRAME_SIZE < bitCount := by
      have := entry_frees_below m e _ frees
      simp only [frameCount, bitCount, BITMAP_WORDS] at this ⊢
      omega
    have clear := (frame_init_bits m mbt s s' returned _ below).mpr ⟨e, visited, frees⟩
    exact only _ below clear x (inside x).1 (inside x).2
  · intro contained b below clear x low high
    obtain ⟨e, visited, frees⟩ := (frame_init_bits m mbt s s' returned b below).mp clear
    have own : x / FRAME_SIZE = b := by
      simp only [FRAME_SIZE] at low high ⊢
      omega
    exact contained e visited frees.1 x ((touches_iff_frees m e x frees.1).mpr (own ▸ frees))

def twoPageMap : Mem := (oneEntryMap 0).write 0x910C 0x2000

theorem two_page_fields :
    mmapAddr twoPageMap 0x9000 = 0x9100 ∧ mmapStop twoPageMap 0x9000 = 0x9118 ∧ nextEntry twoPageMap 0x9100 = 0x9118 ∧
      entryType twoPageMap 0x9100 = MULTIBOOT_MEMORY_AVAILABLE ∧ entryAddr twoPageMap 0x9100 = 0 ∧
      entryLen twoPageMap 0x9100 = 0x2000 := by
  decide +kernel

theorem only_available_two_pages :
    ∃ s', (frameInit twoPageMap 0x9000 ⟨fun _ => 0, 0, 0, 0⟩).Returns s' ∧ OnlyAvailable twoPageMap 0x9000 s' := by
  obtain ⟨start, stop, next, available, addr, len⟩ := two_page_fields
  have below : (0x9100 : Word) < mmapStop twoPageMap 0x9000 := by rw [stop]; decide
  obtain ⟨s', returned⟩ := single_entry_returns twoPageMap 0x9000 0x9100 start (next.trans stop.symm) below ⟨fun _ => 0, 0, 0, 0⟩
  have only := single_entry_visited twoPageMap 0x9000 0x9100 start (next.trans stop.symm) below
  refine ⟨s', returned, (only_available_iff _ _ _ s' returned).mpr fun e visited _ x touches => ?_⟩
  obtain rfl := (only e).mp visited
  refine ⟨0x9100, visited, available, ?_⟩
  rw [addr, len] at touches ⊢
  have high : x < 0x2000 := touches.2.2
  exact ⟨Nat.zero_le x, high⟩

theorem frees_unavailable_page :
    ∃ s', (frameInit (oneEntryMap 0x100000) 0x9000 ⟨fun _ => 0, 0, 0, 0⟩).Returns s' ∧ getBit 0x101 s' = false ∧
      ¬ FrameAvailable (oneEntryMap 0x100000) 0x9000 0x101 ∧ ¬ OnlyAvailable (oneEntryMap 0x100000) 0x9000 s' := by
  obtain ⟨s', returned⟩ := one_entry_returns 0x100000 (.inl rfl) ⟨fun _ => 0, 0, 0, 0⟩
  have frees : EntryFrees (oneEntryMap 0x100000) 0x9100 0x101 := (one_entry_frees 0x100000 (.inl rfl) 0x101).mpr (by decide)
  have clear : getBit 0x101 s' = false := (frame_init_bits _ _ _ s' returned 0x101 (by decide)).mpr
    ⟨0x9100, (one_entry_visited 0x100000 (.inl rfl) _).mpr rfl, frees⟩
  have outside : ¬ FrameAvailable (oneEntryMap 0x100000) 0x9000 0x101 := by
    intro inside
    obtain ⟨e, visited, _, _, high⟩ := inside 0x101000 (by decide) (by decide)
    obtain rfl := (one_entry_visited 0x100000 (.inl rfl) e).mp visited
    exact absurd high (by decide +kernel)
  exact ⟨s', returned, clear, outside, fun only => outside (only 0x101 (by decide) clear)⟩

end Deimos.Frame
