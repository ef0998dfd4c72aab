import Deimos.Lib.Bytes
import Deimos.Net.Packets
import Deimos.Rtl.Bounds

set_option autoImplicit false

namespace Deimos.Rtl

open Mem Tiling Comp Run Kalloc

def ROK : BitVec 16 := 0x0001

-- The driver over the kernel heap, and what its passes have read so far.
structure Handler where
  heap : Heap
  rxPtr : BitVec 16
  reads : List Read

def packetAt (m : Mem) (p : Word) : PktBuf := ⟨m.read p, m.bytes (m.read (p + 4)) (m.read p).toNat⟩

-- With the pointer that net_alloc_pkt_buf gave, whatever came of it.
def passUp (src size : Word) (s : Heap) : Comp Stop (Word × Option PktBuf × Heap) := do
  let (pkt, s) ← Net.netAllocPktBuf size s
  if pkt = 0 then pure (pkt, none, s)
  else do
    let s ← Net.netCpyPkt src pkt size s
    let s' ← (Net.netRxPkt pkt s : Except Stop Heap)
    pure (pkt, some (packetAt s.mem pkt), s')

-- The body of the while loop in rtl_isr_handler.
def rtlPass (rxBuf : Word) (s : Handler) : Comp Stop Handler := do
  let ptr := wrapPtr s.rxPtr
  let header := s.heap.mem.read (rxBuf + ptr.setWidth 32)
  let status : BitVec 16 := header.setWidth 16
  let size : BitVec 16 := (header >>> 16).setWidth 16
  let pktSize := size - 4
  let (buf, pkt, heap) ←
    if status = 0 then pure (0, none, s.heap) else passUp (rxBuf + ptr.setWidth 32 + 4) (pktSize.setWidth 32) s.heap
  pure ⟨heap, nextPtr ptr size, s.reads ++ [⟨ptr.toNat, decide (buf ≠ 0), pkt⟩]⟩

-- What the card has written to rx_buf, by offset.
abbrev Dma := List (Nat × Byte)

def dma (rxBuf : Word) (writes : Dma) (s : Heap) : Heap :=
  writes.foldl (fun s w => { s with mem := Function.update s.mem (rxBuf + BitVec.ofNat 32 w.1) w.2 }) s

-- The card has one element for each time that it reports a packet: what it has
-- written since the one before. After the last it reports an empty buffer.
def rtlIsrHandler (rxBuf : Word) (flags : BitVec 16) (card : List Dma) (s : Handler) : Comp Stop Handler :=
  if flags &&& ROK ≠ 0 then card.foldlM (fun s writes => rtlPass rxBuf { s with heap := dma rxBuf writes s.heap }) s else pure s

section Pass

variable {base stop : Nat} {s : Heap} {bs : List Block} {live : List Live}

theorem pass_up_returns (whole : Whole base stop s bs live) (top : stop + 8192 < 2 ^ 32) (src size : Word) (short : size.toNat < 2 ^ 16) :
    ∃ buf pkt s', (passUp src size s).Returns (buf, pkt, s') ∧ Whole base stop s' bs live ∧ Spares live s.mem s'.mem ∧
      (∃ t, (kmalloc (size + Net.pktBufSize) s).Returns (buf, t)) ∧ (pkt = none ↔ buf = 0) ∧
      ∀ l ∈ live, l.size.toNat + 23 < 2 ^ 32 → ∀ offset : Nat, src = l.ptr + BitVec.ofNat 32 offset →
        offset + size.toNat ≤ l.size.toNat →
        ∀ q, pkt = some q → q = ⟨size, s.mem.bytes src size.toNat⟩ := by
  obtain ⟨p, s₁, allocated, outcome⟩ := Net.net_alloc_pkt_buf_returns whole top short
  rcases outcome with ⟨rfl, rfl⟩ | ⟨nonnull, data, cs, taken, gains, spares⟩
  · exact ⟨0, none, s₁, (ends_bind_of_returns _ _ _ _ allocated).mpr ((ends_pure _ _).mpr rfl), whole, fun _ _ _ _ _ => rfl,
      Net.net_alloc_pkt_buf_answer _ allocated, iff_of_true rfl rfl, fun _ _ _ _ _ _ _ got => by cases got⟩
  · obtain ⟨s₂, copied, kept, spares₂, len, data₂, content⟩ := Net.net_cpy_pkt_returns taken short data src
    obtain ⟨s₃, freed, back, spares₃⟩ := kept.kfree top whole.wf.toLayout whole.settled gains
    refine ⟨p, some (packetAt s₂.mem p), s₃, ?_, back, (spares.trans spares₂).trans spares₃, Net.net_alloc_pkt_buf_answer _ allocated,
      iff_of_false (Option.some_ne_none _) nonnull, ?_⟩
    · refine (ends_bind_of_returns _ _ _ _ allocated).mpr ?_
      simp only [if_neg nonnull]
      refine (ends_bind_of_returns _ _ _ _ copied).mpr ?_
      exact (ends_bind_of_returns _ _ _ _ ((ends_lift _ _).mpr freed.symm)).mpr ((ends_pure _ _).mpr rfl)
    · rintro l member small offset rfl inside q ⟨⟩
      have clear := Net.packet_clear taken.toHeld short l member small offset inside
      rw [packetAt, len, data₂]
      refine congrArg (PktBuf.mk _) (List.map_congr_left (fun i present => ?_))
      have before := List.mem_range.mp present
      rw [content clear i before, BitVec.add_assoc, ← BitVec.ofNat_add]
      exact spares l member small (offset + i) (by omega)

end Pass

section Passes

variable {base stop : Nat} {s : Handler} {bs : List Block} {live : List Live}

-- What the handler has come to, as the card's ring and the driver's place in it.
def Handler.receiver (rxBuf : Word) (s : Handler) : Receiver :=
  ⟨fun i => s.heap.mem (rxBuf + BitVec.ofNat 32 i), s.rxPtr, true, 0, [], s.reads⟩

theorem header_in_memory (rxBuf : Word) (s : Handler) :
    s.heap.mem.read (rxBuf + (wrapPtr s.rxPtr).setWidth 32) = rxHeader (s.receiver rxBuf).rxBuf (readOffset (s.receiver rxBuf)) := by
  have place : (wrapPtr s.rxPtr).setWidth 32 = BitVec.ofNat 32 (readOffset (s.receiver rxBuf)) := by
    rw [show readOffset (s.receiver rxBuf) = (wrapPtr s.rxPtr).toNat from rfl]
    bv_omega
  rw [place, read_append]
  simp only [rxHeader, Handler.receiver, BitVec.ofNat_add, ← BitVec.add_assoc]
  rfl

def Handler.after (rxBuf buf : Word) (pkt : Option PktBuf) (heap : Heap) (s : Handler) : Handler :=
  ⟨heap, nextPtr (wrapPtr s.rxPtr) (rxSize (s.receiver rxBuf)), s.reads ++ [⟨readOffset (s.receiver rxBuf), decide (buf ≠ 0), pkt⟩]⟩

-- Memory is asked for whenever there is a packet, and what comes is the answer.
def Handler.Asked (rxBuf : Word) (s : Handler) (buf : Word) : Prop :=
  rxStatus (s.receiver rxBuf) ≠ 0 → ∃ t, (kmalloc ((rxSize (s.receiver rxBuf) - 4).setWidth 32 + Net.pktBufSize) s.heap).Returns (buf, t)

def Handler.Taken (rxBuf : Word) (s : Handler) (room : Nat) (pkt : Option PktBuf) : Prop :=
  ∀ q, pkt = some q → rxStatus (s.receiver rxBuf) ≠ 0 ∧
    (readOffset (s.receiver rxBuf) + 4 + (rxSize (s.receiver rxBuf) - 4).toNat ≤ room →
      q = netCpyPkt (s.receiver rxBuf).rxBuf (readOffset (s.receiver rxBuf) + 4) ((rxSize (s.receiver rxBuf) - 4).setWidth 32))

theorem Handler.Taken.copied {rxBuf buf : Word} {room : Nat} {pkt : Option PktBuf} (taken : s.Taken rxBuf room pkt) (either : pkt = none ↔ buf = 0)
    (inside : rxStatus (s.receiver rxBuf) ≠ 0 → readOffset (s.receiver rxBuf) + 4 + (rxSize (s.receiver rxBuf) - 4).toNat ≤ room) :
    pkt = if rxStatus (s.receiver rxBuf) = 0 then none
      else if decide (buf ≠ 0) then
        some (netCpyPkt (s.receiver rxBuf).rxBuf (readOffset (s.receiver rxBuf) + 4) ((rxSize (s.receiver rxBuf) - 4).setWidth 32))
      else none := by
  cases pkt with
  | none => simp [either.mp rfl]
  | some q =>
      obtain ⟨marked, content⟩ := taken q rfl
      have given : decide (buf ≠ 0) = true := decide_eq_true (fun null => Option.some_ne_none q (either.mpr null))
      rw [if_neg marked, if_pos given, content (inside marked)]

theorem rtl_pass_returns (whole : Whole base stop s.heap bs live) (top : stop + 8192 < 2 ^ 32) (rx : Live) (own : rx ∈ live)
    (small : rx.size.toNat + 23 < 2 ^ 32) :
    ∃ buf pkt heap, (rtlPass rx.ptr s).Returns (s.after rx.ptr buf pkt heap) ∧ Whole base stop heap bs live ∧ Spares live s.heap.mem heap.mem ∧
      s.Asked rx.ptr buf ∧ (pkt = none ↔ buf = 0) ∧ s.Taken rx.ptr rx.size.toNat pkt := by
  have header := header_in_memory rx.ptr s
  by_cases status : rxStatus (s.receiver rx.ptr) = 0
  · refine ⟨0, none, s.heap, ?_, whole, fun _ _ _ _ _ => rfl, fun marked => absurd status marked, iff_of_true rfl rfl, fun _ got => by cases got⟩
    have empty : BitVec.setWidth 16 (rxHeader (s.receiver rx.ptr).rxBuf (readOffset (s.receiver rx.ptr))) = 0 := status
    rw [rtlPass, header]
    simp only [if_pos empty]
    exact (ends_pure _ _).mpr rfl
  · obtain ⟨buf, pkt, s', passed, back, spares, asked, either, content⟩ := pass_up_returns whole top (rx.ptr + (wrapPtr s.rxPtr).setWidth 32 + 4)
      ((rxSize (s.receiver rx.ptr) - 4).setWidth 32) (by bv_omega)
    refine ⟨buf, pkt, s', ?_, back, spares, fun _ => asked, either, fun q got => ⟨status, fun inside => ?_⟩⟩
    · have marked : ¬BitVec.setWidth 16 (rxHeader (s.receiver rx.ptr).rxBuf (readOffset (s.receiver rx.ptr))) = 0 := status
      rw [rtlPass, header]
      simp only [if_neg marked]
      exact (ends_bind_of_returns _ _ _ _ passed).mpr ((ends_pure _ _).mpr rfl)
    · have place : rx.ptr + (wrapPtr s.rxPtr).setWidth 32 + 4 = rx.ptr + BitVec.ofNat 32 (readOffset (s.receiver rx.ptr) + 4) := by
        rw [show readOffset (s.receiver rx.ptr) = (wrapPtr s.rxPtr).toNat from rfl]
        bv_omega
      have width : ((rxSize (s.receiver rx.ptr) - 4).setWidth 32).toNat = (rxSize (s.receiver rx.ptr) - 4).toNat := by bv_omega
      rw [content rx own small _ place (by omega) q got, place, netCpyPkt, bytes]
      refine congrArg (PktBuf.mk _) (List.map_congr_left (fun i _ => ?_))
      simp only [Handler.receiver, BitVec.ofNat_add, BitVec.add_assoc]

end Passes

-- Calls and writes of all who use the heap, with the card among them as it
-- writes to rx_buf, and passes of the handler.
inductive SystemStep (limit : Nat) : ClientRun → ClientRun → Prop
  | client (r r' : ClientRun) (step : ClientStep limit r r') : SystemStep limit r r'
  | pass (r : ClientRun) (rx : Live) (own : rx ∈ r.live) (ptr : BitVec 16) (reads : List Read) (s' : Handler)
      (returned : (rtlPass rx.ptr ⟨r.heap, ptr, reads⟩).Returns s') : SystemStep limit r { r with heap := s'.heap }

section Runs

variable {base stop limit : Nat} (top : stop + 8192 < 2 ^ 32) (sums : limit + 23 < 2 ^ 32)

include top sums

theorem pass_in_system (r : ClientRun) (stored : Stored base stop limit r) (bs : List Block) (whole : Whole base stop r.heap bs r.live) (rx : Live)
    (own : rx ∈ r.live) (ptr : BitVec 16) (reads : List Read) :
    ∃ s', (rtlPass rx.ptr ⟨r.heap, ptr, reads⟩).Returns s' ∧ Stored base stop limit { r with heap := s'.heap } ∧
      Whole base stop s'.heap bs r.live := by
  have small := stored.small rx own
  obtain ⟨buf, pkt, heap, returned, back, spares, -⟩ := rtl_pass_returns (s := ⟨r.heap, ptr, reads⟩) whole top rx own (by omega)
  refine ⟨_, returned, ⟨⟨bs, back.toHeld⟩, stored.small, fun l member i inside value put => ?_⟩, back⟩
  have small' := stored.small l member
  exact (spares l member (by omega) i inside).trans (stored.data l member i inside value put)

theorem whole_client (r r' : ClientRun) (stored : Stored base stop limit r) (bs : List Block) (whole : Whole base stop r.heap bs r.live)
    (step : ClientStep limit r r') : ∃ bs', Whole base stop r'.heap bs' r'.live := by
  cases step with
  | call r' step =>
      obtain ⟨bs', whole', -⟩ := whole.call top step
      exact ⟨bs', whole'⟩
  | write l i value own inside =>
      have small := stored.small l own
      exact ⟨bs, whole.toHeld.put l own (by omega) i inside value, whole.settled⟩

theorem system_step (r r' : ClientRun) (good : Stored base stop limit r ∧ ∃ bs, Whole base stop r.heap bs r.live)
    (step : SystemStep limit r r') : Stored base stop limit r' ∧ ∃ bs, Whole base stop r'.heap bs r'.live := by
  obtain ⟨stored, bs, whole⟩ := good
  cases step with
  | client r' step => exact ⟨stored_step top sums r r' stored step, whole_client top sums r r' stored bs whole step⟩
  | pass rx own ptr reads s' returned =>
      obtain ⟨t, returned', stored', back⟩ := pass_in_system top sums r stored bs whole rx own ptr reads
      obtain rfl := returns_unique _ _ _ returned returned'
      exact ⟨stored', bs, back⟩

theorem dma_steps (r : ClientRun) (stored : Stored base stop limit r) (bs : List Block) (whole : Whole base stop r.heap bs r.live) (rx : Live)
    (own : rx ∈ r.live) (writes : Dma) (inside : ∀ w ∈ writes, w.1 < rx.size.toNat) :
    ∃ contents : Word → Nat → Option Byte, (∀ ptr, ptr ≠ rx.ptr → contents ptr = r.contents ptr) ∧
      Reaches (SystemStep limit) r { r with heap := dma rx.ptr writes r.heap, contents := contents } ∧
      Stored base stop limit { r with heap := dma rx.ptr writes r.heap, contents := contents } ∧
      Whole base stop (dma rx.ptr writes r.heap) bs r.live := by
  induction writes generalizing r with
  | nil => exact ⟨r.contents, fun _ _ => rfl, .refl, stored, whole⟩
  | cons w writes ih =>
      have here := inside w List.mem_cons_self
      have small := stored.small rx own
      have step : ClientStep limit r _ := .write r rx w.1 w.2 own here
      have written := whole.toHeld.put rx own (by omega) w.1 here w.2
      obtain ⟨contents, others, steps, stored', whole'⟩ :=
        ih ⟨⟨{ r.heap with mem := Function.update r.heap.mem (rx.ptr + BitVec.ofNat 32 w.1) w.2 }, r.live⟩,
          Function.update r.contents rx.ptr (Function.update (r.contents rx.ptr) w.1 (some w.2))⟩
          (stored_step top sums r _ stored step) ⟨written, whole.settled⟩ own (fun v member => inside v (List.mem_cons_of_mem w member))
      exact ⟨contents, fun ptr other => (others ptr other).trans (Function.update_of_ne other _ _), .head (.client _ _ step) steps, stored',
        whole'⟩

theorem handler_steps (r : ClientRun) (stored : Stored base stop limit r) (bs : List Block) (whole : Whole base stop r.heap bs r.live) (rx : Live)
    (own : rx ∈ r.live) (card : List Dma) (inside : ∀ writes ∈ card, ∀ w ∈ writes, w.1 < rx.size.toNat) (ptr : BitVec 16) (reads : List Read) :
    ∃ s' contents, (card.foldlM (fun s writes => rtlPass rx.ptr { s with heap := dma rx.ptr writes s.heap })
        (⟨r.heap, ptr, reads⟩ : Handler)).Returns s' ∧
      (∀ ptr, ptr ≠ rx.ptr → contents ptr = r.contents ptr) ∧
      Reaches (SystemStep limit) r { r with heap := s'.heap, contents := contents } ∧ Whole base stop s'.heap bs r.live := by
  induction card generalizing r ptr reads with
  | nil => exact ⟨_, r.contents, (ends_pure _ _).mpr rfl, fun _ _ => rfl, .refl, whole⟩
  | cons writes card ih =>
      obtain ⟨contents, others, steps, stored₁, whole₁⟩ := dma_steps top sums r stored bs whole rx own writes (inside writes List.mem_cons_self)
      obtain ⟨s₁, returned, stored₂, whole₂⟩ := pass_in_system top sums { r with heap := dma rx.ptr writes r.heap, contents := contents } stored₁ bs
        whole₁ rx own ptr reads
      obtain ⟨s', contents', rest, others', steps', whole'⟩ := ih { r with heap := s₁.heap, contents := contents } stored₂ whole₂ own
        (fun later member => inside later (List.mem_cons_of_mem writes member)) s₁.rxPtr s₁.reads
      refine ⟨s', contents', ?_, fun p other => (others' p other).trans (others p other), ?_, whole'⟩
      · rw [List.foldlM_cons]
        exact (ends_bind_of_returns _ _ _ _ returned).mpr rest
      · have pass : SystemStep limit { r with heap := dma rx.ptr writes r.heap, contents := contents } { r with heap := s₁.heap, contents := contents } :=
          .pass { r with heap := dma rx.ptr writes r.heap, contents := contents } rx own ptr reads s₁ returned
        exact (steps.tail pass).trans steps'

end Runs

theorem receive_leaves_heap (start size : Word) (m : Mem) (s : Heap) (init : kheapInit start size m = .ok s) (room : 20 ≤ size.toNat)
    (top : start.toNat + size.toNat + 8192 < 2 ^ 32) (limit : Nat) (sums : limit + 23 < 2 ^ 32) (r : ClientRun)
    (run : Reaches (SystemStep limit) (.initial s) r) :
    Stored start.toNat (start.toNat + size.toNat) limit r ∧
    ∀ rx ∈ r.live, ∀ (flags ptr : BitVec 16) (reads : List Read) (card : List Dma), (∀ writes ∈ card, ∀ w ∈ writes, w.1 < rx.size.toNat) →
      ∃ s' contents, (rtlIsrHandler rx.ptr flags card ⟨r.heap, ptr, reads⟩).Returns s' ∧
        (∀ ptr, ptr ≠ rx.ptr → contents ptr = r.contents ptr) ∧
        Reaches (SystemStep limit) r { r with heap := s'.heap, contents := contents } ∧
        ∀ bs, WellFormed start.toNat (start.toNat + size.toNat) r.heap bs → WellFormed start.toNat (start.toNat + size.toNat) s'.heap bs := by
  have begin : Stored start.toNat (start.toNat + size.toNat) limit (.initial s) ∧
      ∃ bs, Whole start.toNat (start.toNat + size.toNat) s bs [] := by
    obtain ⟨bs, whole⟩ := whole_initial start size m s init room top
    exact ⟨⟨⟨bs, whole.toHeld⟩, (fun l member => by cases member), (fun l member => by cases member)⟩, bs, whole⟩
  obtain ⟨stored, bs, whole⟩ := Run.invariant _ (fun r r' good step => system_step top sums r r' good step) _ r begin run
  refine ⟨stored, fun rx own flags ptr reads card inside => ?_⟩
  by_cases received : flags &&& ROK ≠ 0
  · obtain ⟨s', contents, returned, others, steps, whole'⟩ := handler_steps top sums r stored bs whole rx own card inside ptr reads
    refine ⟨s', contents, by rwa [rtlIsrHandler, if_pos received], others, steps, fun cs list => ?_⟩
    exact well_formed_unique _ _ r.heap bs cs whole.wf list ▸ whole'.wf
  · refine ⟨⟨r.heap, ptr, reads⟩, r.contents, ?_, fun _ _ => rfl, .refl, fun _ list => list⟩
    rw [rtlIsrHandler, if_neg received]
    exact (ends_pure _ _).mpr rfl

theorem receive_leaves_heap_after_two : ∃ s r, kheapInit 0xC0200000 0x1000 (fun _ => 0) = .ok s ∧
    Reaches (SystemStep 0x1000) (.initial s) r ∧ r.live = [⟨0xC0200014, 100, false⟩] ∧
    ∃ s', (rtlIsrHandler 0xC0200014 ROK [[(0, 1), (2, 12), (4, 0xAA)], [(12, 1), (15, 1)]] ⟨r.heap, 0, []⟩).Returns s' ∧
      ∀ bs, WellFormed 0xC0200000 0xC0201000 r.heap bs → WellFormed 0xC0200000 0xC0201000 s'.heap bs := by
  obtain ⟨s, init⟩ := kheap_init_ok 0xC0200000 0x1000 (fun _ => 0) (by decide)
  have wf := kheap_init_list 0xC0200000 0x1000 _ s init (by decide) (by decide)
  obtain ⟨s', returned, _⟩ := kmalloc_int_serves 100 false [] [] ⟨0xC0200000, 0x1000, false⟩ wf (by decide) (by simp) (by decide)
    (by simp)
  have call : ClientStep 0x1000 (.initial s) ⟨⟨s', [⟨0xC0200014, 100, false⟩]⟩, _⟩ :=
    .call _ _ (.kmalloc (.initial s) 100 _ s' (by decide) returned)
  have run : Reaches (SystemStep 0x1000) (.initial s) _ := .single (.client _ _ call)
  obtain ⟨-, interrupts⟩ := receive_leaves_heap 0xC0200000 0x1000 _ s init (by decide) (by decide) 0x1000 (by decide) _ run
  obtain ⟨t, -, received, -, -, list⟩ := interrupts ⟨0xC0200014, 100, false⟩ (List.mem_singleton.mpr rfl) ROK 0 []
    [[(0, 1), (2, 12), (4, 0xAA)], [(12, 1), (15, 1)]] (by decide)
  exact ⟨s, _, init, run, rfl, t, received, list⟩

end Deimos.Rtl
