import Deimos.Rtl.Neutral

set_option autoImplicit false

namespace Deimos.Rtl

open Mem Tiling Comp Run Kalloc

structure System where
  run : HeapRun
  rxPtr : BitVec 16
  handling : Bool
  writeOffset : Nat
  placed : List Put
  reads : List Read

def System.handler (s : System) : Handler := ⟨s.run.heap, s.rxPtr, s.reads⟩

def System.receiver (rx : Live) (s : System) : Receiver :=
  ⟨fun i => s.run.heap.mem (rx.ptr + BitVec.ofNat 32 i), s.rxPtr, s.handling, s.writeOffset, s.placed, s.reads⟩

def System.store (m : Mem) (s : System) : System := { s with run := { s.run with heap := { s.run.heap with mem := m } } }

def System.passed (h : Handler) (s : System) : System :=
  { s with run := { s.run with heap := h.heap }, rxPtr := h.rxPtr, reads := h.reads }

def System.delivered (rx : Live) (f : Frame) (s : System) : System :=
  { s.store (s.run.heap.mem.put (rx.ptr + BitVec.ofNat 32 s.writeOffset) f.wire) with
    writeOffset := roundUp (s.writeOffset + 4 + f.bytes.length) % RING
    placed := s.placed ++ [⟨s.writeOffset, f⟩] }

-- The kernel allocates, frees and writes, but leaves rx_buf to the driver; the
-- card delivers while there is room and the frame ends inside the buffer.
inductive TrafficStep (limit : Nat) (rx : Live) (s : System) : System → Prop
  | call (r' : HeapRun) (step : Kalloc.Step limit s.run r') (kept : rx ∈ r'.live) : TrafficStep limit rx s { s with run := r' }
  | write (l : Live) (i : Nat) (value : Byte) (own : l ∈ s.run.live) (inside : i < l.size.toNat) (other : l.ptr ≠ rx.ptr) :
      TrafficStep limit rx s (s.store (Function.update s.run.heap.mem (l.ptr + BitVec.ofNat 32 i) value))
  | deliver (f : Frame) (room : total (s.placed.drop s.reads.length) + f.room ≤ RING)
      (inside : s.writeOffset + 4 + f.bytes.length ≤ RX_BUF_BYTES) : TrafficStep limit rx s (s.delivered rx f)
  | interrupt (idle : s.handling = false) : TrafficStep limit rx s { s with handling := true }
  | receive (h : Handler) (handling : s.handling = true) (some : s.reads.length < s.placed.length)
      (returned : (rtlPass rx.ptr s.handler).Returns h) : TrafficStep limit rx s (s.passed h)
  | leave (handling : s.handling = true) (none : s.placed.length ≤ s.reads.length) : TrafficStep limit rx s { s with handling := false }

def Agrees (u : Receiver) (mem : Nat → Byte) : Prop := ∀ i < RX_BUF_BYTES, mem i = u.rxBuf i

section Passes

variable (t : Receiver)

theorem before_wrap_same (u : Receiver) (placed : t.placed = u.placed) (count : t.reads.length = u.reads.length) :
    BeforeWrap t ↔ BeforeWrap u := by
  rw [BeforeWrap, BeforeWrap, count]
  simp only [start, placed]

theorem synced_header (inv : ReceiveInv t) (before : BeforeWrap (rtlReceive true t)) (p : Put) (found : t.placed[t.reads.length]? = some p) :
    readOffset t + 4 ≤ RING ∧ rxStatus t = p.frame.status ∧ rxSize t = p.frame.size := by
  obtain ⟨earlier, near⟩ := (before_wrap_receive t true).mp before
  obtain ⟨ptr, -⟩ := inv.synced earlier
  have aligned : 4 ∣ start t t.reads.length := total_aligned _
  have here : readOffset t = start t t.reads.length := by
    unfold RING at near
    rw [readOffset, wrap_to_nat, ptr, if_neg (by omega)]
  have put : p.offset = start t t.reads.length := (inv.offsets _ _ found).trans (Nat.mod_eq_of_lt near)
  have holds := inv.holds _ _ (Nat.le_refl _) found
  rw [put, ← here] at holds
  have header := header_read _ _ _ holds
  refine ⟨?_, ?_, ?_⟩
  · unfold RING at near ⊢
    omega
  · rw [rxStatus, header]
    exact (header_fields _ _).1
  · rw [rxSize, header]
    exact (header_fields _ _).2

theorem synced_inside (inv : ReceiveInv t) (some : ¬BufferEmpty t) (before : BeforeWrap (rtlReceive true t)) : Inside true t := by
  have unread : t.reads.length < t.placed.length := Nat.lt_of_not_le some
  have found : t.placed[t.reads.length]? = .some t.placed[t.reads.length] := List.getElem?_eq_getElem unread
  obtain ⟨near, -, size⟩ := synced_header t inv before _ found
  have long := t.placed[t.reads.length].frame.long
  have short := t.placed[t.reads.length].frame.short
  unfold RING at near
  refine (inside_iff true t).mpr ⟨?_, fun _ _ => ?_⟩
  · rw [size, size_to_nat]
    omega
  · rw [size, size_to_nat]
    unfold RX_BUF_BYTES
    omega

theorem inside_either (served : Bool) (inside : Inside true t) : Inside served t := by
  cases served with
  | true => exact inside
  | false =>
      have fits := (inside_iff true t).mp inside
      exact (inside_iff false t).mpr ⟨fits.long, fun _ none => nomatch none⟩

theorem header_agrees (mem : Nat → Byte) (agrees : Agrees t mem) : rxHeader mem (readOffset t) = rxHeader t.rxBuf (readOffset t) := by
  have inside := header_inside t
  have byte (i : Nat) (low : i < 4) : mem (readOffset t + i) = t.rxBuf (readOffset t + i) := agrees _ (by omega)
  rw [rxHeader, rxHeader, byte 3 (by decide), byte 2 (by decide), byte 1 (by decide)]
  exact congrArg (_ ++ ·) (byte 0 (by decide))

theorem agreeing_fields (mem : Nat → Byte) (agrees : Agrees t mem) :
    rxStatus { t with rxBuf := mem } = rxStatus t ∧ rxSize { t with rxBuf := mem } = rxSize t := by
  have header := header_agrees t mem agrees
  exact ⟨congrArg (BitVec.setWidth 16) header, congrArg (fun word : Word => (word >>> 16).setWidth 16) header⟩

theorem agreeing_pass (mem : Nat → Byte) (agrees : Agrees t mem) (served : Bool) (inside : Inside served { t with rxBuf := mem }) :
    rtlReceive served { t with rxBuf := mem } = { rtlReceive served t with rxBuf := mem } := by
  have same : rtlReceive served t = { rtlReceive served { t with rxBuf := mem } with rxBuf := t.rxBuf } := by
    refine receive_reads served { t with rxBuf := mem } t.rxBuf (fun access member i before => (agrees _ ?_).symm)
    exact Nat.lt_of_lt_of_le (Nat.add_lt_add_left before _) (inside.reads access member)
  rw [same]
  rfl

end Passes

-- The k-th read was a pass that asked kmalloc for memory for the frame's packet,
-- and passed the packet up just if there was some.
def PassedUp (limit : Nat) (rx : Live) (s₀ s : System) (k : Nat) (r : Read) (f : Frame) : Prop :=
  ∃ t h buf heap, Reaches (TrafficStep limit rx) s₀ t ∧ t.reads.length = k ∧ (rtlPass rx.ptr t.handler).Returns h ∧ h.reads = t.reads ++ [r] ∧
    Reaches (TrafficStep limit rx) (t.passed h) s ∧ (kmalloc (f.packet.len + Net.pktBufSize) t.run.heap).Returns (buf, heap) ∧
    r.pkt = if buf = 0 then none else some f.packet

def Logged (limit : Nat) (rx : Live) (s₀ s : System) : Prop :=
  BeforeWrap (s.receiver rx) → ∀ (k : Nat) r p, s.reads[k]? = some r → s.placed[k]? = some p → PassedUp limit rx s₀ s k r p.frame

-- The system's heap is whole, and as long as the card has not wrapped before a
-- frame that was read, the driver is where a driver of the ring alone would be.
structure Flowing (base stop limit : Nat) (rx : Live) (t₀ : Receiver) (s : System) : Prop where
  whole : ∃ bs, Whole base stop s.run.heap bs s.run.live
  small : ∀ l ∈ s.run.live, l.size.toNat ≤ limit
  own : rx ∈ s.run.live
  behind : s.reads.length ≤ s.placed.length
  follows : BeforeWrap (s.receiver rx) → ∃ mem, Agrees (s.receiver rx) mem ∧ Reaches ReceiveStep t₀ { s.receiver rx with rxBuf := mem }

section Steps

variable {base stop limit : Nat} {rx : Live} {t₀ : Receiver} {s : System}

theorem step_small (r r' : HeapRun) (small : ∀ l ∈ r.live, l.size.toNat ≤ limit) (step : Kalloc.Step limit r r') : ∀ l ∈ r'.live, l.size.toNat ≤ limit := by
  have kept (align : Bool) (size ptr : Word) (fits : size.toNat ≤ limit) : ∀ l ∈ keep align size ptr r.live, l.size.toNat ≤ limit := by
    intro l member
    rw [keep] at member
    split at member
    · exact small l member
    · rcases List.mem_cons.mp member with rfl | old
      · exact fits
      · exact small l old
  cases step with
  | kmalloc size ptr s fits _ => exact kept false size ptr fits
  | kmallocA size ptr s fits _ => exact kept true size ptr fits
  | kfree ptr s _ _ => exact fun l member => small l (List.mem_of_mem_filter member)

theorem before_pass (h : Handler) (r : Read) (reads : h.reads = s.reads ++ [r]) (before : BeforeWrap ((s.passed h).receiver rx))
    (mem : Nat → Byte) : BeforeWrap (rtlReceive true { s.receiver rx with rxBuf := mem }) := by
  have count : (rtlReceive true { s.receiver rx with rxBuf := mem }).reads.length = h.reads.length := by
    rw [reads, List.length_append]
    exact List.length_append
  exact (before_wrap_same (rtlReceive true { s.receiver rx with rxBuf := mem }) ((s.passed h).receiver rx) rfl count).mpr before

theorem Flowing.next_header (flowing : Flowing base stop limit rx t₀ s) (fresh : Fresh t₀)
    (before : ∀ mem, BeforeWrap (rtlReceive true { s.receiver rx with rxBuf := mem })) (p : Put) (found : s.placed[s.reads.length]? = some p) :
    rxStatus (s.receiver rx) = p.frame.status ∧ rxSize (s.receiver rx) = p.frame.size := by
  obtain ⟨mem, agrees, steps⟩ := flowing.follows ((before_wrap_receive (s.receiver rx) true).mp (before (s.receiver rx).rxBuf)).1
  have inv := invariant ReceiveInv receive_step_inv t₀ _ (fresh_inv t₀ fresh) steps
  obtain ⟨-, status, size⟩ := synced_header { s.receiver rx with rxBuf := mem } inv (before mem) p found
  obtain ⟨status', size'⟩ := agreeing_fields (s.receiver rx) mem agrees
  exact ⟨status'.symm.trans status, size'.symm.trans size⟩

theorem Flowing.elsewhere (flowing : Flowing base stop limit rx t₀ s) (large : RX_BUF_BYTES ≤ rx.size.toNat) (r' : HeapRun)
    (whole : ∃ bs, Whole base stop r'.heap bs r'.live) (small : ∀ l ∈ r'.live, l.size.toNat ≤ limit) (own : rx ∈ r'.live)
    (same : ∀ i < rx.size.toNat, r'.heap.mem (rx.ptr + BitVec.ofNat 32 i) = s.run.heap.mem (rx.ptr + BitVec.ofNat 32 i)) :
    Flowing base stop limit rx t₀ { s with run := r' } := by
  refine ⟨whole, small, own, flowing.behind, fun before => ?_⟩
  obtain ⟨mem, agrees, steps⟩ := flowing.follows before
  exact ⟨mem, fun i inside => (agrees i inside).trans (same i (Nat.lt_of_lt_of_le inside large)).symm, steps⟩

variable (flowing : Flowing base stop limit rx t₀ s) (top : stop + 8192 < 2 ^ 32) (sums : limit + 23 < 2 ^ 32)
  (large : RX_BUF_BYTES ≤ rx.size.toNat)

include flowing sums large

theorem flowing_write (l : Live) (i : Nat) (value : Byte) (own : l ∈ s.run.live) (inside : i < l.size.toNat) (other : l.ptr ≠ rx.ptr) :
    Flowing base stop limit rx t₀ (s.store (Function.update s.run.heap.mem (l.ptr + BitVec.ofNat 32 i) value)) := by
  obtain ⟨bs, whole⟩ := flowing.whole
  have small := flowing.small l own
  have small' := flowing.small rx flowing.own
  refine flowing.elsewhere large _ ⟨bs, whole.toHeld.put l own (by omega) i inside value, whole.settled⟩ flowing.small flowing.own (fun j near => ?_)
  refine Function.update_of_ne (fun same => other ?_) _ _
  exact (whole.toHeld.bytes_apart l rx own flowing.own (by omega) (by omega) i j inside near same.symm).1

theorem flowing_deliver (f : Frame) (room : total (s.placed.drop s.reads.length) + f.room ≤ RING)
    (inside : s.writeOffset + 4 + f.bytes.length ≤ RX_BUF_BYTES) : Flowing base stop limit rx t₀ (s.delivered rx f) := by
  obtain ⟨bs, whole⟩ := flowing.whole
  have small := flowing.small rx flowing.own
  have length := wire_length f
  have outside : ∀ x : Word, rx.size.toNat ≤ (x - rx.ptr).toNat →
      s.run.heap.mem.put (rx.ptr + BitVec.ofNat 32 s.writeOffset) f.wire x = s.run.heap.mem x :=
    fun x far => put_outside _ _ _ _ (by bv_omega)
  have written := (whole.scribble flowing.own (by omega) _ outside).1
  refine ⟨⟨bs, written⟩, flowing.small, flowing.own, ?_, fun before => ?_⟩
  · change s.reads.length ≤ (s.placed ++ [_]).length
    rw [List.length_append]
    exact Nat.le_succ_of_le flowing.behind
  · obtain ⟨mem, agrees, steps⟩ := flowing.follows ((before_wrap_deliver (s.receiver rx) flowing.behind f).mp before)
    refine ⟨Ring.write mem s.writeOffset f.wire, fun i near => ?_, steps.tail (.deliver f room)⟩
    have old : mem i = s.run.heap.mem (rx.ptr + BitVec.ofNat 32 i) := agrees i near
    change Ring.write mem s.writeOffset f.wire i =
      s.run.heap.mem.put (rx.ptr + BitVec.ofNat 32 s.writeOffset) f.wire (rx.ptr + BitVec.ofNat 32 i)
    unfold RX_BUF_BYTES at near inside
    by_cases above : s.writeOffset ≤ i
    · have place : (rx.ptr + BitVec.ofNat 32 i - (rx.ptr + BitVec.ofNat 32 s.writeOffset)).toNat = i - s.writeOffset := by bv_omega
      rw [Ring.write, if_pos above, put, place, List.getD_eq_getElem?_getD, old]
    · rw [Ring.write, if_neg above, put_outside _ _ _ _ (by bv_omega), old]

include top

theorem flowing_receive (fresh : Fresh t₀) (h : Handler) (some : s.reads.length < s.placed.length) (handling : s.handling = true)
    (returned : (rtlPass rx.ptr s.handler).Returns h) : Flowing base stop limit rx t₀ (s.passed h) := by
  obtain ⟨bs, whole⟩ := flowing.whole
  have small := flowing.small rx flowing.own
  obtain ⟨buf, pkt, heap, returned', back, spares, -, either, taken⟩ := rtl_pass_returns (s := s.handler) whole top rx flowing.own (by omega)
  obtain rfl := returns_unique _ _ _ returned returned'
  have kept : ∀ i < rx.size.toNat, heap.mem (rx.ptr + BitVec.ofNat 32 i) = s.run.heap.mem (rx.ptr + BitVec.ofNat 32 i) :=
    spares rx flowing.own (by omega)
  refine ⟨⟨bs, back⟩, flowing.small, flowing.own, ?_, fun before => ?_⟩
  · change (s.reads ++ [_]).length ≤ s.placed.length
    rw [List.length_append]
    exact some
  · have after := before_pass (s.handler.after rx.ptr buf pkt heap) _ rfl before
    obtain ⟨mem, agrees, steps⟩ := flowing.follows ((before_wrap_receive (s.receiver rx) true).mp (after (s.receiver rx).rxBuf)).1
    have inv := invariant ReceiveInv receive_step_inv t₀ _ (fresh_inv t₀ fresh) steps
    have unread : ¬BufferEmpty { s.receiver rx with rxBuf := mem } := Nat.not_le.mpr some
    have inside := synced_inside _ inv unread (after mem)
    obtain ⟨status, size⟩ := agreeing_fields (s.receiver rx) mem agrees
    have reach (marked : rxStatus (s.receiver rx) ≠ 0) :
        readOffset (s.receiver rx) + 4 + (rxSize (s.receiver rx) - 4).toNat ≤ rx.size.toNat := by
      have piece := inside.reads _ (copied_access true _ (ne_of_eq_of_ne status marked) rfl)
      rw [size] at piece
      exact Nat.le_trans piece large
    have got : pkt = if rxStatus (s.receiver rx) = 0 then none
        else if decide (buf ≠ 0) then
          .some (netCpyPkt (s.receiver rx).rxBuf (readOffset (s.receiver rx) + 4) ((rxSize (s.receiver rx) - 4).setWidth 32))
        else none := taken.copied either reach
    have same : { (s.passed (s.handler.after rx.ptr buf pkt heap)).receiver rx with rxBuf := mem } =
        rtlReceive (decide (buf ≠ 0)) { s.receiver rx with rxBuf := mem } := by
      rw [agreeing_pass (s.receiver rx) mem agrees _ (inside_either _ _ inside), receive_pass, ← got]
      rfl
    refine ⟨mem, fun i near => (agrees i near).trans (kept i (Nat.lt_of_lt_of_le near large)).symm, ?_⟩
    rw [same]
    exact steps.tail (.receive _ handling unread)

theorem flowing_step (fresh : Fresh t₀) (s' : System) (step : TrafficStep limit rx s s') : Flowing base stop limit rx t₀ s' := by
  obtain ⟨bs, whole⟩ := flowing.whole
  have small := flowing.small rx flowing.own
  cases step with
  | call r' step kept =>
      obtain ⟨bs', whole', spares⟩ := whole.call top step
      exact flowing.elsewhere large r' ⟨bs', whole'⟩ (step_small s.run r' flowing.small step) kept
        (spares rx flowing.own kept rx (List.mem_singleton.mpr rfl) (by omega))
  | write l i value own inside other => exact flowing_write flowing sums large l i value own inside other
  | deliver f room inside => exact flowing_deliver flowing sums large f room inside
  | interrupt idle =>
      refine ⟨⟨bs, whole⟩, flowing.small, flowing.own, flowing.behind, fun before => ?_⟩
      obtain ⟨mem, agrees, steps⟩ := flowing.follows before
      exact ⟨mem, agrees, steps.tail (.interrupt idle)⟩
  | receive h handling some returned => exact flowing_receive flowing top sums large fresh h some handling returned
  | leave handling none =>
      refine ⟨⟨bs, whole⟩, flowing.small, flowing.own, flowing.behind, fun before => ?_⟩
      obtain ⟨mem, agrees, steps⟩ := flowing.follows before
      exact ⟨mem, agrees, steps.tail (.leave handling none)⟩

end Steps

theorem small_of_runs (limit : Nat) (heap : Heap) (r : HeapRun) (held : Runs limit heap r) : ∀ l ∈ r.live, l.size.toNat ≤ limit :=
  Run.invariant (fun r : HeapRun => ∀ l ∈ r.live, l.size.toNat ≤ limit) (fun r r' small step => step_small r r' small step) _ r
    (fun l member => by cases member) held

section Log

variable {base stop limit : Nat} {rx : Live} {s₀ s s' : System}

theorem PassedUp.later {k : Nat} {r : Read} {f : Frame} (passed : PassedUp limit rx s₀ s k r f) (step : TrafficStep limit rx s s') :
    PassedUp limit rx s₀ s' k r f := by
  obtain ⟨t, h, buf, heap, earlier, place, returned, last, later, answered, outcome⟩ := passed
  exact ⟨t, h, buf, heap, earlier, place, returned, last, later.tail step, answered, outcome⟩

theorem logged_receive (t₀ : Receiver) (fresh : Fresh t₀) (flowing : Flowing base stop limit rx t₀ s) (top : stop + 8192 < 2 ^ 32)
    (sums : limit + 23 < 2 ^ 32) (reached : Reaches (TrafficStep limit rx) s₀ s) (h : Handler)
    (returned : (rtlPass rx.ptr s.handler).Returns h) (after : Flowing base stop limit rx t₀ (s.passed h))
    (before : BeforeWrap ((s.passed h).receiver rx)) (p : Put) (found : s.placed[s.reads.length]? = some p) :
    ∃ r, h.reads = s.reads ++ [r] ∧ PassedUp limit rx s₀ (s.passed h) s.reads.length r p.frame := by
  obtain ⟨bs, whole⟩ := flowing.whole
  have small := flowing.small rx flowing.own
  obtain ⟨buf, pkt, heap, returned', -, -, asked, -⟩ := rtl_pass_returns (s := s.handler) whole top rx flowing.own (by omega)
  obtain rfl := returns_unique _ _ _ returned returned'
  refine ⟨_, rfl, ?_⟩
  obtain ⟨mem', -, steps'⟩ := after.follows before
  have matched := ((invariant ReceiveInv receive_step_inv _ _ (fresh_inv t₀ fresh) steps').synced before).2 s.reads.length _ p
    List.getElem?_concat_length found
  obtain ⟨status, size⟩ := flowing.next_header fresh (before_pass (s.handler.after rx.ptr buf pkt heap) _ rfl before) p found
  have marked : rxStatus (s.receiver rx) ≠ 0 := status ▸ p.frame.marked
  obtain ⟨t, answered⟩ := asked marked
  have len : (rxSize (s.receiver rx) - 4).setWidth 32 = p.frame.packet.len := by
    rw [size, packet_len]
  exact ⟨s, _, buf, t, reached, rfl, returned, rfl, .refl, len ▸ answered, by simpa using matched.pkt⟩

theorem logged_step (t₀ : Receiver) (fresh : Fresh t₀) (flowing : Flowing base stop limit rx t₀ s) (top : stop + 8192 < 2 ^ 32)
    (sums : limit + 23 < 2 ^ 32) (reached : Reaches (TrafficStep limit rx) s₀ s) (logged : Logged limit rx s₀ s)
    (step : TrafficStep limit rx s s') (after : Flowing base stop limit rx t₀ s') : Logged limit rx s₀ s' := by
  intro before k r p read found
  cases step with
  | call r' call kept => exact (logged before k r p read found).later (.call r' call kept)
  | write l i value own inside other => exact (logged before k r p read found).later (.write l i value own inside other)
  | deliver f room inside =>
      have old : s.placed[k]? = some p := by
        rw [← found]
        exact (List.getElem?_append_left (Nat.lt_of_lt_of_le (found_inside read) flowing.behind)).symm
      have earlier := (before_wrap_deliver (s.receiver rx) flowing.behind f).mp before
      exact (logged earlier k r p read old).later (.deliver f room inside)
  | interrupt idle => exact (logged before k r p read found).later (.interrupt idle)
  | receive h handling some returned =>
      have next : s.placed[s.reads.length]? = .some s.placed[s.reads.length] := List.getElem?_eq_getElem some
      obtain ⟨r', reads, passed⟩ := logged_receive t₀ fresh flowing top sums reached h returned after before _ next
      change h.reads[k]? = .some r at read
      rw [reads] at read
      rcases found_concat read with old | ⟨rfl, rfl⟩
      · have earlier := (before_wrap_receive (s.receiver rx) true).mp (before_pass h r' reads before _)
        exact (logged earlier.1 k r p old found).later (.receive h handling some returned)
      · obtain rfl : _ = p := Option.some.inj (next.symm.trans found)
        exact passed
  | leave handling none => exact (logged before k r p read found).later (.leave handling none)

end Log

def System.started (r : HeapRun) : System := ⟨r, 0, false, 0, [], []⟩

section Runs

variable (start size : Word) (m : Mem) (heap : Heap) (init : kheapInit start size m = .ok heap) (room : 20 ≤ size.toNat)
  (top : start.toNat + size.toNat + 8192 < 2 ^ 32) (limit : Nat) (sums : limit + 23 < 2 ^ 32) (r : HeapRun) (held : Runs limit heap r)
  (rx : Live) (own : rx ∈ r.live) (large : RX_BUF_BYTES ≤ rx.size.toNat) (s : System) (run : Reaches (TrafficStep limit rx) (.started r) s)

include init room top sums held own large run

theorem flowing_of_runs :
    Flowing start.toNat (start.toNat + size.toNat) limit rx ((System.started r).receiver rx) s ∧ Logged limit rx (.started r) s := by
  have begin := whole_of_runs start size m heap init room top limit r held
  have small := small_of_runs limit heap r held
  have fresh : Fresh ((System.started r).receiver rx) := ⟨rfl, rfl, rfl, rfl⟩
  have first : Flowing start.toNat (start.toNat + size.toNat) limit rx ((System.started r).receiver rx) (.started r) :=
    ⟨begin, small, own, Nat.le_refl _, fun _ => ⟨_, fun _ _ => rfl, .refl⟩⟩
  have none : Logged limit rx (.started r) (.started r) := fun _ k read put found _ => absurd (found_inside found) (Nat.not_lt_zero k)
  induction run with
  | refl => exact ⟨first, none⟩
  | tail reached step ih =>
      have after := flowing_step ih.1 top sums large fresh _ step
      exact ⟨after, logged_step _ fresh ih.1 top sums reached ih.2 step after⟩

-- From the card to net_rx_pkt: while the kernel allocates, frees and writes as
-- it likes elsewhere, every frame that is read before the card first wraps is
-- passed up in its turn with its own bytes, unless the pass that read it was
-- given no memory by kmalloc. The heap stays whole in any case, and the next
-- pass comes to its end.
theorem frames_passed_up :
    (∃ bs, Whole start.toNat (start.toNat + size.toNat) s.run.heap bs s.run.live) ∧ (∃ h, (rtlPass rx.ptr s.handler).Returns h) ∧
    (BeforeWrap (s.receiver rx) → Synced (s.receiver rx) ∧
      ∀ (k : Nat) read put, s.reads[k]? = some read → s.placed[k]? = some put → PassedUp limit rx (.started r) s k read put.frame) := by
  obtain ⟨flowing, logged⟩ := flowing_of_runs start size m heap init room top limit sums r held rx own large s run
  have fresh : Fresh ((System.started r).receiver rx) := ⟨rfl, rfl, rfl, rfl⟩
  obtain ⟨bs, whole⟩ := flowing.whole
  have limited := flowing.small rx flowing.own
  obtain ⟨buf, pkt, heap', returned, -⟩ := rtl_pass_returns (s := s.handler) whole top rx flowing.own (by omega)
  refine ⟨⟨bs, whole⟩, ⟨_, returned⟩, fun before => ⟨?_, logged before⟩⟩
  obtain ⟨mem, agrees, steps⟩ := flowing.follows before
  have inv := invariant ReceiveInv receive_step_inv _ _ (fresh_inv _ fresh) steps
  exact ⟨inv.behind, (inv.synced before).2⟩

end Runs

theorem first_served (heap : Heap) (whole : Whole 0xC0200000 0xC0400000 heap
      [⟨0xC0200000, 0xFEC, false⟩, ⟨0xC0200FEC, 0x8600, true⟩, ⟨0xC02095EC, 0x1F6A14, false⟩] [⟨0xC0201000, 34284, true⟩]) :
    ∃ s', (kmalloc 68 { heap with mem := heap.mem.put (0xC0201000 + BitVec.ofNat 32 0) shortest.wire }).Returns (0xC0200014, s') := by
  have wire := wire_length shortest
  have long : shortest.bytes.length = 64 := rfl
  have list := (whole.scribble (List.mem_singleton.mpr rfl) (by decide) (heap.mem.put (0xC0201000 + BitVec.ofNat 32 0) shortest.wire)
    (fun x far => put_outside _ _ _ _ (by bv_omega))).1.wf
  obtain ⟨s', served, -⟩ := kmalloc_int_serves 68 false [] _ _ list (by decide) (by simp) (by decide) (by simp)
  exact ⟨s', served⟩

theorem frames_passed_up_at_first : ∃ heap r s read, kheapInit 0xC0200000 0x200000 (fun _ => 0) = .ok heap ∧ Runs 0x200000 heap r ∧
    Reaches (TrafficStep 0x200000 ⟨0xC0201000, 34284, true⟩) (.started r) s ∧ s.placed = [⟨0, shortest⟩] ∧ s.reads = [read] ∧
    read.pkt = some shortest.packet ∧ PassedUp 0x200000 ⟨0xC0201000, 34284, true⟩ (.started r) s 0 read shortest := by
  obtain ⟨heap, init⟩ := kheap_init_ok 0xC0200000 0x200000 (fun _ => 0) (by decide)
  have wf := kheap_init_list 0xC0200000 0x200000 _ heap init (by decide) (by decide)
  obtain ⟨heap', returned, ring⟩ := kmalloc_int_serves 34284 true [] [] ⟨0xC0200000, 0x200000, false⟩ wf (by decide) (by simp) (by decide)
    (by decide)
  have held : Runs 0x200000 heap ⟨heap', [⟨0xC0201000, 34284, true⟩]⟩ := .single (.kmallocA (.initial heap) 34284 _ heap' (by decide) returned)
  have own : (⟨0xC0201000, 34284, true⟩ : Live) ∈ [(⟨0xC0201000, 34284, true⟩ : Live)] := List.mem_singleton.mpr rfl
  have room : total [] + shortest.room ≤ RING := by decide
  have inside : 0 + 4 + shortest.bytes.length ≤ RX_BUF_BYTES := by decide
  obtain ⟨s, shown, before⟩ : ∃ s, s = { (System.started ⟨heap', [⟨0xC0201000, 34284, true⟩]⟩).delivered ⟨0xC0201000, 34284, true⟩ shortest with
      handling := true } ∧ Reaches (TrafficStep 0x200000 ⟨0xC0201000, 34284, true⟩) (.started ⟨heap', [⟨0xC0201000, 34284, true⟩]⟩) s :=
    ⟨_, rfl, .tail (.single (.deliver shortest room inside)) (.interrupt rfl)⟩
  have reads : s.reads = [] := congrArg System.reads shown
  have placed : s.placed = [⟨0, shortest⟩] := congrArg System.placed shown
  obtain ⟨flowing, -⟩ := flowing_of_runs 0xC0200000 0x200000 _ heap init (by decide) (by decide) 0x200000 (by decide) _ held
    ⟨0xC0201000, 34284, true⟩ own (by decide) s before
  obtain ⟨bs, whole⟩ := flowing.whole
  obtain ⟨buf, pkt, heap₂, pass, -, -, asked, -⟩ :=
    rtl_pass_returns (s := s.handler) whole (by decide) ⟨0xC0201000, 34284, true⟩ flowing.own (by decide)
  have run := before.tail (.receive _ (congrArg System.handling shown) (by rw [reads, placed]; exact Nat.zero_lt_one) pass)
  have one : (s.passed (s.handler.after 0xC0201000 buf pkt heap₂)).reads = [⟨readOffset (s.handler.receiver 0xC0201000), decide (buf ≠ 0), pkt⟩] := by
    change s.reads ++ [_] = _
    rw [reads]
    rfl
  have first : BeforeWrap ((s.passed (s.handler.after 0xC0201000 buf pkt heap₂)).receiver ⟨0xC0201000, 34284, true⟩) := fun k read => by
    have few : k < 1 := Nat.lt_of_lt_of_eq read (congrArg List.length one)
    obtain rfl := Nat.lt_one_iff.mp few
    exact Nat.zero_lt_succ _
  have given : buf ≠ 0 := by
    obtain ⟨status, size⟩ := flowing.next_header ⟨rfl, rfl, rfl, rfl⟩ (before_pass _ _ rfl first) ⟨0, shortest⟩ (by rw [reads, placed]; rfl)
    obtain ⟨t, answered⟩ := asked (status ▸ shortest.marked)
    obtain ⟨⟨bs₀, whole₀⟩, -⟩ := (flowing_of_runs 0xC0200000 0x200000 _ heap init (by decide) (by decide) 0x200000 (by decide) _ held
      ⟨0xC0201000, 34284, true⟩ own (by decide) _ .refl).1
    obtain rfl := well_formed_unique _ _ heap' _ _ whole₀.wf ring.after
    obtain ⟨heap₃, served⟩ := first_served heap' whole₀
    change (kmalloc ((rxSize (s.receiver ⟨0xC0201000, 34284, true⟩) - 4).setWidth 32 + Net.pktBufSize) s.run.heap).Returns (buf, t) at answered
    rw [size, shown] at answered
    obtain ⟨rfl, -⟩ := Prod.mk.inj (returns_unique _ _ _ served answered)
    decide
  obtain ⟨synced, logged⟩ := (frames_passed_up 0xC0200000 0x200000 _ heap init (by decide) (by decide) 0x200000 (by decide) _ held
    ⟨0xC0201000, 34284, true⟩ own (by decide) _ run).2.2 first
  have read : (s.passed (s.handler.after 0xC0201000 buf pkt heap₂)).reads[0]? =
      some ⟨readOffset (s.handler.receiver 0xC0201000), decide (buf ≠ 0), pkt⟩ := by rw [one]; rfl
  have matched := synced.step 0 _ ⟨0, shortest⟩ read (congrArg (·[0]?) placed)
  refine ⟨heap, _, _, _, init, held, run, placed, one, ?_, logged 0 _ ⟨0, shortest⟩ read (congrArg (·[0]?) placed)⟩
  rw [matched.pkt, if_pos (decide_eq_true given)]

end Deimos.Rtl
