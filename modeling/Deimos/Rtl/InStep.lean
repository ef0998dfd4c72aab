import Deimos.Rtl.Receive

set_option autoImplicit false

namespace Deimos.Rtl

open Run

-- A frame without its checksum, as it is passed up.
def Frame.packet (f : Frame) : PktBuf := ⟨BitVec.ofNat 32 (f.bytes.length - 4), f.bytes.take (f.bytes.length - 4)⟩

section Pass

variable (f : Frame) (mem : Nat → Byte) (p : Nat)

theorem wire_length : f.wire.length = 4 + f.bytes.length := by
  rw [Frame.wire, List.length_append]
  rfl

theorem size_to_nat : f.size.toNat = f.bytes.length := by
  have short := f.short
  exact Nat.mod_eq_of_lt (by omega)

theorem bytes_join (x y : BitVec 16) :
    ((y >>> 8).setWidth 8 ++ y.setWidth 8 ++ (x >>> 8).setWidth 8 ++ x.setWidth 8 : Word) = y ++ x := by
  apply BitVec.eq_of_getLsbD_eq
  intro i small
  simp only [BitVec.getLsbD_append, BitVec.getLsbD_setWidth, BitVec.getLsbD_ushiftRight]
  grind

theorem header_read (holds : Ring.Holds mem p f.wire) : rxHeader mem p = f.size ++ f.status := by
  have byte (i : Nat) (x : Byte) (found : f.wire[i]? = some x) : mem (p + i) = x := holds i x found
  have first := byte 0 _ rfl
  rw [Nat.add_zero] at first
  rw [rxHeader, byte 3 _ rfl, byte 2 _ rfl, byte 1 _ rfl, first]
  exact bytes_join f.status f.size

theorem header_fields (size status : BitVec 16) :
    ((size ++ status : Word).setWidth 16 : BitVec 16) = status ∧ (((size ++ status : Word) >>> 16).setWidth 16 : BitVec 16) = size := by
  constructor
  all_goals
    apply BitVec.eq_of_getLsbD_eq
    intro i small
    simp only [BitVec.getLsbD_append, BitVec.getLsbD_setWidth, BitVec.getLsbD_ushiftRight]
    grind

theorem packet_len : (f.size - 4).setWidth 32 = f.packet.len := by
  have long := f.long
  have short := f.short
  have size := size_to_nat f
  have less : (f.size - 4).toNat = f.bytes.length - 4 := by bv_omega
  apply BitVec.eq_of_toNat_eq
  rw [BitVec.toNat_setWidth, less]
  rfl

theorem packet_copied (holds : Ring.Holds mem p f.wire) : netCpyPkt mem (p + 4) ((f.size - 4).setWidth 32) = f.packet := by
  have short := f.short
  have count : f.packet.len.toNat = f.bytes.length - 4 := Nat.mod_eq_of_lt (by omega)
  have data : Ring.Holds mem (p + 4) f.bytes := holds.append.2
  rw [packet_len, netCpyPkt, count, data.range _ (by omega)]
  rfl

theorem receive_frame (served : Bool) (s : Receiver) (holds : Ring.Holds s.rxBuf (wrapPtr s.rxPtr).toNat f.wire) :
    rtlReceive served s =
      { s with
        rxPtr := nextPtr (wrapPtr s.rxPtr) f.size
        reads := s.reads ++ [⟨(wrapPtr s.rxPtr).toNat, served, if served then some f.packet else none⟩] } := by
  obtain ⟨status, size⟩ := header_fields f.size f.status
  simp only [rtlReceive, header_read f s.rxBuf _ holds, status, size, if_neg f.marked, packet_copied f s.rxBuf _ holds]

end Pass

section Pointer

variable (ptr size : BitVec 16)

theorem next_value : (nextPtr ptr size).toNat = (ptr.toNat + size.toNat + 7) / 4 * 4 % 65536 := by
  have mask (x : Word) : x &&& (~~~3 : Word) = (x >>> 2) <<< 2 := by
    apply BitVec.eq_of_getLsbD_eq
    intro i small
    have three : (3 : Word).getLsbD i = decide (i < 2) := by
      revert i
      decide
    simp only [BitVec.getLsbD_and, BitVec.getLsbD_not, three, BitVec.getLsbD_shiftLeft, BitVec.getLsbD_ushiftRight]
    grind
  have four : (4 : Word).toNat = 4 := rfl
  have three : (3 : Word).toNat = 3 := rfl
  rw [nextPtr, mask]
  simp only [BitVec.toNat_setWidth, BitVec.toNat_shiftLeft, BitVec.toNat_ushiftRight, BitVec.toNat_add, Nat.shiftLeft_eq,
    Nat.shiftRight_eq_div_pow, four, three]
  have bound := ptr.isLt
  have bound' := size.isLt
  omega

theorem next_to_nat (small : ptr.toNat + size.toNat + 7 < 65536) :
    (nextPtr ptr size).toNat = (ptr.toNat + size.toNat + 7) / 4 * 4 := by
  rw [next_value]
  omega

theorem wrap_to_nat : (wrapPtr ptr).toNat = if 32768 < ptr.toNat then ptr.toNat % 32 * 1024 else ptr.toNat := by
  have bound := ptr.isLt
  have test : (ptr.setWidth 32 > (32 * 1024 : Word)) ↔ 32768 < ptr.toNat := by
    rw [gt_iff_lt, BitVec.lt_def, BitVec.toNat_setWidth, Nat.mod_eq_of_lt (by omega)]
    exact Iff.rfl
  simp only [wrapPtr, test]
  by_cases past : 32768 < ptr.toNat
  · rw [if_pos past, if_pos past, BitVec.toNat_setWidth, BitVec.toNat_mul, BitVec.toNat_umod, BitVec.toNat_setWidth]
    change ptr.toNat % 2 ^ 32 % 32 * 1024 % 2 ^ 32 % 2 ^ 16 = _
    omega
  · rw [if_neg past, if_neg past]

end Pointer

section Totals

theorem room_bounds (f : Frame) : 4 + f.bytes.length ≤ f.room ∧ f.room ≤ 1524 ∧ 4 ∣ f.room := by
  have short := f.short
  refine ⟨?_, ?_, Nat.dvd_mul_left 4 _⟩
  · unfold Frame.room roundUp
    omega
  · unfold Frame.room roundUp
    omega

theorem total_concat (frames : List Put) (p : Put) : total (frames ++ [p]) = total frames + p.frame.room := by
  simp [total]

theorem total_append (frames more : List Put) : total (frames ++ more) = total frames + total more := by
  simp [total]

theorem total_aligned (frames : List Put) : 4 ∣ total frames := by
  induction frames with
  | nil => exact Nat.dvd_zero 4
  | cons p rest ih => exact Nat.dvd_add (room_bounds p.frame).2.2 ih

end Totals

def start (s : Receiver) (n : Nat) : Nat := total (s.placed.take n)

section Starts

variable (s : Receiver)

theorem start_next (n : Nat) (p : Put) (found : s.placed[n]? = some p) : start s (n + 1) = start s n + p.frame.room := by
  rw [start, List.take_add_one, found]
  exact total_concat _ p

theorem start_mono (m n : Nat) (less : m ≤ n) : start s m ≤ start s n := by
  have split : s.placed.take n = s.placed.take m ++ (s.placed.take n).drop m := by
    have inner := List.take_append_drop m (s.placed.take n)
    rw [List.take_take, Nat.min_eq_left less] at inner
    exact inner.symm
  rw [start, start, split, total_append]
  exact Nat.le_add_right _ _

theorem start_deliver (f : Frame) (n : Nat) (inside : n ≤ s.placed.length) : start (deliver f s) n = start s n := by
  rw [start, deliver, List.take_append_of_le_length inside]
  rfl

end Starts

structure Matches (r : Read) (p : Put) : Prop where
  offset : r.offset = p.offset
  pkt : r.pkt = if r.served then some p.frame.packet else none

structure Synced (s : Receiver) : Prop where
  behind : s.reads.length ≤ s.placed.length
  step : ∀ (k : Nat) r p, s.reads[k]? = some r → s.placed[k]? = some p → Matches r p

def BeforeWrap (s : Receiver) : Prop := ∀ k < s.reads.length, start s k < RING

structure Fresh (s : Receiver) : Prop where
  rxPtr : s.rxPtr = 0
  writeOffset : s.writeOffset = 0
  placed : s.placed = []
  reads : s.reads = []

structure ReceiveInv (s : Receiver) : Prop where
  behind : s.reads.length ≤ s.placed.length
  offsets : ∀ (k : Nat) p, s.placed[k]? = some p → p.offset = start s k % RING
  write : s.writeOffset = start s s.placed.length % RING
  room : start s s.placed.length ≤ start s s.reads.length + RING
  holds : ∀ (k : Nat) p, s.reads.length ≤ k → s.placed[k]? = some p → Ring.Holds s.rxBuf p.offset p.frame.wire
  synced : BeforeWrap s → s.rxPtr.toNat = start s s.reads.length ∧
    ∀ (k : Nat) r p, s.reads[k]? = some r → s.placed[k]? = some p → Matches r p
  lost : ¬BeforeWrap s → ∃ (k : Nat), ∃ r p, s.reads[k]? = some r ∧ s.placed[k]? = some p ∧ r.offset ≠ p.offset

theorem start_unread (s : Receiver) : start s s.placed.length = start s s.reads.length + total (s.placed.drop s.reads.length) := by
  rw [start, start, List.take_length, ← total_append, List.take_append_drop]

theorem before_wrap_deliver (s : Receiver) (behind : s.reads.length ≤ s.placed.length) (f : Frame) :
    BeforeWrap (deliver f s) ↔ BeforeWrap s := by
  apply forall₂_congr
  intro k (read : k < s.reads.length)
  rw [start_deliver s f k (by omega)]

theorem before_wrap_receive (s : Receiver) (served : Bool) :
    BeforeWrap (rtlReceive served s) ↔ BeforeWrap s ∧ start s s.reads.length < RING := by
  have size : (rtlReceive served s).reads.length = s.reads.length + 1 := List.length_append
  unfold BeforeWrap
  rw [size]
  constructor
  · exact fun all => ⟨fun k read => all k (Nat.lt_succ_of_lt read), all s.reads.length (Nat.lt_succ_self _)⟩
  · rintro ⟨all, here⟩ k read
    rcases Nat.lt_succ_iff_lt_or_eq.mp read with earlier | rfl
    · exact all k earlier
    · exact here

theorem fresh_inv (s : Receiver) (fresh : Fresh s) : ReceiveInv s := by
  obtain ⟨rxPtr, writeOffset, placed, reads⟩ := fresh
  have none : s.reads.length = 0 := by rw [reads]; rfl
  have origin : start s 0 = 0 := rfl
  refine ⟨by simp [none], by simp [placed], ?_, ?_, by simp [placed], fun _ => ⟨?_, by simp [reads]⟩, fun late => ?_⟩
  · rw [writeOffset, placed]
    rfl
  · rw [placed]
    exact Nat.zero_le _
  · rw [rxPtr, none, origin]
    rfl
  · exact absurd (fun k small => absurd small (by simp [none])) late

theorem found_concat {α : Type} {xs : List α} {x y : α} {k : Nat} (found : (xs ++ [x])[k]? = some y) :
    xs[k]? = some y ∨ k = xs.length ∧ y = x := by
  rcases Nat.lt_trichotomy k xs.length with inside | last | past
  · rw [List.getElem?_append_left inside] at found
    exact .inl found
  · subst last
    rw [List.getElem?_concat_length] at found
    exact .inr ⟨rfl, (Option.some.inj found).symm⟩
  · rw [List.getElem?_eq_none (by rw [List.length_append, List.length_singleton]; omega)] at found
    exact nomatch found

theorem found_inside {α : Type} {xs : List α} {y : α} {k : Nat} (found : xs[k]? = some y) : k < xs.length :=
  (List.getElem?_eq_some_iff.mp found).1

section Steps

variable (s : Receiver) (inv : ReceiveInv s)

include inv

theorem deliver_inv (f : Frame) (room : total (s.placed.drop s.reads.length) + f.room ≤ RING) : ReceiveInv (deliver f s) := by
  have behind := inv.behind
  have size : (deliver f s).placed.length = s.placed.length + 1 := List.length_append
  have old (k : Nat) (inside : k ≤ s.placed.length) : start (deliver f s) k = start s k := start_deliver s f k inside
  have last : start (deliver f s) (s.placed.length + 1) = start s s.placed.length + f.room := by
    rw [start_next (deliver f s) s.placed.length _ List.getElem?_concat_length, old _ (Nat.le_refl _)]
  have fits : start s s.placed.length + f.room ≤ start s s.reads.length + RING := by
    have split := start_unread s
    omega
  have wrap := before_wrap_deliver s behind f
  have earlier (k : Nat) (p : Put) (read : k < s.reads.length) : (deliver f s).placed[k]? = some p ↔ s.placed[k]? = some p := by
    change (s.placed ++ [_])[k]? = some p ↔ _
    rw [List.getElem?_append_left (by omega)]
  refine ⟨?_, fun k p found => ?_, ?_, ?_, fun k p unread found => ?_, fun before => ?_, fun late => ?_⟩
  · rw [size]
    exact Nat.le_succ_of_le behind
  · rcases found_concat found with inner | ⟨rfl, rfl⟩
    · rw [old k (Nat.le_of_lt (found_inside inner))]
      exact inv.offsets k p inner
    · rw [old _ (Nat.le_refl _)]
      exact inv.write
  · rw [size, last]
    change roundUp (s.writeOffset + 4 + f.bytes.length) % RING = _
    have aligned := total_aligned (s.placed.take s.placed.length)
    have write := inv.write
    rw [start] at write ⊢
    rw [write]
    unfold RING Frame.room roundUp
    omega
  · rw [size, last]
    change _ ≤ start (deliver f s) s.reads.length + RING
    rw [old _ behind]
    exact fits
  · rcases found_concat found with inner | ⟨rfl, rfl⟩
    · apply Ring.holds_write_apart (inv.holds k p unread inner)
      have after := start_mono s (k + 1) s.placed.length (found_inside inner)
      have before : start s s.reads.length ≤ start s k := start_mono s _ _ unread
      rw [start_next s k p inner] at after
      rw [inv.write, inv.offsets k p inner, wire_length, wire_length]
      have here := (room_bounds f).1
      have there := (room_bounds p.frame).1
      exact (Ring.wrap_apart RING (start s k) (start s s.placed.length) (4 + p.frame.bytes.length) (4 + f.bytes.length) (by omega)
        (by omega) (by omega)).symm
    · exact Ring.holds_write
  · obtain ⟨ptr, matched⟩ := inv.synced (wrap.mp before)
    refine ⟨?_, fun k r p read found => matched k r p read ((earlier k p (found_inside read)).mp found)⟩
    change s.rxPtr.toNat = start (deliver f s) s.reads.length
    rw [old _ behind]
    exact ptr
  · obtain ⟨k, r, p, read, found, other⟩ := inv.lost (mt wrap.mpr late)
    exact ⟨k, r, p, read, (earlier k p (found_inside read)).mpr found, other⟩

-- The driver's pointer still counts without wrapping when it first comes to the end of the ring.
theorem first_wrap (before : BeforeWrap s) (p : Put) (found : s.placed[s.reads.length]? = some p)
    (past : RING ≤ start s s.reads.length) : (wrapPtr s.rxPtr).toNat ≠ p.offset := by
  have ptr := (inv.synced before).1
  have aligned : 4 ∣ start s s.reads.length := total_aligned _
  have near : start s s.reads.length < RING + 1524 := by
    cases count : s.reads.length with
    | zero =>
        rw [count] at past
        exact absurd (show 32768 ≤ 0 from past) (by decide)
    | succ n =>
        have read : n < s.reads.length := by omega
        have inside : n < s.placed.length := Nat.lt_of_lt_of_le read inv.behind
        have here := before n read
        rw [start_next s n _ (List.getElem?_eq_getElem inside)]
        have bound := (room_bounds (s.placed[n]).frame).2.1
        omega
  rw [wrap_to_nat, ptr, inv.offsets _ p found]
  unfold RING at past near ⊢
  split <;> omega

theorem receive_inv (served : Bool) (some : ¬BufferEmpty s) : ReceiveInv (rtlReceive served s) := by
  have unread : s.reads.length < s.placed.length := Nat.lt_of_not_le some
  have found : s.placed[s.reads.length]? = .some s.placed[s.reads.length] := List.getElem?_eq_getElem unread
  obtain ⟨r, reads, offset⟩ : ∃ r, (rtlReceive served s).reads = s.reads ++ [r] ∧ r.offset = (wrapPtr s.rxPtr).toNat := ⟨_, rfl, rfl⟩
  have size : (rtlReceive served s).reads.length = s.reads.length + 1 := by rw [reads, List.length_append, List.length_singleton]
  have same (k : Nat) : start (rtlReceive served s) k = start s k := rfl
  have wrap := before_wrap_receive s served
  have earlier (k : Nat) (x : Read) (read : s.reads[k]? = .some x) : (rtlReceive served s).reads[k]? = .some x := by
    rw [reads, List.getElem?_append_left (found_inside read)]
    exact read
  refine ⟨?_, inv.offsets, inv.write, ?_, fun k p later => ?_, fun before => ?_, fun late => ?_⟩
  · rw [size]
    exact unread
  · rw [size]
    exact Nat.le_trans inv.room (Nat.add_le_add_right (start_mono s _ _ (Nat.le_succ _)) RING)
  · rw [size] at later
    exact inv.holds k p (Nat.le_of_succ_le later)
  · obtain ⟨before, inside⟩ := wrap.mp before
    obtain ⟨ptr, matched⟩ := inv.synced before
    have here : (wrapPtr s.rxPtr).toNat = start s s.reads.length := by
      rw [wrap_to_nat, ptr, if_neg (by unfold RING at inside; omega)]
    have put : s.placed[s.reads.length].offset = start s s.reads.length := by
      rw [inv.offsets _ _ found]
      exact Nat.mod_eq_of_lt inside
    have holds := inv.holds _ _ (Nat.le_refl _) found
    rw [put, ← here] at holds
    have pass := receive_frame _ served s holds
    refine ⟨?_, fun k x p read put' => ?_⟩
    · have short := (s.placed[s.reads.length]).frame.short
      have aligned : 4 ∣ start s s.reads.length := total_aligned _
      rw [size, same, start_next s _ _ found, pass]
      unfold RING at inside
      rw [next_to_nat _ _ (by rw [here, size_to_nat]; omega), here, size_to_nat]
      unfold Frame.room roundUp
      omega
    · rw [pass] at read
      rcases found_concat read with old | ⟨rfl, rfl⟩
      · exact matched k x p old put'
      · cases found.symm.trans put'
        exact ⟨here.trans put.symm, rfl⟩
  · by_cases before : BeforeWrap s
    · have past : RING ≤ start s s.reads.length := Nat.le_of_not_lt (fun inside => late (wrap.mpr ⟨before, inside⟩))
      refine ⟨s.reads.length, r, _, ?_, found, ?_⟩
      · rw [reads, List.getElem?_concat_length]
      · rw [offset]
        exact first_wrap s inv before _ found past
    · obtain ⟨k, x, p, read, put, other⟩ := inv.lost before
      exact ⟨k, x, p, earlier k x read, put, other⟩

end Steps

theorem receive_step_inv (s s' : Receiver) (inv : ReceiveInv s) (step : ReceiveStep s s') : ReceiveInv s' := by
  cases step with
  | deliver f room => exact deliver_inv s inv f room
  | interrupt _ => exact ⟨inv.behind, inv.offsets, inv.write, inv.room, inv.holds, inv.synced, inv.lost⟩
  | receive served _ some => exact receive_inv s inv served some
  | leave _ _ => exact ⟨inv.behind, inv.offsets, inv.write, inv.room, inv.holds, inv.synced, inv.lost⟩

-- However the frames are grouped into interrupts, the driver has read them in
-- step with the card exactly when none of them started after the first wrap.
theorem receive_in_step_iff (s₀ s : Receiver) (fresh : Fresh s₀) (run : Reaches ReceiveStep s₀ s) : Synced s ↔ BeforeWrap s := by
  have inv := invariant ReceiveInv receive_step_inv s₀ s (fresh_inv s₀ fresh) run
  constructor
  · intro synced
    by_contra late
    obtain ⟨k, r, p, read, found, other⟩ := inv.lost late
    exact other (synced.step k r p read found).offset
  · exact fun before => ⟨inv.behind, (inv.synced before).2⟩

def quiet : Receiver := ⟨fun _ => 0, 0, false, 0, [], []⟩

theorem quiet_fresh : Fresh quiet := ⟨rfl, rfl, rfl, rfl⟩

def blank (n : Nat) (long : 64 ≤ n) (short : n ≤ 1518) : Frame :=
  ⟨1, List.replicate n 0, by decide, by rw [List.length_replicate]; exact long, by rw [List.length_replicate]; exact short⟩

theorem blank_room (n : Nat) (long : 64 ≤ n) (short : n ≤ 1518) : (blank n long short).room = roundUp (4 + n) := by
  rw [Frame.room, blank, List.length_replicate]

def shortest : Frame := blank 64 (by decide) (by decide)
def longest : Frame := blank 1518 (by decide) (by decide)

def twoRead : Receiver := rtlReceive false (rtlReceive true { deliver longest (deliver shortest quiet) with handling := true })

theorem receive_in_step_at_second : Reaches ReceiveStep quiet twoRead ∧ twoRead.reads.length = 2 ∧ Synced twoRead := by
  have size : longest.room = 1524 := blank_room 1518 _ _
  have behind : (deliver shortest quiet).placed.drop (deliver shortest quiet).reads.length = [⟨0, shortest⟩] := rfl
  have room : total ((deliver shortest quiet).placed.drop (deliver shortest quiet).reads.length) + longest.room ≤ RING := by
    rw [behind, size]
    decide
  have stored : Reaches ReceiveStep quiet (deliver longest (deliver shortest quiet)) :=
    .tail (.single (.deliver shortest (by decide))) (.deliver longest room)
  have entered := stored.tail (.interrupt rfl)
  have unread : ∀ s : Receiver, s.placed.length = 2 → s.reads.length < 2 → ¬BufferEmpty s := fun s two fewer => by
    rw [BufferEmpty, two]
    exact Nat.not_le_of_lt fewer
  have first := entered.tail (.receive true rfl (unread _ rfl Nat.two_pos))
  have run : Reaches ReceiveStep quiet twoRead := first.tail (.receive false rfl (unread _ rfl Nat.one_lt_two))
  refine ⟨run, rfl, (receive_in_step_iff quiet twoRead quiet_fresh run).mpr (fun k read => ?_)⟩
  match k, read with
  | 0, _ => exact Nat.zero_lt_succ _
  | 1, _ => exact show total [⟨0, shortest⟩] < RING by decide

theorem traffic (f : Frame) (n : Nat) :
    ∃ s, Reaches ReceiveStep quiet s ∧ s.handling = true ∧ s.reads.length = n ∧ s.placed.length = n ∧ ∀ p ∈ s.placed, p.frame = f := by
  induction n with
  | zero => exact ⟨{ quiet with handling := true }, .single (.interrupt rfl), rfl, rfl, rfl, fun p none => absurd none List.not_mem_nil⟩
  | succ n ih =>
      obtain ⟨s, run, handling, reads, placed, same⟩ := ih
      have room : total (s.placed.drop s.reads.length) + f.room ≤ RING := by
        have bound := (room_bounds f).2.1
        rw [List.drop_eq_nil_of_le (by omega)]
        change 0 + f.room ≤ 32768
        omega
      have more : (deliver f s).placed.length = n + 1 := by
        rw [← placed]
        exact List.length_append
      have unread : ¬BufferEmpty (deliver f s) := by
        unfold BufferEmpty
        rw [more]
        exact Nat.not_le_of_lt (by rw [← reads]; exact Nat.lt_succ_self _)
      refine ⟨rtlReceive true (deliver f s), (run.tail (.deliver f room)).tail (.receive true handling unread), handling, ?_, more, ?_⟩
      · rw [← reads]
        exact List.length_append
      · intro p member
        rcases List.mem_append.mp member with old | new
        · exact same p old
        · rw [List.mem_singleton.mp new]

theorem total_same (f : Frame) (frames : List Put) (same : ∀ p ∈ frames, p.frame = f) : total frames = frames.length * f.room := by
  induction frames with
  | nil => exact (Nat.zero_mul _).symm
  | cons p rest ih =>
      rw [List.length_cons, Nat.succ_mul, ← ih (fun q member => same q (List.mem_cons_of_mem p member)), ← same p List.mem_cons_self]
      exact Nat.add_comm _ _

theorem receive_out_of_step : ¬∀ s₀ s, Fresh s₀ → Reaches ReceiveStep s₀ s → Synced s := by
  intro claim
  obtain ⟨s, run, -, reads, placed, same⟩ := traffic longest 23
  have inv := invariant ReceiveInv receive_step_inv quiet s (fresh_inv quiet quiet_fresh) run
  have synced := claim quiet s quiet_fresh run
  have late : ¬BeforeWrap s := by
    intro before
    have bound := before 22 (by omega)
    have count : start s 22 = 22 * longest.room := by
      rw [start, total_same longest _ (fun p member => same p (List.mem_of_mem_take member)), List.length_take, placed,
        Nat.min_eq_left (by decide)]
    have size : longest.room = 1524 := blank_room 1518 _ _
    rw [count, size] at bound
    exact absurd (show 33528 < 32768 from bound) (by decide)
  obtain ⟨k, r, p, read, found, other⟩ := inv.lost late
  exact other (synced.step k r p read found).offset

end Deimos.Rtl
