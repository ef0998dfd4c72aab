import Deimos.Error
import Deimos.Lib.Bytes
import Deimos.Lib.Comp

set_option autoImplicit false

namespace Deimos.Str

open Comp

-- The loop that strncpy and strncat share, over i, s1p and s2p. Only what goes
-- through s2p counts as read.
def copyBody (n : Word) (state : Word × Word × Word × Traced) : Except Stop (Iter (Word × Word × Word × Traced) (Word × Word × Traced)) :=
  let (i, s1p, s2p, t) := state
  let (c, t) := t.fetch s2p
  if c ≠ 0 ∧ i < n then
    let (c, t) := t.fetch s2p
    .ok (.next (i + 1, s1p + 1, s2p + 1, t.store s1p c))
  else .ok (.done (i, s1p, t))

-- The second loop of strncpy.
def padBody (n : Word) (state : Word × Word × Traced) : Except Stop (Iter (Word × Word × Traced) Traced) :=
  let (i, s1p, t) := state
  if i < n then .ok (.next (i + 1, s1p + 1, t.store s1p 0)) else .ok (.done t)

-- The first loop of strncat.
def seekBody (m : Mem) (s1p : Word) : Except Stop (Iter Word Word) :=
  if m s1p ≠ 0 then .ok (.next (s1p + 1)) else .ok (.done s1p)

def strncpy (s1 s2 n : Word) (t : Traced) : Comp Stop (Word × Traced) := do
  let (i, s1p, t) ← loop (copyBody n) (0, s1, s2, t)
  let t ← loop (padBody n) (i, s1p, t)
  pure (s1, t)

def strncat (s1 s2 n : Word) (t : Traced) : Comp Stop (Word × Traced) := do
  let s1p ← loop (seekBody t.mem) s1
  let (_, s1p, t) ← loop (copyBody n) (0, s1p, s2, t)
  pure (s1, t.store s1p 0)

def content (m : Mem) (s n : Word) : List Byte := (m.bytes s n.toNat).takeWhile (· ≠ 0)

section Content

variable (m : Mem) (s n : Word)

theorem content_length : (content m s n).length = (m.bytes s n.toNat).findIdx (fun c => !decide (c ≠ 0)) := by
  rw [content, List.takeWhile_eq_take_findIdx_not, List.length_take]
  exact Nat.min_eq_left (List.findIdx_le_length)

theorem content_le : (content m s n).length ≤ n.toNat := by
  rw [content_length]
  refine Nat.le_trans List.findIdx_le_length (Nat.le_of_eq ?_)
  simp [Mem.bytes]

theorem content_byte (i : Nat) (inside : i < (content m s n).length) :
    (content m s n)[i] = m (s + BitVec.ofNat 32 i) ∧ m (s + BitVec.ofNat 32 i) ≠ 0 := by
  have before := inside
  rw [content_length] at before
  have nonzero := List.not_of_lt_findIdx before
  have same : (content m s n)[i] = (m.bytes s n.toNat).get ⟨i, Nat.lt_of_lt_of_le before List.findIdx_le_length⟩ :=
    (List.takeWhile_prefix _).getElem inside
  rw [same]
  simp [Mem.bytes] at nonzero ⊢
  exact nonzero

theorem content_end (short : (content m s n).length < n.toNat) : m (s + BitVec.ofNat 32 (content m s n).length) = 0 := by
  have length : n.toNat = (m.bytes s n.toNat).length := by simp [Mem.bytes]
  rw [content_length] at short
  have zero := List.findIdx_getElem (w := Nat.lt_of_lt_of_eq short length)
  rw [content_length]
  simpa [Mem.bytes] using zero

theorem content_short_iff : (content m s n).length < n.toNat ↔ ∃ i < n.toNat, m (s + BitVec.ofNat 32 i) = 0 := by
  refine ⟨fun short => ⟨_, short, content_end m s n short⟩, ?_⟩
  rintro ⟨i, inside, zero⟩
  by_contra full
  exact (content_byte m s n i (by omega)).2 zero

end Content

structure Copied (m : Mem) (d s n : Word) (k : Nat) (t : Traced) : Prop where
  mem : t.mem = m.put d ((content m s n).take k)
  writes : ∀ x, x ∈ t.writes ↔ ∃ i < k, x = d + BitVec.ofNat 32 i
  reads : ∀ x, x ∈ t.reads ↔ ∃ i < k, x = s + BitVec.ofNat 32 i

section Loops

variable (m : Mem) (d s n : Word) (t : Traced)

theorem upto_succ (a x : Word) (k : Nat) (members : List Word) (upto : ∀ x, x ∈ members ↔ ∃ i < k, x = a + BitVec.ofNat 32 i) :
    x ∈ (a + BitVec.ofNat 32 k) :: members ↔ ∃ i < k + 1, x = a + BitVec.ofNat 32 i := by
  rw [List.mem_cons, upto]
  constructor
  · rintro (rfl | ⟨i, before, rfl⟩)
    · exact ⟨k, Nat.lt_succ_self k, rfl⟩
    · exact ⟨i, Nat.lt_succ_of_lt before, rfl⟩
  · rintro ⟨i, upto, rfl⟩
    rcases Nat.lt_succ_iff_lt_or_eq.mp upto with before | rfl
    · exact .inr ⟨i, before, rfl⟩
    · exact .inl rfl

-- The byte read next is the original one, as long as the bytes written so far
-- are none of the source's.
theorem Copied.source (k : Nat) (copied : Copied m d s n k t) (apart : ∀ i < k, d + BitVec.ofNat 32 i ≠ s + BitVec.ofNat 32 k) :
    t.mem (s + BitVec.ofNat 32 k) = m (s + BitVec.ofNat 32 k) := by
  rw [copied.mem]
  refine Mem.put_apart _ _ _ _ (fun i inside => (apart i ?_).symm)
  exact Nat.lt_of_lt_of_le inside (List.length_take_le k _)

theorem Copied.next (k : Nat) (copied : Copied m d s n k t) (inside : k < (content m s n).length)
    (apart : ∀ i < k, d + BitVec.ofNat 32 i ≠ s + BitVec.ofNat 32 k) :
    Copied m d s n (k + 1) (((t.fetch (s + BitVec.ofNat 32 k)).2.fetch (s + BitVec.ofNat 32 k)).2.store (d + BitVec.ofNat 32 k)
      (t.mem (s + BitVec.ofNat 32 k))) where
  mem := by
    have bound := content_le m s n
    have here : t.mem (s + BitVec.ofNat 32 k) = (content m s n)[k] :=
      (copied.source m d s n t k apart).trans (content_byte m s n k inside).1.symm
    have count : ((content m s n).take k).length = k := List.length_take_of_le (Nat.le_of_lt inside)
    have next := Mem.put_next m d ((content m s n).take k) (content m s n)[k] (by omega)
    rw [count, List.take_append_getElem] at next
    rw [here, Traced.store, Traced.fetch, Traced.fetch, copied.mem]
    exact next
  writes x := upto_succ d x k t.writes copied.writes
  reads x := by
    rw [← upto_succ s x k t.reads copied.reads]
    change x ∈ (s + BitVec.ofNat 32 k) :: (s + BitVec.ofNat 32 k) :: t.reads ↔ _
    simp

theorem copy_loop (apart : ∀ i < (content m s n).length, ∀ j < n.toNat, j ≤ (content m s n).length →
      d + BitVec.ofNat 32 i ≠ s + BitVec.ofNat 32 j)
    (k left : Nat) (count : k + left = (content m s n).length) (copied : Copied m d s n k t) :
    ∃ t', (loop (copyBody n) (BitVec.ofNat 32 k, d + BitVec.ofNat 32 k, s + BitVec.ofNat 32 k, t)).Returns
        (BitVec.ofNat 32 (content m s n).length, d + BitVec.ofNat 32 (content m s n).length, t') ∧
      t'.mem = m.put d (content m s n) ∧ (∀ x, x ∈ t'.writes ↔ ∃ i < (content m s n).length, x = d + BitVec.ofNat 32 i) ∧
      ∀ x, x ∈ t'.reads ↔ ∃ i < (content m s n).length + 1, x = s + BitVec.ofNat 32 i := by
  have bound := content_le m s n
  induction left generalizing k t with
  | zero =>
      obtain rfl : k = (content m s n).length := count
      have stop : copyBody n (BitVec.ofNat 32 (content m s n).length, d + BitVec.ofNat 32 (content m s n).length,
          s + BitVec.ofNat 32 (content m s n).length, t) = .ok (.done (BitVec.ofNat 32 (content m s n).length,
            d + BitVec.ofNat 32 (content m s n).length, (t.fetch (s + BitVec.ofNat 32 (content m s n).length)).2)) := by
        refine if_neg ?_
        rintro ⟨nonzero, inside⟩
        have short : (content m s n).length < n.toNat := by bv_omega
        refine nonzero ?_
        rw [← content_end m s n short]
        exact copied.source m d s n t _ (fun i before => apart i before _ short (Nat.le_refl _))
      refine ⟨_, (ends_loop_done _ _ _ _ stop).mpr rfl, ?_, copied.writes, fun x => upto_succ s x _ t.reads copied.reads⟩
      rw [Traced.fetch, copied.mem, List.take_length]
  | succ left ih =>
      have inside : k < (content m s n).length := by omega
      have apart' : ∀ i < k, d + BitVec.ofNat 32 i ≠ s + BitVec.ofNat 32 k :=
        fun i before => apart i (Nat.lt_trans before inside) k (by omega) (Nat.le_of_lt inside)
      have here := copied.source m d s n t k apart'
      have byte := content_byte m s n k inside
      have go : t.mem (s + BitVec.ofNat 32 k) ≠ 0 ∧ BitVec.ofNat 32 k < n := ⟨here ▸ byte.2, by bv_omega⟩
      have pass : copyBody n (BitVec.ofNat 32 k, d + BitVec.ofNat 32 k, s + BitVec.ofNat 32 k, t) = .ok (.next
          (BitVec.ofNat 32 (k + 1), d + BitVec.ofNat 32 (k + 1), s + BitVec.ofNat 32 (k + 1),
            ((t.fetch (s + BitVec.ofNat 32 k)).2.fetch (s + BitVec.ofNat 32 k)).2.store (d + BitVec.ofNat 32 k)
              (t.mem (s + BitVec.ofNat 32 k)))) := by
        rw [← Mem.next_place, ← Mem.next_place, BitVec.ofNat_add]
        exact if_pos go
      obtain ⟨t', returned, rest⟩ := ih _ (k + 1) (by omega) (copied.next m d s n t k inside apart')
      exact ⟨t', (ends_loop_next _ _ _ _ pass).mpr returned, rest⟩

theorem pad_loop (left : Nat) (xs : List Byte) (room : xs.length + left = n.toNat) (mem : t.mem = m.put d xs)
    (writes : ∀ x, x ∈ t.writes ↔ ∃ i < xs.length, x = d + BitVec.ofNat 32 i) :
    ∃ t', (loop (padBody n) (BitVec.ofNat 32 xs.length, d + BitVec.ofNat 32 xs.length, t)).Returns t' ∧
      t'.mem = m.put d (xs ++ List.replicate left 0) ∧ (∀ x, x ∈ t'.writes ↔ ∃ i < n.toNat, x = d + BitVec.ofNat 32 i) ∧
      t'.reads = t.reads := by
  induction left generalizing xs t with
  | zero =>
      have last : ¬ BitVec.ofNat 32 xs.length < n := by bv_omega
      have stop : padBody n (BitVec.ofNat 32 xs.length, d + BitVec.ofNat 32 xs.length, t) = .ok (.done t) := if_neg last
      refine ⟨t, (ends_loop_done _ _ _ _ stop).mpr rfl, ?_, ?_, rfl⟩
      · rw [mem, List.replicate_zero, List.append_nil]
      · rwa [show n.toNat = xs.length from room.symm]
  | succ left ih =>
      have more : BitVec.ofNat 32 xs.length < n := by bv_omega
      have length : (xs ++ [0]).length = xs.length + 1 := List.length_append
      have pass : padBody n (BitVec.ofNat 32 xs.length, d + BitVec.ofNat 32 xs.length, t) = .ok (.next
          (BitVec.ofNat 32 (xs ++ [0]).length, d + BitVec.ofNat 32 (xs ++ [0]).length, t.store (d + BitVec.ofNat 32 xs.length) 0)) := by
        rw [length, ← Mem.next_place, BitVec.ofNat_add]
        exact if_pos more
      have mem' : (t.store (d + BitVec.ofNat 32 xs.length) 0).mem = m.put d (xs ++ [0]) := by
        rw [Traced.store, mem]
        exact Mem.put_next m d xs 0 (by omega)
      obtain ⟨t', returned, filled, written, read⟩ := ih _ (xs ++ [0]) (by omega) mem' (fun x => by
        rw [length]
        exact upto_succ d x xs.length t.writes writes)
      refine ⟨t', (ends_loop_next _ _ _ _ pass).mpr returned, ?_, written, read⟩
      rw [filled, List.append_assoc, List.replicate_succ]
      rfl

theorem seek_loop (str : List Byte) (text : m.Text d str) :
    (loop (seekBody m) d).Returns (d + BitVec.ofNat 32 str.length) := by
  induction str generalizing d with
  | nil =>
      have stop : seekBody m d = .ok (.done d) := if_neg (not_not.mpr (text.nil_iff.mpr rfl))
      refine (ends_loop_done _ _ _ _ stop).mpr (congrArg Except.ok ?_)
      exact BitVec.add_zero d
  | cons c str ih =>
      have pass : seekBody m d = .ok (.next (d + 1)) := if_pos (fun zero => List.cons_ne_nil c str (text.nil_iff.mp zero))
      rw [List.length_cons, Mem.offset_next]
      exact (ends_loop_next _ _ _ _ pass).mpr (ih (d + 1) text.tail.2)

-- No byte of the source that is read lies where the copy goes, as restrict promises.
def Restrict (m : Mem) (d : Word) (size : Nat) (s n : Word) : Prop :=
  ∀ i < size, ∀ j < n.toNat, j ≤ (content m s n).length → d + BitVec.ofNat 32 i ≠ s + BitVec.ofNat 32 j

theorem reads_within_iff (members : List Word)
    (reads : ∀ x, x ∈ members ↔ ∃ i < (content m s n).length + 1, x = s + BitVec.ofNat 32 i) :
    (∀ x ∈ members, ∃ i < n.toNat, x = s + BitVec.ofNat 32 i) ↔ ∃ i < n.toNat, m (s + BitVec.ofNat 32 i) = 0 := by
  have bound := content_le m s n
  rw [← content_short_iff]
  constructor
  · intro within
    obtain ⟨i, inside, same⟩ := within _ ((reads _).mpr ⟨_, Nat.lt_succ_self _, rfl⟩)
    have equal := Mem.offset_inj s _ i (by omega) (by omega) same
    omega
  · intro short x member
    obtain ⟨i, inside, rfl⟩ := (reads x).mp member
    exact ⟨i, by omega, rfl⟩

theorem strncpy_returns (restrict : Restrict m d n.toNat s n) :
    ∃ t, (strncpy d s n ⟨m, [], []⟩).Returns (d, t) ∧
      t.mem = m.put d (content m s n ++ List.replicate (n.toNat - (content m s n).length) 0) ∧
      (∀ x, x ∈ t.writes ↔ ∃ i < n.toNat, x = d + BitVec.ofNat 32 i) ∧
      ((∀ x ∈ t.reads, ∃ i < n.toNat, x = s + BitVec.ofNat 32 i) ↔ ∃ i < n.toNat, m (s + BitVec.ofNat 32 i) = 0) := by
  have bound := content_le m s n
  obtain ⟨t, copied, mem, writes, reads⟩ := copy_loop m d s n ⟨m, [], []⟩
    (fun i inside => restrict i (Nat.lt_of_lt_of_le inside bound)) 0 _ (Nat.zero_add _) ⟨rfl, by simp, by simp⟩
  obtain ⟨t', padded, mem', writes', reads'⟩ := pad_loop m d n t (n.toNat - (content m s n).length) (content m s n) (by omega) mem writes
  refine ⟨t', ?_, mem', writes', ?_⟩
  · have start : ∀ x : Word, x + BitVec.ofNat 32 0 = x := BitVec.add_zero
    rw [start, start] at copied
    refine (ends_bind_of_returns _ _ _ _ copied).mpr ?_
    refine (ends_bind_of_returns _ _ _ _ padded).mpr ?_
    exact (ends_pure _ _).mpr rfl
  · rw [reads']
    exact reads_within_iff m s n t.reads reads

theorem strncat_returns (str : List Byte) (text : m.Text d str)
    (restrict : Restrict m (d + BitVec.ofNat 32 str.length) ((content m s n).length + 1) s n) :
    ∃ t, (strncat d s n ⟨m, [], []⟩).Returns (d, t) ∧
      t.mem = m.put (d + BitVec.ofNat 32 str.length) (content m s n ++ [0]) ∧
      (∀ x, x ∈ t.writes ↔ ∃ i < (content m s n).length + 1, x = d + BitVec.ofNat 32 str.length + BitVec.ofNat 32 i) ∧
      ((∀ x ∈ t.reads, ∃ i < n.toNat, x = s + BitVec.ofNat 32 i) ↔ ∃ i < n.toNat, m (s + BitVec.ofNat 32 i) = 0) := by
  have bound := content_le m s n
  obtain ⟨t, copied, mem, writes, reads⟩ := copy_loop m (d + BitVec.ofNat 32 str.length) s n ⟨m, [], []⟩
    (fun i inside => restrict i (Nat.lt_succ_of_lt inside)) 0 _ (Nat.zero_add _) ⟨rfl, by simp, by simp⟩
  refine ⟨t.store (d + BitVec.ofNat 32 str.length + BitVec.ofNat 32 (content m s n).length) 0, ?_, ?_,
    fun x => upto_succ _ x _ t.writes writes, reads_within_iff m s n t.reads reads⟩
  · have start : ∀ x : Word, x + BitVec.ofNat 32 0 = x := BitVec.add_zero
    rw [start, start] at copied
    refine (ends_bind_of_returns _ _ _ _ (seek_loop m d str text)).mpr ?_
    refine (ends_bind_of_returns _ _ _ _ copied).mpr ?_
    exact (ends_pure _ _).mpr rfl
  · rw [Traced.store, mem]
    exact Mem.put_next m _ _ 0 (by omega)

end Loops

-- What is written is right for every source. What is read stays in bounds only
-- with a NUL among the n bytes.
theorem bounded_copies_iff (m : Mem) (d s n : Word) :
    (Restrict m d n.toNat s n →
      ∃ t, (strncpy d s n ⟨m, [], []⟩).Returns (d, t) ∧
        t.mem = m.put d (content m s n ++ List.replicate (n.toNat - (content m s n).length) 0) ∧
        (∀ x, x ∈ t.writes ↔ ∃ i < n.toNat, x = d + BitVec.ofNat 32 i) ∧
        ((∀ x ∈ t.reads, ∃ i < n.toNat, x = s + BitVec.ofNat 32 i) ↔ ∃ i < n.toNat, m (s + BitVec.ofNat 32 i) = 0)) ∧
    ∀ str, m.Text d str → Restrict m (d + BitVec.ofNat 32 str.length) ((content m s n).length + 1) s n →
      ∃ t, (strncat d s n ⟨m, [], []⟩).Returns (d, t) ∧
        t.mem = m.put (d + BitVec.ofNat 32 str.length) (content m s n ++ [0]) ∧
        (∀ x, x ∈ t.writes ↔ ∃ i < (content m s n).length + 1, x = d + BitVec.ofNat 32 str.length + BitVec.ofNat 32 i) ∧
        ((∀ x ∈ t.reads, ∃ i < n.toNat, x = s + BitVec.ofNat 32 i) ↔ ∃ i < n.toNat, m (s + BitVec.ofNat 32 i) = 0) :=
  ⟨strncpy_returns m d s n, strncat_returns m d s n⟩

-- A NUL at an even address, no NUL at an odd one.
def striped : Mem := fun x => if x.getLsbD 0 then 1 else 0

theorem bounded_copies_at_stripes :
    ∃ t, (strncpy 0x1000 0x2001 2 ⟨striped, [], []⟩).Returns (0x1000, t) ∧ t.mem 0x1000 = 1 ∧ t.mem 0x1001 = 0 ∧
      ∀ x ∈ t.reads, ∃ i < 2, x = 0x2001 + BitVec.ofNat 32 i := by
  have restrict : Restrict striped 0x1000 (2 : Word).toNat 0x2001 2 := by
    intro i inside j near _
    bv_omega
  obtain ⟨t, returned, mem, -, reads⟩ := (bounded_copies_iff striped 0x1000 0x2001 2).1 restrict
  refine ⟨t, returned, ?_, ?_, reads.mpr ⟨1, by decide, by decide⟩⟩
  · rw [mem]
    decide
  · rw [mem]
    decide

theorem bounded_copy_reads_behind : ¬ ∀ (m : Mem) (d s n : Word), Restrict m d n.toNat s n →
    ∃ t, (strncpy d s n ⟨m, [], []⟩).Returns (d, t) ∧ ∀ x ∈ t.reads, ∃ i < n.toNat, x = s + BitVec.ofNat 32 i := by
  intro all
  have restrict : Restrict striped 0x1000 (1 : Word).toNat 0x2001 1 := by
    intro i inside j near _
    bv_omega
  obtain ⟨t, returned, within⟩ := all striped 0x1000 0x2001 1 restrict
  obtain ⟨t', returned', -, -, reads⟩ := strncpy_returns striped 0x1000 0x2001 1 restrict
  obtain rfl : t = t' := (Prod.mk.inj (returns_unique _ _ _ returned returned')).2
  obtain ⟨i, inside, zero⟩ := reads.mp within
  obtain rfl : i = 0 := Nat.lt_one_iff.mp inside
  exact absurd zero (by decide)

end Deimos.Str
