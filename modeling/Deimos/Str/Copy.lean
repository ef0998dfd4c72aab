import Deimos.Str.Bounded

set_option autoImplicit false

namespace Deimos.Str

open Comp

-- The loop of strcpy, and the second one of strcat, over s1p, s2p and the memory.
def strcpyBody (state : Word × Word × Mem) : Except Stop (Iter (Word × Word × Mem) (Word × Mem)) :=
  let (s1p, s2p, m) := state
  if m s2p ≠ 0 then .ok (.next (s1p + 1, s2p + 1, Function.update m s1p (m s2p))) else .ok (.done (s1p, m))

def strcpy (s1 s2 : Word) (m : Mem) : Comp Stop (Word × Mem) := do
  let (s1p, m) ← loop strcpyBody (s1, s2, m)
  pure (s1, Function.update m s1p 0)

def strcat (s1 s2 : Word) (m : Mem) : Comp Stop (Word × Mem) := do
  let s1p ← loop (seekBody m) s1
  let (s1p, m) ← loop strcpyBody (s1p, s2, m)
  pure (s1, Function.update m s1p 0)

def strlenBody (m : Mem) (s ret : Word) : Except Stop (Iter Word Word) :=
  if m (s + ret) ≠ 0 then .ok (.next (ret + 1)) else .ok (.done ret)

def strlen (s : Word) (m : Mem) : Comp Stop Word := loop (strlenBody m s) 0

-- The copy begins behind the first char of the string and not behind its NUL,
-- so that the NUL is overwritten before it is read.
def Chases (d s2 : Word) (s : List Byte) : Prop := 0 < (d - s2).toNat ∧ (d - s2).toNat ≤ s.length

instance (d s2 : Word) (s : List Byte) : Decidable (Chases d s2 s) := inferInstanceAs (Decidable (_ ∧ _))

section Loops

variable (m : Mem) (d s2 : Word) (s : List Byte)

theorem chased_apart (free : ¬Chases d s2 s) (i k : Nat) (before : i < k) (inside : k ≤ s.length) (small : s.length < 2 ^ 32) :
    s2 + BitVec.ofNat 32 k ≠ d + BitVec.ofNat 32 i := by
  intro same
  apply free
  constructor <;> bv_omega

theorem strcpy_loop (text : m.Text s2 s) (free : ¬Chases d s2 s) (k left : Nat) (count : k + left = s.length) :
    (loop strcpyBody (d + BitVec.ofNat 32 k, s2 + BitVec.ofNat 32 k, m.put d (s.take k))).Returns
      (d + BitVec.ofNat 32 s.length, m.put d s) := by
  have small := text.length_lt
  have source (k : Nat) (inside : k ≤ s.length) : m.put d (s.take k) (s2 + BitVec.ofNat 32 k) = m (s2 + BitVec.ofNat 32 k) :=
    Mem.put_apart _ _ _ _ (fun i before => chased_apart d s2 s free i k (Nat.lt_of_lt_of_le before (List.length_take_le k s)) inside small)
  induction left generalizing k with
  | zero =>
      obtain rfl : k = s.length := count
      have stop : strcpyBody (d + BitVec.ofNat 32 s.length, s2 + BitVec.ofNat 32 s.length, m.put d (s.take s.length)) =
          .ok (.done (d + BitVec.ofNat 32 s.length, m.put d s)) := by
        rw [strcpyBody, source _ (Nat.le_refl _), text.last, List.take_length]
        exact if_neg (not_not.mpr rfl)
      exact (ends_loop_done _ _ _ _ stop).mpr rfl
  | succ left ih =>
      have inside : k < s.length := by omega
      have here : m (s2 + BitVec.ofNat 32 k) = s[k] :=
        Mem.holds_iff.mp (Mem.holds_append.mp text.holds).1 k s[k] (List.getElem?_eq_getElem inside)
      have taken : (s.take k).length = k := List.length_take_of_le (Nat.le_of_lt inside)
      have written := Mem.put_next m d (s.take k) s[k] (by omega)
      rw [taken, List.take_append_getElem] at written
      have pass : strcpyBody (d + BitVec.ofNat 32 k, s2 + BitVec.ofNat 32 k, m.put d (s.take k)) =
          .ok (.next (d + BitVec.ofNat 32 (k + 1), s2 + BitVec.ofNat 32 (k + 1), m.put d (s.take (k + 1)))) := by
        rw [strcpyBody, source k (Nat.le_of_lt inside), ← written, ← Mem.next_place, ← Mem.next_place, ← here]
        exact if_pos (text.inside k inside)
      exact (ends_loop_next _ _ _ _ pass).mpr (ih (k + 1) (by omega))

-- Whatever is read next has been written already, and is no NUL.
theorem strcpy_loop_diverges (text : m.Text s2 s) (chases : Chases d s2 s) : (loop strcpyBody (d, s2, m)).Diverges := by
  obtain ⟨behind, near⟩ := chases
  refine loop_diverges strcpyBody (fun state => ∃ j : Nat, state.1 = d + BitVec.ofNat 32 j ∧ state.2.1 = s2 + BitVec.ofNat 32 j ∧
    ∀ i < (d - s2).toNat + j, state.2.2 (s2 + BitVec.ofNat 32 i) ≠ 0) ?_ (d, s2, m)
    ⟨0, (BitVec.add_zero d).symm, (BitVec.add_zero s2).symm, fun i before => text.inside i (by omega)⟩
  rintro ⟨_, _, m'⟩ ⟨j, rfl, rfl, nonzero⟩
  have read : m' (s2 + BitVec.ofNat 32 j) ≠ 0 := nonzero j (by omega)
  refine ⟨_, if_pos read, j + 1, Mem.next_place d j, Mem.next_place s2 j, fun i before => ?_⟩
  change Function.update m' (d + BitVec.ofNat 32 j) (m' (s2 + BitVec.ofNat 32 j)) (s2 + BitVec.ofNat 32 i) ≠ 0
  by_cases here : s2 + BitVec.ofNat 32 i = d + BitVec.ofNat 32 j
  · rw [here, Function.update_self]
    exact read
  · rw [Function.update_of_ne here]
    refine nonzero i (Nat.lt_of_le_of_ne (by omega) (fun last => here ?_))
    rw [last]
    bv_omega

theorem strlen_loop (text : m.Text s2 s) (k left : Nat) (count : k + left = s.length) :
    (loop (strlenBody m s2) (BitVec.ofNat 32 k)).Returns (BitVec.ofNat 32 s.length) := by
  induction left generalizing k with
  | zero =>
      obtain rfl : k = s.length := count
      have stop : strlenBody m s2 (BitVec.ofNat 32 s.length) = .ok (.done (BitVec.ofNat 32 s.length)) := if_neg (not_not.mpr text.last)
      exact (ends_loop_done _ _ _ _ stop).mpr rfl
  | succ left ih =>
      have pass : strlenBody m s2 (BitVec.ofNat 32 k) = .ok (.next (BitVec.ofNat 32 k + 1)) := if_pos (text.inside k (by omega))
      have next : BitVec.ofNat 32 k + 1 = BitVec.ofNat 32 (k + 1) := (BitVec.ofNat_add k 1).symm
      rw [next] at pass
      exact (ends_loop_next _ _ _ _ pass).mpr (ih (k + 1) (by omega))

end Loops

section Texts

variable (m : Mem) (a : Word) (xs : List Byte)

theorem put_holds (room : xs.length ≤ 2 ^ 32) : (m.put a xs).Holds a xs := by
  refine Mem.holds_iff.mpr (fun i b found => ?_)
  obtain ⟨inside, rfl⟩ := List.getElem?_eq_some_iff.mp found
  exact m.put_inside a xs i inside room

theorem put_text (inner : ∀ c ∈ xs, c ≠ 0) (room : xs.length < 2 ^ 32) : (m.put a (xs ++ [0])).Text a xs :=
  ⟨put_holds m a _ (by rw [List.length_append]; exact room), inner⟩

variable (s2 : Word) (s t : List Byte)

theorem unchased_room (target : m.Text a t) (source : m.Text s2 s) (free : ¬Chases (a + BitVec.ofNat 32 t.length) s2 s) :
    t.length + s.length < 2 ^ 32 := by
  have short := target.length_lt
  have small := source.length_lt
  by_cases empty : s = []
  · rw [empty]
    exact short
  · have behind : 0 < (a + BitVec.ofNat 32 t.length - s2).toNat := by
      refine Nat.pos_of_ne_zero (fun zero => empty (source.nil_iff.mp ?_))
      have same : s2 = a + BitVec.ofNat 32 t.length := by bv_omega
      rw [same]
      exact target.last
    have far : s.length < (a + BitVec.ofNat 32 t.length - s2).toNat := Nat.lt_of_not_le (fun near => free ⟨behind, near⟩)
    -- The NUL of the string is no char of the target.
    have apart : t.length < (a + BitVec.ofNat 32 t.length - s2).toNat - s.length := by
      refine Nat.lt_of_not_le (fun near => ?_)
      have here : s2 + BitVec.ofNat 32 s.length =
          a + BitVec.ofNat 32 (t.length - ((a + BitVec.ofNat 32 t.length - s2).toNat - s.length)) := by bv_omega
      exact target.inside _ (by omega) (here ▸ source.last)
    omega

theorem appended_text (target : m.Text a t) (source : m.Text s2 s) (free : ¬Chases (a + BitVec.ofNat 32 t.length) s2 s) :
    (m.put (a + BitVec.ofNat 32 t.length) (s ++ [0])).Text a (t ++ s) := by
  have room := unchased_room m a s2 s t target source free
  have length : (s ++ [(0 : Byte)]).length = s.length + 1 := List.length_append
  refine ⟨?_, fun c member => (List.mem_append.mp member).elim (target.inner c) (source.inner c)⟩
  rw [List.append_assoc, Mem.holds_append]
  refine ⟨Mem.holds_iff.mpr (fun i b found => ?_), put_holds m _ _ (by omega)⟩
  have inside : i < t.length := (List.getElem?_eq_some_iff.mp found).1
  rw [Mem.put_outside _ _ _ _ (by rw [length]; bv_omega)]
  exact Mem.holds_iff.mp (Mem.holds_append.mp target.holds).1 i b found

end Texts

section Calls

variable (m : Mem) (s1 s2 : Word) (s t : List Byte) (source : m.Text s2 s)

include source

theorem copy_ends (s1' : Word) : if Chases s1' s2 s then (loop strcpyBody (s1', s2, m)).Diverges
    else (loop strcpyBody (s1', s2, m)).Returns (s1' + BitVec.ofNat 32 s.length, m.put s1' s) := by
  by_cases chases : Chases s1' s2 s
  · rw [if_pos chases]
    exact strcpy_loop_diverges m s1' s2 s source chases
  · rw [if_neg chases]
    have copied := strcpy_loop m s1' s2 s source chases 0 s.length (Nat.zero_add _)
    rwa [show s1' + BitVec.ofNat 32 0 = s1' from BitVec.add_zero s1', show s2 + BitVec.ofNat 32 0 = s2 from BitVec.add_zero s2] at copied

theorem strcpy_ends : if Chases s1 s2 s then (strcpy s1 s2 m).Diverges else (strcpy s1 s2 m).Returns (s1, m.put s1 (s ++ [0])) := by
  have copied := copy_ends m s2 s source s1
  by_cases chases : Chases s1 s2 s
  · rw [if_pos chases] at copied ⊢
    exact bind_diverges _ _ copied
  · rw [if_neg chases] at copied ⊢
    refine (ends_bind_of_returns _ _ _ _ copied).mpr ((ends_pure _ _).mpr ?_)
    rw [Mem.put_next m s1 s 0 source.length_lt]

theorem strcat_ends (target : m.Text s1 t) : if Chases (s1 + BitVec.ofNat 32 t.length) s2 s then (strcat s1 s2 m).Diverges
    else (strcat s1 s2 m).Returns (s1, m.put (s1 + BitVec.ofNat 32 t.length) (s ++ [0])) := by
  have sought := seek_loop m s1 t target
  have copied := copy_ends m s2 s source (s1 + BitVec.ofNat 32 t.length)
  by_cases chases : Chases (s1 + BitVec.ofNat 32 t.length) s2 s
  · rw [if_pos chases] at copied ⊢
    exact bind_diverges_later _ _ _ sought (bind_diverges _ _ copied)
  · rw [if_neg chases] at copied ⊢
    refine (ends_bind_of_returns _ _ _ _ sought).mpr ((ends_bind_of_returns _ _ _ _ copied).mpr ((ends_pure _ _).mpr ?_))
    rw [Mem.put_next m _ s 0 source.length_lt]

end Calls

-- strlen, strcpy and strcat on any strings, overlapping or not. A copy into
-- the source behind its first char never comes to an end, and so a string
-- cannot be appended to itself.
theorem string_copies_exact (m : Mem) (s1 s2 : Word) (s : List Byte) (source : m.Text s2 s) :
    (strlen s2 m).Returns (BitVec.ofNat 32 s.length) ∧ s.length < 2 ^ 32 ∧
    ((Chases s1 s2 s → (strcpy s1 s2 m).Diverges) ∧
      (¬Chases s1 s2 s → (strcpy s1 s2 m).Returns (s1, m.put s1 (s ++ [0])) ∧ (m.put s1 (s ++ [0])).Text s1 s)) ∧
    ∀ t, m.Text s1 t →
      (Chases (s1 + BitVec.ofNat 32 t.length) s2 s → (strcat s1 s2 m).Diverges) ∧
      (¬Chases (s1 + BitVec.ofNat 32 t.length) s2 s →
        (strcat s1 s2 m).Returns (s1, m.put (s1 + BitVec.ofNat 32 t.length) (s ++ [0])) ∧
        (m.put (s1 + BitVec.ofNat 32 t.length) (s ++ [0])).Text s1 (t ++ s)) := by
  have copy := strcpy_ends m s1 s2 s source
  refine ⟨strlen_loop m s2 s source 0 s.length (Nat.zero_add _), source.length_lt, ⟨fun chases => ?_, fun free => ?_⟩, fun t target => ?_⟩
  · rwa [if_pos chases] at copy
  · rw [if_neg free] at copy
    exact ⟨copy, put_text m s1 s source.inner source.length_lt⟩
  · have append := strcat_ends m s1 s2 s t source target
    refine ⟨fun chases => ?_, fun free => ?_⟩
    · rwa [if_pos chases] at append
    · rw [if_neg free] at append
      exact ⟨append, appended_text m s1 s2 s t target source free⟩

theorem string_copies_never_end : ∃ m : Mem, m.Text 0x1000 [0x61] ∧ (strcat 0x1000 0x1000 m).Diverges ∧
    (strcpy 0x2000 0x1000 m).Returns (0x2000, m.put 0x2000 [0x61, 0]) := by
  have text : Mem.Text (fun x => if x = 0x1000 then 0x61 else 0) 0x1000 [0x61] := ⟨⟨rfl, rfl, trivial⟩, by decide⟩
  have self := (string_copies_exact _ 0x1000 0x1000 [0x61] text).2.2.2 [0x61] text
  have copy := (string_copies_exact _ 0x2000 0x1000 [0x61] text).2.2.1
  exact ⟨_, text, self.1 (by decide), (copy.2 (by decide)).1⟩

end Deimos.Str
