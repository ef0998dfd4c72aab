import Deimos.Lib.Comp
import Deimos.Lib.Queue

set_option autoImplicit false

-- Loops over singly linked chains, which have no tail pointer: appending
-- needs the last cell, and unlinking a cell the one in front of it. Before a
-- cell is read it is checked, which may stop the loop.
namespace Chain

open Comp LinkedQueue

section Loops

variable {ε P : Type} [DecidableEq P] (null : P) (check : P → Except ε Unit) (next : P → P)

def lastBody (p : P) : Except ε (Iter P P) := do
  check p
  if next p = null then pure (.done p) else pure (.next (next p))

-- while (p->next) p = p->next;
def last (p : P) : Comp ε P := loop (lastBody null check next) p

def beforeBody (found : P → Bool) (p : P) : Except ε (Iter P (Option P)) := do
  check p
  if next p = null then pure (.done none)
  else if found (next p) then pure (.done (some p))
  else pure (.next (next p))

-- while (p->next) { if (p->next is found) leave; p = p->next; }
def before (found : P → Bool) (p : P) : Comp ε (Option P) := loop (beforeBody null check next found) p

end Loops

variable {ε P : Type} [DecidableEq P] {null : P} {check : P → Except ε Unit} {next : P → P} {p x z : P} {xs ys zs : List P}

theorem last_returns (links : Links null next p (x :: xs) null) (checked : ∀ y ∈ x :: xs, check y = .ok ()) :
    (last null check next x).Returns (lastOr x xs) := by
  induction xs generalizing p x with
  | nil =>
      have ends : lastBody null check next x = .ok (.done x) := by
        rw [lastBody, checked x List.mem_cons_self]
        exact if_pos links.2.2
      exact (ends_loop_done _ x x _ ends).mpr rfl
  | cons y ys ih =>
      have rest := links.2.2
      have here : next x = y := rest.1
      have nonnull : y ≠ null := rest.2.1
      have pass : lastBody null check next x = .ok (.next y) := by
        rw [lastBody, checked x List.mem_cons_self, here]
        exact if_neg nonnull
      exact (ends_loop_next _ x y _ pass).mpr (ih rest (fun w member => checked w (List.mem_cons_of_mem x member)))

theorem before_none (found : P → Bool) (links : Links null next p (x :: xs) null) (checked : ∀ y ∈ x :: xs, check y = .ok ())
    (absent : ∀ y ∈ xs, found y = false) : (before null check next found x).Returns none := by
  induction xs generalizing p x with
  | nil =>
      have ends : beforeBody null check next found x = .ok (.done none) := by
        rw [beforeBody, checked x List.mem_cons_self]
        exact if_pos links.2.2
      exact (ends_loop_done _ x none _ ends).mpr rfl
  | cons y ys ih =>
      have rest := links.2.2
      have here : next x = y := rest.1
      have nonnull : y ≠ null := rest.2.1
      have pass : beforeBody null check next found x = .ok (.next y) := by
        rw [beforeBody, checked x List.mem_cons_self, here, absent y List.mem_cons_self]
        exact if_neg nonnull
      apply (ends_loop_next _ x y _ pass).mpr
      exact ih rest (fun w member => checked w (List.mem_cons_of_mem x member))
        (fun w member => absent w (List.mem_cons_of_mem y member))

theorem before_some (found : P → Bool) (links : Links null next p (x :: (ys ++ z :: zs)) null)
    (checked : ∀ y ∈ x :: ys, check y = .ok ()) (here : found z = true) (absent : ∀ y ∈ ys, found y = false) :
    (before null check next found x).Returns (some (lastOr x ys)) := by
  induction ys generalizing p x with
  | nil =>
      obtain ⟨-, -, same, nonnull, -⟩ := links
      have ends : beforeBody null check next found x = .ok (.done (some x)) := by
        rw [beforeBody, checked x List.mem_cons_self, same, here]
        exact if_neg nonnull
      exact (ends_loop_done _ x (some x) _ ends).mpr rfl
  | cons y ys ih =>
      have rest := links.2.2
      have same : next x = y := rest.1
      have nonnull : y ≠ null := rest.2.1
      have pass : beforeBody null check next found x = .ok (.next y) := by
        rw [beforeBody, checked x List.mem_cons_self, same, absent y List.mem_cons_self]
        exact if_neg nonnull
      apply (ends_loop_next _ x y _ pass).mpr
      exact ih rest (fun w member => checked w (List.mem_cons_of_mem x member))
        (fun w member => absent w (List.mem_cons_of_mem y member))

theorem before_ends (found : P → Bool) (links : Links null next p (x :: xs) null) (checked : ∀ y ∈ x :: xs, check y = .ok ()) :
    ∃ r, (before null check next found x).Returns r ∧ ∀ y, r = some y → y ∈ x :: xs := by
  by_cases present : ∃ y ∈ xs, found y = true
  · obtain ⟨y, member, here⟩ := present
    obtain ⟨z, ys, zs, absent, here, rfl, -⟩ := List.exists_of_eraseP member here
    refine ⟨some (lastOr x ys), before_some found links (fun w front => checked w (List.mem_append_left _ front)) here
      (fun w front => eq_false_of_ne_true (absent w front)), fun w same => ?_⟩
    rw [← Option.some.inj same]
    exact List.mem_append_left (z :: zs) (last_or_mem_cons x ys)
  · have absent : ∀ y ∈ xs, found y = false := fun y member => eq_false_of_ne_true (fun here => present ⟨y, member, here⟩)
    exact ⟨none, before_none found links checked absent, fun y same => absurd same (by simp)⟩

theorem last_body_eq (ok : check p = .ok ()) :
    lastBody null check next p = if next p = null then .ok (.done p) else .ok (.next (next p)) := by
  rw [lastBody, ok]
  rfl

theorem last_reached (checked : ∀ y, check y = .ok ()) (returned : (last null check next p).Returns x) :
    next x = null ∧ Relation.ReflTransGen (fun a b => next a ≠ null ∧ next a = b) p x := by
  obtain ⟨y, passes, leaves⟩ := (returns_loop _ p x).mp returned
  have ends : next y = null ∧ y = x := by
    rw [last_body_eq (checked y)] at leaves
    by_cases here : next y = null
    · rw [if_pos here] at leaves
      exact ⟨here, by simpa using leaves⟩
    · rw [if_neg here] at leaves
      exact absurd leaves (by simp)
  obtain ⟨here, rfl⟩ := ends
  refine ⟨here, Relation.ReflTransGen.mono (fun a b pass => ?_) _ _ passes⟩
  rw [last_body_eq (checked a)] at pass
  by_cases ends : next a = null
  · rw [if_pos ends] at pass
    exact absurd pass (by simp)
  · rw [if_neg ends] at pass
    exact ⟨ends, by simpa using pass⟩

end Chain

-- A list that is kept by its first cell.
structure Linked (P : Type) where
  head : P
  next : P → P

namespace Linked

open Comp LinkedQueue

section Operations

variable {ε P : Type} [DecidableEq P] (null : P) (check : P → Except ε Unit)

-- dev->next = 0; if (!list) list = dev; else the last cell links to dev.
def append (dev : P) (l : Linked P) : Comp ε (Linked P) := do
  check dev
  let l : Linked P := { l with next := Function.update l.next dev null }
  if l.head = null then pure { l with head := dev }
  else
    let n ← Chain.last null check l.next l.head
    pure { l with next := Function.update l.next n dev }

def remove (dev : P) (l : Linked P) : Comp ε (Option (Linked P)) :=
  if dev = l.head then do
    check dev
    pure (some ⟨l.next dev, Function.update l.next dev null⟩)
  else do
    match ← Chain.before null check l.next (· = dev) l.head with
    | some n =>
        check (l.next n)
        pure (some ⟨l.head, Function.update (Function.update l.next n (l.next (l.next n))) dev null⟩)
    | none => pure none

end Operations

variable {ε P : Type} [DecidableEq P] {null dev : P} {check : P → Except ε Unit} {l : Linked P} {xs ys zs : List P}

def Spells (null : P) (l : Linked P) (xs : List P) : Prop := Queue null l.next l.head (lastOr null xs) xs

theorem append_returns (spells : Spells null l xs) (nonnull : dev ≠ null) (fresh : dev ∉ xs)
    (checked : ∀ p ∈ dev :: xs, check p = .ok ()) :
    ∃ l', (l.append null check dev).Returns l' ∧ Spells null l' (xs ++ [dev]) ∧ ∀ p, p ∉ dev :: xs → l'.next p = l.next p := by
  have here : (liftM (check dev) : Comp ε Unit).Returns () := (ends_lift _ _).mpr (checked dev List.mem_cons_self).symm
  have others (p : P) (outside : p ≠ dev) : Function.update l.next dev null p = l.next p := Function.update_of_ne outside _ _
  have kept : Queue null (Function.update l.next dev null) l.head (lastOr null xs) xs :=
    spells.congr (fun p member => others p (fun same => fresh (same ▸ member)))
  have clear : Function.update l.next dev null dev = null := Function.update_self _ _ _
  unfold append Returns
  simp only [ends_bind_of_returns _ _ _ _ here]
  cases xs with
  | nil =>
      refine ⟨⟨dev, Function.update l.next dev null⟩, ?_, queue_single nonnull clear, fun p outside => ?_⟩
      · rw [if_pos (spells.head_eq_null.mpr rfl)]
        exact (ends_pure _ _).mpr rfl
      · exact others p (fun same => outside (by simp [same]))
  | cons x xs =>
      have head : l.head = x := head_cons spells
      have last : (Chain.last null check (Function.update l.next dev null) l.head).Returns (lastOr x xs) := by
        rw [head]
        exact Chain.last_returns kept.links (fun p member => checked p (List.mem_cons_of_mem dev member))
      have pushed := queue_push kept (List.cons_ne_nil x xs) fresh nonnull clear
      refine ⟨⟨l.head, Function.update (Function.update l.next dev null) (lastOr x xs) dev⟩, ?_, ?_, fun p outside => ?_⟩
      · rw [if_neg (fun null => List.cons_ne_nil x xs (spells.head_eq_null.mp null))]
        exact (ends_bind_of_returns _ _ _ _ last).mpr ((ends_pure _ _).mpr rfl)
      · rw [Spells, last_or_concat]
        exact pushed
      · have tail : p ≠ lastOr x xs := by
          rintro rfl
          exact outside (List.mem_cons_of_mem dev (last_or_mem_cons x xs))
        exact (Function.update_of_ne tail _ _).trans (others p (fun same => outside (by simp [same])))

theorem remove_returns (spells : Spells null l (ys ++ dev :: zs)) (checked : ∀ p ∈ ys ++ dev :: zs, check p = .ok ()) :
    ∃ l', (l.remove null check dev).Returns (some l') ∧ Spells null l' (ys ++ zs) ∧
      ∀ p, p ∉ ys ++ dev :: zs → l'.next p = l.next p := by
  have here : (liftM (check dev) : Comp ε Unit).Returns () := (ends_lift _ _).mpr (checked dev (by simp)).symm
  have others (p : P) (outside : p ∉ ys ++ dev :: zs) : p ≠ dev := fun same => outside (by simp [same])
  unfold remove Returns
  cases ys with
  | nil =>
      have popped := queue_pop spells
      refine ⟨⟨l.next dev, Function.update l.next dev null⟩, ?_, ?_, fun p outside => ?_⟩
      · rw [if_pos (head_cons spells).symm]
        exact (ends_bind_of_returns _ _ _ _ here).mpr ((ends_pure _ _).mpr rfl)
      · exact ⟨popped.links, rfl, popped.nodup⟩
      · exact Function.update_of_ne (others p outside) _ _
  | cons y ys =>
      have head : l.head = y := head_cons spells
      have nodup := spells.nodup
      have apart : dev ≠ y ∧ dev ∉ ys ∧ dev ∉ zs := by
        have middle : (y :: ys ++ dev :: zs).Perm (dev :: (y :: ys ++ zs)) := List.perm_middle
        have absent := (List.nodup_cons.mp (middle.nodup_iff.mp nodup)).1
        simpa only [List.cons_append, List.mem_cons, List.mem_append, not_or] using absent
      obtain ⟨front, shape⟩ := cons_eq_concat y ys
      have whole (rest : List P) : y :: ys ++ rest = front ++ lastOr y ys :: rest := by
        rw [shape, List.append_assoc]
        rfl
      have found : (Chain.before null check l.next (· = dev) l.head).Returns (some (lastOr y ys)) := by
        rw [head]
        apply Chain.before_some _ spells.links
        · exact fun p member => checked p (List.mem_append_left _ member)
        · exact decide_eq_true rfl
        · exact fun p member => decide_eq_false (fun same : p = dev => apart.2.1 (same ▸ member))
      have queue := spells
      rw [Spells, whole] at queue
      obtain ⟨-, -, -, -, link, -⟩ := links_append.mp queue.links
      have removed := queue_remove queue
      rw [← whole] at removed
      refine ⟨⟨l.head, Function.update (Function.update l.next (lastOr y ys) (l.next (l.next (lastOr y ys)))) dev null⟩,
        ?_, ?_, fun p outside => ?_⟩
      · rw [if_neg (by rw [head]; exact apart.1)]
        simp only [ends_bind_of_returns _ _ _ _ found, link]
        exact (ends_bind_of_returns _ _ _ _ here).mpr ((ends_pure _ _).mpr rfl)
      · rw [link]
        apply removed.congr
        intro p member
        apply Function.update_of_ne
        rintro rfl
        simp only [List.cons_append, List.mem_cons, List.mem_append] at member
        rcases member with first | before | behind
        · exact apart.1 first
        · exact apart.2.1 before
        · exact apart.2.2 behind
      · have tail : p ≠ lastOr y ys := by
          rintro rfl
          exact outside (List.mem_append_left _ (last_or_mem_cons y ys))
        exact (Function.update_of_ne (others p outside) _ _).trans (Function.update_of_ne tail _ _)

theorem remove_absent (spells : Spells null l xs) (absent : dev ∉ xs) (nonempty : xs ≠ []) (checked : ∀ p ∈ xs, check p = .ok ()) :
    (l.remove null check dev).Returns none := by
  cases xs with
  | nil => exact absurd rfl nonempty
  | cons x xs =>
      have head : l.head = x := head_cons spells
      have links : Links null l.next l.head (x :: xs) null := spells.links
      have other : ¬dev = l.head := fun same => absent (by rw [same, head]; exact List.mem_cons_self)
      have missing : (Chain.before null check l.next (fun p => decide (p = dev)) l.head).Returns none := by
        rw [head] at links ⊢
        exact Chain.before_none _ links checked
          (fun p member => decide_eq_false (fun same => absent (List.mem_cons_of_mem x (same ▸ member))))
      unfold remove
      rw [if_neg other]
      exact (ends_bind_of_returns _ _ _ _ missing).mpr ((ends_pure _ _).mpr rfl)

section Loops

-- A cell that is on the list already ends up linked to itself, behind those that were in front of it.
theorem links_looped (spells : Spells null l (ys ++ dev :: zs)) (q : P) :
    Links null (Function.update l.next dev q) l.head (ys ++ [dev]) q := by
  obtain ⟨r, front, same, nonnull, -⟩ := links_append.mp spells.links
  have absent : dev ∉ ys := fun member => List.disjoint_of_nodup_append spells.nodup member List.mem_cons_self
  have kept : Links null (Function.update l.next dev q) l.head ys r := by
    refine links_congr front (fun p member => Function.update_of_ne ?_ _ _)
    rintro rfl
    exact absent member
  exact links_append.mpr ⟨r, kept, same, nonnull, Function.update_self _ _ _⟩

theorem append_again (spells : Spells null l (ys ++ dev :: zs)) (checked : ∀ p, check p = .ok ()) :
    (l.append null check dev).Returns { l with next := Function.update (Function.update l.next dev null) dev dev } := by
  have here : (liftM (check dev) : Comp ε Unit).Returns () := (ends_lift _ _).mpr (checked dev).symm
  have links := links_looped spells null
  have some_ : l.head ≠ null := fun none => by simpa using spells.head_eq_null.mp none
  unfold append Returns
  simp only [ends_bind_of_returns _ _ _ _ here]
  rw [if_neg some_]
  refine (ends_bind_of_returns _ _ dev _ ?_).mpr ((ends_pure _ _).mpr rfl)
  cases ys with
  | nil =>
      have head : l.head = dev := links.1
      rw [head] at links ⊢
      exact Chain.last_returns links (fun p _ => checked p)
  | cons y ys =>
      have head : l.head = y := links.1
      have tail : lastOr y (ys ++ [dev]) = dev := last_or_concat ys
      have last : (Chain.last null check (Function.update l.next dev null) y).Returns (lastOr y (ys ++ [dev])) :=
        Chain.last_returns links (fun p _ => checked p)
      rw [head]
      rwa [tail] at last

omit [DecidableEq P] in
theorem links_next (next : P → P) (p q x : P) (links : Links null next p xs q) (member : x ∈ xs) : next x = q ∨ next x ∈ xs := by
  induction xs generalizing p with
  | nil => exact absurd member List.not_mem_nil
  | cons y xs ih =>
      obtain ⟨-, -, rest⟩ := links
      rcases List.mem_cons.mp member with rfl | later
      · cases xs with
        | nil => exact .inl rest
        | cons z xs => exact .inr (by rw [rest.1]; exact List.mem_cons_of_mem _ List.mem_cons_self)
      · exact (ih _ rest later).imp_right (List.mem_cons_of_mem y)

theorem last_spins (next : P → P) (p : P) (links : Links null next p (ys ++ [dev]) dev) (checked : ∀ p, check p = .ok ()) :
    (Chain.last null check next p).Diverges := by
  have inside (p' : P) (member : p' ∈ ys ++ [dev]) : next p' ∈ ys ++ [dev] := by
    rcases links_next next p dev p' links member with last | further
    · rw [last]
      exact List.mem_append_right ys List.mem_cons_self
    · exact further
  have first : p ∈ ys ++ [dev] := by
    cases ys with
    | nil => exact List.mem_singleton.mpr links.1
    | cons y ys => exact links.1 ▸ List.mem_cons_self
  refine loop_diverges _ (· ∈ ys ++ [dev]) (fun p' member => ⟨next p', ?_, inside p' member⟩) p first
  rw [Chain.last_body_eq (checked p'), if_neg (links_nonnull links (inside p' member))]

theorem append_stuck (spells : Spells null l (ys ++ dev :: zs)) (checked : ∀ p, check p = .ok ()) (other : P) (absent : other ∉ ys ++ [dev]) :
    (({ l with next := Function.update (Function.update l.next dev null) dev dev } : Linked P).append null check other).Diverges := by
  have here : (liftM (check other) : Comp ε Unit).Returns () := (ends_lift _ _).mpr (checked other).symm
  have some_ : l.head ≠ null := fun none => by simpa using spells.head_eq_null.mp none
  have links : Links null (Function.update (Function.update l.next dev dev) other null) l.head (ys ++ [dev]) dev := by
    refine links_congr (links_looped spells dev) (fun p member => Function.update_of_ne ?_ _ _)
    rintro rfl
    exact absent member
  have spins := last_spins _ _ links checked
  refine bind_diverges_later _ _ () here ?_
  dsimp only
  rw [Function.update_idem, if_neg some_]
  exact bind_diverges _ _ spins

theorem looped_unspelled (spells : Spells null l (ys ++ dev :: zs)) (xs : List P) :
    ¬Spells null ({ l with next := Function.update (Function.update l.next dev null) dev dev } : Linked P) xs := by
  intro spelled
  have links := links_looped spells dev
  rw [Function.update_idem] at spelled
  let check : P → Except Unit Unit := fun _ => .ok ()
  have spins : (Chain.last null check (Function.update l.next dev dev) l.head).Diverges := last_spins _ _ links (fun _ => rfl)
  cases xs with
  | nil =>
      have none : l.head = null := spelled.head_eq_null.mpr rfl
      exact absurd (spells.head_eq_null.mp none) (by simp)
  | cons x xs =>
      have head : l.head = x := spelled.links.1
      rw [head] at spins
      have returned : (Chain.last null check (Function.update l.next dev dev) x).Returns (lastOr x xs) :=
        Chain.last_returns spelled.links (fun _ _ => rfl)
      exact (diverges_iff _).mp spins _ returned

end Loops

end Linked

-- Loops that go along a chain and write something down at each cell.
namespace Walk

open Comp LinkedQueue

variable {ε P L : Type}

section Loop

variable (stop : P → Bool) (next : P → P) (note : P → Comp ε (List L))

def walkBody (state : P × List L) : Comp ε (Iter (P × List L) (List L)) :=
  let (p, out) := state
  if stop p then pure (.done out)
  else do
    let new ← note p
    pure (.next (next p, out ++ new))

-- while (!stop(p)) { note(p); p = p->next; }
def walk (p : P) : Comp ε (List L) := rounds (walkBody stop next note) (p, [])

end Loop

section Chains

variable {I : Type} {stop : P → Bool} {next : P → P} {note : P → Comp ε (List L)} (cell : I → P) (noted : I → List L)

theorem walk_from (items : List I) (null p q : P) (out : List L) (links : Links null next p (items.map cell) q)
    (goes : ∀ i ∈ items, stop (cell i) = false) (stops : stop q = true) (notes : ∀ i ∈ items, (note (cell i)).Returns (noted i)) :
    (rounds (walkBody stop next note) (p, out)).Returns (out ++ items.flatMap noted) := by
  induction items generalizing p out with
  | nil =>
      obtain rfl : p = q := links
      rw [List.flatMap_nil, List.append_nil]
      refine returns_rounds_done _ _ _ ?_
      rw [walkBody, if_pos stops]
      exact (ends_pure _ _).mpr rfl
  | cons i items ih =>
      obtain ⟨rfl, -, rest⟩ := links
      have pass : (walkBody stop next note (cell i, out)).Returns (.next (next (cell i), out ++ noted i)) := by
        rw [walkBody, goes i List.mem_cons_self]
        exact (ends_bind_of_returns _ _ _ _ (notes i List.mem_cons_self)).mpr ((ends_pure _ _).mpr rfl)
      rw [List.flatMap_cons, ← List.append_assoc]
      exact (ends_rounds_next _ _ _ _ pass).mpr (ih (next (cell i)) (out ++ noted i) rest
        (fun j member => goes j (List.mem_cons_of_mem i member)) (fun j member => notes j (List.mem_cons_of_mem i member)))

theorem walk_returns (items : List I) (null p q : P) (links : Links null next p (items.map cell) q)
    (goes : ∀ i ∈ items, stop (cell i) = false) (stops : stop q = true) (notes : ∀ i ∈ items, (note (cell i)).Returns (noted i)) :
    (walk stop next note p).Returns (items.flatMap noted) :=
  walk_from cell noted items null p q [] links goes stops notes

end Chains

end Walk
