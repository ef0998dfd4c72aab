import Deimos.Rtl.Lifecycle

set_option autoImplicit false

namespace Deimos.Net

open Comp LinkedQueue Rtl

inductive DevOp where
  | register (dev : Word)
  | remove (dev : Word)

def execDev : DevOp → State → Comp Stop (Word × State)
  | .register dev, s => registerNetDev dev s
  | .remove dev, s => removeNetDev dev s

def Accepted (types : Word → Word) (dev : Word) : Prop := dev ≠ 0 ∧ types dev = NETDEV_ETHERNET

instance (types : Word → Word) (dev : Word) : Decidable (Accepted types dev) := inferInstanceAs (Decidable (_ ∧ _))

def expected (types : Word → Word) : DevOp → List Word → Word × List Word
  | .register dev, devs => if Accepted types dev then (0, devs ++ [dev]) else (1, devs)
  | .remove dev, devs => if dev ∈ devs then (0, devs.erase dev) else (1, devs)

def Tracks : State → List Word → List DevOp → Prop
  | _, _, [] => True
  | s, devs, op :: ops => ∃ s', (execDev op s).Returns ((expected s.types op devs).1, s') ∧ s'.types = s.types ∧
      Linked.Spells 0 s'.netDevs (expected s.types op devs).2 ∧ Tracks s' (expected s.types op devs).2 ops

def Distinct (types : Word → Word) : List Word → List DevOp → Prop
  | _, [] => True
  | devs, op :: ops => (∀ dev, op = .register dev → Accepted types dev → dev ∉ devs) ∧ Distinct types (expected types op devs).2 ops

section Calls

variable (s : State) (devs : List Word) (spells : Linked.Spells 0 s.netDevs devs) (dev : Word)

theorem register_refused (bad : ¬Accepted s.types dev) : registerNetDev dev s = pure (1, s) := by
  unfold registerNetDev
  by_cases null : dev = 0
  · rw [if_pos null]
  · rw [if_neg null, if_neg (fun ethernet => bad ⟨null, ethernet⟩)]

theorem register_accepted (good : Accepted s.types dev) (l : Linked Word)
    (appended : (s.netDevs.append 0 (fun _ => .ok ()) dev : Comp Stop (Linked Word)).Returns l) :
    (registerNetDev dev s).Returns (0, { s with netDevs := l }) := by
  unfold registerNetDev
  rw [if_neg good.1, if_pos good.2]
  exact (ends_bind_of_returns _ _ _ _ appended).mpr ((ends_pure _ _).mpr rfl)

include spells

theorem register_new (good : Accepted s.types dev) (fresh : dev ∉ devs) :
    ∃ l, (registerNetDev dev s).Returns (0, { s with netDevs := l }) ∧ Linked.Spells 0 l (devs ++ [dev]) := by
  obtain ⟨l, appended, longer, -⟩ := Linked.append_returns spells good.1 fresh (fun _ _ => rfl)
  exact ⟨l, register_accepted s dev good l appended, longer⟩

theorem remove_listed (member : dev ∈ devs) :
    ∃ l, (removeNetDev dev s).Returns (0, { s with netDevs := l }) ∧ Linked.Spells 0 l (devs.erase dev) := by
  have some_ : dev ≠ 0 := spells.nonnull member
  have nonempty : s.netDevs.head ≠ 0 := fun none => List.ne_nil_of_mem member (spells.head_eq_null.mp none)
  obtain ⟨ys, zs, absent, rfl, left⟩ := List.exists_erase_eq member
  obtain ⟨l, removed, shorter, -⟩ := Linked.remove_returns spells (fun _ _ => rfl)
  refine ⟨l, ?_, left ▸ shorter⟩
  unfold removeNetDev
  rw [if_neg (not_or.mpr ⟨some_, nonempty⟩)]
  exact (ends_bind_of_returns _ _ _ _ removed).mpr ((ends_pure _ _).mpr rfl)

theorem remove_absent (absent : dev ∉ devs) : (removeNetDev dev s).Returns (1, s) := by
  unfold removeNetDev
  by_cases none : dev = 0 ∨ s.netDevs.head = 0
  · rw [if_pos none]
    exact (ends_pure _ _).mpr rfl
  · have nonempty : devs ≠ [] := fun empty => none (.inr (spells.head_eq_null.mpr empty))
    have missing : (s.netDevs.remove 0 (fun _ => .ok ()) dev : Comp Stop (Option (Linked Word))).Returns Option.none :=
      Linked.remove_absent spells absent nonempty (fun _ _ => rfl)
    rw [if_neg none]
    exact (ends_bind_of_returns _ _ _ _ missing).mpr ((ends_pure _ _).mpr rfl)

-- Registered again, a device cuts off what was behind it and links to itself.
theorem register_again (good : Accepted s.types dev) (member : dev ∈ devs) :
    ∃ l, (registerNetDev dev s).Returns (0, { s with netDevs := l }) ∧ (∀ xs, ¬Linked.Spells 0 l xs) ∧
      ∀ other, Accepted s.types other → other ∉ devs → (registerNetDev other { s with netDevs := l }).Diverges := by
  obtain ⟨ys, zs, rfl⟩ := List.append_of_mem member
  let again : Linked Word := ⟨s.netDevs.head, Function.update (Function.update s.netDevs.next dev 0) dev dev⟩
  have appended : (s.netDevs.append 0 (fun _ => .ok ()) dev : Comp Stop (Linked Word)).Returns again := Linked.append_again spells (fun _ => rfl)
  refine ⟨again, register_accepted s dev good again appended, Linked.looped_unspelled spells, fun other fits absent => ?_⟩
  have apart : other ∉ ys ++ [dev] := by
    intro inside
    refine absent (List.mem_append.mpr ((List.mem_append.mp inside).imp_right (fun here => ?_)))
    exact List.mem_singleton.mp here ▸ List.mem_cons_self
  have stuck : (again.append 0 (fun _ => .ok ()) other : Comp Stop (Linked Word)).Diverges := Linked.append_stuck spells (fun _ => rfl) other apart
  unfold registerNetDev
  rw [if_neg fits.1, if_pos fits.2]
  exact bind_diverges _ _ stuck

theorem exec_expected (op : DevOp) (distinct : ∀ dev, op = .register dev → Accepted s.types dev → dev ∉ devs) :
    ∃ l, (execDev op s).Returns ((expected s.types op devs).1, { s with netDevs := l }) ∧ Linked.Spells 0 l (expected s.types op devs).2 := by
  cases op with
  | register dev =>
      by_cases good : Accepted s.types dev
      · rw [expected, if_pos good]
        exact register_new s devs spells dev good (distinct dev rfl good)
      · rw [expected, if_neg good, execDev, register_refused s dev good]
        exact ⟨s.netDevs, (ends_pure _ _).mpr rfl, spells⟩
  | remove dev =>
      by_cases member : dev ∈ devs
      · rw [expected, if_pos member]
        exact remove_listed s devs spells dev member
      · rw [expected, if_neg member]
        exact ⟨s.netDevs, remove_absent s devs spells dev member, spells⟩

end Calls

theorem net_devs_exact (ops : List DevOp) (s : State) (devs : List Word) (spells : Linked.Spells 0 s.netDevs devs) :
    (Tracks s devs ops ↔ Distinct s.types devs ops) ∧
      ∀ dev ∈ devs, Accepted s.types dev → ∃ l, (registerNetDev dev s).Returns (0, { s with netDevs := l }) ∧ (∀ xs, ¬Linked.Spells 0 l xs) ∧
        ∀ other, Accepted s.types other → other ∉ devs → (registerNetDev other { s with netDevs := l }).Diverges := by
  refine ⟨?_, fun dev member good => register_again s devs spells dev good member⟩
  induction ops generalizing s devs with
  | nil => exact Iff.rfl
  | cons op ops ih =>
      constructor
      · rintro ⟨s', returned, types, spells', rest⟩
        refine ⟨?_, types ▸ (ih s' _ spells').mp rest⟩
        rintro dev rfl good member
        obtain ⟨l, again, unspelled, -⟩ := register_again s devs spells dev good member
        obtain ⟨-, rfl⟩ := Prod.mk.inj (returns_unique _ _ _ returned again)
        exact unspelled _ spells'
      · rintro ⟨distinct, rest⟩
        obtain ⟨l, returned, spells'⟩ := exec_expected s devs spells op distinct
        exact ⟨_, returned, rfl, spells', (ih { s with netDevs := l } _ spells').mpr rest⟩

def ethernets : State := { cold 11 with types := fun _ => NETDEV_ETHERNET }

theorem net_devs_exact_two : Tracks ethernets [] [.register 0x1000, .register 0x2000, .remove 0x1000, .register 0x1000] ∧
    ¬Tracks ethernets [] [.register 0x1000, .register 0x2000, .register 0x1000] := by
  have ethernet (dev : Word) (some_ : dev ≠ 0) : Accepted ethernets.types dev := ⟨some_, rfl⟩
  have first := net_devs_exact [.register 0x1000, .register 0x2000, .remove 0x1000, .register 0x1000] ethernets [] queue_empty
  have second := net_devs_exact [.register 0x1000, .register 0x2000, .register 0x1000] ethernets [] queue_empty
  refine ⟨first.1.mpr ?_, fun tracks => ?_⟩
  · refine ⟨?_, ?_, nofun, ?_, trivial⟩ <;> rintro dev ⟨⟩ - <;> decide
  · obtain ⟨-, -, again, -⟩ := second.1.mp tracks
    exact again 0x1000 rfl (ethernet _ (by decide)) (by decide)

end Deimos.Net
