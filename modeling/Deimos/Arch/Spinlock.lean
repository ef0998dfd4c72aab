import Deimos.Lib.Run
import Deimos.Lib.Tso

set_option autoImplicit false

namespace Deimos.Arch

open Run Tso

-- Where a processor is in spin_lock and spin_unlock: at the compare and swap,
-- in the inner loop, between the two calls, at the barrier, and at the store.
inductive Pc where
  | out | swap | test | held | fence | clear
deriving DecidableEq, Repr

def Pc.holding : Pc → Bool
  | .held | .fence | .clear => true
  | .out | .swap | .test => false

inductive Event (Cpu Addr : Type) where
  | acquired (c : Cpu)
  | read (c : Cpu) (a : Addr) (v : BitVec 32)
  | written (c : Cpu) (a : Addr) (v : BitVec 32)
  | released (c : Cpu)

variable {Cpu Addr : Type} [DecidableEq Cpu] [DecidableEq Addr]

-- The log has its newest entry first.
structure Smp (Cpu Addr : Type) extends Machine Cpu Addr (BitVec 32) where
  pc : Cpu → Pc
  log : List (Event Cpu Addr)

namespace Smp

def booted (m₀ : Addr → BitVec 32) : Smp Cpu Addr := ⟨⟨m₀, fun _ => []⟩, fun _ => .out, []⟩

def goto (c : Cpu) (pc : Pc) (s : Smp Cpu Addr) : Smp Cpu Addr := { s with pc := Function.update s.pc c pc }

def note (e : Event Cpu Addr) (s : Smp Cpu Addr) : Smp Cpu Addr := { s with log := e :: s.log }

def locked (lock : Addr) (s : Smp Cpu Addr) : Smp Cpu Addr := { s with mem := Function.update s.mem lock 1 }

def stored (c : Cpu) (a : Addr) (v : BitVec 32) (s : Smp Cpu Addr) : Smp Cpu Addr := { s with toMachine := s.store c a v }

def drained (c : Cpu) (s : Smp Cpu Addr) : Smp Cpu Addr := { s with toMachine := s.drain c }

end Smp

-- One instruction of a processor, or a store leaving its buffer. A locked
-- instruction and a barrier wait for the buffer to be empty.
inductive SmpStep (lock : Addr) (guarded : Addr → Prop) (s : Smp Cpu Addr) : Option Cpu → Smp Cpu Addr → Prop
  | call (c : Cpu) (here : s.pc c = .out) : SmpStep lock guarded s (some c) (s.goto c .swap)
  | swapped (c : Cpu) (here : s.pc c = .swap) (empty : s.buf c = []) (free : s.mem lock = 0) :
      SmpStep lock guarded s (some c) (((s.locked lock).goto c .held).note (.acquired c))
  | refused (c : Cpu) (here : s.pc c = .swap) (empty : s.buf c = []) (taken : s.mem lock ≠ 0) :
      SmpStep lock guarded s (some c) (s.goto c .test)
  | spin (c : Cpu) (here : s.pc c = .test) (taken : s.view c lock ≠ 0) : SmpStep lock guarded s (some c) s
  | retry (c : Cpu) (here : s.pc c = .test) (free : s.view c lock = 0) : SmpStep lock guarded s (some c) (s.goto c .swap)
  | read (c : Cpu) (a : Addr) (here : s.pc c = .held) (shared : guarded a) :
      SmpStep lock guarded s (some c) (s.note (.read c a (s.view c a)))
  | write (c : Cpu) (a : Addr) (v : BitVec 32) (here : s.pc c = .held) (shared : guarded a) :
      SmpStep lock guarded s (some c) ((s.stored c a v).note (.written c a v))
  | elsewhere (c : Cpu) (a : Addr) (v : BitVec 32) (here : s.pc c = .out ∨ s.pc c = .held) (own : ¬guarded a) (other : a ≠ lock) :
      SmpStep lock guarded s (some c) (s.stored c a v)
  | unlock (c : Cpu) (here : s.pc c = .held) : SmpStep lock guarded s (some c) (s.goto c .fence)
  | synchronize (c : Cpu) (here : s.pc c = .fence) (empty : s.buf c = []) : SmpStep lock guarded s (some c) (s.goto c .clear)
  | clear (c : Cpu) (here : s.pc c = .clear) :
      SmpStep lock guarded s (some c) (((s.stored c lock 0).goto c .out).note (.released c))
  | drain (c : Cpu) : SmpStep lock guarded s none (s.drained c)

def AnyStep (lock : Addr) (guarded : Addr → Prop) (s t : Smp Cpu Addr) : Prop := ∃ actor, SmpStep lock guarded s actor t

def AloneStep (lock : Addr) (guarded : Addr → Prop) (c : Cpu) (s t : Smp Cpu Addr) : Prop :=
  SmpStep lock guarded s none t ∨ SmpStep lock guarded s (some c) t

def owner : List (Event Cpu Addr) → Option Cpu
  | [] => none
  | .acquired c :: _ => some c
  | .released _ :: _ => none
  | .read _ _ _ :: log => owner log
  | .written _ _ _ :: log => owner log

def latest (m₀ : Addr → BitVec 32) : List (Event Cpu Addr) → Addr → BitVec 32
  | [] => m₀
  | .written _ a v :: log => Function.update (latest m₀ log) a v
  | .acquired _ :: log => latest m₀ log
  | .released _ :: log => latest m₀ log
  | .read _ _ _ :: log => latest m₀ log

-- One section after another, each of one processor, and every read is of what
-- was written last.
def Serial (m₀ : Addr → BitVec 32) : List (Event Cpu Addr) → Prop
  | [] => True
  | .acquired _ :: log => owner log = none ∧ Serial m₀ log
  | .released c :: log => owner log = some c ∧ Serial m₀ log
  | .written c _ _ :: log => owner log = some c ∧ Serial m₀ log
  | .read c a v :: log => owner log = some c ∧ v = latest m₀ log a ∧ Serial m₀ log

structure Releasing (lock : Addr) (s : Smp Cpu Addr) (c : Cpu) : Prop where
  first : ∃ rest, s.buf c = (lock, 0) :: rest ∧ Absent lock rest
  others : ∀ d, d ≠ c → Absent lock (s.buf d)
  free : owner s.log = none

structure LockInv (lock : Addr) (guarded : Addr → Prop) (m₀ : Addr → BitVec 32) (s : Smp Cpu Addr) : Prop where
  owned : ∀ c, (s.pc c).holding = true ↔ owner s.log = some c
  serial : Serial m₀ s.log
  free : s.mem lock = 0 → owner s.log = none ∧ ∀ c, Absent lock (s.buf c)
  taken : s.mem lock ≠ 0 → (∃ c, owner s.log = some c ∧ ∀ d, Absent lock (s.buf d)) ∨ ∃ c, Releasing lock s c
  unguarded : ∀ c, owner s.log ≠ some c → ∀ e ∈ s.buf c, ¬guarded e.1
  current : ∀ c, owner s.log = some c → ∀ a, guarded a → s.view c a = latest m₀ s.log a
  settled : owner s.log = none → ∀ a, guarded a → s.mem a = latest m₀ s.log a
  empty : ∀ c, s.pc c = .clear → s.buf c = []

variable {lock : Addr} {guarded : Addr → Prop} {m₀ : Addr → BitVec 32}

omit [DecidableEq Addr] in
theorem Smp.goto_here (s : Smp Cpu Addr) (c : Cpu) (pc : Pc) : (s.goto c pc).pc c = pc := by
  simp [Smp.goto]

omit [DecidableEq Addr] in
theorem Smp.goto_other (s : Smp Cpu Addr) (c d : Cpu) (pc : Pc) (other : d ≠ c) : (s.goto c pc).pc d = s.pc d := by
  simp [Smp.goto, other]

omit [DecidableEq Cpu] in
theorem lock_initial (unlocked : m₀ lock = 0) : LockInv lock guarded m₀ (Smp.booted m₀ : Smp Cpu Addr) where
  owned := fun _ => iff_of_false (fun holding => nomatch holding) (fun same => nomatch same)
  serial := trivial
  free := fun _ => ⟨rfl, fun _ _ member => nomatch member⟩
  taken := fun taken => absurd unlocked taken
  unguarded := fun _ _ _ member => nomatch member
  current := fun _ same => nomatch same
  settled := fun _ _ _ => rfl
  empty := fun _ _ => rfl

omit [DecidableEq Addr] in
theorem Releasing.stored {s : Smp Cpu Addr} {c : Cpu} (releasing : Releasing lock s c) (d : Cpu) (a : Addr) (v : BitVec 32)
    (other : a ≠ lock) : Releasing lock (s.stored d a v) c where
  first := by
    obtain ⟨rest, first, absent⟩ := releasing.first
    by_cases same : c = d
    · subst same
      refine ⟨rest ++ [(a, v)], ?_, absent_store rest lock a v absent other⟩
      exact (store_buf s.toMachine c a v).trans (congrArg (· ++ [(a, v)]) first)
    · exact ⟨rest, (store_buf_other s.toMachine d c a v same).trans first, absent⟩
  others := by
    intro e apart
    by_cases same : e = d
    · subst same
      exact (store_buf s.toMachine e a v).symm ▸ absent_store _ lock a v (releasing.others e apart) other
    · exact (store_buf_other s.toMachine d e a v same).symm ▸ releasing.others e apart
  free := releasing.free

omit [DecidableEq Addr] in
theorem absent_stored (s : Smp Cpu Addr) (c : Cpu) (a : Addr) (v : BitVec 32) (other : a ≠ lock) (absent : ∀ d, Absent lock (s.buf d)) (d : Cpu) :
    Absent lock ((s.stored c a v).buf d) := by
  by_cases same : d = c
  · subst same
    exact (store_buf s.toMachine d a v).symm ▸ absent_store _ lock a v (absent d) other
  · exact (store_buf_other s.toMachine c d a v same).symm ▸ absent d

section Kept

variable {s : Smp Cpu Addr} (inv : LockInv lock guarded m₀ s) (c : Cpu)
include inv

omit [DecidableEq Cpu] in
theorem LockInv.still_taken (t : Smp Cpu Addr) (mem : t.mem = s.mem) (buf : t.buf = s.buf) (own : owner t.log = owner s.log)
    (taken : t.mem lock ≠ 0) : (∃ c, owner t.log = some c ∧ ∀ d, Absent lock (t.buf d)) ∨ ∃ c, Releasing lock t c := by
  rw [buf, own]
  cases inv.taken (mem ▸ taken) with
  | inl held => exact .inl held
  | inr pending =>
      obtain ⟨c, releasing⟩ := pending
      exact .inr ⟨c, buf ▸ releasing.first, buf ▸ releasing.others, own.trans releasing.free⟩

theorem LockInv.goto (pc : Pc) (same : pc.holding = (s.pc c).holding) (empty : pc = .clear → s.buf c = []) :
    LockInv lock guarded m₀ (s.goto c pc) :=
  { inv with
    owned := by
      intro d
      by_cases here : d = c
      · subst here
        rw [s.goto_here, same]
        exact inv.owned d
      · rw [s.goto_other c d pc here]
        exact inv.owned d
    taken := inv.still_taken _ rfl rfl rfl
    empty := by
      intro d at_
      by_cases here : d = c
      · subst here
        exact empty ((s.goto_here d pc).symm.trans at_)
      · exact inv.empty d ((s.goto_other c d pc here).symm.trans at_) }

theorem LockInv.swapped (apart : ¬guarded lock) (here : s.pc c = .swap) (drained : s.buf c = []) (unlocked : s.mem lock = 0) :
    LockInv lock guarded m₀ (((s.locked lock).goto c .held).note (.acquired c)) := by
  obtain ⟨none, absent⟩ := inv.free unlocked
  have kept (a : Addr) (shared : guarded a) : Function.update s.mem lock 1 a = s.mem a :=
    Function.update_of_ne (fun same : a = lock => apart (same ▸ shared)) 1 s.mem
  have one : Function.update s.mem lock 1 lock = 1 := Function.update_self lock 1 s.mem
  exact
    { owned := by
        intro d
        by_cases same : d = c
        · subst same
          exact iff_of_true (congrArg Pc.holding ((s.locked lock).goto_here d .held)) rfl
        · have idle : owner s.log ≠ some d := none ▸ nofun
          refine iff_of_false (fun holding => idle ((inv.owned d).mp ?_)) (fun own => same (Option.some.inj own).symm)
          exact (congrArg Pc.holding ((s.locked lock).goto_other c d .held same)).symm.trans holding
      serial := ⟨none, inv.serial⟩
      free := fun zero => absurd (one.symm.trans zero) (by decide)
      taken := fun _ => .inl ⟨c, rfl, absent⟩
      unguarded := fun d _ => inv.unguarded d (none ▸ nofun)
      current := by
        intro d own a shared
        obtain rfl : c = d := Option.some.inj own
        have drained' : (((s.locked lock).goto c .held).note (.acquired c)).buf c = [] := drained
        rw [view_drained _ c drained']
        exact (kept a shared).trans (inv.settled none a shared)
      settled := fun none => nomatch none
      empty := by
        intro d at_
        by_cases same : d = c
        · subst same
          exact drained
        · exact inv.empty d (((s.locked lock).goto_other c d .held same).symm.trans at_) }

omit [DecidableEq Cpu] in
theorem LockInv.held (holding : (s.pc c).holding = true) : owner s.log = some c := (inv.owned c).mp holding

omit [DecidableEq Cpu] in
theorem LockInv.read (a : Addr) (here : s.pc c = .held) (shared : guarded a) :
    LockInv lock guarded m₀ (s.note (.read c a (s.view c a))) := by
  have own : owner s.log = some c := inv.held c (congrArg Pc.holding here)
  exact
    { owned := inv.owned
      serial := ⟨own, inv.current c own a shared, inv.serial⟩
      free := inv.free
      taken := inv.still_taken _ rfl rfl rfl
      unguarded := inv.unguarded
      current := inv.current
      settled := inv.settled
      empty := inv.empty }

theorem LockInv.empty_stored (a : Addr) (v : BitVec 32) (here : s.pc c ≠ .clear) (d : Cpu) (at_ : s.pc d = .clear) :
    (s.stored c a v).buf d = [] := by
  have other : d ≠ c := fun same => here (same ▸ at_)
  exact (store_buf_other s.toMachine c d a v other).trans (inv.empty d at_)

theorem LockInv.elsewhere (a : Addr) (v : BitVec 32) (here : s.pc c = .out ∨ s.pc c = .held) (own : ¬guarded a) (other : a ≠ lock) :
    LockInv lock guarded m₀ (s.stored c a v) :=
  { inv with
    free := fun zero => ⟨(inv.free zero).1, absent_stored s c a v other (inv.free zero).2⟩
    taken := fun taken => (inv.taken taken).imp
      (fun ⟨d, own', absent⟩ => ⟨d, own', absent_stored s c a v other absent⟩)
      (fun ⟨d, releasing⟩ => ⟨d, releasing.stored c a v other⟩)
    unguarded := by
      intro d idle e member
      by_cases same : d = c
      · subst same
        cases List.mem_append.mp ((store_buf s.toMachine d a v) ▸ member) with
        | inl old => exact inv.unguarded d idle e old
        | inr new => exact List.mem_singleton.mp new ▸ own
      · exact inv.unguarded d idle e ((store_buf_other s.toMachine c d a v same) ▸ member)
    current := by
      intro d own' x shared
      refine Eq.trans ?_ (inv.current d own' x shared)
      by_cases same : d = c
      · subst same
        have far : x ≠ a := fun same => own (same ▸ shared)
        have kept : Function.update (s.view d) a v x = s.view d x := by rw [Function.update_of_ne far]
        exact (congrFun (view_store s.toMachine d a v) x).trans kept
      · exact congrArg (settle s.mem · x) (store_buf_other s.toMachine c d a v same)
    empty := inv.empty_stored c a v (by rintro at_; obtain at' | at' := here <;> rw [at_] at at' <;> cases at') }

theorem LockInv.write (apart : ¬guarded lock) (a : Addr) (v : BitVec 32) (here : s.pc c = .held) (shared : guarded a) :
    LockInv lock guarded m₀ ((s.stored c a v).note (.written c a v)) := by
  have own : owner s.log = some c := inv.held c (congrArg Pc.holding here)
  have other : a ≠ lock := fun same => apart (same ▸ shared)
  exact
    { owned := inv.owned
      serial := ⟨own, inv.serial⟩
      free := fun zero => absurd (own.symm.trans (inv.free zero).1) nofun
      taken := by
        intro taken
        cases inv.taken taken with
        | inl held =>
            obtain ⟨d, own', absent⟩ := held
            exact .inl ⟨d, own', absent_stored s c a v other absent⟩
        | inr pending =>
            obtain ⟨d, releasing⟩ := pending
            exact absurd (own.symm.trans releasing.free) nofun
      unguarded := by
        intro d idle e member
        have same : d ≠ c := fun same => idle (same ▸ own)
        exact inv.unguarded d idle e ((store_buf_other s.toMachine c d a v same) ▸ member)
      current := by
        intro d own' x shared'
        obtain rfl : c = d := Option.some.inj (own.symm.trans own')
        refine (congrFun (view_store s.toMachine c a v) x).trans ?_
        change Function.update (s.view c) a v x = Function.update (latest m₀ s.log) a v x
        by_cases same : x = a
        · rw [same, Function.update_self, Function.update_self]
        · rw [Function.update_of_ne same, Function.update_of_ne same, inv.current c own x shared']
      settled := fun none => absurd (own.symm.trans none) nofun
      empty := inv.empty_stored c a v (here ▸ nofun) }

theorem LockInv.clear (apart : ¬guarded lock) (here : s.pc c = .clear) :
    LockInv lock guarded m₀ (((s.stored c lock 0).goto c .out).note (.released c)) := by
  have own : owner s.log = some c := inv.held c (congrArg Pc.holding here)
  have drained := inv.empty c here
  have pending : (((s.stored c lock 0).goto c .out).note (.released c)).buf c = [(lock, 0)] :=
    (store_buf s.toMachine c lock 0).trans (congrArg (· ++ [(lock, 0)]) drained)
  have still (d : Cpu) (same : d ≠ c) : (((s.stored c lock 0).goto c .out).note (.released c)).buf d = s.buf d :=
    store_buf_other s.toMachine c d lock 0 same
  have moved (d : Cpu) (same : d ≠ c) : (((s.stored c lock 0).goto c .out).note (.released c)).pc d = s.pc d :=
    (s.stored c lock 0).goto_other c d .out same
  have left : (((s.stored c lock 0).goto c .out).note (.released c)).pc c = .out := (s.stored c lock 0).goto_here c .out
  exact
    { owned := by
        intro d
        refine iff_of_false (fun holding => ?_) nofun
        by_cases same : d = c
        · subst same
          exact nomatch (left ▸ holding : Pc.out.holding = true)
        · exact same (Option.some.inj (own.symm.trans ((inv.owned d).mp (moved d same ▸ holding)))).symm
      serial := ⟨own, inv.serial⟩
      free := fun zero => absurd (own.symm.trans (inv.free zero).1) nofun
      taken := by
        intro taken
        cases inv.taken taken with
        | inl held =>
            obtain ⟨_, -, absent⟩ := held
            exact .inr ⟨c, ⟨[], pending, fun e member => nomatch member⟩, fun d same => still d same ▸ absent d, rfl⟩
        | inr others =>
            obtain ⟨d, releasing⟩ := others
            exact absurd (own.symm.trans releasing.free) nofun
      unguarded := by
        intro d _ e member
        by_cases same : d = c
        · subst same
          rw [pending] at member
          exact List.mem_singleton.mp member ▸ apart
        · have idle : owner s.log ≠ some d := fun own' => same (Option.some.inj (own.symm.trans own')).symm
          exact inv.unguarded d idle e (still d same ▸ member)
      current := fun d own' => nomatch own'
      settled := fun _ a shared => (congrFun (view_drained s.toMachine c drained) a).symm.trans (inv.current c own a shared)
      empty := by
        intro d at_
        by_cases same : d = c
        · subst same
          exact nomatch left.symm.trans at_
        · exact (still d same).trans (inv.empty d (moved d same ▸ at_)) }

omit [DecidableEq Cpu] in
theorem LockInv.absent_shared (idle : owner s.log ≠ some c) (x : Addr) (shared : guarded x) : Absent x (s.buf c) :=
  fun e member same => inv.unguarded c idle e member (same ▸ shared)

theorem LockInv.drained : LockInv lock guarded m₀ (s.drained c) := by
  have fewer (x : Addr) (d : Cpu) (absent : Absent x (s.buf d)) : Absent x ((s.drained c).buf d) :=
    fun e member => absent e (drain_among s.toMachine c d e member)
  have shorter (d : Cpu) (at_ : s.pc d = .clear) : (s.drained c).buf d = [] :=
    List.eq_nil_iff_forall_not_mem.mpr (fun e member =>
      absurd (drain_among s.toMachine c d e member) (inv.empty d at_ ▸ List.not_mem_nil))
  have current (d : Cpu) (own : owner s.log = some d) (x : Addr) (shared : guarded x) : (s.drained c).view d x = latest m₀ s.log x := by
    refine Eq.trans ?_ (inv.current d own x shared)
    by_cases same : d = c
    · subst same
      exact congrFun (view_drain s.toMachine d) x
    · have idle : owner s.log ≠ some c := fun own' => same (Option.some.inj (own.symm.trans own'))
      exact view_drain_other s.toMachine c d x same (inv.absent_shared c idle x shared)
  have settled (none : owner s.log = none) (x : Addr) (shared : guarded x) : (s.drained c).mem x = latest m₀ s.log x :=
    (drain_mem_absent s.toMachine c x (inv.absent_shared c (none ▸ nofun) x shared)).trans (inv.settled none x shared)
  by_cases absent : Absent lock (s.buf c)
  · have same : (s.drained c).mem lock = s.mem lock := drain_mem_absent s.toMachine c lock absent
    exact
      { owned := inv.owned
        serial := inv.serial
        free := fun zero => ⟨(inv.free (same ▸ zero)).1, fun d => fewer lock d ((inv.free (same ▸ zero)).2 d)⟩
        taken := by
          intro taken
          cases inv.taken (same ▸ taken) with
          | inl held =>
              obtain ⟨d, own, none⟩ := held
              exact .inl ⟨d, own, fun e => fewer lock e (none e)⟩
          | inr pending =>
              obtain ⟨d, releasing⟩ := pending
              obtain ⟨rest, first, none⟩ := releasing.first
              have other : d ≠ c := fun same => absent (lock, 0) (same ▸ first ▸ List.mem_cons_self) rfl
              exact .inr ⟨d, ⟨rest, (drain_buf_other s.toMachine c d other).trans first, none⟩,
                fun e apart => fewer lock e (releasing.others e apart), releasing.free⟩
        unguarded := fun d idle e member => inv.unguarded d idle e (drain_among s.toMachine c d e member)
        current := current
        settled := settled
        empty := shorter }
  · have taken : s.mem lock ≠ 0 := fun zero => absent ((inv.free zero).2 c)
    cases inv.taken taken with
    | inl held => exact absurd (held.choose_spec.2 c) absent
    | inr pending =>
        obtain ⟨d, releasing⟩ := pending
        obtain rfl : d = c := by
          by_contra other
          exact absent (releasing.others c (Ne.symm other))
        obtain ⟨rest, first, none⟩ := releasing.first
        have zero : (s.drained d).mem lock = 0 := drain_mem s.toMachine d lock 0 rest first
        have left : (s.drained d).buf d = rest := drain_buf s.toMachine d lock 0 rest first
        exact
          { owned := inv.owned
            serial := inv.serial
            free := by
              refine fun _ => ⟨releasing.free, fun e => ?_⟩
              by_cases same : e = d
              · subst same
                exact left ▸ none
              · exact fewer lock e (releasing.others e same)
            taken := fun taken => absurd zero taken
            unguarded := fun e idle f member => inv.unguarded e idle f (drain_among s.toMachine d e f member)
            current := current
            settled := settled
            empty := shorter }

theorem LockInv.step (apart : ¬guarded lock) (actor : Option Cpu) (t : Smp Cpu Addr) (step : SmpStep lock guarded s actor t) :
    LockInv lock guarded m₀ t := by
  cases step with
  | call c here => exact inv.goto c .swap (here ▸ rfl) nofun
  | swapped c here empty free => exact inv.swapped c apart here empty free
  | refused c here empty taken => exact inv.goto c .test (here ▸ rfl) nofun
  | spin c here taken => exact inv
  | retry c here free => exact inv.goto c .swap (here ▸ rfl) nofun
  | read c a here shared => exact inv.read c a here shared
  | write c a v here shared => exact inv.write c apart a v here shared
  | elsewhere c a v here own other => exact inv.elsewhere c a v here own other
  | unlock c here => exact inv.goto c .fence (here ▸ rfl) nofun
  | synchronize c here empty => exact inv.goto c .clear (here ▸ rfl) (fun _ => empty)
  | clear c here => exact inv.clear c apart here
  | drain c => exact inv.drained c

theorem LockInv.emptied : ∃ t, Reaches (AloneStep lock guarded c) s t ∧ t.buf c = [] ∧ t.pc = s.pc ∧ t.log = s.log ∧ LockInv lock guarded m₀ t := by
  induction stores : s.buf c generalizing s with
  | nil => exact ⟨s, .refl, stores, rfl, rfl, inv⟩
  | cons e rest ih =>
      have left : (s.drained c).buf c = rest := drain_buf s.toMachine c e.1 e.2 rest stores
      obtain ⟨t, run, empty, pc, log, inv'⟩ := ih (inv.drained c) left
      exact ⟨t, .head (.inl (.drain c)) run, empty, pc, log, inv'⟩

theorem LockInv.freed (idle : owner s.log = none) : ∃ t, Reaches (AloneStep lock guarded c) s t ∧ t.buf c = [] ∧ t.mem lock = 0 ∧ t.pc = s.pc := by
  obtain ⟨t, run, empty, pc, log, inv'⟩ := inv.emptied c
  by_cases zero : t.mem lock = 0
  · exact ⟨t, run, empty, zero, pc⟩
  · cases inv'.taken zero with
    | inl held =>
        obtain ⟨d, own, -⟩ := held
        exact absurd ((log ▸ own).symm.trans idle) nofun
    | inr pending =>
        obtain ⟨d, releasing⟩ := pending
        obtain ⟨rest, first, -⟩ := releasing.first
        have other : c ≠ d := by
          rintro rfl
          exact nomatch empty.symm.trans first
        exact ⟨t.drained d, .tail run (.inl (.drain d)), (drain_buf_other t.toMachine d c other).trans empty,
          drain_mem t.toMachine d lock 0 rest first, pc⟩

theorem LockInv.admitted (idle : owner s.log = none) (waiting : s.pc c = .swap ∨ s.pc c = .test) :
    ∃ t, Reaches (AloneStep lock guarded c) s t ∧ t.pc c = .held := by
  obtain ⟨t, run, empty, free, pc⟩ := inv.freed c idle
  rw [← pc] at waiting
  have swaps (u : Smp Cpu Addr) (run : Reaches (AloneStep lock guarded c) s u) (here : u.pc c = .swap) (empty : u.buf c = [])
      (free : u.mem lock = 0) : ∃ t, Reaches (AloneStep lock guarded c) s t ∧ t.pc c = .held :=
    ⟨_, .tail run (.inr (.swapped c here empty free)), (u.locked lock).goto_here c .held⟩
  cases waiting with
  | inl swap => exact swaps t run swap empty free
  | inr test =>
      have seen : t.view c lock = 0 := (congrFun (view_drained t.toMachine c empty) lock).trans free
      exact swaps (t.goto c .swap) (.tail run (.inr (.retry c test seen))) (t.goto_here c .swap) empty free

end Kept

theorem lock_kept (apart : ¬guarded lock) (unlocked : m₀ lock = 0) (s : Smp Cpu Addr)
    (run : Reaches (AnyStep lock guarded) (Smp.booted m₀) s) : LockInv lock guarded m₀ s :=
  invariant (LockInv lock guarded m₀) (fun _ _ inv ⟨actor, step⟩ => inv.step apart actor _ step) _ s (lock_initial unlocked) run

-- Whatever the processors do, the sections under the lock run one after another,
-- each of them sees what the ones before it have written, and a lock that is
-- given back can be had again.
theorem spinlock_serialises (lock : Addr) (guarded : Addr → Prop) (apart : ¬guarded lock) (m₀ : Addr → BitVec 32)
    (unlocked : m₀ lock = 0) (s : Smp Cpu Addr) (run : Reaches (AnyStep lock guarded) (Smp.booted m₀) s) :
    (∀ c d, (s.pc c).holding = true → (s.pc d).holding = true → c = d) ∧ Serial m₀ s.log ∧
      ((∀ c, (s.pc c).holding = false) → (∀ a, guarded a → s.mem a = latest m₀ s.log a) ∧
        ∀ c, s.pc c = .swap ∨ s.pc c = .test → ∃ t, Reaches (AloneStep lock guarded c) s t ∧ t.pc c = .held) := by
  have inv := lock_kept apart unlocked s run
  refine ⟨fun c d first second => ?_, inv.serial, fun nobody => ?_⟩
  · exact Option.some.inj ((inv.held c first).symm.trans (inv.held d second))
  · have idle : owner s.log = none := by
      cases own : owner s.log with
      | none => rfl
      | some c => exact nomatch (nobody c).symm.trans ((inv.owned c).mpr own)
    exact ⟨inv.settled idle, fun c waiting => inv.admitted c idle waiting⟩

def handover : Smp Bool Nat :=
  let s := (Smp.booted (fun _ => 0)).goto false .swap
  let s := ((s.locked 0).goto false .held).note (.acquired false)
  let s := (s.stored false 1 7).note (.written false 1 7)
  let s := (s.goto false .fence).drained false
  let s := s.goto false .clear
  let s := ((s.stored false 0 0).goto false .out).note (.released false)
  (s.goto true .swap).goto true .test

theorem spinlock_serialises_at_handover : ∃ t, Reaches (AloneStep 0 (· = 1) true) handover t ∧ t.pc true = .held := by
  have run : Reaches (AnyStep 0 (· = 1)) (Smp.booted (fun _ => 0)) handover :=
    ((((((((Relation.ReflTransGen.single ⟨_, .call false rfl⟩).tail ⟨_, .swapped false rfl rfl rfl⟩).tail
      ⟨_, .write false 1 7 rfl rfl⟩).tail ⟨_, .unlock false rfl⟩).tail ⟨_, .drain false⟩).tail ⟨_, .synchronize false rfl rfl⟩).tail
      ⟨_, .clear false rfl⟩).tail ⟨_, .call true rfl⟩).tail ⟨_, .refused true rfl rfl (by decide)⟩
  exact ((spinlock_serialises 0 (· = 1) (by decide) (fun _ => 0) rfl handover run).2.2 (by decide)).2 true (.inr rfl)

end Deimos.Arch
