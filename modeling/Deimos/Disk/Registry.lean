import Deimos.Disk.Register
import Deimos.Lib.Run

set_option autoImplicit false

namespace Deimos.Disk

open Comp Ata LinkedQueue Run

structure Reg where
  drive : Word
  id : Nat
  probe : Probe

def Reg.vols (r : Reg) : List Word := blocksOf r.probe (used r.probe slots)

def Reg.blocks (r : Reg) : List Word := r.drive :: r.vols

-- The registrations that stand, in order, and how many there have been.
structure Book where
  regs : List Reg
  count : Nat

def Book.blank : Book := ⟨[], 0⟩

def Book.enter (d : Word) (probe : Probe) (b : Book) : Book := ⟨b.regs ++ [⟨d, b.count, probe⟩], b.count + 1⟩

def Book.strike (d : Word) (b : Book) : Book := { b with regs := b.regs.filter (fun r => r.drive ≠ d) }

def clear (v : Volume) : Volume := { v with mounted := false }

-- A drive_t that may be registered, with memory for its volumes.
structure Registrable (d : Word) (probe : Probe) (s : State) (b : Book) : Prop where
  absent : d ∉ b.regs.flatMap Reg.blocks
  size : (s.driveData d).blockSize = 512
  empty : (s.driveData d).childVolumes = 0
  drive : d ∈ s.heap.live
  fresh : Fresh probe slots s.heap.live
  served : ∀ i ∈ used probe slots, probe.volumeBlocks i ≠ 0

def Unmounted (s : State) (r : Reg) : Prop := ∀ v ∈ r.vols, (s.volumes v).mounted = false

-- What the rest of the kernel may do: mount and unmount volumes, and whatever
-- does not concern the drives that are registered.
structure Elsewhere (b : Book) (s s' : State) : Prop where
  head : s'.driveList.head = s.driveList.head
  next : ∀ r ∈ b.regs, s'.driveList.next r.drive = s.driveList.next r.drive
  counter : s'.nextDriveId = s.nextDriveId
  ids : ∀ r ∈ b.regs, (s'.driveData r.drive).driveId = (s.driveData r.drive).driveId
  children : ∀ r ∈ b.regs, (s'.driveData r.drive).childVolumes = (s.driveData r.drive).childVolumes
  links : ∀ r ∈ b.regs, ∀ v ∈ r.vols, s'.volumeNext v = s.volumeNext v
  volumes : ∀ r ∈ b.regs, ∀ v ∈ r.vols, clear (s'.volumes v) = clear (s.volumes v)
  live : ∀ r ∈ b.regs, ∀ p ∈ r.blocks, p ∈ s'.heap.live
  null : 0 ∉ s'.heap.live

inductive Step : State × Book → State × Book → Prop
  | register (d : Word) (probe : Probe) (s s' : State) (b : Book) (ret : Word) (ready : Registrable d probe s b)
      (returned : (registerDrive d false probe s).Returns (ret, s')) :
      Step (s, b) (s', if ret = 0 then b.enter d probe else b)
  | remove (r : Reg) (s s' : State) (b : Book) (ret : Word) (member : r ∈ b.regs) (unmounted : Unmounted s r)
      (returned : (removeDrive r.drive s).Returns (ret, s')) :
      Step (s, b) (s', if ret = 0 then b.strike r.drive else b)
  | world (s s' : State) (b : Book) (elsewhere : Elsewhere b s s') : Step (s, b) (s', b)

structure Parsed (s : State) (r : Reg) : Prop where
  id : (s.driveData r.drive).driveId = BitVec.ofNat 32 r.id
  children : Linked.Spells 0 (s.children r.drive) r.vols
  records : ∀ i ∈ used r.probe slots, clear (s.volumes (r.probe.volumeBlocks i)) = volumeOf r.drive r.probe 512 i

structure Kept (s : State) (b : Book) : Prop where
  listed : Linked.Spells 0 s.driveList (b.regs.map Reg.drive)
  own : ∀ r ∈ b.regs, r.blocks.Nodup
  apart : ∀ r ∈ b.regs, ∀ r' ∈ b.regs, r.drive ≠ r'.drive → ∀ p ∈ r.blocks, p ∉ r'.blocks
  live : ∀ r ∈ b.regs, ∀ p ∈ r.blocks, p ∈ s.heap.live
  null : 0 ∉ s.heap.live
  parsed : ∀ r ∈ b.regs, Parsed s r
  sorted : b.regs.Pairwise (fun r r' => r.id < r'.id)
  counted : ∀ r ∈ b.regs, r.id < b.count
  next : s.nextDriveId = BitVec.ofNat 32 b.count

section Parse

variable {s s' : State} {r : Reg}

theorem Parsed.congr (parsed : Parsed s r) (id : (s'.driveData r.drive).driveId = (s.driveData r.drive).driveId)
    (children : (s'.driveData r.drive).childVolumes = (s.driveData r.drive).childVolumes)
    (links : ∀ v ∈ r.vols, s'.volumeNext v = s.volumeNext v) (volumes : ∀ v ∈ r.vols, clear (s'.volumes v) = clear (s.volumes v)) :
    Parsed s' r := by
  refine ⟨id.trans parsed.id, ?_, fun i member => ?_⟩
  · have spells := parsed.children
    rw [Linked.Spells, State.children] at spells ⊢
    rw [children]
    exact spells.congr links
  · rw [volumes _ (List.mem_map_of_mem member)]
    exact parsed.records i member

end Parse

section Steps

variable {s s' : State} {b : Book} (kept : Kept s b)
include kept

theorem Kept.elsewhere (elsewhere : Elsewhere b s s') : Kept s' b where
  listed := by
    have listed := kept.listed
    rw [Linked.Spells] at listed ⊢
    rw [elsewhere.head]
    refine listed.congr (fun d member => ?_)
    obtain ⟨r, registered, rfl⟩ := List.mem_map.mp member
    exact elsewhere.next r registered
  own := kept.own
  apart := kept.apart
  live := elsewhere.live
  null := elsewhere.null
  parsed r member := (kept.parsed r member).congr (elsewhere.ids r member) (elsewhere.children r member) (elsewhere.links r member)
    (elsewhere.volumes r member)
  sorted := kept.sorted
  counted := kept.counted
  next := elsewhere.counter.trans kept.next

theorem Kept.unregistered {d : Word} {probe : Probe} (ready : Registrable d probe s b) : Unregistered d (b.regs.map Reg.drive) s where
  listed := kept.listed
  absent listed := by
    obtain ⟨r, member, rfl⟩ := List.mem_map.mp listed
    exact ready.absent (List.mem_flatMap.mpr ⟨r, member, List.mem_cons_self⟩)
  empty := ready.empty
  drive := ready.drive
  drives e listed := by
    obtain ⟨r, member, rfl⟩ := List.mem_map.mp listed
    exact kept.live r member r.drive List.mem_cons_self
  null := kept.null

section Entry

variable {d : Word} {probe : Probe} (ready : Registrable d probe s b) (added : Added d probe [] (used probe slots) (numbered d s) s')
include ready

theorem Kept.unshared (r : Reg) (member : r ∈ b.regs) (p : Word) (old : p ∈ r.blocks) : p ∉ (⟨d, b.count, probe⟩ : Reg).blocks := by
  intro shared
  rcases List.mem_cons.mp shared with rfl | volume
  · exact ready.absent (List.mem_flatMap.mpr ⟨r, member, old⟩)
  · obtain ⟨i, inUse, rfl⟩ := List.mem_map.mp volume
    exact ready.fresh.new i inUse (kept.live r member _ old)

include added

theorem Kept.still_parsed (r : Reg) (member : r ∈ b.regs) : Parsed s' r := by
  have unshared := kept.unshared ready r member
  have other : r.drive ≠ d := fun same => unshared d (same ▸ List.mem_cons_self) List.mem_cons_self
  have data : s'.driveData r.drive = s.driveData r.drive := (added.others _ other).trans (Function.update_of_ne other _ _)
  have outside (v : Word) (volume : v ∈ r.vols) : v ∉ (used probe slots).map probe.volumeBlocks := fun inner =>
    unshared v (List.mem_cons_of_mem _ volume) (List.mem_cons_of_mem _ inner)
  refine (kept.parsed r member).congr ?_ ?_ (fun v volume => added.links v (outside v volume)) (fun v volume => ?_)
  · exact congrArg Drive.driveId data
  · exact congrArg Drive.childVolumes data
  · exact congrArg clear (added.volumes v (outside v volume))

theorem Kept.newly_parsed : Parsed s' ⟨d, b.count, probe⟩ := by
  have drive : s'.driveData d = { (numbered d s).driveData d with childVolumes := (s'.driveData d).childVolumes } := added.drive
  have number : (numbered d s).driveData d = { s.driveData d with driveId := s.nextDriveId } := Function.update_self _ _ _
  refine ⟨?_, added.children, fun i inUse => ?_⟩
  · change (s'.driveData d).driveId = _
    rw [drive, number]
    exact kept.next
  · change clear (s'.volumes (probe.volumeBlocks i)) = _
    rw [added.records i inUse, number, ← ready.size]
    rfl

theorem Kept.entered {l : Linked Word} (listed : Linked.Spells 0 l (b.regs.map Reg.drive ++ [d])) :
    Kept { s' with driveList := l } (b.enter d probe) := by
  have unshared := kept.unshared ready
  have own : (⟨d, b.count, probe⟩ : Reg).blocks.Nodup := by
    refine List.nodup_cons.mpr ⟨fun volume => ?_, added.children.nodup⟩
    obtain ⟨i, inUse, same⟩ := List.mem_map.mp volume
    exact ready.fresh.new i inUse (same ▸ ready.drive)
  have members (r : Reg) (member : r ∈ (b.enter d probe).regs) : r ∈ b.regs ∨ r = ⟨d, b.count, probe⟩ := by
    simpa [Book.enter] using member
  exact {
    listed := by
      rw [Book.enter, List.map_append]
      exact listed
    own r member := by
      rcases members r member with old | rfl
      · exact kept.own r old
      · exact own
    apart r member r' member' := by
      rcases members r member with old | rfl <;> rcases members r' member' with old' | rfl
      · exact kept.apart r old r' old'
      · exact fun _ p => unshared r old p
      · exact fun _ p new inner => unshared r' old' p inner new
      · exact fun other => absurd rfl other
    live r member p block := by
      apply (added.live p).mpr
      rcases members r member with old | rfl
      · exact .inr (kept.live r old p block)
      · rcases List.mem_cons.mp block with rfl | volume
        · exact .inr ready.drive
        · exact .inl volume
    null null := by
      rcases (added.live 0).mp null with volume | old
      · obtain ⟨i, inUse, failed⟩ := List.mem_map.mp volume
        exact ready.served i inUse failed
      · exact kept.null old
    parsed r member := by
      have parsed : Parsed s' r := by
        rcases members r member with old | rfl
        · exact kept.still_parsed ready added r old
        · exact kept.newly_parsed ready added
      exact parsed.congr rfl rfl (fun _ _ => rfl) (fun _ _ => rfl)
    sorted := by
      refine List.pairwise_append.mpr ⟨kept.sorted, List.pairwise_singleton _ _, fun r old r' new => ?_⟩
      rw [List.mem_singleton.mp new]
      exact kept.counted r old
    counted r member := by
      rcases members r member with old | rfl
      · exact Nat.lt_succ_of_lt (kept.counted r old)
      · exact Nat.lt_succ_self b.count
    next := by
      have counter : s'.nextDriveId = s.nextDriveId + 1 := added.counter
      have number : BitVec.ofNat 32 (b.count + 1) = BitVec.ofNat 32 b.count + 1 := BitVec.ofNat_add _ _
      exact counter.trans (kept.next ▸ number.symm) }

omit added

theorem Kept.register_returns : ∃ ret s', (registerDrive d false probe s).Returns (ret, s') ∧
    (ret = 0 ↔ signature probe.sector = 0xAA55) ∧ Kept s' (if ret = 0 then b.enter d probe else b) := by
  have unregistered := kept.unregistered ready
  by_cases signed : signature probe.sector = 0xAA55
  · obtain ⟨s', l, added, listed, returned⟩ :=
      register_drive_taken unregistered probe signed ready.fresh ((made_all_iff _ _).mpr ready.served)
    exact ⟨0, _, returned, iff_of_true rfl signed, kept.entered ready added listed⟩
  · exact ⟨1, s, register_drive_refused unregistered probe false (.inr signed), iff_of_false (by decide) signed, kept⟩

end Entry

section Exit

variable {r : Reg} (member : r ∈ b.regs)
include member

theorem Kept.consistent : Consistent r.drive (b.regs.map Reg.drive) r.vols s where
  listed := kept.listed
  children := (kept.parsed r member).children
  drive := kept.live r member _ List.mem_cons_self
  drives e listed := by
    obtain ⟨r', member', rfl⟩ := List.mem_map.mp listed
    exact kept.live r' member' _ List.mem_cons_self
  volumes v volume := kept.live r member v (List.mem_cons_of_mem _ volume)
  apart v volume listed := by
    obtain ⟨r', member', rfl⟩ := List.mem_map.mp listed
    by_cases same : r.drive = r'.drive
    · exact (List.nodup_cons.mp (kept.own r member)).1 (same ▸ volume)
    · exact kept.apart r member r' member' same _ (List.mem_cons_of_mem _ volume) List.mem_cons_self

theorem Kept.struck {l : Linked Word} (listed : Linked.Spells 0 l ((b.regs.map Reg.drive).erase r.drive)) :
    Kept { freed r.vols s with driveList := l } (b.strike r.drive) := by
  have old (r' : Reg) (left : r' ∈ (b.strike r.drive).regs) : r' ∈ b.regs ∧ r'.drive ≠ r.drive := by
    simpa [Book.strike] using left
  have drives : (b.regs.map Reg.drive).erase r.drive = (b.strike r.drive).regs.map Reg.drive := by
    rw [kept.listed.nodup.erase_eq_filter, List.filter_map]
    simp [Book.strike, Function.comp_def, bne, beq_eq_decide]
  exact {
    listed := drives ▸ listed
    own r' left := kept.own r' (old r' left).1
    apart r' left r'' left' := kept.apart r' (old r' left).1 r'' (old r'' left').1
    live r' left p block := by
      obtain ⟨member', other⟩ := old r' left
      have outside : p ∉ r.vols := fun volume => kept.apart r' member' r member other p block (List.mem_cons_of_mem _ volume)
      exact (Ledger.mem_free_all r.vols).mpr ⟨kept.live r' member' p block, outside⟩
    null live := kept.null ((Ledger.mem_free_all r.vols).mp live).1
    parsed r' left := (kept.parsed r' (old r' left).1).congr rfl rfl (fun _ _ => rfl) (fun _ _ => rfl)
    sorted := kept.sorted.filter _
    counted r' left := kept.counted r' (old r' left).1
    next := kept.next }

theorem Kept.remove_returns (unmounted : Unmounted s r) :
    ∃ s', (removeDrive r.drive s).Returns (0, s') ∧ Kept s' (b.strike r.drive) := by
  have consistent := kept.consistent member
  have listed : r.drive ∈ b.regs.map Reg.drive := List.mem_map_of_mem member
  obtain ⟨l, returned, left⟩ := remove_drive_listed consistent unmounted listed
  exact ⟨_, returned, kept.struck member left⟩

end Exit

theorem Kept.step {t : State × Book} (step : Step (s, b) t) : Kept t.1 t.2 := by
  cases step with
  | register d probe s s' b ret ready returned =>
      obtain ⟨ret', s'', returned', -, kept'⟩ := kept.register_returns ready
      obtain ⟨rfl, rfl⟩ := Prod.mk.inj (returns_unique _ _ _ returned' returned)
      exact kept'
  | remove r s s' b ret member unmounted returned =>
      obtain ⟨s'', returned', kept'⟩ := kept.remove_returns member unmounted
      obtain ⟨rfl, rfl⟩ := Prod.mk.inj (returns_unique _ _ _ returned' returned)
      exact kept'
  | world s s' b elsewhere => exact kept.elsewhere elsewhere

end Steps

structure Start (s : State) : Prop where
  head : s.driveList.head = 0
  next : s.nextDriveId = 0
  null : 0 ∉ s.heap.live

theorem Start.kept {s : State} (start : Start s) : Kept s .blank where
  listed := ⟨start.head, rfl, .nil⟩
  own _ member := absurd member List.not_mem_nil
  apart _ member := absurd member List.not_mem_nil
  live _ member := absurd member List.not_mem_nil
  null := start.null
  parsed _ member := absurd member List.not_mem_nil
  sorted := .nil
  counted _ member := absurd member List.not_mem_nil
  next := start.next

theorem kept_run {s s' : State} {b : Book} (start : Start s) (run : Reaches Step (s, .blank) (s', b)) : Kept s' b :=
  Run.invariant (fun t => Kept t.1 t.2) (fun _ _ kept step => kept.step step) (s, .blank) (s', b) start.kept run

-- The little-endian word of 32 bits at an offset of a sector.
def wordAt (sector : Nat → BitVec 8) (at_ : Nat) : Nat :=
  (sector at_).toNat + 0x100 * (sector (at_ + 1)).toNat + 0x10000 * (sector (at_ + 2)).toNat + 0x1000000 * (sector (at_ + 3)).toNat

structure Partition (d : Word) (sector : Nat → BitVec 8) (i : Nat) (v : Volume) : Prop where
  id : v.volumeId = BitVec.ofNat 32 i
  parent : v.parentDrive = d
  offset : v.offsetLba.toNat = wordAt sector (446 + 16 * i + 8)
  length : v.numBlocks.toNat = wordAt sector (446 + 16 * i + 12)

def Lists (d : Word) (sector : Nat → BitVec 8) (s : State) : Prop :=
  ∃ vols, Linked.Spells 0 (s.children d) vols ∧
    List.Forall₂ (fun i v => Partition d sector i (s.volumes v)) ((List.range 4).filter (fun i => sector (446 + 16 * i + 4) ≠ 0)) vols

section Layout

variable (sector : Nat → BitVec 8)

theorem word_at_append (at_ : Nat) :
    (sector (at_ + 3) ++ sector (at_ + 2) ++ sector (at_ + 1) ++ sector at_ : Word).toNat = wordAt sector at_ := by
  rw [BitVec.toNat_append, BitVec.toNat_append, BitVec.toNat_append, ← Nat.shiftLeft_add_eq_or_of_lt (sector at_).isLt,
    ← Nat.shiftLeft_add_eq_or_of_lt (sector (at_ + 1)).isLt, ← Nat.shiftLeft_add_eq_or_of_lt (sector (at_ + 2)).isLt,
    Nat.shiftLeft_eq, Nat.shiftLeft_eq, Nat.shiftLeft_eq, wordAt]
  omega

theorem signature_iff : signature sector = 0xAA55 ↔ sector 510 = 0x55 ∧ sector 511 = 0xAA := by
  have low := (sector 510).isLt
  have value : (signature sector).toNat = (sector 511).toNat * 256 + (sector 510).toNat := by
    rw [signature, BitVec.toNat_append, ← Nat.shiftLeft_add_eq_or_of_lt low, Nat.shiftLeft_eq]
  rw [BitVec.toNat_eq, BitVec.toNat_eq, BitVec.toNat_eq, value]
  change _ = 0xAA55 ↔ _ = 0x55 ∧ _ = 0xAA
  omega

end Layout

theorem Parsed.lists {s : State} {r : Reg} (parsed : Parsed s r) : Lists r.drive r.probe.sector s := by
  refine ⟨r.vols, parsed.children, List.forall₂_map_right_iff.mpr (List.forall₂_same.mpr (fun i inUse => ?_))⟩
  have record := parsed.records i inUse
  constructor
  · exact congrArg Volume.volumeId record
  · exact congrArg Volume.parentDrive record
  · exact (congrArg (fun v => v.offsetLba.toNat) record).trans (word_at_append _ _)
  · exact (congrArg (fun v => v.numBlocks.toNat) record).trans (word_at_append _ _)

theorem Kept.increasing {s : State} {b : Book} (kept : Kept s b) (few : b.count < 2 ^ 32) :
    (b.regs.map (fun r => (s.driveData r.drive).driveId)).Pairwise (· < ·) := by
  refine List.pairwise_map.mpr (kept.sorted.imp_of_mem (fun {r r'} member member' less => ?_))
  rw [(kept.parsed r member).id, (kept.parsed r' member').id, BitVec.lt_def, BitVec.toNat_ofNat, BitVec.toNat_ofNat]
  have bound := kept.counted r' member'
  omega

structure Exact (s : State) (b : Book) : Prop where
  drives : Linked.Spells 0 s.driveList (b.regs.map Reg.drive)
  ids : b.count < 2 ^ 32 → (b.regs.map (fun r => (s.driveData r.drive).driveId)).Pairwise (· < ·)
  volumes : ∀ r ∈ b.regs, Lists r.drive r.probe.sector s
  registers : ∀ d probe, Registrable d probe s b → ∃ ret s', (registerDrive d false probe s).Returns (ret, s') ∧
    (ret = 0 ↔ probe.sector 510 = 0x55 ∧ probe.sector 511 = 0xAA) ∧ (ret = 0 → Lists d probe.sector s')
  removes : ∀ r ∈ b.regs, Unmounted s r → ∃ s', (removeDrive r.drive s).Returns (0, s')

theorem drive_registry_exact (s₀ s : State) (b : Book) (start : Start s₀) (run : Reaches Step (s₀, .blank) (s, b)) : Exact s b := by
  have kept := kept_run start run
  refine ⟨kept.listed, kept.increasing, fun r member => (kept.parsed r member).lists, fun d probe ready => ?_,
    fun r member unmounted => ?_⟩
  · obtain ⟨ret, s', returned, signed, kept'⟩ := kept.register_returns ready
    refine ⟨ret, s', returned, signed.trans (signature_iff probe.sector), fun taken => ?_⟩
    rw [if_pos taken] at kept'
    exact (kept'.parsed ⟨d, b.count, probe⟩ (List.mem_append_right _ List.mem_cons_self)).lists
  · obtain ⟨s', returned, -⟩ := kept.remove_returns member unmounted
    exact ⟨s', returned⟩

def twoDrives : State := { oneDrive with heap := ⟨[0x1000, 0x4000], []⟩ }

def otherPartitions : Probe := { twoPartitions 0 with volumeBlocks := fun i => if i = 0 then 0x5000 else 0x6000 }

theorem two_drives_registered : ∃ s, Reaches Step (twoDrives, .blank) (s, ⟨[⟨0x4000, 1, otherPartitions⟩], 2⟩) := by
  obtain ⟨s₁, s₂, s₃, first, second, third, live, size, empty, mounted, mounted'⟩ :
      ∃ s₁ s₂ s₃, (registerDrive 0x1000 false (twoPartitions 0x3000) twoDrives).Returns (0, s₁) ∧
        (registerDrive 0x4000 false otherPartitions s₁).Returns (0, s₂) ∧ (removeDrive 0x1000 s₂).Returns (0, s₃) ∧
        s₁.heap.live = [0x3000, 0x2000, 0x1000, 0x4000] ∧ (s₁.driveData 0x4000).blockSize = 512 ∧
        (s₁.driveData 0x4000).childVolumes = 0 ∧ (s₂.volumes 0x2000).mounted = false ∧ (s₂.volumes 0x3000).mounted = false :=
    ⟨_, _, _, ⟨9, rfl⟩, ⟨9, rfl⟩, ⟨9, rfl⟩, rfl, rfl, rfl, rfl, rfl⟩
  have unmounted : Unmounted s₂ ⟨0x1000, 0, twoPartitions 0x3000⟩ :=
    List.forall_mem_cons.mpr ⟨mounted, List.forall_mem_singleton.mpr mounted'⟩
  have ready : Registrable 0x1000 (twoPartitions 0x3000) twoDrives .blank :=
    ⟨List.not_mem_nil, rfl, rfl, List.mem_cons_self, ⟨by decide, by decide⟩, by decide⟩
  have ready' : Registrable 0x4000 otherPartitions s₁ ⟨[⟨0x1000, 0, twoPartitions 0x3000⟩], 1⟩ :=
    ⟨by decide, size, empty, by rw [live]; decide, ⟨by rw [live]; decide, by decide⟩, by decide⟩
  have run : Reaches Step (twoDrives, .blank) (s₁, ⟨[⟨0x1000, 0, twoPartitions 0x3000⟩], 1⟩) := .single (.register 0x1000 _ _ _ _ 0 ready first)
  have run : Reaches Step (twoDrives, .blank) (s₂, ⟨[⟨0x1000, 0, twoPartitions 0x3000⟩, ⟨0x4000, 1, otherPartitions⟩], 2⟩) :=
    run.tail (.register 0x4000 _ _ _ _ 0 ready' second)
  exact ⟨s₃, run.tail (.remove ⟨0x1000, 0, twoPartitions 0x3000⟩ _ _ _ 0 List.mem_cons_self unmounted third)⟩

theorem drive_registry_exact_at_disks : ∃ s, Exact s ⟨[⟨0x4000, 1, otherPartitions⟩], 2⟩ := by
  obtain ⟨s, run⟩ := two_drives_registered
  exact ⟨s, drive_registry_exact twoDrives s _ ⟨rfl, rfl, by decide⟩ run⟩

end Deimos.Disk
