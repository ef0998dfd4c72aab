import Deimos.Ata.Lifecycle
import Deimos.Ata.Wire
import Deimos.Lib.Rules

set_option autoImplicit false

namespace Deimos.Ata

open Comp Mem

-- The two buses, which have ports of their own, and the memory that parse_mbr's buffer is in.
structure Wires where
  primary : Channel
  secondary : Channel
  mem : Mem

def Blocks.reading (sector : Nat → Byte) (b : Blocks) : Probe :=
  ⟨0, 0, 0, 0, fun _ => 0, sector, b.infoBlock, b.driveBlock, b.privBlock, b.volumeBlocks⟩

namespace Wires

def on (bus : Port) (w : Wires) : Channel := if bus = BUS0 then w.primary else w.secondary

def put (bus : Port) (ch : Channel) (w : Wires) : Wires := if bus = BUS0 then { w with primary := ch } else { w with secondary := ch }

def identify (bus drive statusReg : Port) (b : Blocks) (s : State) (w : Wires) : Comp Fault ((Word × State) × Wires) := do
  let (r, ch) ← (w.on bus).identify bus drive statusReg b s
  pure (r, w.put bus ch)

-- The buffer is on the stack; of a drive it holds the one block.
def parseMbr (buf d : Word) (b : Blocks) (s : State) (w : Wires) : Comp Fault ((Word × State) × Wires) := do
  onHeap (check s d)
  match (s.driveData d).readcallback with
  | .chs => pure ((1, s), w)
  | .lba48 => do
      onHeap (check s (s.driveData d).priv)
      let priv := s.privs (s.driveData d).priv
      let (failed, mem, ch) ← ((w.on priv.bus).lba48Read (s.driveData d) priv ⟨0, 0⟩ ⟨0, 1⟩ buf w.mem).mapError Fault.stop
      let w := { w.put priv.bus ch with mem := mem }
      if failed ≠ 0 then pure ((1, s), w)
      else
        let sector := fun i => if i < (s.driveData d).blockSize.toNat then mem (buf + BitVec.ofNat 32 i) else 0
        if signature sector ≠ 0xAA55 then pure ((1, s), w)
        else do
          let s := { s.setDrive d ({ · with driveId := s.nextDriveId }) with nextDriveId := s.nextDriveId + 1 }
          let r ← (addVolumes d (b.reading sector) (List.range 4) s).mapError Fault.misuse
          pure (r, w)

def registerDrive (buf d : Word) (b : Blocks) (s : State) (w : Wires) : Comp Fault ((Word × State) × Wires) := do
  let ((failed, s), w) ← w.parseMbr buf d b s
  if failed ≠ 0 then do
    onHeap (check s d)
    let (_, s) ← (loop (freeVolumesBody (fun _ => false)) ((s.driveData d).childVolumes, s)).mapError Fault.misuse
    pure ((1, s), w)
  else do
    let l ← (s.driveList.append 0 (check s) d).mapError Fault.misuse
    pure ((0, { s with driveList := l }), w)

def registerAll (buf : Word) (blocks : Nat → Blocks) : List Nat → Bool → State → Wires → Comp Fault ((Bool × State) × Wires)
  | [], good, s, w => pure ((good, s), w)
  | i :: rest, good, s, w =>
      if s.drives i = 0 then registerAll buf blocks rest good s w
      else do
        let ((failed, s), w) ← w.registerDrive buf (s.drives i) (blocks i) s
        if failed ≠ 0 then do
          let s ← onHeap (kfree (s.drives i) s)
          registerAll buf blocks rest good s w
        else registerAll buf blocks rest true s w

def ataModuleInit (buf : Word) (blocks : Nat → Blocks) (s : State) (w : Wires) : Comp Fault ((Word × State) × Wires) :=
  if s.started then pure ((1, s), w)
  else do
    let ((d, s), w) ← w.identify BUS0 MASTERCHS BUS0_STATUS (blocks 0) s
    let s := setHandle 0 d s
    let ((d, s), w) ← w.identify BUS0 SLAVECHS BUS0_STATUS (blocks 1) s
    let s := setHandle 1 d s
    let ((d, s), w) ← w.identify BUS1 MASTERCHS BUS1_STATUS (blocks 2) s
    let s := setHandle 2 d s
    let ((d, s), w) ← w.identify BUS1 SLAVECHS BUS1_STATUS (blocks 3) s
    let s := setHandle 3 d s
    let s := setHandle 7 0 (setHandle 6 0 (setHandle 5 0 (setHandle 4 0 s)))
    let ((good, s), w) ← w.registerAll buf blocks (List.range 8) false s
    if good then pure ((0, { s with started := true }), w) else pure ((1, s), w)

def attached (w : Wires) : Nat → Attached
  | 0 => w.primary.master
  | 1 => w.primary.slave
  | 2 => w.secondary.master
  | 3 => w.secondary.slave
  | _ => .nothing

def probes (blocks : Nat → Blocks) (w : Wires) (i : Nat) : Probe := (w.attached i).probe (blocks i)

end Wires

-- A call has gone past: the cables are as they were, and so is memory but for the buffer.
structure Past (buf : Word) (w w' : Wires) : Prop where
  primary : Cable w.primary w'.primary
  secondary : Cable w.secondary w'.secondary
  outside : ∀ x : Word, 512 ≤ (x - buf).toNat → w'.mem x = w.mem x

theorem Past.refl (buf : Word) (w : Wires) : Past buf w w := ⟨.refl _, .refl _, fun _ _ => rfl⟩

theorem Past.trans {buf : Word} {w w' w'' : Wires} (first : Past buf w w') (second : Past buf w' w'') : Past buf w w'' :=
  ⟨first.primary.trans second.primary, first.secondary.trans second.secondary,
    fun x far => (second.outside x far).trans (first.outside x far)⟩

theorem Past.attached {buf : Word} {w w' : Wires} (past : Past buf w w') : w'.attached = w.attached := by
  funext i
  match i with
  | 0 => exact past.primary.master
  | 1 => exact past.primary.slave
  | 2 => exact past.secondary.master
  | 3 => exact past.secondary.slave
  | _ + 4 => rfl

structure Wired (w : Wires) : Prop where
  primary : w.primary.device.bus = BUS0 ∧ w.primary.device.statusReg = BUS0_STATUS
  secondary : w.secondary.device.bus = BUS1 ∧ w.secondary.device.statusReg = BUS1_STATUS

theorem Wired.past {buf : Word} {w w' : Wires} (wired : Wired w) (past : Past buf w w') : Wired w' :=
  ⟨⟨past.primary.bus.trans wired.primary.1, past.primary.statusReg.trans wired.primary.2⟩,
    ⟨past.secondary.bus.trans wired.secondary.1, past.secondary.statusReg.trans wired.secondary.2⟩⟩

def described (bus drive statusReg : Port) : AtaPriv := ⟨.lba48, bus, if drive &&& 0x10 ≠ 0 then SLAVELBA48 else MASTERLBA48, statusReg⟩

def slot (i : Nat) : AtaPriv :=
  described (if i < 2 then BUS0 else BUS1) (if i % 2 = 0 then MASTERCHS else SLAVECHS) (if i < 2 then BUS0_STATUS else BUS1_STATUS)

section Records

def Later (s s' : State) : Prop := ∀ q ∈ s.heap.live, q ∈ s'.heap.live ∧ s'.driveData q = s.driveData q ∧ s'.privs q = s.privs q

theorem Later.refl (s : State) : Later s s := fun _ live => ⟨live, rfl, rfl⟩

structure Readable (s : State) (d : Word) (priv : AtaPriv) : Prop where
  block : (s.driveData d).readcallback = .lba48 → (s.driveData d).blockSize = 512
  priv : (s.driveData d).readcallback = .lba48 → s.privs (s.driveData d).priv = priv

structure Known (s : State) (d : Word) (priv : AtaPriv) : Prop extends Readable s d priv where
  drive : d ∈ s.heap.live
  privBlock : (s.driveData d).priv ∈ s.heap.live

theorem Known.later {s s' : State} {d : Word} {priv : AtaPriv} (known : Known s d priv) (later : Later s s') : Known s' d priv := by
  obtain ⟨live, data, -⟩ := later d known.drive
  obtain ⟨live', -, same⟩ := later _ known.privBlock
  refine ⟨⟨?_, ?_⟩, live, ?_⟩
  · rw [data]
    exact known.block
  · rw [data, same]
    exact known.priv
  · rwa [data]

variable (s : State)

theorem kmalloc_yields (answer : Word) : Yields (kmalloc answer s) (fun r => r.1 = answer ∧ answer ∉ s.heap.live ∧
    ∃ heap, r.2 = { s with heap := heap } ∧ (∀ q ∈ s.heap.live, q ∈ heap.live) ∧ (answer ≠ 0 → answer ∈ heap.live)) := by
  unfold kmalloc
  by_cases taken : answer ∈ s.heap.live
  · rw [if_pos taken]
    exact nofun
  · rw [if_neg taken]
    refine yields_ok _ ⟨rfl, taken, s.heap.take 0 answer, rfl, fun q live => ?_, fun served => ?_⟩
    · by_cases null : answer = 0
      · rwa [null, Ledger.take_null]
      · rw [Ledger.take_live null]
        exact List.mem_cons_of_mem _ live
    · rw [Ledger.take_live served]
      exact List.mem_cons_self

theorem check_yields (p : Word) : Yields (check s p) (fun _ => True) := fun _ _ => trivial

theorem kfree_yields (p : Word) : Yields (kfree p s)
    (fun s' => ∃ heap, s' = { s with heap := heap } ∧ ∀ q ∈ s.heap.live, q ≠ p → q ∈ heap.live) := by
  unfold kfree
  by_cases null : p = 0
  · rw [if_pos null]
    exact yields_ok _ ⟨s.heap, rfl, fun _ live _ => live⟩
  · rw [if_neg null]
    refine yields_bind _ _ _ (check_yields s p) (fun _ _ => yields_ok _ ⟨s.heap.free p, rfl, fun q live other => ?_⟩)
    exact Ledger.mem_free.mpr ⟨live, other⟩

end Records

section Identify

variable (bus drive statusReg : Port) (b : Blocks)

def Found (a : Attached) (s : State) (r : Word × State) : Prop :=
  Later s r.2 ∧ r.2.drives = s.drives ∧ (r.1 ≠ 0 → Known r.2 r.1 (described bus drive statusReg) ∧ ∃ medium, a = .disk medium)

theorem populate_yields (info : Word) (words : Nat → BitVec 16) (medium : Medium) (s : State) (heap : Ledger Word) (fresh : info ∉ s.heap.live)
    (kept : ∀ q ∈ s.heap.live, q ∈ heap.live) (taken : info ∈ heap.live) :
    Yields (populate bus drive statusReg info words b { s with heap := heap }) (Found bus drive statusReg (.disk medium) s) := by
  have apart (q p : Word) (blocks : List Word) (live : q ∈ blocks) (absent : p ∉ blocks) : q ≠ p := fun same => absent (same ▸ live)
  unfold populate
  by_cases serial : words I_SERIAL = 0
  · rw [if_pos serial]
    refine yields_bind _ _ _ (kfree_yields _ info) ?_
    rintro _ ⟨heap', rfl, others⟩
    exact yields_ok _ ⟨fun q live => ⟨others q (kept q live) (apart q info _ live fresh), rfl, rfl⟩, rfl, fun some_ => absurd rfl some_⟩
  · rw [if_neg serial]
    refine yields_bind _ _ _ (kmalloc_yields _ b.driveBlock) ?_
    rintro ⟨d, _⟩ ⟨rfl, freshDrive, heap₂, rfl, kept₂, inDrive⟩
    refine yields_bind _ _ _ (kmalloc_yields _ b.privBlock) ?_
    rintro ⟨p, _⟩ ⟨rfl, freshPriv, heap₃, rfl, kept₃, inPriv⟩
    dsimp only at *
    have driveApart : b.driveBlock ≠ info := fun same => freshDrive (same ▸ taken)
    have privApart : b.privBlock ≠ info := fun same => freshPriv (same ▸ kept₂ _ taken)
    by_cases failed : b.driveBlock = 0 ∨ b.privBlock = 0
    · rw [if_pos failed]
      refine yields_bind _ _ _ (kfree_yields _ b.driveBlock) ?_
      rintro _ ⟨heap₄, rfl, others₄⟩
      refine yields_bind _ _ _ (kfree_yields _ b.privBlock) ?_
      rintro _ ⟨heap₅, rfl, others₅⟩
      refine yields_bind _ _ _ (kfree_yields _ info) ?_
      rintro _ ⟨heap₆, rfl, others₆⟩
      refine yields_ok _ ⟨fun q live => ⟨?_, rfl, rfl⟩, rfl, fun some_ => absurd rfl some_⟩
      have live₂ := kept₂ q (kept q live)
      have live₄ := others₄ q (kept₃ q live₂) (apart q _ _ (kept q live) freshDrive)
      exact others₆ q (others₅ q live₄ (apart q _ _ live₂ freshPriv)) (apart q info _ live fresh)
    · rw [if_neg failed]
      obtain ⟨served, served'⟩ := not_or.mp failed
      refine yields_bind _ _ _ (check_yields _ b.privBlock) (fun _ _ => ?_)
      refine yields_bind _ _ _ (check_yields _ b.driveBlock) (fun _ _ => ?_)
      refine yields_bind _ _ _ (kfree_yields _ info) ?_
      rintro _ ⟨heap₄, rfl, others⟩
      dsimp only [State.setDrive] at *
      refine yields_ok _ ⟨fun q live => ⟨?_, ?_, ?_⟩, rfl, fun _ => ⟨⟨⟨?_, ?_⟩, ?_, ?_⟩, medium, rfl⟩⟩
      · exact others q (kept₃ q (kept₂ q (kept q live))) (apart q info _ live fresh)
      · exact Function.update_of_ne (apart q _ _ (kept q live) freshDrive) _ _
      · exact Function.update_of_ne (apart q _ _ (kept₂ q (kept q live)) freshPriv) _ _
      · dsimp only
        rw [Function.update_self]
        exact fun _ => rfl
      · dsimp only
        rw [Function.update_self, Function.update_self]
        dsimp only
        by_cases lba48 : words 83 &&& 0x0400 ≠ 0
        · rw [if_pos lba48, if_pos lba48]
          exact fun _ => rfl
        · rw [if_neg lba48]
          exact nofun
      · exact others _ (kept₃ _ (inDrive served)) driveApart
      · dsimp only
        rw [Function.update_self]
        exact others _ (inPriv served') privApart

theorem identify_yields (a : Attached) (s : State) : Yields (identify bus drive statusReg (a.probe b) s) (Found bus drive statusReg a s) := by
  have none (a : Attached) : Found bus drive statusReg a s (0, s) := ⟨.refl s, rfl, fun some_ => absurd rfl some_⟩
  cases a with
  | nothing =>
      rw [identify_absent]
      exact yields_ok _ (none _)
  | packet =>
      rw [identify_packet]
      exact yields_ok _ (none _)
  | disk medium =>
      rw [identify_disk]
      refine yields_bind _ _ _ (kmalloc_yields s b.infoBlock) ?_
      rintro ⟨info, _⟩ ⟨rfl, fresh, heap, rfl, kept, taken⟩
      dsimp only
      by_cases failed : b.infoBlock = 0
      · rw [if_pos failed]
        exact yields_ok _ ⟨fun q live => ⟨kept q live, rfl, rfl⟩, rfl, fun some_ => absurd rfl some_⟩
      · rw [if_neg failed]
        refine yields_bind _ _ _ (check_yields _ _) (fun _ _ => ?_)
        exact populate_yields bus drive statusReg b _ _ medium s heap fresh kept (taken failed)

end Identify

section Cabling

variable (buf : Word) (w : Wires)

theorem past_put (bus : Port) (ch : Channel) (cable : Cable (w.on bus) ch) : Past buf w (w.put bus ch) := by
  unfold Wires.on at cable
  unfold Wires.put
  by_cases first : bus = BUS0
  · rw [if_pos first] at cable ⊢
    exact ⟨cable, .refl _, fun _ _ => rfl⟩
  · rw [if_neg first] at cable ⊢
    exact ⟨.refl _, cable, fun _ _ => rfl⟩

theorem slot_cases (holds : Nat → Prop) (h₀ : holds 0) (h₁ : holds 1) (h₂ : holds 2) (h₃ : holds 3) (i : Nat) (small : i < 4) : holds i :=
  match i, small with
  | 0, _ => h₀
  | 1, _ => h₁
  | 2, _ => h₂
  | 3, _ => h₃

theorem slot_unit (i : Nat) (small : i < 4) : (w.on (slot i).bus).unit ((slot i).drive.setWidth 8) = w.attached i :=
  slot_cases (fun i => (w.on (slot i).bus).unit ((slot i).drive.setWidth 8) = w.attached i) rfl rfl rfl rfl i small

theorem slot_wired (wired : Wired w) (i : Nat) (small : i < 4) :
    (w.on (slot i).bus).device.bus = (slot i).bus ∧ (w.on (slot i).bus).device.statusReg = (slot i).statusReg :=
  slot_cases (fun i => (w.on (slot i).bus).device.bus = (slot i).bus ∧ (w.on (slot i).bus).device.statusReg = (slot i).statusReg)
    wired.primary wired.primary wired.secondary wired.secondary i small

end Cabling

section Registration

structure Still (s s' : State) : Prop where
  drives : s'.drives = s.drives
  privs : s'.privs = s.privs
  callback : ∀ e, (s'.driveData e).readcallback = (s.driveData e).readcallback
  block : ∀ e, (s'.driveData e).blockSize = (s.driveData e).blockSize
  priv : ∀ e, (s'.driveData e).priv = (s.driveData e).priv

theorem Still.refl (s : State) : Still s s := ⟨rfl, rfl, fun _ => rfl, fun _ => rfl, fun _ => rfl⟩

theorem Still.trans {s s' s'' : State} (first : Still s s') (second : Still s' s'') : Still s s'' :=
  ⟨second.drives.trans first.drives, second.privs.trans first.privs, fun e => (second.callback e).trans (first.callback e),
    fun e => (second.block e).trans (first.block e), fun e => (second.priv e).trans (first.priv e)⟩

theorem Still.readable {s s' : State} {d : Word} {priv : AtaPriv} (still : Still s s') (readable : Readable s d priv) : Readable s' d priv := by
  refine ⟨?_, ?_⟩
  · rw [still.callback, still.block]
    exact readable.block
  · rw [still.callback, still.priv, still.privs]
    exact readable.priv

theorem set_drive_still (d : Word) (f : Drive → Drive) (s : State) (callback : ∀ data, (f data).readcallback = data.readcallback)
    (block : ∀ data, (f data).blockSize = data.blockSize) (priv : ∀ data, (f data).priv = data.priv) : Still s (s.setDrive d f) := by
  have each {α : Type} (field : Drive → α) (same : ∀ data, field (f data) = field data) (e : Word) :
      field ((s.setDrive d f).driveData e) = field (s.driveData e) := by
    change field (Function.update s.driveData d (f (s.driveData d)) e) = _
    by_cases here : e = d
    · rw [here, Function.update_self, same]
    · rw [Function.update_of_ne here]
  exact ⟨rfl, rfl, each Drive.readcallback callback, each Drive.blockSize block, each Drive.priv priv⟩

variable (d : Word) (probe : Probe)

theorem add_volumes_still (entries : List Nat) (s : State) : Ensures (addVolumes d probe entries s) (fun r => Still s r.2) := by
  induction entries generalizing s with
  | nil => exact ensures_pure _ (.refl s)
  | cons i entries ih =>
      unfold addVolumes
      by_cases unused : systemId probe.sector i = 0
      · rw [if_pos unused]
        exact ih s
      · rw [if_neg unused]
        refine ensures_bind _ _ (ensures_lift _ (kmalloc_yields s _)) ?_
        rintro ⟨v, _⟩ ⟨rfl, -, heap, rfl, -, -⟩
        dsimp only
        by_cases failed : probe.volumeBlocks i = 0
        · rw [if_pos failed]
          exact ensures_pure _ ⟨rfl, rfl, fun _ => rfl, fun _ => rfl, fun _ => rfl⟩
        · rw [if_neg failed]
          refine ensures_bind _ _ (ensures_lift _ (check_yields _ _)) (fun _ _ => ?_)
          refine ensures_bind _ _ (ensures_lift _ (check_yields _ _)) (fun _ _ => ?_)
          refine ensures_bind _ _ (show Ensures _ (fun _ => True) from fun _ _ => trivial) (fun l _ => ?_)
          refine fun r returned => .trans ?_ (ih _ r returned)
          have linked := set_drive_still d ({ · with childVolumes := l.head }) s (fun _ => rfl) (fun _ => rfl) (fun _ => rfl)
          exact ⟨rfl, rfl, linked.callback, linked.block, linked.priv⟩

theorem free_volumes_still (stop : Volume → Bool) (v : Word) (s : State) :
    Ensures (loop (freeVolumesBody stop) (v, s)) (fun r => Still s r.2) := by
  refine ensures_loop (fun state => Still s state.2) ?_ (v, s) (.refl s)
  rintro ⟨v, t⟩ still
  unfold freeVolumesBody
  dsimp only
  by_cases null : v = 0
  · rw [if_pos null]
    exact yields_ok _ still
  · rw [if_neg null]
    refine yields_bind _ _ _ (check_yields t v) (fun _ _ => ?_)
    by_cases stopped : stop (t.volumes v) = true
    · rw [if_pos stopped]
      exact yields_ok _ still
    · rw [if_neg stopped]
      refine yields_bind _ _ _ (kfree_yields t v) ?_
      rintro _ ⟨heap, rfl, -⟩
      exact yields_ok _ ⟨still.drives, still.privs, still.callback, still.block, still.priv⟩

theorem numbered_still (s : State) :
    Still s { s.setDrive d ({ · with driveId := s.nextDriveId }) with nextDriveId := s.nextDriveId + 1 } := by
  have numbered := set_drive_still d ({ · with driveId := s.nextDriveId }) s (fun _ => rfl) (fun _ => rfl) (fun _ => rfl)
  exact ⟨rfl, rfl, numbered.callback, numbered.block, numbered.priv⟩

theorem parse_mbr_still (s : State) : Ensures (parseMbr d probe s) (fun r => Still s r.2) := by
  unfold parseMbr
  refine ensures_bind _ _ (ensures_lift _ (check_yields s d)) (fun _ _ => ?_)
  cases (s.driveData d).readcallback with
  | chs => exact ensures_pure _ (.refl s)
  | lba48 =>
      refine ensures_bind _ _ (ensures_lift _ (check_yields s _)) (fun _ _ => ?_)
      by_cases signed : signature probe.sector ≠ 0xAA55
      · rw [if_pos signed]
        exact ensures_pure _ (.refl s)
      · rw [if_neg signed]
        exact fun r returned => (numbered_still d s).trans (add_volumes_still d probe _ _ r returned)

theorem register_drive_still (s : State) : Ensures (registerDrive d probe s) (fun r => Still s r.2) := by
  unfold registerDrive
  refine ensures_bind _ _ (parse_mbr_still d probe s) ?_
  rintro ⟨failed, t⟩ still
  dsimp only at still ⊢
  by_cases refused : failed ≠ 0
  · rw [if_pos refused]
    refine ensures_bind _ _ (ensures_lift _ (check_yields t d)) (fun _ _ => ?_)
    exact ensures_bind _ _ (free_volumes_still _ _ t) (fun r freed => ensures_pure _ (still.trans freed))
  · rw [if_neg refused]
    refine ensures_bind _ _ (show Ensures _ (fun _ => True) from fun _ _ => trivial) (fun l _ => ensures_pure _ ?_)
    exact ⟨still.drives, still.privs, still.callback, still.block, still.priv⟩

end Registration

section Follow

variable (buf : Word) (blocks : Nat → Blocks)

def Matching {α : Type} (buf : Word) (w : Wires) (r : α) (r' : α × Wires) : Prop := r'.1 = r ∧ Past buf w r'.2

theorem follows_on_heap {α : Type} (result : Except Misuse α) : Follows Fault.misuse Eq (liftM result) (onHeap result) := by
  constructor
  · intro a returned
    refine ⟨a, (ends_lift _ _).mpr ?_, rfl⟩
    rw [← (ends_lift _ _).mp returned]
    rfl
  · intro e failed
    refine (ends_lift _ _).mpr ?_
    rw [← (ends_lift _ _).mp failed]
    rfl

theorem follows_matching {α : Type} (w : Wires) (r : α) (w' : Wires) (past : Past buf w w') :
    Follows Fault.misuse (Matching buf w) (pure r : Comp Misuse α) (pure (r, w') : Comp Fault (α × Wires)) :=
  follows_pure r (r, w') ⟨rfl, past⟩

theorem follows_then {α : Type} (w w' : Wires) (past : Past buf w w') (comp : Comp Misuse α) :
    Follows Fault.misuse (Matching buf w) comp (comp.mapError Fault.misuse >>= fun r => (pure (r, w') : Comp Fault (α × Wires))) := by
  constructor
  · intro a returned
    refine ⟨(a, w'), (ends_bind_of_returns _ _ a _ (ends_map_error Fault.misuse comp _ returned)).mpr ?_, rfl, past⟩
    exact (ends_pure _ _).mpr rfl
  · intro e failed
    exact (ends_bind _ _ _).mpr (.inr ⟨.misuse e, ends_map_error Fault.misuse comp _ failed, rfl⟩)

theorem add_volumes_congr (d : Word) (probe probe' : Probe) (sector : probe'.sector = probe.sector)
    (volumeBlocks : probe'.volumeBlocks = probe.volumeBlocks) (entries : List Nat) (s : State) :
    addVolumes d probe' entries s = addVolumes d probe entries s := by
  induction entries generalizing s with
  | nil => rfl
  | cons i entries ih =>
      unfold addVolumes
      rw [sector, volumeBlocks]
      simp only [ih]

structure Present (w : Wires) (s : State) (i : Nat) (d : Word) : Prop where
  small : i < 4
  readable : Readable s d (slot i)
  disk : ∃ medium, w.attached i = .disk medium

theorem parse_mbr_follows (w : Wires) (wired : Wired w) (i : Nat) (d : Word) (s : State) (present : Present w s i d) :
    Follows Fault.misuse (Matching buf w) (parseMbr d (w.probes blocks i) s) (w.parseMbr buf d (blocks i) s) := by
  obtain ⟨medium, disk⟩ := present.disk
  have unit := (slot_unit w i present.small).trans disk
  obtain ⟨bus, status⟩ := slot_wired w wired i present.small
  unfold parseMbr Wires.parseMbr
  refine follows_bind _ _ _ _ (follows_on_heap _) (fun _ _ _ _ => ?_)
  cases callback : (s.driveData d).readcallback with
  | chs => exact follows_matching buf w _ w (.refl buf w)
  | lba48 =>
      have block := present.readable.block callback
      have priv := present.readable.priv callback
      refine follows_bind _ _ _ _ (follows_on_heap _) (fun _ _ _ _ => ?_)
      dsimp only
      rw [priv, block]
      obtain ⟨m', ch', returned, cable, filled, outside⟩ := lba48_read_medium (w.on (slot i).bus) medium (s.driveData d) (slot i) ⟨0, 0⟩ ⟨0, 1⟩ buf
        w.mem unit bus (by decide) block status rfl (by decide) (by decide)
      refine follows_silent _ _ _ _ (ends_map_error Fault.stop _ _ returned) ?_
      dsimp only
      rw [if_neg (show ¬(0 : Word) ≠ 0 by decide)]
      have past : Past buf w { w.put (slot i).bus ch' with mem := m' } := by
        obtain ⟨primary, secondary, -⟩ := past_put buf w (slot i).bus ch' cable
        exact ⟨primary, secondary, outside⟩
      have sector : (fun j => if j < (512 : Word).toNat then m' (buf + BitVec.ofNat 32 j) else 0) = (w.probes blocks i).sector := by
        rw [Wires.probes, disk]
        funext j
        by_cases inside : j < 512
        · have byte := filled j inside
          rw [show (⟨0, 0⟩ : Lba).toNat + j / 512 = 0 by rw [Nat.div_eq_of_lt inside]; rfl, Nat.mod_eq_of_lt inside] at byte
          exact (if_pos inside).trans (byte.trans (if_pos inside).symm)
        · exact (if_neg inside).trans (if_neg inside).symm
      rw [sector]
      by_cases signed : signature (w.probes blocks i).sector ≠ 0xAA55
      · rw [if_pos signed, if_pos signed]
        exact follows_matching buf w _ _ past
      · rw [if_neg signed, if_neg signed,
          add_volumes_congr d (w.probes blocks i) ((blocks i).reading (w.probes blocks i).sector) rfl (by rw [Wires.probes, disk]; rfl)]
        exact follows_then buf w _ past _

theorem register_drive_follows (w : Wires) (wired : Wired w) (i : Nat) (d : Word) (s : State) (present : Present w s i d) :
    Follows Fault.misuse (Matching buf w) (registerDrive d (w.probes blocks i) s) (w.registerDrive buf d (blocks i) s) := by
  unfold registerDrive Wires.registerDrive
  refine follows_bind _ _ _ _ (parse_mbr_follows buf blocks w wired i d s present) ?_
  rintro ⟨failed, t⟩ ⟨_, w'⟩ - ⟨rfl, past⟩
  dsimp only
  by_cases refused : failed ≠ 0
  · rw [if_pos refused, if_pos refused]
    refine follows_bind _ _ _ _ (follows_on_heap _) (fun _ _ _ _ => ?_)
    refine follows_bind _ _ _ _ (follows_map_error _) ?_
    rintro r _ - rfl
    exact follows_matching buf w _ w' past
  · rw [if_neg refused, if_neg refused]
    refine follows_bind _ _ _ _ (follows_map_error _) ?_
    rintro l _ - rfl
    exact follows_matching buf w _ w' past

theorem register_all_follows (probes : Nat → Probe) (indices : List Nat) (good : Bool) (s : State) (w : Wires) (wired : Wired w)
    (same : w.probes blocks = probes) (present : ∀ i ∈ indices, s.drives i ≠ 0 → Present w s i (s.drives i)) :
    Follows Fault.misuse (Matching buf w) (registerAll probes indices good s) (w.registerAll buf blocks indices good s) := by
  induction indices generalizing good s w with
  | nil => exact follows_matching buf w _ w (.refl buf w)
  | cons i indices ih =>
      unfold registerAll Wires.registerAll
      by_cases none : s.drives i = 0
      · rw [if_pos none, if_pos none]
        exact ih good s w wired same (fun j member => present j (List.mem_cons_of_mem i member))
      · rw [if_neg none, if_neg none]
        have first := register_drive_follows buf blocks w wired i (s.drives i) s (present i List.mem_cons_self none)
        rw [same] at first
        refine follows_bind _ _ _ _ first ?_
        rintro ⟨failed, t⟩ ⟨_, w'⟩ returned ⟨rfl, past⟩
        have still := register_drive_still _ _ s _ returned
        have same' : w'.probes blocks = probes := by
          rw [← same]
          funext j
          rw [Wires.probes, past.attached, Wires.probes]
        have later (t' : State) (still : Still s t') (j : Nat) (member : j ∈ indices) (used : t'.drives j ≠ 0) : Present w' t' j (t'.drives j) := by
          rw [still.drives] at used ⊢
          obtain ⟨small, readable, disk⟩ := present j (List.mem_cons_of_mem i member) used
          exact ⟨small, still.readable readable, by rwa [past.attached]⟩
        have rest (good : Bool) (t' : State) (still : Still s t') : Follows Fault.misuse (Matching buf w) (registerAll probes indices good t')
            (w'.registerAll buf blocks indices good t') := by
          refine follows_mono _ _ _ ?_ (ih good t' w' (wired.past past) same' (later t' still))
          rintro r r' ⟨here, further⟩
          exact ⟨here, past.trans further⟩
        dsimp only at still ⊢
        by_cases refused : failed ≠ 0
        · rw [if_pos refused, if_pos refused]
          refine follows_bind _ _ _ _ (follows_on_heap _) ?_
          rintro t' _ freed rfl
          refine rest good t' ?_
          obtain ⟨heap, rfl, -⟩ := kfree_yields t _ t' ((ends_lift _ _).mp freed).symm
          exact ⟨still.drives, still.privs, still.callback, still.block, still.priv⟩
        · rw [if_neg refused, if_neg refused]
          exact rest true t still

theorem identify_follows (w : Wires) (bus drive statusReg : Port) (b : Blocks) (s : State) (wired : (w.on bus).device.bus = bus)
    (status : (w.on bus).device.statusReg = statusReg) (mid : statusReg ≠ bus + LBAMID) (high : statusReg ≠ bus + LBAHIGH) :
    Follows Fault.misuse (Matching buf w) (liftM (identify bus drive statusReg (((w.on bus).unit (drive.setWidth 8)).probe b) s))
      (w.identify bus drive statusReg b s) := by
  obtain ⟨ch', cable, ends⟩ := identify_answers (w.on bus) bus drive statusReg b s wired status mid high
  cases result : identify bus drive statusReg (((w.on bus).unit (drive.setWidth 8)).probe b) s with
  | ok r =>
      rw [result] at ends
      have past := past_put buf w bus ch' cable
      refine ⟨fun a returned => ⟨(r, w.put bus ch'), ?_, ?_, past⟩, fun e failed => nomatch (ends_lift _ _).mp failed⟩
      · exact (ends_bind_of_returns _ _ _ _ ends).mpr ((ends_pure _ _).mpr rfl)
      · exact (Except.ok.inj ((ends_lift _ _).mp returned)).symm
  | error e =>
      rw [result] at ends
      refine ⟨fun a returned => (nomatch (ends_lift _ _).mp returned), fun e' failed => (ends_bind _ _ _).mpr (.inr ⟨_, ends, ?_⟩)⟩
      rw [Except.error.inj ((ends_lift _ _).mp failed)]

def Held (w : Wires) (s : State) (indices : List Nat) : Prop :=
  ∀ i ∈ indices, s.drives i ≠ 0 → i < 4 ∧ Known s (s.drives i) (slot i) ∧ ∃ medium, w.attached i = .disk medium

theorem held_none (w : Wires) (s : State) (indices : List Nat) (held : Held w s indices) (i : Nat) : Held w (setHandle i 0 s) (i :: indices) := by
  intro j member used
  by_cases here : j = i
  · rw [here] at used
    exact absurd (Function.update_self i 0 s.drives) used
  · have handle : (setHandle i 0 s).drives j = s.drives j := Function.update_of_ne here _ _
    rw [handle] at used ⊢
    obtain ⟨small, known, disk⟩ := held j ((List.mem_cons.mp member).resolve_left here) used
    exact ⟨small, known.later (.refl s), disk⟩

theorem held_found (w w' : Wires) (past : Past buf w w') (s : State) (indices : List Nat) (held : Held w s indices) (i : Nat) (small : i < 4)
    (r : Word × State) (found : Later s r.2 ∧ r.2.drives = s.drives ∧ (r.1 ≠ 0 → Known r.2 r.1 (slot i) ∧ ∃ medium, w.attached i = .disk medium)) :
    Held w' (setHandle i r.1 r.2) (i :: indices) := by
  obtain ⟨later, drives, mine⟩ := found
  intro j member used
  rw [past.attached]
  by_cases here : j = i
  · have handle : (setHandle i r.1 r.2).drives j = r.1 := by rw [here]; exact Function.update_self i r.1 r.2.drives
    rw [handle] at used ⊢
    rw [here]
    obtain ⟨known, disk⟩ := mine used
    exact ⟨small, known.later (.refl r.2), disk⟩
  · have handle : (setHandle i r.1 r.2).drives j = s.drives j := (Function.update_of_ne here _ _).trans (congrFun drives j)
    rw [handle] at used ⊢
    obtain ⟨small, known, disk⟩ := held j ((List.mem_cons.mp member).resolve_left here) used
    exact ⟨small, known.later later, disk⟩

theorem identify_stage {α : Type} (i : Nat) (small : i < 4) (bus drive statusReg : Port) (described_ : described bus drive statusReg = slot i)
    (w₀ w : Wires) (wired : Wired w) (past : Past buf w₀ w) (unit : (w.on bus).unit (drive.setWidth 8) = w.attached i) (s : State) (indices : List Nat)
    (held : Held w s indices) (mid : statusReg ≠ bus + LBAMID) (high : statusReg ≠ bus + LBAHIGH)
    (above : Word × State → Comp Misuse α) (below : (Word × State) × Wires → Comp Fault (α × Wires))
    (rest : ∀ r w', Wired w' → Past buf w₀ w' → Held w' (setHandle i r.1 r.2) (i :: indices) →
      Follows Fault.misuse (Matching buf w₀) (above r) (below (r, w'))) :
    Follows Fault.misuse (Matching buf w₀) (liftM (identify bus drive statusReg (w₀.probes blocks i) s) >>= above)
      (w.identify bus drive statusReg (blocks i) s >>= below) := by
  have slots := slot_wired w wired i small
  rw [← described_] at slots
  have follows := identify_follows buf w bus drive statusReg (blocks i) s slots.1 slots.2 mid high
  have probe : ((w.on bus).unit (drive.setWidth 8)).probe (blocks i) = w₀.probes blocks i := by rw [unit, past.attached, Wires.probes]
  rw [probe] at follows
  refine follows_bind _ _ _ _ follows ?_
  rintro _ ⟨r, w'⟩ returned ⟨rfl, past'⟩
  have found := identify_yields bus drive statusReg (blocks i) (w.attached i) s r (by
    rw [past.attached]
    exact ((ends_lift _ _).mp returned).symm)
  rw [Found, described_] at found
  exact rest r w' (wired.past past') (past.trans past') (held_found buf w w' past' s indices held i small r found)

theorem module_init_follows (w : Wires) (s : State) (wired : Wired w) :
    Follows Fault.misuse (Matching buf w) (ataModuleInit (w.probes blocks) s) (w.ataModuleInit buf blocks s) := by
  unfold ataModuleInit Wires.ataModuleInit
  by_cases started : s.started = true
  · rw [if_pos started, if_pos started]
    exact follows_matching buf w _ w (.refl buf w)
  · rw [if_neg started, if_neg started]
    refine identify_stage buf blocks 0 (by decide) _ _ _ rfl w w wired (.refl buf w) rfl s [] nofun (by decide) (by decide) _ _ ?_
    rintro ⟨d₀, s₀⟩ w₀ wired₀ past₀ held₀
    refine identify_stage buf blocks 1 (by decide) _ _ _ rfl w w₀ wired₀ past₀ rfl _ _ held₀ (by decide) (by decide) _ _ ?_
    rintro ⟨d₁, s₁⟩ w₁ wired₁ past₁ held₁
    refine identify_stage buf blocks 2 (by decide) _ _ _ rfl w w₁ wired₁ past₁ rfl _ _ held₁ (by decide) (by decide) _ _ ?_
    rintro ⟨d₂, s₂⟩ w₂ wired₂ past₂ held₂
    refine identify_stage buf blocks 3 (by decide) _ _ _ rfl w w₂ wired₂ past₂ rfl _ _ held₂ (by decide) (by decide) _ _ ?_
    rintro ⟨d₃, s₃⟩ w₃ wired₃ past₃ held₃
    have held := held_none _ _ _ (held_none _ _ _ (held_none _ _ _ (held_none _ _ _ held₃ 4) 5) 6) 7
    have order : ∀ i ∈ List.range 8, i ∈ [7, 6, 5, 4, 3, 2, 1, 0] := by decide
    have same : w₃.probes blocks = w.probes blocks := by
      funext i
      rw [Wires.probes, past₃.attached, Wires.probes]
    have registered := register_all_follows buf blocks (w.probes blocks) (List.range 8) false _ w₃ wired₃ same (fun i member used =>
      have known := held i (order i member) used
      ⟨known.1, known.2.1.toReadable, known.2.2⟩)
    refine follows_bind _ _ _ _ registered ?_
    rintro ⟨good, t⟩ ⟨_, w'⟩ - ⟨rfl, past'⟩
    cases good with
    | true => exact follows_matching buf w _ w' (past₃.trans past')
    | false => exact follows_matching buf w _ w' (past₃.trans past')

end Follow

def cabled : Wires where
  primary := ⟨.disk ⟨fun _ => 0x0401, fun _ i => if i = 510 then 0x55 else if i = 511 then 0xAA else if i = 450 then 0x83 else 0, (· % 7)⟩, .packet, idleDevice⟩
  secondary := ⟨.nothing, .nothing, { idleDevice with bus := BUS1, statusReg := BUS1_STATUS }⟩
  mem := fun _ => 0

def fourBlocks (_ : Nat) : Blocks := ⟨0xC0201000, 0xC0202000, 0xC0203000, fun _ => 0xC0204000⟩

theorem module_init_follows_when_cabled : ∃ s' w', (cabled.ataModuleInit 0x300000 fourBlocks cold).Returns ((0, s'), w') ∧
    Past 0x300000 cabled w' ∧ s'.driveList.head = 0xC0202000 := by
  have follows := module_init_follows 0x300000 fourBlocks cabled cold ⟨⟨rfl, rfl⟩, rfl, rfl⟩
  have above : (ataModuleInit (cabled.probes fourBlocks) cold).Returns (0, stateAfter (ataModuleInit (cabled.probes fourBlocks) cold) cold) := ⟨9, rfl⟩
  obtain ⟨⟨⟨_, s'⟩, w'⟩, returned, same, past⟩ := follows.1 _ above
  cases same
  exact ⟨_, w', returned, past, rfl⟩

end Deimos.Ata
