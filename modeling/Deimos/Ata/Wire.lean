import Deimos.Ata.Read
import Deimos.Lib.Rules

set_option autoImplicit false

namespace Deimos.Ata

open Comp Mem

def IDENTIFY : Byte := 0xEC

-- What is at an end of the cable: nothing, a drive that speaks packets, or a
-- disk with its identification, its sectors and its delays.
structure Medium where
  info : Nat → BitVec 16
  sectors : Nat → Nat → Byte
  delay : Nat → Nat

inductive Attached where
  | nothing
  | packet
  | disk (medium : Medium)

def Medium.words (d : Medium) (lba k : Nat) : BitVec 16 := d.sectors (lba + k / 256) (2 * (k % 256) + 1) ++ d.sectors (lba + k / 256) (2 * (k % 256))

-- A bus with its two drives; the drives share the task file, and the selected
-- one does the transfers.
structure Channel where
  master : Attached
  slave : Attached
  device : Device

namespace Channel

def unit (select : Byte) (ch : Channel) : Attached := if select &&& 0x10 ≠ 0 then ch.slave else ch.master

def selected (ch : Channel) : Attached := ch.unit ch.device.select

-- A command byte starts a transfer of the selected disk: of its identification,
-- or of what is on the medium at the address in the registers.
def outb (port : Port) (value : Byte) (ch : Channel) : Channel :=
  if port = ch.device.bus + COMMAND then
    match ch.selected with
    | .disk d =>
        if value = IDENTIFY then
          { ch with device :=
              { ch.device with command := some ⟨ch.device.select, 0, 1⟩, supply := d.info, delay := d.delay, supplied := 0, polls := 0 } }
        else { ch with device := Ata.outb port value { ch.device with supply := d.words ch.device.decode.lba, delay := d.delay } }
    | _ => ch
  else { ch with device := Ata.outb port value ch.device }

-- A bus without the drive reads as zeros. A packet drive aborts what it is
-- asked, and has its signature in the registers.
def inb (port : Port) (ch : Channel) : Byte × Channel :=
  match ch.selected with
  | .nothing => (0, ch)
  | .packet =>
      if port = ch.device.statusReg then (RDY ||| ERR, ch)
      else if port = ch.device.bus + LBAMID then (0x14, ch)
      else if port = ch.device.bus + LBAHIGH then (0xEB, ch)
      else (0, ch)
  | .disk _ =>
      if port = ch.device.bus + LBAMID then (ch.device.lbaMid.latest, ch)
      else if port = ch.device.bus + LBAHIGH then (ch.device.lbaHigh.latest, ch)
      else ((Ata.inb port ch.device).1, { ch with device := (Ata.inb port ch.device).2 })

def inw (port : Port) (ch : Channel) : BitVec 16 × Channel :=
  match ch.selected with
  | .disk _ => ((Ata.inw port ch.device).1, { ch with device := (Ata.inw port ch.device).2 })
  | _ => (0, ch)

def pause (statusReg : Port) (ch : Channel) : Channel := (fun ch => (ch.inb statusReg).2)^[4] ch

def sendIdentify (bus drive : Port) (ch : Channel) : Channel :=
  let ch := ch.outb (bus + DRIVESELECT) (drive.setWidth 8)
  let ch := ch.outb (bus + SECTORCOUNT) 0
  let ch := ch.outb (bus + LBALOW) 0
  let ch := ch.outb (bus + LBAMID) 0
  let ch := ch.outb (bus + LBAHIGH) 0
  ch.outb (bus + COMMAND) IDENTIFY

def sendRead (priv : AtaPriv) (start : Lba) (sectors : Word) (ch : Channel) : Channel :=
  let ch := ch.outb (priv.bus + DRIVESELECT) (priv.drive.setWidth 8)
  let ch := ch.outb (priv.bus + SECTORCOUNT) ((sectors >>> 8).setWidth 8)
  let ch := ch.outb (priv.bus + LBALOW) ((start.low >>> 24).setWidth 8)
  let ch := ch.outb (priv.bus + LBAMID) (start.high.setWidth 8)
  let ch := ch.outb (priv.bus + LBAHIGH) ((start.high >>> 8).setWidth 8)
  let ch := ch.outb (priv.bus + SECTORCOUNT) (sectors.setWidth 8)
  let ch := ch.outb (priv.bus + LBALOW) (start.low.setWidth 8)
  let ch := ch.outb (priv.bus + LBAMID) ((start.low >>> 8).setWidth 8)
  let ch := ch.outb (priv.bus + LBAHIGH) ((start.low >>> 16).setWidth 8)
  ch.outb (priv.bus + COMMAND) READ_SECTORS_EXT

-- for(i=0; i<256; i++) info[i] = inw(bus + DATA);
def readInfo (bus : Port) : Nat → Channel → (Nat → BitVec 16) × Channel
  | 0, ch => (fun _ => 0, ch)
  | n + 1, ch =>
      let (info, ch) := readInfo bus n ch
      let (value, ch) := ch.inw (bus + DATA)
      (Function.update info n value, ch)

def lba48Read (drive : Drive) (priv : AtaPriv) (start num : Lba) (dest : Word) (m : Mem) (ch : Channel) : Comp Stop (Word × Mem × Channel) :=
  if num.high ≠ 0 ∨ num.low > 65536 then pure (1, m, ch)
  else do
    let sectors := drive.blockSize / 512 * num.low
    let sectors := if sectors = 65536 then 0 else sectors
    let ch := ch.sendRead priv start sectors
    let t ← readSectors priv sectors.toNat ⟨dest, m, ch.device⟩
    pure (0, t.mem, { ch with device := t.device })

end Channel

inductive Fault where
  | stop (reason : Stop)
  | misuse (reason : Misuse)
deriving DecidableEq, Repr

def onHeap {α : Type} (result : Except Misuse α) : Comp Fault α := liftM (result.mapError Fault.misuse)

-- What kmalloc returns on behalf of one drive.
structure Blocks where
  infoBlock : Word
  driveBlock : Word
  privBlock : Word
  volumeBlocks : Nat → Word

-- while(inb(status_reg) & BSY)
def busyBody (statusReg : Port) (ch : Channel) : Except Fault (Iter Channel Channel) :=
  let (value, ch) := ch.inb statusReg
  if value &&& BSY ≠ 0 then .ok (.next ch) else .ok (.done ch)

-- The rest of identify, once the identification has been read.
def populate (bus drive statusReg : Port) (info : Word) (words : Nat → BitVec 16) (b : Blocks) (s : State) : Except Misuse (Word × State) := do
  if words I_SERIAL = 0 then
    let s ← kfree info s
    pure (0, s)
  else
    let (d, s) ← kmalloc b.driveBlock s
    let (p, s) ← kmalloc b.privBlock s
    if d = 0 ∨ p = 0 then
      let s ← kfree d s
      let s ← kfree p s
      let s ← kfree info s
      pure (0, s)
    else
      check s p
      check s d
      let lba48 := words 83 &&& 0x0400 ≠ 0
      let select := if drive &&& 0x10 ≠ 0 then SLAVELBA48 else MASTERLBA48
      let priv := if lba48 then ⟨.lba48, bus, select, statusReg⟩ else { s.privs p with mode := .chs }
      let s : State := { s with privs := Function.update s.privs p priv }
      let s := s.setDrive d (fun data =>
        { data with
          blocksHigh := if lba48 then dword (words (I_LBA48SECTORS + 2)) (words (I_LBA48SECTORS + 3)) else 0
          blocksLow := if lba48 then dword (words I_LBA48SECTORS) (words (I_LBA48SECTORS + 1)) else 0
          readcallback := if lba48 then .lba48 else .chs
          blockSize := 512
          childVolumes := 0
          priv := p })
      let s : State := { s with driveList := { s.driveList with next := Function.update s.driveList.next d 0 } }
      let s ← kfree info s
      pure (d, s)

-- The identification is read into a block of its own.
def Channel.fetch (bus drive statusReg : Port) (b : Blocks) (s : State) (ch : Channel) : Comp Fault ((Word × State) × Channel) := do
  let (info, s) ← onHeap (kmalloc b.infoBlock s)
  if info = 0 then pure ((0, s), ch)
  else do
    onHeap (check s info)
    let (words, ch) := ch.readInfo bus 256
    let r ← onHeap (populate bus drive statusReg info words b s)
    pure (r, ch)

def Channel.identify (bus drive statusReg : Port) (b : Blocks) (s : State) (ch : Channel) : Comp Fault ((Word × State) × Channel) := do
  let ch := ch.sendIdentify bus drive
  let ch := ch.pause statusReg
  let (status, ch) := ch.inb statusReg
  if status = 0 then pure ((0, s), ch)
  else do
    let ch ← loop (busyBody statusReg) ch
    let (ready, ch) := ch.inb statusReg
    if ready &&& ERR ≠ 0 then pure ((0, s), ch)
    else
      let (mid, ch) := ch.inb (bus + LBAMID)
      if mid ≠ 0 then pure ((0, s), ch)
      else
        let (high, ch) := ch.inb (bus + LBAHIGH)
        if high ≠ 0 then pure ((0, s), ch)
        else ch.fetch bus drive statusReg b s

def Attached.probe (b : Blocks) : Attached → Probe
  | .nothing => ⟨0, 0, 0, 0, fun _ => 0, fun _ => 0, b.infoBlock, b.driveBlock, b.privBlock, b.volumeBlocks⟩
  | .packet => ⟨RDY ||| ERR, RDY ||| ERR, 0x14, 0xEB, fun _ => 0, fun _ => 0, b.infoBlock, b.driveBlock, b.privBlock, b.volumeBlocks⟩
  | .disk d =>
      ⟨RDY ||| DRQ, RDY ||| DRQ, 0, 0, fun k => if k < 256 then d.info k else 0, fun i => if i < 512 then d.sectors 0 i else 0,
        b.infoBlock, b.driveBlock, b.privBlock, b.volumeBlocks⟩

-- The driver on what it has found out, up to what comes behind the allocation.
def found (bus drive statusReg : Port) (p : Probe) (b : Blocks) (s : State) : Except Misuse (Word × State) := do
  let (info, s) ← kmalloc b.infoBlock s
  if info = 0 then pure (0, s)
  else do
    check s info
    populate bus drive statusReg info p.info b s

theorem identify_found (bus drive statusReg : Port) (b : Blocks) (a : Attached) (s : State) : identify bus drive statusReg (a.probe b) s =
    if (a.probe b).status = 0 then pure (0, s)
    else if (a.probe b).ready &&& ERR ≠ 0 ∨ (a.probe b).lbaMid ≠ 0 ∨ (a.probe b).lbaHigh ≠ 0 then pure (0, s)
    else found bus drive statusReg (a.probe b) b s := by
  cases a <;> rfl

theorem identify_absent (bus drive statusReg : Port) (b : Blocks) (s : State) :
    identify bus drive statusReg (Attached.nothing.probe b) s = .ok (0, s) := by
  rw [identify_found]
  exact if_pos rfl

theorem identify_packet (bus drive statusReg : Port) (b : Blocks) (s : State) :
    identify bus drive statusReg (Attached.packet.probe b) s = .ok (0, s) := by
  have answered : ¬(RDY ||| ERR : Byte) = 0 := by decide
  have aborted : (RDY ||| ERR : Byte) &&& ERR ≠ 0 := by decide
  rw [identify_found]
  exact (if_neg answered).trans (if_pos (.inl aborted))

theorem identify_disk (bus drive statusReg : Port) (b : Blocks) (medium : Medium) (s : State) :
    identify bus drive statusReg ((Attached.disk medium).probe b) s = found bus drive statusReg ((Attached.disk medium).probe b) b s := by
  have answered : ¬(RDY ||| DRQ : Byte) = 0 := by decide
  have fine : ¬((RDY ||| DRQ : Byte) &&& ERR ≠ 0 ∨ (0 : Byte) ≠ 0 ∨ (0 : Byte) ≠ 0) := by decide
  rw [identify_found]
  exact (if_neg answered).trans (if_neg fine)

structure Cable (ch ch' : Channel) : Prop where
  master : ch'.master = ch.master
  slave : ch'.slave = ch.slave
  bus : ch'.device.bus = ch.device.bus
  statusReg : ch'.device.statusReg = ch.device.statusReg

theorem Cable.refl (ch : Channel) : Cable ch ch := ⟨rfl, rfl, rfl, rfl⟩

theorem Cable.trans {ch ch' ch'' : Channel} (first : Cable ch ch') (second : Cable ch' ch'') : Cable ch ch'' :=
  ⟨second.master.trans first.master, second.slave.trans first.slave, second.bus.trans first.bus, second.statusReg.trans first.statusReg⟩

section Commands

variable (ch : Channel) (bus drive : Port) (wired : ch.device.bus = bus)

def asked (drive : Port) (d : Device) : Device :=
  { d with
    select := drive.setWidth 8, count := d.count.push 0, lbaLow := d.lbaLow.push 0, lbaMid := d.lbaMid.push 0
    lbaHigh := d.lbaHigh.push 0 }

def identifying (medium : Medium) (drive : Port) (d : Device) : Device :=
  { asked drive d with command := some ⟨drive.setWidth 8, 0, 1⟩, supply := medium.info, delay := medium.delay, supplied := 0, polls := 0 }

include wired

theorem send_identify : ch.sendIdentify bus drive =
    { ch with device :=
        match ch.unit (drive.setWidth 8) with
        | .disk medium => identifying medium drive ch.device
        | _ => asked drive ch.device } := by
  have apart (i j : Port) : bus + i = bus + j ↔ i = j := BitVec.add_right_inj _
  have registers : ((((ch.outb (bus + DRIVESELECT) (drive.setWidth 8)).outb (bus + SECTORCOUNT) 0).outb (bus + LBALOW) 0).outb (bus + LBAMID) 0).outb
      (bus + LBAHIGH) 0 = { ch with device := asked drive ch.device } := by
    simp [Channel.outb, Ata.outb, asked, wired, apart, SECTORCOUNT, LBALOW, LBAMID, LBAHIGH, DRIVESELECT, COMMAND]
  rw [Channel.sendIdentify, registers]
  have port : bus + COMMAND = ({ ch with device := asked drive ch.device } : Channel).device.bus + COMMAND := congrArg (· + COMMAND) wired.symm
  have unit : ({ ch with device := asked drive ch.device } : Channel).selected = ch.unit (drive.setWidth 8) := rfl
  rw [Channel.outb, if_pos port, unit]
  cases ch.unit (drive.setWidth 8) with
  | nothing => rfl
  | packet => rfl
  | disk medium => rfl

end Commands

section Answers

variable (ch : Channel) (statusReg : Port)

theorem inb_nothing (port : Port) (absent : ch.selected = .nothing) : ch.inb port = (0, ch) := by
  rw [Channel.inb, absent]

theorem pause_nothing (absent : ch.selected = .nothing) : ch.pause statusReg = ch := by
  simp [Channel.pause, inb_nothing ch _ absent]

variable (packet : ch.selected = .packet) (wired : ch.device.statusReg = statusReg)
include packet wired

theorem inb_packet : ch.inb statusReg = (RDY ||| ERR, ch) := by
  rw [Channel.inb, packet]
  exact if_pos wired.symm

theorem pause_packet : ch.pause statusReg = ch := by
  simp [Channel.pause, inb_packet ch statusReg packet wired]

end Answers

section Disks

variable (ch : Channel) (medium : Medium) (disk : ch.selected = .disk medium)
include disk

theorem inb_disk (port : Port) (mid : port ≠ ch.device.bus + LBAMID) (high : port ≠ ch.device.bus + LBAHIGH) :
    ch.inb port = ((Ata.inb port ch.device).1, { ch with device := (Ata.inb port ch.device).2 }) := by
  rw [Channel.inb, disk]
  exact (if_neg mid).trans (if_neg high)

theorem inw_disk (port : Port) : ch.inw port = ((Ata.inw port ch.device).1, { ch with device := (Ata.inw port ch.device).2 }) := by
  rw [Channel.inw, disk]

end Disks

section Polling

variable (ch : Channel) (medium : Medium) (statusReg : Port)

def Channel.polled (n : Nat) (ch : Channel) : Channel := { ch with device := { ch.device with polls := n } }

structure Working (ch : Channel) (medium : Medium) (statusReg : Port) : Prop where
  disk : ch.selected = .disk medium
  busy : ch.device.transferring = true
  status : ch.device.statusReg = statusReg
  mid : statusReg ≠ ch.device.bus + LBAMID
  high : statusReg ≠ ch.device.bus + LBAHIGH

variable (working : Working ch medium statusReg)
include working

theorem status_working (p : Nat) : (ch.polled p).inb statusReg =
    (if ch.device.delay (ch.device.supplied / 256) ≤ p then RDY ||| DRQ else BSY, ch.polled (p + 1)) := by
  have busy : (ch.polled p).device.transferring = true := working.busy
  have ready : (ch.polled p).device.ready = decide (ch.device.delay (ch.device.supplied / 256) ≤ p) := by
    rw [Device.ready, busy, Bool.true_and]
    rfl
  have status : (ch.polled p).device.status = if ch.device.delay (ch.device.supplied / 256) ≤ p then RDY ||| DRQ else BSY := by
    rw [Device.status, ready, busy]
    by_cases elapsed : ch.device.delay (ch.device.supplied / 256) ≤ p <;> simp [elapsed]
  have port : Ata.inb statusReg (ch.polled p).device = ((ch.polled p).device.status, { (ch.polled p).device with polls := p + 1 }) :=
    if_pos working.status.symm
  have answer := inb_disk (ch.polled p) medium working.disk statusReg working.mid working.high
  rw [answer, port, status]
  rfl

theorem pause_working : ch.pause statusReg = ch.polled (ch.device.polls + 4) := by
  have start : ch = ch.polled ch.device.polls := rfl
  rw [start]
  simp only [Channel.pause, Function.iterate_succ, Function.iterate_zero, Function.comp_apply, status_working ch medium statusReg working]
  rfl

theorem busy_returns (p : Nat) : ∃ q, (loop (busyBody statusReg) (ch.polled p)).Returns (ch.polled q) ∧
    ch.device.delay (ch.device.supplied / 256) ≤ q := by
  induction left : ch.device.delay (ch.device.supplied / 256) - p using Nat.strongRecOn generalizing p with
  | ind n ih =>
      have answer := status_working ch medium statusReg working p
      by_cases elapsed : ch.device.delay (ch.device.supplied / 256) ≤ p
      · rw [if_pos elapsed] at answer
        have pass : busyBody statusReg (ch.polled p) = .ok (.done (ch.polled (p + 1))) := by
          rw [busyBody, answer]
          rfl
        exact ⟨p + 1, (ends_loop_done _ _ _ _ pass).mpr rfl, by omega⟩
      · rw [if_neg elapsed] at answer
        have pass : busyBody statusReg (ch.polled p) = .ok (.next (ch.polled (p + 1))) := by
          rw [busyBody, answer]
          rfl
        obtain ⟨q, returns, ready⟩ := ih (ch.device.delay (ch.device.supplied / 256) - (p + 1)) (by omega) (p + 1) rfl
        exact ⟨q, (ends_loop_next _ _ _ _ pass).mpr returns, ready⟩

end Polling

section Identification

variable (ch : Channel) (medium : Medium) (bus drive statusReg : Port) (b : Blocks) (s : State)

theorem read_info (select : Byte) (p n : Nat) (disk : ch.selected = .disk medium) (wired : ch.device.bus = bus)
    (job : ch.device.command = some ⟨select, 0, 1⟩) (fresh : ch.device.supplied = 0) (elapsed : ch.device.delay 0 ≤ p) (few : n ≤ 256) :
    (ch.polled p).readInfo bus n =
      (fun k => if k < n then ch.device.supply k else 0,
        { ch with device := { ch.device with supplied := n, polls := if n = 256 then 0 else p } }) := by
  induction n with
  | zero =>
      have start : ch.polled p = { ch with device := { ch.device with supplied := 0, polls := p } } := by rw [← fresh]; rfl
      rw [Channel.readInfo, start]
      rfl
  | succ n ih =>
      have before : n ≠ 256 := by omega
      have last : (n + 1) % 256 = 0 ↔ n + 1 = 256 := by omega
      have ready : ({ ch.device with supplied := n, polls := p } : Device).ready = true := by
        have block : n / 256 = 0 := by omega
        simp [Device.ready, Device.transferring, job, block, elapsed]
        omega
      rw [Channel.readInfo, ih (by omega), if_neg before]
      have port : Ata.inw (bus + DATA) { ch.device with supplied := n, polls := p } =
          (ch.device.supply n, { ch.device with supplied := n + 1, polls := if (n + 1) % 256 = 0 then 0 else p }) :=
        if_pos ⟨congrArg (· + DATA) wired.symm, ready⟩
      have answer := inw_disk ({ ch with device := { ch.device with supplied := n, polls := p } }) medium disk (bus + DATA)
      simp only [answer, port, last]
      congr 1
      funext k
      by_cases here : k = n
      · rw [here, Function.update_self, if_pos (Nat.lt_succ_self n)]
      · rw [Function.update_of_ne here]
        have inside : k < n + 1 ↔ k < n := by omega
        simp only [inside]

-- The result of the driver proper, with the machine beside it.
def beside {α β : Type} (x : β) : Except Misuse α → Except Fault (α × β)
  | .ok a => .ok (a, x)
  | .error e => .error (.misuse e)

theorem ends_on_heap {α β γ : Type} (result : Except Misuse α) (rest : α → Comp Fault (γ × β)) (next : α → Except Misuse γ) (x : β)
    (each : ∀ a, result = .ok a → (rest a).Ends (beside x (next a))) : (onHeap result >>= rest).Ends (beside x (result >>= next)) := by
  cases result with
  | ok a => exact (ends_bind_of_returns _ rest a _ ((ends_lift _ _).mpr rfl)).mpr (each a rfl)
  | error e => exact (ends_bind _ rest _).mpr (.inr ⟨.misuse e, (ends_lift _ _).mpr rfl, rfl⟩)

theorem ends_after {α β : Type} (result : Except Misuse α) (x : β) :
    (onHeap result >>= fun a => (pure (a, x) : Comp Fault (α × β))).Ends (beside x result) := by
  cases result with
  | ok a => exact (ends_bind_of_returns _ _ a _ ((ends_lift _ _).mpr rfl)).mpr ((ends_pure _ _).mpr rfl)
  | error e => exact (ends_bind _ _ _).mpr (.inr ⟨.misuse e, (ends_lift _ _).mpr rfl, rfl⟩)

theorem kmalloc_answer (answer info : Word) (s' : State) (served : kmalloc answer s = .ok (info, s')) : info = answer := by
  rw [kmalloc] at served
  by_cases taken : answer ∈ s.heap.live
  · rw [if_pos taken] at served
    exact nomatch served
  · rw [if_neg taken] at served
    exact (congrArg Prod.fst (Except.ok.inj served)).symm

theorem fetch_ends (p : Probe) (ch' : Channel) (read : ch.readInfo bus 256 = (p.info, ch')) :
    (ch.fetch bus drive statusReg b s).Ends (beside ch (found bus drive statusReg p b s)) ∨
      (ch.fetch bus drive statusReg b s).Ends (beside ch' (found bus drive statusReg p b s)) := by
  by_cases none : b.infoBlock = 0
  · refine .inl (ends_on_heap _ _ _ ch (fun r same => ?_))
    obtain ⟨info, s'⟩ := r
    have null : info = 0 := (kmalloc_answer s _ info s' same).trans none
    dsimp only
    rw [if_pos null, if_pos null]
    exact (ends_pure _ _).mpr rfl
  · refine .inr (ends_on_heap _ _ _ ch' (fun r same => ?_))
    obtain ⟨info, s'⟩ := r
    have some_ : info ≠ 0 := fun null => none ((kmalloc_answer s _ info s' same).symm.trans null)
    dsimp only
    rw [if_neg some_, if_neg some_, read]
    exact ends_on_heap _ _ _ ch' (fun _ _ => ends_after _ ch')

theorem identify_answers_disk (disk : ch.unit (drive.setWidth 8) = .disk medium) (wired : ch.device.bus = bus) (status : ch.device.statusReg = statusReg)
    (mid : statusReg ≠ bus + LBAMID) (high : statusReg ≠ bus + LBAHIGH) :
    ∃ ch', Cable ch ch' ∧ (ch.identify bus drive statusReg b s).Ends
      (beside ch' (Ata.identify bus drive statusReg ((Attached.disk medium).probe b) s)) := by
  let ch₁ : Channel := { ch with device := identifying medium drive ch.device }
  have sent : ch.sendIdentify bus drive = ch₁ := by rw [send_identify ch bus drive wired, disk]
  have working : Working ch₁ medium statusReg := ⟨disk, rfl, status, wired ▸ mid, wired ▸ high⟩
  have paused : ch₁.pause statusReg = ch₁.polled 4 := pause_working ch₁ medium statusReg working
  have first := status_working ch₁ medium statusReg working 4
  obtain ⟨q, waited, elapsed⟩ := busy_returns ch₁ medium statusReg working 5
  have ready := status_working ch₁ medium statusReg working q
  rw [if_pos elapsed] at ready
  have other : bus + LBAHIGH ≠ bus + LBAMID := fun same => absurd ((BitVec.add_right_inj bus).mp same) (by decide)
  have signature : (ch₁.polled (q + 1)).inb (bus + LBAMID) = (0, ch₁.polled (q + 1)) ∧
      (ch₁.polled (q + 1)).inb (bus + LBAHIGH) = (0, ch₁.polled (q + 1)) := by
    have selected : (ch₁.polled (q + 1)).selected = .disk medium := disk
    have port : (ch₁.polled (q + 1)).device.bus = bus := wired
    constructor
    · rw [Channel.inb, selected, port]
      exact if_pos rfl
    · rw [Channel.inb, selected, port]
      exact (if_neg other).trans (if_pos rfl)
  have rest (result : Except Fault ((Word × State) × Channel)) (fetched : ((ch₁.polled (q + 1)).fetch bus drive statusReg b s).Ends result) :
      (ch.identify bus drive statusReg b s).Ends result := by
    have answered : ¬(if ch₁.device.delay (ch₁.device.supplied / 256) ≤ 4 then RDY ||| DRQ else BSY) = 0 := by
      by_cases soon : ch₁.device.delay (ch₁.device.supplied / 256) ≤ 4
      · rw [if_pos soon]
        decide
      · rw [if_neg soon]
        decide
    rw [Channel.identify, sent, paused, first]
    dsimp only
    rw [if_neg answered]
    refine (ends_bind_of_returns _ _ _ _ waited).mpr ?_
    rw [ready]
    dsimp only
    rw [if_neg (by decide), signature.1]
    dsimp only
    rw [if_neg (by decide), signature.2]
    dsimp only
    rwa [if_neg (by decide)]
  have soon : ch₁.device.delay 0 ≤ q + 1 := Nat.le_succ_of_le (show ch₁.device.delay (0 / 256) ≤ q from elapsed)
  have read := read_info ch₁ medium bus (drive.setWidth 8) (q + 1) 256 disk wired rfl rfl soon (Nat.le_refl 256)
  rw [identify_disk]
  cases fetch_ends (ch₁.polled (q + 1)) bus drive statusReg b s ((Attached.disk medium).probe b) _ read with
  | inl unread => exact ⟨ch₁.polled (q + 1), ⟨rfl, rfl, rfl, rfl⟩, rest _ unread⟩
  | inr fetched =>
      refine ⟨_, ?_, rest _ fetched⟩
      exact ⟨rfl, rfl, rfl, rfl⟩

theorem identify_answers (wired : ch.device.bus = bus) (status : ch.device.statusReg = statusReg) (mid : statusReg ≠ bus + LBAMID)
    (high : statusReg ≠ bus + LBAHIGH) :
    ∃ ch', Cable ch ch' ∧ (ch.identify bus drive statusReg b s).Ends
      (beside ch' (Ata.identify bus drive statusReg ((ch.unit (drive.setWidth 8)).probe b) s)) := by
  let quiet : Channel := { ch with device := asked drive ch.device }
  cases unit : ch.unit (drive.setWidth 8) with
  | nothing =>
      have sent : ch.sendIdentify bus drive = quiet := by rw [send_identify ch bus drive wired, unit]
      have absent : quiet.selected = .nothing := unit
      refine ⟨quiet, ⟨rfl, rfl, rfl, rfl⟩, ?_⟩
      rw [identify_absent, Channel.identify, sent, pause_nothing quiet statusReg absent, inb_nothing quiet statusReg absent]
      exact (ends_pure _ _).mpr rfl
  | packet =>
      have sent : ch.sendIdentify bus drive = quiet := by rw [send_identify ch bus drive wired, unit]
      have packet : quiet.selected = .packet := unit
      have answer := inb_packet quiet statusReg packet status
      have pass : busyBody statusReg quiet = .ok (.done quiet) := by
        rw [busyBody, answer]
        rfl
      refine ⟨quiet, ⟨rfl, rfl, rfl, rfl⟩, ?_⟩
      rw [identify_packet, Channel.identify, sent, pause_packet quiet statusReg packet status, answer]
      refine (ends_bind_of_returns _ _ _ _ ((ends_loop_done _ _ _ _ pass).mpr rfl)).mpr ?_
      rw [answer]
      exact (ends_pure _ _).mpr rfl
  | disk medium => exact identify_answers_disk ch medium bus drive statusReg b s unit wired status mid high

end Identification

section Wiring

def Wiring (d d' : Device) : Prop := d'.bus = d.bus ∧ d'.statusReg = d.statusReg

theorem Wiring.refl (d : Device) : Wiring d d := ⟨rfl, rfl⟩

theorem Wiring.trans {d d' d'' : Device} (first : Wiring d d') (second : Wiring d' d'') : Wiring d d'' :=
  ⟨second.1.trans first.1, second.2.trans first.2⟩

variable (d : Device)

theorem outb_wiring (port : Port) (value : Byte) : Wiring d (Ata.outb port value d) := by
  unfold Ata.outb
  split_ifs <;> exact .refl d

theorem inb_wiring (port : Port) : Wiring d (Ata.inb port d).2 := by
  unfold Ata.inb
  split_ifs <;> exact .refl d

theorem inw_wiring (port : Port) : Wiring d (Ata.inw port d).2 := by
  unfold Ata.inw
  split_ifs <;> exact .refl d

theorem iterate_wiring {σ : Type} (device : σ → Device) (f : σ → σ) (step : ∀ s, Wiring (device s) (device (f s))) (n : Nat) (s : σ) :
    Wiring (device s) (device (f^[n] s)) := by
  induction n generalizing s with
  | zero => exact .refl _
  | succ n ih => exact (step s).trans (ih (f s))

theorem wait_wiring (statusReg : Port) : Ensures (loop (waitBody statusReg) d) (Wiring d) := by
  refine ensures_loop (Wiring d) (fun d' wiring => ?_) d (.refl d)
  have again : Wiring d (Ata.inb statusReg (Ata.inb statusReg d').2).2 :=
    wiring.trans ((inb_wiring d' statusReg).trans (inb_wiring _ statusReg))
  unfold waitBody
  dsimp only
  split_ifs <;> exact yields_ok _ again

theorem read_sectors_wiring (priv : AtaPriv) (n : Nat) (t : Transfer) : Ensures (readSectors priv n t) (fun t' => Wiring t.device t'.device) := by
  induction n generalizing t with
  | zero => exact ensures_pure _ (.refl _)
  | succ n ih =>
      refine ensures_bind _ _ (wait_wiring _ priv.statusReg) (fun d waited => ?_)
      intro t' returned
      have paused : Wiring t.device (pause priv.statusReg t.device) := iterate_wiring id _ (fun d => inb_wiring d priv.statusReg) 4 t.device
      have words := iterate_wiring Transfer.device (readWord priv.bus) (fun t => inw_wiring t.device _) 256 { t with device := d }
      exact (paused.trans waited).trans (words.trans (ih _ t' returned))

theorem lba48_read_wiring (drive : Drive) (priv : AtaPriv) (start num : Lba) (dest : Word) (m : Mem) :
    Ensures (ataLba48Read drive priv start num dest m d) (fun r => Wiring d r.2.2) := by
  unfold ataLba48Read
  split_ifs with refused
  · exact ensures_pure _ (.refl d)
  · have sent (sectors : Word) : Wiring d (sendRead priv start sectors d) := by
      unfold sendRead
      dsimp only
      iterate 9 refine .trans ?_ (outb_wiring _ _ _)
      exact outb_wiring _ _ _
    refine ensures_bind _ _ (read_sectors_wiring priv _ _) (fun t read => ensures_pure _ ?_)
    exact (sent _).trans read

end Wiring

section Sectors

theorem outb_register (ch : Channel) (port : Port) (value : Byte) (register : port ≠ ch.device.bus + COMMAND) :
    ch.outb port value = { ch with device := Ata.outb port value ch.device } :=
  if_neg register

theorem outb_bus (port : Port) (value : Byte) (d : Device) : (Ata.outb port value d).bus = d.bus := by
  unfold Ata.outb
  split_ifs <;> rfl

theorem outb_registers (writes : List (Port × Byte)) (ch : Channel) (registers : ∀ w ∈ writes, w.1 ≠ ch.device.bus + COMMAND) :
    writes.foldl (fun ch w => ch.outb w.1 w.2) ch = { ch with device := writes.foldl (fun d w => Ata.outb w.1 w.2 d) ch.device } := by
  induction writes generalizing ch with
  | nil => rfl
  | cons w writes ih =>
      rw [List.foldl_cons, outb_register ch w.1 w.2 (registers w List.mem_cons_self), ih]
      · rfl
      · intro w' member
        rw [outb_bus]
        exact registers w' (List.mem_cons_of_mem w member)

variable (ch : Channel) (medium : Medium) (drive : Drive) (priv : AtaPriv) (start num : Lba) (sectors dest : Word) (m : Mem)

def setup (priv : AtaPriv) (start : Lba) (sectors : Word) : List (Port × Byte) :=
  [(priv.bus + DRIVESELECT, priv.drive.setWidth 8), (priv.bus + SECTORCOUNT, (sectors >>> 8).setWidth 8),
    (priv.bus + LBALOW, (start.low >>> 24).setWidth 8), (priv.bus + LBAMID, start.high.setWidth 8),
    (priv.bus + LBAHIGH, (start.high >>> 8).setWidth 8), (priv.bus + SECTORCOUNT, sectors.setWidth 8),
    (priv.bus + LBALOW, start.low.setWidth 8), (priv.bus + LBAMID, (start.low >>> 8).setWidth 8),
    (priv.bus + LBAHIGH, (start.low >>> 16).setWidth 8)]

theorem setup_registers (w : Port × Byte) (member : w ∈ setup priv start sectors) : w.1 ≠ priv.bus + COMMAND := by
  have apart (i j : Port) : priv.bus + i = priv.bus + j ↔ i = j := BitVec.add_right_inj _
  simp only [setup, List.mem_cons, List.not_mem_nil, or_false] at member
  rcases member with rfl | rfl | rfl | rfl | rfl | rfl | rfl | rfl | rfl <;> exact mt (apart _ _).mp (by decide)

theorem setup_loads (d : Device) (bus : d.bus = priv.bus) :
    (setup priv start sectors).foldl (fun d w => Ata.outb w.1 w.2 d) d = loaded priv start sectors d := by
  have apart (i j : Port) : priv.bus + i = priv.bus + j ↔ i = j := BitVec.add_right_inj _
  simp [setup, loaded, outb, bus, apart, SECTORCOUNT, LBALOW, LBAMID, LBAHIGH, DRIVESELECT, Reg.push]

def Medium.supplying (medium : Medium) (start : Lba) (d : Device) : Device := { d with supply := medium.words start.toNat, delay := medium.delay }

variable (disk : ch.unit (priv.drive.setWidth 8) = .disk medium) (wired : ch.device.bus = priv.bus) (small : start.high.toNat < 2 ^ 16)
include disk wired small

theorem send_read_channel : ch.sendRead priv start sectors = { ch with device := sendRead priv start sectors (medium.supplying start ch.device) } := by
  let loading : Channel := { ch with device := loaded priv start sectors ch.device }
  have sets : (setup priv start sectors).foldl (fun ch w => ch.outb w.1 w.2) ch = loading := by
    rw [outb_registers _ ch (fun w member => wired ▸ setup_registers priv start sectors w member), setup_loads priv start sectors _ wired]
  have channel : ch.sendRead priv start sectors = loading.outb (priv.bus + COMMAND) READ_SECTORS_EXT :=
    congrArg (Channel.outb (priv.bus + COMMAND) READ_SECTORS_EXT) sets
  have device : sendRead priv start sectors (medium.supplying start ch.device) =
      Ata.outb (priv.bus + COMMAND) READ_SECTORS_EXT (loaded priv start sectors (medium.supplying start ch.device)) :=
    congrArg (Ata.outb (priv.bus + COMMAND) READ_SECTORS_EXT) (setup_loads priv start sectors _ wired)
  have port : priv.bus + COMMAND = loading.device.bus + COMMAND := congrArg (· + COMMAND) wired.symm
  have unit : loading.selected = .disk medium := disk
  have address : loading.device.decode.lba = start.toNat := congrArg ReadCommand.lba (loaded_decode priv start sectors ch.device small)
  have other : ¬READ_SECTORS_EXT = IDENTIFY := by decide
  rw [channel, device, Channel.outb, if_pos port, unit]
  dsimp only
  rw [if_neg other, address]
  rfl

theorem lba48_read_channel (m' : Mem) (d' : Device) (allowed : ¬(num.high ≠ 0 ∨ num.low > 65536))
    (read : (ataLba48Read drive priv start num dest m (medium.supplying start ch.device)).Returns (0, m', d')) :
    (ch.lba48Read drive priv start num dest m).Returns (0, m', { ch with device := d' }) := by
  rw [ataLba48Read, if_neg allowed] at read
  obtain ⟨t, returned, last⟩ := (returns_bind _ _ _).mp read
  have same := (ends_pure _ _).mp last
  simp only [Except.ok.injEq, Prod.mk.injEq, true_and] at same
  obtain ⟨rfl, rfl⟩ := same
  rw [Channel.lba48Read, if_neg allowed]
  dsimp only
  rw [send_read_channel ch medium priv start _ disk wired small]
  exact (ends_bind_of_returns _ _ _ _ returned).mpr ((ends_pure _ _).mpr rfl)

omit disk wired small in
theorem sector_bytes (m' : Mem) (lba n : Nat) (words : ∀ k < 256 * n, m'.readHalf (dest + BitVec.ofNat 32 (2 * k)) = medium.words lba k) (j : Nat)
    (inside : j < 512 * n) : m' (dest + BitVec.ofNat 32 j) = medium.sectors (lba + j / 512) (j % 512) := by
  have whole := words (j / 2) (by omega)
  have sector : lba + j / 2 / 256 = lba + j / 512 := by omega
  rw [readHalf, Medium.words, sector] at whole
  by_cases even : j % 2 = 0
  · have low := congrArg (BitVec.extractLsb' 0 8) whole
    rw [BitVec.extractLsb'_append_eq_right, BitVec.extractLsb'_append_eq_right] at low
    have byte : 2 * (j / 2) = j ∧ 2 * (j / 2 % 256) = j % 512 := by omega
    rwa [byte.1, byte.2] at low
  · have high := congrArg (BitVec.extractLsb' 8 8) whole
    rw [BitVec.extractLsb'_append_eq_left, BitVec.extractLsb'_append_eq_left] at high
    have byte : 2 * (j / 2) + 1 = j ∧ 2 * (j / 2 % 256) + 1 = j % 512 := by omega
    have next : dest + BitVec.ofNat 32 (2 * (j / 2)) + 1 = dest + BitVec.ofNat 32 j := by
      rw [← byte.1]
      bv_omega
    rwa [byte.2, next] at high

theorem lba48_read_medium (block : drive.blockSize = 512) (status : ch.device.statusReg = priv.statusReg) (high : num.high = 0)
    (some_ : 0 < num.low.toNat) (fewer : num.low.toNat < 65536) :
    ∃ m' ch', (ch.lba48Read drive priv start num dest m).Returns (0, m', ch') ∧ Cable ch ch' ∧
      (∀ j < 512 * num.toNat, m' (dest + BitVec.ofNat 32 j) = medium.sectors (start.toNat + j / 512) (j % 512)) ∧
      ∀ x : Word, 512 * num.toNat ≤ (x - dest).toNat → m' x = m x := by
  let d := medium.supplying start ch.device
  obtain ⟨m', d', returned, transferred⟩ := read_between drive priv start num dest m d block small wired status high some_ fewer
  have allowed : ¬(num.high ≠ 0 ∨ num.low > 65536) := by
    rw [count_over, num.to_nat_of_low high]
    omega
  obtain ⟨bus, reg⟩ := lba48_read_wiring d drive priv start num dest m _ returned
  refine ⟨m', _, lba48_read_channel ch medium drive priv start num dest m disk wired small m' d' allowed returned, ⟨rfl, rfl, bus, reg⟩, ?_,
    transferred.outside⟩
  exact sector_bytes medium dest m' start.toNat num.toNat transferred.words

end Sectors

end Deimos.Ata
