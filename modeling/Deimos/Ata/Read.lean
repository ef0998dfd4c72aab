import Mathlib.Logic.Function.Iterate
import Deimos.Ata.Model

set_option autoImplicit false

namespace Deimos.Ata

open Comp

def DATA : Port := 0
def SECTORCOUNT : Port := 2
def LBALOW : Port := 3
def LBAMID : Port := 4
def LBAHIGH : Port := 5
def DRIVESELECT : Port := 6
def COMMAND : Port := 7

def DRQ : Byte := 0x08
def RDY : Byte := 0x40
def BSY : Byte := 0x80

def READ_SECTORS_EXT : Byte := 0x24

-- lba_t and blkcnt_t
structure Lba where
  high : Word
  low : Word
deriving DecidableEq, Repr

def Lba.toNat (b : Lba) : Nat := b.high.toNat * 2 ^ 32 + b.low.toNat

theorem Lba.to_nat_of_low (b : Lba) (high : b.high = 0) : b.toNat = b.low.toNat := by
  rw [Lba.toNat, high]
  exact Nat.zero_add _

-- A register of the task file holds the last two bytes written to it.
structure Reg where
  previous : Byte
  latest : Byte
deriving DecidableEq, Repr

def Reg.push (value : Byte) (r : Reg) : Reg := ⟨r.latest, value⟩

structure ReadCommand where
  drive : Byte
  lba : Nat
  count : Nat
deriving DecidableEq, Repr

-- An LBA48 device: its registers, the command it is carrying out, and how many
-- words of that it has supplied. It takes delay s status reads over sector s.
structure Device where
  bus : Port
  statusReg : Port
  delay : Nat → Nat
  supply : Nat → BitVec 16
  select : Byte
  count : Reg
  lbaLow : Reg
  lbaMid : Reg
  lbaHigh : Reg
  command : Option ReadCommand
  supplied : Nat
  polls : Nat

-- What the registers say: a count of 0 is one of 65536.
def Device.decode (d : Device) : ReadCommand where
  drive := d.select
  lba := d.lbaLow.latest.toNat + d.lbaMid.latest.toNat * 2 ^ 8 + d.lbaHigh.latest.toNat * 2 ^ 16 +
    d.lbaLow.previous.toNat * 2 ^ 24 + d.lbaMid.previous.toNat * 2 ^ 32 + d.lbaHigh.previous.toNat * 2 ^ 40
  count :=
    let n := d.count.latest.toNat + d.count.previous.toNat * 2 ^ 8
    if n = 0 then 65536 else n

def outb (port : Port) (value : Byte) (d : Device) : Device :=
  if port = d.bus + SECTORCOUNT then { d with count := d.count.push value }
  else if port = d.bus + LBALOW then { d with lbaLow := d.lbaLow.push value }
  else if port = d.bus + LBAMID then { d with lbaMid := d.lbaMid.push value }
  else if port = d.bus + LBAHIGH then { d with lbaHigh := d.lbaHigh.push value }
  else if port = d.bus + DRIVESELECT then { d with select := value }
  else if port = d.bus + COMMAND ∧ value = READ_SECTORS_EXT then { d with command := some d.decode, supplied := 0, polls := 0 }
  else d

def Device.transferring (d : Device) : Bool := d.command.any (fun c => d.supplied < 256 * c.count)

def Device.ready (d : Device) : Bool := d.transferring && d.delay (d.supplied / 256) ≤ d.polls

def Device.status (d : Device) : Byte :=
  if d.ready then RDY ||| DRQ else if d.transferring then BSY else RDY

def inb (port : Port) (d : Device) : Byte × Device :=
  if port = d.statusReg then (d.status, { d with polls := d.polls + 1 }) else (0xFF, d)

-- With the last word of a sector the device begins the next one.
def inw (port : Port) (d : Device) : BitVec 16 × Device :=
  if port = d.bus + DATA ∧ d.ready then
    (d.supply d.supplied, { d with supplied := d.supplied + 1, polls := if (d.supplied + 1) % 256 = 0 then 0 else d.polls })
  else (0xFFFF, d)

-- while((inb(status_reg) & BSY) | !(inb(status_reg) & DRQ)), which reads the register twice in any case.
def waitBody (statusReg : Port) (d : Device) : Except Stop (Iter Device Device) :=
  let (first, d) := inb statusReg d
  let (second, d) := inb statusReg d
  if first &&& BSY ≠ 0 ∨ second &&& DRQ = 0 then .ok (.next d) else .ok (.done d)

structure Transfer where
  dest : Word
  mem : Mem
  device : Device

def readWord (bus : Port) (t : Transfer) : Transfer :=
  let (value, device) := inw (bus + DATA) t.device
  { dest := t.dest + 2, mem := t.mem.writeHalf t.dest value, device := device }

-- The four reads of the status register that make up 400 ns.
def pause (statusReg : Port) (d : Device) : Device := (fun d => (inb statusReg d).2)^[4] d

-- for(s=0; s<sectors; s++)
def readSectors (priv : AtaPriv) : Nat → Transfer → Comp Stop Transfer
  | 0, t => pure t
  | sectors + 1, t => do
      let device ← loop (waitBody priv.statusReg) (pause priv.statusReg t.device)
      readSectors priv sectors ((readWord priv.bus)^[256] { t with device := device })

def sendRead (priv : AtaPriv) (start : Lba) (sectors : Word) (d : Device) : Device :=
  let d := outb (priv.bus + DRIVESELECT) (priv.drive.setWidth 8) d
  let d := outb (priv.bus + SECTORCOUNT) ((sectors >>> 8).setWidth 8) d
  let d := outb (priv.bus + LBALOW) ((start.low >>> 24).setWidth 8) d
  let d := outb (priv.bus + LBAMID) (start.high.setWidth 8) d
  let d := outb (priv.bus + LBAHIGH) ((start.high >>> 8).setWidth 8) d
  let d := outb (priv.bus + SECTORCOUNT) (sectors.setWidth 8) d
  let d := outb (priv.bus + LBALOW) (start.low.setWidth 8) d
  let d := outb (priv.bus + LBAMID) ((start.low >>> 8).setWidth 8) d
  let d := outb (priv.bus + LBAHIGH) ((start.low >>> 16).setWidth 8) d
  outb (priv.bus + COMMAND) READ_SECTORS_EXT d

def ataLba48Read (drive : Drive) (priv : AtaPriv) (start num : Lba) (dest : Word) (m : Mem) (d : Device) :
    Comp Stop (Word × Mem × Device) :=
  if num.high ≠ 0 ∨ num.low > 65536 then pure (1, m, d)
  else do
    let sectors := drive.blockSize / 512 * num.low
    let sectors := if sectors = 65536 then 0 else sectors
    let t ← readSectors priv sectors.toNat ⟨dest, m, sendRead priv start sectors d⟩
    pure (0, t.mem, t.device)

section Setup

variable (priv : AtaPriv) (start : Lba) (sectors : Word) (d : Device)

def loaded : Device :=
  { d with
    select := priv.drive.setWidth 8
    count := ⟨(sectors >>> 8).setWidth 8, sectors.setWidth 8⟩
    lbaLow := ⟨(start.low >>> 24).setWidth 8, start.low.setWidth 8⟩
    lbaMid := ⟨start.high.setWidth 8, (start.low >>> 8).setWidth 8⟩
    lbaHigh := ⟨(start.high >>> 8).setWidth 8, (start.low >>> 16).setWidth 8⟩ }

def countOf (sectors : Word) : Nat := if sectors.toNat % 65536 = 0 then 65536 else sectors.toNat % 65536

def sent : Device :=
  { loaded priv start sectors d with
    command := some ⟨priv.drive.setWidth 8, start.toNat, countOf sectors⟩
    supplied := 0
    polls := 0 }

theorem loaded_decode (small : start.high.toNat < 2 ^ 16) :
    (loaded priv start sectors d).decode = ⟨priv.drive.setWidth 8, start.toNat, countOf sectors⟩ := by
  have bound := start.low.isLt
  have bound' := sectors.isLt
  have count : sectors.toNat % 256 + sectors.toNat / 2 ^ 8 % 256 * 2 ^ 8 = sectors.toNat % 65536 := by omega
  have lba : start.low.toNat % 256 + start.low.toNat / 2 ^ 8 % 256 * 2 ^ 8 + start.low.toNat / 2 ^ 16 % 256 * 2 ^ 16 +
      start.low.toNat / 2 ^ 24 % 256 * 2 ^ 24 + start.high.toNat % 256 * 2 ^ 32 + start.high.toNat / 2 ^ 8 % 256 * 2 ^ 40 =
      start.high.toNat * 2 ^ 32 + start.low.toNat := by omega
  have low (x : Word) : (x.setWidth 8 : Byte).toNat = x.toNat % 256 := BitVec.toNat_setWidth 8 x
  simp only [Device.decode, loaded, low, BitVec.toNat_ushiftRight, Nat.shiftRight_eq_div_pow, count, lba, Lba.toNat, countOf]

theorem send_read (small : start.high.toNat < 2 ^ 16) (bus : d.bus = priv.bus) :
    sendRead priv start sectors d = sent priv start sectors d := by
  have apart (i j : Port) : priv.bus + i = priv.bus + j ↔ i = j := BitVec.add_right_inj _
  have decoded := loaded_decode priv start sectors d small
  rw [sent, ← decoded]
  simp [sendRead, loaded, outb, bus, apart, SECTORCOUNT, LBALOW, LBAMID, LBAHIGH, DRIVESELECT, COMMAND, Reg.push]

end Setup

section Waiting

variable (d : Device) (busy : d.transferring = true)

theorem pause_polls : pause d.statusReg d = { d with polls := d.polls + 4 } := by
  simp [pause, inb]

include busy

theorem wait_pass (p : Nat) : waitBody d.statusReg { d with polls := p } =
    if d.delay (d.supplied / 256) ≤ p then .ok (.done { d with polls := p + 2 }) else .ok (.next { d with polls := p + 2 }) := by
  have same (q : Nat) : ({ d with polls := q } : Device).transferring = true := busy
  have ready (q : Nat) : ({ d with polls := q } : Device).ready = decide (d.delay (d.supplied / 256) ≤ q) := by
    rw [Device.ready, same q, Bool.true_and]
  by_cases elapsed : d.delay (d.supplied / 256) ≤ p
  · have later : d.delay (d.supplied / 256) ≤ p + 1 := Nat.le_succ_of_le elapsed
    have first : ({ d with polls := p } : Device).status = RDY ||| DRQ := by simp [Device.status, ready, elapsed]
    have second : ({ d with polls := p + 1 } : Device).status = RDY ||| DRQ := by simp [Device.status, ready, later]
    simp only [waitBody, inb, if_true, first, second, if_pos elapsed]
    rfl
  · have first : ({ d with polls := p } : Device).status = BSY := by simp [Device.status, ready, elapsed, same]
    simp only [waitBody, inb, if_true, first, if_neg elapsed]
    rfl

theorem wait_returns (p : Nat) : ∃ q, (loop (waitBody d.statusReg) { d with polls := p }).Returns { d with polls := q } ∧
    d.delay (d.supplied / 256) ≤ q := by
  induction left : d.delay (d.supplied / 256) - p using Nat.strongRecOn generalizing p with
  | ind n ih =>
      have pass := wait_pass d busy p
      by_cases elapsed : d.delay (d.supplied / 256) ≤ p
      · rw [if_pos elapsed] at pass
        exact ⟨p + 2, (ends_loop_done _ _ _ _ pass).mpr rfl, by omega⟩
      · rw [if_neg elapsed] at pass
        obtain ⟨q, returns, ready⟩ := ih (d.delay (d.supplied / 256) - (p + 2)) (by omega) (p + 2) rfl
        exact ⟨q, (ends_loop_next _ _ _ _ pass).mpr returns, ready⟩

end Waiting

section Reading

variable (priv : AtaPriv) (d : Device) (c : ReadCommand) (dest : Word) (m : Mem)

def afterWords (words polls : Nat) : Transfer :=
  ⟨dest + BitVec.ofNat 32 (2 * words), m.halves dest words d.supply, { d with supplied := words, polls := polls }⟩

variable (carried : d.command = some c) (small : c.count ≤ 65536)
include carried

theorem transferring_after (words polls : Nat) (left : words < 256 * c.count) :
    (afterWords d dest m words polls).device.transferring = true := by
  simp [afterWords, Device.transferring, carried, left]

include small

theorem read_word (words polls : Nat) (left : words < 256 * c.count) (elapsed : d.delay (words / 256) ≤ polls) :
    readWord d.bus (afterWords d dest m words polls) =
      afterWords d dest m (words + 1) (if (words + 1) % 256 = 0 then 0 else polls) := by
  have ready : (afterWords d dest m words polls).device.ready = true := by
    rw [Device.ready, transferring_after d c dest m carried words polls left, Bool.true_and]
    exact decide_eq_true elapsed
  have next : dest + BitVec.ofNat 32 (2 * words) + 2 = dest + BitVec.ofNat 32 (2 * (words + 1)) := by bv_omega
  have filled := m.halves_next dest words d.supply (by omega)
  have answer : inw (d.bus + DATA) (afterWords d dest m words polls).device =
      (d.supply words, (afterWords d dest m (words + 1) (if (words + 1) % 256 = 0 then 0 else polls)).device) :=
    if_pos ⟨rfl, ready⟩
  rw [readWord, answer]
  simp only [afterWords, next, filled]

theorem read_words (s polls i : Nat) (left : s < c.count) (elapsed : d.delay s ≤ polls) (inside : i ≤ 256) :
    (readWord d.bus)^[i] (afterWords d dest m (256 * s) polls) =
      afterWords d dest m (256 * s + i) (if i = 256 then 0 else polls) := by
  induction i with
  | zero => rfl
  | succ i ih =>
      have sector : (256 * s + i) / 256 = s := by omega
      have before : i ≠ 256 := by omega
      have last : (256 * s + (i + 1)) % 256 = 0 ↔ i + 1 = 256 := by omega
      rw [Function.iterate_succ_apply', ih (by omega), if_neg before,
        read_word d c dest m carried small (256 * s + i) polls (by omega) (by rwa [sector])]
      simp only [Nat.add_assoc, last]

-- By induction on the sectors left to read, from the one the device is at.
theorem read_sectors (bus : d.bus = priv.bus) (status : d.statusReg = priv.statusReg) (n s polls : Nat) (left : s + n ≤ c.count) :
    ∃ polls', (readSectors priv n (afterWords d dest m (256 * s) polls)).Returns (afterWords d dest m (256 * (s + n)) polls') := by
  induction n generalizing s polls with
  | zero => exact ⟨polls, (ends_pure _ _).mpr rfl⟩
  | succ n ih =>
      have busy := transferring_after d c dest m carried (256 * s) polls (by omega)
      have sector : 256 * s / 256 = s := by omega
      obtain ⟨waited, returns, elapsed⟩ := wait_returns _ busy (polls + 4)
      have elapsed : d.delay s ≤ waited := sector ▸ elapsed
      have words := read_words d c dest m carried small s waited 256 (by omega) elapsed (Nat.le_refl _)
      rw [if_pos rfl, show 256 * s + 256 = 256 * (s + 1) by omega, bus] at words
      obtain ⟨polls', rest⟩ := ih (s + 1) 0 (by omega)
      refine ⟨polls', ?_⟩
      rw [readSectors, returns_bind, ← status]
      refine ⟨(afterWords d dest m (256 * s) waited).device, ?_, ?_⟩
      · exact (pause_polls (afterWords d dest m (256 * s) polls).device).symm ▸ returns
      · change (readSectors priv n ((readWord priv.bus)^[256] (afterWords d dest m (256 * s) waited))).Returns _
        rw [words, show s + (n + 1) = s + 1 + n by omega]
        exact rest

end Reading

-- What a read is for: the device has carried out the command asked for to its
-- end, and its words are at dest one after another, with all other memory as before.
structure Transferred (priv : AtaPriv) (start num : Lba) (dest : Word) (m : Mem) (d : Device) (m' : Mem) (d' : Device) : Prop where
  command : d'.command = some ⟨priv.drive.setWidth 8, start.toNat, num.toNat⟩
  supplied : d'.supplied = 256 * num.toNat
  words : ∀ k < 256 * num.toNat, m'.readHalf (dest + BitVec.ofNat 32 (2 * k)) = d.supply k
  outside : ∀ x : Word, 512 * num.toNat ≤ (x - dest).toNat → m' x = m x

section Read

variable (drive : Drive) (priv : AtaPriv) (start num : Lba) (dest : Word) (m : Mem) (d : Device)

theorem read_refused (beyond : num.high ≠ 0 ∨ num.low > 65536) :
    (ataLba48Read drive priv start num dest m d).Returns (1, m, d) := by
  rw [ataLba48Read, if_pos beyond]
  exact (ends_pure _ _).mpr rfl

variable (block : drive.blockSize = 512) (small : start.high.toNat < 2 ^ 16)
variable (bus : d.bus = priv.bus) (status : d.statusReg = priv.statusReg)
include block small bus

theorem read_accepted (high : num.high = 0) (low : num.low.toNat ≤ 65536) (sectors : Word) (t : Transfer)
    (encoded : (if num.low = 65536 then 0 else num.low) = sectors)
    (read : (readSectors priv sectors.toNat ⟨dest, m, sent priv start sectors d⟩).Returns t) :
    (ataLba48Read drive priv start num dest m d).Returns (0, t.mem, t.device) := by
  have allowed : ¬ (num.high ≠ 0 ∨ num.low > 65536) := by
    rintro (some_ | beyond)
    · exact some_ high
    · exact absurd low (Nat.not_le.mpr (BitVec.lt_def.mp beyond))
  have single : drive.blockSize / 512 * num.low = num.low := by
    rw [block]
    exact BitVec.one_mul num.low
  rw [ataLba48Read, if_neg allowed, single]
  simp only [encoded, send_read priv start sectors d small bus]
  exact (ends_bind_of_returns _ _ _ _ read).mpr ((ends_pure _ _).mpr rfl)

-- At both ends of the range sectors is 0: the command is one for 65536 sectors, and none is read.
theorem read_ends (ends : num = ⟨0, 0⟩ ∨ num = ⟨0, 65536⟩) :
    (ataLba48Read drive priv start num dest m d).Returns (0, m, sent priv start 0 d) := by
  have none : (readSectors priv (0 : Word).toNat ⟨dest, m, sent priv start 0 d⟩).Returns ⟨dest, m, sent priv start 0 d⟩ :=
    (ends_pure _ _).mpr rfl
  obtain rfl | rfl := ends
  · exact read_accepted drive priv start _ dest m d block small bus rfl (by decide) 0 _ rfl none
  · exact read_accepted drive priv start _ dest m d block small bus rfl (by decide) 0 _ rfl none

omit block small bus in
theorem ends_not_transferred (ends : num = ⟨0, 0⟩ ∨ num = ⟨0, 65536⟩) :
    ¬ Transferred priv start num dest m d m (sent priv start 0 d) := by
  intro transferred
  obtain rfl | rfl := ends
  · have counts : 65536 = (⟨0, 0⟩ : Lba).toNat := congrArg ReadCommand.count (Option.some.inj transferred.command)
    simp [Lba.toNat] at counts
  · have supplied : 0 = 256 * (⟨0, 65536⟩ : Lba).toNat := transferred.supplied
    simp [Lba.toNat] at supplied

include status

theorem read_between (high : num.high = 0) (some_ : 0 < num.low.toNat) (fewer : num.low.toNat < 65536) :
    ∃ m' d', (ataLba48Read drive priv start num dest m d).Returns (0, m', d') ∧ Transferred priv start num dest m d m' d' := by
  have total := num.to_nat_of_low high
  have encoded : (if num.low = 65536 then 0 else num.low) = num.low :=
    if_neg (fun same => absurd (same ▸ fewer) (by decide))
  have count : countOf num.low = num.low.toNat := by
    rw [countOf, Nat.mod_eq_of_lt fewer, if_neg (Nat.ne_of_gt some_)]
  have begun : (⟨dest, m, sent priv start num.low d⟩ : Transfer) = afterWords (sent priv start num.low d) dest m (256 * 0) 0 := by
    simp [afterWords, Mem.halves_none, sent]
  obtain ⟨polls, returns⟩ := read_sectors priv (sent priv start num.low d) _ dest m rfl
    (show countOf num.low ≤ 65536 by omega) bus status num.low.toNat 0 0 (show 0 + num.low.toNat ≤ countOf num.low by omega)
  rw [← begun, Nat.zero_add] at returns
  refine ⟨_, _, read_accepted drive priv start num dest m d block small bus high (Nat.le_of_lt fewer) _ _ encoded returns, ?_⟩
  exact
    { command := by rw [total, ← count]; rfl
      supplied := by rw [total]; rfl
      words := fun k inside => m.halves_read dest _ d.supply k (total ▸ inside) (by omega)
      outside := fun x far => m.halves_outside dest x _ d.supply (by omega) }

end Read

theorem count_ends (num : Lba) (high : num.high = 0) :
    (num = ⟨0, 0⟩ ∨ num = ⟨0, 65536⟩) ↔ num.toNat = 0 ∨ num.toNat = 65536 := by
  obtain ⟨_, low⟩ := num
  obtain rfl : _ = 0 := high
  have total : (⟨0, low⟩ : Lba).toNat = low.toNat := Lba.to_nat_of_low _ rfl
  have zero : low = 0 ↔ low.toNat = 0 := BitVec.toNat_eq
  have largest : low = 65536 ↔ low.toNat = 65536 := BitVec.toNat_eq
  simp only [total, Lba.mk.injEq, true_and, zero, largest]

theorem count_over (num : Lba) : (num.high ≠ 0 ∨ num.low > 65536) ↔ 65536 < num.toNat := by
  have zero : num.high = 0 ↔ num.high.toNat = 0 := BitVec.toNat_eq
  have above : num.low > 65536 ↔ 65536 < num.low.toNat := BitVec.lt_def
  rw [Ne, zero, above, Lba.toNat]
  omega

-- ata_lba48_read turns a count of 65536 sectors into the 0 the register wants,
-- and then reads that many sectors.
theorem lba48_read_iff (drive : Drive) (priv : AtaPriv) (start num : Lba) (dest : Word) (m : Mem) (d : Device)
    (block : drive.blockSize = 512) (small : start.high.toNat < 2 ^ 16) (bus : d.bus = priv.bus)
    (status : d.statusReg = priv.statusReg) :
    ∃ ret m' d', (ataLba48Read drive priv start num dest m d).Returns (ret, m', d') ∧ (ret = 0 ↔ num.toNat ≤ 65536) ∧
      ((ret = 0 → Transferred priv start num dest m d m' d') ↔ num.toNat ≠ 0 ∧ num.toNat ≠ 65536) := by
  have nonzero : ¬ (1 : Word) = 0 := by decide
  by_cases beyond : num.high ≠ 0 ∨ num.low > 65536
  · have large := (count_over num).mp beyond
    refine ⟨1, m, d, read_refused drive priv start num dest m d beyond, ?_, ?_⟩
    · exact ⟨fun zero => absurd zero nonzero, fun fits => absurd fits (Nat.not_le.mpr large)⟩
    · exact ⟨fun _ => by omega, fun _ zero => absurd zero nonzero⟩
  · have fits := Nat.not_lt.mp (mt (count_over num).mpr beyond)
    have high : num.high = 0 := not_not.mp (not_or.mp beyond).1
    have total := num.to_nat_of_low high
    have accepted : (0 : Word) = 0 ↔ num.toNat ≤ 65536 := iff_of_true rfl fits
    by_cases ends : num.toNat = 0 ∨ num.toNat = 65536
    · have atEnds := (count_ends num high).mpr ends
      refine ⟨0, m, sent priv start 0 d, read_ends drive priv start num dest m d block small bus atEnds, accepted, ?_⟩
      have missed := ends_not_transferred priv start num dest m d atEnds
      exact iff_of_false (fun all => missed (all rfl)) (by omega)
    · obtain ⟨m', d', returns, transferred⟩ :=
        read_between drive priv start num dest m d block small bus status high (by omega) (by omega)
      exact ⟨0, m', d', returns, accepted, iff_of_true (fun _ => transferred) (by omega)⟩

def idleDevice : Device where
  bus := BUS0
  statusReg := BUS0_STATUS
  delay := fun _ => 2
  supply := fun k => BitVec.ofNat 16 k
  select := 0
  count := ⟨0, 0⟩
  lbaLow := ⟨0, 0⟩
  lbaMid := ⟨0, 0⟩
  lbaHigh := ⟨0, 0⟩
  command := none
  supplied := 0
  polls := 0

def idleDrive : Drive := ⟨0, 512, 0, 0x100000, 0, .lba48, 0⟩

def idlePriv : AtaPriv := ⟨.lba48, BUS0, MASTERLBA48, BUS0_STATUS⟩

theorem lba48_read_one : ∃ ret m' d',
    (ataLba48Read idleDrive idlePriv ⟨0x1, 0x23456789⟩ ⟨0, 1⟩ 0x200000 (fun _ => 0) idleDevice).Returns (ret, m', d') ∧
    (ret = 0 ↔ (⟨0, 1⟩ : Lba).toNat ≤ 65536) ∧
    ((ret = 0 → Transferred idlePriv ⟨0x1, 0x23456789⟩ ⟨0, 1⟩ 0x200000 (fun _ => 0) idleDevice m' d') ↔
      (⟨0, 1⟩ : Lba).toNat ≠ 0 ∧ (⟨0, 1⟩ : Lba).toNat ≠ 65536) :=
  lba48_read_iff idleDrive idlePriv ⟨0x1, 0x23456789⟩ ⟨0, 1⟩ 0x200000 (fun _ => 0) idleDevice rfl (by decide) rfl rfl

theorem read_misses_largest : ¬ ∀ (drive : Drive) (priv : AtaPriv) (start num : Lba) (dest : Word) (m m' : Mem) (d d' : Device),
    drive.blockSize = 512 → start.high.toNat < 2 ^ 16 → d.bus = priv.bus → d.statusReg = priv.statusReg →
    (ataLba48Read drive priv start num dest m d).Returns (0, m', d') → Transferred priv start num dest m d m' d' := by
  intro all
  have returns := read_ends idleDrive idlePriv ⟨0, 0⟩ ⟨0, 65536⟩ 0x200000 (fun _ => 0) idleDevice rfl (by decide) rfl (.inr rfl)
  have transferred := all _ _ _ _ _ _ _ _ _ rfl (by decide) rfl rfl returns
  exact ends_not_transferred idlePriv ⟨0, 0⟩ ⟨0, 65536⟩ 0x200000 (fun _ => 0) idleDevice (.inr rfl) transferred

end Deimos.Ata
