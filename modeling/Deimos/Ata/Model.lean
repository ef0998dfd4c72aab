import Deimos.Error
import Deimos.Lib.Chain
import Deimos.Lib.Run

set_option autoImplicit false

namespace Deimos.Ata

open Comp

abbrev Port := BitVec 16

def BUS0 : Port := 0x01F0
def BUS1 : Port := 0x0170

def BUS0_STATUS : Port := 0x03F6
def BUS1_STATUS : Port := 0x0376

def ERR : BitVec 8 := 0x01

def I_SERIAL : Nat := 10
def I_LBA48SECTORS : Nat := 100

def MASTERCHS : Port := 0xA0
def SLAVECHS : Port := 0xB0
def MASTERLBA48 : Port := 0x40
def SLAVELBA48 : Port := 0x50

inductive Mode where
  | chs | lba48
deriving DecidableEq, Repr

structure AtaPriv where
  mode : Mode
  bus : Port
  drive : Port
  statusReg : Port
deriving DecidableEq, Repr

-- readcallback is ata_lba48_read or ata_chs_read; next is kept with the list.
structure Drive where
  priv : Word
  blockSize : Word
  blocksHigh : Word
  blocksLow : Word
  driveId : Word
  readcallback : Mode
  childVolumes : Word
deriving DecidableEq, Repr

-- The high words of offset_lba and num_blocks are always 0; next is kept with the lists.
structure Volume where
  mounted : Bool
  blockSize : Word
  offsetLba : Word
  numBlocks : Word
  volumeId : Word
  parentDrive : Word
deriving DecidableEq, Repr

-- What goes wrong: a pointer to no live block is used, or, against its
-- contract, the allocator hands out a block that is live.
inductive Misuse where
  | dangling (p : Word)
  | taken (p : Word)
deriving DecidableEq, Repr

structure State where
  heap : Ledger Word
  driveList : Linked Word
  driveData : Word → Drive
  privs : Word → AtaPriv
  volumes : Word → Volume
  volumeNext : Word → Word
  nextDriveId : Word
  drives : Nat → Word
  started : Bool

def check (s : State) (p : Word) : Except Misuse Unit := if p ∈ s.heap.live then .ok () else .error (.dangling p)

def kmalloc (answer : Word) (s : State) : Except Misuse (Word × State) :=
  if answer ∈ s.heap.live then .error (.taken answer) else .ok (answer, { s with heap := s.heap.take 0 answer })

def kfree (p : Word) (s : State) : Except Misuse State :=
  if p = 0 then .ok s
  else do
    check s p
    .ok { s with heap := s.heap.free p }

def State.setDrive (d : Word) (f : Drive → Drive) (s : State) : State :=
  { s with driveData := Function.update s.driveData d (f (s.driveData d)) }

def State.children (s : State) (d : Word) : Linked Word := ⟨(s.driveData d).childVolumes, s.volumeNext⟩

-- Everything from outside that one drive's part of ata_module_init depends on:
-- what the drive's ports say, its first sector, and what kmalloc returns.
structure Probe where
  status : BitVec 8
  ready : BitVec 8
  lbaMid : BitVec 8
  lbaHigh : BitVec 8
  info : Nat → BitVec 16
  sector : Nat → BitVec 8
  infoBlock : Word
  driveBlock : Word
  privBlock : Word
  volumeBlocks : Nat → Word

def dword (low high : BitVec 16) : Word := (high.setWidth 32 <<< 16) ||| low.setWidth 32

def identify (bus drive statusReg : Port) (probe : Probe) (s : State) : Except Misuse (Word × State) := do
  if probe.status = 0 then pure (0, s)
  else if probe.ready &&& ERR ≠ 0 ∨ probe.lbaMid ≠ 0 ∨ probe.lbaHigh ≠ 0 then pure (0, s)
  else
    let (info, s) ← kmalloc probe.infoBlock s
    if info = 0 then pure (0, s)
    else
      check s info
      if probe.info I_SERIAL = 0 then
        let s ← kfree info s
        pure (0, s)
      else
        let (d, s) ← kmalloc probe.driveBlock s
        let (p, s) ← kmalloc probe.privBlock s
        if d = 0 ∨ p = 0 then
          let s ← kfree d s
          let s ← kfree p s
          let s ← kfree info s
          pure (0, s)
        else
          check s p
          check s d
          let lba48 := probe.info 83 &&& 0x0400 ≠ 0
          let select := if drive &&& 0x10 ≠ 0 then SLAVELBA48 else MASTERLBA48
          let priv := if lba48 then ⟨.lba48, bus, select, statusReg⟩ else { s.privs p with mode := .chs }
          let s : State := { s with privs := Function.update s.privs p priv }
          let s := s.setDrive d (fun data =>
            { data with
              blocksHigh := if lba48 then dword (probe.info (I_LBA48SECTORS + 2)) (probe.info (I_LBA48SECTORS + 3)) else 0
              blocksLow := if lba48 then dword (probe.info I_LBA48SECTORS) (probe.info (I_LBA48SECTORS + 1)) else 0
              readcallback := if lba48 then .lba48 else .chs
              blockSize := 512
              childVolumes := 0
              priv := p })
          let s : State := { s with driveList := { s.driveList with next := Function.update s.driveList.next d 0 } }
          let s ← kfree info s
          pure (d, s)

-- The fields of the boot sector, an mbr_t.
def signature (sector : Nat → BitVec 8) : BitVec 16 := (sector 511) ++ (sector 510)

def systemId (sector : Nat → BitVec 8) (i : Nat) : BitVec 8 := sector (446 + 16 * i + 4)

def relativeSector (sector : Nat → BitVec 8) (i : Nat) : Word :=
  let at_ := 446 + 16 * i + 8
  sector (at_ + 3) ++ sector (at_ + 2) ++ sector (at_ + 1) ++ sector at_

def totalSectors (sector : Nat → BitVec 8) (i : Nat) : Word :=
  let at_ := 446 + 16 * i + 12
  sector (at_ + 3) ++ sector (at_ + 2) ++ sector (at_ + 1) ++ sector at_

-- The loop of parse_mbr over the partition table.
def addVolumes (d : Word) (probe : Probe) : List Nat → State → Comp Misuse (Word × State)
  | [], s => pure (0, s)
  | i :: rest, s =>
      if systemId probe.sector i = 0 then addVolumes d probe rest s
      else do
        let (v, s) ← kmalloc (probe.volumeBlocks i) s
        if v = 0 then pure (1, s)
        else do
          check s v
          check s d
          let volume : Volume :=
            { mounted := false, blockSize := (s.driveData d).blockSize, offsetLba := relativeSector probe.sector i,
              numBlocks := totalSectors probe.sector i, volumeId := BitVec.ofNat 32 i, parentDrive := d }
          let s : State := { s with volumes := Function.update s.volumes v volume }
          let l ← (s.children d).append 0 (check s) v
          let s := { s.setDrive d ({ · with childVolumes := l.head }) with volumeNext := l.next }
          addVolumes d probe rest s

def parseMbr (d : Word) (probe : Probe) (s : State) : Comp Misuse (Word × State) := do
  check s d
  match (s.driveData d).readcallback with
  | .chs => pure (1, s)
  | .lba48 =>
      check s (s.driveData d).priv
      if signature probe.sector ≠ 0xAA55 then pure (1, s)
      else
        let s := { s.setDrive d ({ · with driveId := s.nextDriveId }) with nextDriveId := s.nextDriveId + 1 }
        addVolumes d probe (List.range 4) s

-- while(v) { t = v->next; kfree(v); v = t; }, which remove_drive leaves at a mounted volume.
def freeVolumesBody (stop : Volume → Bool) (state : Word × State) : Except Misuse (Iter (Word × State) (Bool × State)) :=
  let (v, s) := state
  if v = 0 then .ok (.done (false, s))
  else do
    check s v
    if stop (s.volumes v) then .ok (.done (true, s))
    else do
      let s' ← kfree v s
      .ok (.next (s.volumeNext v, s'))

def registerDrive (d : Word) (probe : Probe) (s : State) : Comp Misuse (Word × State) := do
  let (failed, s) ← parseMbr d probe s
  if failed ≠ 0 then do
    check s d
    let (_, s) ← loop (freeVolumesBody (fun _ => false)) ((s.driveData d).childVolumes, s)
    pure (1, s)
  else do
    let l ← s.driveList.append 0 (check s) d
    pure (0, { s with driveList := l })

def removeDrive (d : Word) (s : State) : Comp Misuse (Word × State) := do
  check s d
  let (mounted, s) ← loop (freeVolumesBody Volume.mounted) ((s.driveData d).childVolumes, s)
  if mounted then pure (1, s)
  else if s.driveList.head = 0 then pure (1, s)
  else do
    match ← s.driveList.remove 0 (check s) d with
    | some l => pure (0, { s with driveList := l })
    | none => pure (1, s)

-- The loop of ata_module_init that registers the drives; good says that one has been registered.
def registerAll (probes : Nat → Probe) : List Nat → Bool → State → Comp Misuse (Bool × State)
  | [], good, s => pure (good, s)
  | i :: rest, good, s =>
      if s.drives i = 0 then registerAll probes rest good s
      else do
        let (failed, s) ← registerDrive (s.drives i) (probes i) s
        if failed ≠ 0 then do
          let s ← kfree (s.drives i) s
          registerAll probes rest good s
        else registerAll probes rest true s

def setHandle (i : Nat) (d : Word) (s : State) : State := { s with drives := Function.update s.drives i d }

def ataModuleInit (probes : Nat → Probe) (s : State) : Comp Misuse (Word × State) :=
  if s.started then pure (1, s)
  else do
    let (d, s) ← identify BUS0 MASTERCHS BUS0_STATUS (probes 0) s
    let s := setHandle 0 d s
    let (d, s) ← identify BUS0 SLAVECHS BUS0_STATUS (probes 1) s
    let s := setHandle 1 d s
    let (d, s) ← identify BUS1 MASTERCHS BUS1_STATUS (probes 2) s
    let s := setHandle 2 d s
    let (d, s) ← identify BUS1 SLAVECHS BUS1_STATUS (probes 3) s
    let s := setHandle 3 d s
    let s := setHandle 7 0 (setHandle 6 0 (setHandle 5 0 (setHandle 4 0 s)))
    let (good, s) ← registerAll probes (List.range 8) false s
    if good then pure (0, { s with started := true }) else pure (1, s)

def removeAll : List Nat → Bool → State → Comp Misuse (Bool × State)
  | [], fail, s => pure (fail, s)
  | i :: rest, fail, s =>
      if s.drives i = 0 then removeAll rest fail s
      else do
        let (failed, s) ← removeDrive (s.drives i) s
        if failed ≠ 0 then removeAll rest true s
        else do
          check s (s.drives i)
          let s ← kfree (s.driveData (s.drives i)).priv s
          let s ← kfree (s.drives i) s
          removeAll rest fail (setHandle i 0 s)

def ataModuleKill (s : State) : Comp Misuse (Word × State) :=
  if !s.started then pure (1, s)
  else do
    let (fail, s) ← removeAll (List.range 8) false s
    if fail then pure (1, s) else pure (0, { s with started := false })

inductive Op where
  | init (probes : Nat → Probe)
  | kill

def exec : Op → State → Comp Misuse (Word × State)
  | .init probes, s => ataModuleInit probes s
  | .kill, s => ataModuleKill s

end Deimos.Ata
