import Deimos.Ata.Model

set_option autoImplicit false

namespace Deimos.Disk

open Comp Ata

-- For any driver's drive: fails says what its readcallback returns. Of the
-- probe, the first sector and the answers of kmalloc are used.
def parseMbr (d : Word) (fails : Bool) (probe : Probe) (s : State) : Comp Misuse (Word × State) := do
  check s d
  if fails then pure (1, s)
  else if signature probe.sector ≠ 0xAA55 then pure (1, s)
  else
    let s := { s.setDrive d ({ · with driveId := s.nextDriveId }) with nextDriveId := s.nextDriveId + 1 }
    addVolumes d probe (List.range 4) s

def registerDrive (d : Word) (fails : Bool) (probe : Probe) (s : State) : Comp Misuse (Word × State) := do
  let (failed, s) ← parseMbr d fails probe s
  if failed ≠ 0 then do
    check s d
    let (_, s) ← loop (freeVolumesBody (fun _ => false)) ((s.driveData d).childVolumes, s)
    pure (1, s)
  else do
    let l ← s.driveList.append 0 (check s) d
    pure (0, { s with driveList := l })

-- The driver of the disks fails for a drive without LBA48, and needs its private data otherwise.
theorem register_drive_ata (d : Word) (probe : Probe) (s : State) (fails : Bool)
    (callback : (s.driveData d).readcallback = if fails then .chs else .lba48) (priv : fails = false → (s.driveData d).priv ∈ s.heap.live) :
    Ata.registerDrive d probe s = registerDrive d fails probe s := by
  have parse : Ata.parseMbr d probe s = parseMbr d fails probe s := by
    unfold Ata.parseMbr parseMbr
    rw [callback]
    cases fails with
    | true => rfl
    | false =>
        have live : check s (s.driveData d).priv = .ok () := if_pos (priv rfl)
        rw [if_neg (by decide), live]
        rfl
  unfold Ata.registerDrive registerDrive
  rw [parse]

end Deimos.Disk
