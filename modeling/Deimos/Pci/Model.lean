import Deimos.Error
import Deimos.Lib.Chain

set_option autoImplicit false

namespace Deimos.Pci

open Comp

abbrev Half := BitVec 16

def CFG_W_VENDORID : Byte := 0x00
def CFG_W_DEVICEID : Byte := 0x02
def CFG_B_SUBCLASSID : Byte := 0x0A
def CFG_B_CLASSID : Byte := 0x0B
def CFG_B_HEADERTYPE : Byte := 0x0E
def CFG0_B_INTLINE : Byte := 0x3C

-- pci_dev_t; next is kept with the list.
structure PciDev where
  bus : Byte
  dev : Byte
  func : Byte
  vendorid : Half
  deviceid : Half
  pciClass : Byte
  subclass : Byte
  headertype : Byte
  intline : Byte
deriving DecidableEq, Repr

-- A function of a device on a bus, as the hardware tells them apart.
structure Bdf where
  bus : Byte
  dev : BitVec 5
  func : BitVec 3
deriving DecidableEq, Repr

abbrev Config := Bdf → BitVec 6 → Word

-- The device side: the address last written to CFG_ADDRESS, and the 64
-- registers of every function. An absent one reads all ones.
structure Host where
  address : Word
  config : Config

def Host.function (h : Host) : Bdf := ⟨(h.address >>> 16).setWidth 8, (h.address >>> 11).setWidth 5, (h.address >>> 8).setWidth 3⟩

def Host.register (h : Host) : BitVec 6 := (h.address >>> 2).setWidth 6

-- The top bit of the address enables the access.
def Host.enabled (h : Host) : Bool := h.address.getLsbD 31

def outlAddress (value : Word) (h : Host) : Host := { h with address := value }

def inlData (h : Host) : Word := if h.enabled then h.config h.function h.register else 0xFFFFFFFF

def outlData (value : Word) (h : Host) : Host :=
  if h.enabled then
    { h with config := Function.update h.config h.function (Function.update (h.config h.function) h.register value) }
  else h

def calcPciAddr (pdev : PciDev) (offset : Byte) : Word :=
  0x80000000 ||| ((pdev.bus.setWidth 32 <<< 16) &&& 0x00FF0000) ||| ((pdev.dev.setWidth 32 <<< 11) &&& 0x0000F800) |||
    ((pdev.func.setWidth 32 <<< 8) &&& 0x00000700) ||| (offset.setWidth 32 &&& 0x000000FC)

def pciReadl (pdev : PciDev) (offset : Byte) (h : Host) : Word × Host :=
  let h := outlAddress (calcPciAddr pdev offset) h
  (inlData h, h)

def pciReadw (pdev : PciDev) (offset : Byte) (h : Host) : Half × Host :=
  let (value, h) := pciReadl pdev offset h
  (((value >>> ((offset &&& 2).toNat * 8)) &&& 0xFFFF).setWidth 16, h)

def pciReadb (pdev : PciDev) (offset : Byte) (h : Host) : Byte × Host :=
  let (value, h) := pciReadl pdev offset h
  (((value >>> ((offset &&& 3).toNat * 8)) &&& 0xFF).setWidth 8, h)

def pciWritel (pdev : PciDev) (offset : Byte) (value : Word) (h : Host) : Host :=
  let h := outlAddress (calcPciAddr pdev offset) h
  outlData value h

def pciWritew (pdev : PciDev) (offset : Byte) (value : Half) (h : Host) : Host :=
  let (t, h) := pciReadl pdev offset h
  let mask := ~~~((0xFFFF : Word) <<< ((offset &&& 2).toNat * 8))
  let s := value.setWidth 32 <<< ((offset &&& 2).toNat * 8)
  let t := (t &&& mask) ||| s
  pciWritel pdev offset t h

def pciWriteb (pdev : PciDev) (offset : Byte) (value : Byte) (h : Host) : Host :=
  let (t, h) := pciReadl pdev offset h
  let mask := ~~~((0xFF : Word) <<< ((offset &&& 3).toNat * 8))
  let s := value.setWidth 32 <<< ((offset &&& 3).toNat * 8)
  let t := (t &&& mask) ||| s
  pciWritel pdev offset t h

structure State where
  host : Host
  devs : Word → PciDev
  pciDevList : Linked Word

def blank : PciDev := ⟨0, 0, 0, 0, 0, 0, 0, 0, 0⟩

-- answer is what kmalloc returns. A null next pointer is 0.
def addPciDev (bus dev func : Byte) (answer : Word) (s : State) : Comp Stop State :=
  let p := answer
  if p = 0 then pure s
  else do
    let e := { blank with bus := bus, dev := dev, func := func }
    let (vendorid, h) := pciReadw e CFG_W_VENDORID s.host
    let e := { e with vendorid := vendorid }
    let (deviceid, h) := pciReadw e CFG_W_DEVICEID h
    let e := { e with deviceid := deviceid }
    let (pciClass, h) := pciReadb e CFG_B_CLASSID h
    let e := { e with pciClass := pciClass }
    let (subclass, h) := pciReadb e CFG_B_SUBCLASSID h
    let e := { e with subclass := subclass }
    let (headertype, h) := pciReadb e CFG_B_HEADERTYPE h
    let e := { e with headertype := headertype }
    let (intline, h) := if e.headertype = 0 then pciReadb e CFG0_B_INTLINE h else (0, h)
    let e := { e with intline := intline }
    let l ← s.pciDevList.append 0 (fun _ => .ok ()) p
    pure { host := h, devs := Function.update s.devs p e, pciDevList := l }

-- What kmalloc returns for the entry of each function.
abbrev Alloc := Byte → Byte → Byte → Word

-- One pass of the loop over the other functions of a device.
def scanFunc (alloc : Alloc) (bus dev : Nat) (s : State) (func : Nat) : Comp Stop State :=
  let dummy : PciDev := { blank with bus := BitVec.ofNat 8 bus, dev := BitVec.ofNat 8 dev, func := BitVec.ofNat 8 func }
  let (vendorid, h) := pciReadw dummy CFG_W_VENDORID s.host
  let s := { s with host := h }
  if vendorid = 0xFFFF then pure s
  else addPciDev dummy.bus dummy.dev dummy.func (alloc dummy.bus dummy.dev dummy.func) s

-- One pass of the loop over the devices of a bus.
def scanDev (alloc : Alloc) (bus : Nat) (s : State) (dev : Nat) : Comp Stop State := do
  let dummy : PciDev := { blank with bus := BitVec.ofNat 8 bus, dev := BitVec.ofNat 8 dev, func := 0 }
  let (vendorid, h) := pciReadw dummy CFG_W_VENDORID s.host
  let s := { s with host := h }
  if vendorid = 0xFFFF then pure s
  else do
    let s ← addPciDev dummy.bus dummy.dev dummy.func (alloc dummy.bus dummy.dev dummy.func) s
    let (headertype, h) := pciReadb dummy CFG_B_HEADERTYPE s.host
    let s := { s with host := h }
    if headertype &&& 0x80 ≠ 0 then (List.range' 1 7).foldlM (scanFunc alloc bus dev) s else pure s

def scanBus (alloc : Alloc) (s : State) (bus : Nat) : Comp Stop State := (List.range 32).foldlM (scanDev alloc bus) s

def pciInit (alloc : Alloc) (s : State) : Comp Stop State := (List.range 256).foldlM (scanBus alloc) s

def searchBody (vendorid deviceid : Half) (s : State) (p : Word) : Except Stop (Iter Word Word) :=
  if p = 0 then .ok (.done 0)
  else if (s.devs p).vendorid = vendorid ∧ (s.devs p).deviceid = deviceid then .ok (.done p)
  else .ok (.next (s.pciDevList.next p))

def pciSearch (vendorid deviceid : Half) (s : State) : Comp Stop Word := loop (searchBody vendorid deviceid s) s.pciDevList.head

end Deimos.Pci
