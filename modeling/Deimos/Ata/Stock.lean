import Deimos.Ata.Model
import Deimos.Lib.Rules

set_option autoImplicit false

namespace Deimos.Ata

open Comp LinkedQueue

def Broken (e : Misuse) : Prop := ∃ p, e = .taken p

-- The live blocks are those of others and, each once, the given ones.
structure Owns (live₀ blocks : List Word) (s : State) : Prop where
  live : ∀ p, p ∈ s.heap.live ↔ p ∈ live₀ ∨ p ∈ blocks
  nodup : blocks.Nodup
  apart : ∀ p ∈ blocks, p ∉ live₀
  null : 0 ∉ s.heap.live

-- A drive of the module, with its private data and its volumes.
structure Owned where
  drive : Word
  priv : Word
  vols : List Word

def Owned.blocks (o : Owned) : List Word := o.drive :: o.priv :: o.vols

structure Keeps (s : State) (o : Owned) : Prop where
  priv : (s.driveData o.drive).priv = o.priv
  vols : Linked.Spells 0 (s.children o.drive) o.vols
  unmounted : ∀ v ∈ o.vols, (s.volumes v).mounted = false

-- The blocks of the module are those of its drives and some loose ones, and
-- the drive list holds drives of others and of the module.
structure Stock (live₀ list : List Word) (s : State) (loose : List Word) (owned : List Owned) : Prop where
  owns : Owns live₀ (loose ++ owned.flatMap Owned.blocks) s
  listed : Linked.Spells 0 s.driveList list
  linked : ∀ d ∈ list, d ∈ live₀ ∨ ∃ o ∈ owned, o.drive = d
  keeps : ∀ o ∈ owned, Keeps s o

section Blocks

variable {live₀ blocks blocks' : List Word} {s s' : State}

theorem Owns.perm (owns : Owns live₀ blocks s) (perm : blocks.Perm blocks') : Owns live₀ blocks' s := by
  refine ⟨fun p => ?_, perm.nodup_iff.mp owns.nodup, fun p member => owns.apart p (perm.mem_iff.mpr member), owns.null⟩
  rw [owns.live, perm.mem_iff]

theorem Owns.congr (owns : Owns live₀ blocks s) (heap : s'.heap = s.heap) : Owns live₀ blocks s' :=
  ⟨fun p => by rw [heap]; exact owns.live p, owns.nodup, owns.apart, by rw [heap]; exact owns.null⟩

theorem Owns.mine (owns : Owns live₀ blocks s) (p : Word) (member : p ∈ blocks) : p ∈ s.heap.live := (owns.live p).mpr (.inr member)

theorem Owns.nonnull (owns : Owns live₀ blocks s) (p : Word) (member : p ∈ blocks) : p ≠ 0 :=
  fun null => owns.null (null ▸ owns.mine p member)

theorem check_live (p : Word) (live : p ∈ s.heap.live) : check s p = .ok () := if_pos live

theorem Owns.take (owns : Owns live₀ blocks s) (p : Word) (served : p ≠ 0) (fresh : p ∉ s.heap.live) :
    Owns live₀ (p :: blocks) { s with heap := s.heap.take 0 p } := by
  have member (q : Word) : q ∈ (s.heap.take 0 p).live ↔ q = p ∨ q ∈ s.heap.live := by
    rw [Ledger.take_live served, List.mem_cons]
  have outside : p ∉ live₀ ∧ p ∉ blocks := not_or.mp (mt (owns.live p).mpr fresh)
  refine ⟨fun q => ?_, List.nodup_cons.mpr ⟨outside.2, owns.nodup⟩, fun q mine => ?_, ?_⟩
  · rw [member, owns.live, List.mem_cons]
    exact or_left_comm
  · rcases List.mem_cons.mp mine with rfl | old
    · exact outside.1
    · exact owns.apart q old
  · rw [member, not_or]
    exact ⟨fun null => served null.symm, owns.null⟩

theorem Owns.free (p : Word) (owns : Owns live₀ (p :: blocks) s) : Owns live₀ blocks { s with heap := s.heap.free p } := by
  obtain ⟨absent, nodup⟩ := List.nodup_cons.mp owns.nodup
  have foreign := owns.apart p List.mem_cons_self
  refine ⟨fun q => ?_, nodup, fun q mine => owns.apart q (List.mem_cons_of_mem p mine), fun mine => owns.null (Ledger.mem_free.mp mine).1⟩
  change q ∈ (s.heap.free p).live ↔ _
  rw [Ledger.mem_free, owns.live, List.mem_cons]
  constructor
  · rintro ⟨other | here | mine, different⟩
    · exact .inl other
    · exact absurd here different
    · exact .inr mine
  · rintro (other | mine)
    · exact ⟨.inl other, fun same => foreign (same ▸ other)⟩
    · exact ⟨.inr (.inr mine), fun same => absent (same ▸ mine)⟩

theorem Owns.free_all (vols : List Word) (owns : Owns live₀ (vols ++ blocks) s) :
    Owns live₀ blocks { s with heap := s.heap.freeAll vols } := by
  induction vols generalizing s with
  | nil => exact owns
  | cons v vols ih => exact ih owns.free

-- A block that nobody keeps a pointer to counts with those of others.
theorem Owns.leak (p : Word) (owns : Owns live₀ (p :: blocks) s) : Owns (p :: live₀) blocks s := by
  obtain ⟨absent, nodup⟩ := List.nodup_cons.mp owns.nodup
  refine ⟨fun q => ?_, nodup, fun q mine foreign => ?_, owns.null⟩
  · rw [owns.live, List.mem_cons, List.mem_cons]
    exact or_left_comm.trans or_assoc.symm
  · rcases List.mem_cons.mp foreign with rfl | other
    · exact absent mine
    · exact owns.apart q (List.mem_cons_of_mem p mine) other

theorem kfree_mine (owns : Owns live₀ blocks s) (p : Word) (member : p ∈ blocks) :
    kfree p s = .ok { s with heap := s.heap.free p } := by
  rw [kfree, if_neg (owns.nonnull p member), check_live p (owns.mine p member)]
  rfl

theorem kmalloc_fine (owns : Owns live₀ blocks s) (answer : Word) :
    Fine Broken (fun r => r.1 = answer ∧ (answer = 0 ∧ r.2 = s ∨ answer ≠ 0 ∧ answer ∉ s.heap.live ∧
      r.2 = { s with heap := s.heap.take 0 answer } ∧ Owns live₀ (answer :: blocks) r.2)) (kmalloc answer s) := by
  unfold kmalloc
  by_cases taken : answer ∈ s.heap.live
  · rw [if_pos taken]
    exact ⟨answer, rfl⟩
  · rw [if_neg taken]
    refine ⟨rfl, ?_⟩
    by_cases failed : answer = 0
    · refine .inl ⟨failed, ?_⟩
      rw [failed, Ledger.take_null]
    · exact .inr ⟨failed, taken, rfl, owns.take answer failed taken⟩

theorem fine_check {α : Type} {post : α → Prop} (p : Word) (live : p ∈ s.heap.live) (rest : Unit → Except Misuse α)
    (after : Fine Broken post (rest ())) : Fine Broken post (check s p >>= rest) := by
  rw [check_live p live]
  exact after

theorem fine_kfree {α : Type} {post : α → Prop} (owns : Owns live₀ blocks s) (p : Word) (member : p ∈ blocks) (rest : State → Except Misuse α)
    (after : Fine Broken post (rest { s with heap := s.heap.free p })) : Fine Broken post (kfree p s >>= rest) := by
  rw [kfree_mine owns p member]
  exact after

theorem fine_kfree_null {α : Type} {post : α → Prop} (rest : State → Except Misuse α) (after : Fine Broken post (rest s)) :
    Fine Broken post (kfree 0 s >>= rest) := after

end Blocks

-- What the calls leave alone: which drives the module has, and how a drive
-- that is not new is read.
structure Frame (new : Word → Prop) (s s' : State) : Prop where
  drives : s'.drives = s.drives
  started : s'.started = s.started
  callback : ∀ e, ¬new e → (s'.driveData e).readcallback = (s.driveData e).readcallback

def nothing (_ : Word) : Prop := False

theorem Frame.refl (new : Word → Prop) (s : State) : Frame new s s := ⟨rfl, rfl, fun _ _ => rfl⟩

theorem Frame.trans {new : Word → Prop} {s t u : State} (first : Frame new s t) (second : Frame new t u) : Frame new s u :=
  ⟨second.drives.trans first.drives, second.started.trans first.started,
    fun e old => (second.callback e old).trans (first.callback e old)⟩

theorem set_callback (d : Word) (f : Drive → Drive) (s : State) (same : ∀ data, (f data).readcallback = data.readcallback) (e : Word) :
    ((s.setDrive d f).driveData e).readcallback = (s.driveData e).readcallback := by
  change (Function.update s.driveData d (f (s.driveData d)) e).readcallback = _
  by_cases here : e = d
  · subst here
    rw [Function.update_self, same]
  · rw [Function.update_of_ne here]

section Stocks

variable {live₀ list loose : List Word} {owned owned' : List Owned} {s s' : State} {o : Owned}

theorem Keeps.congr (keeps : Keeps s o) (drive : s'.driveData o.drive = s.driveData o.drive)
    (next : ∀ v ∈ o.vols, s'.volumeNext v = s.volumeNext v) (volumes : ∀ v ∈ o.vols, s'.volumes v = s.volumes v) : Keeps s' o := by
  refine ⟨by rw [drive]; exact keeps.priv, ?_, fun v member => by rw [volumes v member]; exact keeps.unmounted v member⟩
  have vols := keeps.vols
  rw [Linked.Spells, State.children] at vols ⊢
  rw [drive]
  exact vols.congr next

theorem mem_blocks (member : o ∈ owned) (p : Word) (block : p ∈ o.blocks) : p ∈ owned.flatMap Owned.blocks :=
  List.mem_flatMap.mpr ⟨o, member, block⟩

theorem Owned.blocks_perm (o : Owned) (owned : List Owned) :
    ([] ++ (o :: owned).flatMap Owned.blocks).Perm (o.vols ++ ([o.drive, o.priv] ++ owned.flatMap Owned.blocks)) := by
  have first : ([o.drive, o.priv] ++ o.vols).Perm (o.vols ++ [o.drive, o.priv]) := List.perm_append_comm
  rw [List.nil_append, List.flatMap_cons, ← List.append_assoc]
  exact first.append_right _

theorem Stock.mine (stock : Stock live₀ list s loose owned) (member : o ∈ owned) (p : Word) (block : p ∈ o.blocks) : p ∈ s.heap.live :=
  stock.owns.mine p (List.mem_append_right loose (mem_blocks member p block))

theorem Stock.linked_live (stock : Stock live₀ list s loose owned) (d : Word) (member : d ∈ list) : d ∈ s.heap.live := by
  rcases stock.linked d member with other | ⟨o, mine, rfl⟩
  · exact (stock.owns.live d).mpr (.inl other)
  · exact stock.mine mine o.drive List.mem_cons_self

theorem Stock.carry (stock : Stock live₀ list s loose owned) (s' : State) (loose' : List Word)
    (owns : Owns live₀ (loose' ++ owned.flatMap Owned.blocks) s') (head : s'.driveList.head = s.driveList.head)
    (next : ∀ d ∈ list, s'.driveList.next d = s.driveList.next d)
    (data : ∀ o ∈ owned, s'.driveData o.drive = s.driveData o.drive) (volumeNext : s'.volumeNext = s.volumeNext)
    (volumes : s'.volumes = s.volumes) : Stock live₀ list s' loose' owned := by
  refine ⟨owns, ?_, stock.linked, fun o member => ?_⟩
  · rw [Linked.Spells, head]
    exact stock.listed.congr next
  · exact (stock.keeps o member).congr (data o member) (fun v _ => by rw [volumeNext]) (fun v _ => by rw [volumes])

theorem Stock.perm (stock : Stock live₀ list s loose owned) (perm : owned.Perm owned') : Stock live₀ list s loose owned' :=
  ⟨stock.owns.perm ((perm.flatMap_right Owned.blocks).append_left loose), stock.listed,
    fun d member => (stock.linked d member).imp_right (fun ⟨o, mine, same⟩ => ⟨o, perm.mem_iff.mp mine, same⟩),
    fun o member => stock.keeps o (perm.mem_iff.mpr member)⟩

end Stocks

end Deimos.Ata
