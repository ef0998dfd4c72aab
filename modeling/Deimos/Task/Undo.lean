import Deimos.Task.Failed

set_option autoImplicit false

namespace Deimos.Task

open Mem Comp Kalloc

-- The block in which a request is served, with those behind it, and the one
-- the stack of a new task is cut from when the task has got its block.
def site (size : Word) : List Block → Option (Block × List Block)
  | [] => none
  | b :: bs => if b.Fits (roundSize size) then some (b, bs) else site size bs

def stackSite (bs : List Block) : Option (Block × List Block) :=
  (site taskSize bs).bind (fun (b, post) => site STACK_SIZE (b.place false (roundSize taskSize) ++ post))

-- The words of the first frame, as setup_stack pushes them, and where they go.
def frameWords (schedKill : Word) : List Word := [0x202, 0x08, 0, 0, 0, 0, 0, 0, 0, 0, 0, 0x10, 0x10, 0x10, 0x10, schedKill]

def frameAt : Word → List Word → List (Word × Word)
  | _, [] => []
  | esp, word :: words => (esp - 4, word) :: frameAt (esp - 4) words

-- The frame that new_task is going to push changes no header of the list,
-- save the link from the block behind the stack's, which kfree writes anew.
def Harmless (bs : List Block) (k : Kernel) : Prop :=
  ∀ b post, stackSite bs = some (b, post) → ∀ c ∈ bs, ∀ x, ¬ OffHeader c.addr x → (∀ d ∈ post.head?, ¬ PrevLink d x) →
    writes (frameAt (wordPointerAdd (alignedAddr b.addr) STACK_SIZE) (frameWords k.schedKill)) k.heap.mem x = k.heap.mem x

theorem site_skip (size : Word) (pre bs : List Block) (unfit : ∀ c ∈ pre, ¬ c.Fits (roundSize size)) : site size (pre ++ bs) = site size bs := by
  induction pre with
  | nil => rfl
  | cons c pre ih =>
      rw [List.cons_append, site, if_neg (unfit c List.mem_cons_self)]
      exact ih (fun d member => unfit d (List.mem_cons_of_mem c member))

theorem site_fit (size : Word) (b : Block) (bs : List Block) (fit : b.Fits (roundSize size)) : site size (b :: bs) = some (b, bs) := if_pos fit

theorem site_inside (size : Word) (bs : List Block) (b : Block) (post : List Block) (found : site size bs = some (b, post)) :
    ∃ pre, bs = pre ++ b :: post := by
  induction bs with
  | nil => cases found
  | cons c bs ih =>
      rw [site] at found
      split at found
      · cases found
        exact ⟨[], rfl⟩
      · obtain ⟨pre, rfl⟩ := ih found
        exact ⟨c :: pre, rfl⟩

theorem stack_unfit (c : Block) (unfit : ¬ c.Fits (roundSize taskSize)) : ¬ c.Fits (roundSize STACK_SIZE) := by
  have small : roundSize taskSize = 48 := by decide
  have large : roundSize STACK_SIZE = 0x4000 := by decide
  rw [small] at unfit
  rw [large]
  refine fun fit => unfit ⟨fit.1, ?_⟩
  have room := fit.2
  simp only [headerSize] at room ⊢
  bv_omega

theorem frame_hit (esp : Word) (words : List Word) (short : words.length ≤ 16) (x : Word) :
    Hit (frameAt esp words) x ↔ (esp - 1 - x).toNat < 4 * words.length := by
  induction words generalizing esp with
  | nil => simp [frameAt, Hit]
  | cons word words ih =>
      have fewer : words.length ≤ 16 := Nat.le_of_succ_le short
      rw [frameAt, hit_cons, ih (esp - 4) fewer, List.length_cons]
      generalize words.length = n at fewer
      constructor
      · rintro (first | later) <;> bv_omega
      · intro near
        by_cases first : (x - (esp - 4)).toNat < 4
        · exact .inl first
        · refine .inr ?_
          bv_omega

-- setup_stack pushes the frame, since new_task has set eip to 0.
theorem fill_stack_frame (m : Mem) (t esp schedKill : Word) (eip : loadTask m t .eip = 0)
    (apart : ∀ x : Word, (x - (t + TaskField.eip.offset)).toNat < 4 → 8 ≤ (esp - 1 - x).toNat) :
    (fillStack m t esp schedKill).mem = writes (frameAt esp (frameWords schedKill)) m := by
  have still : loadTask (push 0x08 (push 0x202 { mem := m, sp := esp, pushed := [] })).mem t .eip = 0 := by
    refine (read_congr m _ _ (fun x near => ?_)).trans eip
    have far := apart x near
    refine (write_other _ _ _ x ?_).trans (write_other _ _ _ x ?_)
    · simp only [push_sp]
      bv_omega
    · bv_omega
  simp only [fillStack]
  rw [still]
  rfl

def finishTask (m : Mem) (t esp : Word) : Mem :=
  let m := storeTask m t .esp (esp - 64)
  let m := storeTask m t .ebp esp
  let m := storeTask m t .nextTask 0
  storeTask m t .sleepTicks 0

theorem finish_same (m m' : Mem) (t esp x : Word) (same : m x = m' x) : finishTask m t esp x = finishTask m' t esp x :=
  writes_same [(t + TaskField.esp.offset, esp - 64), (t + TaskField.ebp.offset, esp), (t + TaskField.nextTask.offset, 0),
    (t + TaskField.sleepTicks.offset, 0)] m m' x same

theorem finish_other (m : Mem) (t esp x : Word) (off : taskSize.toNat ≤ (x - t).toNat) : finishTask m t esp x = m x := by
  simp only [finishTask, store_task_other, off]

def newTaskMem (k : Kernel) (t p : Word) (m : Mem) : Mem :=
  finishTask (fillStack (storeTask m t .stack p) t (wordPointerAdd p STACK_SIZE) k.schedKill).mem t (wordPointerAdd p STACK_SIZE)

structure Made (k k' : Kernel) (t p : Word) (h₁ h₂ : Heap) : Prop where
  stacked : p ≠ 0
  task : (kmalloc taskSize k.heap).Returns (t, h₁)
  stack : (kmallocA STACK_SIZE { h₁ with mem := initTask h₁.mem t k.nPid k.currentPd }).Returns (p, h₂)
  heap : k'.heap = { h₂ with mem := newTaskMem k t p h₂.mem }

theorem new_task_made (k k' : Kernel) (t : Word) (returned : (newTask k).Returns (t, k')) (created : t ≠ 0) :
    ∃ p h₁ h₂, Made k k' t p h₁ h₂ := by
  cases new_task_makes k k' t returned with
  | noTask => exact absurd rfl created
  | noStack => exact absurd rfl created
  | made t p h₁ h₂ nonnull stacked first second =>
      obtain ⟨sp, -⟩ := fill_stack_pushed (storeTask h₂.mem t .stack p) t (wordPointerAdd p STACK_SIZE) k.schedKill
      refine ⟨p, h₁, h₂, stacked, first, second, ?_⟩
      rw [newTaskMem, finishTask, ← sp]
      rfl

-- Where the stack goes: in front of its block is what is left of the free
-- block, and the block behind it is not far.
structure StackIn (stop : Nat) (b : Block) (post : List Block) (p : Word) (lead taken : Block) (rest : List Block) : Prop where
  placed : b.place true (roundSize STACK_SIZE) = lead :: taken :: rest
  free : lead.allocated = false
  start : lead.addr = b.addr
  used : taken.used
  payload : taken.payload = p
  behind : ∀ c ∈ rest, c.allocated = false
  short : rest.length ≤ 1
  near : ∀ c ∈ (rest ++ post).head?, c.addr.toNat ≤ p.toNat + 0x4014
  above : b.addr.toNat + 40 ≤ p.toNat
  below : p.toNat + 0x4000 ≤ stop

theorem stack_in (base stop : Nat) (h : Heap) (live : List Live) (cs : List Block) (p : Word) (h' : Heap) (pre post : List Block) (b : Block)
    (granted : Granted base stop h live cs STACK_SIZE true p h' pre post b) (layout : Layout base stop cs) (top : stop + 0xC000 ≤ 2 ^ 32) :
    ∃ lead taken rest, StackIn stop b post p lead taken rest := by
  have rounded : roundSize STACK_SIZE = 0x4000 := by decide
  obtain ⟨loose, splits⟩ := granted.room rfl
  have fit := granted.fit
  have after := granted.after
  have pointer : p = alignedAddr b.addr := granted.pointer
  rw [granted.shape] at layout
  rw [rounded] at loose fit after
  have member : b ∈ pre ++ b :: post := by simp
  have bounds := layout.bounds member
  have room := fit_room (by decide) fit
  have inside := aligned_room layout (by omega) member room loose
  have addr := aligned_block_addr b
  rw [← pointer] at inside addr
  have top' : p.toNat + 0x4000 ≤ stop := by
    have value : (0x4000 : Word).toNat = 0x4000 := rfl
    omega
  by_cases large : b.alignedBlock.size > 0x4000 + 2 * headerSize
  · have placed : b.place true 0x4000 = [b.cutFront b.alignedDist, b.alignedBlock.cutFront (headerSize + 0x4000),
        (b.alignedBlock.cutBack (headerSize + 0x4000)).tag false] := if_pos large
    rw [← rounded] at placed
    refine ⟨_, _, _, placed, fit.1, rfl, rfl, addr, fun c member => ?_, Nat.le_refl 1, fun c first => ?_, inside.2, top'⟩
    · rw [List.mem_singleton.mp member]
      rfl
    rw [rounded] at first
    obtain rfl : (b.alignedBlock.cutBack (headerSize + 0x4000)).tag false = c := Option.some.inj first
    simp only [Block.tag, Block.cutBack, headerSize] at addr ⊢
    bv_omega
  · have placed : b.place true 0x4000 = [b.cutFront b.alignedDist, b.alignedBlock] := if_neg large
    rw [placed] at after
    rw [← rounded] at placed
    refine ⟨_, _, _, placed, fit.1, rfl, rfl, addr, fun _ member => absurd member List.not_mem_nil, Nat.zero_le 1, fun c first => ?_, inside.2, top'⟩
    cases post with
    | nil => cases first
    | cons d post =>
        obtain rfl : d = c := Option.some.inj first
        obtain ⟨_, _, _, _, _, _, touch, _⟩ := (Tiling.tiles_append pre _ base stop).mp after.tiles
        simp only [Block.start, Block.stop, headerSize] at touch addr large
        bv_omega

theorem stack_behind (base stop : Nat) (h h' g g' : Heap) (live live' : List Live) (bs : List Block) (t p : Word) (pre post mid behind : List Block)
    (b taken c : Block) (rest : List Block) (placed : TaskIn base stop h live bs t h' pre post b taken rest)
    (granted : Granted base stop g live' (pre ++ (b.place false (roundSize taskSize) ++ post)) STACK_SIZE true p g' mid behind c) :
    (∃ between, mid = pre ++ taken :: between) ∧ stackSite bs = some (c, behind) := by
  have small : ∀ d ∈ pre, ¬ d.Fits (roundSize STACK_SIZE) := fun d member => stack_unfit d (placed.unfit d member)
  have busy : ¬ taken.Fits (roundSize STACK_SIZE) := fun fit => not_used taken fit.1 placed.used
  have shape := granted.shape
  have found : site STACK_SIZE (pre ++ (b.place false (roundSize taskSize) ++ post)) = some (c, behind) := by
    rw [shape, site_skip STACK_SIZE mid _ granted.unfit, site_fit STACK_SIZE c behind granted.fit]
  rw [site_skip STACK_SIZE pre _ small] at found
  constructor
  · rw [placed.placed, List.cons_append, site, if_neg busy] at found
    obtain ⟨between, split⟩ := site_inside STACK_SIZE _ c behind found
    rw [placed.placed, List.cons_append, split] at shape
    refine ⟨between, ?_⟩
    have whole : (pre ++ taken :: between) ++ c :: behind = mid ++ c :: behind := by simpa using shape
    exact (List.append_cancel_right whole).symm
  · rw [stackSite, placed.shape, site_skip taskSize pre _ placed.unfit, site_fit taskSize b post placed.fit, Option.bind_some]
    exact found

-- All there is to a new_task that succeeds: the blocks before the task's,
-- those between it and the one the stack is cut from, and those behind.
structure Built (base stop : Nat) (live : List Live) (bs : List Block) (k k' : Kernel) (t p : Word) (h₁ h₂ : Heap)
    (pre post between behind : List Block) (b taken c : Block) (rest : List Block) (lead stack : Block) (tail : List Block) : Prop where
  made : Made k k' t p h₁ h₂
  task : TaskIn base stop k.heap live bs t h₁ pre post b taken rest
  safe : Safe base stop ⟨{ h₁ with mem := initTask h₁.mem t k.nPid k.currentPd }, keep false taskSize t live⟩
    ((pre ++ taken :: between) ++ c :: behind)
  middle : pre ++ (b.place false (roundSize taskSize) ++ post) = (pre ++ taken :: between) ++ c :: behind
  granted : Granted base stop { h₁ with mem := initTask h₁.mem t k.nPid k.currentPd } (keep false taskSize t live)
    ((pre ++ taken :: between) ++ c :: behind) STACK_SIZE true p h₂ (pre ++ taken :: between) behind c
  stackIn : StackIn stop c behind p lead stack tail
  site : stackSite bs = some (c, behind)

theorem built_of_made (base stop : Nat) (live : List Live) (bs : List Block) (k k' : Kernel) (t p : Word) (h₁ h₂ : Heap)
    (safe : Safe base stop ⟨k.heap, live⟩ bs) (top : stop + 0xC000 ≤ 2 ^ 32) (created : t ≠ 0) (made : Made k k' t p h₁ h₂) :
    ∃ pre post between behind b taken c rest lead stack tail,
      Built base stop live bs k k' t p h₁ h₂ pre post between behind b taken c rest lead stack tail := by
  obtain ⟨pre, post, b, taken, rest, placed⟩ := task_in safe (by omega) t h₁ created made.task
  have filled := safe_payload placed.safe taken placed.member placed.large (initTask h₁.mem t k.nPid k.currentPd) (fun x far =>
    init_task_other h₁.mem t k.nPid k.currentPd x (placed.payload ▸ far))
  obtain ⟨mid, behind, c, granted⟩ := filled.allocates (by omega) STACK_SIZE p true h₂ (by decide) made.stacked made.stack
  obtain ⟨lead, stack, tail, stackIn⟩ := stack_in base stop _ _ _ p h₂ mid behind c granted filled.wf.toLayout top
  obtain ⟨⟨between, rfl⟩, site⟩ := stack_behind base stop _ _ _ _ _ _ bs t p pre post mid behind b taken c rest placed granted
  have middle := granted.shape
  rw [middle] at filled granted
  exact ⟨pre, post, between, behind, b, taken, c, rest, lead, stack, tail, made, placed, filled, middle, granted, stackIn, site⟩

abbrev frameOf (k : Kernel) (p : Word) : List (Word × Word) := frameAt (wordPointerAdd p STACK_SIZE) (frameWords k.schedKill)

def frameless (t p : Word) (m : Mem) : Mem := finishTask (storeTask m t .stack p) t (wordPointerAdd p STACK_SIZE)

theorem frame_high (k : Kernel) (p x : Word) (top : p.toNat + 0x10000 ≤ 2 ^ 32) (hit : Hit (frameOf k p) x) : p.toNat + 0xFFC0 ≤ x.toNat := by
  have near : (wordPointerAdd p STACK_SIZE - 1 - x).toNat < 64 := (frame_hit _ (frameWords k.schedKill) (Nat.le_refl 16) x).mp hit
  have esp : wordPointerAdd p STACK_SIZE = p + 0x10000 := rfl
  rw [esp] at near
  bv_omega

theorem frameless_other (t p : Word) (m : Mem) (x : Word) (far : taskSize.toNat ≤ (x - t).toNat) : frameless t p m x = m x :=
  (finish_other _ t _ x far).trans (store_task_other m t p x .stack far)

section Undoing

variable {base stop : Nat} {live : List Live} {bs : List Block} {k k' : Kernel} {t p : Word} {h₁ h₂ : Heap}
  {pre post between behind : List Block} {b taken c : Block} {rest : List Block} {lead stack : Block} {tail : List Block}
  (built : Built base stop live bs k k' t p h₁ h₂ pre post between behind b taken c rest lead stack tail)
  (top : stop + 0xC000 ≤ 2 ^ 32)

include built

theorem Built.low (d : Block) (member : d ∈ (pre ++ taken :: between) ++ [c]) : d.addr.toNat ≤ p.toNat := by
  have above := built.stackIn.above
  rcases List.mem_append.mp member with early | last
  · have order := Tiling.tiles_pairwise _ base stop built.safe.wf.tiles
    have before := (List.pairwise_append.mp order).2.2 d early c List.mem_cons_self
    simp only [Block.start, Block.stop] at before
    omega
  · rw [List.mem_singleton.mp last]
    omega

theorem Built.task_low : t.toNat + 48 ≤ p.toNat := by
  have above := built.stackIn.above
  have order := Tiling.tiles_pairwise _ base stop built.safe.wf.tiles
  have before := (List.pairwise_append.mp order).2.2 taken (by simp) c List.mem_cons_self
  have large : 48 + 20 ≤ taken.size.toNat := built.task.large
  have bounds := built.safe.wf.bounds (b := taken) (by simp)
  have bound := built.safe.wf.bound
  have payload := built.task.payload
  simp only [Block.start, Block.stop, Block.payload, headerSize] at before payload
  bv_omega

theorem Built.stack_low : p.toNat + 0x10000 ≤ stop + 0xC000 := by
  have below := built.stackIn.below
  omega

theorem Built.after : (pre ++ taken :: between) ++ (c.place true (roundSize STACK_SIZE) ++ behind) =
    ((pre ++ taken :: between) ++ [lead]) ++ stack :: (tail ++ behind) := by
  rw [built.stackIn.placed]
  simp

theorem Built.stays : taken ∈ ((pre ++ taken :: between) ++ [lead]) ++ stack :: (tail ++ behind) ∧ t ≠ p := by
  obtain ⟨member, other⟩ := (built.granted.others taken built.task.used).mp (by simp)
  rw [built.after] at member
  exact ⟨member, built.task.payload ▸ other⟩

theorem Built.frameless_safe : Safe base stop ⟨{ h₂ with mem := frameless t p h₂.mem }, keep true STACK_SIZE p (keep false taskSize t live)⟩
    (((pre ++ taken :: between) ++ [lead]) ++ stack :: (tail ++ behind)) := by
  have safe := built.granted.safe
  rw [built.after] at safe
  exact safe_payload safe taken built.stays.1 built.task.large _ (fun x far => frameless_other t p h₂.mem x (built.task.payload ▸ far))

theorem Built.eip : loadTask (storeTask h₂.mem t .stack p) t .eip = 0 := by
  have cleared : loadTask (initTask h₁.mem t k.nPid k.currentPd) t .eip = 0 := by simp [initTask, load_store_task]
  rw [load_store_task, if_neg (by decide)]
  refine (read_congr _ _ _ (fun x near => built.granted.frame x ?_)).trans cleared
  have layout := built.granted.after.toLayout
  rw [built.after] at layout ⊢
  refine off_headers_of_payload layout taken built.stays.1 x ?_
  have large : 48 + 20 ≤ taken.size.toNat := built.task.large
  have payload := built.task.payload
  simp only [TaskField.offset] at near
  rw [payload]
  bv_omega

theorem Built.stack_near (d : Block) (near : NearBlock ((pre ++ taken :: between) ++ [lead]) stack (tail ++ behind) d) :
    d.addr.toNat ≤ p.toNat + 0x4014 := by
  have above := built.stackIn.above
  rcases near with rfl | first | last
  · have payload := built.stackIn.payload
    have bounds := built.frameless_safe.wf.bounds (b := d) (by simp)
    have bound := built.frameless_safe.wf.bound
    simp only [Block.payload, headerSize] at payload
    bv_omega
  · exact built.stackIn.near d first
  · obtain rfl : lead = d := Option.some.inj (List.getLast?_concat.symm.trans last)
    rw [built.stackIn.start]
    omega

theorem Built.task_near (d : Block) (near : NearBlock pre taken (between ++ c :: behind) d) : d.addr.toNat ≤ p.toNat + 0x4014 := by
  refine Nat.le_trans (built.low d ?_) (Nat.le_add_right _ _)
  rcases near with rfl | first | last
  · simp
  · cases between with
    | nil =>
        obtain rfl : c = d := Option.some.inj first
        simp
    | cons e between =>
        obtain rfl : e = d := Option.some.inj first
        simp
  · have member : d ∈ pre := List.mem_of_getLast? last
    simp [member]

theorem Built.rejoined : (joinNext (stack.tag false) (tail ++ behind)).2 = behind := by
  cases tail with
  | nil =>
      have settled := built.safe.settled
      obtain ⟨-, here, -⟩ := List.isChain_append.mp settled
      obtain ⟨right, -⟩ := List.isChain_cons.mp here
      cases behind with
      | nil => rfl
      | cons d behind =>
          have used : d.allocated = true := (right d rfl).resolve_left (not_used c built.granted.fit.1)
          rw [List.nil_append, joinNext, used, if_pos rfl]
  | cons r more =>
      have single : more = [] := List.eq_nil_of_length_eq_zero (Nat.le_zero.mp (Nat.le_of_succ_le_succ built.stackIn.short))
      have free : r.allocated = false := built.stackIn.behind r (by simp)
      rw [single, List.singleton_append, joinNext, free]
      rfl

theorem Built.rejoined_task (d : Block) (first : d ∈ (joinNext (taken.tag false) (between ++ c :: behind)).2.head?) :
    d ∈ (pre ++ taken :: between) ++ [c] ∨ d ∈ behind.head? := by
  cases between with
  | nil =>
      have free : c.allocated = false := built.granted.fit.1
      rw [List.nil_append, joinNext, free] at first
      exact .inr first
  | cons e between =>
      rw [List.cons_append, joinNext] at first
      split at first
      · obtain rfl : e = d := Option.some.inj first
        exact .inl (by simp)
      · cases between with
        | nil =>
            obtain rfl : c = d := Option.some.inj first
            exact .inl (by simp)
        | cons f between =>
            obtain rfl : f = d := Option.some.inj first
            exact .inl (by simp)

include top

theorem Built.pushed : k'.heap.mem = finishTask (writes (frameOf k p) (storeTask h₂.mem t .stack p)) t (wordPointerAdd p STACK_SIZE) := by
  have low := built.task_low
  have high := built.stack_low
  have frame := fill_stack_frame (storeTask h₂.mem t .stack p) t (wordPointerAdd p STACK_SIZE) k.schedKill built.eip (fun x near => by
    have esp : wordPointerAdd p STACK_SIZE = p + 0x10000 := rfl
    rw [esp]
    simp only [TaskField.offset] at near
    bv_omega)
  rw [built.made.heap, ← frame]
  rfl

theorem Built.outside (x : Word) (missed : ¬ Hit (frameOf k p) x) : k'.heap.mem x = frameless t p h₂.mem x := by
  rw [built.pushed top]
  exact finish_same _ _ t _ x (writes_other _ _ x missed)

theorem Built.inside (x : Word) (hit : Hit (frameOf k p) x) : k'.heap.mem x = writes (frameOf k p) k.heap.mem x := by
  have low := built.task_low
  have high := built.stack_low
  have far : taskSize.toNat ≤ (x - t).toNat := by
    have inFrame := frame_high k p x (by omega) hit
    simp only [taskSize]
    bv_omega
  rw [built.pushed top, finish_other _ t _ x far]
  exact writes_hit _ _ _ x hit

theorem Built.missed (d : Block) (near : d.addr.toNat ≤ p.toNat + 0x4014) (x : Word) (header : (x - d.addr).toNat < 20) : ¬ Hit (frameOf k p) x := by
  have high := built.stack_low
  intro hit
  have inFrame := frame_high k p x (by omega) hit
  bv_omega

-- The two calls of free_task write what they would write without the frame,
-- and without the frame they lead back to the list.
theorem Built.undone (safe : Safe base stop ⟨k.heap, live⟩ bs) (created : t ≠ 0) :
    freeTask t k'.heap = .ok { h₂ with mem := writes (freeWrites ((pre ++ taken :: between) ++ [lead]) stack (tail ++ behind) ++
        freeWrites pre taken (between ++ c :: behind)) k'.heap.mem } ∧
      WellFormed base stop { h₂ with mem := writes (freeWrites ((pre ++ taken :: between) ++ [lead]) stack (tail ++ behind) ++
        freeWrites pre taken (between ++ c :: behind)) (frameless t p h₂.mem) } bs := by
  have same : ∀ d : Block, d.addr.toNat ≤ p.toNat + 0x4014 → ∀ x : Word, (x - d.addr).toNat < 20 → k'.heap.mem x = frameless t p h₂.mem x :=
    fun d near x header => built.outside top x (built.missed top d near x header)
  have plain := built.frameless_safe
  have payload := built.stackIn.payload
  have others := built.granted.others
  rw [built.after] at others
  -- The stack.
  obtain ⟨g, freed, mid⟩ := built.safe.released plain (by omega) p built.granted.known others
  obtain ⟨plainly, actually⟩ := kfree_alike base stop _ _ (tail ++ behind) stack plain.wf (by rw [payload]; exact built.made.stacked) k'.heap.mem
    (fun d near => same d (built.stack_near d near))
  rw [payload] at plainly actually
  obtain rfl := Except.ok.inj (plainly.symm.trans freed)
  -- The task.
  have known : t ∈ (drop p (keep true STACK_SIZE p (keep false taskSize t live))).map Live.ptr := by
    refine (mem_drop p t).mpr ⟨?_, built.stays.2⟩
    rw [keep, if_neg built.made.stacked]
    exact List.mem_cons_of_mem _ built.task.known
  have others' := built.task.others
  rw [built.middle] at others'
  obtain ⟨g', freed', back⟩ := safe.released mid (by omega) t known others'
  have shape : (pre ++ taken :: between) ++ c :: behind = pre ++ taken :: (between ++ c :: behind) := by simp
  have list := mid.wf
  rw [shape] at list
  obtain ⟨plainly', actually'⟩ := kfree_alike base stop _ pre (between ++ c :: behind) taken list (by rw [built.task.payload]; exact created)
    (writes (freeWrites ((pre ++ taken :: between) ++ [lead]) stack (tail ++ behind)) k'.heap.mem)
    (fun d near x header => writes_same _ _ _ x (same d (built.task_near d near) x header))
  rw [built.task.payload] at plainly' actually'
  obtain rfl := Except.ok.inj (plainly'.symm.trans freed')
  have field : loadTask k'.heap.mem t .stack = p := by
    have plainStack : loadTask (frameless t p h₂.mem) t .stack = p := by simp [frameless, finishTask, load_store_task]
    refine (read_congr _ _ _ (fun x near => built.outside top x ?_)).trans plainStack
    have low := built.task_low
    have high := built.stack_low
    intro hit
    have inFrame := frame_high k p x (by omega) hit
    simp only [TaskField.offset] at near
    bv_omega
  have whole : k'.heap = { h₂ with mem := k'.heap.mem } := by rw [built.made.heap]
  rw [writes_append, writes_append]
  refine ⟨?_, back.wf⟩
  rw [freeTask, field, whole, actually]
  exact actually'

theorem Built.links (x : Word) (inFrame : Hit (frameOf k p) x) :
    Hit (freeWrites ((pre ++ taken :: between) ++ [lead]) stack (tail ++ behind) ++ freeWrites pre taken (between ++ c :: behind)) x ↔
      ∃ d ∈ behind.head?, PrevLink d x := by
  have clear : ∀ d : Block, d.addr.toNat ≤ p.toNat + 0x4014 → OffHeader d.addr x := fun d near =>
    Nat.le_of_not_lt (fun header => built.missed top d near x header inFrame)
  have link : ∀ d : Block, PrevLink d x → ¬ OffHeader d.addr x := by
    intro d near
    refine Nat.not_le_of_lt ?_
    have header : headerSize.toNat = 20 := rfl
    simp only [PrevLink, Field.offset] at near
    bv_omega
  rw [hit_append]
  constructor
  · rintro (first | second)
    · rcases free_hit _ _ _ x first with own | ⟨q, last, before⟩ | ⟨d, head, near⟩
      · exact absurd (clear stack (built.stack_near stack (.inl rfl))) own
      · exact absurd (clear q (built.stack_near q (.inr (.inr last)))) before
      · rw [built.rejoined] at head
        exact ⟨d, head, near⟩
    · rcases free_hit _ _ _ x second with own | ⟨q, last, before⟩ | ⟨d, head, near⟩
      · exact absurd (clear taken (built.task_near taken (.inl rfl))) own
      · exact absurd (clear q (built.task_near q (.inr (.inr last)))) before
      · rcases built.rejoined_task d head with low | far
        · exact absurd (clear d (Nat.le_trans (built.low d low) (Nat.le_add_right _ _))) (link d near)
        · exact ⟨d, far, near⟩
  · rintro ⟨d, head, near⟩
    refine .inl (free_links _ _ stack lead d x List.getLast?_concat built.stackIn.free ?_ near)
    rw [built.rejoined]
    exact head

theorem Built.restored (safe : Safe base stop ⟨k.heap, live⟩ bs) (created : t ≠ 0) :
    (∃ h, freeTask t k'.heap = .ok h ∧ WellFormed base stop h bs) ↔ Harmless bs k := by
  obtain ⟨freed, list⟩ := built.undone top safe created
  have links := built.links top
  generalize freeWrites ((pre ++ taken :: between) ++ [lead]) stack (tail ++ behind) ++ freeWrites pre taken (between ++ c :: behind) = ws at freed list links
  have pointer : p = alignedAddr c.addr := built.granted.pointer
  -- Of a header byte in the frame that is not written anew.
  have left : ∀ x, Hit (frameOf k p) x → (∀ d ∈ behind.head?, ¬ PrevLink d x) →
      writes ws k'.heap.mem x = writes (frameOf k p) k.heap.mem x := by
    intro x hit unlinked
    have spared : ¬ Hit ws x := fun written => by
      obtain ⟨d, head, near⟩ := (links x hit).mp written
      exact unlinked d head near
    exact (writes_other ws _ x spared).trans (built.inside top x hit)
  constructor
  · rintro ⟨h, same, restored⟩ b' post' found d member x header unlinked
    obtain ⟨rfl, rfl⟩ := Prod.mk.inj (Option.some.inj (built.site.symm.trans found))
    rw [← pointer]
    by_cases hit : Hit (frameOf k p) x
    · obtain rfl := Except.ok.inj (freed.symm.trans same)
      exact (left x hit unlinked).symm.trans (header_bytes base stop _ _ bs restored safe.wf d member x header)
    · exact writes_other _ _ x hit
  · intro harmless
    refine ⟨_, freed, list.rewrite _ (fun d member x near => ?_)⟩
    have header : ¬ OffHeader d.addr x := Nat.not_le_of_lt near
    by_cases hit : Hit (frameOf k p) x
    · by_cases linked : ∃ e ∈ behind.head?, PrevLink e x
      · exact writes_hit ws _ _ x ((links x hit).mpr linked)
      · have unlinked : ∀ e ∈ behind.head?, ¬ PrevLink e x := fun e head near => linked ⟨e, head, near⟩
        have kept := harmless c behind built.site d member x header unlinked
        rw [← pointer] at kept
        exact ((left x hit unlinked).trans kept).trans (header_bytes base stop _ _ bs safe.wf list d member x header)
    · exact writes_same ws _ _ x (built.outside top x hit)

end Undoing

theorem free_task_restores_iff (base stop : Nat) (live : List Live) (bs : List Block) (k k' : Kernel) (t : Word)
    (safe : Safe base stop ⟨k.heap, live⟩ bs) (top : stop + 0xC000 ≤ 2 ^ 32) (returned : (newTask k).Returns (t, k')) (created : t ≠ 0) :
    (∃ h, freeTask t k'.heap = .ok h ∧ WellFormed base stop h bs) ↔ Harmless bs k := by
  obtain ⟨p, h₁, h₂, made⟩ := new_task_made k k' t returned created
  obtain ⟨pre, post, between, behind, b, taken, c, rest, lead, stack, tail, built⟩ :=
    built_of_made base stop live bs k k' t p h₁ h₂ safe top created made
  exact built.restored top safe created

-- new_task and what follows it, on any heap the allocator's calls lead to,
-- whatever the owners of the blocks have written into them. A creation that
-- fails leaves all as it was. One that succeeds can be undone if and only if
-- the frame it pushes is harmless; mm_init leaves 0xC000 bytes above the heap.
theorem creation_traces_iff (start size : Word) (m : Mem) (s : Heap) (limit : Nat) (r : HeapRun) (k : Kernel) (bs : List Block)
    (init : kheapInit start size m = .ok s) (room : 20 ≤ size.toNat) (top : start.toNat + size.toNat < 2 ^ 32) (run : Runs limit s r)
    (list : WellFormed start.toNat (start.toNat + size.toNat) r.heap bs)
    (own : WellFormed start.toNat (start.toNat + size.toNat) k.heap bs) :
    (∀ k', (newTask k).Returns (0, k') → WellFormed start.toNat (start.toNat + size.toNat) k'.heap bs ∧
      ∀ sched func, Mirrors bs k sched →
        Sched.createKernelTask (outcome k k' 0) func sched = .ok (0, { sched with nPid := k'.nPid }) ∧
          Mirrors bs k' { sched with nPid := k'.nPid }) ∧
      (start.toNat + size.toNat + 0xC000 ≤ 2 ^ 32 → ∀ t k', (newTask k).Returns (t, k') → t ≠ 0 →
        ((∃ h, freeTask t k'.heap = .ok h ∧ WellFormed start.toNat (start.toNat + size.toNat) h bs) ↔ Harmless bs k)) := by
  obtain ⟨cs, safe⟩ := safe_of_runs start size m s r init room top limit run
  obtain rfl := well_formed_unique _ _ r.heap cs bs safe.wf list
  have safe' : Safe start.toNat (start.toNat + size.toNat) ⟨k.heap, r.live⟩ cs := ⟨own, safe.settled, safe.pointers, safe.distinct⟩
  constructor
  · intro k' returned
    have failed := new_task_failed k k' safe' top returned
    exact ⟨failed.list, fun sched func mirrors => failed_creation _ _ cs k k' failed sched mirrors func⟩
  · intro high t k' returned created
    exact free_task_restores_iff _ _ r.live cs k k' t safe' high returned created

theorem creation_traces_at_start : ∃ s k t k' h, kheapInit 0xC0200000 0x200000 (fun _ => 0) = .ok s ∧ k.heap = s ∧
    (newTask k).Returns (t, k') ∧ t ≠ 0 ∧ freeTask t k'.heap = .ok h ∧
    WellFormed 0xC0200000 0xC0400000 h [⟨0xC0200000, 0x200000, false⟩] := by
  obtain ⟨s, init⟩ := kheap_init_ok 0xC0200000 0x200000 (fun _ => 0) (by decide)
  have fresh : WellFormed 0xC0200000 0xC0400000 s [⟨0xC0200000, 0x200000, false⟩] :=
    kheap_init_list 0xC0200000 0x200000 _ s init (by decide) (by decide)
  obtain ⟨_, k', returned, -⟩ := hole_serves ⟨s, 0, 0, 0, 0, []⟩ 0x200000 [] ⟨0xC0200044, 0x1FFFBC, false⟩ fresh
    (by decide) rfl (by decide) (fun _ => by decide) (by decide)
  have traces := creation_traces_iff 0xC0200000 0x200000 _ s 0x200000 ⟨s, []⟩ ⟨s, 0, 0, 0, 0, []⟩ [⟨0xC0200000, 0x200000, false⟩]
    init (by decide) (by decide) .refl fresh fresh
  have harmless : Harmless [⟨0xC0200000, 0x200000, false⟩] ⟨s, 0, 0, 0, 0, []⟩ := by
    intro b post found c member x near _
    have there : stackSite [⟨0xC0200000, 0x200000, false⟩] = some (⟨0xC0200044, 0x1FFFBC, false⟩, []) := by decide
    obtain ⟨rfl, rfl⟩ := Prod.mk.inj (Option.some.inj (there.symm.trans found))
    obtain rfl := List.mem_singleton.mp member
    refine writes_other _ _ x (fun hit => ?_)
    have inFrame : ((0xC0211000 : Word) - 1 - x).toNat < 64 := (frame_hit 0xC0211000 (frameWords 0) (Nat.le_refl 16) x).mp hit
    have header : (x - 0xC0200000).toNat < 20 := Nat.lt_of_not_le near
    bv_omega
  obtain ⟨h, freed, list⟩ := (traces.2 (by decide) 0xC0200014 k' returned (by decide)).mpr harmless
  exact ⟨s, _, 0xC0200014, k', h, init, rfl, returned, by decide, freed, list⟩

theorem header_state : ∃ s r, kheapInit 0xC0200000 0x200000 (fun _ => 0) = .ok s ∧ Runs 0x200000 s r ∧
    r.live = [⟨0xC0210FD4, 0x100, false⟩] ∧
    WellFormed 0xC0200000 0xC0400000 r.heap
      [⟨0xC0200000, 0x10FC0, false⟩, ⟨0xC0210FC0, 0x114, true⟩, ⟨0xC02110D4, 0x1EEF2C, false⟩] :=
  hole_state 0x10FAC 0x100 ⟨0xC0200000, 0x10FC0, true⟩ ⟨0xC0210FC0, 0x1EF040, false⟩ ⟨0xC0210FC0, 0x114, true⟩ ⟨0xC02110D4, 0x1EEF2C, false⟩
    (by decide) (by decide) (by decide) (by decide) rfl rfl (by decide) (by decide) (by decide) (by decide) (by decide) rfl (by decide) (by decide)

theorem creation_trace_left : ¬ ∀ (start size : Word) (m : Mem) (s : Heap) (limit : Nat) (r : HeapRun) (k : Kernel) (bs : List Block),
    kheapInit start size m = .ok s → 20 ≤ size.toNat → start.toNat + size.toNat < 2 ^ 32 → Runs limit s r →
    WellFormed start.toNat (start.toNat + size.toNat) r.heap bs → k.heap = r.heap →
    (∀ k', (newTask k).Returns (0, k') → WellFormed start.toNat (start.toNat + size.toNat) k'.heap bs ∧
      ∀ sched func, Mirrors bs k sched →
        Sched.createKernelTask (outcome k k' 0) func sched = .ok (0, { sched with nPid := k'.nPid })) ∧
      ∀ t k', (newTask k).Returns (t, k') → t ≠ 0 →
        ∃ h, freeTask t k'.heap = .ok h ∧ WellFormed start.toNat (start.toNat + size.toNat) h bs := by
  intro untraced
  obtain ⟨s, r, init, run, -, list⟩ := header_state
  obtain ⟨_, k', returned, -⟩ := hole_serves ⟨r.heap, 0, 0, 0, 0, []⟩ 0x10FC0 _ ⟨0xC0200044, 0x10F7C, false⟩ list
    (by decide) rfl (by decide) (fun _ => by decide) (by decide)
  obtain ⟨cs, safe⟩ := safe_of_runs 0xC0200000 0x200000 _ s r init (by decide) (by decide) 0x200000 run
  obtain rfl := well_formed_unique _ _ r.heap cs _ safe.wf list
  have restored := (untraced 0xC0200000 0x200000 _ s 0x200000 r ⟨r.heap, 0, 0, 0, 0, []⟩ _ init (by decide) (by decide) run list rfl).2
    _ k' returned (by decide)
  have harmless := (free_task_restores_iff _ _ r.live _ ⟨r.heap, 0, 0, 0, 0, []⟩ k' _ safe (by decide) returned (by decide)).mp restored
  have there : stackSite [⟨0xC0200000, 0x10FC0, false⟩, ⟨0xC0210FC0, 0x114, true⟩, ⟨0xC02110D4, 0x1EEF2C, false⟩] =
      some (⟨0xC0200044, 0x10F7C, false⟩, [⟨0xC0210FC0, 0x114, true⟩, ⟨0xC02110D4, 0x1EEF2C, false⟩]) := by decide
  have near : ¬ OffHeader 0xC0210FC0 0xC0210FC0 := by simp [OffHeader, headerSize]
  have unlinked : ∀ d ∈ List.head? [(⟨0xC0210FC0, 0x114, true⟩ : Block), ⟨0xC02110D4, 0x1EEF2C, false⟩], ¬ PrevLink d 0xC0210FC0 := by
    intro d head
    obtain rfl := Option.some.inj head
    simp [PrevLink, Field.offset]
  have kept := harmless _ _ there ⟨0xC0210FC0, 0x114, true⟩ (by simp) 0xC0210FC0 near unlinked
  -- The last word pushed is the address of sched_kill, and its lowest byte comes to lie on that of the magic.
  have header := @HeapList.header r.heap.mem _ _ [⟨0xC0200000, 0x10FC0, false⟩] _ ⟨0xC0210FC0, 0x114, true⟩ list.toHeapList
  have magic : load r.heap.mem 0xC0210FC0 .magic = HEAP_MAGIC := header.magic
  have address : (0xC0210FC0 : Word) + Field.magic.offset = 0xC0210FC0 := by decide
  rw [load, address] at magic
  have before : r.heap.mem 0xC0210FC0 = 0xEF := by
    rw [read_low r.heap.mem, magic]
    decide
  have overwritten : writes (frameAt 0xC0211000 (frameWords 0)) r.heap.mem 0xC0210FC0 = 0 := by
    have hit : Hit (frameAt 0xC0211000 (frameWords 0)) 0xC0210FC0 := (frame_hit _ (frameWords 0) (Nat.le_refl 16) _).mpr (by decide)
    rw [writes_hit _ r.heap.mem (fun _ => 0) _ hit]
    decide
  have top : wordPointerAdd (alignedAddr 0xC0200044) STACK_SIZE = 0xC0211000 := by decide
  rw [top, overwritten, before] at kept
  exact absurd kept (by decide)

end Deimos.Task
