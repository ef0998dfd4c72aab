import Deimos.Kalloc.Held
import Deimos.Kalloc.Release
import Deimos.Sched.Model
import Deimos.Task.Stack

set_option autoImplicit false

namespace Deimos.Task

open Mem Comp Kalloc

section Blocks

variable {base stop : Nat} {h : Heap} {live : List Live} {bs : List Block}

theorem safe_payload (safe : Safe base stop ⟨h, live⟩ bs) (b : Block) (member : b ∈ bs) (room : taskSize.toNat + 20 ≤ b.size.toNat) (m : Mem)
    (same : ∀ x : Word, taskSize.toNat ≤ (x - b.payload).toNat → m x = h.mem x) : Safe base stop ⟨{ h with mem := m }, live⟩ bs :=
  safe.rewrite m (fun c other x near => same x (safe.wf.payload_clear b c member other taskSize.toNat room x near))

theorem carve_head (size : Word) (b : Block) (fit : b.Fits size) :
    ∃ taken rest, b.carve size = taken :: rest ∧ taken.addr = b.addr ∧ taken.used ∧ size + headerSize ≤ taken.size := by
  by_cases whole : b.size < size + 2 * headerSize ∨ ¬ b.Cuttable (headerSize + size)
  · exact ⟨b.tag true, [], if_pos whole, rfl, rfl, fit.2⟩
  · refine ⟨(b.cutFront (headerSize + size)).tag true, [b.cutBack (headerSize + size)], if_neg whole, rfl, rfl, ?_⟩
    rw [BitVec.add_comm]
    exact BitVec.le_refl _

structure TaskIn (base stop : Nat) (h : Heap) (live : List Live) (bs : List Block) (t : Word) (h' : Heap) (pre post : List Block)
    (b taken : Block) (rest : List Block) : Prop extends Granted base stop h live bs taskSize false t h' pre post b where
  placed : b.place false (roundSize taskSize) = taken :: rest
  used : taken.used
  payload : taken.payload = t
  large : taskSize.toNat + 20 ≤ taken.size.toNat

theorem task_in (safe : Safe base stop ⟨h, live⟩ bs) (top : stop < 2 ^ 32) (t : Word) (h' : Heap) (nonnull : t ≠ 0)
    (returned : (kmalloc taskSize h).Returns (t, h')) : ∃ pre post b taken rest, TaskIn base stop h live bs t h' pre post b taken rest := by
  obtain ⟨pre, post, b, granted⟩ := safe.allocates top taskSize t false h' (by decide) nonnull returned
  obtain ⟨taken, rest, placed, addr, used, large⟩ := carve_head (roundSize taskSize) b granted.fit
  refine ⟨pre, post, b, taken, rest, granted, placed, used, ?_, ?_⟩
  · rw [granted.pointer, Block.payload, addr]
    rfl
  · have rounded : roundSize taskSize + headerSize = 68 := by decide
    rw [rounded] at large
    exact large

theorem TaskIn.member {h' : Heap} {t : Word} {pre post rest : List Block} {b taken : Block}
    (placed : TaskIn base stop h live bs t h' pre post b taken rest) :
    taken ∈ pre ++ (b.place false (roundSize taskSize) ++ post) := by
  rw [placed.placed]
  simp

theorem payload_far (safe : Safe base stop ⟨h, live⟩ bs) (b c : Block) (left : b ∈ bs) (right : c ∈ bs) (different : b ≠ c)
    (room : taskSize.toNat + 20 ≤ b.size.toNat) (x : Word) (near : (x - c.payload).toNat + 20 < c.size.toNat) :
    taskSize.toNat ≤ (x - b.payload).toNat := by
  have here := safe.wf.bounds left
  have there := safe.wf.bounds right
  have bound := safe.wf.bound
  have apart := Tiling.tiles_disjoint bs base stop safe.wf.tiles b c left right different
  simp only [Block.start, Block.stop, Block.payload, headerSize, taskSize] at apart near room ⊢
  rcases apart with before | behind <;> bv_omega

theorem kfree_bytes (safe : Safe base stop ⟨h, live⟩ bs) (top : stop < 2 ^ 32) (b : Block) (member : b ∈ bs) (h' : Heap)
    (freed : kfree b.payload h = .ok h') (x : Word) (off : OffHeaders bs x) : h'.mem x = h.mem x := by
  obtain ⟨pre, post, rfl⟩ := List.append_of_mem member
  obtain ⟨m', freed', -, frame⟩ := kfree_list base stop h pre post b safe.wf (safe.wf.payload_ne top member).1
  obtain rfl := Except.ok.inj (freed.symm.trans freed')
  exact frame x off

end Blocks

structure Failed (base stop : Nat) (bs : List Block) (k k' : Kernel) : Prop where
  list : WellFormed base stop k'.heap bs
  bytes : ∀ b ∈ bs, b.used → ∀ x : Word, (x - b.payload).toNat + 20 < b.size.toNat → k'.heap.mem x = k.heap.mem x
  currentPd : k'.currentPd = k.currentPd
  nPid : k'.nPid = k.nPid ∨ k'.nPid = k.nPid + 1

section Failing

variable {base stop : Nat} {live : List Live} {bs : List Block} (k k' : Kernel) (safe : Safe base stop ⟨k.heap, live⟩ bs)
  (top : stop < 2 ^ 32)

include safe top

theorem stackless_failed (t : Word) (h₁ h₂ h₃ : Heap) (nonnull : t ≠ 0) (first : (kmalloc taskSize k.heap).Returns (t, h₁))
    (second : (kmallocA STACK_SIZE { h₁ with mem := initTask h₁.mem t k.nPid k.currentPd }).Returns (0, h₂))
    (freed : kfree t { h₂ with mem := storeTask h₂.mem t .stack 0 } = .ok h₃) :
    Failed base stop bs k { k with heap := h₃, nPid := k.nPid + 1 } := by
  obtain ⟨pre, post, b, taken, rest, placed⟩ := task_in safe top t h₁ nonnull first
  have member := placed.member
  have filled := safe_payload placed.safe taken member placed.large (initTask h₁.mem t k.nPid k.currentPd) (fun x far =>
    init_task_other h₁.mem t k.nPid k.currentPd x (placed.payload ▸ far))
  obtain rfl := filled.failed top STACK_SIZE true h₂ second
  have stored := safe_payload filled taken member placed.large (storeTask (initTask h₁.mem t k.nPid k.currentPd) t .stack 0) (fun x far =>
    store_task_other _ t 0 x .stack (placed.payload ▸ far))
  obtain ⟨h₄, freed', back⟩ := safe.released stored top t placed.known placed.others
  obtain rfl := Except.ok.inj (freed.symm.trans freed')
  refine ⟨back.wf, fun c inside used x near => ?_, rfl, .inr rfl⟩
  obtain ⟨still, other⟩ := (placed.others c used).mp inside
  have off := off_headers_of_payload placed.after.toLayout c still x near
  have far : taskSize.toNat ≤ (x - t).toNat :=
    placed.payload ▸ payload_far placed.safe taken c member still (fun same => other (same ▸ placed.payload)) placed.large x near
  calc h₃.mem x = storeTask (initTask h₁.mem t k.nPid k.currentPd) t .stack 0 x :=
        kfree_bytes stored top taken member h₃ (placed.payload ▸ freed) x off
    _ = initTask h₁.mem t k.nPid k.currentPd x := store_task_other _ t 0 x .stack far
    _ = h₁.mem x := init_task_other h₁.mem t k.nPid k.currentPd x far
    _ = k.heap.mem x := placed.frame x off

theorem new_task_failed (returned : (newTask k).Returns (0, k')) : Failed base stop bs k k' := by
  cases new_task_makes k k' 0 returned with
  | noTask h first =>
      obtain rfl := safe.failed top taskSize false h first
      exact ⟨safe.wf, fun _ _ _ _ _ => rfl, rfl, .inl rfl⟩
  | noStack t h₁ h₂ h₃ created first second freed => exact stackless_failed k safe top t h₁ h₂ h₃ created first second freed
  | made _ _ _ _ created => exact absurd rfl created

end Failing

def TASK_READY : Word := 1

def TASK_RUNNING : Word := 2

def TASK_SLEEPING : Word := 3

def TASK_DESTROY : Word := 4

def stateWord : Sched.TaskState → Word
  | .stopped => TASK_STOPPED
  | .ready => TASK_READY
  | .running => TASK_RUNNING
  | .sleeping => TASK_SLEEPING
  | .destroy => TASK_DESTROY

-- The task_t at t, as the scheduler's model has it.
structure Stored (m : Mem) (t : Word) (task : Sched.Task) (next : Word) : Prop where
  pid : loadTask m t .pid = task.pid
  ppid : loadTask m t .ppid = task.ppid
  state : loadTask m t .state = stateWord task.state
  cpuTime : loadTask m t .cpuTime = task.cpuTime
  pageDir : loadTask m t .pageDir = task.pageDir
  stack : loadTask m t .stack = task.stack
  eip : loadTask m t .eip = task.eip
  esp : loadTask m t .esp = task.esp
  ebp : loadTask m t .ebp = task.ebp
  sleepTicks : loadTask m t .sleepTicks = task.sleepTicks
  nextTask : loadTask m t .nextTask = next

theorem Stored.congr (m m' : Mem) (t next : Word) (task : Sched.Task) (stored : Stored m t task next)
    (same : ∀ f, loadTask m' t f = loadTask m t f) : Stored m' t task next :=
  ⟨(same _).trans stored.pid, (same _).trans stored.ppid, (same _).trans stored.state, (same _).trans stored.cpuTime,
    (same _).trans stored.pageDir, (same _).trans stored.stack, (same _).trans stored.eip, (same _).trans stored.esp,
    (same _).trans stored.ebp, (same _).trans stored.sleepTicks, (same _).trans stored.nextTask⟩

-- The scheduler's model and the memory of the kernel tell of the same tasks, each in a block of its own.
structure Mirrors (bs : List Block) (k : Kernel) (s : Sched.State) : Prop where
  nPid : k.nPid = s.nPid
  currentPd : k.currentPd = s.currentPd
  tasks : ∀ t ∈ s.live, Stored k.heap.mem t (s.tasks t) (s.next t)
  blocks : ∀ t ∈ s.live, ∃ b ∈ bs, b.used ∧ b.payload = t ∧ taskSize.toNat + 20 ≤ b.size.toNat

def outcome (k k' : Kernel) (t : Word) : Sched.Alloc :=
  if t ≠ 0 then .made t k'.block else if k'.nPid = k.nPid then .noTask else .noStack

theorem failed_creation (base stop : Nat) (bs : List Block) (k k' : Kernel) (failed : Failed base stop bs k k') (s : Sched.State)
    (mirrors : Mirrors bs k s) (func : Word) :
    Sched.createKernelTask (outcome k k' 0) func s = .ok (0, { s with nPid := k'.nPid }) ∧ Mirrors bs k' { s with nPid := k'.nPid } := by
  constructor
  · rw [outcome, if_neg (not_not.mpr rfl)]
    rcases failed.nPid with same | drawn
    · rw [if_pos same, same, mirrors.nPid]
      rfl
    · have other : ¬ k'.nPid = k.nPid := by
        rw [drawn]
        bv_omega
      rw [if_neg other, drawn, mirrors.nPid]
      rfl
  · refine ⟨rfl, failed.currentPd.trans mirrors.currentPd, fun t member => ?_, mirrors.blocks⟩
    obtain ⟨b, inside, used, rfl, large⟩ := mirrors.blocks t member
    refine (mirrors.tasks b.payload member).congr k.heap.mem _ _ _ _ (fun f => ?_)
    refine read_congr k.heap.mem _ _ (fun x near => failed.bytes b inside used x ?_)
    have field : f.offset.toNat + 4 ≤ 48 := by cases f <;> decide
    have room : 48 + 20 ≤ b.size.toNat := large
    bv_omega

end Deimos.Task
