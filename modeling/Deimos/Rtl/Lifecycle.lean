import Deimos.Irq.Chains
import Deimos.Rtl.Model

set_option autoImplicit false

namespace Deimos.Rtl

open Comp LinkedQueue Run

-- The interrupt handlers and the network devices that there are, each in a
-- live block of its own.
structure World (s : State) (lists : Nat → List Irq.Entry) (nodes : Nat → List Word) (devs : List Word) : Prop
    extends Irq.Registered s.toState lists nodes where
  listed : Linked.Spells 0 s.netDevs devs
  held : ∀ d ∈ devs, d ∈ s.heap.live ∧ ∀ i < 256, d ∉ nodes i
  null : 0 ∉ s.heap.live

structure Running (s : State) (nodes : Nat → List Word) (devs : List Word) : Prop where
  netDev : s.rtlNetDev ∈ devs
  rxBuf : s.rxBuf ∈ s.heap.live ∧ s.rxBuf ∉ devs ∧ ∀ i < 256, s.rxBuf ∉ nodes i
  line : s.intline.toNat < 224

structure Restored (s s' : State) : Prop where
  devs : ∃ devs, Linked.Spells 0 s.netDevs devs ∧ Linked.Spells 0 s'.netDevs devs ∧ ∀ d ∈ devs, d ∈ s'.heap.live
  chains : ∀ interrupt : Word, interrupt.toNat < 256 →
    ∃ entries, (Irq.isrHandlers interrupt s.toState).Returns entries ∧ (Irq.isrHandlers interrupt s'.toState).Returns entries
  live : ∀ p, p ∈ s'.heap.live ↔ p ∈ s.heap.live

-- The driver cleans up properly: when the first allocation fails no receive
-- buffer of an earlier start is left to be freed, and after registering the
-- device request_irq will not fail.
def Clean : Op → State → Prop
  | .init answers, s => s.started = false → answers.found →
      (answers.netDev = 0 → s.rxBuf = 0) ∧
      (answers.netDev ≠ 0 → answers.rxBuf ≠ 0 → s.intline.toNat < 224 ∧
        ((s.cells (.table (s.intline.toNat + 32))).handler = 0 ∨ answers.node ≠ 0))
  | .kill, _ => True

section Worlds

variable {s s' : State} {lists : Nat → List Irq.Entry} {nodes : Nat → List Word} {devs : List Word}

theorem World.carry (world : World s lists nodes devs) (s' : State) (cells : s'.cells = s.cells) (head : s'.netDevs.head = s.netDevs.head)
    (next : ∀ d ∈ devs, s'.netDevs.next d = s.netDevs.next d) (null : 0 ∉ s'.heap.live)
    (live : ∀ p ∈ s.heap.live, (p ∈ devs ∨ ∃ i < 256, p ∈ nodes i) → p ∈ s'.heap.live) : World s' lists nodes devs := by
  refine ⟨?_, ?_, fun d member => ?_, null⟩
  · exact world.toRegistered.congr cells (fun i inside p member => live p (world.live i inside p member) (.inr ⟨i, inside, member⟩))
  · rw [Linked.Spells, head]
    exact world.listed.congr next
  · obtain ⟨here, apart⟩ := world.held d member
    exact ⟨live d here (.inl member), apart⟩

theorem World.take (world : World s lists nodes devs) (answer : Word) : World (s.take answer) lists nodes devs := by
  by_cases failed : answer = 0
  · apply world.carry (s.take answer) rfl rfl (fun _ _ => rfl)
    · rw [State.take, failed, Ledger.take_null]
      exact world.null
    · intro p member _
      rw [State.take, failed, Ledger.take_null]
      exact member
  · apply world.carry (s.take answer) rfl rfl (fun _ _ => rfl)
    · rw [State.take, Ledger.take_live failed, List.mem_cons, not_or]
      exact ⟨fun same => failed same.symm, world.null⟩
    · intro p member _
      rw [State.take, Ledger.take_live failed]
      exact List.mem_cons_of_mem answer member

theorem World.kfree (world : World s lists nodes devs) (p : Word) (outside : p ∉ devs) (apart : ∀ i < 256, p ∉ nodes i) :
    World (s.kfree p) lists nodes devs := by
  apply world.carry (s.kfree p) rfl rfl (fun _ _ => rfl)
  · exact fun member => world.null (Ledger.mem_free.mp member).1
  · intro q member owned
    refine Ledger.mem_free.mpr ⟨member, ?_⟩
    rintro rfl
    rcases owned with dev | ⟨i, inside, node⟩
    · exact outside dev
    · exact apart i inside node

theorem World.null_apart (world : World s lists nodes devs) : 0 ∉ devs ∧ ∀ i < 256, (0 : Word) ∉ nodes i :=
  ⟨fun member => world.listed.nonnull member rfl, fun i inside member => (world.slot i inside).nonnull 0 member rfl⟩

theorem World.fresh_apart (world : World s lists nodes devs) (p : Word) (fresh : p ∉ s.heap.live) :
    p ∉ devs ∧ ∀ i < 256, p ∉ nodes i :=
  ⟨fun member => fresh (world.held p member).1, fun i inside member => fresh (world.live i inside p member)⟩

theorem restored_of_worlds (world : World s lists nodes devs) (world' : World s' lists nodes devs)
    (live : ∀ p, p ∈ s'.heap.live ↔ p ∈ s.heap.live) : Restored s s' := by
  refine ⟨⟨devs, world.listed, world'.listed, fun d member => (world'.held d member).1⟩, fun interrupt inside => ?_, live⟩
  refine ⟨lists interrupt.toNat, ?_, ?_⟩
  · exact Irq.isr_handlers_returns s.toState interrupt _ _ inside (world.slot _ inside)
  · exact Irq.isr_handlers_returns s'.toState interrupt _ _ inside (world'.slot _ inside)

theorem clean_and_fail_world (world : World s lists nodes devs) (netDev : s.rtlNetDev ∉ devs ∧ ∀ i < 256, s.rtlNetDev ∉ nodes i)
    (rxBuf : s.rxBuf = 0) :
    World (cleanAndFail s).2 lists nodes devs ∧
      ∀ p, p ∈ (cleanAndFail s).2.heap.live ↔ p ∈ s.heap.live ∧ p ≠ s.rtlNetDev := by
  have first := world.kfree s.rtlNetDev netDev.1 netDev.2
  have second := first.kfree 0 world.null_apart.1 world.null_apart.2
  have same : (cleanAndFail s).2 = { (s.kfree s.rtlNetDev).kfree 0 with rtlNetDev := 0, rxBuf := 0 } := by
    rw [cleanAndFail, ← rxBuf]
    rfl
  rw [same]
  refine ⟨second.carry _ rfl rfl (fun _ _ => rfl) second.null (fun _ member _ => member), fun p => ?_⟩
  change p ∈ ((s.heap.free s.rtlNetDev).free 0).live ↔ _
  rw [Ledger.mem_free, Ledger.mem_free]
  constructor
  · exact fun member => member.1
  · exact fun member => ⟨member, fun null => world.null (null ▸ member.1)⟩

theorem clean_and_fail_sound (frees₀ : List (Word × List Word)) (since : Log.Since (Ledger.Sound 0) frees₀ s.heap.frees)
    (netDev : s.rtlNetDev = 0 ∨ s.rtlNetDev ∈ s.heap.live) (rxBuf : s.rxBuf = 0) :
    Log.Since (Ledger.Sound 0) frees₀ (cleanAndFail s).2.heap.frees := by
  apply Log.since_cons _ _ _ (.inl rxBuf)
  exact Log.since_cons _ _ _ netDev since

def Keeps (s s' : State) (nodes nodes' : Nat → List Word) : Prop :=
  ∀ p ∈ s.heap.live, (∀ i < 256, p ∉ nodes i) → p ∈ s'.heap.live ∧ ∀ i < 256, p ∉ nodes' i

theorem keeps_update (s s' : State) (nodes : Nat → List Word) (n : Nat) (nodes' : List Word) (inside : n < 256)
    (kept : ∀ p ∈ s.heap.live, p ∉ nodes n → p ∈ s'.heap.live ∧ p ∉ nodes') : Keeps s s' nodes (Function.update nodes n nodes') := by
  intro p member apart
  obtain ⟨live, outside⟩ := kept p member (apart n inside)
  refine ⟨live, fun i bound here => ?_⟩
  by_cases same : i = n
  · rw [same, Function.update_self] at here
    exact outside here
  · rw [Function.update_of_ne same] at here
    exact apart i bound here

theorem World.handlers (world : World s lists nodes devs) (irq : Irq.State) (lists' : Nat → List Irq.Entry) (nodes' : Nat → List Word)
    (registered : Irq.Registered irq lists' nodes') (null : 0 ∉ irq.heap.live) (keeps : Keeps s { s with toState := irq } nodes nodes') :
    World { s with toState := irq } lists' nodes' devs :=
  ⟨registered, world.listed, fun d member => keeps d (world.held d member).1 (world.held d member).2, null⟩

theorem World.request (world : World s lists nodes devs) (irq id handler answer : Word) (inside : (irq + 32).toNat < 256)
    (nonnull : handler ≠ 0) (fresh : s.heap.Fresh 0 answer)
    (served : (s.cells (.table (irq + 32).toNat)).handler = 0 ∨ answer ≠ 0) :
    ∃ t lists' nodes', (Irq.requestIrq irq id handler answer s.toState).Returns (0, t) ∧
      World { s with toState := t } lists' nodes' devs ∧ Keeps s { s with toState := t } nodes nodes' ∧ t.heap.frees = s.heap.frees := by
  obtain ⟨ret, t, nodes', returned, requested, registered⟩ :=
    world.toRegistered.request_irq irq id handler answer inside nonnull fresh
  have live := requested.mem_live (world.live _ inside)
  have keeps : Keeps s { s with toState := t } nodes (Function.update nodes (irq + 32).toNat nodes') :=
    keeps_update s _ nodes _ nodes' inside (fun p member apart =>
      ⟨(live p).mpr (.inl ⟨member, apart⟩), fun here => requested.fresh fresh p here apart member⟩)
  have null : (0 : Word) ∉ t.heap.live := by
    intro member
    rcases (live 0).mp member with ⟨old, -⟩ | new
    · exact world.null old
    · have after := registered.slot _ inside
      rw [Function.update_self, Function.update_self] at after
      exact after.nonnull 0 new rfl
  have zero : ret = 0 ∧ t.heap.frees = s.heap.frees := by
    cases requested with
    | refused taken failed same =>
        have empty := (world.slot _ inside).empty_iff.mp (served.resolve_right (fun some => some failed))
        exact absurd empty taken
    | first none heap => exact ⟨rfl, by rw [heap]⟩
    | appended taken served heap => exact ⟨rfl, by rw [heap, Ledger.take_frees]⟩
  rw [zero.1] at returned
  exact ⟨t, _, _, returned, world.handlers t _ _ registered null keeps, keeps, zero.2⟩

theorem World.release (world : World s lists nodes devs) (irq id : Word) (inside : (irq + 32).toNat < 256)
    (frees₀ : List (Word × List Word)) (frees : Log.Since (Ledger.Sound 0) frees₀ s.heap.frees) :
    ∃ t lists' nodes', (Irq.releaseIrq irq id s.toState).Returns t ∧ World { s with toState := t } lists' nodes' devs ∧
      Keeps s { s with toState := t } nodes nodes' ∧ Log.Since (Ledger.Sound 0) frees₀ t.heap.frees := by
  obtain ⟨t, nodes', returned, released, registered⟩ := world.toRegistered.release_irq irq id inside
  have live := released.mem_live (world.slot _ inside).nodes_nodup (world.live _ inside)
  have keeps : Keeps s { s with toState := t } nodes (Function.update nodes (irq + 32).toNat nodes') :=
    keeps_update s _ nodes _ nodes' inside (fun p member apart =>
      ⟨(live p).mpr (.inl ⟨member, apart⟩), fun here => apart (released.subset p here)⟩)
  have null : (0 : Word) ∉ t.heap.live := by
    intro member
    rcases (live 0).mp member with ⟨old, -⟩ | new
    · exact world.null old
    · exact world.null_apart.2 _ inside (released.subset 0 new)
  have sound : Log.Since (Ledger.Sound 0) frees₀ t.heap.frees := by
    have held := world.live _ inside
    generalize nodes (irq + 32).toNat = before at released held
    cases released with
    | kept _ same =>
        rw [same]
        exact frees
    | freed front back p gone =>
        rw [gone]
        exact Log.since_cons _ _ _ (.inr (held p (by simp))) frees
  exact ⟨t, _, _, returned, world.handlers t _ _ registered null keeps, keeps, sound⟩

end Worlds

structure Inv (frees₀ : List (Word × List Word)) (s : State) : Prop where
  world : ∃ lists nodes devs, World s lists nodes devs ∧ (s.started = true → Running s nodes devs)
  frees : Log.Since (Ledger.Sound 0) frees₀ s.heap.frees

structure InitOutcome (frees₀ : List (Word × List Word)) (s : State) (ret : Word) (s' : State) : Prop where
  inv : Inv frees₀ s'
  failed : ret = 1 → Restored s s'

section Calls

variable (image : Image) (frees₀ : List (Word × List Word)) (s : State)

theorem failed_outcome (lists : Nat → List Irq.Entry) (nodes : Nat → List Word) (devs : List Word) (world : World s lists nodes devs)
    (frees : Log.Since (Ledger.Sound 0) frees₀ s.heap.frees) (t : State) (world' : World t lists nodes devs)
    (fresh : s.heap.Fresh 0 t.rtlNetDev) (heap : t.heap = s.heap.take 0 t.rtlNetDev) (rxBuf : t.rxBuf = 0) (idle : t.started = false) :
    ∃ ret s', (pure (cleanAndFail t) : Comp Stop (Word × State)).Returns (ret, s') ∧ InitOutcome frees₀ s ret s' := by
  have apart : t.rtlNetDev ∉ devs ∧ ∀ i < 256, t.rtlNetDev ∉ nodes i := by
    by_cases null : t.rtlNetDev = 0
    · rw [null]
      exact world.null_apart
    · exact world.fresh_apart t.rtlNetDev (fresh.resolve_left null)
  have mine : t.rtlNetDev = 0 ∨ t.rtlNetDev ∈ t.heap.live := by
    by_cases null : t.rtlNetDev = 0
    · exact .inl null
    · rw [heap, Ledger.take_live null]
      exact .inr List.mem_cons_self
  obtain ⟨after, live⟩ := clean_and_fail_world world' apart rxBuf
  have back (p : Word) : p ∈ (cleanAndFail t).2.heap.live ↔ p ∈ s.heap.live := by
    rw [live, heap]
    by_cases null : t.rtlNetDev = 0
    · rw [null, Ledger.take_null]
      exact and_iff_left_of_imp (fun member same => world.null (same ▸ member))
    · have absent := fresh.resolve_left null
      rw [Ledger.take_live null, List.mem_cons]
      constructor
      · exact fun member => member.1.resolve_left member.2
      · exact fun member => ⟨.inr member, fun same => absent (same ▸ member)⟩
  refine ⟨1, (cleanAndFail t).2, (ends_pure _ _).mpr rfl, ⟨⟨lists, nodes, devs, after, ?_⟩, ?_⟩, fun _ => ?_⟩
  · intro running
    rw [show (cleanAndFail t).2.started = t.started from rfl, idle] at running
    exact absurd running Bool.false_ne_true
  · apply clean_and_fail_sound frees₀ _ mine rxBuf
    rw [heap, Ledger.take_frees]
    exact frees
  · exact restored_of_worlds world after back

structure Ready (s : State) (nodes : Nat → List Word) (devs : List Word) : Prop where
  netDev : s.rtlNetDev ∈ s.heap.live ∧ s.rtlNetDev ∉ devs ∧ ∀ i < 256, s.rtlNetDev ∉ nodes i
  rxBuf : s.rxBuf ∈ s.heap.live ∧ s.rxBuf ∉ devs ∧ ∀ i < 256, s.rxBuf ∉ nodes i
  apart : s.rxBuf ≠ s.rtlNetDev
  ethernet : s.types s.rtlNetDev = NETDEV_ETHERNET
  line : s.intline.toNat < 224

theorem line_inside (line : s.intline.toNat < 224) :
    (s.intline.setWidth 32 + 32).toNat = s.intline.toNat + 32 ∧ (s.intline.setWidth 32 + 32).toNat < 256 := by
  constructor <;> bv_omega

theorem register_net_dev_returns (lists : Nat → List Irq.Entry) (nodes : Nat → List Word) (devs : List Word)
    (world : World s lists nodes devs) (ready : Ready s nodes devs) :
    ∃ l, (registerNetDev s.rtlNetDev s).Returns (0, { s with netDevs := l }) ∧
      World { s with netDevs := l } lists nodes (devs ++ [s.rtlNetDev]) := by
  obtain ⟨live, fresh, apart⟩ := ready.netDev
  have nonnull : s.rtlNetDev ≠ 0 := fun null => world.null (null ▸ live)
  obtain ⟨l, returned, spells, -⟩ := Linked.append_returns world.listed nonnull fresh (fun _ _ => rfl)
  refine ⟨l, ?_, world.toRegistered, spells, fun d member => ?_, world.null⟩
  · unfold registerNetDev
    rw [if_neg nonnull, if_pos ready.ethernet]
    exact (ends_bind_of_returns _ _ _ _ returned).mpr ((ends_pure _ _).mpr rfl)
  · rcases List.mem_append.mp member with old | here
    · exact world.held d old
    · rw [List.mem_singleton.mp here]
      exact ⟨live, apart⟩

theorem start_outcome (lists : Nat → List Irq.Entry) (nodes : Nat → List Word) (devs : List Word)
    (world : World s lists nodes devs) (ready : Ready s nodes devs) (answer : Word) (fresh : s.heap.Fresh 0 answer)
    (served : (s.cells (.table (s.intline.toNat + 32))).handler = 0 ∨ answer ≠ 0)
    (frees : Log.Since (Ledger.Sound 0) frees₀ s.heap.frees) :
    ∃ l irq, (registerNetDev s.rtlNetDev s).Returns (0, { s with netDevs := l }) ∧
      (Irq.requestIrq (s.intline.setWidth 32) image.id image.handler answer s.toState).Returns (0, irq) ∧
      Inv frees₀ { s with toState := irq, netDevs := l, started := true } := by
  obtain ⟨l, registered, world'⟩ := register_net_dev_returns s lists nodes devs world ready
  obtain ⟨index, inside⟩ := line_inside s ready.line
  rw [← index] at served
  obtain ⟨irq, lists', nodes', returned, final, keeps, same⟩ :=
    world'.request (s.intline.setWidth 32) image.id image.handler answer inside image.nonnull fresh served
  refine ⟨l, irq, registered, returned, ⟨⟨lists', nodes', devs ++ [s.rtlNetDev], ?_, fun _ => ?_⟩, ?_⟩⟩
  · exact final.carry _ rfl rfl (fun _ _ => rfl) final.null (fun _ member _ => member)
  · obtain ⟨live, apart⟩ := keeps s.rxBuf ready.rxBuf.1 ready.rxBuf.2.2
    have outside : s.rxBuf ∉ devs ++ [s.rtlNetDev] := by
      rw [List.mem_append, List.mem_singleton, not_or]
      exact ⟨ready.rxBuf.2.1, ready.apart⟩
    exact ⟨by simp, ⟨live, outside, apart⟩, ready.line⟩
  · change Log.Since _ _ irq.heap.frees
    rw [same]
    exact frees

theorem init_outcome (inv : Inv frees₀ s) (answers : Answers) (idle : s.started = false) (allowed : Allowed (.init answers) s)
    (clean : Clean (.init answers) s) :
    ∃ ret s', (rtlModuleInit image answers s).Returns (ret, s') ∧ InitOutcome frees₀ s ret s' := by
  obtain ⟨⟨lists, nodes, devs, world, -⟩, frees⟩ := inv
  obtain ⟨netDevFresh, rxBufFresh, nodeFresh⟩ := allowed
  have quiet : ∃ ret s', (pure (1, s) : Comp Stop (Word × State)).Returns (ret, s') ∧ InitOutcome frees₀ s ret s' := by
    refine ⟨1, s, (ends_pure _ _).mpr rfl, ⟨⟨lists, nodes, devs, world, ?_⟩, frees⟩, fun _ => ?_⟩
    · simp [idle]
    · exact restored_of_worlds world world (fun _ => Iff.rfl)
  unfold rtlModuleInit
  rw [if_neg (by simp [idle])]
  by_cases found : answers.found
  · rw [if_neg (by simp [found])]
    obtain ⟨noBuffer, served⟩ := clean idle found
    have taken := world.take answers.netDev
    let t₁ : State := { s.take answers.netDev with rtlNetDev := answers.netDev }
    have world₁ : World t₁ lists nodes devs := taken.carry t₁ rfl rfl (fun _ _ => rfl) taken.null (fun _ member _ => member)
    by_cases failed : answers.netDev = 0
    · rw [if_pos (by exact failed)]
      exact failed_outcome frees₀ s lists nodes devs world frees t₁ world₁ netDevFresh rfl (noBuffer failed) idle
    · rw [if_neg (by exact failed)]
      have apart := world.fresh_apart answers.netDev (netDevFresh.resolve_left failed)
      let t₂ : State :=
        { t₁ with
          netDevs := { s.netDevs with next := Function.update s.netDevs.next answers.netDev 0 }
          types := Function.update s.types answers.netDev NETDEV_ETHERNET }
      have world₂ : World t₂ lists nodes devs := by
        apply world₁.carry t₂ rfl rfl _ taken.null (fun _ member _ => member)
        exact fun d member => Function.update_of_ne (fun same : d = answers.netDev => apart.1 (same ▸ member)) _ _
      have world₃ := world₂.take answers.rxBuf
      let t₃ : State := { t₂.take answers.rxBuf with rxBuf := answers.rxBuf }
      have world₃ : World t₃ lists nodes devs := world₃.carry t₃ rfl rfl (fun _ _ => rfl) world₃.null (fun _ member _ => member)
      by_cases noRx : answers.rxBuf = 0
      · rw [if_pos (by exact noRx)]
        apply failed_outcome frees₀ s lists nodes devs world frees t₃ world₃ netDevFresh _ noRx idle
        change (s.heap.take 0 answers.netDev).take 0 answers.rxBuf = _
        rw [noRx, Ledger.take_null]
        rfl
      · rw [if_neg (by exact noRx)]
        obtain ⟨line, served⟩ := served failed noRx
        have rxFresh := rxBufFresh.resolve_left noRx
        rw [Ledger.take_live failed, List.mem_cons, not_or] at rxFresh
        have live : t₃.heap.live = answers.rxBuf :: answers.netDev :: s.heap.live := by
          change ((s.heap.take 0 answers.netDev).take 0 answers.rxBuf).live = _
          rw [Ledger.take_live noRx, Ledger.take_live failed]
        have ready : Ready t₃ nodes devs := by
          refine ⟨⟨?_, apart⟩, ⟨?_, world.fresh_apart answers.rxBuf rxFresh.2⟩, rxFresh.1, Function.update_self _ _ _, line⟩
          · rw [live]
            exact List.mem_cons_of_mem _ List.mem_cons_self
          · rw [live]
            exact List.mem_cons_self
        have same : t₃.heap.frees = s.heap.frees := by
          change ((s.heap.take 0 answers.netDev).take 0 answers.rxBuf).frees = _
          rw [Ledger.take_frees, Ledger.take_frees]
        obtain ⟨l, irq, registered, requested, inv⟩ := start_outcome image frees₀ t₃ lists nodes devs world₃ ready answers.node nodeFresh
          served (by rw [same]; exact frees)
        refine ⟨0, { t₃ with toState := irq, netDevs := l, started := true }, ?_, inv, fun one => absurd one (by decide)⟩
        apply (ends_bind_of_returns _ _ _ _ registered).mpr
        apply (ends_bind_of_returns _ _ _ _ requested).mpr
        exact (ends_pure _ _).mpr rfl
  · rw [if_pos (by simp [found])]
    exact quiet

theorem kill_outcome (inv : Inv frees₀ s) (running : s.started = true) :
    ∃ s', (rtlModuleKill image s).Returns (0, s') ∧ Inv frees₀ s' := by
  obtain ⟨⟨lists, nodes, devs, world, holds⟩, frees⟩ := inv
  obtain ⟨netDev, ⟨rxLive, rxOutside, rxApart⟩, line⟩ := holds running
  obtain ⟨-, inside⟩ := line_inside s line
  obtain ⟨irq, lists', nodes', released, world', keeps, frees'⟩ := world.release (s.intline.setWidth 32) image.id inside frees₀ frees
  obtain ⟨ys, zs, shape⟩ := List.append_of_mem netDev
  have spells := world'.listed
  rw [shape] at spells
  obtain ⟨l, removed, after, -⟩ := Linked.remove_returns spells (fun _ _ => rfl : ∀ _ _, (.ok () : Except Stop Unit) = .ok ())
  have nonnull : s.rtlNetDev ≠ 0 := world'.listed.nonnull netDev
  have some : s.netDevs.head ≠ 0 := fun null => List.ne_nil_of_mem netDev (world.listed.head_eq_null.mp null)
  have returned : (removeNetDev s.rtlNetDev { s with toState := irq }).Returns (0, { s with toState := irq, netDevs := l }) := by
    unfold removeNetDev
    rw [if_neg (not_or.mpr ⟨nonnull, some⟩)]
    exact (ends_bind_of_returns _ _ _ _ removed).mpr ((ends_pure _ _).mpr rfl)
  have inner : ∀ d ∈ ys ++ zs, d ∈ devs := by
    intro d member
    rw [shape]
    rcases List.mem_append.mp member with early | late
    · exact List.mem_append_left _ early
    · exact List.mem_append_right _ (List.mem_cons_of_mem _ late)
  have left : World { s with toState := irq, netDevs := l } lists' nodes' (ys ++ zs) :=
    ⟨world'.toRegistered, after, fun d member => world'.held d (inner d member), world'.null⟩
  have gone : s.rtlNetDev ∉ ys ++ zs := by
    have middle : (ys ++ s.rtlNetDev :: zs).Perm (s.rtlNetDev :: (ys ++ zs)) := List.perm_middle
    exact (List.nodup_cons.mp (middle.nodup_iff.mp spells.nodup)).1
  obtain ⟨netDevLive, netDevApart⟩ := world'.held s.rtlNetDev netDev
  obtain ⟨rxLive', rxApart'⟩ := keeps s.rxBuf rxLive rxApart
  have first := left.kfree s.rtlNetDev gone netDevApart
  have second := first.kfree s.rxBuf (fun member => rxOutside (inner _ member)) rxApart'
  have still : s.rxBuf ∈ (irq.heap.free s.rtlNetDev).live :=
    Ledger.mem_free.mpr ⟨rxLive', fun same => rxOutside (same ▸ netDev)⟩
  let s' : State := { ({ s with toState := irq, netDevs := l } : State).kfree s.rtlNetDev |>.kfree s.rxBuf with started := false }
  have world'' : World s' lists' nodes' (ys ++ zs) :=
    second.carry s' rfl rfl (fun _ _ => rfl) second.null (fun _ member _ => member)
  refine ⟨s', ?_, ⟨⟨lists', nodes', ys ++ zs, world'', ?_⟩, ?_⟩⟩
  · unfold rtlModuleKill
    rw [if_neg (by simp [running])]
    apply (ends_bind_of_returns _ _ _ _ released).mpr
    apply (ends_bind_of_returns _ _ _ _ returned).mpr
    exact (ends_pure _ _).mpr rfl
  · intro still
    exact absurd still Bool.false_ne_true
  · apply Log.since_cons _ _ _ (.inr still)
    exact Log.since_cons _ _ _ (.inr netDevLive) frees'

theorem step_inv (s' : State) (inv : Inv frees₀ s) (step : Step image Clean s s') : Inv frees₀ s' := by
  obtain ⟨op, ret, allowed, clean, returned⟩ := step
  cases op with
  | init answers =>
      by_cases started : s.started = true
      · have same : (rtlModuleInit image answers s).Returns (1, s) := by
          unfold rtlModuleInit
          rw [if_pos started]
          exact (ends_pure _ _).mpr rfl
        cases returns_unique _ _ _ returned same
        exact inv
      · obtain ⟨ret', t, returned', outcome⟩ := init_outcome image frees₀ s inv answers (eq_false_of_ne_true started) allowed clean
        cases returns_unique _ _ _ returned returned'
        exact outcome.inv
  | kill =>
      by_cases running : s.started = true
      · obtain ⟨t, returned', after⟩ := kill_outcome image frees₀ s inv running
        cases returns_unique _ _ _ returned returned'
        exact after
      · have same : (rtlModuleKill image s).Returns (1, s) := by
          unfold rtlModuleKill
          rw [if_pos (by simpa using running)]
          exact (ends_pure _ _).mpr rfl
        cases returns_unique _ _ _ returned same
        exact inv

end Calls

structure Idle (s : State) : Prop where
  world : ∃ lists nodes devs, World s lists nodes devs
  started : s.started = false

theorem rtl_lifecycle (image : Image) (s₀ s : State) (idle : Idle s₀) (run : Reaches (Step image Clean) s₀ s) :
    Log.Since (Ledger.Sound 0) s₀.heap.frees s.heap.frees ∧
    ∀ answers s', Allowed (.init answers) s → Clean (.init answers) s → s.started = false →
      (rtlModuleInit image answers s).Returns (1, s') → Restored s s' := by
  have inv : Inv s₀.heap.frees s := by
    apply invariant (Inv s₀.heap.frees) (step_inv image s₀.heap.frees) s₀ s _ run
    obtain ⟨lists, nodes, devs, world⟩ := idle.world
    exact ⟨⟨lists, nodes, devs, world, by simp [idle.started]⟩, Log.since_refl _⟩
  refine ⟨inv.frees, fun answers s' allowed clean stopped returned => ?_⟩
  obtain ⟨ret, t, returned', outcome⟩ := init_outcome image s₀.heap.frees s inv answers stopped allowed clean
  cases returns_unique _ _ _ returned returned'
  exact outcome.failed rfl

def cold (intline : BitVec 8) : State :=
  { cells := fun _ => ⟨0, 0, 0⟩, ports := fun _ => 0, heap := ⟨[], []⟩, netDevs := ⟨0, fun _ => 0⟩, types := fun _ => 0,
    rtlNetDev := 0, rxBuf := 0, started := false, intline := intline }

def driver : Image := ⟨0xC0140000, 0xC0100000, by decide⟩

theorem cold_idle (intline : BitVec 8) : Idle (cold intline) := by
  refine ⟨⟨fun _ => [], fun _ => [], [], ⟨fun i _ => Irq.slot_clear _ i rfl, by simp, by simp⟩, queue_empty, by simp, by simp [cold]⟩, rfl⟩

def served : Answers := ⟨true, 0xC0201000, 0xC0210000, 0⟩

def noMemory : Answers := ⟨true, 0, 0, 0⟩

def stateAfter (call : Comp Stop (Word × State)) (s : State) : State :=
  match call.run 3 with
  | some (.ok (_, s')) => s'
  | _ => s

def anyCall (_ : Op) (_ : State) : Prop := True

def refused : State := stateAfter (rtlModuleInit driver served (cold 255)) (cold 255)

def started : State := stateAfter (rtlModuleInit driver served (cold 11)) (cold 11)
def stopped : State := stateAfter (rtlModuleKill driver started) started
def restarted : State := stateAfter (rtlModuleInit driver noMemory stopped) stopped

theorem served_allowed (intline : BitVec 8) : Allowed (.init served) (cold intline) := by
  refine ⟨.inr ?_, .inr ?_, .inl rfl⟩
  · exact List.not_mem_nil
  · change (0xC0210000 : Word) ∉ [(0xC0201000 : Word)]
    decide

theorem rtl_lifecycle_fails :
    (¬∀ image s₀ s, Idle s₀ → Reaches (Step image anyCall) s₀ s → ∀ answers s', Allowed (.init answers) s → s.started = false →
      (rtlModuleInit image answers s).Returns (1, s') → Restored s s') ∧
    ¬∀ image s₀ s, Idle s₀ → Reaches (Step image anyCall) s₀ s → Log.Since (Ledger.Sound 0) s₀.heap.frees s.heap.frees := by
  constructor
  · intro claim
    have returned : (rtlModuleInit driver served (cold 255)).Returns (1, refused) := ⟨3, rfl⟩
    obtain ⟨⟨devs, before, after, -⟩, -, -⟩ :=
      claim driver (cold 255) (cold 255) (cold_idle 255) .refl served refused (served_allowed 255) rfl returned
    have none : devs = [] := before.head_eq_null.mp rfl
    have head : refused.netDevs.head = 0 := after.head_eq_null.mpr none
    exact absurd head (by decide)
  · intro claim
    have first : Step driver anyCall (cold 11) started := ⟨.init served, 0, served_allowed 11, trivial, ⟨3, rfl⟩⟩
    have second : Step driver anyCall started stopped := ⟨.kill, 0, trivial, trivial, ⟨3, rfl⟩⟩
    have third : Step driver anyCall stopped restarted :=
      ⟨.init noMemory, 1, ⟨.inl rfl, .inl rfl, .inl rfl⟩, trivial, ⟨3, rfl⟩⟩
    have run : Reaches (Step driver anyCall) (cold 11) restarted := ((Relation.ReflTransGen.single first).tail second).tail third
    obtain ⟨later, shape, sound⟩ := claim driver (cold 11) restarted (cold_idle 11) run
    have call : ((0xC0210000 : Word), ([] : List Word)) ∈ restarted.heap.frees := List.mem_cons_self
    rw [shape] at call
    rcases List.mem_append.mp call with here | old
    · rcases sound _ here with null | live
      · exact absurd null (by decide)
      · exact absurd live List.not_mem_nil
    · exact absurd old List.not_mem_nil

def halfMemory : Answers := ⟨true, 0xC0201000, 0, 0⟩
def failed : State := stateAfter (rtlModuleInit driver halfMemory (cold 11)) (cold 11)
def startedLater : State := stateAfter (rtlModuleInit driver served failed) failed
def stoppedLater : State := stateAfter (rtlModuleKill driver startedLater) startedLater

theorem rtl_lifecycle_stopped : Reaches (Step driver Clean) (cold 11) stoppedLater ∧
    Log.Since (Ledger.Sound 0) [] stoppedLater.heap.frees ∧ stoppedLater.heap.live = [] ∧ Restored (cold 11) failed := by
  have allowed : Allowed (.init halfMemory) (cold 11) := ⟨.inr List.not_mem_nil, .inl rfl, .inl rfl⟩
  have clean : Clean (.init halfMemory) (cold 11) := fun _ _ => ⟨fun null => absurd null (by decide), fun _ none => absurd rfl none⟩
  have returned : (rtlModuleInit driver halfMemory (cold 11)).Returns (1, failed) := ⟨3, rfl⟩
  have first : Step driver Clean (cold 11) failed := ⟨.init halfMemory, 1, allowed, clean, returned⟩
  have second : Step driver Clean failed startedLater :=
    ⟨.init served, 0, ⟨.inr List.not_mem_nil, .inr (show (0xC0210000 : Word) ∉ [(0xC0201000 : Word)] by decide), .inl rfl⟩,
      fun _ _ => ⟨fun null => absurd null (by decide), fun _ _ => ⟨by decide, .inl rfl⟩⟩, ⟨3, rfl⟩⟩
  have third : Step driver Clean startedLater stoppedLater := ⟨.kill, 0, trivial, trivial, ⟨3, rfl⟩⟩
  have run := ((Relation.ReflTransGen.single first).tail second).tail third
  exact ⟨run, (rtl_lifecycle driver (cold 11) stoppedLater (cold_idle 11) run).1, by decide,
    (rtl_lifecycle driver (cold 11) (cold 11) (cold_idle 11) .refl).2 halfMemory failed allowed clean rfl returned⟩

end Deimos.Rtl
