import Deimos.Kalloc.Update

set_option autoImplicit false

namespace Deimos.Kalloc

open Mem Tiling Comp Run

def Call (r r' : HeapRun) : Prop := ∃ limit, Step limit r r'

abbrev Calls : HeapRun → HeapRun → Prop := Reaches Call

-- What the calls of all tasks have made of the heap, and the statement at
-- which one call was left.
structure Machine where
  run : HeapRun
  point : Option Point

-- A call begins, goes on by a statement or returns, or other tasks get the
-- processor. What kfree is given belongs to nobody else from the start.
inductive Move (fine : HeapRun → HeapRun → Point → Prop) : Machine → Machine → Prop
  | kmalloc (r : HeapRun) (q : Request) : Move fine ⟨r, none⟩ ⟨r, some (.enter q)⟩
  | kfree (r : HeapRun) (ptr : Word) (known : ptr = 0 ∨ ptr ∈ r.live.map Live.ptr) :
      Move fine ⟨r, none⟩ ⟨⟨r.heap, drop ptr r.live⟩, some (.freeEnter ptr)⟩
  | statement (r : HeapRun) (p p' : Point) (m : Mem) (ran : statement r.heap p = .ok (m, p')) :
      Move fine ⟨r, some p⟩ ⟨⟨{ r.heap with mem := m }, r.live⟩, some p'⟩
  | preempt (r r' : HeapRun) (p : Option Point) (calls : Calls r r') (resumes : ∀ here, p = some here → fine r r' here) :
      Move fine ⟨r, p⟩ ⟨r', p⟩
  | allocated (r : HeapRun) (q : Request) (ptr : Word) :
      Move fine ⟨r, some (.allocated q ptr)⟩ ⟨⟨r.heap, keep q.align q.size ptr r.live⟩, none⟩
  | freed (r : HeapRun) : Move fine ⟨r, some .freed⟩ ⟨r, none⟩

-- The call can go on where it was left: what it has found still holds, and
-- the list was left alone while it was being changed.
def Undisturbed (r r' : HeapRun) (p : Point) : Prop := (p.updating → r' = r) ∧ (¬p.updating → Found r'.heap p)

section Others

variable {base stop : Nat} {s : Heap} {bs bs' : List Block} {live : List Live} {m m' : Mem} {b : Block} {h dist : Word}

theorem Held.claim (held : Held base stop s bs live) (ptr : Word) (member : ptr ∈ live.map Live.ptr) :
    Held base stop s bs (⟨ptr, 0, false⟩ :: drop ptr live) := by
  have absent : ptr ∉ (drop ptr live).map Live.ptr := fun still => ((mem_drop ptr ptr).mp still).2 rfl
  refine ⟨held.wf, fun p => ?_, ?_, fun l inside => ?_⟩
  · rw [List.map_cons, List.mem_cons, mem_drop, ← held.pointers]
    constructor
    · rintro (rfl | known)
      · exact member
      · exact known.1
    · exact fun known => (eq_or_ne p ptr).imp id (fun other => ⟨known, other⟩)
  · exact List.nodup_cons.mpr ⟨absent, held.distinct.sublist (List.filter_sublist.map Live.ptr)⟩
  · rcases List.mem_cons.mp inside with rfl | kept
    · obtain ⟨b, inside, used, same⟩ := (held.pointers ptr).mp member
      have bounds := held.wf.bounds inside
      exact ⟨b, inside, used, same, fun _ => bounds.2.1⟩
    · exact held.room l (List.mem_of_mem_filter kept)

theorem building_kept (layout : Layout base stop bs) (member : b ∈ bs) (size : load m b.addr .size = b.size)
    (same : ∀ f, f = .size ∨ f = .allocated → load m' b.addr f = load m b.addr f)
    (bytes : ∀ x : Word, (x - b.payload).toNat + 20 < b.size.toNat → m' x = m x) (here : SplitAt)
    (built : Building m b.addr dist here) : Building m' b.addr dist here := by
  have sizes := same .size (.inl rfl)
  have flags := same .allocated (.inr rfl)
  have header (cut : Splittable m b.addr dist) (f : Field) : load m' (b.addr + dist) f = load m (b.addr + dist) f := by
    have cuttable : b.Cuttable dist := by
      rw [Block.Cuttable, ← size]
      exact cut
    have bounds := layout.bounds member
    obtain ⟨low, high⟩ := cuttable_bounds b dist bounds.2.1 cuttable
    have bound := layout.bound
    refine read_congr m m' _ (fun x near => bytes x ?_)
    have inside := field_inside f
    simp only [Block.payload, headerSize]
    bv_omega
  have splittable : Splittable m' b.addr dist ↔ Splittable m b.addr dist := by rw [Splittable, Splittable, sizes]
  cases here with
  | addr | size => exact splittable.mpr built
  | allocated =>
      refine ⟨splittable.mpr built.1, ?_⟩
      rw [header built.1, sizes]
      exact built.2
  | magic =>
      refine ⟨splittable.mpr built.1, ?_⟩
      rw [header built.1, header built.1, sizes, flags]
      exact built.2
  | cut =>
      refine ⟨splittable.mpr built.1, ?_⟩
      rw [header built.1, header built.1, header built.1, sizes, flags]
      exact built.2
  | _ => trivial

theorem own_kept {s' : Heap} (p : Point) (held : Held base stop s bs (hidden p ++ live)) (after : WellFormed base stop s' bs')
    (keeps : Keeps bs bs' s.mem s'.mem (hidden p)) (own : Own s.mem p) : Own s'.mem p := by
  cases p with
  | split f h dist here =>
      cases f with
      | front q => exact own
      | rest q => exact own
      | back q =>
          refine ⟨own.1, ?_⟩
          by_cases left : here = .leave
          · subst left
            trivial
          have mine : (hidden (.split (.back q) h dist here)).map Live.ptr = [h + headerSize] := by
            cases here <;> first | exact absurd rfl left | rfl
          obtain ⟨b, member, used, same⟩ := (held.pointers (h + headerSize)).mp (by rw [List.map_append, mine]; simp)
          obtain rfl : b.addr = h := payload_inj b ⟨h, 0, false⟩ same
          have kept := keeps.blocks b member used (by rw [mine]; exact List.mem_singleton_self _)
          have bytes := keeps.bytes b member used (by rw [mine]; exact List.mem_singleton_self _)
          obtain ⟨pre, post, rfl⟩ := List.append_of_mem member
          have before := held.wf.header
          obtain ⟨pre', post', rfl⟩ := List.append_of_mem kept
          have now := after.header
          refine building_kept held.wf.toLayout member before.size (fun f which => ?_) bytes here own.2
          rcases which with rfl | rfl
          · exact now.size.trans before.size.symm
          · exact now.allocated.trans before.allocated.symm
  | _ => trivial

theorem call_ready (top : stop + 8192 < 2 ^ 32) (r r' : HeapRun) (p : Point) (held : Held base stop r.heap bs (hidden p ++ r.live))
    (own : Own r.heap.mem p) (call : Call r r') :
    ∃ bs', Held base stop r'.heap bs' (hidden p ++ r'.live) ∧ Own r'.heap.mem p := by
  have allocates (size ptr : Word) (align : Bool) (s' : Heap) (returned : (kmallocInt size align r.heap).Returns (ptr, s')) :
      ∃ bs', Held base stop s' bs' (hidden p ++ keep align size ptr r.live) ∧ Own s'.mem p := by
    obtain ⟨bs', after, keeps⟩ := held.kmalloc_int top (hidden p) size ptr align returned
    refine ⟨bs', ?_, own_kept p held after.wf keeps own⟩
    by_cases null : ptr = 0
    · rw [keep, if_pos null] at after ⊢
      exact after
    · rw [keep, if_neg null] at after ⊢
      exact after.perm List.perm_middle.symm
  obtain ⟨limit, call⟩ := call
  cases call with
  | kmalloc size ptr s' small returned => exact allocates size ptr false s' returned
  | kmallocA size ptr s' small returned => exact allocates size ptr true s' returned
  | kfree ptr s' known returned =>
      have shared : ptr ∉ (hidden p).map Live.ptr := by
        intro mine
        rcases known with rfl | live
        · exact held.nonnull (by omega) 0 (by rw [List.map_append]; exact List.mem_append_left _ mine) rfl
        · have distinct := held.distinct
          rw [List.map_append, List.nodup_append] at distinct
          exact distinct.2.2 ptr mine ptr live rfl
      have member : ptr = 0 ∨ ptr ∈ (hidden p ++ r.live).map Live.ptr :=
        known.imp_right (fun live => by rw [List.map_append]; exact List.mem_append_right _ live)
      obtain ⟨bs', after, keeps⟩ := held.kfree top (hidden p) ptr member shared returned
      have mine : drop ptr (hidden p) = hidden p := by
        refine List.filter_eq_self.mpr (fun l inside => decide_eq_true (fun same => shared ?_))
        exact same ▸ List.mem_map_of_mem inside
      have split : drop ptr (hidden p ++ r.live) = hidden p ++ drop ptr r.live := by
        rw [drop, List.filter_append]
        exact congrArg (· ++ drop ptr r.live) mine
      rw [split] at after
      exact ⟨bs', after, own_kept p held after.wf keeps own⟩

theorem calls_ready (top : stop + 8192 < 2 ^ 32) (r r' : HeapRun) (p : Point) (held : Held base stop r.heap bs (hidden p ++ r.live))
    (own : Own r.heap.mem p) (calls : Calls r r') : ∃ bs', Held base stop r'.heap bs' (hidden p ++ r'.live) ∧ Own r'.heap.mem p := by
  induction calls with
  | refl => exact ⟨bs, held, own⟩
  | tail before call ih =>
      obtain ⟨bs, held, own⟩ := ih
      exact call_ready top _ _ p held own call

end Others

def Kept (base stop : Nat) (a : Machine) : Prop :=
  match a.point with
  | none => ∃ bs, Held base stop a.run.heap bs a.run.live
  | some p => ∃ m bs, Halfway base stop a.run.heap a.run.live p m bs

section Moves

variable {base stop : Nat}

theorem preempt_kept (top : stop + 8192 < 2 ^ 32) (r r' : HeapRun) (p : Point) (kept : Kept base stop ⟨r, some p⟩) (calls : Calls r r')
    (fine : Undisturbed r r' p) : Kept base stop ⟨r', some p⟩ := by
  obtain ⟨m, bs, half⟩ := kept
  by_cases calm : p.began = p
  · obtain ⟨held, -, own⟩ := halfway_ready calm half
    obtain ⟨bs', held, own⟩ := calls_ready top r r' p held own calls
    have found : Found r'.heap p := fine.2 (fun updating => updating calm)
    exact ⟨r'.heap.mem, bs', ready_halfway calm ⟨held, found, own⟩⟩
  · rw [fine.1 calm]
    exact ⟨m, bs, half⟩

theorem move_kept (top : stop + 8192 < 2 ^ 32) (a b : Machine) (kept : Kept base stop a) (move : Move Undisturbed a b) : Kept base stop b := by
  cases move with
  | kmalloc r q =>
      obtain ⟨bs, held⟩ := kept
      exact ⟨r.heap.mem, bs, ready_halfway rfl ⟨held, trivial, trivial⟩⟩
  | kfree r ptr known =>
      obtain ⟨bs, held⟩ := kept
      refine ⟨r.heap.mem, bs, ready_halfway rfl ⟨?_, trivial, trivial⟩⟩
      by_cases null : ptr = 0
      · subst null
        have absent : (0 : Word) ∉ r.live.map Live.ptr := fun member => held.nonnull (by omega) 0 member rfl
        rw [drop_null _ absent]
        exact held
      · simp only [hidden, if_neg null]
        exact held.claim ptr (known.resolve_left null)
  | statement r p p' m ran =>
      obtain ⟨m', bs, half⟩ := kept
      exact statement_halfway top half ran
  | preempt r r' p calls resumes =>
      cases p with
      | none =>
          obtain ⟨bs, held⟩ := kept
          obtain ⟨bs', held, -⟩ := calls_ready top r r' .freed held trivial calls
          exact ⟨bs', held⟩
      | some p => exact preempt_kept top r r' p kept calls (resumes p rfl)
  | allocated r q ptr =>
      obtain ⟨m, bs, half⟩ := kept
      obtain ⟨held, -, -⟩ := halfway_ready rfl half
      refine ⟨bs, ?_⟩
      by_cases null : ptr = 0
      · simp only [hidden, keep, if_pos null] at held ⊢
        exact held
      · simp only [hidden, keep, if_neg null] at held ⊢
        exact held
  | freed r =>
      obtain ⟨m, bs, half⟩ := kept
      obtain ⟨held, -, -⟩ := halfway_ready rfl half
      exact ⟨bs, held⟩

theorem kept_of_moves (top : stop + 8192 < 2 ^ 32) (a b : Machine) (kept : Kept base stop a) (run : Reaches (Move Undisturbed) a b) :
    Kept base stop b :=
  Run.invariant (Kept base stop) (fun a b kept move => move_kept top a b kept move) a b kept run

end Moves

structure Intact (base stop : Nat) (r : HeapRun) (bs : List Block) : Prop where
  list : WellFormed base stop r.heap bs
  pointers : ∀ ptr, ptr ∈ r.live.map Live.ptr ↔ ∃ b ∈ bs, b.used ∧ b.payload = ptr
  disjoint : r.live.Pairwise (fun l l' => l.ptr ≠ l'.ptr ∧ ∀ x, ¬(InPayload r.heap.mem l.ptr x ∧ InPayload r.heap.mem l'.ptr x))
  headers : ∀ l ∈ r.live, ∀ b ∈ bs, ∀ x, ¬(InPayload r.heap.mem l.ptr x ∧ InHeader b x)
  long : ∀ l ∈ r.live, l.size.toNat + 23 < 2 ^ 32 →
    ∀ x, l.ptr.toNat ≤ x → x < l.ptr.toNat + l.size.toNat → InPayload r.heap.mem l.ptr x

theorem intact_of_held {base stop : Nat} {r : HeapRun} {bs : List Block} (top : stop < 2 ^ 32)
    (held : Held base stop r.heap bs r.live) : Intact base stop r bs where
  list := held.wf
  pointers := held.pointers
  disjoint := by
    have distinct := List.pairwise_map.mp held.distinct
    refine distinct.imp_of_mem (fun {l l'} member member' different => ⟨different, fun x both => ?_⟩)
    obtain ⟨b, inside, -, same, -⟩ := held.room l member
    obtain ⟨c, inside', -, same', -⟩ := held.room l' member'
    have other : b ≠ c := by
      rintro rfl
      exact different (same.symm.trans same')
    rw [← same, ← same', in_payload_of_block _ _ _ bs held.wf top b inside, in_payload_of_block _ _ _ bs held.wf top c inside'] at both
    have apart := tiles_disjoint bs _ _ held.wf.tiles b c inside inside' other
    omega
  headers := by
    intro l member c inside' x both
    obtain ⟨b, inside, -, same, -⟩ := held.room l member
    rw [← same, in_payload_of_block _ _ _ bs held.wf top b inside, InHeader] at both
    by_cases own : b = c
    · subst own
      omega
    · have apart := tiles_disjoint bs _ _ held.wf.tiles b c inside inside' own
      have bounds := held.wf.bounds inside'
      simp only [Block.start, Block.stop] at apart both
      omega
  long := by
    intro l member small x low high
    obtain ⟨b, inside, -, same, sized⟩ := held.room l member
    have room := sized small
    have there := (held.wf.payload_ne top inside).2
    rw [← same] at low high ⊢
    rw [in_payload_of_block _ _ _ bs held.wf top b inside, Block.start, Block.stop]
    constructor <;> omega

theorem heap_survives_preemption (base stop : Nat) (r r' : HeapRun) (bs : List Block) (held : Held base stop r.heap bs r.live)
    (top : stop + 8192 < 2 ^ 32) (run : Reaches (Move Undisturbed) ⟨r, none⟩ ⟨r', none⟩) : ∃ bs', Intact base stop r' bs' := by
  obtain ⟨bs', held'⟩ := kept_of_moves top _ _ (show Kept base stop ⟨r, none⟩ from ⟨bs, held⟩) run
  exact ⟨bs', intact_of_held (by omega) held'⟩

section OnePage

def page (taken : Bool) : Block := ⟨0xC0200000, 0x1000, taken⟩

def wholePage : Request := ⟨4072, false⟩

variable {fine : HeapRun → HeapRun → Point → Prop}

theorem statement_moves (r : HeapRun) (p p' : Point) (ran : statement r.heap p = .ok (r.heap.mem, p')) :
    Move fine ⟨r, some p⟩ ⟨r, some p'⟩ := .statement r p p' r.heap.mem ran

theorem page_found (r : HeapRun) (taken : Bool) (wf : WellFormed 0xC0200000 0xC0201000 r.heap [page taken]) :
    Reaches (Move fine) ⟨r, some (.enter wholePage)⟩ ⟨r, some (.search wholePage 0xC0200000 .fitTest)⟩ := by
  have head : r.heap.kheap = 0xC0200000 := wf.head
  have header : HeaderIs r.heap.mem (page taken) (lastOr 0 []) (headOr 0 []) := wf.toHeapList.header
  have magic : load r.heap.mem 0xC0200000 .magic = HEAP_MAGIC := header.magic
  refine .head (statement_moves r _ (.heapTest wholePage) rfl) ?_
  refine .head (statement_moves r _ (.first wholePage) ?_) ?_
  · rw [statement, head, if_neg (by decide)]
  refine .head (statement_moves r _ (.search wholePage 0xC0200000 .whileTest) ?_) ?_
  · rw [statement, head]
  refine .head (statement_moves r _ (.search wholePage 0xC0200000 .magicTest) rfl) ?_
  refine .single (statement_moves r _ _ ?_)
  rw [statement, searchStatement, if_neg (not_not.mpr magic)]

theorem page_marked (r : HeapRun) (wf : WellFormed 0xC0200000 0xC0201000 r.heap [page false]) :
    Reaches (Move fine) ⟨r, some (.search wholePage 0xC0200000 .fitTest)⟩ ⟨r, some (.search wholePage 0xC0200000 .mark)⟩ := by
  have header : HeaderIs r.heap.mem (page false) (lastOr 0 []) (headOr 0 []) := wf.toHeapList.header
  have free : load r.heap.mem 0xC0200000 .allocated = 0 := header.allocated
  have size : load r.heap.mem 0xC0200000 .size = 0x1000 := header.size
  refine .head (statement_moves r _ (.search wholePage 0xC0200000 .alignTest) ?_) ?_
  · rw [statement, searchStatement, if_pos ⟨free, by rw [size]; decide⟩]
  refine .head (statement_moves r _ (.search wholePage 0xC0200000 .wholeTest) rfl) ?_
  refine .single (statement_moves r _ _ ?_)
  rw [statement, searchStatement, size, if_pos (by decide)]

theorem page_taken (r : HeapRun) (wf : WellFormed 0xC0200000 0xC0201000 r.heap [page false]) :
    ∃ s, Call r ⟨s, keep false 4072 0xC0200014 r.live⟩ ∧ WellFormed 0xC0200000 0xC0201000 s [page true] := by
  obtain ⟨s, returned, allocates⟩ := kmalloc_int_serves 4072 false [] [] (page false) wf (by decide) (by simp) (by decide) (by simp)
  exact ⟨s, ⟨4072, .kmalloc r 4072 0xC0200014 s (by decide) returned⟩, allocates.after⟩

theorem held_page (r : HeapRun) (wf : WellFormed 0xC0200000 0xC0201000 r.heap [page false]) (none : r.live = []) :
    Held 0xC0200000 0xC0201000 r.heap [page false] r.live := by
  rw [none]
  refine ⟨wf, fun ptr => ?_, .nil, fun l member => by cases member⟩
  constructor
  · intro member
    cases member
  · rintro ⟨b, member, used, -⟩
    obtain rfl := List.mem_singleton.mp member
    cases used

theorem page_init : ∃ s, kheapInit 0xC0200000 0x1000 (fun _ => 0) = .ok s ∧ WellFormed 0xC0200000 0xC0201000 s [page false] := by
  obtain ⟨s, init⟩ := kheap_init_ok 0xC0200000 0x1000 (fun _ => 0) (by decide)
  exact ⟨s, init, kheap_init_list 0xC0200000 0x1000 _ s init (by decide) (by decide)⟩

theorem heap_breaks_under_preemption : ¬ ∀ (base stop : Nat) (r r' : HeapRun) (bs : List Block), Held base stop r.heap bs r.live →
    stop + 8192 < 2 ^ 32 → Reaches (Move (fun _ _ _ => True)) ⟨r, none⟩ ⟨r', none⟩ → ∃ bs', Intact base stop r' bs' := by
  intro survives
  obtain ⟨s, -, wf⟩ := page_init
  obtain ⟨s', call, after⟩ := page_taken ⟨s, []⟩ wf
  have begins : Reaches (Move (fun _ _ _ => True)) ⟨⟨s, []⟩, none⟩ ⟨⟨s, []⟩, some (.search wholePage 0xC0200000 .mark)⟩ :=
    .head (.kmalloc ⟨s, []⟩ wholePage) ((page_found ⟨s, []⟩ false wf).trans (page_marked ⟨s, []⟩ wf))
  have switched := begins.tail (.preempt _ _ _ (.single call) (fun _ _ => trivial))
  have marked := switched.tail (.statement _ _ (.allocated wholePage 0xC0200014) _ rfl)
  have returned := marked.tail (.allocated _ wholePage 0xC0200014)
  obtain ⟨bs', intact⟩ := survives _ _ _ _ _ (held_page ⟨s, []⟩ wf rfl) (by decide) returned
  have twice := intact.disjoint
  simp only [keep] at twice
  exact (List.rel_of_pairwise_cons twice List.mem_cons_self).1 rfl

theorem heap_survives_on_page : ∃ r r' bs bs', Held 0xC0200000 0xC0201000 r.heap bs r.live ∧
    Reaches (Move Undisturbed) ⟨r, none⟩ ⟨r', none⟩ ∧ r'.live = [⟨0xC0200014, 4072, false⟩] ∧ Intact 0xC0200000 0xC0201000 r' bs' := by
  obtain ⟨s, -, wf⟩ := page_init
  obtain ⟨s', taken, after⟩ := page_taken ⟨s, []⟩ wf
  obtain ⟨m, freed, back, -⟩ := kfree_list _ _ s' [] [] (page true) after (by decide)
  have given : Call ⟨s', keep false 4072 0xC0200014 []⟩ ⟨{ s' with mem := m }, []⟩ :=
    ⟨4072, .kfree ⟨s', _⟩ 0xC0200014 _ (.inr List.mem_cons_self) freed⟩
  have begins : Reaches (Move Undisturbed) ⟨⟨s, []⟩, none⟩ ⟨⟨s, []⟩, some (.search wholePage 0xC0200000 .mark)⟩ :=
    .head (.kmalloc ⟨s, []⟩ wholePage) ((page_found ⟨s, []⟩ false wf).trans (page_marked ⟨s, []⟩ wf))
  have header : HeaderIs m (page false) (lastOr 0 []) (headOr 0 []) := back.toHeapList.header
  have free : load m 0xC0200000 .allocated = 0 := header.allocated
  have size : load m 0xC0200000 .size = 0x1000 := header.size
  have still : Found { s' with mem := m } (.search wholePage 0xC0200000 .mark) :=
    ⟨(on_list_iff back).mpr ⟨page false, List.mem_singleton_self _, rfl⟩, free, by rw [size]; decide⟩
  have switched := begins.tail (.preempt _ ⟨{ s' with mem := m }, []⟩ _ (.head taken (.single given)) (fun here same => by
    obtain rfl := Option.some.inj same
    exact ⟨fun updating => absurd rfl updating, fun _ => still⟩))
  have marked := switched.tail (.statement _ _ (.allocated wholePage 0xC0200014) _ rfl)
  have returned := marked.tail (.allocated _ wholePage 0xC0200014)
  obtain ⟨bs', intact⟩ := heap_survives_preemption _ _ _ _ _ (held_page ⟨s, []⟩ wf rfl) (by decide) returned
  exact ⟨_, _, _, bs', held_page ⟨s, []⟩ wf rfl, returned, rfl, intact⟩

end OnePage

end Deimos.Kalloc
