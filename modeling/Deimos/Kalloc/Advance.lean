import Deimos.Kalloc.Resume

set_option autoImplicit false

namespace Deimos.Kalloc

open Mem Tiling Run

section Lists

variable {base stop : Nat} {s : Heap} {bs pre post : List Block} {b : Block} {h : Word}

theorem walk_to (m : Mem) (prev : Word) (pre post : List Block) (linked : Linked m prev (pre ++ post) 0) (nonnull : ∀ c ∈ pre, c.addr ≠ 0) :
    Relation.ReflTransGen (fun a b => a ≠ 0 ∧ b = load m a .next) (headOr 0 (pre ++ post)) (headOr 0 post) := by
  induction pre generalizing prev with
  | nil => exact .refl
  | cons c pre ih =>
      obtain ⟨header, rest⟩ := linked
      exact .head ⟨nonnull c List.mem_cons_self, header.next.symm⟩ (ih c.addr rest (fun d member => nonnull d (List.mem_cons_of_mem c member)))

theorem on_list_iff (wf : WellFormed base stop s bs) : OnList s h ↔ ∃ b ∈ bs, b.addr = h := by
  constructor
  · rintro ⟨nonnull, path⟩
    have reached : h = 0 ∨ ∃ b ∈ bs, b.addr = h := by
      induction path with
      | refl =>
          rw [wf.head]
          cases bs with
          | nil => exact absurd rfl wf.nonempty
          | cons b bs => exact .inr ⟨b, List.mem_cons_self, rfl⟩
      | @tail a c _ step ih =>
          obtain ⟨present, rfl⟩ := step
          obtain ⟨b, member, rfl⟩ := (ih present).resolve_left present
          obtain ⟨pre, post, rfl⟩ := List.append_of_mem member
          rw [wf.header.next]
          cases post with
          | nil => exact .inl rfl
          | cons d post => exact .inr ⟨d, by simp, rfl⟩
    exact reached.resolve_left nonnull
  · rintro ⟨b, member, rfl⟩
    obtain ⟨pre, post, rfl⟩ := List.append_of_mem member
    refine ⟨wf.addr_ne member, ?_⟩
    rw [wf.head]
    exact walk_to s.mem 0 pre (b :: post) wf.linked (fun c early => wf.addr_ne (List.mem_append_left _ early))

theorem on_list_split (wf : WellFormed base stop s bs) (listed : OnList s h) : ∃ pre b post, bs = pre ++ b :: post ∧ h = b.addr := by
  obtain ⟨b, member, rfl⟩ := (on_list_iff wf).mp listed
  obtain ⟨pre, post, rfl⟩ := List.append_of_mem member
  exact ⟨pre, b, post, rfl, rfl⟩

theorem on_list_here (wf : WellFormed base stop s (pre ++ b :: post)) : OnList s b.addr :=
  (on_list_iff wf).mpr ⟨b, by simp, rfl⟩

theorem free_iff (wf : WellFormed base stop s (pre ++ b :: post)) : load s.mem b.addr .allocated = 0 ↔ b.allocated = false := by
  rw [wf.header.allocated]
  exact flag_eq_zero _

theorem next_on_list (wf : WellFormed base stop s (pre ++ b :: post)) : load s.mem b.addr .next = 0 ∨ OnList s (load s.mem b.addr .next) := by
  rw [wf.header.next]
  cases post with
  | nil => exact .inl rfl
  | cons c post => exact .inr ((on_list_iff wf).mpr ⟨c, by simp, rfl⟩)

theorem next_free_iff (wf : WellFormed base stop s (pre ++ b :: post)) :
    NextFree s.mem b.addr ↔ ∃ c rest, post = c :: rest ∧ c.allocated = false := by
  rw [NextFree, wf.header.next]
  cases post with
  | nil => simp [headOr]
  | cons c rest =>
      have whole : pre ++ b :: c :: rest = (pre ++ [b]) ++ c :: rest := by simp
      rw [whole] at wf
      have free := free_iff wf
      have nonnull : c.addr ≠ 0 := wf.addr_ne (by simp)
      simp only [headOr, free, nonnull, ne_eq, not_false_eq_true, true_and, List.cons.injEq]
      refine ⟨fun free => ⟨c, rest, ⟨rfl, rfl⟩, free⟩, fun split => ?_⟩
      obtain ⟨_, _, ⟨rfl, -⟩, free⟩ := split
      exact free

theorem prev_present (wf : WellFormed base stop s (pre ++ b :: post)) (present : load s.mem b.addr .prev ≠ 0) :
    ∃ front p, pre = front ++ [p] ∧ load s.mem b.addr .prev = p.addr := by
  rw [wf.header.prev] at present ⊢
  rcases List.eq_nil_or_concat pre with rfl | ⟨front, p, rfl⟩
  · exact absurd rfl present
  · exact ⟨front, p, by simp, by rw [List.concat_eq_append, last_or_concat]⟩

theorem prev_free_iff (wf : WellFormed base stop s (pre ++ b :: post)) :
    PrevFree s.mem b.addr ↔ ∃ front p, pre = front ++ [p] ∧ p.allocated = false := by
  constructor
  · rintro ⟨present, free⟩
    obtain ⟨front, p, rfl, same⟩ := prev_present wf present
    refine ⟨front, p, rfl, ?_⟩
    rw [List.append_assoc, List.singleton_append] at wf
    rw [same] at free
    exact (free_iff wf).mp free
  · rintro ⟨front, p, rfl, free⟩
    have prev : load s.mem b.addr .prev = p.addr := by rw [wf.header.prev, last_or_concat]
    rw [List.append_assoc, List.singleton_append] at wf
    rw [PrevFree, prev]
    exact ⟨wf.addr_ne (by simp), (free_iff wf).mpr free⟩

end Lists

section Ready

variable {base stop : Nat} {s : Heap} {bs : List Block} {live : List Live} {m' : Mem} {p' : Point}

theorem search_ready (top : stop < 2 ^ 32) (q : Request) (h : Word) (here : SearchAt) (ready : Ready base stop s bs live (.search q h here))
    (ran : searchStatement s.mem q h here = .ok (m', p')) :
    p'.began = p' ∧ ∃ bs', Ready base stop { s with mem := m' } bs' live p' := by
  obtain ⟨held, found, -⟩ := ready
  cases here with
  | whileTest =>
      cases ran
      by_cases last : h = 0
      · rw [if_neg (not_not.mpr last)]
        exact ⟨rfl, bs, held, trivial, trivial⟩
      · rw [if_pos last]
        exact ⟨rfl, bs, held, found.resolve_left last, trivial⟩
  | magicTest =>
      by_cases magic : load s.mem h .magic = HEAP_MAGIC
      · rw [searchStatement, if_neg (not_not.mpr magic)] at ran
        cases ran
        exact ⟨rfl, bs, held, found, trivial⟩
      · rw [searchStatement, if_pos magic] at ran
        cases ran
  | fitTest =>
      cases ran
      by_cases fit : Fits s.mem q.rounded h
      · rw [if_pos fit]
        exact ⟨rfl, bs, held, ⟨found, fit⟩, trivial⟩
      · rw [if_neg fit]
        exact ⟨rfl, bs, held, found, trivial⟩
  | alignTest =>
      cases ran
      cases q.align
      · exact ⟨rfl, bs, held, found, trivial⟩
      · exact ⟨rfl, bs, held, found, trivial⟩
  | alignedAddr =>
      cases ran
      exact ⟨rfl, bs, held, found, trivial⟩
  | gapTest =>
      cases ran
      by_cases tight : alignedAddr h - h < headerSize
      · rw [if_pos tight]
        exact ⟨rfl, bs, held, .inr found.1, trivial⟩
      · rw [if_neg tight]
        exact ⟨rfl, bs, held, found, trivial⟩
  | spaceTest =>
      cases ran
      by_cases beyond : alignedAddr h + q.rounded > h + load s.mem h .size
      · rw [if_pos beyond]
        exact ⟨rfl, bs, held, .inr found.1, trivial⟩
      · rw [if_neg beyond]
        exact ⟨rfl, bs, held, ⟨found.1, found.2, beyond, trivial⟩, rfl⟩
  | wholeTest =>
      cases ran
      by_cases whole : load s.mem h .size < q.rounded + 2 * headerSize
      · rw [if_pos whole]
        exact ⟨rfl, bs, held, found, trivial⟩
      · rw [if_neg whole]
        exact ⟨rfl, bs, held, ⟨found.1, found.2, trivial⟩, rfl⟩
  | mark =>
      cases ran
      obtain ⟨listed, fit⟩ := found
      obtain ⟨pre, b, post, rfl, rfl⟩ := on_list_split held.wf listed
      have fits := (fits_iff s.mem b _ _ q.rounded held.wf.header).mp fit
      have sized : Sized q.size b := by
        intro small
        have rounded := round_size_bounds q.size (by omega)
        have room : q.rounded.toNat + 20 ≤ b.size.toNat := fit_room (by rw [Request.rounded]; omega) fits
        rw [Request.rounded] at room
        omega
      have marked := held.mark fits.1 q.size q.align sized
      have nonnull : b.addr + headerSize ≠ 0 := (held.wf.payload_ne top (by simp)).1
      refine ⟨rfl, pre ++ b.tag true :: post, ?_, trivial, trivial⟩
      simp only [hidden, if_neg nonnull]
      exact marked
  | advance =>
      cases ran
      obtain ⟨pre, b, post, rfl, rfl⟩ := on_list_split held.wf found
      exact ⟨rfl, _, held, next_on_list held.wf, trivial⟩

end Ready

section Building

variable {base stop : Nat} {s : Heap} {pre post : List Block} {b : Block} {live : List Live} {dist : Word}

theorem building_apart (held : Held base stop s (pre ++ b :: post) live) (cut : Splittable s.mem b.addr dist) :
    b.Cuttable dist ∧ ∀ c ∈ pre ++ b :: post, HeaderApart (b.addr + dist) c.addr := by
  have cuttable : b.Cuttable dist := by
    rw [Block.Cuttable, ← held.wf.header.size]
    exact cut
  have bounds := held.wf.bounds (b := b) (by simp)
  obtain ⟨low, high⟩ := cuttable_bounds b dist bounds.2.1 cuttable
  refine ⟨cuttable, fun c member => ?_⟩
  have bound := held.wf.bound
  have there := held.wf.bounds member
  by_cases same : c = b
  · subst same
    exact (apart_of_le (by bv_omega) (by bv_omega) (by decide)).symm
  · have apart := tiles_disjoint _ base stop held.wf.tiles b c (by simp) member (fun here => same here.symm)
    simp only [Block.start, Block.stop] at apart
    rcases apart with before | behind
    · exact apart_of_le (by bv_omega) (by bv_omega) (by decide)
    · exact (apart_of_le (by bv_omega) (by bv_omega) (by decide)).symm

theorem Held.build (held : Held base stop s (pre ++ b :: post) live) (cut : Splittable s.mem b.addr dist) (f : Field) (value : Word) :
    Held base stop { s with mem := store s.mem (b.addr + dist) f value } (pre ++ b :: post) live := by
  obtain ⟨-, apart⟩ := building_apart held cut
  refine held.rewrite _ (fun c member x near => store_other s.mem (b.addr + dist) value x f ?_)
  obtain ⟨forward, backward⟩ := apart c member
  change 20 ≤ (x - (b.addr + dist)).toNat
  bv_omega

end Building

-- What every purpose needs of the block that is split, and what it holds of it.
def Site (s : Heap) (h dist : Word) : Purpose → Prop
  | .front q => OnList s h ∧ Fits s.mem q.rounded h ∧ ¬(alignedAddr h + q.rounded > h + load s.mem h .size) ∧
      dist = alignedAddr h - h - headerSize
  | .rest q => OnList s h ∧ Fits s.mem q.rounded h ∧ dist = headerSize + q.rounded
  | .back q => dist = headerSize + q.rounded

def grip (h : Word) : Purpose → List Live
  | .back q => [⟨h + headerSize, q.size, q.align⟩]
  | _ => []

section Splitting

variable {base stop : Nat} {s : Heap} {bs : List Block} {live : List Live} {p : Purpose} {h dist : Word} {here : SplitAt}

theorem ready_split (early : here ≠ .leave) : Ready base stop s bs live (.split p h dist here) ↔
    Held base stop s bs (grip h p ++ live) ∧ Site s h dist p ∧ Building s.mem h dist here := by
  constructor
  · rintro ⟨held, found, own⟩
    cases p <;> cases here <;> first
      | exact absurd rfl early
      | (simp only [Found, Own, Site, Building] at found own ⊢
         exact ⟨held, by tauto⟩)
  · rintro ⟨held, site, building⟩
    cases p <;> cases here <;> first
      | exact absurd rfl early
      | (simp only [Site, Building] at site building
         refine ⟨held, ?_, ?_⟩ <;> simp only [Found, Own, Building] <;> tauto)

theorem site_block (held : Held base stop s bs (grip h p ++ live)) (site : Site s h dist p) :
    ∃ pre b post, bs = pre ++ b :: post ∧ h = b.addr := by
  cases p with
  | front q => exact on_list_split held.wf site.1
  | rest q => exact on_list_split held.wf site.1
  | back q =>
      obtain ⟨b, member, -, same⟩ := (held.pointers (h + headerSize)).mp (by simp [grip])
      obtain ⟨pre, post, rfl⟩ := List.append_of_mem member
      exact ⟨pre, b, post, rfl, (payload_inj b ⟨h, 0, false⟩ same).symm⟩

theorem Site.build {pre post : List Block} {b : Block} (site : Site s b.addr dist p) (held : Held base stop s (pre ++ b :: post) live)
    (cut : Splittable s.mem b.addr dist) (f : Field) (value : Word) :
    Site { s with mem := store s.mem (b.addr + dist) f value } b.addr dist p := by
  have apart := (building_apart held cut).2 b (by simp)
  have still (g : Field) : load (store s.mem (b.addr + dist) f value) b.addr g = load s.mem b.addr g :=
    load_store_apart _ _ _ _ _ _ apart
  have listed : OnList { s with mem := store s.mem (b.addr + dist) f value } b.addr := on_list_here (held.build cut f value).wf
  cases p with
  | front q => exact ⟨listed, by simpa only [Fits, still] using site.2.1, by simpa only [still] using site.2.2.1, site.2.2.2⟩
  | rest q => exact ⟨listed, by simpa only [Fits, still] using site.2.1, site.2.2⟩
  | back q => exact site

end Splitting

section Halfway

variable {base stop : Nat} {s : Heap} {bs : List Block} {live : List Live} {m' : Mem} {p' : Point}

theorem so_far_calm (m : Mem) {p : Point} (calm : p.began = p) : soFar m p = m := by
  cases p with
  | split p h dist here => cases here <;> first | exact absurd (Point.split.inj calm).2.2.2 (by decide) | rfl
  | free h here => cases here <;> first | exact absurd (Point.free.inj calm).2 (by decide) | rfl
  | _ => rfl

theorem passed_calm (m : Mem) {p : Point} (calm : p.began = p) : Passed m p := by
  cases p with
  | split p h dist here => cases here <;> first | exact absurd (Point.split.inj calm).2.2.2 (by decide) | trivial
  | free h here => cases here <;> first | exact absurd (Point.free.inj calm).2 (by decide) | trivial
  | _ => trivial

theorem ready_halfway (calm : p'.began = p') (ready : Ready base stop { s with mem := m' } bs live p') :
    Halfway base stop { s with mem := m' } live p' m' bs :=
  ⟨by rw [calm]; exact ready, (so_far_calm m' calm).symm, passed_calm m' calm⟩

theorem halfway_ready {m : Mem} {p : Point} (calm : p.began = p) (half : Halfway base stop s live p m bs) : Ready base stop s bs live p := by
  have same : s.mem = m := half.mem.trans (so_far_calm m calm)
  have ready := half.ready
  rw [calm, ← same] at ready
  exact ready

theorem split_early_ready (p : Purpose) (h dist : Word) (here : SplitAt)
    (early : here = .test ∨ here = .addr ∨ here = .size ∨ here = .allocated ∨ here = .magic)
    (ready : Ready base stop s bs live (.split p h dist here)) (ran : splitStatement s.mem p h dist here = (m', p')) :
    p'.began = p' ∧ Ready base stop { s with mem := m' } bs live p' := by
  obtain ⟨held, site, building⟩ := (ready_split (by rintro rfl; simp at early)).mp ready
  obtain ⟨pre, b, post, rfl, rfl⟩ := site_block held site
  rcases early with rfl | rfl | rfl | rfl | rfl
  · by_cases refused : dist > load s.mem b.addr .size - headerSize ∨ dist < headerSize
    · rw [splitStatement, if_pos refused] at ran
      cases ran
      cases p with
      | front q => exact ⟨rfl, held, .inl rfl, trivial⟩
      | back q => exact ⟨rfl, held, trivial, trivial⟩
      | rest q => exact ⟨rfl, held, ⟨site.1, site.2.1⟩, trivial⟩
    · rw [splitStatement, if_neg refused] at ran
      cases ran
      exact ⟨rfl, (ready_split (by decide)).mpr ⟨held, site, refused⟩⟩
  · cases ran
    exact ⟨rfl, (ready_split (by decide)).mpr ⟨held, site, building⟩⟩
  all_goals
    cases ran
    have cut : Splittable s.mem b.addr dist := by
      first
        | exact building
        | exact building.1
    have apart := (building_apart held cut).2 b (by simp)
    refine ⟨rfl, (ready_split (by decide)).mpr ⟨held.build cut _ _, site.build held cut _ _, ?_⟩⟩
    simp only [Building, Splittable, load_store_apart _ _ _ _ _ _ apart, load_store_same]
  · exact ⟨cut, if_pos trivial⟩
  · exact ⟨cut, building.2, if_pos trivial⟩
  · exact ⟨cut, building.2.1, building.2.2, if_pos trivial⟩

end Halfway

end Deimos.Kalloc
