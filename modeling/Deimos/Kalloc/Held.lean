import Deimos.Kalloc.Safety

set_option autoImplicit false

namespace Deimos.Kalloc

open Mem Tiling Comp Run

def Sized (size : Word) (b : Block) : Prop := size.toNat + 23 < 2 ^ 32 → size.toNat + 20 ≤ b.size.toNat

structure Held (base stop : Nat) (s : Heap) (bs : List Block) (live : List Live) : Prop where
  wf : WellFormed base stop s bs
  pointers : ∀ ptr, ptr ∈ live.map Live.ptr ↔ ∃ b ∈ bs, b.used ∧ b.payload = ptr
  distinct : (live.map Live.ptr).Nodup
  room : ∀ l ∈ live, ∃ b ∈ bs, b.used ∧ b.payload = l.ptr ∧ Sized l.size b

def Covers (bs bs' : List Block) : Prop :=
  ∀ b ∈ bs, b.used → ∃ c ∈ bs', c.used ∧ c.payload = b.payload ∧ b.size.toNat ≤ c.size.toNat

def Within (bs' bs : List Block) : Prop := ∀ c ∈ bs', c.used → ∃ b ∈ bs, b.used ∧ b.payload = c.payload

theorem Sized.grow {size : Word} {b c : Block} (sized : Sized size b) (larger : b.size.toNat ≤ c.size.toNat) : Sized size c :=
  fun small => Nat.le_trans (sized small) larger

section Changes

variable {base stop : Nat} {s s' : Heap} {bs bs' : List Block} {live live' : List Live}

theorem Held.perm (held : Held base stop s bs live) (perm : live.Perm live') : Held base stop s bs live' := by
  refine ⟨held.wf, fun ptr => ?_, (perm.map Live.ptr).nodup_iff.mp held.distinct, fun l member => held.room l (perm.mem_iff.mpr member)⟩
  rw [← (perm.map Live.ptr).mem_iff]
  exact held.pointers ptr

def Housed (bs : List Block) (live : List Live) : Prop := ∀ l ∈ live, ∃ b ∈ bs, b.used ∧ b.payload = l.ptr ∧ Sized l.size b

theorem Held.housed (held : Held base stop s bs live) (covers : Covers bs bs') : Housed bs' live := by
  intro l member
  obtain ⟨b, inside, used, same, sized⟩ := held.room l member
  obtain ⟨c, inside', used', same', larger⟩ := covers b inside used
  exact ⟨c, inside', used', same'.trans same, sized.grow larger⟩

theorem Held.same (held : Held base stop s bs live) (wf : WellFormed base stop s' bs') (housed : Housed bs' live)
    (within : Within bs' bs) : Held base stop s' bs' live := by
  refine ⟨wf, fun ptr => ?_, held.distinct, housed⟩
  constructor
  · intro member
    obtain ⟨l, inside, rfl⟩ := List.mem_map.mp member
    obtain ⟨c, inside', used, same, -⟩ := housed l inside
    exact ⟨c, inside', used, same⟩
  · rintro ⟨c, member, used, rfl⟩
    obtain ⟨b, inside, used', same⟩ := within c member used
    exact (held.pointers _).mpr ⟨b, inside, used', same⟩

theorem Held.add (held : Held base stop s bs live) (wf : WellFormed base stop s' bs') (housed : Housed bs' live) (t : Block)
    (inside : t ∈ bs') (used : t.used) (within : ∀ c ∈ bs', c.used → c = t ∨ ∃ b ∈ bs, b.used ∧ b.payload = c.payload)
    (fresh : ∀ b ∈ bs, b.used → b.payload ≠ t.payload) (size : Word) (align : Bool) (sized : Sized size t) :
    Held base stop s' bs' (⟨t.payload, size, align⟩ :: live) := by
  refine ⟨wf, fun ptr => ?_, ?_, fun l member => ?_⟩
  · rw [List.map_cons, List.mem_cons]
    constructor
    · rintro (rfl | member)
      · exact ⟨t, inside, used, rfl⟩
      · obtain ⟨l, inside', rfl⟩ := List.mem_map.mp member
        obtain ⟨c, inside', used', same, -⟩ := housed l inside'
        exact ⟨c, inside', used', same⟩
    · rintro ⟨c, member, used, rfl⟩
      rcases within c member used with rfl | ⟨b, inside', used', same⟩
      · exact .inl rfl
      · exact .inr ((held.pointers _).mpr ⟨b, inside', used', same⟩)
  · rw [List.map_cons, List.nodup_cons]
    refine ⟨fun known => ?_, held.distinct⟩
    obtain ⟨b, member, used', same⟩ := (held.pointers t.payload).mp known
    exact fresh b member used' same
  · rcases List.mem_cons.mp member with rfl | old
    · exact ⟨t, inside, used, rfl, sized⟩
    · exact housed l old

theorem Held.remove (l : Live) (held : Held base stop s bs (l :: live)) (wf : WellFormed base stop s' bs') (housed : Housed bs' live)
    (within : ∀ c ∈ bs', c.used → c.payload ≠ l.ptr ∧ ∃ b ∈ bs, b.used ∧ b.payload = c.payload) : Held base stop s' bs' live := by
  obtain ⟨absent, distinct⟩ := List.nodup_cons.mp held.distinct
  refine ⟨wf, fun ptr => ?_, distinct, housed⟩
  constructor
  · intro member
    obtain ⟨l', inside, rfl⟩ := List.mem_map.mp member
    obtain ⟨c, inside', used, same, -⟩ := housed l' inside
    exact ⟨c, inside', used, same⟩
  · rintro ⟨c, member, used, rfl⟩
    obtain ⟨other, b, inside, used', same⟩ := within c member used
    exact (List.mem_cons.mp ((held.pointers _).mpr ⟨b, inside, used', same⟩)).resolve_left other

end Changes

section Operations

variable {base stop : Nat} {s : Heap} {live : List Live} {pre post : List Block} {b c : Block}

theorem Layout.payload_inj {bs : List Block} (layout : Layout base stop bs) (left : b ∈ bs) (right : c ∈ bs)
    (same : b.payload = c.payload) : b = c := layout.addr_inj left right (Kalloc.payload_inj b c same)

theorem Held.not_other (held : Held base stop s (pre ++ b :: post) live) (member : c ∈ pre ++ post) : c.payload ≠ b.payload := by
  intro same
  have nodup := (List.perm_middle.nodup_iff.mp held.wf.toLayout.nodup)
  have here : c ∈ pre ++ b :: post := List.perm_middle.mem_iff.mpr (List.mem_cons_of_mem b member)
  have inside : b ∈ pre ++ b :: post := List.perm_middle.mem_iff.mpr List.mem_cons_self
  obtain rfl := held.wf.toLayout.payload_inj here inside same
  exact (List.nodup_cons.mp nodup).1 member

theorem Held.mark (held : Held base stop s (pre ++ b :: post) live) (free : b.allocated = false) (size : Word) (align : Bool)
    (sized : Sized size b) :
    Held base stop { s with mem := store s.mem b.addr .allocated 1 } (pre ++ b.tag true :: post) (⟨b.payload, size, align⟩ :: live) := by
  have list := set_allocated_list s.mem base stop pre post b true held.wf.toHeapList
  have wf := held.wf.update list (List.append_ne_nil_of_right_ne_nil _ (List.cons_ne_nil _ _))
  have others (d : Block) (member : d ∈ pre ++ b :: post) (used : d.used) : d ∈ pre ++ post := by
    rcases List.mem_cons.mp (List.perm_middle.mem_iff.mp member) with rfl | other
    · exact absurd used (not_used d free)
    · exact other
  refine held.add wf (held.housed (fun d member used => ?_)) (b.tag true) (by simp) rfl ?_ ?_ size align sized
  · exact ⟨d, List.perm_middle.mem_iff.mpr (List.mem_cons_of_mem _ (others d member used)), used, rfl, Nat.le_refl _⟩
  · intro d member used
    rcases List.mem_cons.mp (List.perm_middle.mem_iff.mp member) with rfl | other
    · exact .inl rfl
    · exact .inr ⟨d, List.perm_middle.mem_iff.mpr (List.mem_cons_of_mem b other), used, rfl⟩
  · exact fun d member used => held.not_other (others d member used)

theorem Held.unmark (l : Live) (held : Held base stop s (pre ++ b :: post) (l :: live)) (same : l.ptr = b.payload) :
    Held base stop { s with mem := store s.mem b.addr .allocated 0 } (pre ++ b.tag false :: post) live := by
  have list := set_allocated_list s.mem base stop pre post b false held.wf.toHeapList
  have wf := held.wf.update list (List.append_ne_nil_of_right_ne_nil _ (List.cons_ne_nil _ _))
  refine held.remove l wf (fun l' member => ?_) (fun d member used => ?_)
  · obtain ⟨d, inside, used, same', sized⟩ := held.room l' (List.mem_cons_of_mem l member)
    rcases List.mem_cons.mp (List.perm_middle.mem_iff.mp inside) with rfl | rest
    · have known : l.ptr ∈ live.map Live.ptr := by
        rw [same, same']
        exact List.mem_map_of_mem member
      exact absurd known (List.nodup_cons.mp held.distinct).1
    · exact ⟨d, List.perm_middle.mem_iff.mpr (List.mem_cons_of_mem _ rest), used, same', sized⟩
  · rcases List.mem_cons.mp (List.perm_middle.mem_iff.mp member) with rfl | rest
    · exact absurd used (not_used _ rfl)
    · rw [same]
      exact ⟨held.not_other rest, d, List.perm_middle.mem_iff.mpr (List.mem_cons_of_mem b rest), used, rfl⟩

theorem Held.split (held : Held base stop s (pre ++ b :: post) live) (free : b.allocated = false) (dist : Word)
    (cut : b.Cuttable dist) :
    Held base stop { s with mem := (splitBlock s.mem b.addr dist).1 } (pre ++ b.cutFront dist :: b.cutBack dist :: post) live := by
  obtain ⟨low, high⟩ := cuttable_bounds b dist (held.wf.bounds (by simp)).2.1 cut
  obtain ⟨-, list, -⟩ := split_block_list s.mem base stop pre post b dist held.wf.toHeapList low high
  have wf := held.wf.update list (List.append_ne_nil_of_right_ne_nil _ (List.cons_ne_nil _ _))
  have front : ¬(b.cutFront dist).used := not_used _ free
  have back : ¬(b.cutBack dist).used := not_used _ free
  refine held.same wf (held.housed (fun d member used => ?_)) (fun d member used => ?_)
  · rcases List.mem_cons.mp (List.perm_middle.mem_iff.mp member) with rfl | rest
    · exact absurd used (not_used d free)
    · refine ⟨d, ?_, used, rfl, Nat.le_refl _⟩
      rw [List.mem_append] at rest ⊢
      exact rest.imp_right (fun late => List.mem_cons_of_mem _ (List.mem_cons_of_mem _ late))
  · rcases List.mem_append.mp member with early | rest
    · exact ⟨d, List.mem_append_left _ early, used, rfl⟩
    rcases List.mem_cons.mp rest with rfl | rest
    · exact absurd used front
    rcases List.mem_cons.mp rest with rfl | late
    · exact absurd used back
    · exact ⟨d, List.mem_append_right _ (List.mem_cons_of_mem b late), used, rfl⟩

theorem Held.split_used (l : Live) (held : Held base stop s (pre ++ b :: post) (l :: live)) (used : b.used) (own : l.ptr = b.payload)
    (dist : Word) (cut : b.Cuttable dist) (sized : Sized l.size (b.cutFront dist)) :
    Held base stop { s with mem := (splitBlock s.mem b.addr dist).1 } (pre ++ b.cutFront dist :: b.cutBack dist :: post)
      (⟨(b.cutBack dist).payload, 0, false⟩ :: l :: live) := by
  have bounds := held.wf.bounds (b := b) (by simp)
  obtain ⟨low, high⟩ := cuttable_bounds b dist bounds.2.1 cut
  obtain ⟨-, list, -⟩ := split_block_list s.mem base stop pre post b dist held.wf.toHeapList low high
  have wf := held.wf.update list (List.append_ne_nil_of_right_ne_nil _ (List.cons_ne_nil _ _))
  have layout := wf.toLayout
  have back : b.cutBack dist ∈ pre ++ b.cutFront dist :: b.cutBack dist :: post := by simp
  have kept (d : Block) (rest : d ∈ pre ++ post) : d ∈ pre ++ b.cutFront dist :: b.cutBack dist :: post := by
    rw [List.mem_append] at rest ⊢
    exact rest.imp_right (fun late => List.mem_cons_of_mem _ (List.mem_cons_of_mem _ late))
  have nodup : (b.cutBack dist :: b.cutFront dist :: (pre ++ post)).Nodup := by
    have order : (pre ++ b.cutFront dist :: b.cutBack dist :: post).Perm (b.cutBack dist :: b.cutFront dist :: (pre ++ post)) :=
      List.perm_middle.trans ((List.perm_middle.cons _).trans (List.Perm.swap _ _ _))
    exact order.nodup_iff.mp layout.nodup
  refine held.add wf (fun l' member => ?_) (b.cutBack dist) back used (fun d member used' => ?_) (fun d member used' same => ?_) 0 false ?_
  · rcases List.mem_cons.mp member with rfl | other
    · exact ⟨b.cutFront dist, by simp, used, own.symm, sized⟩
    · obtain ⟨d, inside, used', same, sized'⟩ := held.room l' (List.mem_cons_of_mem l other)
      rcases List.mem_cons.mp (List.perm_middle.mem_iff.mp inside) with rfl | rest
      · have known : l.ptr ∈ live.map Live.ptr := by
          rw [own, same]
          exact List.mem_map_of_mem other
        exact absurd known (List.nodup_cons.mp held.distinct).1
      · exact ⟨d, kept d rest, used', same, sized'⟩
  · rcases List.mem_append.mp member with early | rest
    · exact .inr ⟨d, List.mem_append_left _ early, used', rfl⟩
    rcases List.mem_cons.mp rest with rfl | rest
    · exact .inr ⟨b, by simp, used, rfl⟩
    rcases List.mem_cons.mp rest with rfl | late
    · exact .inl rfl
    · exact .inr ⟨d, List.mem_append_right _ (List.mem_cons_of_mem b late), used', rfl⟩
  · rcases List.mem_cons.mp (List.perm_middle.mem_iff.mp member) with rfl | rest
    · have front : d.cutFront dist = d.cutBack dist := layout.payload_inj (by simp) back same
      exact (List.nodup_cons.mp nodup).1 (front ▸ List.mem_cons_self)
    · have here : d = b.cutBack dist := layout.payload_inj (kept d rest) back same
      exact (List.nodup_cons.mp nodup).1 (here ▸ List.mem_cons_of_mem _ rest)
  · intro small
    have size := (cut_sizes base stop _ b dist held.wf.toLayout (by simp) high).2
    change 0 + 20 ≤ (b.cutBack dist).size.toNat
    omega

theorem Held.absorb (held : Held base stop s (pre ++ b :: c :: post) live) (free : c.allocated = false) :
    Held base stop { s with mem := Kalloc.absorb s.mem b.addr c.addr } (pre ++ b.join c :: post) live := by
  obtain ⟨list, -⟩ := absorb_list s.mem base stop pre post b c held.wf.toHeapList
  have wf := held.wf.update list (List.append_ne_nil_of_right_ne_nil _ (List.cons_ne_nil _ _))
  have layout := held.wf.toLayout
  have larger : b.size.toNat ≤ (b.join c).size.toNat := by
    have here := layout.bounds (b := b) (by simp)
    have next := layout.bounds (b := c) (by simp)
    have bound := layout.bound
    have positive := layout.positive
    have touch : b.stop = c.start := by
      obtain ⟨_, _, _, _, touch, _⟩ := (tiles_append pre (b :: c :: post) base stop).mp layout.tiles
      exact touch.symm
    simp only [Block.start, Block.stop, Block.join] at touch ⊢
    bv_omega
  refine held.same wf (held.housed (fun d member used => ?_)) (fun d member used => ?_)
  · rcases List.mem_append.mp member with early | rest
    · exact ⟨d, List.mem_append_left _ early, used, rfl, Nat.le_refl _⟩
    rcases List.mem_cons.mp rest with rfl | rest
    · exact ⟨d.join c, by simp, used, rfl, larger⟩
    rcases List.mem_cons.mp rest with rfl | late
    · exact absurd used (not_used d free)
    · exact ⟨d, List.mem_append_right _ (List.mem_cons_of_mem _ late), used, rfl, Nat.le_refl _⟩
  · rcases List.mem_append.mp member with early | rest
    · exact ⟨d, List.mem_append_left _ early, used, rfl⟩
    rcases List.mem_cons.mp rest with rfl | late
    · exact ⟨b, by simp, used, rfl⟩
    · exact ⟨d, List.mem_append_right _ (List.mem_cons_of_mem b (List.mem_cons_of_mem c late)), used, rfl⟩

theorem Held.rewrite {bs : List Block} (held : Held base stop s bs live) (m : Mem)
    (same : ∀ b ∈ bs, ∀ x : Word, (x - b.addr).toNat < 20 → m x = s.mem x) : Held base stop { s with mem := m } bs live :=
  ⟨held.wf.rewrite m same, held.pointers, held.distinct, held.room⟩

end Operations

-- What a complete call does to a heap on which a part of what is held is
-- private: the blocks of the private part stay, with all that is in them.
structure Keeps (bs bs' : List Block) (m m' : Mem) (hidden : List Live) : Prop where
  blocks : ∀ b ∈ bs, b.used → b.payload ∈ hidden.map Live.ptr → b ∈ bs'
  bytes : ∀ b ∈ bs, b.used → b.payload ∈ hidden.map Live.ptr → ∀ x : Word, (x - b.payload).toNat + 20 < b.size.toNat → m' x = m x

section Calls

variable {base stop : Nat} {s s' : Heap} {bs : List Block} {live : List Live}

theorem Keeps.refl (bs : List Block) (m : Mem) (hidden : List Live) : Keeps bs bs m m hidden :=
  ⟨fun _ member _ _ => member, fun _ _ _ _ _ _ => rfl⟩

theorem off_headers_of_payload (layout : Layout base stop bs) (b : Block) (member : b ∈ bs) (x : Word)
    (inside : (x - b.payload).toNat + 20 < b.size.toNat) : OffHeaders bs x := by
  intro h known
  obtain ⟨c, member', rfl⟩ := List.mem_map.mp known
  by_contra near
  have clear := layout.payload_clear b c member member' (b.size.toNat - 20) (by have := layout.bounds member; omega) x (Nat.lt_of_not_le near)
  omega

theorem Held.kmalloc_int (held : Held base stop s bs live) (top : stop + 8192 < 2 ^ 32) (hidden : List Live) (size ptr : Word)
    (align : Bool) (returned : (kmallocInt size align s).Returns (ptr, s')) :
    ∃ bs', Held base stop s' bs' (keep align size ptr live) ∧ Keeps bs bs' s.mem s'.mem hidden := by
  rcases kmalloc_int_outcomes base stop s bs size align ptr s' held.wf returned with ⟨rfl, rfl⟩ | ⟨nonzero, pre, post, b, allocates⟩
  · exact ⟨bs, held, .refl _ _ _⟩
  obtain ⟨lead, taken, rest, placed, shape⟩ := place_shape align (roundSize size) b allocates.fit.1
  obtain rfl := allocates.shape
  have after := allocates.after
  have frame := allocates.frame
  have free := allocates.fit.1
  have sized : Sized size taken := by
    intro small
    have rounded := round_size_bounds size (by omega)
    have room := fit_room (by omega) allocates.fit
    have larger := place_room align held.wf.toLayout top (b := b) (by simp) free room (fun aligned => (allocates.room aligned).1) taken
      (by simp [placed]) shape.used
    omega
  rw [placed] at after frame
  have pointer : ptr = taken.payload := allocates.pointer.trans shape.payload.symm
  have inside : taken ∈ pre ++ ((lead ++ taken :: rest) ++ post) := by simp
  have nonnull : ptr ≠ 0 := pointer ▸ (after.payload_ne (by omega) inside).1
  have old (c : Block) (member : c ∈ pre ++ b :: post) (used : c.used) : c ∈ pre ++ ((lead ++ taken :: rest) ++ post) :=
    (used_place pre post lead rest b taken c align shape free used).mpr (.inl member)
  have fresh (c : Block) (member : c ∈ pre ++ b :: post) (used : c.used) : c.payload ≠ taken.payload := by
    intro same
    obtain rfl := after.toLayout.payload_inj (old c member used) inside same
    have nodup := after.toLayout.nodup
    have notBlock : c ≠ b := fun same => not_used b free (same ▸ used)
    simp only [List.nodup_append, List.nodup_cons, List.mem_append, List.mem_cons] at member nodup
    grind
  have added : Held base stop s' (pre ++ ((lead ++ taken :: rest) ++ post)) (⟨taken.payload, size, align⟩ :: live) := by
    apply held.add after (held.housed (fun c member used => ⟨c, old c member used, used, rfl, Nat.le_refl _⟩)) taken inside shape.used _ fresh
      size align sized
    intro c member used
    rcases (used_place pre post lead rest b taken c align shape free used).mp member with here | rfl
    · exact .inr ⟨c, here, used, rfl⟩
    · exact .inl rfl
  refine ⟨_, ?_, fun c member used _ => old c member used, fun c member used _ x near => ?_⟩
  · rw [keep, if_neg nonnull, pointer]
    exact added
  · exact frame x (off_headers_of_payload after.toLayout c (old c member used) x near)

theorem mem_drop (ptr p : Word) : p ∈ (drop ptr live).map Live.ptr ↔ p ∈ live.map Live.ptr ∧ p ≠ ptr := by
  simp only [drop, List.mem_map, List.mem_filter, decide_eq_true_eq]
  constructor
  · rintro ⟨l, ⟨member, other⟩, rfl⟩
    exact ⟨⟨l, member, rfl⟩, other⟩
  · rintro ⟨⟨l, member, rfl⟩, other⟩
    exact ⟨l, ⟨member, other⟩, rfl⟩

theorem Held.kfree (held : Held base stop s bs live) (top : stop + 8192 < 2 ^ 32) (hidden : List Live) (ptr : Word)
    (known : ptr = 0 ∨ ptr ∈ live.map Live.ptr) (shared : ptr ∉ hidden.map Live.ptr) (returned : Kalloc.kfree ptr s = .ok s') :
    ∃ bs', Held base stop s' bs' (drop ptr live) ∧ Keeps bs bs' s.mem s'.mem hidden := by
  rcases known with rfl | known
  · rw [kfree_null] at returned
    obtain rfl := Except.ok.inj returned
    have null : (0 : Word) ∉ live.map Live.ptr := by
      intro member
      obtain ⟨b, inside, -, null⟩ := (held.pointers 0).mp member
      exact (held.wf.payload_ne (by omega) inside).1 null
    rw [drop_null live null]
    exact ⟨bs, held, .refl _ _ _⟩
  obtain ⟨b, member, used, rfl⟩ := (held.pointers ptr).mp known
  obtain ⟨pre, post, rfl⟩ := List.append_of_mem member
  obtain ⟨m', freed, after, frame⟩ := kfree_list base stop s pre post b held.wf (held.wf.payload_ne (by omega) member).1
  obtain rfl := Except.ok.inj (freed.symm.trans returned)
  have left (c : Block) (used : c.used) : c ∈ freeBlock pre b post ↔ c ∈ pre ++ b :: post ∧ c ≠ b :=
    used_free base stop pre post b c held.wf.toLayout used
  have other (c : Block) (inside : c ∈ pre ++ b :: post) (different : c.payload ≠ b.payload) : c ≠ b :=
    fun same => different (congrArg Block.payload same)
  refine ⟨_, ⟨after, fun p => ?_, held.distinct.sublist (List.filter_sublist.map Live.ptr), fun l inside => ?_⟩,
    fun c inside used' mine => ?_, fun c inside _ _ x near => ?_⟩
  · rw [mem_drop, held.pointers]
    constructor
    · rintro ⟨⟨c, inside, used', rfl⟩, different⟩
      exact ⟨c, (left c used').mpr ⟨inside, other c inside different⟩, used', rfl⟩
    · rintro ⟨c, inside, used', rfl⟩
      obtain ⟨old, different⟩ := (left c used').mp inside
      exact ⟨⟨c, old, used', rfl⟩, fun same => different (held.wf.toLayout.payload_inj old member same)⟩
  · have kept := (mem_drop b.payload l.ptr).mp (List.mem_map_of_mem inside)
    obtain ⟨c, old, used', same, sized⟩ := held.room l (List.mem_of_mem_filter inside)
    exact ⟨c, (left c used').mpr ⟨old, other c old (by rw [same]; exact kept.2)⟩, used', same, sized⟩
  · exact (left c used').mpr ⟨inside, fun same => shared (same ▸ mine)⟩
  · exact frame x (off_headers_of_payload held.wf.toLayout c inside x near)

end Calls

end Deimos.Kalloc
