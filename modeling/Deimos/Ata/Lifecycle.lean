import Deimos.Ata.Register
import Deimos.Lib.Run

set_option autoImplicit false

namespace Deimos.Ata

open Comp LinkedQueue Run

-- drives[i], for each of the given i, is null or the next of the owned drives.
inductive Handles (s : State) (fits : Nat → Word → Prop) : List Nat → List Owned → Prop
  | nil : Handles s fits [] []
  | none (i : Nat) (indices : List Nat) (owned : List Owned) (empty : s.drives i = 0) (rest : Handles s fits indices owned) :
      Handles s fits (i :: indices) owned
  | drive (i : Nat) (indices : List Nat) (o : Owned) (owned : List Owned) (here : s.drives i = o.drive) (fit : fits i o.drive)
      (rest : Handles s fits indices owned) : Handles s fits (i :: indices) (o :: owned)

section Handles

variable {s s' : State} {fits fits' : Nat → Word → Prop} {indices indices' : List Nat} {owned : List Owned}

theorem Handles.mono (handles : Handles s fits indices owned) (drives : ∀ i ∈ indices, s'.drives i = s.drives i)
    (weaker : ∀ i, ∀ o ∈ owned, fits i o.drive → fits' i o.drive) : Handles s' fits' indices owned := by
  induction handles with
  | nil => exact .nil
  | none i indices owned empty rest ih =>
      exact .none i indices owned ((drives i List.mem_cons_self).trans empty)
        (ih (fun j member => drives j (List.mem_cons_of_mem i member)) weaker)
  | drive i indices o owned here fit rest ih =>
      exact .drive i indices o owned ((drives i List.mem_cons_self).trans here) (weaker i o List.mem_cons_self fit)
        (ih (fun j member => drives j (List.mem_cons_of_mem i member)) (fun j o' member => weaker j o' (List.mem_cons_of_mem o member)))

theorem Handles.perm (perm : indices.Perm indices') (handles : Handles s fits indices owned) :
    ∃ owned', owned.Perm owned' ∧ Handles s fits indices' owned' := by
  induction perm generalizing owned with
  | nil => exact ⟨owned, .refl owned, handles⟩
  | cons i _ ih =>
      cases handles with
      | none _ _ _ empty rest =>
          obtain ⟨owned', perm, handles⟩ := ih rest
          exact ⟨owned', perm, .none i _ owned' empty handles⟩
      | drive _ _ o _ here fit rest =>
          obtain ⟨owned', perm, handles⟩ := ih rest
          exact ⟨o :: owned', perm.cons o, .drive i _ o owned' here fit handles⟩
  | swap i j indices =>
      cases handles with
      | none _ _ _ empty rest =>
          cases rest with
          | none _ _ _ empty' rest => exact ⟨owned, .refl owned, .none _ _ _ empty' (.none _ _ _ empty rest)⟩
          | drive _ _ o owned here fit rest => exact ⟨o :: owned, .refl _, .drive _ _ o _ here fit (.none _ _ _ empty rest)⟩
      | drive _ _ o owned here fit rest =>
          cases rest with
          | none _ _ _ empty rest => exact ⟨o :: owned, .refl _, .none _ _ _ empty (.drive _ _ o _ here fit rest)⟩
          | drive _ _ o' owned here' fit' rest =>
              exact ⟨o' :: o :: owned, .swap o' o owned, .drive _ _ o' _ here' fit' (.drive _ _ o _ here fit rest)⟩
  | trans _ _ first second =>
      obtain ⟨owned', perm, handles⟩ := first handles
      obtain ⟨owned'', perm', handles⟩ := second handles
      exact ⟨owned'', perm.trans perm', handles⟩

theorem Handles.mem (handles : Handles s fits indices owned) (i : Nat) (member : i ∈ indices) (used : s.drives i ≠ 0) :
    ∃ o ∈ owned, s.drives i = o.drive := by
  induction handles with
  | nil => exact absurd member List.not_mem_nil
  | none j indices owned empty rest ih =>
      rcases List.mem_cons.mp member with rfl | later
      · exact absurd empty used
      · exact ih later
  | drive j indices o owned here fit rest ih =>
      rcases List.mem_cons.mp member with rfl | later
      · exact ⟨o, List.mem_cons_self, here⟩
      · obtain ⟨o', mine, same⟩ := ih later
        exact ⟨o', List.mem_cons_of_mem o mine, same⟩

end Handles

def anyDrive (_ : Nat) (_ : Word) : Prop := True

def Ready (list : List Word) (probes : Nat → Probe) (s : State) (i : Nat) (d : Word) : Prop :=
  i < 4 ∧ Identified (probes i) ∧ (s.driveData d).readcallback = (probes i).mode ∧ d ∉ list

theorem set_handle_started (i : Nat) (d : Word) (s : State) : (setHandle i d s).started = s.started := rfl

theorem Stock.handle {live₀ list loose : List Word} {s : State} {owned : List Owned} (stock : Stock live₀ list s loose owned)
    (i : Nat) (d : Word) : Stock live₀ list (setHandle i d s) loose owned :=
  stock.carry (setHandle i d s) loose (stock.owns.congr rfl) rfl (fun _ _ => rfl) (fun _ _ => rfl) rfl rfl

section Init

variable (live₀ list : List Word) (probes : Nat → Probe)

theorem identify_step (i : Nat) (small : i < 4) (bus drive statusReg : Port) (indices : List Nat) (owned : List Owned) (s : State)
    (stock : Stock live₀ list s [] owned) (handles : Handles s (Ready list probes s) indices owned) (absent : i ∉ indices) :
    Fine Broken (fun r => ∃ owned', Stock live₀ list (setHandle i r.1 r.2) [] owned' ∧
        Handles (setHandle i r.1 r.2) (Ready list probes (setHandle i r.1 r.2)) (i :: indices) owned' ∧ r.2.started = s.started)
      (identify bus drive statusReg (probes i) s) := by
  have found := identify_fine live₀ list owned s stock bus drive statusReg (probes i)
  cases result : identify bus drive statusReg (probes i) s with
  | error e =>
      rw [result] at found
      exact found
  | ok r =>
      rw [result] at found
      have here (t : State) (d : Word) : (setHandle i d t).drives i = d := Function.update_self _ _ _
      have others (t : State) (d : Word) (drives : t.drives = s.drives) (j : Nat) (member : j ∈ indices) :
          (setHandle i d t).drives j = s.drives j := by
        have different : j ≠ i := fun same => absent (same ▸ member)
        exact (Function.update_of_ne different _ _).trans (congrFun drives j)
      cases found with
      | none t absent stock frame =>
          refine ⟨owned, stock.handle i 0, .none i indices owned (here t 0) (handles.mono (others t 0 frame.drives) ?_), frame.started⟩
          rintro j o member ⟨smaller, known, same, outside⟩
          exact ⟨smaller, known, (frame.callback o.drive not_false).trans same, outside⟩
      | found t identified stock frame unlisted unowned callback =>
          refine ⟨(probes i).owned :: owned, stock.handle i _, .drive i indices _ owned (here t _) ⟨small, identified, callback, unlisted⟩
            (handles.mono (others t _ frame.drives) ?_), frame.started⟩
          rintro j o member ⟨smaller, known, same, outside⟩
          exact ⟨smaller, known, (frame.callback o.drive (unowned o member)).trans same, outside⟩

theorem register_all_meets (others : List Owned) (fit : ∀ i < 4, Identified (probes i) → Registrable (probes i)) (indices : List Nat)
    (good : Bool) (pending : List Owned) (s : State) (stock : Stock live₀ list s [] (pending ++ others))
    (handles : Handles s (Ready list probes s) indices pending) :
    Meets Broken (registerAll probes indices good s) (fun r => Frame nothing s r.2 ∧ ∃ list' owned,
      Stock live₀ list' r.2 [] (owned ++ others) ∧ Handles r.2 anyDrive indices owned ∧ (∀ o ∈ owned, o.drive ∈ list') ∧
        (∀ d ∈ list, d ∈ list') ∧ (r.1 = true ↔ good = true ∨ owned ≠ [])) := by
  induction indices generalizing list others good pending s with
  | nil =>
      cases handles
      exact meets_pure _ ⟨.refl _ s, list, [], stock, .nil, by simp, by simp, by simp⟩
  | cons i indices ih =>
      unfold registerAll
      cases handles with
      | none _ _ _ empty rest =>
          rw [if_pos empty]
          apply meets_mono _ (ih list others good pending s stock rest)
          rintro r ⟨frame, list', owned, after, handles, listed, kept, outcome⟩
          exact ⟨frame, list', owned, after, .none i indices owned ((congrFun frame.drives i).trans empty) handles, listed, kept, outcome⟩
      | drive _ _ o pending here ready rest =>
          obtain ⟨small, identified, callback, unlisted⟩ := ready
          have nonnull : o.drive ≠ 0 := stock.owns.nonnull o.drive List.mem_cons_self
          rw [here, if_neg nonnull]
          apply meets_bind _ _ (register_drive_meets live₀ list (pending ++ others) o (probes i) s stock callback unlisted)
          rintro ⟨failed, t⟩ ⟨frame, ⟨passed, -, vols, registered⟩ | ⟨-, unfit, -⟩⟩
          · have passed : failed = 0 := passed
            dsimp only at registered frame ⊢
            rw [if_neg (not_not.mpr passed)]
            have order : (({ o with vols := vols } : Owned) :: (pending ++ others)).Perm
                (pending ++ ({ o with vols := vols } : Owned) :: others) := List.perm_middle.symm
            have still : Handles t (Ready (list ++ [o.drive]) probes t) indices pending := by
              apply rest.mono (fun j _ => congrFun frame.drives j)
              rintro j o' member ⟨smaller, known, same, outside⟩
              refine ⟨smaller, known, (frame.callback o'.drive not_false).trans same, ?_⟩
              intro inside
              rcases List.mem_append.mp inside with old | last
              · exact outside old
              · have apart := stock.owns.split.2 o' (List.mem_append_left others member) o'.drive List.mem_cons_self
                rw [List.mem_singleton.mp last] at apart
                exact apart List.mem_cons_self
            apply meets_mono _ (ih (list ++ [o.drive]) _ true pending t (registered.perm order) still)
            rintro r ⟨frame', list', owned, after, handles, listed, kept, outcome⟩
            refine ⟨frame.trans frame', list', { o with vols := vols } :: owned, after.perm List.perm_middle,
              .drive i indices _ owned ?_ trivial handles, ?_, fun d member => kept d (List.mem_append_left _ member), ?_⟩
            · exact (congrFun (frame'.drives.trans frame.drives) i).trans here
            · intro o' member
              rcases List.mem_cons.mp member with rfl | later
              · exact kept o.drive (List.mem_append_right list List.mem_cons_self)
              · exact listed o' later
            · exact iff_of_true (outcome.mpr (.inl rfl)) (.inr (List.cons_ne_nil _ owned))
          · exact absurd (fit i small identified) unfit

-- If none can, all are given back but for their private data, and with it the live blocks grow.
theorem register_all_fails (unfit : ∀ i < 4, Identified (probes i) → ¬Registrable (probes i)) (indices : List Nat) (good : Bool)
    (pending : List Owned) (s : State) (stock : Stock live₀ list s [] pending) (handles : Handles s (Ready list probes s) indices pending) :
    Meets Broken (registerAll probes indices good s) (fun r => Frame nothing s r.2 ∧ r.1 = good ∧ ∃ live₁, Stock live₁ list r.2 [] []) := by
  induction indices generalizing live₀ pending s with
  | nil =>
      cases handles
      exact meets_pure _ ⟨.refl _ s, rfl, live₀, stock⟩
  | cons i indices ih =>
      unfold registerAll
      cases handles with
      | none _ _ _ empty rest =>
          rw [if_pos empty]
          exact ih live₀ pending s stock rest
      | drive _ _ o pending here ready rest =>
          obtain ⟨small, identified, callback, unlisted⟩ := ready
          have nonnull : o.drive ≠ 0 := stock.owns.nonnull o.drive List.mem_cons_self
          rw [here, if_neg nonnull]
          apply meets_bind _ _ (register_drive_meets live₀ list pending o (probes i) s stock callback unlisted)
          rintro ⟨failed, t⟩ ⟨frame, ⟨-, fit, -⟩ | ⟨refused, -, dropped⟩⟩
          · exact absurd fit (unfit i small identified)
          · have refused : failed = 1 := refused
            dsimp only at dropped frame ⊢
            rw [refused, if_pos (by decide), frame.drives, here]
            apply meets_bind_returns _ _ _ ((ends_lift _ _).mpr (kfree_mine dropped.owns o.drive List.mem_cons_self).symm)
            have owns : Owns live₀ (o.priv :: pending.flatMap Owned.blocks) { t with heap := t.heap.free o.drive } := dropped.owns.free
            have leaked : Stock (o.priv :: live₀) list { t with heap := t.heap.free o.drive } [] pending :=
              ⟨owns.leak, dropped.listed, fun d member => (dropped.linked d member).imp_left (List.mem_cons_of_mem _),
                fun o' member => (dropped.keeps o' member).congr rfl (fun _ _ => rfl) (fun _ _ => rfl)⟩
            have still : Handles { t with heap := t.heap.free o.drive } (Ready list probes { t with heap := t.heap.free o.drive })
                indices pending := by
              refine rest.mono (fun j _ => congrFun frame.drives j) ?_
              rintro j o' member ⟨smaller, known, same, outside⟩
              exact ⟨smaller, known, (frame.callback o'.drive not_false).trans same, outside⟩
            apply meets_mono _ (ih _ pending _ leaked still)
            rintro r ⟨frame', same, rest⟩
            exact ⟨⟨frame'.drives.trans frame.drives, frame'.started.trans frame.started,
              fun e old => (frame'.callback e old).trans (frame.callback e old)⟩, same, rest⟩

end Init

theorem remove_all_returns (live₀ list : List Word) (indices : List Nat) (fail : Bool) (owned : List Owned) (s : State)
    (stock : Stock live₀ list s [] owned) (handles : Handles s anyDrive indices owned) (nodup : indices.Nodup)
    (listed : ∀ o ∈ owned, o.drive ∈ list) :
    ∃ s' list', (removeAll indices fail s).Returns (fail, s') ∧ s'.started = s.started ∧ Stock live₀ list' s' [] [] := by
  induction indices generalizing list owned s with
  | nil =>
      cases handles
      exact ⟨s, list, (ends_pure _ _).mpr rfl, rfl, stock⟩
  | cons i indices ih =>
      obtain ⟨absent, nodup⟩ := List.nodup_cons.mp nodup
      unfold removeAll
      cases handles with
      | none _ _ _ empty rest =>
          rw [if_pos empty]
          exact ih list owned s stock rest nodup listed
      | drive _ _ o owned here _ rest =>
          have nonnull : o.drive ≠ 0 := stock.owns.nonnull o.drive List.mem_cons_self
          obtain ⟨t, list', removed, drives, started, priv, owns, kept, left⟩ :=
            remove_drive_returns live₀ list owned o s stock (listed o List.mem_cons_self)
          have still : Handles (setHandle i 0 { t with heap := (t.heap.free o.priv).free o.drive }) anyDrive indices owned := by
            refine rest.mono (fun j member => ?_) (fun _ _ _ => id)
            have different : j ≠ i := fun same => absent (same ▸ member)
            exact (Function.update_of_ne different _ _).trans (congrFun drives j)
          have stays (o' : Owned) (member : o' ∈ owned) : o'.drive ∈ list' := by
            apply kept _ (listed o' (List.mem_cons_of_mem o member))
            intro same
            have apart := stock.owns.split.2 o' member o'.drive List.mem_cons_self
            rw [same] at apart
            exact apart List.mem_cons_self
          obtain ⟨s', list'', returned, started', rest⟩ := ih list' owned _ (left.handle i 0) still nodup stays
          refine ⟨s', list'', ?_, started'.trans started, rest⟩
          rw [here, if_neg nonnull]
          apply (ends_bind_of_returns _ _ _ _ removed).mpr
          dsimp only
          have handle : t.drives i = o.drive := (congrFun drives i).trans here
          rw [if_neg (by decide), handle, priv]
          apply (ends_bind_of_returns _ _ _ _ ((ends_lift _ _).mpr
            (check_live o.drive (owns.mine _ (List.mem_cons_of_mem _ List.mem_cons_self))).symm)).mpr
          apply (ends_bind_of_returns _ _ _ _ ((ends_lift _ _).mpr (kfree_mine owns o.priv List.mem_cons_self).symm)).mpr
          dsimp only
          rw [handle]
          apply (ends_bind_of_returns _ _ _ _ ((ends_lift _ _).mpr (kfree_mine owns.free o.drive List.mem_cons_self).symm)).mpr
          exact returned

-- What a run has been through: the module, and the blocks that were live when it was last started.
structure World where
  state : State
  before : List Word

-- In one start either every drive that is identified can be registered, or none can.
def Uniform (probes : Nat → Probe) : Prop :=
  (∀ i < 4, Identified (probes i) → Registrable (probes i)) ∨ ∀ i < 4, Identified (probes i) → ¬Registrable (probes i)

-- A stopped module has nothing on the heap; a started one has the blocks of its drives, which are all on the list.
inductive Inv (w : World) : Prop
  | stopped (live₀ list : List Word) (started : w.state.started = false) (stock : Stock live₀ list w.state [] [])
  | running (list : List Word) (owned : List Owned) (started : w.state.started = true) (stock : Stock w.before list w.state [] owned)
      (handles : Handles w.state anyDrive (List.range 8) owned) (listed : ∀ o ∈ owned, o.drive ∈ list)

def Registered (s : State) : Prop := ∃ list, Linked.Spells 0 s.driveList list ∧ ∀ i < 8, s.drives i ≠ 0 ↔ s.drives i ∈ list

theorem Stock.idle {live₀ list : List Word} {s : State} (stock : Stock live₀ list s [] []) : Stock s.heap.live list s [] [] :=
  ⟨⟨fun _ => (or_iff_left List.not_mem_nil).symm, .nil, by simp, stock.owns.null⟩, stock.listed,
    fun d member => .inl (stock.linked_live d member), by simp⟩

theorem Handles.clear {list : List Word} {probes : Nat → Probe} {s : State} {indices : List Nat} {owned : List Owned}
    (handles : Handles s (Ready list probes s) indices owned) (i : Nat) (absent : i ∉ indices) :
    Handles (setHandle i 0 s) (Ready list probes (setHandle i 0 s)) (i :: indices) owned := by
  refine .none i indices owned (Function.update_self _ _ _) (handles.mono (fun j member => ?_) (fun _ _ _ => id))
  exact Function.update_of_ne (fun same : j = i => absent (same ▸ member)) _ _

section Calls

variable (before : List Word)

theorem init_stopped_meets (probes : Nat → Probe) (list : List Word) (s : State) (stopped : s.started = false)
    (idle : Stock s.heap.live list s [] []) (uniform : Uniform probes) :
    Meets Broken (ataModuleInit probes s)
      (fun r => Inv ⟨r.2, if r.1 = 0 then s.heap.live else before⟩ ∧ (r.1 = 0 → Registered r.2)) := by
  unfold ataModuleInit
  rw [if_neg (by simp [stopped])]
  apply meets_bind _ _ (meets_lift _ (identify_step _ list probes 0 (by decide) _ _ _ [] [] s idle .nil (by simp)))
  rintro ⟨d₀, s₀⟩ ⟨owned₀, stock₀, handles₀, started₀⟩
  apply meets_bind _ _ (meets_lift _ (identify_step _ list probes 1 (by decide) _ _ _ [0] owned₀ _ stock₀ handles₀ (by decide)))
  rintro ⟨d₁, s₁⟩ ⟨owned₁, stock₁, handles₁, started₁⟩
  apply meets_bind _ _ (meets_lift _ (identify_step _ list probes 2 (by decide) _ _ _ [1, 0] owned₁ _ stock₁ handles₁ (by decide)))
  rintro ⟨d₂, s₂⟩ ⟨owned₂, stock₂, handles₂, started₂⟩
  apply meets_bind _ _ (meets_lift _ (identify_step _ list probes 3 (by decide) _ _ _ [2, 1, 0] owned₂ _ stock₂ handles₂ (by decide)))
  rintro ⟨d₃, s₃⟩ ⟨owned₃, stock₃, handles₃, started₃⟩
  have cleared := (((handles₃.clear 4 (by decide)).clear 5 (by decide)).clear 6 (by decide)).clear 7 (by decide)
  have stock := (((stock₃.handle 4 0).handle 5 0).handle 6 0).handle 7 0
  simp only [set_handle_started] at started₀ started₁ started₂ started₃
  have unstarted : s₃.started = false := by rw [started₃, started₂, started₁, started₀, stopped]
  obtain ⟨pending, perm, handles⟩ := cleared.perm (show [7, 6, 5, 4, 3, 2, 1, 0].Perm (List.range 8) by decide)
  have stock := stock.perm perm
  rcases uniform with fit | unfit
  · rw [← List.append_nil pending] at stock
    apply meets_bind _ _ (register_all_meets _ list probes [] fit (List.range 8) false pending _ stock handles)
    rintro ⟨good, t⟩ ⟨frame, list', owned, after, handles, listed, -, outcome⟩
    rw [List.append_nil] at after
    dsimp only at frame after handles outcome ⊢
    have still : t.started = false := by
      rw [frame.started]
      simp only [set_handle_started, unstarted]
    cases good with
    | true =>
        have handles' : Handles { t with started := true } anyDrive (List.range 8) owned := handles.mono (fun _ _ => rfl) (fun _ _ _ => id)
        have after' : Stock s.heap.live list' { t with started := true } [] owned :=
          after.carry _ [] (after.owns.congr rfl) rfl (fun _ _ => rfl) (fun _ _ => rfl) rfl rfl
        refine meets_pure _ ⟨.running list' owned rfl after' handles' listed, fun _ => ⟨list', after'.listed, fun i small => ?_⟩⟩
        constructor
        · intro used
          obtain ⟨o, mine, same⟩ := handles'.mem i (List.mem_range.mpr small) used
          rw [same]
          exact listed o mine
        · exact fun inside => after'.listed.nonnull inside
    | false =>
        have none : owned = [] := by
          by_contra some
          exact absurd (outcome.mpr (.inr some)) Bool.false_ne_true
        subst none
        exact meets_pure _ ⟨.stopped _ list' still after, fun failed => absurd (show (1 : Word) = 0 from failed) (by decide)⟩
  · apply meets_bind _ _ (register_all_fails _ list probes unfit (List.range 8) false pending _ stock handles)
    rintro ⟨good, t⟩ ⟨frame, same, live₁, after⟩
    dsimp only at frame same after ⊢
    have still : t.started = false := by
      rw [frame.started]
      simp only [set_handle_started, unstarted]
    rw [same, if_neg Bool.false_ne_true]
    exact meets_pure _ ⟨.stopped live₁ list still after, fun failed => absurd (show (1 : Word) = 0 from failed) (by decide)⟩

theorem kill_running_returns (s : State) (list : List Word) (owned : List Owned) (started : s.started = true)
    (stock : Stock before list s [] owned) (handles : Handles s anyDrive (List.range 8) owned) (listed : ∀ o ∈ owned, o.drive ∈ list) :
    ∃ s', (ataModuleKill s).Returns (0, s') ∧ s'.started = false ∧ (∀ p, p ∈ s'.heap.live ↔ p ∈ before) ∧
      ∃ list', Stock before list' s' [] [] := by
  obtain ⟨t, list', removed, -, after⟩ := remove_all_returns before list (List.range 8) false owned s stock handles List.nodup_range listed
  refine ⟨{ t with started := false }, ?_, rfl, fun p => (after.owns.live p).trans (or_iff_left List.not_mem_nil), list', ?_⟩
  · unfold ataModuleKill
    rw [started]
    apply (ends_bind_of_returns _ _ _ _ removed).mpr
    exact (ends_pure _ _).mpr rfl
  · exact after.carry _ [] (after.owns.congr rfl) rfl (fun _ _ => rfl) (fun _ _ => rfl) rfl rfl

end Calls

-- The world after a call: a start that succeeds is the one the next kill belongs to.
def World.after (w : World) (op : Op) (ret : Word) (s' : State) : World :=
  match op with
  | .init _ => ⟨s', if ret = 0 then w.state.heap.live else w.before⟩
  | .kill => ⟨s', w.before⟩

def Step (allowed : Op → Prop) (w w' : World) : Prop :=
  ∃ op ret s', allowed op ∧ (exec op w.state).Returns (ret, s') ∧ w' = w.after op ret s'

def Even : Op → Prop
  | .init probes => Uniform probes
  | .kill => True

def Sound (op : Op) (s : State) : Prop := ∃ result, (exec op s).Ends result ∧ ∀ p, result ≠ .error (.dangling p)

theorem sound_of_meets (op : Op) (s : State) (post : Word × State → Prop) (meets : Meets Broken (exec op s) post) : Sound op s := by
  obtain ⟨result, ended, fine⟩ := meets
  refine ⟨result, ended, fun p same => ?_⟩
  rw [same] at fine
  obtain ⟨q, taken⟩ := fine
  exact Misuse.noConfusion taken

section Steps

variable (w : World)

theorem exec_meets (inv : Inv w) (op : Op) (even : Even op) : Meets Broken (exec op w.state) (fun r => Inv (w.after op r.1 r.2)) := by
  cases op with
  | init probes =>
      cases inv with
      | stopped live₀ list started stock =>
          apply meets_mono _ (init_stopped_meets w.before probes list w.state started stock.idle even)
          exact fun r after => after.1
      | running list owned started stock handles listed =>
          have same : (ataModuleInit probes w.state).Returns (1, w.state) := by
            unfold ataModuleInit
            rw [if_pos started]
            exact (ends_pure _ _).mpr rfl
          exact meets_of_returns _ same (.running list owned started stock handles listed)
  | kill =>
      cases inv with
      | stopped live₀ list started stock =>
          have same : (ataModuleKill w.state).Returns (1, w.state) := by
            unfold ataModuleKill
            rw [started]
            exact (ends_pure _ _).mpr rfl
          exact meets_of_returns _ same (.stopped live₀ list started stock)
      | running list owned started stock handles listed =>
          obtain ⟨s', returned, stopped, -, list', after⟩ := kill_running_returns w.before w.state list owned started stock handles listed
          exact meets_of_returns _ returned (.stopped w.before list' stopped after)

theorem step_inv (w' : World) (inv : Inv w) (step : Step Even w w') : Inv w' := by
  obtain ⟨op, ret, s', even, returned, rfl⟩ := step
  exact meets_returns (ret, s') (exec_meets w inv op even) returned

end Steps

structure Idle (s : State) : Prop where
  started : s.started = false
  null : 0 ∉ s.heap.live
  listed : ∃ list, Linked.Spells 0 s.driveList list ∧ ∀ d ∈ list, d ∈ s.heap.live

theorem ata_lifecycle (s₀ : State) (before : List Word) (w : World) (idle : Idle s₀) (run : Reaches (Step Even) ⟨s₀, before⟩ w) :
    (∀ op, Even op → Sound op w.state) ∧
    (∀ probes s', Uniform probes → (ataModuleInit probes w.state).Returns (0, s') → Registered s') ∧
    (w.state.started = true → ∃ s', (ataModuleKill w.state).Returns (0, s') ∧ ∀ p, p ∈ s'.heap.live ↔ p ∈ w.before) := by
  have inv : Inv w := by
    apply invariant Inv step_inv ⟨s₀, before⟩ w _ run
    obtain ⟨list, spells, live⟩ := idle.listed
    refine .stopped s₀.heap.live list idle.started ⟨⟨fun _ => (or_iff_left List.not_mem_nil).symm, .nil, ?_, idle.null⟩, spells, ?_, ?_⟩
    · exact fun p none => absurd none List.not_mem_nil
    · exact fun d member => .inl (live d member)
    · exact fun o none => absurd none List.not_mem_nil
  refine ⟨fun op even => sound_of_meets op w.state _ (exec_meets w inv op even), fun probes s' uniform returned => ?_, fun started => ?_⟩
  · cases inv with
    | stopped live₀ list started stock =>
        exact (meets_returns (0, s') (init_stopped_meets w.before probes list w.state started stock.idle uniform) returned).2 rfl
    | running list owned started stock handles listed =>
        unfold ataModuleInit at returned
        rw [if_pos started] at returned
        have same : (1 : Word) = 0 := congrArg Prod.fst (returns_unique _ _ _ ((ends_pure _ _).mpr rfl) returned)
        exact absurd same (by decide)
  · cases inv with
    | stopped live₀ list stopped stock => exact absurd (started.symm.trans stopped) Bool.false_ne_true.symm
    | running list owned started stock handles listed =>
        obtain ⟨s', returned, -, live, -⟩ := kill_running_returns w.before w.state list owned started stock handles listed
        exact ⟨s', returned, live⟩

def cold : State :=
  { heap := ⟨[], []⟩, driveList := ⟨0, fun _ => 0⟩, driveData := fun _ => ⟨0, 0, 0, 0, 0, .chs, 0⟩,
    privs := fun _ => ⟨.chs, 0, 0, 0⟩, volumes := fun _ => ⟨false, 0, 0, 0, 0, 0⟩, volumeNext := fun _ => 0, nextDriveId := 0,
    drives := fun _ => 0, started := false }

theorem cold_idle : Idle cold := ⟨rfl, List.not_mem_nil, [], queue_empty, by simp⟩

def noDrive : Probe := ⟨0, 0, 0, 0, fun _ => 0, fun _ => 0, 0, 0, 0, fun _ => 0⟩

def disk (signature : BitVec 8) (driveBlock privBlock volumeBlock : Word) : Probe :=
  ⟨0x50, 0x50, 0, 0, fun _ => 0x0401, fun i => if i = 510 then 0x55 else if i = 511 then signature else if i = 450 then 0x83 else 0,
    0xC0201000, driveBlock, privBlock, fun _ => volumeBlock⟩

def master (i : Nat) : Probe := if i = 0 then disk 0xAA 0xC0202000 0xC0203000 0xC0204000 else noDrive
def masterAndSlave (i : Nat) : Probe := if i = 1 then disk 0 0xC0205000 0xC0206000 0xC0207000 else master i

def stateAfter (call : Comp Misuse (Word × State)) (s : State) : State :=
  match call.run 9 with
  | some (.ok (_, s')) => s'
  | _ => s

def mounted : State := stateAfter (ataModuleInit master cold) cold
def halfMounted : State := stateAfter (ataModuleInit masterAndSlave cold) cold

def anyCall (_ : Op) : Prop := True

-- The slave's drive_t is given back, but drives[1] still points to it.
theorem ata_lifecycle_fails :
    (¬∀ s₀ before w, Idle s₀ → Reaches (Step anyCall) ⟨s₀, before⟩ w → ∀ op, Sound op w.state) ∧
    ¬∀ s₀ before w, Idle s₀ → Reaches (Step anyCall) ⟨s₀, before⟩ w →
      ∀ probes s', (ataModuleInit probes w.state).Returns (0, s') → Registered s' := by
  have returned : (ataModuleInit masterAndSlave cold).Returns (0, halfMounted) := ⟨9, rfl⟩
  constructor
  · intro claim
    have run : Reaches (Step anyCall) ⟨cold, []⟩ ⟨halfMounted, []⟩ := .single ⟨.init masterAndSlave, 0, halfMounted, trivial, returned, rfl⟩
    obtain ⟨result, ended, sound⟩ := claim cold [] ⟨halfMounted, []⟩ cold_idle run .kill
    have dangling : (exec .kill halfMounted).Ends (.error (.dangling 0xC0205000)) := ⟨9, rfl⟩
    exact sound 0xC0205000 (ends_unique _ _ _ ended dangling)
  · intro claim
    obtain ⟨list, spells, handles⟩ := claim cold [] ⟨cold, []⟩ cold_idle .refl masterAndSlave halfMounted returned
    have listed : halfMounted.drives 1 ∈ list := (handles 1 (by decide)).mp (by decide)
    have links := spells.links
    cases list with
    | nil => exact List.not_mem_nil listed
    | cons x xs =>
        obtain ⟨rfl, -, rest⟩ := links
        cases xs with
        | nil => exact absurd listed (by decide)
        | cons y ys =>
            have last : halfMounted.driveList.next halfMounted.driveList.head = 0 := by decide
            exact rest.2.1 (rest.1.symm.trans last)

theorem ata_lifecycle_mounted : Reaches (Step Even) ⟨cold, []⟩ ⟨mounted, []⟩ ∧
    ∃ s', (ataModuleKill mounted).Returns (0, s') ∧ ∀ p, p ∈ s'.heap.live ↔ p ∈ ([] : List Word) := by
  have uniform : Uniform master := by
    refine .inl (fun i small identified => ?_)
    by_cases first : i = 0
    · subst first
      exact ⟨by decide, by decide, fun _ _ _ => show (0xC0204000 : Word) ≠ 0 by decide⟩
    · have absent : master i = noDrive := if_neg first
      rw [absent] at identified
      exact absurd rfl identified.1
  have run : Reaches (Step Even) ⟨cold, []⟩ ⟨mounted, []⟩ := .single ⟨.init master, 0, mounted, uniform, ⟨9, rfl⟩, rfl⟩
  exact ⟨run, (ata_lifecycle cold [] ⟨mounted, []⟩ cold_idle run).2.2 rfl⟩

end Deimos.Ata
