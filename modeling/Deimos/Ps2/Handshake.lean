import Mathlib.Order.Nat
import Deimos.Lib.Run
import Deimos.Ps2.Model

set_option autoImplicit false

namespace Deimos.Ps2

open Comp

-- The access before was a status read, and its byte allows this one.
def After (allowed : Byte → Prop) (before : List Access) : Prop := ∃ status rest, before = .status status :: rest ∧ allowed status

def Handshaked : List Access → Prop
  | [] => True
  | .status _ :: before => Handshaked before
  | .flushed _ :: before => Handshaked before
  | .read _ :: before => After (fun status => status &&& PS2_STATUS_OUTBUFRDY ≠ 0) before ∧ Handshaked before
  | .command _ :: before => After (fun status => status &&& PS2_STATUS_INBUFFULL = 0) before ∧ Handshaked before
  | .data _ :: before => After (fun status => status &&& PS2_STATUS_INBUFFULL = 0) before ∧ Handshaked before

section Timing

variable (c : Controller) (n : Nat)

-- How many status bytes have been read when a wait that starts at the n-th is over.
def next : Nat := Nat.find (c.accepts n) + 1

def ready : Prop := c.status n &&& PS2_STATUS_OUTBUFRDY ≠ 0

theorem next_clear (clear : c.status n &&& PS2_STATUS_INBUFFULL = 0) : next c n = n + 1 := by
  have least : Nat.find (c.accepts n) = n := by
    apply Nat.le_antisymm
    · exact Nat.find_min' _ ⟨Nat.le_refl n, clear⟩
    · exact (Nat.find_spec (c.accepts n)).1
  rw [next, least]

theorem next_full (full : c.status n &&& PS2_STATUS_INBUFFULL ≠ 0) : next c n = next c (n + 1) := by
  have spec := Nat.find_spec (c.accepts n)
  have spec' := Nat.find_spec (c.accepts (n + 1))
  have later : n + 1 ≤ Nat.find (c.accepts n) := by
    rcases Nat.eq_or_lt_of_le spec.1 with same | after
    · exact absurd (same ▸ spec.2) full
    · exact after
  have same : Nat.find (c.accepts n) = Nat.find (c.accepts (n + 1)) := by
    apply Nat.le_antisymm
    · exact Nat.find_min' _ ⟨Nat.le_of_succ_le spec'.1, spec'.2⟩
    · exact Nat.find_min' _ ⟨later, spec.2⟩
  rw [next, next, same]

end Timing

structure Moved (s s' : Ports) (polls taken : Nat) (kept : Prop) : Prop where
  polls : s'.polls = polls
  taken : s'.taken = taken
  log : Handshaked s'.log ↔ Handshaked s.log ∧ kept

theorem Moved.trans {s s' s'' : Ports} {polls taken polls' taken' : Nat} {kept kept' : Prop} (first : Moved s s' polls taken kept)
    (second : Moved s' s'' polls' taken' kept') : Moved s s'' polls' taken' (kept ∧ kept') where
  polls := second.polls
  taken := second.taken
  log := by rw [second.log, first.log, and_assoc]

def Waited (before after : List Access) : Prop := ∃ waits, (∀ access ∈ waits, ∃ status, access = .status status) ∧ after = waits ++ before

section Parts

variable (c : Controller) (s : Ports)

theorem wait_returns : ∃ s', (loop (waitBody c) s).Returns s' ∧ Moved s s' (next c s.polls) s.taken True ∧
    After (fun status => status &&& PS2_STATUS_INBUFFULL = 0) s'.log ∧ Waited s.log s'.log := by
  obtain ⟨left, count⟩ : ∃ left, Nat.find (c.accepts s.polls) = s.polls + left :=
    Nat.exists_eq_add_of_le (Nat.find_spec (c.accepts s.polls)).1
  induction left generalizing s with
  | zero =>
      have clear : c.status s.polls &&& PS2_STATUS_INBUFFULL = 0 := by
        have spec := (Nat.find_spec (c.accepts s.polls)).2
        rwa [count] at spec
      have stop : waitBody c s = .ok (.done (ps2ReadStatus c s).2) := if_neg (not_not.mpr clear)
      refine ⟨_, (ends_loop_done _ _ _ _ stop).mpr rfl, ⟨?_, rfl, ?_⟩, ⟨c.status s.polls, s.log, rfl, clear⟩,
        [.status (c.status s.polls)], fun access member => ⟨_, List.mem_singleton.mp member⟩, rfl⟩
      · rw [next_clear c s.polls clear]
        rfl
      · exact (and_iff_left trivial).symm
  | succ left ih =>
      have full : c.status s.polls &&& PS2_STATUS_INBUFFULL ≠ 0 := by
        intro clear
        have early := Nat.find_min' (c.accepts s.polls) ⟨Nat.le_refl s.polls, clear⟩
        omega
      have same := next_full c s.polls full
      have pass : waitBody c s = .ok (.next (ps2ReadStatus c s).2) := if_pos full
      have count' : Nat.find (c.accepts (s.polls + 1)) = s.polls + 1 + left := by
        rw [next, next] at same
        omega
      obtain ⟨s', returned, moved, after, waits, only, log⟩ := ih (ps2ReadStatus c s).2 count'
      refine ⟨s', (ends_loop_next _ _ _ _ pass).mpr returned, ⟨?_, moved.taken, moved.log⟩, after,
        waits ++ [.status (c.status s.polls)], fun access member => ?_, log.trans (List.append_cons _ _ _)⟩
      · rw [same]
        exact moved.polls
      · rcases List.mem_append.mp member with later | first
        · exact only access later
        · exact ⟨_, List.mem_singleton.mp first⟩

theorem send_cmd_returns (cmd : Byte) : ∃ s' before, (sendCmd c cmd s).Returns s' ∧ Moved s s' (next c s.polls) s.taken True ∧
    s'.log = .command cmd :: before ∧ Waited s.log before := by
  obtain ⟨s', waited, moved, after, only⟩ := wait_returns c s
  refine ⟨outb (.command cmd) s', s'.log, (ends_bind_of_returns _ _ _ _ waited).mpr ((ends_pure _ _).mpr rfl),
    ⟨moved.polls, moved.taken, ?_⟩, rfl, only⟩
  exact (and_iff_right after).trans moved.log

theorem write_data_returns (data : Byte) : ∃ s', (writeData c data s).Returns s' ∧ Moved s s' (next c s.polls) s.taken True := by
  obtain ⟨s', waited, moved, after, -⟩ := wait_returns c s
  refine ⟨outb (.data data) s', (ends_bind_of_returns _ _ _ _ waited).mpr ((ends_pure _ _).mpr rfl), moved.polls, moved.taken, ?_⟩
  exact (and_iff_right after).trans moved.log

-- ! is no bitwise operator, so that the loop looks at no bit.
theorem read_body_done : readBody c s = .ok (.done (ps2ReadStatus c s).2) := by
  have nothing : lnot PS2_STATUS_OUTBUFRDY = 0 := rfl
  simp [readBody, nothing, ps2ReadStatus]

theorem after_status (allowed : Byte → Prop) (status : Byte) (before : List Access) :
    After allowed (.status status :: before) ↔ allowed status := by
  constructor
  · rintro ⟨status', rest, same, allowed'⟩
    obtain ⟨rfl, rfl⟩ : status = status' ∧ before = rest := by simpa using same
    exact allowed'
  · exact fun here => ⟨status, before, rfl, here⟩

theorem read_data_returns : ∃ s', (ps2ReadData c s).Returns (c.data s.taken, s') ∧
    Moved s s' (s.polls + 1) (s.taken + 1) (ready c s.polls) ∧ s'.log = .read (c.data s.taken) :: .status (c.status s.polls) :: s.log := by
  refine ⟨(inbData c .read (ps2ReadStatus c s).2).2, ?_, ⟨rfl, rfl, ?_⟩, rfl⟩
  · have waited := (ends_loop_done (readBody c) s _ _ (read_body_done c s)).mpr rfl
    exact (ends_bind_of_returns _ _ _ _ waited).mpr ((ends_pure _ _).mpr rfl)
  · exact (and_congr_left' (after_status _ _ _)).trans and_comm

theorem write_port2_returns (data : Byte) : ∃ s', (ps2WritePort2 c data s).Returns s' ∧ Moved s s' (next c (next c s.polls)) s.taken True := by
  obtain ⟨s₁, -, sent, moved₁, -⟩ := send_cmd_returns c s PS2_WRITE2IN
  obtain ⟨s₂, written, moved₂⟩ := write_data_returns c s₁ data
  rw [moved₁.polls, moved₁.taken] at moved₂
  refine ⟨s₂, (ends_bind_of_returns _ _ _ _ sent).mpr written, moved₂.polls, moved₂.taken, ?_⟩
  rw [(moved₁.trans moved₂).log, and_self]

-- A byte has been read behind a test command, after one status byte. That
-- byte allows the read just if the handshake is kept.
def Answered (cmd : Byte) (s s' : Ports) (value : Byte) : Prop :=
  ∃ status before, s'.log = .read value :: .status status :: .command cmd :: before ∧ Waited s.log before ∧
    (Handshaked s'.log ↔ Handshaked s.log ∧ status &&& PS2_STATUS_OUTBUFRDY ≠ 0)

theorem test_returns (cmd : Byte) (result : Byte → Bool) : ∃ s', (sendCmd c cmd s >>= fun s => ps2ReadData c s >>= fun p =>
      pure (result p.1, p.2)).Returns (result (c.data s.taken), s') ∧
    Moved s s' (next c s.polls + 1) (s.taken + 1) (ready c (next c s.polls)) ∧ Answered cmd s s' (c.data s.taken) := by
  obtain ⟨s₁, before, sent, moved₁, log₁, only⟩ := send_cmd_returns c s cmd
  obtain ⟨s₂, read, moved₂, log₂⟩ := read_data_returns c s₁
  rw [moved₁.polls, moved₁.taken] at moved₂
  rw [moved₁.polls, moved₁.taken, log₁] at log₂
  rw [moved₁.taken] at read
  have kept : Handshaked s₂.log ↔ Handshaked s.log ∧ ready c (next c s.polls) := by
    rw [(moved₁.trans moved₂).log, true_and]
  refine ⟨s₂, ?_, ⟨moved₂.polls, moved₂.taken, kept⟩, ⟨_, before, log₂, only, kept⟩⟩
  refine (ends_bind_of_returns _ _ _ _ sent).mpr ?_
  exact (ends_bind_of_returns _ _ _ _ read).mpr ((ends_pure _ _).mpr rfl)

theorem enable_port1_returns (passed : Bool) : ∃ s', (enablePort1 c passed s).Returns s' ∧
    Moved s s' (if passed then next c (next c s.polls) else s.polls) s.taken True := by
  cases passed with
  | false => exact ⟨s, (ends_pure _ _).mpr rfl, rfl, rfl, (and_iff_left trivial).symm⟩
  | true =>
      obtain ⟨s₁, -, sent, moved₁, -⟩ := send_cmd_returns c s PS2_ENBLPORT1
      obtain ⟨s₂, written, moved₂⟩ := write_data_returns c s₁ PS2_DEVRESET
      rw [moved₁.polls, moved₁.taken] at moved₂
      refine ⟨s₂, (ends_bind_of_returns _ _ _ _ sent).mpr written, moved₂.polls, moved₂.taken, ?_⟩
      rw [(moved₁.trans moved₂).log, and_self]

theorem enable_port2_returns (passed : Bool) : ∃ s' polls, (enablePort2 c passed s).Returns s' ∧ Moved s s' polls s.taken True := by
  cases passed with
  | false => exact ⟨s, s.polls, (ends_pure _ _).mpr rfl, rfl, rfl, (and_iff_left trivial).symm⟩
  | true =>
      obtain ⟨s₁, -, sent, moved₁, -⟩ := send_cmd_returns c s PS2_ENBLPORT2
      obtain ⟨s₂, written, moved₂⟩ := write_port2_returns c s₁ PS2_DEVRESET
      rw [moved₁.taken] at moved₂
      refine ⟨s₂, _, (ends_bind_of_returns _ _ _ _ sent).mpr written, moved₂.polls, moved₂.taken, ?_⟩
      rw [(moved₁.trans moved₂).log, and_self]

end Parts

-- The controller is ready when it has accepted the test command of the first
-- port, and likewise that of the second. The test that starts after the n-th
-- status byte is answered by the k-th data byte.
def PortsFit (c : Controller) (n k : Nat) : Prop :=
  ready c (next c n) ∧ ready c (next c (if c.data k = 0 then next c (next c (next c n + 1)) else next c n + 1))

def InitFits (c : Controller) (n k : Nat) : Prop :=
  ready c (next c (next c (next c n))) ∧ (c.data (k + 1) ≠ 0 → PortsFit c (next c (next c (next c n)) + 1) (k + 2))

def Fits (c : Controller) (s : Ports) : Call → Prop
  | .init => InitFits c s.polls s.taken
  | .readData => ready c s.polls
  | _ => True

section Calls

variable (c : Controller) (s : Ports)

theorem init_ports_returns (passed : Bool) : ∃ s', (initPorts c passed s).Returns s' ∧
    (Handshaked s'.log ↔ Handshaked s.log ∧ (passed = true → PortsFit c s.polls s.taken)) := by
  cases passed with
  | false => exact ⟨s, (ends_pure _ _).mpr rfl, by simp⟩
  | true =>
      obtain ⟨s₁, tested₁, moved₁, -⟩ := test_returns c s PS2_TESTPORT1 (fun value => value = 0)
      obtain ⟨s₂, enabled₂, moved₂⟩ := enable_port1_returns c s₁ (c.data s.taken = 0)
      obtain ⟨s₃, tested₃, moved₃, -⟩ := test_returns c s₂ PS2_TESTPORT2 (fun value => value = 0)
      obtain ⟨s₄, polls, enabled₄, moved₄⟩ := enable_port2_returns c s₃ (c.data s₂.taken = 0)
      refine ⟨s₄, ?_, ?_⟩
      · refine (ends_bind_of_returns _ _ _ _ tested₁).mpr ?_
        refine (ends_bind_of_returns _ _ _ _ enabled₂).mpr ?_
        exact (ends_bind_of_returns _ _ _ _ tested₃).mpr enabled₄
      · rw [moved₂.polls, moved₁.polls] at moved₃
        rw [(((moved₁.trans moved₂).trans moved₃).trans moved₄).log]
        simp only [PortsFit, decide_eq_true_eq, and_true, true_implies]

theorem init_returns : ∃ s', (ps2Init c s).Returns s' ∧ (Handshaked s'.log ↔ Handshaked s.log ∧ InitFits c s.polls s.taken) := by
  obtain ⟨s₁, -, sent₁, moved₁, -⟩ := send_cmd_returns c s PS2_DSBLPORT1
  obtain ⟨s₂, -, sent₂, moved₂, -⟩ := send_cmd_returns c s₁ PS2_DSBLPORT2
  have flushed : Moved s₂ (inbData c .flushed s₂).2 s₂.polls (s₂.taken + 1) True := ⟨rfl, rfl, (and_iff_left trivial).symm⟩
  obtain ⟨s₃, tested₃, moved₃, -⟩ := test_returns c (inbData c .flushed s₂).2 PS2_SELFTEST (fun value => value ≠ 0 ∧ PS2_TESTPASS ≠ 0)
  obtain ⟨s₄, returned₄, log₄⟩ := init_ports_returns c s₃ (c.data (inbData c .flushed s₂).2.taken ≠ 0 ∧ PS2_TESTPASS ≠ 0)
  refine ⟨s₄, ?_, ?_⟩
  · refine (ends_bind_of_returns _ _ _ _ sent₁).mpr ?_
    refine (ends_bind_of_returns _ _ _ _ sent₂).mpr ?_
    exact (ends_bind_of_returns _ _ _ _ tested₃).mpr returned₄
  · have pass : PS2_TESTPASS ≠ 0 := by decide
    rw [flushed.polls, flushed.taken, moved₂.polls, moved₂.taken, moved₁.polls, moved₁.taken] at moved₃
    rw [log₄, (((moved₁.trans moved₂).trans flushed).trans moved₃).log, moved₃.polls, moved₃.taken, flushed.taken, moved₂.taken,
      moved₁.taken]
    simp only [InitFits, decide_eq_true_eq, and_true, true_and, and_assoc, and_iff_left pass]

theorem exec_returns (call : Call) : ∃ s', (exec c s call).Returns s' ∧ (Handshaked s'.log ↔ Handshaked s.log ∧ Fits c s call) := by
  cases call with
  | init => exact init_returns c s
  | readStatus => exact ⟨(ps2ReadStatus c s).2, (ends_pure _ _).mpr rfl, (and_iff_left trivial).symm⟩
  | readData =>
      obtain ⟨s', read, moved, -⟩ := read_data_returns c s
      exact ⟨s', (ends_bind_of_returns _ _ _ _ read).mpr ((ends_pure _ _).mpr rfl), moved.log⟩
  | writePort1 data =>
      obtain ⟨s', written, moved⟩ := write_data_returns c s data
      exact ⟨s', written, moved.log⟩
  | writePort2 data =>
      obtain ⟨s', written, moved⟩ := write_port2_returns c s data
      exact ⟨s', written, moved.log⟩

end Calls

def Calls (c : Controller) (s s' : Ports) : Prop := ∃ call, Fits c s call ∧ (exec c s call).Returns s'

structure Tested (c : Controller) (s : Ports) : Prop where
  controller : ∃ s', (ps2TestController c s).Returns (decide (c.data s.taken ≠ 0 ∧ PS2_TESTPASS ≠ 0), s') ∧
    Answered PS2_SELFTEST s s' (c.data s.taken)
  port1 : ∃ s', (ps2TestPort1 c s).Returns (decide (c.data s.taken = 0), s') ∧ Answered PS2_TESTPORT1 s s' (c.data s.taken)
  port2 : ∃ s', (ps2TestPort2 c s).Returns (decide (c.data s.taken = 0), s') ∧ Answered PS2_TESTPORT2 s s' (c.data s.taken)

theorem tested (c : Controller) (s : Ports) : Tested c s := by
  obtain ⟨s₁, returned₁, -, answered₁⟩ := test_returns c s PS2_SELFTEST (fun value => value ≠ 0 ∧ PS2_TESTPASS ≠ 0)
  obtain ⟨s₂, returned₂, -, answered₂⟩ := test_returns c s PS2_TESTPORT1 (fun value => value = 0)
  obtain ⟨s₃, returned₃, -, answered₃⟩ := test_returns c s PS2_TESTPORT2 (fun value => value = 0)
  exact ⟨⟨s₁, returned₁, answered₁⟩, ⟨s₂, returned₂, answered₂⟩, ⟨s₃, returned₃, answered₃⟩⟩

-- Writes keep to the handshake whatever the controller does, and reads where it
-- is ready by itself. The first call that does not fit is the first to break it.
-- The tests inside ps2_init begin in states of the ports between two calls.
theorem handshake_kept (c : Controller) (s : Ports) (run : Run.Reaches (Calls c) idle s) :
    Handshaked s.log ∧ (∀ call, ∃ s', (exec c s call).Returns s' ∧ (Handshaked s'.log ↔ Fits c s call)) ∧ ∀ during, Tested c during := by
  have kept : Handshaked s.log := by
    refine Run.invariant (fun s : Ports => Handshaked s.log) ?_ idle s trivial run
    rintro s t before ⟨call, fits, returned⟩
    obtain ⟨s', returned', log⟩ := exec_returns c s call
    rw [returns_unique _ _ _ returned returned']
    exact log.mpr ⟨before, fits⟩
  refine ⟨kept, fun call => ?_, tested c⟩
  obtain ⟨s', returned, log⟩ := exec_returns c s call
  exact ⟨s', returned, log.trans (and_iff_right kept)⟩

def prompt : Controller where
  status _ := PS2_STATUS_OUTBUFRDY
  data _ := PS2_TESTPASS
  accepts n := ⟨n, Nat.le_refl n, by decide⟩
  answers n := ⟨n, Nat.le_refl n, by decide⟩

def slow : Controller where
  status n := if n % 8 = 7 then PS2_STATUS_OUTBUFRDY else 0
  data _ := PS2_TESTPASS
  accepts n := ⟨n, Nat.le_refl n, by split <;> decide⟩
  answers n := ⟨8 * n + 7, by omega, by
    rw [if_pos (by omega)]
    decide⟩

theorem handshake_kept_when_prompt : (∃ s, (exec prompt idle .init).Returns s ∧ Handshaked s.log) ∧
    ∃ s, (ps2TestController prompt idle).Returns (true, s) ∧ Answered PS2_SELFTEST idle s PS2_TESTPASS := by
  obtain ⟨-, calls, tests⟩ := handshake_kept prompt idle .refl
  obtain ⟨s, returned, log⟩ := calls .init
  have full : PS2_STATUS_OUTBUFRDY &&& PS2_STATUS_OUTBUFRDY ≠ 0 := by decide
  have always : ∀ n, ready prompt n := fun _ => full
  exact ⟨⟨s, returned, log.mpr ⟨always _, fun _ => ⟨always _, always _⟩⟩⟩, (tests idle).controller⟩

theorem handshake_broken_when_slow : ¬ ∀ (c : Controller) (s : Ports), (exec c idle .init).Returns s → Handshaked s.log := by
  intro all
  obtain ⟨s, returned, log⟩ := exec_returns slow idle .init
  obtain ⟨first, -⟩ := (log.mp (all slow s returned)).2
  have clear : ∀ n, slow.status n &&& PS2_STATUS_INBUFFULL = 0 := by
    intro n
    simp only [slow]
    split <;> decide
  rw [next_clear slow _ (clear _), next_clear slow _ (clear _), next_clear slow _ (clear _)] at first
  exact first (by decide)

end Deimos.Ps2
