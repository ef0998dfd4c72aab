import Deimos.Lib.Comp
import Deimos.Str.Compare

set_option autoImplicit false

namespace Deimos.Dsh

open Mem Comp

inductive Command where
  | help | clear | reboot | pci | mem | heap | int | disk | sched | beep
  | rtlStart | rtlStop | ataStart | ataStop | arp | arpFlush | taskTest | heapTest | nothing
deriving DecidableEq, Repr

-- What is put on the screen, and what is called. The first is ">".
inductive Event where
  | prompt
  | echo (c : Byte)
  | call (command : Command)
  | invalid (line : List Byte)
deriving DecidableEq, Repr

def text (chars : List Char) : List Byte := chars.map (fun c => BitVec.ofNat 8 c.toNat)

-- What the line is compared with, in this order.
def commands : List (List Byte × Command) :=
  [(text ['h', 'e', 'l', 'p'], .help), (text ['?'], .help), (text ['c', 'l', 'e', 'a', 'r'], .clear),
    (text ['r', 'e', 'b', 'o', 'o', 't'], .reboot), (text ['p', 'c', 'i'], .pci), (text ['m', 'e', 'm'], .mem),
    (text ['h', 'e', 'a', 'p'], .heap), (text ['i', 'n', 't'], .int), (text ['d', 'i', 's', 'k'], .disk),
    (text ['s', 'c', 'h', 'e', 'd'], .sched), (text ['b', 'e', 'e', 'p'], .beep),
    (text ['r', 't', 'l', ' ', 's', 't', 'a', 'r', 't'], .rtlStart), (text ['r', 't', 'l', ' ', 's', 't', 'o', 'p'], .rtlStop),
    (text ['a', 't', 'a', ' ', 's', 't', 'a', 'r', 't'], .ataStart), (text ['a', 't', 'a', ' ', 's', 't', 'o', 'p'], .ataStop),
    (text ['a', 'r', 'p'], .arp), (text ['a', 'r', 'p', ' ', 'f', 'l', 'u', 's', 'h'], .arpFlush),
    (text ['t', 'a', 's', 'k', 't', 'e', 's', 't'], .taskTest), (text ['h', 'e', 'a', 'p', 't', 'e', 's', 't'], .heapTest), ([], .nothing)]

-- Where the compiler puts the strings, and what the commands do to memory.
structure Image where
  literal : List Byte → Word
  effect : Command → Mem → Mem

-- input is what getchar is going to return.
structure Shell where
  mem : Mem
  input : List Byte
  log : List Event

def Shell.out (e : Event) (s : Shell) : Shell := { s with log := s.log ++ [e] }

-- How the reading of a line ends: with one of so many chars, or never, since
-- getchar waits for more input or reboot was called.
inductive Reading where
  | line (i : Word)
  | waiting
  | rebooted

inductive Last where
  | waiting
  | rebooted
deriving DecidableEq, Repr

-- The body of the inner loop of dsh_loop.
def readBody (buf : Word) (state : Word × Shell) : Except Stop (Iter (Word × Shell) (Reading × Shell)) :=
  let (i, s) := state
  if i < 255 then
    match s.input with
    | [] => .ok (.done (.waiting, s))
    | c :: rest =>
        let s := ({ s with input := rest } : Shell).out (.echo c)
        if c = 0x0A then .ok (.done (.line i, s))
        else if c = 0x2A then .ok (.done (.rebooted, s.out (.call .reboot)))
        else deref buf (.ok (.next (i + 1, { s with mem := Function.update s.mem (buf + i) c })))
  else .ok (.done (.line i, s))

def choose (image : Image) (buf : Word) (m : Mem) : List (List Byte × Command) → Comp Stop (Option Command)
  | [] => pure none
  | (name, command) :: rest => do
      let order ← Str.strcmp buf (image.literal name) m
      if order = 0 then pure (some command) else choose image buf m rest

def line (buf : Word) (m : Mem) : List Byte := (m.bytes buf 256).takeWhile (· ≠ 0)

def answer (image : Image) (buf : Word) (s : Shell) : Option Command → Iter Shell (Last × Shell)
  | some .reboot => .done (.rebooted, s.out (.call .reboot))
  | some command => .next { s.out (.call command) with mem := image.effect command s.mem }
  | none => .next (s.out (.invalid (line buf s.mem)))

-- The body of the outer loop.
def dshBody (image : Image) (buf : Word) (s : Shell) : Comp Stop (Iter Shell (Last × Shell)) := do
  let (reading, s) ← loop (readBody buf) (0, s.out .prompt)
  match reading with
  | .waiting => pure (.done (.waiting, s))
  | .rebooted => pure (.done (.rebooted, s))
  | .line i => do
      let s : Shell := { s with mem := Function.update s.mem (buf + i) 0 }
      let chosen ← choose image buf s.mem commands
      pure (answer image buf s chosen)

-- buf is what kmalloc(256) returned.
def dshLoop (image : Image) (buf : Word) (s : Shell) : Comp Stop (Last × Shell) := rounds (dshBody image buf) s

def told (line : List Byte) : Event :=
  match commands.find? (fun entry => entry.1 = line) with
  | some entry => .call entry.2
  | none => .invalid line

-- A line has been told by its last char; later is what follows after it.
def obey (c : Byte) (line : List Byte) (later : List Event × Last) : List Event × Last :=
  if told line = .call .reboot then ([.echo c, told line], .rebooted) else (.echo c :: told line :: .prompt :: later.1, later.2)

-- The shell as it is meant, char by char: a newline or the 255th char ends a
-- line, and an asterisk reboots.
def heard : List Byte → List Byte → List Event × Last
  | _, [] => ([], .waiting)
  | line, c :: rest =>
      if c = 0x0A then obey c line (heard [] rest)
      else if c = 0x2A then ([.echo c, .call .reboot], .rebooted)
      else if line.length = 254 then obey c (line ++ [c]) (heard [] rest)
      else (.echo c :: (heard (line ++ [c]) rest).1, (heard (line ++ [c]) rest).2)

-- What holds of memory whatever is in the buffer, and whatever is called.
structure Guarded (image : Image) (buf : Word) (holds : Mem → Prop) : Prop where
  nonnull : buf ≠ 0
  inside : ∀ (m : Mem) (x : Word) (c : Byte), holds m → (x - buf).toNat < 256 → holds (Function.update m x c)
  effect : ∀ command m, holds m → holds (image.effect command m)
  literals : ∀ m, holds m → ∀ entry ∈ commands, m.Text (image.literal entry.1) entry.1

section Lines

variable (image : Image) (buf : Word) (m : Mem) (s : List Byte)

theorem bytes_succ (n : Nat) : m.bytes buf (n + 1) = m buf :: m.bytes (buf + 1) n := by
  rw [bytes, bytes, List.range_succ_eq_map, List.map_cons, List.map_map]
  refine congrArg₂ List.cons ?_ (List.map_congr_left (fun i _ => ?_))
  · rw [BitVec.add_zero]
  · exact congrArg m (offset_next buf i)

theorem line_of_text (n : Nat) (held : m.Text buf s) (short : s.length < n) : (m.bytes buf n).takeWhile (· ≠ 0) = s := by
  induction s generalizing buf n with
  | nil =>
      obtain ⟨n, rfl⟩ := Nat.exists_eq_succ_of_ne_zero (Nat.ne_of_gt short)
      rw [bytes_succ, List.takeWhile_cons_of_neg (by simpa using (held.nil_iff).mpr rfl)]
  | cons c s ih =>
      obtain ⟨n, rfl⟩ := Nat.exists_eq_succ_of_ne_zero (Nat.ne_of_gt (Nat.lt_of_le_of_lt (Nat.zero_le _) short))
      obtain ⟨first, rest⟩ := held.tail
      have nonzero : c ≠ 0 := held.inner c List.mem_cons_self
      rw [bytes_succ, first, List.takeWhile_cons_of_pos (by simpa using nonzero), ih (buf + 1) n rest (by simpa using short)]

theorem choose_returns (entries : List (List Byte × Command)) (held : m.Text buf s)
    (literals : ∀ entry ∈ entries, m.Text (image.literal entry.1) entry.1) :
    (choose image buf m entries).Returns ((entries.find? (fun entry => entry.1 = s)).map Prod.snd) := by
  induction entries with
  | nil => exact (ends_pure _ _).mpr rfl
  | cons entry entries ih =>
      have name := literals entry List.mem_cons_self
      have order := Str.strcmp_returns m buf _ s entry.1 held name
      have zero := Str.signed_order_zero s entry.1 held.inner name.inner
      refine (ends_bind_of_returns _ _ _ _ order).mpr ?_
      by_cases same : entry.1 = s
      · rw [if_pos (zero.mpr same.symm), List.find?_cons_of_pos (by simpa using same)]
        exact (ends_pure _ _).mpr rfl
      · rw [if_neg (fun equal => same (zero.mp equal).symm), List.find?_cons_of_neg (by simpa using same)]
        exact ih (fun entry member => literals entry (List.mem_cons_of_mem _ member))

theorem holds_next (c : Byte) (holds : m.Holds buf s) (short : s.length < 256) :
    Holds (Function.update m (buf + BitVec.ofNat 32 s.length) c) buf (s ++ [c]) := by
  refine holds_append.mpr ⟨holds_iff.mpr (fun i b found => ?_), Function.update_self _ _ _, trivial⟩
  have inside := (List.getElem?_eq_some_iff.mp found).1
  have other : buf + BitVec.ofNat 32 i ≠ buf + BitVec.ofNat 32 s.length := fun same => by
    have equal := offset_inj buf i s.length (by omega) (by omega) same
    omega
  rw [Function.update_of_ne other]
  exact holds_iff.mp holds i b found

end Lines

section Session

variable {image : Image} {buf : Word} {holds : Mem → Prop}

structure Complete (buf : Word) (line input : List Byte) (log : List Event) (s : Shell) (text : List Byte) (c : Byte) (echoes : List Event) : Prop where
  held : s.mem.Holds buf text
  inner : ∀ c ∈ text, c ≠ 0
  short : text.length < 256
  grown : s.log = log ++ echoes ++ [.echo c]
  after : heard line input = (echoes ++ (obey c text (heard [] s.input)).1, (obey c text (heard [] s.input)).2)
  less : s.input.length < input.length
  among : ∀ d ∈ s.input, d ∈ input

def Read (buf : Word) (line input : List Byte) (log : List Event) (s : Shell) : Reading → Prop
  | .line i => ∃ text c echoes, i = BitVec.ofNat 32 text.length ∧ Complete buf line input log s text c echoes
  | .waiting => (heard line input).2 = .waiting ∧ s.log = log ++ (heard line input).1
  | .rebooted => (heard line input).2 = .rebooted ∧ s.log = log ++ (heard line input).1

theorem read_returns (guarded : Guarded image buf holds) (input : List Byte) (typed : ∀ c ∈ input, c ≠ 0) (m : Mem) (kept : holds m)
    (log : List Event) (line : List Byte) (held : m.Holds buf line) (inner : ∀ c ∈ line, c ≠ 0) (short : line.length < 255) :
    ∃ reading s, (loop (readBody buf) (BitVec.ofNat 32 line.length, ⟨m, input, log⟩)).Returns (reading, s) ∧ holds s.mem ∧
      Read buf line input log s reading := by
  have room : BitVec.ofNat 32 line.length < (255 : Word) := by bv_omega
  induction input generalizing m log line with
  | nil =>
      refine ⟨.waiting, ⟨m, [], log⟩, (ends_loop_done _ _ _ _ ?_).mpr rfl, kept, rfl, (List.append_nil _).symm⟩
      rw [readBody]
      exact if_pos room
  | cons c rest ih =>
      have shorter : rest.length < (c :: rest).length := Nat.lt_succ_self _
      have among : ∀ d ∈ rest, d ∈ c :: rest := fun d member => List.mem_cons_of_mem c member
      by_cases newline : c = 0x0A
      · have told : heard line (c :: rest) = obey c line (heard [] rest) := by rw [heard, if_pos newline]
        refine ⟨.line (BitVec.ofNat 32 line.length), ⟨m, rest, log ++ [.echo c]⟩, (ends_loop_done _ _ _ _ ?_).mpr rfl, kept, line, c, [], rfl,
          held, inner, by omega, by rw [List.append_nil], told, shorter, among⟩
        simp only [readBody, if_pos room, if_pos newline]
        rfl
      · by_cases asterisk : c = 0x2A
        · have told : heard line (c :: rest) = ([.echo c, .call .reboot], .rebooted) := by rw [heard, if_neg newline, if_pos asterisk]
          refine ⟨.rebooted, ⟨m, rest, log ++ [.echo c] ++ [.call .reboot]⟩, (ends_loop_done _ _ _ _ ?_).mpr rfl, kept, ?_, ?_⟩
          · simp only [readBody, if_pos room, if_neg newline, if_pos asterisk]
            rfl
          · rw [told]
          · rw [told, List.append_assoc]
            rfl
        · have place : (buf + BitVec.ofNat 32 line.length - buf).toNat < 256 := by bv_omega
          have kept' := guarded.inside m _ c kept place
          have held' := holds_next buf m line c held (by omega)
          have inner' : ∀ d ∈ line ++ [c], d ≠ 0 := fun d member => by
            rcases List.mem_append.mp member with old | new
            · exact inner d old
            · rw [List.mem_singleton.mp new]
              exact typed c List.mem_cons_self
          have count : (line ++ [c]).length = line.length + 1 := List.length_append
          have pass : readBody buf (BitVec.ofNat 32 line.length, ⟨m, c :: rest, log⟩) = .ok (.next (BitVec.ofNat 32 (line ++ [c]).length,
              ⟨Function.update m (buf + BitVec.ofNat 32 line.length) c, rest, log ++ [.echo c]⟩)) := by
            rw [count, BitVec.ofNat_add]
            simp only [readBody, if_pos room, if_neg newline, if_neg asterisk, deref_ne _ _ guarded.nonnull]
            rfl
          by_cases full : line.length = 254
          · have told : heard line (c :: rest) = obey c (line ++ [c]) (heard [] rest) := by
              rw [heard, if_neg newline, if_neg asterisk, if_pos full]
            refine ⟨.line (BitVec.ofNat 32 (line ++ [c]).length), ⟨_, rest, log ++ [.echo c]⟩,
              (ends_loop_next _ _ _ _ pass).mpr ((ends_loop_done _ _ _ _ ?_).mpr rfl), kept', line ++ [c], c, [], rfl, held', inner', by omega,
              by rw [List.append_nil], told, shorter, among⟩
            rw [readBody, count, full]
            exact if_neg (by decide)
          · have told : heard line (c :: rest) = (.echo c :: (heard (line ++ [c]) rest).1, (heard (line ++ [c]) rest).2) := by
              rw [heard, if_neg newline, if_neg asterisk, if_neg full]
            obtain ⟨reading, s, returned, kept'', read⟩ := ih (fun d member => typed d (among d member)) _ kept' (log ++ [.echo c]) (line ++ [c]) held'
              inner' (by omega) (by bv_omega)
            refine ⟨reading, s, (ends_loop_next _ _ _ _ pass).mpr returned, kept'', ?_⟩
            cases reading with
            | line i =>
                obtain ⟨text, d, echoes, index, complete⟩ := read
                refine ⟨text, d, .echo c :: echoes, index, complete.held, complete.inner, complete.short, ?_, ?_, Nat.lt_succ_of_lt complete.less,
                  fun d member => among d (complete.among d member)⟩
                · rw [complete.grown]
                  simp
                · rw [told, complete.after]
                  rfl
            | waiting =>
                rw [Read, told]
                exact ⟨read.1, by rw [read.2, List.append_assoc]; rfl⟩
            | rebooted =>
                rw [Read, told]
                exact ⟨read.1, by rw [read.2, List.append_assoc]; rfl⟩

theorem answer_reboot (s : Shell) (text : List Byte) (reboot : told text = .call .reboot) :
    answer image buf s ((commands.find? (fun entry => entry.1 = text)).map Prod.snd) = .done (.rebooted, s.out (.call .reboot)) := by
  cases found : commands.find? (fun entry => entry.1 = text) with
  | none =>
      rw [told, found] at reboot
      cases reboot
  | some entry =>
      rw [told, found] at reboot
      rw [Option.map_some, Event.call.inj reboot]
      rfl

theorem answer_next (guarded : Guarded image buf holds) (s : Shell) (kept : holds s.mem) (text : List Byte) (held : s.mem.Text buf text)
    (short : text.length < 256) (stays : told text ≠ .call .reboot) :
    ∃ m, holds m ∧ answer image buf s ((commands.find? (fun entry => entry.1 = text)).map Prod.snd) =
      .next { s.out (told text) with mem := m } := by
  cases found : commands.find? (fun entry => entry.1 = text) with
  | none =>
      refine ⟨s.mem, kept, ?_⟩
      rw [told, found, Option.map_none, answer, line, line_of_text buf s.mem text 256 held short]
      rfl
  | some entry =>
      refine ⟨image.effect entry.2 s.mem, guarded.effect entry.2 s.mem kept, ?_⟩
      rw [told, found] at stays ⊢
      obtain ⟨name, command⟩ := entry
      cases command <;> first | rfl | exact absurd rfl stays

theorem dsh_loop_returns (guarded : Guarded image buf holds) (input : List Byte) (typed : ∀ c ∈ input, c ≠ 0) (m : Mem) (kept : holds m)
    (log : List Event) : ∃ s, (dshLoop image buf ⟨m, input, log⟩).Returns ((heard [] input).2, s) ∧ holds s.mem ∧
      s.log = log ++ .prompt :: (heard [] input).1 := by
  obtain ⟨n, bound⟩ : ∃ n, input.length < n := ⟨_, Nat.lt_succ_self _⟩
  induction n generalizing input m log with
  | zero => exact absurd bound (Nat.not_lt_zero _)
  | succ n ih =>
      obtain ⟨reading, s, returned, kept', read⟩ := read_returns guarded input typed m kept (log ++ [.prompt]) [] trivial
        (fun c none => nomatch none) (Nat.zero_lt_succ _)
      cases reading with
      | waiting =>
          refine ⟨s, returns_rounds_done _ _ _ ((ends_bind_of_returns _ _ _ _ returned).mpr ((ends_pure _ _).mpr ?_)), kept', ?_⟩
          · rw [read.1]
          · rw [read.2, List.append_assoc]
            rfl
      | rebooted =>
          refine ⟨s, returns_rounds_done _ _ _ ((ends_bind_of_returns _ _ _ _ returned).mpr ((ends_pure _ _).mpr ?_)), kept', ?_⟩
          · rw [read.1]
          · rw [read.2, List.append_assoc]
            rfl
      | line i =>
          obtain ⟨text, c, echoes, rfl, complete⟩ := read
          have place : (buf + BitVec.ofNat 32 text.length - buf).toNat < 256 := by
            have short := complete.short
            bv_omega
          have ended := guarded.inside s.mem _ 0 kept' place
          have line : Text (Function.update s.mem (buf + BitVec.ofNat 32 text.length) 0) buf text :=
            ⟨holds_next buf s.mem text 0 complete.held complete.short, complete.inner⟩
          have chosen := choose_returns image buf _ text commands line (guarded.literals _ ended)
          have grown := complete.grown
          have after := complete.after
          by_cases reboot : told text = .call .reboot
          · refine ⟨({ s with mem := Function.update s.mem (buf + BitVec.ofNat 32 text.length) 0 } : Shell).out (.call .reboot),
              returns_rounds_done _ _ _ ((ends_bind_of_returns _ _ _ _ returned).mpr ((ends_bind_of_returns _ _ _ _ chosen).mpr
                ((ends_pure _ _).mpr ?_))), ended, ?_⟩
            · rw [answer_reboot _ text reboot, after, obey, if_pos reboot]
            · rw [after, obey, if_pos reboot, reboot]
              simp [Shell.out, grown]
          · obtain ⟨m', kept'', next⟩ := answer_next guarded { s with mem := Function.update s.mem (buf + BitVec.ofNat 32 text.length) 0 } ended
              text line complete.short reboot
            have less := complete.less
            obtain ⟨last, returned', kept₃, further⟩ := ih s.input (fun d member => typed d (complete.among d member)) m' kept''
              (s.log ++ [told text]) (by omega)
            refine ⟨last, ?_, kept₃, ?_⟩
            · rw [after, obey, if_neg reboot]
              refine (ends_rounds_next _ _ _ _ ?_).mpr returned'
              refine (ends_bind_of_returns _ _ _ _ returned).mpr ((ends_bind_of_returns _ _ _ _ chosen).mpr ((ends_pure _ _).mpr ?_))
              exact congrArg Except.ok next.symm
            · rw [further, grown, after, obey, if_neg reboot]
              simp

end Session

structure Plain (line : List Byte) : Prop where
  short : line.length < 255
  chars : ∀ c ∈ line, c ≠ 0x0A ∧ c ≠ 0x2A
  stays : told line ≠ .call .reboot

theorem heard_line (front line rest : List Byte) (short : front.length + line.length < 255) (chars : ∀ c ∈ line, c ≠ 0x0A ∧ c ≠ 0x2A) :
    heard front (line ++ 0x0A :: rest) =
      (line.map .echo ++ (obey 0x0A (front ++ line) (heard [] rest)).1, (obey 0x0A (front ++ line) (heard [] rest)).2) := by
  induction line generalizing front with
  | nil => rw [List.nil_append, List.append_nil, heard, if_pos rfl, List.map_nil, List.nil_append]
  | cons c line ih =>
      obtain ⟨newline, asterisk⟩ := chars c List.mem_cons_self
      have count : (front ++ [c]).length = front.length + 1 := List.length_append
      have more : front.length ≠ 254 := by
        rw [List.length_cons] at short
        omega
      rw [List.cons_append, heard, if_neg newline, if_neg asterisk, if_neg more,
        ih (front ++ [c]) (by rw [List.length_cons] at short; omega) (fun d member => chars d (List.mem_cons_of_mem c member)),
        List.append_assoc]
      rfl

theorem heard_lines (lines : List (List Byte)) (plain : ∀ line ∈ lines, Plain line) :
    heard [] (lines.flatMap (· ++ [0x0A])) = (lines.flatMap (fun line => line.map .echo ++ [.echo 0x0A, told line, .prompt]), .waiting) := by
  induction lines with
  | nil => rfl
  | cons line lines ih =>
      have here := plain line List.mem_cons_self
      rw [List.flatMap_cons, List.append_assoc, List.singleton_append, heard_line [] line _ (by simpa using here.short) here.chars,
        List.nil_append, obey, if_neg here.stays, ih (fun other member => plain other (List.mem_cons_of_mem line member)), List.flatMap_cons,
        List.append_assoc]
      rfl

def literalOf (name : List Byte) : Word := BitVec.ofNat 32 (0x1000 + 16 * commands.findIdx (fun entry => entry.1 = name))

def literals : Mem := fun x =>
  if 0x1000 ≤ x.toNat then ((commands.getD ((x.toNat - 0x1000) / 16) ([], .nothing)).1).getD (x.toNat % 16) 0 else 0

theorem literals_guarded : Guarded ⟨literalOf, fun _ m => m⟩ 0x3000 (fun m => ∀ x : Word, x.toNat < 0x2000 → m x = literals x) := by
  have all : ∀ entry ∈ commands, (∀ i < entry.1.length + 1, literals (literalOf entry.1 + BitVec.ofNat 32 i) = (entry.1 ++ [0]).getD i 0 ∧
      (literalOf entry.1 + BitVec.ofNat 32 i).toNat < 0x2000) ∧ ∀ c ∈ entry.1, c ≠ 0 := by decide +kernel
  refine ⟨by decide, fun m x c kept near y low => ?_, fun _ m kept => kept, fun m kept entry member => ⟨holds_iff.mpr (fun i b found => ?_), (all entry member).2⟩⟩
  · have other : y ≠ x := by bv_omega
    rw [Function.update_of_ne other]
    exact kept y low
  · have inside := (List.getElem?_eq_some_iff.mp found).1
    rw [List.length_append] at inside
    obtain ⟨same, low⟩ := (all entry member).1 i inside
    rw [kept _ low, same, List.getD_eq_getElem?_getD, found]
    rfl

end Deimos.Dsh
