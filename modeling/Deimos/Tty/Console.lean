import Deimos.Stdio.Printf
import Deimos.Tty.Page

set_option autoImplicit false

namespace Deimos.Tty

open Comp Str Stdio

def chars (s : String) : List Byte := s.toList.map (fun c => BitVec.ofNat 8 c.toNat)

-- A call of printf, with the values of its arguments.
structure Line where
  format : List Byte
  args : List Arg
deriving DecidableEq, Repr

def Line.text (line : Line) : Option (List Byte) := (pieces line.format).bind (fun ps => render ps line.args)

def spell : List Line → Option (List Byte)
  | [] => some []
  | line :: lines => line.text.bind (fun here => (spell lines).map (here ++ ·))

-- How many arguments a format takes that asks for no string.
def asks (format : List Byte) : Option Nat := (pieces format).bind (fun ps => if .string ∈ ps then none else some (used ps))

theorem words_render (ps : List Piece) (values : List Word) (wordy : .string ∉ ps) (enough : used ps = values.length) :
    ∃ out, render ps (values.map .word) = some out := by
  induction ps generalizing values with
  | nil => exact ⟨[], rfl⟩
  | cons piece ps ih =>
      have wordy' : .string ∉ ps := fun member => wordy (List.mem_cons_of_mem piece member)
      cases piece with
      | plain c =>
          obtain ⟨out, fits⟩ := ih values wordy' enough
          exact ⟨c :: out, by rw [render, fits, Option.map_some]⟩
      | string => exact absurd List.mem_cons_self wordy
      | number letter =>
          obtain ⟨value, rest, rfl⟩ := List.exists_cons_of_length_eq_add_one enough.symm
          obtain ⟨out, fits⟩ := ih rest wordy' (Nat.succ.inj enough)
          exact ⟨numeral letter value ++ out, by rw [List.map_cons, render, fits, Option.map_some]⟩
      | char =>
          obtain ⟨value, rest, rfl⟩ := List.exists_cons_of_length_eq_add_one enough.symm
          obtain ⟨out, fits⟩ := ih rest wordy' (Nat.succ.inj enough)
          exact ⟨value.setWidth 8 :: out, by rw [List.map_cons, render, fits, Option.map_some]⟩

theorem words_text (n : Nat) (format : List Byte) (asked : asks format = some n) (values : List Word) (given : n = values.length) :
    ∃ out, Line.text ⟨format, values.map .word⟩ = some out := by
  obtain ⟨ps, parsed, taken⟩ := Option.bind_eq_some_iff.mp asked
  by_cases wordy : .string ∈ ps
  · rw [if_pos wordy] at taken
    cases taken
  · rw [if_neg wordy] at taken
    obtain ⟨out, fits⟩ := words_render ps values wordy ((Option.some.inj taken).trans given)
    exact ⟨out, Option.bind_eq_some_iff.mpr ⟨ps, parsed, fits⟩⟩

-- Where a call is made: the string "(null)" and the array of printf, the
-- format, the first argument behind it, and the memory at the time.
structure Site where
  null : Word
  buf : Word
  format : Word
  arg : Word
  mem : Mem

structure Site.Makes (site : Site) (line : Line) : Prop where
  room : site.buf.toNat + 20 ≤ 2 ^ 32
  format : site.mem.Text site.format line.format
  off : Off site.buf site.format (line.format.length + 1)
  args : Passed site.null site.buf site.mem site.arg line.args

-- What printf prints goes to tty_putchar.
def say (s : Screen) (site : Site) : Comp Stop Screen := do
  let (out, _) ← printf site.null site.buf site.format site.arg ⟨site.mem, [], []⟩
  pure (run s (out.map .putchar))

def console (sites : List Site) (s : Screen) : Comp Stop Screen := sites.foldlM say s

theorem print_putchars (p : Page) (out : List Byte) : p.print (out.map .putchar) = out.foldl (fun p c => p.put c) p := by
  rw [Page.print, List.flatMap_map]
  exact congrArg (List.foldl (fun p c => Page.put c p) p) (List.flatMap_singleton' out)

section Calls

variable (site : Site) (line : Line) (out : List Byte) (s : Screen) (p : Page)

theorem say_returns (makes : site.Makes line) (text : line.text = some out) : (say s site).Returns (run s (out.map .putchar)) := by
  obtain ⟨ps, parsed, fits⟩ := Option.bind_eq_some_iff.mp text
  obtain ⟨t', printed, -⟩ := printf_returns site.null site.buf makes.room site.format site.arg ⟨site.mem, [], []⟩ line.format ps line.args out
    makes.format makes.off makes.args parsed fits
  exact (ends_bind_of_returns _ _ _ _ printed).mpr ((ends_pure _ _).mpr rfl)

end Calls

-- Wherever these calls are made from, each comes to its end, and the screen
-- then shows the page with all that they say behind what was on it.
def Displayed (lines : List Line) : Prop := ∃ text, spell lines = some text ∧
  ∀ sites, List.Forall₂ Site.Makes sites lines → ∀ s p, Shows s p → ∃ s', (console sites s).Returns s' ∧
    Shows s' (text.foldl (fun p c => p.put c) p) ∧ InBuffer s s'

theorem spell_of_text (lines : List Line) (sound : ∀ line ∈ lines, ∃ out, line.text = some out) : ∃ text, spell lines = some text := by
  induction lines with
  | nil => exact ⟨[], rfl⟩
  | cons line lines ih =>
      obtain ⟨here, said⟩ := sound line List.mem_cons_self
      obtain ⟨text, spelled⟩ := ih (fun other member => sound other (List.mem_cons_of_mem line member))
      exact ⟨here ++ text, by rw [spell, said, spelled]; rfl⟩

theorem console_shows (lines : List Line) (text : List Byte) (spelled : spell lines = some text) (sites : List Site)
    (made : List.Forall₂ Site.Makes sites lines) (s : Screen) (p : Page) (shows : Shows s p) :
    ∃ s', (console sites s).Returns s' ∧ Shows s' (text.foldl (fun p c => p.put c) p) ∧ InBuffer s s' := by
  induction made generalizing text s p with
  | nil =>
      obtain rfl : text = [] := (Option.some.inj spelled).symm
      exact ⟨s, (ends_pure _ _).mpr rfl, shows, Log.since_refl s.accesses⟩
  | @cons site line sites lines makes _ ih =>
      obtain ⟨here, said, spelled⟩ := Option.bind_eq_some_iff.mp spelled
      obtain ⟨rest, spelled', rfl⟩ := Option.map_eq_some_iff.mp spelled
      have printed := run_shows (here.map .putchar) s p shows
      rw [print_putchars] at printed
      obtain ⟨s', returned, shows', inside⟩ := ih rest spelled' _ _ printed
      refine ⟨s', ?_, ?_, ?_⟩
      · exact (ends_bind_of_returns _ _ _ _ (say_returns site line here s makes said)).mpr returned
      · rwa [List.foldl_append]
      · exact Log.since_trans _ _ _ (run_in _ s p shows) inside

theorem displayed (lines : List Line) (sound : ∀ line ∈ lines, ∃ out, line.text = some out) : Displayed lines := by
  obtain ⟨text, spelled⟩ := spell_of_text lines sound
  exact ⟨text, spelled, fun sites made s p shows => console_shows lines text spelled sites made s p shows⟩

end Deimos.Tty
