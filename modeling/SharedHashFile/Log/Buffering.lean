import Mathlib.Data.List.TakeWhile
import SharedHashFile.Log.Lines

namespace SharedHashFile.Log

open ByteMemory

/-- What a string holds: no `NUL`. -/
abbrev Text := { bytes : List UInt8 // (0 : UInt8) ∉ bytes }

/-- The bytes up to a `NUL`, which are all that `%.*s` prints. -/
def cString (bytes : List UInt8) : List UInt8 := bytes.takeWhile (· ≠ 0)

/-- `shf_log_fprintf_buffer` with its index, and what `shf_log` has passed on of it. -/
structure FprintfState where
  buffer : LogBuffer
  lines : List (List UInt8)

def FprintfState.initial : FprintfState := ⟨⟨fun _ => 0, 0⟩, []⟩

def FprintfState.pending (s : FprintfState) : List UInt8 := read s.buffer.bytes 0 s.buffer.index

/-- `shf_log_vfprintf` with the text its format and arguments make; `none` is an access outside of the buffer. -/
def shfLogVfprintf (stack : Memory) (s : FprintfState) (text : List UInt8) : Option (FprintfState × Int) := do
  let (b, _) ← s.buffer.append text
  let len := (b.index : Int) - s.buffer.index
  let last := (b.index + 2^32 - 1) % 2^32
  if shfLogBufferSize ≤ last then none
  else if b.bytes last = 10 then do
    let line ← shfLog stack [] (cString (read b.bytes 0 b.index)) none none
    some (⟨{ b with index := 0 }, s.lines ++ [line]⟩, len)
  else some ({ s with buffer := b }, len)

def shfLogFprintf (stack : Memory) (s : FprintfState) (text : List UInt8) : Option FprintfState := do
  let (s, _) ← shfLogVfprintf stack s text
  some s

def shfLogFputs (stack : Memory) (s : FprintfState) (string : List UInt8) : Option FprintfState :=
  shfLogFprintf stack s string

def shfLogFputc (stack : Memory) (s : FprintfState) (character : UInt8) : Option FprintfState :=
  shfLogFprintf stack s [character]

inductive Fragment
  | fprintf (formatted : Text)
  | fputs (string : Text)
  | fputc (character : { byte : UInt8 // byte ≠ 0 })

def Fragment.text : Fragment → List UInt8
  | .fprintf formatted => formatted.val
  | .fputs string => string.val
  | .fputc character => [character.val]

def Fragment.call (stack : Memory) (s : FprintfState) : Fragment → Option FprintfState
  | .fprintf formatted => shfLogFprintf stack s formatted.val
  | .fputs string => shfLogFputs stack s string.val
  | .fputc character => shfLogFputc stack s character.val

/-- Each fragment keeps inside of the buffer, is appended to what was emitted or waits, and makes a line of what
    waited exactly if that ends in a newline. -/
def Buffers (s : FprintfState) : List Fragment → Prop
  | [] => True
  | fragment :: rest => ∀ stack, ∃ s', fragment.call stack s = some s' ∧
      s'.lines.flatten ++ s'.pending = s.lines.flatten ++ s.pending ++ fragment.text ∧
      s'.lines = (if (s.pending ++ fragment.text).getLast? = some 10 then s.lines ++ [s.pending ++ fragment.text]
        else s.lines) ∧ Buffers s' rest

def remaining (pending text : List UInt8) : List UInt8 :=
  if (pending ++ text).getLast? = some 10 then [] else pending ++ text

def FitsAll (pending : List UInt8) : List Fragment → Prop
  | [] => True
  | fragment :: rest => pending ++ fragment.text ≠ [] ∧ pending.length + fragment.text.length < shfLogBufferSize ∧
      FitsAll (remaining pending fragment.text) rest

section Fragments

-- the size is a number too large to be taken apart
attribute [local irreducible] shfLogBufferSize

variable {s : FprintfState} {stack : Memory} {pending text : List UInt8} {fragment : Fragment}

theorem Fragment.call_eq : fragment.call stack s = shfLogFprintf stack s fragment.text := by
  cases fragment <;> rfl

theorem Fragment.text_nul : (0 : UInt8) ∉ fragment.text := by
  cases fragment with
  | fprintf formatted => exact formatted.property
  | fputs string => exact string.property
  | fputc character => simp [Fragment.text, character.property.symm]

theorem cString_eq (nul : (0 : UInt8) ∉ text) : cString text = text := by
  apply List.takeWhile_eq_self_iff.mpr
  intro byte member
  apply decide_eq_true
  rintro rfl
  exact nul member

theorem cString_length_le : (cString text).length ≤ text.length := (List.takeWhile_prefix _).length_le

theorem shfLog_short (short : text.length < shfLogBufferSize) : shfLog stack [] text none none = some text := by
  have whole : [[], text, (none : Option (List UInt8)).getD [], (none : Option (List UInt8)).getD []].flatten = text := by
    simp only [List.flatten_cons, List.flatten_nil, List.nil_append, List.append_nil, Option.getD_none]
  rw [shfLog_run, whole, if_pos short]

theorem last_byte {b : LogBuffer} (holds : b.Holds text) (some_ : text ≠ []) :
    (b.index + 2^32 - 1) % 2^32 < shfLogBufferSize ∧
      (b.bytes ((b.index + 2^32 - 1) % 2^32) = 10 ↔ text.getLast? = some 10) := by
  rcases holds with ⟨index, short, held⟩
  have positive := List.length_pos_of_ne_nil some_
  have last : (b.index + 2^32 - 1) % 2^32 = text.length - 1 := by
    rw [index]
    unfold shfLogBufferSize at short
    omega
  have byte : text.getD (text.length - 1) 0 = b.bytes (text.length - 1) := by
    have at_ := @read_getD b.bytes 0 text.length (text.length - 1) (by omega)
    rwa [held, Nat.zero_add] at at_
  have getLast : text.getLast? = some (text.getD (text.length - 1) 0) := by
    rw [List.getLast?_eq_getElem?, List.getD_eq_getElem?_getD, List.getElem?_eq_getElem (by omega), Option.getD_some]
  rw [last, getLast, byte, Option.some_inj]
  exact ⟨by omega, Iff.rfl⟩

theorem fprintf_appended {b : LogBuffer} {fits : Bool} (run : s.buffer.append text = some (b, fits)) :
    shfLogFprintf stack s text = if shfLogBufferSize ≤ (b.index + 2^32 - 1) % 2^32 then none
      else if b.bytes ((b.index + 2^32 - 1) % 2^32) = 10 then
        (shfLog stack [] (cString (read b.bytes 0 b.index)) none none).map fun line =>
          ⟨{ b with index := 0 }, s.lines ++ [line]⟩
      else some { s with buffer := b } := by
  unfold shfLogFprintf shfLogVfprintf
  rw [run]
  simp only [Option.bind_eq_bind]
  rw [Option.bind_some]
  generalize (b.index + 2^32 - 1) % 2^32 = last
  by_cases outside : shfLogBufferSize ≤ last
  · rw [if_pos outside, if_pos outside]
    rfl
  · rw [if_neg outside, if_neg outside]
    by_cases newline : b.bytes last = 10
    · rw [if_pos newline, if_pos newline]
      cases shfLog stack [] (cString (read b.bytes 0 b.index)) none none <;> rfl
    · rw [if_neg newline, if_neg newline]
      rfl

theorem fprintf_fits (holds : s.buffer.Holds pending) (pendingNul : (0 : UInt8) ∉ pending) (textNul : (0 : UInt8) ∉ text)
    (some_ : pending ++ text ≠ []) (fits : pending.length + text.length < shfLogBufferSize) :
    ∃ s', shfLogFprintf stack s text = some s' ∧ s'.buffer.Holds (remaining pending text) ∧
      s'.lines = if (pending ++ text).getLast? = some 10 then s.lines ++ [pending ++ text] else s.lines := by
  rcases append_fits holds fits with ⟨b, run, holds'⟩
  rcases last_byte holds' some_ with ⟨inside, newline⟩
  have nul : (0 : UInt8) ∉ pending ++ text := fun member => (List.mem_append.mp member).elim pendingNul textNul
  have held : read b.bytes 0 b.index = pending ++ text := by rw [holds'.index, holds'.text]
  rw [fprintf_appended run, if_neg (Nat.not_le.mpr inside)]
  unfold remaining
  by_cases ends : (pending ++ text).getLast? = some 10
  · rw [if_pos (newline.mpr ends), held, cString_eq nul, shfLog_short holds'.short, if_pos ends, if_pos ends]
    exact ⟨_, rfl, ⟨rfl, shfLogBufferSize_pos, rfl⟩, rfl⟩
  · rw [if_neg (mt newline.mp ends), if_neg ends, if_neg ends]
    exact ⟨_, rfl, holds', rfl⟩

theorem fprintf_full {s' : FprintfState} (holds : s.buffer.Holds pending)
    (full : shfLogBufferSize ≤ pending.length + text.length) (run : shfLogFprintf stack s text = some s') :
    (s'.lines.flatten ++ s'.pending).length ≤ (s.lines.flatten ++ pending).length := by
  rcases append_full holds full with ⟨b, appended, index, _⟩
  have short := holds.short
  rw [fprintf_appended appended] at run
  split at run
  · cases run
  · split at run
    · have line_le : (cString (read b.bytes 0 b.index)).length ≤ pending.length := by
        apply Nat.le_trans cString_length_le
        rw [read_length, index]
      rw [shfLog_short (by omega)] at run
      cases run
      simp only [List.flatten_append, List.flatten_singleton, FprintfState.pending, List.length_append, read_length]
      omega
    · cases run
      simp only [FprintfState.pending, List.length_append, read_length, index]
      omega

theorem fprintf_nothing (holds : s.buffer.Holds []) : shfLogFprintf stack s [] = none := by
  rcases @append_fits _ _ [] holds shfLogBufferSize_pos with ⟨b, run, holds'⟩
  have outside : shfLogBufferSize ≤ (b.index + 2^32 - 1) % 2^32 := by
    have index : b.index = 0 := holds'.index
    rw [index]
    unfold shfLogBufferSize
    decide
  rw [fprintf_appended run, if_pos outside]

theorem buffers_iff {fragments : List Fragment} (holds : s.buffer.Holds pending) (nul : (0 : UInt8) ∉ pending) :
    Buffers s fragments ↔ FitsAll pending fragments := by
  induction fragments generalizing s pending with
  | nil => exact Iff.rfl
  | cons fragment rest ih =>
    have pending_eq : s.pending = pending := by rw [FprintfState.pending, holds.index, holds.text]
    have textNul := @Fragment.text_nul fragment
    constructor
    · intro buffers
      rcases buffers fun _ => 0 with ⟨s', call, concatenation, lines, rest_⟩
      rw [Fragment.call_eq] at call
      rw [pending_eq] at concatenation lines
      have some_ : pending ++ fragment.text ≠ [] := by
        intro none_
        rcases List.append_eq_nil_iff.mp none_ with ⟨noPending, noText⟩
        rw [noPending] at holds
        rw [noText, fprintf_nothing holds] at call
        cases call
      have fits : pending.length + fragment.text.length < shfLogBufferSize := by
        by_contra full
        have lost := fprintf_full holds (Nat.le_of_not_lt full) call
        have short := holds.short
        rw [concatenation, List.length_append] at lost
        omega
      rcases @fprintf_fits s (fun _ => 0) _ _ holds nul textNul some_ fits with ⟨s1, call1, holds1, _⟩
      rw [call] at call1
      cases call1
      refine ⟨some_, fits, (ih holds1 ?_).mp rest_⟩
      unfold remaining
      split
      · exact List.not_mem_nil
      · exact fun member => (List.mem_append.mp member).elim nul textNul
    · rintro ⟨some_, fits, rest_⟩ stack
      rcases @fprintf_fits s stack _ _ holds nul textNul some_ fits with ⟨s', call, holds', lines⟩
      have pending' : s'.pending = remaining pending fragment.text := by
        rw [FprintfState.pending, holds'.index, holds'.text]
      rw [Fragment.call_eq, pending_eq]
      refine ⟨s', call, ?_, lines, (ih holds' ?_).mpr rest_⟩
      · rw [lines, pending']
        unfold remaining
        split
        · rw [List.flatten_append, List.flatten_singleton, List.append_nil, List.append_assoc]
        · rw [List.append_assoc]
      · unfold remaining
        split
        · exact List.not_mem_nil
        · exact fun member => (List.mem_append.mp member).elim nul textNul

end Fragments

/-- Fragments are buffered by lines exactly if each fits behind what waits, and none is empty where nothing waits. -/
theorem fragments_buffered_iff (fragments : List Fragment) :
    Buffers FprintfState.initial fragments ↔ FitsAll [] fragments :=
  buffers_iff ⟨rfl, shfLogBufferSize_pos, rfl⟩ List.not_mem_nil

/-- `shf_log_fputs("", stream)` on an empty buffer looks at the byte before it. -/
theorem emptyFragment_not_buffered : ¬ ∀ fragments, Buffers FprintfState.initial fragments := by
  intro buffers
  rcases buffers [.fputs ⟨[], List.not_mem_nil⟩] fun _ => 0 with ⟨s', call, _⟩
  rw [Fragment.call_eq] at call
  have nothing := @fprintf_nothing FprintfState.initial (fun _ => 0) ⟨rfl, shfLogBufferSize_pos, rfl⟩
  change shfLogFprintf (fun _ => 0) FprintfState.initial [] = some s' at call
  rw [nothing] at call
  cases call

end SharedHashFile.Log
