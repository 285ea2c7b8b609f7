import SharedHashFile.ByteMemory.ByteMemory

namespace SharedHashFile.Log

open ByteMemory

def shfLogBufferSize : Nat := 4096

theorem shfLogBufferSize_pos : 0 < shfLogBufferSize := by decide

/-- A write to a buffer of `SHF_LOG_BUFFER_SIZE` bytes; `none` is a write past it. -/
def store (buffer : Memory) (pos : Nat) (bytes : List UInt8) : Option Memory :=
  if pos + bytes.length ≤ shfLogBufferSize then some (write buffer pos bytes) else none

/-- `vsnprintf` with the text its format and arguments make; a length which is no `int` is an error. -/
def vsnprintf (buffer : Memory) (pos n : Nat) (text : List UInt8) : Option (Memory × Int) :=
  if text.length < 2^31 then do
    let buffer ← if n = 0 then some buffer else store buffer pos (text.take (n - 1) ++ [0])
    some (buffer, text.length)
  else some (buffer, -1)

/-- The two dots, the newline and the `NUL` of `shf_log_safe_append`. -/
def truncationMarker : List UInt8 := [46, 46, 10, 0]

structure LogBuffer where
  bytes : Memory
  index : Nat

/-- `shf_log_safe_append`. -/
def shfLogSafeAppend (buffer : Memory) (index : Nat) (appended : Int) : Option (LogBuffer × Bool) :=
  if appended < 0 ∨ (shfLogBufferSize + 2^32 - index) % 2^32 ≤ appended.toNat then do
    let buffer ← store buffer (shfLogBufferSize - 4) truncationMarker
    some (⟨buffer, index⟩, false)
  else some (⟨buffer, (index + appended.toNat) % 2^32⟩, true)

/-- `shf_log_safe_append` of what `snprintf` wrote at the index. -/
def LogBuffer.append (b : LogBuffer) (text : List UInt8) : Option (LogBuffer × Bool) := do
  let (buffer, appended) ← vsnprintf b.bytes b.index ((shfLogBufferSize + 2^32 - b.index) % 2^32) text
  shfLogSafeAppend buffer b.index appended

def LogBuffer.appendAll (b : LogBuffer) : List (List UInt8) → Option LogBuffer
  | [] => some b
  | text :: rest => do
    let (b, fits) ← b.append text
    if fits then b.appendAll rest else some b

/-- What `shf_log` passes to the output function; `stack` is what its buffer holds before, `none` a `NULL`. -/
def shfLog (stack : Memory) (logPrefix formatUser : List UInt8) (strError eol : Option (List UInt8)) :
    Option (List UInt8) := do
  let b ← (LogBuffer.mk stack 0).appendAll [logPrefix, formatUser, strError.getD [], eol.getD []]
  some (read b.bytes 0 b.index)

structure LogBuffer.Holds (b : LogBuffer) (done : List UInt8) : Prop where
  index : b.index = done.length
  short : done.length < shfLogBufferSize
  text : read b.bytes 0 done.length = done

def cut (done : List UInt8) : List UInt8 := (done.take (shfLogBufferSize - 4) ++ truncationMarker).take done.length

section Appending

variable {b : LogBuffer} {buffer : Memory} {done text : List UInt8}

theorem room_eq (short : done.length < shfLogBufferSize) :
    (shfLogBufferSize + 2^32 - done.length) % 2^32 = shfLogBufferSize - done.length := by
  unfold shfLogBufferSize at *
  omega

theorem vsnprintf_behind (short : done.length < shfLogBufferSize) (held : read buffer 0 done.length = done) :
    ∃ buffer', vsnprintf buffer done.length (shfLogBufferSize - done.length) text =
        some (buffer', if text.length < 2^31 then (text.length : Int) else -1) ∧
      read buffer' 0 done.length = done ∧
      (done.length + text.length < shfLogBufferSize → read buffer' done.length text.length = text) := by
  unfold vsnprintf
  by_cases int : text.length < 2^31
  · rw [if_pos int, if_neg (Nat.sub_ne_zero_of_lt short), if_pos int]
    have length : (text.take (shfLogBufferSize - done.length - 1) ++ [0]).length ≤ shfLogBufferSize - done.length := by
      rw [List.length_append, List.length_take, List.length_singleton]
      omega
    have inside : done.length + (text.take (shfLogBufferSize - done.length - 1) ++ [0]).length ≤ shfLogBufferSize := by
      omega
    refine ⟨write buffer done.length (text.take (shfLogBufferSize - done.length - 1) ++ [0]), ?_, ?_, fun fits => ?_⟩
    · rw [store, if_pos inside]
      rfl
    · rw [read_write_apart (.inl (by omega)), held]
    · have whole : text.take (shfLogBufferSize - done.length - 1) = text := List.take_of_length_le (by omega)
      have both := read_write_same buffer done.length (text ++ [0])
      rw [whole]
      calc read (write buffer done.length (text ++ [0])) done.length text.length
          = (read (write buffer done.length (text ++ [0])) done.length (text ++ [0]).length).take text.length :=
            (read_take (by rw [List.length_append]; omega)).symm
        _ = text := by rw [both, List.take_left]
  · rw [if_neg int, if_neg int]
    refine ⟨buffer, rfl, held, fun fits => ?_⟩
    unfold shfLogBufferSize at fits
    omega

theorem read_marked (short : done.length < shfLogBufferSize) (held : read buffer 0 done.length = done) :
    read (write buffer (shfLogBufferSize - 4) truncationMarker) 0 done.length = cut done := by
  have four : truncationMarker.length = 4 := rfl
  unfold cut
  by_cases before : done.length ≤ shfLogBufferSize - 4
  · rw [read_write_apart (.inl (by omega)), held, List.take_of_length_le before, List.take_left]
  · have split : done.length = (shfLogBufferSize - 4) + (done.length - (shfLogBufferSize - 4)) := by omega
    have front : read buffer 0 (shfLogBufferSize - 4) = done.take (shfLogBufferSize - 4) := by
      rw [← read_take (Nat.le_of_lt (Nat.lt_of_not_le before)), held]
    have length : (done.take (shfLogBufferSize - 4)).length = shfLogBufferSize - 4 := by
      rw [List.length_take]
      omega
    have marker := read_write_same buffer (shfLogBufferSize - 4) truncationMarker
    have most : done.length - (shfLogBufferSize - 4) ≤ truncationMarker.length := by
      unfold shfLogBufferSize at *
      omega
    have part := @read_take (write buffer (shfLogBufferSize - 4) truncationMarker) (shfLogBufferSize - 4) _ _ most
    rw [marker] at part
    have front_le : (done.take (shfLogBufferSize - 4)).length ≤ done.length := by omega
    calc read (write buffer (shfLogBufferSize - 4) truncationMarker) 0 done.length
        = read (write buffer (shfLogBufferSize - 4) truncationMarker) 0 (shfLogBufferSize - 4) ++
          read (write buffer (shfLogBufferSize - 4) truncationMarker) (0 + (shfLogBufferSize - 4))
            (done.length - (shfLogBufferSize - 4)) := by rw [← read_append, ← split]
      _ = done.take (shfLogBufferSize - 4) ++ truncationMarker.take (done.length - (shfLogBufferSize - 4)) := by
        rw [read_write_apart (.inl (by omega)), front, Nat.zero_add, part]
      _ = (done.take (shfLogBufferSize - 4) ++ truncationMarker).take done.length := by
        rw [List.take_append, List.take_of_length_le front_le, length]

theorem append_fits (holds : b.Holds done) (fits : done.length + text.length < shfLogBufferSize) :
    ∃ b', b.append text = some (b', true) ∧ b'.Holds (done ++ text) := by
  rcases b with ⟨buffer, index⟩
  rcases holds with ⟨rfl, short, held⟩
  rcases @vsnprintf_behind buffer done text short held with ⟨buffer', run, before, behind⟩
  have int : text.length < 2^31 := by
    unfold shfLogBufferSize at fits
    omega
  have small : (done.length + text.length) % 2^32 = (done ++ text).length := by
    rw [List.length_append]
    unfold shfLogBufferSize at fits
    omega
  rw [if_pos int] at run
  refine ⟨⟨buffer', (done ++ text).length⟩, ?_, rfl, ?_, ?_⟩
  · simp only [LogBuffer.append, room_eq short, run, Option.bind_eq_bind, Option.bind_some, shfLogSafeAppend, Int.toNat_natCast]
    rw [if_neg, small]
    rintro (negative | full)
    · omega
    · omega
  · rw [List.length_append]
    exact fits
  · rw [List.length_append, read_append, before, Nat.zero_add, behind fits]

theorem append_full (holds : b.Holds done) (full : shfLogBufferSize ≤ done.length + text.length) :
    ∃ b', b.append text = some (b', false) ∧ b'.index = done.length ∧ read b'.bytes 0 done.length = cut done := by
  rcases b with ⟨buffer, index⟩
  rcases holds with ⟨rfl, short, held⟩
  rcases @vsnprintf_behind buffer done text short held with ⟨buffer', run, before, _⟩
  refine ⟨⟨write buffer' (shfLogBufferSize - 4) truncationMarker, done.length⟩, ?_, rfl, read_marked short before⟩
  simp only [LogBuffer.append, room_eq short, run, Option.bind_eq_bind, Option.bind_some, shfLogSafeAppend]
  have marked : store buffer' (shfLogBufferSize - 4) truncationMarker =
      some (write buffer' (shfLogBufferSize - 4) truncationMarker) := if_pos (by decide)
  rw [if_pos, marked]
  · rfl
  · split
    · right
      rw [Int.toNat_natCast]
      omega
    · left
      decide

end Appending

def fitting (length : Nat) : List (List UInt8) → List UInt8
  | [] => []
  | text :: rest => if length + text.length < shfLogBufferSize then text ++ fitting (length + text.length) rest else []

section Assembly

variable {b : LogBuffer} {done : List UInt8} {texts : List (List UInt8)}

theorem appendAll_reads (holds : b.Holds done) : ∃ b', b.appendAll texts = some b' ∧
    read b'.bytes 0 b'.index = if done.length + texts.flatten.length < shfLogBufferSize then done ++ texts.flatten
      else cut (done ++ fitting done.length texts) := by
  induction texts generalizing b done with
  | nil =>
    rw [List.flatten_nil, List.length_nil, Nat.add_zero, if_pos holds.short, List.append_nil]
    exact ⟨b, rfl, by rw [holds.index, holds.text]⟩
  | cons text rest ih =>
    rw [List.flatten_cons, List.length_append, fitting]
    by_cases fits : done.length + text.length < shfLogBufferSize
    · rcases append_fits holds fits with ⟨b1, run, holds1⟩
      rcases ih holds1 with ⟨b', run', text'⟩
      refine ⟨b', ?_, ?_⟩
      · simp only [LogBuffer.appendAll, run, Option.bind_eq_bind, Option.bind_some, if_true, run']
      · rw [text', List.length_append, if_pos fits, Nat.add_assoc, List.append_assoc, List.append_assoc]
    · rcases append_full holds (Nat.le_of_not_lt fits) with ⟨b', run, index, text'⟩
      refine ⟨b', ?_, ?_⟩
      · simp only [LogBuffer.appendAll, run, Option.bind_eq_bind, Option.bind_some]
        rfl
      · rw [if_neg fits, if_neg (by omega), List.append_nil, index, text']

theorem fitting_prefix (length : Nat) (texts : List (List UInt8)) : fitting length texts <+: texts.flatten := by
  induction texts generalizing length with
  | nil => exact List.prefix_refl []
  | cons text rest ih =>
    rw [fitting, List.flatten_cons]
    split
    · exact (List.prefix_append_right_inj text).mpr (ih _)
    · exact List.nil_prefix

theorem fitting_short {length : Nat} (short : length < shfLogBufferSize) (texts : List (List UInt8)) :
    length + (fitting length texts).length < shfLogBufferSize := by
  induction texts generalizing length with
  | nil => exact short
  | cons text rest ih =>
    rw [fitting]
    split
    · rename_i fits
      rw [List.length_append, ← Nat.add_assoc]
      exact ih fits
    · exact short

theorem cut_length (short : done.length < shfLogBufferSize) : (cut done).length = done.length := by
  have four : truncationMarker.length = 4 := rfl
  unfold cut
  rw [List.length_take, List.length_append, List.length_take, four]
  omega

/-- What the four texts are to become: all of it, or what fits with the marker. -/
def assembled (texts : List (List UInt8)) : List UInt8 :=
  if texts.flatten.length < shfLogBufferSize then texts.flatten
  else texts.flatten.take (shfLogBufferSize - 4) ++ [46, 46, 10]

theorem cut_eq_assembled (long : shfLogBufferSize ≤ texts.flatten.length) :
    cut (fitting 0 texts) = assembled texts ↔ (fitting 0 texts).length = shfLogBufferSize - 1 := by
  have short := @fitting_short 0 (by decide) texts
  rw [Nat.zero_add] at short
  have four : shfLogBufferSize - 4 ≤ shfLogBufferSize - 1 := Nat.sub_le_sub_left (by decide) _
  rw [assembled, if_neg (Nat.not_lt.mpr long)]
  constructor
  · intro same
    rw [← cut_length short, same, List.length_append, List.length_take]
    change min (shfLogBufferSize - 4) texts.flatten.length + 3 = _
    rw [Nat.min_eq_left (Nat.le_trans (Nat.sub_le _ _) long)]
    rfl
  · intro last
    rcases fitting_prefix 0 texts with ⟨rest, whole⟩
    have front : texts.flatten.take (shfLogBufferSize - 4) = (fitting 0 texts).take (shfLogBufferSize - 4) := by
      rw [← whole, List.take_append_of_le_length (by rw [last]; exact four)]
    have length : ((fitting 0 texts).take (shfLogBufferSize - 4)).length = shfLogBufferSize - 4 := by
      rw [List.length_take, last, Nat.min_eq_left four]
    rw [cut, front, last, List.take_append, List.take_of_length_le (by rw [length]; exact four), length]
    rfl

theorem shfLog_run (stack : Memory) (logPrefix formatUser : List UInt8) (strError eol : Option (List UInt8)) :
    shfLog stack logPrefix formatUser strError eol =
      some (if [logPrefix, formatUser, strError.getD [], eol.getD []].flatten.length < shfLogBufferSize then
        [logPrefix, formatUser, strError.getD [], eol.getD []].flatten
      else cut (fitting 0 [logPrefix, formatUser, strError.getD [], eol.getD []])) := by
  have empty : (LogBuffer.mk stack 0).Holds [] := ⟨rfl, by decide, rfl⟩
  unfold shfLog
  generalize [logPrefix, formatUser, strError.getD [], eol.getD []] = texts
  rcases @appendAll_reads _ _ texts empty with ⟨b', run, text⟩
  simp only [run, Option.bind_eq_bind, Option.bind_some, text, List.length_nil, Nat.zero_add, List.nil_append]

end Assembly

/-- What `shf_log` passes on is what the four texts are to become exactly if they fit, or if some of them fill the
    buffer but for its last byte. -/
theorem shfLog_assembles_iff (stack : Memory) (logPrefix formatUser : List UInt8) (strError eol : Option (List UInt8)) :
    shfLog stack logPrefix formatUser strError eol =
        some (assembled [logPrefix, formatUser, strError.getD [], eol.getD []]) ↔
      logPrefix.length + formatUser.length + (strError.getD []).length + (eol.getD []).length < shfLogBufferSize ∨
        logPrefix.length = shfLogBufferSize - 1 ∨ logPrefix.length + formatUser.length = shfLogBufferSize - 1 ∨
        logPrefix.length + formatUser.length + (strError.getD []).length = shfLogBufferSize - 1 := by
  rw [shfLog_run, Option.some_inj]
  generalize strError.getD [] = error
  generalize eol.getD [] = ending
  have total : [logPrefix, formatUser, error, ending].flatten.length =
      logPrefix.length + formatUser.length + error.length + ending.length := by
    simp only [List.flatten_cons, List.flatten_nil, List.length_append, List.length_nil]
    omega
  by_cases fits : [logPrefix, formatUser, error, ending].flatten.length < shfLogBufferSize
  · rw [if_pos fits, assembled, if_pos fits]
    rw [total] at fits
    exact iff_of_true rfl (.inl fits)
  · rw [if_neg fits, cut_eq_assembled (Nat.le_of_not_lt fits)]
    rw [total] at fits
    have last : (fitting 0 [logPrefix, formatUser, error, ending]).length = shfLogBufferSize - 1 ↔
        logPrefix.length = shfLogBufferSize - 1 ∨ logPrefix.length + formatUser.length = shfLogBufferSize - 1 ∨
        logPrefix.length + formatUser.length + error.length = shfLogBufferSize - 1 := by
      unfold shfLogBufferSize at *
      simp only [fitting, Nat.zero_add]
      unfold shfLogBufferSize
      by_cases first : logPrefix.length < 4096
      · rw [if_pos first]
        split_ifs <;> simp only [List.length_append, List.length_nil] <;> omega
      · rw [if_neg first, List.length_nil]
        omega
    rw [last]
    exact ⟨.inr, fun either => either.resolve_left fits⟩

/-- A message of 4096 bytes behind a prefix of one byte is passed on as the prefix alone. -/
theorem longMessage_not_assembled : ¬ ∀ (stack : Memory) (logPrefix formatUser : List UInt8)
    (strError eol : Option (List UInt8)), shfLog stack logPrefix formatUser strError eol =
      some (assembled [logPrefix, formatUser, strError.getD [], eol.getD []]) := by
  intro assembles
  rcases (⟨List.replicate shfLogBufferSize 65, List.length_replicate⟩ : ∃ message : List UInt8,
    message.length = shfLogBufferSize) with ⟨message, length⟩
  have long := assembles (fun _ => 0) [63] message none none
  have total : [[63], message, [], []].flatten.length = 1 + shfLogBufferSize := by
    simp only [List.flatten_cons, List.flatten_nil, List.length_append, List.length_nil, List.length_singleton, length]
    rfl
  have only : fitting 0 [[63], message, [], []] = [63] := by
    rw [fitting, fitting, if_pos (by decide), if_neg]
    · rfl
    · rw [length]
      omega
  change shfLog (fun _ => 0) [63] message none none = some (assembled [[63], message, [], []]) at long
  rw [shfLog_run] at long
  change some (if [[63], message, [], []].flatten.length < shfLogBufferSize then [[63], message, [], []].flatten
    else cut (fitting 0 [[63], message, [], []])) = _ at long
  rw [if_neg (by omega), Option.some_inj, cut_eq_assembled (by omega), only] at long
  exact absurd long (by decide)

end SharedHashFile.Log
