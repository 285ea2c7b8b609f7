import Mathlib.Algebra.Group.Nat.Defs
import Mathlib.Data.List.Basic
import Mathlib.Data.List.GetD

namespace ByteMemory

abbrev Memory := Nat → UInt8

/-- The bytes from `pos` on. -/
def read (m : Memory) (pos : Nat) : Nat → List UInt8
  | 0 => []
  | len + 1 => m pos :: read m (pos + 1) len

def write (m : Memory) (pos : Nat) (bytes : List UInt8) : Memory := fun i =>
  if pos ≤ i ∧ i < pos + bytes.length then bytes.getD (i - pos) 0 else m i

def leBytes : Nat → Nat → List UInt8
  | 0, _ => []
  | len + 1, value => UInt8.ofNat value :: leBytes len (value / 256)

def leValue : List UInt8 → Nat
  | [] => 0
  | byte :: bytes => byte.toNat + 256 * leValue bytes

def u32At (m : Memory) (pos : Nat) : Nat := leValue (read m pos 4)

section Values

@[simp] theorem leBytes_length (len value : Nat) : (leBytes len value).length = len := by
  induction len generalizing value with
  | zero => rfl
  | succ len ih => rw [leBytes, List.length_cons, ih]

theorem leValue_leBytes (len value : Nat) : leValue (leBytes len value) = value % 256 ^ len := by
  induction len generalizing value with
  | zero => rw [leBytes, leValue, Nat.pow_zero, Nat.mod_one]
  | succ len ih =>
    rw [leBytes, leValue, ih, UInt8.toNat_ofNat', @Nat.pow_succ' 256 len]
    exact Nat.mod_mul.symm

end Values

section Access

variable {m m' : Memory} {pos len : Nat} {bytes : List UInt8}

@[simp] theorem read_length (m : Memory) (pos len : Nat) : (read m pos len).length = len := by
  induction len generalizing pos with
  | zero => rfl
  | succ len ih => rw [read, List.length_cons, ih]

theorem read_congr (same : ∀ i, pos ≤ i → i < pos + len → m i = m' i) : read m pos len = read m' pos len := by
  induction len generalizing pos with
  | zero => rfl
  | succ len ih =>
    rw [read, read, same pos (Nat.le_refl _) (by omega), ih fun i low high => same i (by omega) (by omega)]

theorem read_append (m : Memory) (pos first second : Nat) :
    read m pos (first + second) = read m pos first ++ read m (pos + first) second := by
  induction first generalizing pos with
  | zero => rw [Nat.zero_add]; rfl
  | succ first ih =>
    rw [Nat.add_right_comm, read, ih, read, List.cons_append, Nat.add_right_comm pos 1 first,
      Nat.add_assoc pos first 1]

theorem write_outside {i : Nat} (outside : i < pos ∨ pos + bytes.length ≤ i) : write m pos bytes i = m i :=
  if_neg (by omega)

theorem read_write_apart {start : Nat} (apart : start + len ≤ pos ∨ pos + bytes.length ≤ start) :
    read (write m pos bytes) start len = read m start len :=
  read_congr fun _ low high => write_outside (by omega)

theorem read_eq_of_getD (same : ∀ i, i < bytes.length → m (pos + i) = bytes.getD i 0) :
    read m pos bytes.length = bytes := by
  induction bytes generalizing pos with
  | nil => rfl
  | cons byte bytes ih =>
    rw [List.length_cons, read]
    have first := same 0 (by simp)
    rw [Nat.add_zero] at first
    refine congrArg₂ _ first (ih fun i below => ?_)
    have next := same (i + 1) (by simpa using below)
    rw [Nat.add_right_comm, Nat.add_assoc, next]
    rfl

@[simp] theorem read_write_same (m : Memory) (pos : Nat) (bytes : List UInt8) :
    read (write m pos bytes) pos bytes.length = bytes := by
  refine read_eq_of_getD fun i below => ?_
  rw [write, if_pos (by omega), Nat.add_sub_cancel_left]

theorem read_write_of_length (m : Memory) (pos : Nat) (length : bytes.length = len) :
    read (write m pos bytes) pos len = bytes := by
  rw [← length, read_write_same]

theorem u32At_write_same (m : Memory) (pos value : Nat) (small : value < 2^32) :
    u32At (write m pos (leBytes 4 value)) pos = value := by
  rw [u32At, read_write_of_length _ _ (leBytes_length _ _), leValue_leBytes]
  exact Nat.mod_eq_of_lt (by omega)

theorem u32At_congr (same : ∀ i, pos ≤ i → i < pos + 4 → m i = m' i) : u32At m pos = u32At m' pos :=
  congrArg leValue (read_congr same)

theorem read_zero (zero : ∀ i, pos ≤ i → i < pos + len → m i = 0) :
    read m pos len = List.replicate len 0 := by
  induction len generalizing pos with
  | zero => rfl
  | succ len ih =>
    rw [read, zero pos (Nat.le_refl _) (by omega), ih fun i low high => zero i (by omega) (by omega)]
    rfl

theorem read_take {short : Nat} (shorter : short ≤ len) : (read m pos len).take short = read m pos short := by
  have split := read_append m pos short (len - short)
  rw [Nat.add_sub_cancel' shorter] at split
  rw [split]
  exact List.take_left' (read_length _ _ _)

theorem read_getD {i : Nat} (below : i < len) : (read m pos len).getD i 0 = m (pos + i) := by
  induction len generalizing pos i with
  | zero => omega
  | succ len ih =>
    rw [read]
    cases i with
    | zero => rfl
    | succ i =>
      rw [List.getD_cons_succ, ih (by omega)]
      congr 1
      omega

theorem write_over {old : List UInt8} (stored : read m pos old.length = old)
    (shorter : bytes.length ≤ old.length) :
    write m pos bytes = write m pos (bytes ++ old.drop bytes.length) := by
  have length : (bytes ++ old.drop bytes.length).length = old.length := by
    rw [List.length_append, List.length_drop]
    omega
  funext i
  unfold write
  rw [length]
  by_cases inside : pos ≤ i ∧ i < pos + bytes.length
  · rw [if_pos inside, if_pos (by omega), List.getD_append _ _ _ _ (by omega)]
  · rw [if_neg inside]
    split
    · have after : bytes.length ≤ i - pos := by omega
      rw [List.getD_append_right _ _ _ _ after, List.getD_eq_getElem?_getD, List.getElem?_drop,
        Nat.add_sub_cancel' after, ← List.getD_eq_getElem?_getD]
      have same := @read_getD m pos old.length (i - pos) (by omega)
      rw [stored, Nat.add_sub_cancel' (by omega)] at same
      exact same.symm
    · rfl

theorem write_read (m : Memory) (pos len : Nat) : write m pos (read m pos len) = m := by
  funext i
  unfold write
  split
  · rename_i inside
    rw [read_length] at inside
    rw [read_getD (by omega)]
    congr 1
    omega
  · rfl

end Access

end ByteMemory
