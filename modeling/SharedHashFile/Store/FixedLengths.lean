import SharedHashFile.Store.MapRefinement

namespace SharedHashFile.Store

open Program

/-- A store with these lengths is a finite map, for every client which keeps to them. -/
def FixedStoreIsMap (keyLen valLen : Nat) : Prop :=
  ∀ cfg : Config, cfg.isFixedKeyValLen = true → cfg.fixedKeyLen = keyLen → cfg.fixedValLen = valLen →
    ∀ (hashOf : List UInt8 → Hash) (vfs : Nat → Nat) (calls : List KeyCall),
      (∀ call ∈ calls, call.call.Accepted cfg) → PutsAbsent (fun _ => none) calls →
      (runCalls mapped cfg hashOf (calls.map KeyCall.call) (State.initial vfs Tls.initial)).peak < 2^32 →
      AnswersAsMap cfg hashOf vfs calls

def fixedConfig (keyLen valLen : Nat) : Config := ⟨true, keyLen, valLen, 1, oneFactor_lt⟩

def collidingRun (keyLen valLen : Nat) (calls : List KeyCall) : Outcome Stop (State Disk) (List Answer) :=
  runCalls mapped (fixedConfig keyLen valLen) (fun _ => 0) (calls.map KeyCall.call)
    (State.initial (fun _ => 2^40) Tls.initial)

def fixedKey (keyLen : Nat) (byte : UInt8) : List UInt8 := List.replicate keyLen byte

def fixedPut (keyLen valLen : Nat) (byte : UInt8) : KeyCall :=
  .put (fixedKey keyLen byte) (.copy (List.replicate valLen byte))

section Lengths

variable {keyLen valLen : Nat}

theorem fixedPut_accepted (byte : UInt8) : (fixedPut keyLen valLen byte).call.Accepted (fixedConfig keyLen valLen) :=
  ⟨fun _ => ⟨List.length_replicate, List.length_replicate⟩, fun _ => ⟨_, rfl⟩⟩

theorem find_accepted {cfg : Config} (key : List UInt8) (op : Op) : (KeyCall.find key op).call.Accepted cfg := trivial

theorem fixedKey_injective (positive : 1 ≤ keyLen) {byte byte' : UInt8} :
    fixedKey keyLen byte = fixedKey keyLen byte' ↔ byte = byte' :=
  List.replicate_right_inj (by omega)

/-- One record is deleted next to another. -/
def relinkCalls (keyLen valLen : Nat) : List KeyCall :=
  [fixedPut keyLen valLen 0, fixedPut keyLen valLen 1, .find (fixedKey keyLen 0) .delete,
    .find (fixedKey keyLen 1) .getVal]

/-- Deleted records are used again in another order. -/
def overlapCalls (keyLen valLen : Nat) : List KeyCall :=
  [fixedPut keyLen valLen 0, fixedPut keyLen valLen 1, fixedPut keyLen valLen 2, fixedPut keyLen valLen 3,
    fixedPut keyLen valLen 4, fixedPut keyLen valLen 5, .find (fixedKey keyLen 0) .delete,
    .find (fixedKey keyLen 1) .delete, fixedPut keyLen valLen 6, fixedPut keyLen valLen 7, fixedPut keyLen valLen 8]

/-- The link of a deleted record of less than 8 bytes is in the next record's first bytes. -/
theorem relinkCalls_run : ∀ keyLen ∈ List.range 7, ∀ valLen ∈ List.range 7, 1 ≤ keyLen → 4 ≤ keyLen + valLen →
    keyLen + valLen ≤ 6 → (collidingRun keyLen valLen (relinkCalls keyLen valLen)).peak < 2^32 ∧
      (collidingRun keyLen valLen (relinkCalls keyLen valLen)).value.toOption.map (List.map Answer.code) =
        some [retKeyPut, retKeyPut, retKeyFound, retKeyNone] := by
  decide +kernel

theorem overlapCalls_run : ∀ keyLen ∈ List.range 8, ∀ valLen ∈ List.range 7, 1 ≤ keyLen → keyLen + valLen = 7 →
    (collidingRun keyLen valLen (overlapCalls keyLen valLen)).peak < 2^32 ∧
      (collidingRun keyLen valLen (overlapCalls keyLen valLen)).value = .error .wild := by
  decide +kernel

theorem relinkCalls_absent (positive : 1 ≤ keyLen) : PutsAbsent (fun _ => none) (relinkCalls keyLen valLen) := by
  simp [relinkCalls, fixedPut, PutsAbsent, fixedKey_injective positive]

theorem overlapCalls_absent (positive : 1 ≤ keyLen) : PutsAbsent (fun _ => none) (overlapCalls keyLen valLen) := by
  simp [overlapCalls, fixedPut, PutsAbsent, Op.onMap, Op.onVal, fixedKey_injective positive]

theorem relinkCalls_codes (positive : 1 ≤ keyLen) :
    (mapAnswers (fun _ => none) (relinkCalls keyLen valLen)).map Answer.code =
      [retKeyPut, retKeyPut, retKeyFound, retKeyFound] := by
  simp [relinkCalls, fixedPut, mapAnswers, KeyCall.onMap, Op.onMap, Op.onVal,
    fixedKey_injective positive, Answer.coded, Answer.copying]

theorem not_isMap_of_short (positive : 1 ≤ keyLen) (long : 4 ≤ keyLen + valLen) (short : keyLen + valLen ≤ 7) :
    ¬ FixedStoreIsMap keyLen valLen := by
  intro isMap
  have asMap := isMap (fixedConfig keyLen valLen) rfl rfl rfl (fun _ => 0) (fun _ => 2^40)
  by_cases seven : keyLen + valLen = 7
  · rcases overlapCalls_run keyLen (List.mem_range.mpr (by omega)) valLen (List.mem_range.mpr (by omega)) positive seven
      with ⟨within, stopped⟩
    have accepted : ∀ call ∈ overlapCalls keyLen valLen, call.call.Accepted (fixedConfig keyLen valLen) := by
      simp [overlapCalls, fixedPut_accepted, find_accepted]
    have wrong := (asMap _ accepted (overlapCalls_absent positive) within).2 .wild stopped
    simp [Refused] at wrong
  · rcases relinkCalls_run keyLen (List.mem_range.mpr (by omega)) valLen (List.mem_range.mpr (by omega)) positive long
      (by omega) with ⟨within, codes⟩
    have accepted : ∀ call ∈ relinkCalls keyLen valLen, call.call.Accepted (fixedConfig keyLen valLen) := by
      simp [relinkCalls, fixedPut_accepted, find_accepted]
    have right := (asMap _ accepted (relinkCalls_absent positive) within).1
    cases value : (collidingRun keyLen valLen (relinkCalls keyLen valLen)).value with
    | error e =>
      rw [value] at codes
      cases codes
    | ok answers =>
      rw [value] at codes
      have answered := congrArg (List.map Answer.code) (right answers value)
      rw [relinkCalls_codes positive, List.map_map] at answered
      change some (answers.map Answer.code) = _ at codes
      rw [show Answer.code ∘ Answer.anonymous = Answer.code from rfl] at answered
      rw [answered] at codes
      cases codes

/-- Records of 4 to 7 bytes are where a store with fixed lengths is no finite map. -/
theorem fixedStoreIsMap_iff (keyLen valLen : Nat) (positive : 1 ≤ keyLen) :
    FixedStoreIsMap keyLen valLen ↔ keyLen + valLen < 4 ∨ 8 ≤ keyLen + valLen := by
  constructor
  · intro isMap
    by_contra between
    exact not_isMap_of_short positive (by omega) (by omega) isMap
  · intro lengths cfg _ keyLen_eq valLen_eq hashOf vfs calls accepted absent within
    apply answersAsMap_of_linkable _ accepted absent within
    intro _
    rw [keyLen_eq, valLen_eq]
    exact lengths

theorem fixedStoreIsMap_four_four : FixedStoreIsMap 4 4 ↔ 4 + 4 < 4 ∨ 8 ≤ 4 + 4 := fixedStoreIsMap_iff 4 4 (by decide)

theorem not_fixedStoreIsMap_two_two : ¬ FixedStoreIsMap 2 2 := not_isMap_of_short (by decide) (by decide) (by decide)

end Lengths

end SharedHashFile.Store
