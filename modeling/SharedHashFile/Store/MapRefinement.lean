import SharedHashFile.Store.Runs

namespace SharedHashFile.Store

open Program

/-- Entries which are those of a finite map: no two have the same key. -/
structure Items.Are (items : Items) (map : Map) : Prop where
  unique : ∀ {slot slot' item item'}, items slot = some item → items slot' = some item' → item.key = item'.key →
    slot = slot'
  bound : ∀ key val, map key = some val ↔ ∃ slot, items slot = some ⟨key, val⟩

section Entries

variable {items items' : Items} {map : Map} {answer : Answer} {key : List UInt8} {slot : Slot}

theorem Items.Are.absent_iff (are : items.Are map) : map key = none ↔ items.Absent key := by
  constructor
  · intro none_ slot val there
    have some_ := (are.bound key val).mpr ⟨slot, there⟩
    rw [none_] at some_
    cases some_
  · intro absent
    cases found : map key with
    | none => rfl
    | some val =>
      rcases (are.bound key val).mp found with ⟨slot, there⟩
      exact absurd there (absent slot val)

theorem Items.Are.set (are : items.Are map) (here : ∀ item, items slot = some item → item.key = key)
    (alone : ∀ {slot' item}, items slot' = some item → item.key = key → slot' = slot) (val : Option (List UInt8)) :
    Items.Are (Function.update items slot (val.map (Item.mk key))) (Function.update map key val) := by
  have at_ {slot' : Slot} {item : Item} (there : Function.update items slot (val.map (Item.mk key)) slot' = some item) :
      slot' = slot ∧ item.key = key ∧ val = some item.val ∨ slot' ≠ slot ∧ items slot' = some item ∧ item.key ≠ key := by
    rw [Function.update_apply] at there
    split at there
    · rename_i same
      rcases Option.map_eq_some_iff.mp there with ⟨bytes, rfl, rfl⟩
      exact .inl ⟨same, rfl, rfl⟩
    · rename_i away
      exact .inr ⟨away, there, fun sameKey => away (alone there sameKey)⟩
  refine ⟨fun {slot1 slot2 item1 item2} one two same => ?_, fun other bytes => ?_⟩
  · rcases at_ one with ⟨rfl, key1, _⟩ | ⟨_, there1, key1⟩
    · rcases at_ two with ⟨rfl, _, _⟩ | ⟨_, _, key2⟩
      · rfl
      · exact absurd (same.symm.trans key1) key2
    · rcases at_ two with ⟨rfl, key2, _⟩ | ⟨_, there2, _⟩
      · exact absurd (same.trans key2) key1
      · exact are.unique there1 there2 same
  · rw [Function.update_apply]
    split
    · rename_i same
      subst same
      constructor
      · rintro rfl
        exact ⟨slot, Function.update_self _ _ _⟩
      · rintro ⟨slot', there⟩
        rcases at_ there with ⟨_, _, same⟩ | ⟨_, _, differ⟩
        · exact same
        · exact absurd rfl differ
    · rename_i differ
      rw [are.bound other bytes]
      constructor
      · rintro ⟨slot', there⟩
        have away : slot' ≠ slot := by
          rintro rfl
          exact differ (here _ there)
        exact ⟨slot', (Function.update_of_ne away _ _).trans there⟩
      · rintro ⟨slot', there⟩
        rcases at_ there with ⟨_, same, _⟩ | ⟨_, there', _⟩
        · exact absurd same differ
        · exact ⟨slot', there'⟩

theorem Op.onVal_anonymous (op : Op) (key val : List UInt8) :
    (op.onVal key val).1.anonymous = (op.onVal key val).1 := by
  cases op with
  | getVal => rfl
  | getKey => rfl
  | delete => rfl
  | update new =>
    simp only [onVal]
    split <;> rfl
  | add amount =>
    simp only [onVal]
    split <;> rfl

theorem explained_onMap (are : items.Are map) {call : KeyCall} (explained : call.call.Explained items answer items')
    (absent : PutsAbsent map [call]) :
    answer.anonymous = (call.onMap map).1 ∧ items'.Are (call.onMap map).2 := by
  cases call with
  | put key val =>
    rcases explained with ⟨slot, free, rfl, rfl⟩
    refine ⟨rfl, are.set (fun item there => ?_) (fun {slot' item} there same => ?_) (some val.bytes)⟩
    · rw [free] at there
      cases there
    · subst same
      exact absurd there (are.absent_iff.mp absent.1 slot' item.val)
  | find key op =>
    rcases explained with ⟨missing, rfl, rfl⟩ | ⟨slot, val, there, rfl, rfl⟩
    · have none_ := are.absent_iff.mpr missing
      simp only [KeyCall.onMap, Op.onMap, none_]
      exact ⟨rfl, are⟩
    · have some_ := (are.bound key val).mpr ⟨slot, there⟩
      simp only [KeyCall.onMap, Op.onMap, some_]
      refine ⟨op.onVal_anonymous key val, are.set (fun item here => ?_) (fun other same => are.unique other there same) _⟩
      rw [there] at here
      cases here
      rfl

theorem PutsAbsent.cons {call : KeyCall} {rest : List KeyCall} (absent : PutsAbsent map (call :: rest)) :
    PutsAbsent map [call] ∧ PutsAbsent (call.onMap map).2 rest := by
  cases call with
  | put key val => exact ⟨⟨absent.1, trivial⟩, absent.2⟩
  | find key op => exact ⟨trivial, absent⟩

/-- A run whose puts are of absent keys answers as a finite map does. -/
theorem explains_mapAnswers {calls : List KeyCall} {answers : List Answer} (are : items.Are map)
    (explains : Explains items (calls.map KeyCall.call) answers items') (absent : PutsAbsent map calls) :
    answers.map Answer.anonymous = mapAnswers map calls := by
  induction calls generalizing items map answers with
  | nil =>
    cases answers with
    | nil => rfl
    | cons answer answers => exact explains.elim
  | cons call rest ih =>
    cases answers with
    | nil => exact explains.elim
    | cons answer answers =>
      rcases explains with ⟨middle, explained, explains⟩
      rcases absent.cons with ⟨here, later⟩
      rcases explained_onMap are explained here with ⟨same, are'⟩
      rw [List.map_cons, mapAnswers, same, ih are' explains later]

theorem empty_are : Items.Are (fun _ => none) fun _ => none :=
  ⟨nofun, fun _ _ => ⟨nofun, fun ⟨_, there⟩ => by cases there⟩⟩

end Entries

/-- What the client of a new store is answered is what a finite map answers, if the store has room. -/
def AnswersAsMap (cfg : Config) (hashOf : List UInt8 → Hash) (vfs : Nat → Nat) (calls : List KeyCall) : Prop :=
  let run := runCalls mapped cfg hashOf (calls.map KeyCall.call) (State.initial vfs Tls.initial)
  (∀ answers, run.value = .ok answers → answers.map Answer.anonymous = mapAnswers (fun _ => none) calls) ∧
    ∀ e, run.value = .error e → e = .tabOverflow ∨ Refused cfg vfs e

section Stores

variable {cfg : Config} {hashOf : List UInt8 → Hash} {vfs : Nat → Nat} {calls : List KeyCall}

/-- A store which keeps the records it deletes apart from the others is a finite map. -/
theorem answersAsMap_of_linkable (linkable : cfg.Linkable) (accepted : ∀ call ∈ calls, call.call.Accepted cfg)
    (absent : PutsAbsent (fun _ => none) calls)
    (within : (runCalls mapped cfg hashOf (calls.map KeyCall.call) (State.initial vfs Tls.initial)).peak < sizeLimit) :
    AnswersAsMap cfg hashOf vfs calls := by
  have every : ∀ call ∈ calls.map KeyCall.call, call.Accepted cfg := by
    intro call member
    rcases List.mem_map.mp member with ⟨keyCall, there, rfl⟩
    exact accepted keyCall there
  have ends := client_ends cfg linkable hashOf vfs every within
  constructor
  · intro answers value
    rw [value] at ends
    rcases ends with ⟨items, explains⟩
    exact explains_mapAnswers empty_are explains absent
  · intro e value
    rw [value] at ends
    exact ends

/-- While `statvfs` answers enough, only a lack of tables ends the client's run. -/
theorem AnswersAsMap.overflows (answers : AnswersAsMap cfg hashOf vfs calls) (grows : cfg.dataNeededFactor ≠ 0)
    (ample : ∀ n, 2^33 * cfg.dataNeededFactor ≤ vfs n % 2^64) {e : Stop}
    (stopped : (runCalls mapped cfg hashOf (calls.map KeyCall.call) (State.initial vfs Tls.initial)).value = .error e) :
    e = .tabOverflow :=
  (answers.2 e stopped).resolve_right (not_refused ample grows)

end Stores

end SharedHashFile.Store
