import SharedHashFile.LinkedList.Linked
import SharedHashFile.LinkedList.Partition
import SharedHashFile.Queue.Queue

namespace SharedHashFile.Queue

open LinkedList LinkedList.Partition

/-- Where an item can be. -/
inductive Place
  | shared (qid : Nat)
  | push (p qid : Nat)
  | pull (p qid : Nat)
  | held (p : Nat)
  deriving DecidableEq

abbrev Lists := Place → List Nat

def nextOf (qiids : Nat → Qiid) (qiid : Nat) : Nat := (qiids qiid).next

@[simp] theorem nextOf_setLast (qiids : Nat → Qiid) (qiid last : Nat) :
    nextOf (setLast qiids qiid last) = nextOf qiids := by
  funext item
  by_cases same : item = qiid
  · rw [nextOf, setLast, same, Function.update_self, nextOf]
  · rw [nextOf, setLast, Function.update_of_ne same, nextOf]

@[simp] theorem nextOf_setNext (qiids : Nat → Qiid) (qiid next : Nat) :
    nextOf (setNext qiids qiid next) = Function.update (nextOf qiids) qiid next := by
  funext item
  by_cases same : item = qiid
  · rw [nextOf, setNext, same, Function.update_self, Function.update_self]
  · rw [nextOf, setNext, Function.update_of_ne same, Function.update_of_ne same, nextOf]

/-- The conditional link at the head a segment is moved behind. -/
theorem nextOf_joined (qiids : Nat → Qiid) (head tail : Nat) :
    nextOf (if head = qiidNone then qiids else setNext qiids head tail) =
      Linked.joined qiidNone (nextOf qiids) head tail := by
  unfold Linked.joined
  split
  · rfl
  · exact nextOf_setNext _ _ _

namespace QState

def queueAt (s : QState) : Place → Option Qid
  | .shared qid => some (s.qids qid)
  | .push p qid => some ((s.process p).qidsNolockPush qid)
  | .pull p qid => some ((s.process p).qidsNolockPull qid)
  | .held _ => none

def heldAt (s : QState) (p : Nat) : List Nat := (s.process p).held

/-- The links and the records of `s` hold the given lists. -/
structure Holds (s : QState) (lists : Lists) : Prop where
  linked : ∀ {place queue}, s.queueAt place = some queue →
    Linked qiidNone (nextOf s.qiids) queue.head queue.tail queue.size (lists place)
  held : ∀ p, lists (.held p) = s.heldAt p

variable {s t : QState} {lists : Lists} {p : Nat} {v : View} {held : List Nat} {pc : Pc}

theorem Holds.congr (holds : s.Holds lists) (records : t.queueAt = s.queueAt)
    (links : t.qiids = s.qiids) (same : t.heldAt = s.heldAt) : t.Holds lists := by
  refine ⟨fun {place queue} found => ?_, fun p => ?_⟩
  · rw [links]
    exact holds.linked (records ▸ found)
  · rw [same]
    exact holds.held p

/-- Two lists replaced: what happens to the links and records of the other places. -/
theorem Holds.exchange {valid : Nat → Prop} (holds : s.Holds lists) (partition : Partition valid lists)
    {first second : Place} {xs ys : List Nat} (different : first ≠ second)
    (records : ∀ place, place ≠ first → place ≠ second → t.queueAt place = s.queueAt place)
    (links : ∀ item, item ∉ lists first → item ∉ lists second → nextOf t.qiids item = nextOf s.qiids item)
    (left : ∀ queue, t.queueAt first = some queue →
      Linked qiidNone (nextOf t.qiids) queue.head queue.tail queue.size xs)
    (right : ∀ queue, t.queueAt second = some queue →
      Linked qiidNone (nextOf t.qiids) queue.head queue.tail queue.size ys)
    (same : ∀ p, Partition.exchange lists first second xs ys (.held p) = t.heldAt p) :
    t.Holds (Partition.exchange lists first second xs ys) := by
  refine ⟨fun {place queue} found => ?_, same⟩
  by_cases isSecond : place = second
  · rw [isSecond, exchange_second]
    exact right queue (isSecond ▸ found)
  by_cases isFirst : place = first
  · rw [isFirst, exchange_first different]
    exact left queue (isFirst ▸ found)
  · rw [exchange_other isFirst isSecond]
    rw [records place isFirst isSecond] at found
    exact (holds.linked found).congr fun item member =>
      links item (partition.outside member isFirst) (partition.outside member isSecond)

@[simp] theorem view_update : (s.update p v held pc).view p = v := by
  simp only [view, update, Function.update_self]

@[simp] theorem qiids_update : (s.update p v held pc).qiids = v.qiids := rfl

@[simp] theorem queueAt_update_shared (qid : Nat) :
    (s.update p v held pc).queueAt (.shared qid) = some (v.qids qid) := rfl

@[simp] theorem queueAt_update_push (q qid : Nat) : (s.update p v held pc).queueAt (.push q qid) =
    if q = p then some (v.qidsNolockPush qid) else s.queueAt (.push q qid) := by
  by_cases same : q = p <;> simp [queueAt, update, same]

@[simp] theorem queueAt_update_pull (q qid : Nat) : (s.update p v held pc).queueAt (.pull q qid) =
    if q = p then some (v.qidsNolockPull qid) else s.queueAt (.pull q qid) := by
  by_cases same : q = p <;> simp [queueAt, update, same]

@[simp] theorem queueAt_held (q : Nat) : s.queueAt (.held q) = none := rfl

@[simp] theorem heldAt_update : (s.update p v held pc).heldAt = Function.update s.heldAt p held := by
  funext q
  by_cases same : q = p
  · simp only [heldAt, update, same, Function.update_self]
  · simp only [heldAt, update, Function.update_of_ne same]

@[simp] theorem pc_update (q : Nat) : ((s.update p v held pc).process q).pc =
    if q = p then pc else (s.process q).pc := by
  by_cases same : q = p <;> simp [update, same]

theorem Holds.goto (holds : s.Holds lists) (p : Nat) (pc : Pc) : (s.goto p pc).Holds lists := by
  refine holds.congr ?_ rfl ?_
  · funext place
    cases place with
    | shared => rfl
    | push q qid => by_cases same : q = p <;> simp [QState.goto, queueAt, update, view, same]
    | pull q qid => by_cases same : q = p <;> simp [QState.goto, queueAt, update, view, same]
    | held => rfl
  · rw [QState.goto, heldAt_update]
    exact Function.update_eq_self p s.heldAt

theorem Holds.setQiid (holds : s.Holds lists) (p qiid : Nat) (addr : Option Nat) (len : Nat) :
    (s.setQiid p qiid addr len).Holds lists := by
  refine holds.congr ?_ rfl ?_
  · funext place
    cases place with
    | shared => rfl
    | push q qid => by_cases same : q = p <;> simp [QState.setQiid, queueAt, same]
    | pull q qid => by_cases same : q = p <;> simp [QState.setQiid, queueAt, same]
    | held => rfl
  · funext q
    by_cases same : q = p <;> simp [QState.setQiid, heldAt, same]

@[simp] theorem pc_setQiid (p qiid : Nat) (addr : Option Nat) (len q : Nat) :
    ((s.setQiid p qiid addr len).process q).pc = (s.process q).pc := by
  by_cases same : q = p <;> simp [QState.setQiid, same]

end QState

end SharedHashFile.Queue
