import SharedHashFile.LinkedList.Backward
import SharedHashFile.Queue.Batching

namespace SharedHashFile.Queue

open LinkedList LinkedList.Partition

def lastOf (qiids : Nat → Qiid) (qiid : Nat) : Nat := (qiids qiid).last

section Links

variable (params : Params) (v : View) (qid qiid : Nat)

@[simp] theorem lastOf_setNext (qiids : Nat → Qiid) (qiid next : Nat) :
    lastOf (setNext qiids qiid next) = lastOf qiids := by
  funext item
  by_cases same : item = qiid
  · rw [lastOf, setNext, same, Function.update_self, lastOf]
  · rw [lastOf, setNext, Function.update_of_ne same, lastOf]

@[simp] theorem lastOf_setLast (qiids : Nat → Qiid) (qiid last : Nat) :
    lastOf (setLast qiids qiid last) = Function.update (lastOf qiids) qiid last := by
  funext item
  by_cases same : item = qiid
  · rw [lastOf, setLast, same, Function.update_self, Function.update_self]
  · rw [lastOf, setLast, Function.update_of_ne same, Function.update_of_ne same, lastOf]

theorem lastOf_joined (qiids : Nat → Qiid) (head tail : Nat) :
    lastOf (if head = qiidNone then qiids else setNext qiids head tail) = lastOf qiids := by
  split
  · rfl
  · exact lastOf_setNext _ _ _

theorem lastOf_pushNolock : lastOf (pushNolock v qid qiid).qiids =
    Function.update (lastOf v.qiids) qiid (v.qidsNolockPush qid).head := by
  simp only [pushNolock, lastOf_joined, lastOf_setNext, lastOf_setLast]

theorem lastOf_pullNolock : lastOf (pullNolock v qid).2.qiids =
    if nextOf v.qiids (v.qidsNolockPull qid).tail = qiidNone then lastOf v.qiids
    else Function.update (lastOf v.qiids) (nextOf v.qiids (v.qidsNolockPull qid).tail) qiidNone := by
  change lastOf (if nextOf v.qiids (v.qidsNolockPull qid).tail = qiidNone then v.qiids
    else setLast v.qiids (nextOf v.qiids (v.qidsNolockPull qid).tail) qiidNone) = _
  split
  · rfl
  · exact lastOf_setLast _ _ _

theorem lastOf_emptyNolockPush (some_ : (v.qidsNolockPush qid).size ≠ 0) : lastOf (emptyNolockPush v qid).qiids =
    Function.update (lastOf v.qiids) (v.qidsNolockPush qid).tail (v.qids qid).head := by
  rw [emptyNolockPush, if_pos (by omega)]
  simp only [lastOf_joined, lastOf_setNext, lastOf_setLast]

theorem lastOf_fillNolockPull (some_ : qiidsToPull params v qid ≠ 0) : lastOf (fillNolockPull params v qid).qiids =
    Function.update (lastOf v.qiids) (v.qids qid).tail (v.qidsNolockPull qid).head := by
  rw [fillNolockPull, if_pos (by omega)]
  simp only [lastOf_joined, lastOf_setNext, lastOf_setLast]

end Links

def Place.Queued : Place → Prop
  | .held _ => False
  | _ => True

def startOf (before : Nat → Nat) : Place → Nat
  | .shared qid => before qid
  | _ => qiidNone

def Backed (last before : Nat → Nat) (lists : Lists) : Prop :=
  ∀ place, place.Queued → Backward last (startOf before place) (lists place)

section Moves

variable {params : Params} {valid : Nat → Prop} {s : QState} {lists : Lists} {p qid qiid : Nat} {v : View}
  {held : List Nat} {pc : Pc} {last last' before before' : Nat → Nat}

theorem Backed.exchange {first second : Place} {xs ys : List Nat} (backed : Backed last before lists)
    (same : ∀ place, place ≠ first → place ≠ second → ∀ item ∈ lists place, last' item = last item)
    (starts : ∀ place, place ≠ first → place ≠ second → startOf before' place = startOf before place)
    (left : first.Queued → Backward last' (startOf before' first) xs)
    (right : second.Queued → Backward last' (startOf before' second) ys) :
    Backed last' before' (exchange lists first second xs ys) := by
  intro place queued
  rw [exchange_apply]
  split
  · rename_i here
    exact here ▸ right (here ▸ queued)
  · rename_i notSecond
    split
    · rename_i here
      exact here ▸ left (here ▸ queued)
    · rename_i notFirst
      rw [starts place notFirst notSecond]
      exact (backed place queued).congr (same place notFirst notSecond)

theorem update_elsewhere (partition : Partition valid lists) {item link : Nat} {place other : Place}
    (member : item ∈ lists place) (away : other ≠ place) :
    ∀ item' ∈ lists other, Function.update last item link item' = last item' := by
  intro item' member'
  apply Function.update_of_ne
  rintro rfl
  exact away (partition.apart member' member)

theorem Backed.push (backed : Backed (lastOf v.qiids) before lists) (holds : (s.update p v held pc).Holds lists)
    (partition : Partition valid lists) (mine : qiid ∈ held) :
    Backed (lastOf (pushNolock v qid qiid).qiids) before (pushed p qid qiid lists) := by
  have here : qiid ∈ lists (.held p) := by
    rw [holds.heldHere]
    exact mine
  have elsewhere : qiid ∉ lists (.push p qid) := partition.outside here nofun
  rw [lastOf_pushNolock]
  apply backed.exchange
  · intro place notHeld _
    exact update_elsewhere partition here notHeld
  · intros
    rfl
  · exact False.elim
  · intro queued
    rw [Backward.append_iff]
    refine ⟨(backed _ queued).update_outside elsewhere _, ?_, trivial⟩
    rw [Function.update_self]
    exact (holds.atPush qid).head_eq

theorem Backed.pull (backed : Backed (lastOf v.qiids) before lists) (holds : (s.update p v held pc).Holds lists)
    (partition : Partition valid lists) (some_ : (v.qidsNolockPull qid).size ≠ 0) :
    Backed (lastOf (pullNolock v qid).2.qiids) before (pulled p qid lists) := by
  have queue := holds.atPull qid
  have nodup := partition.nodup (.pull p qid)
  have back := backed (.pull p qid) trivial
  obtain ⟨item, rest, items⟩ := List.exists_cons_of_ne_nil (mt queue.size_zero_iff.mpr some_)
  rw [items] at queue nodup back
  rcases queue.pull with ⟨tail, left⟩
  rw [lastOf_pullNolock, tail]
  unfold pulled
  rw [items, List.tail_cons]
  cases rest with
  | nil =>
    rw [left.tail_eq, firstOr_nil, if_pos rfl]
    exact backed.exchange (fun _ _ _ _ _ => rfl) (fun _ _ _ => rfl) (fun _ => trivial) False.elim
  | cons other others =>
    have member : other ∈ lists (.pull p qid) := by
      rw [items]
      exact List.mem_cons_of_mem _ List.mem_cons_self
    have real := left.chain.first_ne_stop (List.cons_ne_nil _ _)
    rw [left.tail_eq, firstOr_cons] at real
    rw [left.tail_eq, firstOr_cons, if_neg real]
    apply backed.exchange
    · intro place notPull _
      exact update_elsewhere partition member notPull
    · intros
      rfl
    · intro _
      exact Backward.relink back.2 (List.nodup_cons.mp nodup).2 qiidNone
    · exact False.elim

theorem firstOr_mem {stop : Nat} {items : List Nat} (nonempty : items ≠ []) : firstOr stop items ∈ items := by
  cases items with
  | nil => exact absurd rfl nonempty
  | cons item rest => exact List.mem_cons_self

theorem backward_moved {xs ys : List Nat} {start start' head : Nat} (left : Backward last start xs)
    (right : Backward last start' ys) (nodup : (xs ++ ys).Nodup) (nonempty : ys ≠ []) (head_eq : head = lastOr start xs) :
    Backward (Function.update last (firstOr qiidNone ys) head) start (xs ++ ys) := by
  rcases List.nodup_append.mp nodup with ⟨_, distinct, apart⟩
  have first : firstOr start' ys = firstOr qiidNone ys := by
    cases ys with
    | nil => exact absurd rfl nonempty
    | cons item rest => rfl
  have linked := right.relink distinct head
  rw [first] at linked
  rw [Backward.append_iff, ← head_eq]
  refine ⟨left.update_outside (fun member => ?_) head, linked⟩
  exact apart _ member _ (firstOr_mem nonempty) rfl

def NoneBefore (before : Nat → Nat) (lists : Lists) : Prop := ∀ qid, lists (.shared qid) = [] → before qid = qiidNone

theorem Backed.emptyNolockPush (backed : Backed (lastOf v.qiids) before lists) (fresh : NoneBefore before lists)
    (holds : (s.update p v held pc).Holds lists) (partition : Partition valid lists) :
    Backed (lastOf (emptyNolockPush v qid).qiids) before (emptied p lists qid) := by
  have queue := holds.atPush qid
  by_cases empty : (v.qidsNolockPush qid).size = 0
  · rw [emptyNolockPush_none _ _ empty]
    have none_ := queue.size_zero_iff.mp empty
    unfold emptied
    rw [none_, List.append_nil]
    exact backed.exchange (fun _ _ _ _ _ => rfl) (fun _ _ _ => rfl) (backed _) fun _ => trivial
  · have nonempty : lists (.push p qid) ≠ [] := mt queue.size_zero_iff.mpr empty
    have different : Place.shared qid ≠ .push p qid := nofun
    have head_eq : (v.qids qid).head = lastOr (before qid) (lists (.shared qid)) := by
      rw [(holds.atShared qid).head_eq]
      cases items : lists (.shared qid) with
      | nil => exact (fresh qid items).symm
      | cons item rest => rw [Backward.lastOr_first, Backward.lastOr_first]
    rw [lastOf_emptyNolockPush _ _ empty, queue.tail_eq]
    apply backed.exchange
    · intro place _ notPush
      exact update_elsewhere partition (firstOr_mem nonempty) notPush
    · intros
      rfl
    · intro _
      apply backward_moved (backed (.shared qid) trivial) (backed (.push p qid) trivial) _ nonempty head_eq
      rw [List.nodup_append]
      refine ⟨partition.nodup _, partition.nodup _, ?_⟩
      rintro item member _ also rfl
      exact different (partition.apart member also)
    · exact fun _ => trivial

theorem NoneBefore.emptied (fresh : NoneBefore before lists) : NoneBefore before (emptied p lists qid) := by
  intro other empty
  rw [emptied_shared] at empty
  split at empty
  · rename_i same
    exact fresh other (same ▸ (List.append_eq_nil_iff.mp empty).1)
  · exact fresh other empty

theorem Backed.emptyAll (backed : Backed (lastOf v.qiids) before lists) (fresh : NoneBefore before lists)
    (holds : (s.update p v held pc).Holds lists) (partition : Partition valid lists) (n : Nat) :
    Backed (lastOf ((List.range n).foldl Queue.emptyNolockPush v).qiids) before ((List.range n).foldl (emptied p) lists) ∧
      NoneBefore before ((List.range n).foldl (emptied p) lists) := by
  induction n with
  | zero => exact ⟨backed, fresh⟩
  | succ n ih =>
    rcases holds.emptyAll partition n with ⟨holds', partition'⟩
    simp only [List.range_succ, List.foldl_append, List.foldl_cons, List.foldl_nil]
    exact ⟨ih.1.emptyNolockPush ih.2 holds' partition', ih.2.emptied⟩

/-- What the first item of each shared queue is linked back to after a refill: one which leaves items behind leaves
    them linked to the last item it takes. -/
def beforeFill (params : Params) (p qid : Nat) (lists : Lists) (before : Nat → Nat) : Nat → Nat :=
  if fillCount params p qid lists = 0 then before else Function.update before qid
    (if (lists (.shared qid)).drop (fillCount params p qid lists) = [] then qiidNone
      else lastOr qiidNone ((lists (.shared qid)).take (fillCount params p qid lists)))

theorem Backed.fillNolockPull (backed : Backed (lastOf v.qiids) before lists) (holds : (s.update p v held pc).Holds lists)
    (partition : Partition valid lists) : Backed (lastOf (fillNolockPull params v qid).qiids)
      (beforeFill params p qid lists before) (filled params p qid lists) := by
  have queue := holds.atPull qid
  have locked := holds.atShared qid
  have count : qiidsToPull params v qid = fillCount params p qid lists := by
    rw [fillCount, qiidsToPull, qiidsToPullMax, ← queue.size_eq, ← locked.size_eq]
    split <;> split <;> omega
  have atMost : fillCount params p qid lists ≤ (lists (.shared qid)).length := Nat.min_le_left _ _
  unfold filled beforeFill
  generalize fillCount params p qid lists = n at count atMost ⊢
  by_cases nothing : n = 0
  · rw [fillNolockPull_none _ _ _ (count.trans nothing), if_pos nothing, nothing, List.drop_zero, List.take_zero,
      List.append_nil]
    exact backed.exchange (fun _ _ _ _ _ => rfl) (fun _ _ _ => rfl) (backed _) (backed _)
  · have parts := List.take_append_drop n (lists (.shared qid))
    have taken : ((lists (.shared qid)).take n).length = n := List.length_take_of_le atMost
    have nonempty : (lists (.shared qid)).take n ≠ [] := by
      intro none_
      rw [none_] at taken
      exact nothing taken.symm
    have back := backed (.shared qid) trivial
    have distinct := partition.nodup (.shared qid)
    have member (item : Nat) (taken : item ∈ (lists (.shared qid)).take n) : item ∈ lists (.shared qid) :=
      List.mem_of_mem_take taken
    have first : (v.qids qid).tail = firstOr qiidNone ((lists (.shared qid)).take n) := by
      rw [locked.tail_eq, ← parts, firstOr_append _ nonempty, parts]
    have elsewhere {place : Place} (away : place ≠ .shared qid) : ∀ item ∈ lists place,
        Function.update (lastOf v.qiids) (v.qids qid).tail (v.qidsNolockPull qid).head item = lastOf v.qiids item := by
      rw [first]
      exact update_elsewhere partition (member _ (firstOr_mem nonempty)) away
    rw [← parts, Backward.append_iff] at back
    rw [← parts, List.nodup_append] at distinct
    rcases distinct with ⟨distinctTaken, _, separate⟩
    rw [lastOf_fillNolockPull _ _ _ (count ▸ nothing), if_neg nothing]
    apply backed.exchange
    · exact fun place notShared _ => elsewhere notShared
    · intro place notShared _
      cases place with
      | shared other =>
        have away : other ≠ qid := fun same => notShared (same ▸ rfl)
        exact Function.update_of_ne away _ _
      | _ => rfl
    · intro _
      rw [startOf, Function.update_self]
      split
      · rename_i all
        rw [all]
        trivial
      · have same : lastOr (startOf before (.shared qid)) ((lists (.shared qid)).take n) =
            lastOr qiidNone ((lists (.shared qid)).take n) := by
          cases items : (lists (.shared qid)).take n with
          | nil => exact absurd items nonempty
          | cons item rest => rw [Backward.lastOr_first, Backward.lastOr_first]
        rw [← same, first]
        exact back.2.update_outside (fun also => separate _ (firstOr_mem nonempty) _ also rfl) _
    · intro _
      rw [first]
      apply backward_moved (backed (.pull p qid) trivial) back.1 _ nonempty queue.head_eq
      rw [List.nodup_append]
      refine ⟨partition.nodup _, distinctTaken, ?_⟩
      rintro item here _ also rfl
      have different : Place.shared qid ≠ .pull p qid := by
        intro same
        cases same
      exact different (partition.apart (member item also) here)

theorem NoneBefore.filled (fresh : NoneBefore before lists) :
    NoneBefore (beforeFill params p qid lists before) (filled params p qid lists) := by
  intro other empty
  rw [filled_shared] at empty
  unfold beforeFill
  by_cases same : other = qid
  · subst same
    rw [if_pos rfl] at empty
    split
    · rename_i nothing
      rw [nothing, List.drop_zero] at empty
      exact fresh other empty
    · exact Function.update_self _ _ _
  · rw [if_neg same] at empty
    split
    · exact fresh other empty
    · rw [Function.update_of_ne same]
      exact fresh other empty

end Moves

def QState.Refills (params : Params) (s : QState) (p qid : Nat) : Prop :=
  ((s.process p).qidsNolockPull qid).size < params.qidsNolockMax ∧
    0 < (s.qids qid).size + ((s.process p).qidsNolockPush qid).size

def QState.Exceeds (params : Params) (s : QState) (p qid : Nat) : Prop :=
  params.qidsNolockMax <
    ((s.process p).qidsNolockPull qid).size + (s.qids qid).size + ((s.process p).qidsNolockPush qid).size

instance (params : Params) (s : QState) (p qid : Nat) : Decidable (s.Refills params p qid) := instDecidableAnd

/-- The shared queues cut in the middle by the last flush which took items from them. -/
def QState.cutAfter (params : Params) (s : QState) (cut : Nat → Prop) : Event → Nat → Prop
  | .flushed p pullQid, qid => if pullQid = qid ∧ s.Refills params p qid then s.Exceeds params p qid else cut qid
  | _, qid => cut qid

inductive CuttingRun (params : Params) : List Event → QState → (Nat → Prop) → Prop
  | start : CuttingRun params [] (QState.initial params) fun _ => False
  | next {events : List Event} {event : Event} {s t : QState} {cut : Nat → Prop} : CuttingRun params events s cut →
      Step params s event t → CuttingRun params (events ++ [event]) t (s.cutAfter params cut event)

/-- Every queue is a list linked in both directions, from its tail to its head. -/
def QState.LinkedBothWays (s : QState) : Prop := ∀ place queue, s.queueAt place = some queue → ∃ items,
  DoublyLinked qiidNone (nextOf s.qiids) (lastOf s.qiids) queue.head queue.tail queue.size items

section Runs

variable {params : Params} {events : List Event} {event : Event} {s t : QState} {lists : Lists} {p pullQid : Nat}
  {before : Nat → Nat} {cut : Nat → Prop}

theorem CuttingRun.run (run : CuttingRun params events s cut) : Run params events s := by
  induction run with
  | start => exact .start
  | next _ step ih => exact ih.next step

theorem Run.cutting (run : Run params events s) : ∃ cut, CuttingRun params events s cut := by
  induction run with
  | start => exact ⟨_, .start⟩
  | next _ step ih =>
    rcases ih with ⟨cut, run⟩
    exact ⟨_, run.next step⟩

/-- The links back tell which queues are cut. -/
structure Backtracked (s : QState) (lists : Lists) (cut : Nat → Prop) (before : Nat → Nat) : Prop where
  backed : Backed (lastOf s.qiids) before lists
  fresh : NoneBefore before lists
  cut_iff : ∀ qid, cut qid ↔ before qid ≠ qiidNone

theorem initial_backtracked (params : Params) :
    Backtracked (QState.initial params) (initialLists params) (fun _ => False) fun _ => qiidNone := by
  have links (qiid : Nat) : lastOf (QState.initial params).qiids qiid = if qiid = 0 then qiidNone else qiid - 1 := by
    simp only [QState.initial, shfQNew, lastOf_setNext, lastOf_setLast, Function.update_apply]
    rfl
  have from_ (count first : Nat) : Backward (lastOf (QState.initial params).qiids) (if first = 0 then qiidNone else first - 1)
      (List.range' first count) := by
    induction count generalizing first with
    | zero => trivial
    | succ count ih =>
      rw [List.range'_succ]
      exact ⟨links first, ih (first + 1)⟩
  constructor
  · rintro (qid | _ | _ | _) queued
    · simp only [initialLists, initialContent]
      split
      · rw [List.range_eq_range']
        exact from_ params.qItems 0
      · trivial
    · trivial
    · trivial
    · trivial
  · exact fun _ _ => rfl
  · exact fun _ => ⟨False.elim, fun some_ => some_ rfl⟩

theorem Owned.size_eq (owned : Owned params s lists) {place : Place} {queue : Qid} (found : s.queueAt place = some queue) :
    queue.size = (lists place).length := (owned.holds.linked found).size_eq

theorem Owned.emptiedAll_length (owned : Owned params s lists) (qid : Nat) :
    ((List.range params.qs).foldl (emptied p) lists (.shared qid)).length =
      (s.qids qid).size + ((s.process p).qidsNolockPush qid).size := by
  have shared : (s.qids qid).size = (lists (.shared qid)).length := owned.size_eq rfl
  have push : ((s.process p).qidsNolockPush qid).size = (lists (.push p qid)).length := owned.size_eq rfl
  rw [emptiedAll_shared, shared, push]
  split
  · exact List.length_append
  · rename_i none_
    have nothing : lists (.push p qid) = [] := by_contra fun some_ => none_ (owned.exist _ some_)
    rw [nothing, List.length_nil, Nat.add_zero]

theorem Owned.fillCount_eq (owned : Owned params s lists) (qid : Nat) :
    fillCount params p qid ((List.range params.qs).foldl (emptied p) lists) =
      min ((s.qids qid).size + ((s.process p).qidsNolockPush qid).size)
        (params.qidsNolockMax - ((s.process p).qidsNolockPull qid).size) := by
  have pull : ((s.process p).qidsNolockPull qid).size = (lists (.pull p qid)).length := owned.size_eq rfl
  rw [fillCount, owned.emptiedAll_length, emptiedAll_pull, pull]

theorem Owned.refills_real (owned : Owned params s lists) {qid : Nat} (refills : s.Refills params p qid) : qid ≠ qidNone := by
  have shared : (s.qids qid).size = (lists (.shared qid)).length := owned.size_eq rfl
  have push : ((s.process p).qidsNolockPush qid).size = (lists (.push p qid)).length := owned.size_eq rfl
  have positive := refills.2
  by_cases none_ : lists (.shared qid) = []
  · have pushed : lists (.push p qid) ≠ [] := by
      intro nothing
      rw [shared, push, none_, nothing] at positive
      exact absurd positive (Nat.lt_irrefl 0)
    exact qid_real (owned.exist (.push p qid) pushed)
  · exact qid_real (owned.exist (.shared qid) none_)

theorem Backtracked.flush (back : Backtracked s lists cut before) (owned : Owned params s lists) :
    ∃ before', Backed (lastOf (shfQFlush params (s.view p) pullQid).qiids) before' (flushed params p pullQid lists) ∧
      NoneBefore before' (flushed params p pullQid lists) ∧
      ∀ qid, s.cutAfter params cut (.flushed p pullQid) qid ↔ before' qid ≠ qiidNone := by
  have holds := owned.holds
  rw [← s.update_view p] at holds
  rcases holds.emptyAll owned.partition params.qs with ⟨emptied, partition⟩
  rcases Backed.emptyAll (v := s.view p) back.backed back.fresh holds owned.partition params.qs with ⟨links, fresh⟩
  unfold shfQFlush flushed QState.cutAfter
  dsimp only
  split
  · rename_i none_
    refine ⟨before, links, fresh, fun qid => ?_⟩
    rw [if_neg, back.cut_iff]
    rintro ⟨rfl, refills⟩
    exact owned.refills_real refills none_
  · refine ⟨_, links.fillNolockPull emptied partition, fresh.filled, fun qid => ?_⟩
    have real := (emptied.atShared pullQid).chain.not_mem_stop
    have all := owned.emptiedAll_length (p := p) pullQid
    have count := owned.fillCount_eq (p := p) pullQid
    unfold beforeFill
    generalize fillCount params p pullQid ((List.range params.qs).foldl (Queue.emptied p) lists) = n at count ⊢
    by_cases nothing : n = 0
    · rw [if_pos nothing, if_neg, back.cut_iff]
      rintro ⟨rfl, room, some_⟩
      omega
    · rw [if_neg nothing]
      by_cases here : pullQid = qid
      · subst here
        have refills : s.Refills params p pullQid := by
          unfold QState.Refills
          omega
        rw [if_pos ⟨rfl, refills⟩, Function.update_self]
        have whole : ((List.range params.qs).foldl (Queue.emptied p) lists (.shared pullQid)).drop n = [] ↔
            ¬s.Exceeds params p pullQid := by
          rcases refills with ⟨room, some_⟩
          rw [List.drop_eq_nil_iff, all, QState.Exceeds]
          omega
        split
        · rename_i atMost
          exact iff_of_false (whole.mp atMost) fun some_ => some_ rfl
        · rename_i more
          refine iff_of_true (not_not.mp (mt whole.mpr more)) fun same => real ?_
          have taken : lastOr qiidNone (((List.range params.qs).foldl (Queue.emptied p) lists (.shared pullQid)).take n) ∈
              (List.range params.qs).foldl (Queue.emptied p) lists (.shared pullQid) := by
            apply List.mem_of_mem_take
            apply lastOr_mem
            rw [ne_eq, List.take_eq_nil_iff, not_or, ← List.length_eq_zero_iff, all]
            exact ⟨nothing, Nat.ne_of_gt refills.2⟩
          rwa [same] at taken
      · rw [if_neg fun both => here both.1, Function.update_of_ne (Ne.symm here), back.cut_iff]

/-- What one step does to the links back. -/
theorem Backtracked.step (back : Backtracked s lists cut before) (owned : Owned params s lists)
    (step : Step params s event t) : ∃ before', Backtracked t (event.moves params lists) (s.cutAfter params cut event) before' := by
  have holds (p : Nat) := s.update_view p ▸ owned.holds
  have unshared {lists' : Lists} (same : ∀ qid, lists' (.shared qid) = lists (.shared qid)) : NoneBefore before lists' :=
    fun qid empty => back.fresh qid (same qid ▸ empty)
  cases step with
  | pushHead idle queue mine =>
    exact ⟨before, back.backed.push (v := s.view _) (holds _) owned.partition mine, unshared (pushed_shared _ _ _ · _), back.cut_iff⟩
  | pullTail idle queue => exact ⟨before, back.backed, back.fresh, back.cut_iff⟩
  | pushHeadPullTail idle pushQueue pullQueue mine =>
    exact ⟨before, back.backed.push (v := s.view _) (holds _) owned.partition mine, unshared (pushed_shared _ _ _ · _), back.cut_iff⟩
  | pushNonePullTail idle pushQueue pullQueue => exact ⟨before, back.backed, back.fresh, back.cut_iff⟩
  | callFlush idle queue => exact ⟨before, back.backed, back.fresh, back.cut_iff⟩
  | flush position =>
    rcases back.flush owned with ⟨before', links, fresh, cut_iff⟩
    exact ⟨before', links, fresh, cut_iff⟩
  | pull position some_ =>
    exact ⟨before, back.backed.pull (v := s.view _) (holds _) owned.partition some_, unshared (pulled_shared _ _ · _), back.cut_iff⟩
  | pullNone position none_ => exact ⟨before, back.backed, back.fresh, back.cut_iff⟩

theorem CuttingRun.backtracked (run : CuttingRun params events s cut) :
    ∃ before, Backtracked s (listsAfter params events) cut before := by
  induction run with
  | start => exact ⟨_, initial_backtracked params⟩
  | next run step ih =>
    rcases ih with ⟨before, back⟩
    rw [listsAfter_concat]
    exact back.step (run_owned run.run) step

theorem Backtracked.doublyLinked_iff (back : Backtracked s lists cut before) (owned : Owned params s lists) {place : Place}
    {queue : Qid} (found : s.queueAt place = some queue) :
    (∃ items, DoublyLinked qiidNone (nextOf s.qiids) (lastOf s.qiids) queue.head queue.tail queue.size items) ↔
      ∀ qid, place = .shared qid → ¬cut qid := by
  have queued : place.Queued := by
    cases place with
    | held => cases found
    | _ => trivial
  have backward := back.backed place queued
  constructor
  · rintro ⟨items, doubly⟩ qid rfl
    rw [back.cut_iff, not_not]
    rcases LinkedList.doublyLinked_iff.mp doubly with ⟨linked, backward'⟩
    rw [← (owned.holds.linked found).chain.unique linked.chain] at backward'
    cases here : lists (.shared qid) with
    | nil => exact back.fresh qid here
    | cons item rest =>
      rw [here] at backward backward'
      exact backward.1.symm.trans backward'.1
  · intro uncut
    refine ⟨lists place, LinkedList.doublyLinked_iff.mpr ⟨owned.holds.linked found, ?_⟩⟩
    cases place with
    | shared qid =>
      have start : before qid = qiidNone := by_contra fun some_ => uncut qid rfl ((back.cut_iff qid).mpr some_)
      exact start ▸ backward
    | push => exact backward
    | pull => exact backward
    | held => cases found

end Runs

/-- All queues are linked in both directions exactly when the last refill from each, if any, took all its items. -/
theorem linkedBothWays_iff {params : Params} {events : List Event} {s : QState} {cut : Nat → Prop}
    (run : CuttingRun params events s cut) : s.LinkedBothWays ↔ ∀ qid, ¬cut qid := by
  have owned := run_owned run.run
  rcases run.backtracked with ⟨before, back⟩
  constructor
  · intro both qid
    exact (back.doublyLinked_iff owned rfl).mp (both (.shared qid) _ rfl) qid rfl
  · intro uncut place queue found
    exact (back.doublyLinked_iff owned found).mpr fun qid _ => uncut qid

/-- A pull takes the first of two items, and the next pull the other. -/
theorem linkedBothWays_iff_small : ∃ events s cut, CuttingRun smallParams events s cut ∧ s.LinkedBothWays := by
  have called := CuttingRun.start.next (@Step.pullTail smallParams _ 0 0 rfl (by decide))
  have flushed := called.next (@Step.flush smallParams _ 0 0 true rfl)
  have pulled := flushed.next (@Step.pull smallParams _ 0 0 rfl (by decide))
  have calledAgain := pulled.next (@Step.pullTail smallParams _ 0 0 rfl (by decide))
  have refilled := calledAgain.next (@Step.flush smallParams _ 0 0 true rfl)
  refine ⟨_, _, _, refilled, (linkedBothWays_iff refilled).mpr fun qid cuts => ?_⟩
  change (if 0 = qid ∧ QState.Refills smallParams _ 0 qid then QState.Exceeds smallParams _ 0 qid
    else if 0 = qid ∧ QState.Refills smallParams _ 0 qid then QState.Exceeds smallParams _ 0 qid else False) at cuts
  by_cases first : 0 = qid
  · subst first
    rw [if_pos ⟨rfl, by decide⟩, QState.Exceeds] at cuts
    exact absurd cuts (by decide)
  · rw [if_neg fun both => first both.1, if_neg fun both => first both.1] at cuts
    exact cuts

/-- The first pull of a run leaves item 1 alone in queue 0 and linked back to item 0, which is pulled. -/
theorem not_linkedBothWays : ¬∀ params events s, Run params events s → s.LinkedBothWays := by
  intro always
  have called := Run.start.next (@Step.pullTail smallParams _ 0 0 rfl (by decide))
  have flushed := called.next (@Step.flush smallParams _ 0 0 true rfl)
  rcases always _ _ _ flushed (.shared 0) _ rfl with ⟨items, doubly⟩
  cases items with
  | nil => exact absurd doubly.size_eq (by decide)
  | cons item rest =>
    have tail : item = 1 := doubly.tail_eq.symm
    have first := doubly.first item rfl
    rw [tail] at first
    exact absurd first (by decide)

end SharedHashFile.Queue
