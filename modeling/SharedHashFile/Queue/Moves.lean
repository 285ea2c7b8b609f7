import SharedHashFile.Queue.Places

namespace SharedHashFile.Queue

open LinkedList LinkedList.Partition

def pushed (p pushQid qiid : Nat) (lists : Lists) : Lists :=
  exchange lists (.held p) (.push p pushQid) ((lists (.held p)).erase qiid)
    (lists (.push p pushQid) ++ [qiid])

def pulled (p pullQid : Nat) (lists : Lists) : Lists :=
  exchange lists (.pull p pullQid) (.held p) (lists (.pull p pullQid)).tail
    ((lists (.pull p pullQid)).head?.toList ++ lists (.held p))

def emptied (p : Nat) (lists : Lists) (qid : Nat) : Lists :=
  exchange lists (.shared qid) (.push p qid) (lists (.shared qid) ++ lists (.push p qid)) []

def fillCount (params : Params) (p pullQid : Nat) (lists : Lists) : Nat :=
  min (lists (.shared pullQid)).length (params.qidsNolockMax - (lists (.pull p pullQid)).length)

def filled (params : Params) (p pullQid : Nat) (lists : Lists) : Lists :=
  exchange lists (.shared pullQid) (.pull p pullQid)
    ((lists (.shared pullQid)).drop (fillCount params p pullQid lists))
    (lists (.pull p pullQid) ++ (lists (.shared pullQid)).take (fillCount params p pullQid lists))

def flushed (params : Params) (p pullQid : Nat) (lists : Lists) : Lists :=
  if pullQid = qidNone then (List.range params.qs).foldl (emptied p) lists
  else filled params p pullQid ((List.range params.qs).foldl (emptied p) lists)

section Values

variable (params : Params) (p qid qiid q other : Nat) (lists : Lists)

@[simp] theorem pushed_held : pushed p qid qiid lists (.held q) =
    if q = p then (lists (.held p)).erase qiid else lists (.held q) := by simp [pushed, exchange_apply]

@[simp] theorem pushed_push : pushed p qid qiid lists (.push q other) =
    if q = p ∧ other = qid then lists (.push p qid) ++ [qiid] else lists (.push q other) := by
  simp [pushed, exchange_apply]

@[simp] theorem pushed_shared : pushed p qid qiid lists (.shared other) = lists (.shared other) := by
  simp [pushed, exchange_apply]

@[simp] theorem pushed_pull : pushed p qid qiid lists (.pull q other) = lists (.pull q other) := by
  simp [pushed, exchange_apply]

@[simp] theorem pulled_held : pulled p qid lists (.held q) =
    if q = p then (lists (.pull p qid)).head?.toList ++ lists (.held p) else lists (.held q) := by
  simp [pulled, exchange_apply]

@[simp] theorem pulled_pull : pulled p qid lists (.pull q other) =
    if q = p ∧ other = qid then (lists (.pull p qid)).tail else lists (.pull q other) := by
  simp [pulled, exchange_apply]

@[simp] theorem pulled_shared : pulled p qid lists (.shared other) = lists (.shared other) := by
  simp [pulled, exchange_apply]

@[simp] theorem pulled_push : pulled p qid lists (.push q other) = lists (.push q other) := by
  simp [pulled, exchange_apply]

@[simp] theorem emptied_shared : emptied p lists qid (.shared other) =
    if other = qid then lists (.shared qid) ++ lists (.push p qid) else lists (.shared other) := by
  simp [emptied, exchange_apply]

@[simp] theorem emptied_push : emptied p lists qid (.push q other) =
    if q = p ∧ other = qid then [] else lists (.push q other) := by simp [emptied, exchange_apply]

@[simp] theorem emptied_pull : emptied p lists qid (.pull q other) = lists (.pull q other) := by
  simp [emptied, exchange_apply]

@[simp] theorem emptied_held : emptied p lists qid (.held q) = lists (.held q) := by
  simp [emptied, exchange_apply]

@[simp] theorem filled_shared : filled params p qid lists (.shared other) =
    if other = qid then (lists (.shared qid)).drop (fillCount params p qid lists)
    else lists (.shared other) := by simp [filled, exchange_apply]

@[simp] theorem filled_pull : filled params p qid lists (.pull q other) =
    if q = p ∧ other = qid then
      lists (.pull p qid) ++ (lists (.shared qid)).take (fillCount params p qid lists)
    else lists (.pull q other) := by simp [filled, exchange_apply]

@[simp] theorem filled_push : filled params p qid lists (.push q other) = lists (.push q other) := by
  simp [filled, exchange_apply]

@[simp] theorem filled_held : filled params p qid lists (.held q) = lists (.held q) := by
  simp [filled, exchange_apply]

end Values

section Partition

variable {params : Params} {valid : Nat → Prop} {lists : Lists} {p qid qiid : Nat}

theorem pushed_partition (partition : Partition valid lists) (mine : qiid ∈ lists (.held p)) :
    Partition valid (pushed p qid qiid lists) := by
  refine exchange_partition nofun ?_ partition
  calc (lists (.held p) ++ lists (.push p qid)).Perm
        ((qiid :: (lists (.held p)).erase qiid) ++ lists (.push p qid)) :=
        (List.perm_cons_erase mine).append_right _
    _ = qiid :: ((lists (.held p)).erase qiid ++ lists (.push p qid)) := rfl
    List.Perm _ (((lists (.held p)).erase qiid ++ lists (.push p qid)) ++ [qiid]) :=
        (List.perm_append_singleton _ _).symm
    _ = _ := List.append_assoc _ _ _

theorem pulled_partition (partition : Partition valid lists) : Partition valid (pulled p qid lists) := by
  refine exchange_partition nofun ?_ partition
  cases lists (.pull p qid) with
  | nil => exact .refl _
  | cons item rest => exact List.perm_middle.symm

theorem emptied_partition (partition : Partition valid lists) : Partition valid (emptied p lists qid) := by
  refine exchange_partition nofun ?_ partition
  rw [List.append_nil]

theorem filled_partition (partition : Partition valid lists) :
    Partition valid (filled params p qid lists) := by
  refine exchange_partition nofun ?_ partition
  generalize lists (.shared qid) = locked
  generalize fillCount params p qid lists = count
  calc (locked ++ lists (.pull p qid)).Perm
        ((locked.take count ++ locked.drop count) ++ lists (.pull p qid)) := by
        rw [List.take_append_drop]
    List.Perm _ (locked.drop count ++ locked.take count ++ lists (.pull p qid)) :=
        List.perm_append_comm.append_right _
    _ = locked.drop count ++ (locked.take count ++ lists (.pull p qid)) := List.append_assoc _ _ _
    List.Perm _ (locked.drop count ++ (lists (.pull p qid) ++ locked.take count)) :=
        List.perm_append_comm.append_left _

theorem flushed_partition (partition : Partition valid lists) :
    Partition valid (flushed params p qid lists) := by
  have emptiedAll : Partition valid ((List.range params.qs).foldl (emptied p) lists) := by
    induction params.qs with
    | zero => exact partition
    | succ n ih =>
      rw [List.range_succ, List.foldl_append]
      exact emptied_partition ih
  unfold flushed
  split
  · exact emptiedAll
  · exact filled_partition emptiedAll

end Partition

section Fields

variable (params : Params) (v : View) (qid qiid : Nat)

@[simp] theorem pushNolock_qids : (pushNolock v qid qiid).qids = v.qids := rfl

@[simp] theorem pushNolock_qidsNolockPull :
    (pushNolock v qid qiid).qidsNolockPull = v.qidsNolockPull := rfl

theorem pushNolock_qidsNolockPush : (pushNolock v qid qiid).qidsNolockPush =
    Function.update v.qidsNolockPush qid
      { head := qiid
        tail := if (v.qidsNolockPush qid).head = qiidNone then qiid else (v.qidsNolockPush qid).tail
        size := (v.qidsNolockPush qid).size + 1 } := rfl

theorem nextOf_pushNolock : nextOf (pushNolock v qid qiid).qiids = Linked.joined qiidNone
    (Function.update (nextOf v.qiids) qiid qiidNone) (v.qidsNolockPush qid).head qiid := by
  simp only [pushNolock, nextOf_joined, nextOf_setNext, nextOf_setLast]

@[simp] theorem pullNolock_qids : (pullNolock v qid).2.qids = v.qids := rfl

@[simp] theorem pullNolock_qidsNolockPush :
    (pullNolock v qid).2.qidsNolockPush = v.qidsNolockPush := rfl

theorem pullNolock_qidsNolockPull : (pullNolock v qid).2.qidsNolockPull =
    Function.update v.qidsNolockPull qid
      { head := if nextOf v.qiids (v.qidsNolockPull qid).tail = qiidNone then qiidNone
          else (v.qidsNolockPull qid).head
        tail := nextOf v.qiids (v.qidsNolockPull qid).tail
        size := (v.qidsNolockPull qid).size - 1 } := rfl

theorem nextOf_pullNolock : nextOf (pullNolock v qid).2.qiids = nextOf v.qiids := by
  simp only [pullNolock]
  split
  · rfl
  · exact nextOf_setLast _ _ _

@[simp] theorem emptyNolockPush_qidsNolockPull :
    (emptyNolockPush v qid).qidsNolockPull = v.qidsNolockPull := by
  unfold emptyNolockPush
  split <;> rfl

theorem emptyNolockPush_qids (some_ : (v.qidsNolockPush qid).size ≠ 0) : (emptyNolockPush v qid).qids =
    Function.update v.qids qid
      { head := (v.qidsNolockPush qid).head
        tail := if (v.qids qid).head = qiidNone then (v.qidsNolockPush qid).tail else (v.qids qid).tail
        size := (v.qids qid).size + (v.qidsNolockPush qid).size } := by
  rw [emptyNolockPush, if_pos (by omega)]

theorem emptyNolockPush_qidsNolockPush (some_ : (v.qidsNolockPush qid).size ≠ 0) :
    (emptyNolockPush v qid).qidsNolockPush = Function.update v.qidsNolockPush qid emptyQid := by
  rw [emptyNolockPush, if_pos (by omega)]

theorem nextOf_emptyNolockPush (some_ : (v.qidsNolockPush qid).size ≠ 0) :
    nextOf (emptyNolockPush v qid).qiids = Linked.joined qiidNone
      (Function.update (nextOf v.qiids) (v.qidsNolockPush qid).head qiidNone) (v.qids qid).head
      (v.qidsNolockPush qid).tail := by
  rw [emptyNolockPush, if_pos (by omega)]
  simp only [nextOf_joined, nextOf_setNext, nextOf_setLast]

theorem emptyNolockPush_none (none_ : (v.qidsNolockPush qid).size = 0) : emptyNolockPush v qid = v := by
  rw [emptyNolockPush, if_neg (by omega)]

def fillHead : Nat := follow (nextOf v.qiids) (v.qids qid).tail (qiidsToPull params v qid - 1)

@[simp] theorem fillNolockPull_qidsNolockPush :
    (fillNolockPull params v qid).qidsNolockPush = v.qidsNolockPush := by
  unfold fillNolockPull
  dsimp only
  split <;> rfl

theorem fillNolockPull_none (none_ : qiidsToPull params v qid = 0) : fillNolockPull params v qid = v := by
  rw [fillNolockPull, if_neg (by omega)]

theorem fillNolockPull_qids (some_ : qiidsToPull params v qid ≠ 0) :
    (fillNolockPull params v qid).qids = Function.update v.qids qid
      { head := if (v.qids qid).size - qiidsToPull params v qid = 0 then qiidNone else (v.qids qid).head
        tail := if (v.qids qid).size - qiidsToPull params v qid = 0 then qiidNone
          else nextOf v.qiids (fillHead params v qid)
        size := (v.qids qid).size - qiidsToPull params v qid } := by
  rw [fillNolockPull, if_pos (by omega)]
  rfl

theorem fillNolockPull_qidsNolockPull (some_ : qiidsToPull params v qid ≠ 0) :
    (fillNolockPull params v qid).qidsNolockPull = Function.update v.qidsNolockPull qid
      { head := fillHead params v qid
        tail := if (v.qidsNolockPull qid).head = qiidNone then (v.qids qid).tail
          else (v.qidsNolockPull qid).tail
        size := (v.qidsNolockPull qid).size + qiidsToPull params v qid } := by
  rw [fillNolockPull, if_pos (by omega)]
  rfl

theorem nextOf_fillNolockPull (some_ : qiidsToPull params v qid ≠ 0) :
    nextOf (fillNolockPull params v qid).qiids = Linked.joined qiidNone
      (Function.update (nextOf v.qiids) (fillHead params v qid) qiidNone) (v.qidsNolockPull qid).head
      (v.qids qid).tail := by
  rw [fillNolockPull, if_pos (by omega)]
  simp only [nextOf_joined, nextOf_setNext, nextOf_setLast]
  rfl

end Fields

namespace QState

variable {params : Params} {valid : Nat → Prop} {s : QState} {lists : Lists} {p : Nat} {v : View}
  {held : List Nat} {pc : Pc}

theorem update_view (s : QState) (p : Nat) :
    s.update p (s.view p) (s.process p).held (s.process p).pc = s := by
  simp only [update, view, Function.update_eq_self]

theorem Holds.atView (holds : (s.update p v held pc).Holds lists) (place : Place) (queue : Qid)
    (found : (s.update p v held pc).queueAt place = some queue) :
    Linked qiidNone (nextOf v.qiids) queue.head queue.tail queue.size (lists place) :=
  holds.linked found

theorem Holds.atPush (holds : (s.update p v held pc).Holds lists) (qid : Nat) :
    Linked qiidNone (nextOf v.qiids) (v.qidsNolockPush qid).head (v.qidsNolockPush qid).tail
      (v.qidsNolockPush qid).size (lists (.push p qid)) := holds.atView _ _ (by simp)

theorem Holds.atPull (holds : (s.update p v held pc).Holds lists) (qid : Nat) :
    Linked qiidNone (nextOf v.qiids) (v.qidsNolockPull qid).head (v.qidsNolockPull qid).tail
      (v.qidsNolockPull qid).size (lists (.pull p qid)) := holds.atView _ _ (by simp)

theorem Holds.atShared (holds : (s.update p v held pc).Holds lists) (qid : Nat) :
    Linked qiidNone (nextOf v.qiids) (v.qids qid).head (v.qids qid).tail (v.qids qid).size
      (lists (.shared qid)) := holds.atView _ _ (by simp)

theorem Holds.heldHere (holds : (s.update p v held pc).Holds lists) : lists (.held p) = held := by
  rw [holds.held, heldAt_update, Function.update_self]

theorem Holds.push (holds : (s.update p v held pc).Holds lists) (partition : Partition valid lists)
    {pushQid qiid : Nat} (mine : qiid ∈ held) (real : qiid ≠ qiidNone) (pc' : Pc) :
    (s.update p (pushNolock v pushQid qiid) (held.erase qiid) pc').Holds
      (pushed p pushQid qiid lists) := by
  have here : qiid ∈ lists (.held p) := by rw [holds.heldHere]; exact mine
  have elsewhere : qiid ∉ lists (.push p pushQid) := partition.outside here nofun
  have queue := holds.atPush pushQid
  refine holds.exchange partition nofun (fun place notFirst notSecond => ?_)
    (fun item notFirst notSecond => ?_) (fun _ found => by cases found) (fun queue' found => ?_) ?_
  · cases place with
    | shared => rfl
    | push q qid =>
      simp only [queueAt_update_push, pushNolock_qidsNolockPush]
      split
      · rename_i same
        rw [Function.update_of_ne fun equal => notSecond (by rw [same, equal])]
      · rfl
    | pull q qid => simp only [queueAt_update_pull, pushNolock_qidsNolockPull]
    | held => rfl
  · rw [qiids_update, qiids_update, nextOf_pushNolock, queue.joined_frame _ notSecond,
      Function.update_of_ne (ne_of_mem_of_not_mem here notFirst).symm]
  · have cut : Linked qiidNone (Function.update (nextOf v.qiids) qiid qiidNone) _ _ _ _ :=
      queue.congr fun item member => Function.update_of_ne (ne_of_mem_of_not_mem member elsewhere) _ _
    have joined := cut.join (Linked.single _ real (Function.update_self _ _ _)) (by simp)
      (partition.nodup _) fun item member => by
        simpa using ne_of_mem_of_not_mem member elsewhere
    rw [queueAt_update_push, if_pos rfl, pushNolock_qidsNolockPush, Function.update_self] at found
    cases found
    rw [qiids_update, nextOf_pushNolock]
    exact joined
  · intro q
    have outside := holds.held q
    rw [heldAt_update, Function.update_apply] at outside
    rw [heldAt_update, Function.update_apply, ← pushed, pushed_held, holds.heldHere]
    split <;> simp_all

theorem Holds.pull (holds : (s.update p v held pc).Holds lists) (partition : Partition valid lists)
    {pullQid : Nat} (some_ : (v.qidsNolockPull pullQid).size ≠ 0) (pc' : Pc) :
    lists (.pull p pullQid) = (pullNolock v pullQid).1 :: (lists (.pull p pullQid)).tail ∧
    (s.update p (pullNolock v pullQid).2 ((pullNolock v pullQid).1 :: held) pc').Holds
      (pulled p pullQid lists) := by
  have queue := holds.atPull pullQid
  obtain ⟨item, rest, items⟩ := List.exists_cons_of_ne_nil (mt queue.size_zero_iff.mpr some_)
  rw [items] at queue
  obtain ⟨tail, left⟩ := queue.pull
  have first : (pullNolock v pullQid).1 = item := tail
  refine ⟨by rw [first, items]; rfl, ?_⟩
  refine holds.exchange partition nofun (fun place notFirst notSecond => ?_)
    (fun item _ _ => ?_) (fun queue' found => ?_) (fun _ found => by cases found) ?_
  · cases place with
    | shared => rfl
    | pull q qid =>
      simp only [queueAt_update_pull, pullNolock_qidsNolockPull]
      split
      · rename_i same
        rw [Function.update_of_ne fun equal => notFirst (by rw [same, equal])]
      · rfl
    | push q qid => simp only [queueAt_update_push, pullNolock_qidsNolockPush]
    | held => rfl
  · rw [qiids_update, qiids_update, nextOf_pullNolock]
  · rw [queueAt_update_pull, if_pos rfl, pullNolock_qidsNolockPull, Function.update_self] at found
    cases found
    rw [qiids_update, nextOf_pullNolock, items, List.tail_cons, tail]
    exact left
  · intro q
    have outside := holds.held q
    rw [heldAt_update, Function.update_apply] at outside
    rw [heldAt_update, Function.update_apply, ← pulled, pulled_held, holds.heldHere, first, items]
    split <;> simp_all

theorem Holds.emptyNolockPush (holds : (s.update p v held pc).Holds lists)
    (partition : Partition valid lists) (qid : Nat) :
    (s.update p (emptyNolockPush v qid) held pc).Holds (emptied p lists qid) := by
  have queue := holds.atPush qid
  have locked := holds.atShared qid
  by_cases empty : (v.qidsNolockPush qid).size = 0
  · have nothing : emptied p lists qid = lists := by
      have none := queue.size_zero_iff.mp empty
      funext place
      rw [emptied, exchange_apply, none, List.append_nil]
      split
      · rename_i same
        rw [same, none]
      · split
        · rename_i same
          rw [same]
        · rfl
    rw [nothing, emptyNolockPush_none _ _ empty]
    exact holds
  · have nonempty : lists (.push p qid) ≠ [] := mt queue.size_zero_iff.mpr empty
    have ends := queue.end_head nonempty
    have joined := locked.join queue nonempty (partition.nodup _) fun item member =>
      partition.outside member nofun
    refine holds.exchange partition nofun (fun place notFirst notSecond => ?_)
      (fun item notFirst _ => ?_) (fun queue' found => ?_) (fun queue' found => ?_) fun q => ?_
    · cases place with
      | shared other =>
        have different : other ≠ qid := fun equal => notFirst (by rw [equal])
        rw [queueAt_update_shared, queueAt_update_shared, emptyNolockPush_qids _ _ empty,
          Function.update_of_ne different]
      | push q other =>
        simp only [queueAt_update_push, emptyNolockPush_qidsNolockPush _ _ empty]
        split
        · rename_i same
          rw [Function.update_of_ne fun equal => notSecond (by rw [same, equal])]
        · rfl
      | pull q other => simp only [queueAt_update_pull, emptyNolockPush_qidsNolockPull]
      | held => rfl
    · rw [qiids_update, qiids_update, nextOf_emptyNolockPush _ _ empty, ends,
        locked.joined_frame _ notFirst]
    · rw [queueAt_update_shared, emptyNolockPush_qids _ _ empty, Function.update_self] at found
      cases found
      rw [qiids_update, nextOf_emptyNolockPush _ _ empty, ends]
      exact joined
    · rw [queueAt_update_push, if_pos rfl, emptyNolockPush_qidsNolockPush _ _ empty,
        Function.update_self] at found
      cases found
      exact Linked.empty _ _
    · rw [← emptied, emptied_held, holds.held, heldAt_update, heldAt_update]

theorem Holds.emptyAll (holds : (s.update p v held pc).Holds lists) (partition : Partition valid lists)
    (n : Nat) :
    (s.update p ((List.range n).foldl Queue.emptyNolockPush v) held pc).Holds
      ((List.range n).foldl (emptied p) lists) ∧
    Partition valid ((List.range n).foldl (emptied p) lists) := by
  induction n with
  | zero => exact ⟨holds, partition⟩
  | succ n ih =>
    simp only [List.range_succ, List.foldl_append, List.foldl_cons, List.foldl_nil]
    exact ⟨ih.1.emptyNolockPush ih.2 n, emptied_partition ih.2⟩

theorem Holds.fillNolockPull (holds : (s.update p v held pc).Holds lists)
    (partition : Partition valid lists) (qid : Nat) :
    (s.update p (fillNolockPull params v qid) held pc).Holds (filled params p qid lists) := by
  have queue := holds.atPull qid
  have locked := holds.atShared qid
  have count : fillCount params p qid lists = qiidsToPull params v qid := by
    rw [fillCount, qiidsToPull, qiidsToPullMax, ← queue.size_eq, ← locked.size_eq]
    split <;> split <;> omega
  by_cases empty : qiidsToPull params v qid = 0
  · have nothing : filled params p qid lists = lists := by
      funext place
      rw [filled, exchange_apply, count, empty, List.drop_zero, List.take_zero, List.append_nil]
      split
      · rename_i same
        rw [same]
      · split
        · rename_i same
          rw [same]
        · rfl
    rw [nothing, fillNolockPull_none _ _ _ empty]
    exact holds
  · have enough : qiidsToPull params v qid ≤ (lists (.shared qid)).length := by
      rw [← count]
      exact Nat.min_le_left _ _
    have taken : ((lists (.shared qid)).take (qiidsToPull params v qid)).length =
        qiidsToPull params v qid := List.length_take_of_le enough
    have nonempty : (lists (.shared qid)).take (qiidsToPull params v qid) ≠ [] := fun none => by
      rw [none] at taken
      exact empty taken.symm
    have walked : fillHead params v qid =
        lastOr qiidNone ((lists (.shared qid)).take (qiidsToPull params v qid)) := by
      rw [fillHead, locked.chain.follow_eq _ (by omega), Nat.sub_add_cancel (by omega)]
    have parts := List.take_append_drop (qiidsToPull params v qid) (lists (.shared qid))
    rw [← parts] at locked
    have distinct := partition.nodup (.shared qid)
    rw [← parts] at distinct
    obtain ⟨front, back⟩ := locked.split nonempty distinct
    rw [← walked] at front back
    have front_shared : ∀ item ∈ (lists (.shared qid)).take (qiidsToPull params v qid),
        item ∈ lists (.shared qid) := fun _ member => List.mem_of_mem_take member
    have ends : fillHead params v qid ∈ lists (.shared qid) := by
      rw [walked]
      exact front_shared _ (lastOr_mem nonempty)
    have kept : Linked qiidNone (Function.update (nextOf v.qiids) (fillHead params v qid) qiidNone) _ _ _ _ :=
      queue.congr fun item member =>
        Function.update_of_ne (ne_of_mem_of_not_mem member (partition.outside ends nofun)) _ _
    have joined := kept.join front nonempty (partition.nodup _) fun item member also =>
      absurd (front_shared _ also) (partition.outside member nofun)
    refine holds.exchange partition nofun (fun place notFirst notSecond => ?_)
      (fun item notFirst notSecond => ?_) (fun queue' found => ?_) (fun queue' found => ?_) fun q => ?_
    · cases place with
      | shared other =>
        have different : other ≠ qid := fun equal => notFirst (by rw [equal])
        rw [queueAt_update_shared, queueAt_update_shared, fillNolockPull_qids _ _ _ empty,
          Function.update_of_ne different]
      | pull q other =>
        simp only [queueAt_update_pull, fillNolockPull_qidsNolockPull _ _ _ empty]
        split
        · rename_i same
          rw [Function.update_of_ne fun equal => notSecond (by rw [same, equal])]
        · rfl
      | push q other => simp only [queueAt_update_push, fillNolockPull_qidsNolockPush]
      | held => rfl
    · rw [qiids_update, qiids_update, nextOf_fillNolockPull _ _ _ empty, queue.joined_frame _ notSecond,
        Function.update_of_ne (ne_of_mem_of_not_mem ends notFirst).symm]
    · rw [queueAt_update_shared, fillNolockPull_qids _ _ _ empty, Function.update_self] at found
      cases found
      have left : (v.qids qid).size - qiidsToPull params v qid =
          ((lists (.shared qid)).drop (qiidsToPull params v qid)).length := by
        rw [List.length_drop, ← (holds.atShared qid).size_eq]
      have links : ∀ item ∈ (lists (.shared qid)).drop (qiidsToPull params v qid),
          nextOf (Queue.fillNolockPull params v qid).qiids item =
            Function.update (nextOf v.qiids) (fillHead params v qid) qiidNone item := by
        intro item member
        rw [nextOf_fillNolockPull _ _ _ empty]
        exact queue.joined_frame _ (partition.outside (List.mem_of_mem_drop member) nofun)
      have after := back.congr links
      rw [qiids_update, count, left]
      by_cases all : (lists (.shared qid)).drop (qiidsToPull params v qid) = []
      · rw [all]
        exact Linked.empty _ _
      · have some_ := mt List.length_eq_zero_iff.mp all
        rw [if_neg all] at after
        rw [if_neg some_, if_neg some_]
        exact after
    · rw [queueAt_update_pull, if_pos rfl, fillNolockPull_qidsNolockPull _ _ _ empty,
        Function.update_self] at found
      cases found
      rw [qiids_update, nextOf_fillNolockPull _ _ _ empty, count]
      rw [taken] at joined
      exact joined
    · rw [← filled, filled_held, holds.held, heldAt_update, heldAt_update]

theorem Holds.flush (holds : (s.update p v held pc).Holds lists) (partition : Partition valid lists)
    (pullQid : Nat) (pc' : Pc) :
    (s.update p (shfQFlush params v pullQid) held pc').Holds (flushed params p pullQid lists) := by
  obtain ⟨emptied, apart⟩ := holds.emptyAll partition params.qs
  have filled : (s.update p (shfQFlush params v pullQid) held pc).Holds
      (flushed params p pullQid lists) := by
    unfold shfQFlush flushed
    dsimp only
    split
    · exact emptied
    · exact emptied.fillNolockPull apart pullQid
  refine filled.congr ?_ rfl ?_
  · funext place
    cases place <;> simp
  · simp

end QState

end SharedHashFile.Queue
