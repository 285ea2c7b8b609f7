import SharedHashFile.Queue.Moves

namespace SharedHashFile.Queue

open LinkedList LinkedList.Partition

def Place.Exists (params : Params) : Place → Prop
  | .shared qid => qid < params.qs
  | .push _ qid => qid < params.qs
  | .pull _ qid => qid < params.qs
  | .held _ => True

def initialContent (params : Params) (qid : Nat) : List Nat :=
  if qid = 0 then List.range params.qItems else []

def initialLists (params : Params) : Lists
  | .shared qid => initialContent params qid
  | _ => []

def Event.moves (params : Params) (lists : Lists) : Event → Lists
  | .pushed p qid qiid _ => Queue.pushed p qid qiid lists
  | .called _ _ => lists
  | .flushed p pullQid => Queue.flushed params p pullQid lists
  | .pulled p qid _ => Queue.pulled p qid lists
  | .pulledNone _ _ => lists

def listsAfter (params : Params) (events : List Event) : Lists :=
  events.foldl (Event.moves params) (initialLists params)

@[simp] theorem listsAfter_nil (params : Params) : listsAfter params [] = initialLists params := rfl

@[simp] theorem listsAfter_concat (params : Params) (events : List Event) (event : Event) :
    listsAfter params (events ++ [event]) = event.moves params (listsAfter params events) := by
  rw [listsAfter, List.foldl_append]
  rfl

/-- What the lists tell about a state. -/
structure Owned (params : Params) (s : QState) (lists : Lists) : Prop where
  holds : s.Holds lists
  partition : Partition (· < params.qItems) lists
  exist : ∀ place, lists place ≠ [] → place.Exists params

theorem item_real (params : Params) {qiid : Nat} (below : qiid < params.qItems) :
    qiid ≠ qiidNone := by
  have bound := params.qItems_lt
  unfold qiidNone
  omega

section Initial

variable (params : Params)

theorem shfQNew_next (qiid : Nat) : nextOf (shfQNew params).qiids qiid =
    if qiid = params.qItems - 1 then qiidNone else qiid + 1 := by
  simp only [shfQNew, nextOf_setNext, nextOf_setLast, Function.update_apply]
  rfl

/-- The chain `shf_q_new` makes, from any of its items. -/
theorem shfQNew_chain (count : Nat) (bound : count ≤ params.qItems) :
    Chain qiidNone (nextOf (shfQNew params).qiids)
      (if count = 0 then qiidNone else params.qItems - count)
      (List.range' (params.qItems - count) count) := by
  induction count with
  | zero => exact .nil
  | succ count ih =>
    have positive := params.qItems_gt
    have next := ih (by omega)
    have here : params.qItems - (count + 1) + 1 = params.qItems - count := by omega
    rw [List.range'_succ, here, if_neg (by omega)]
    refine .cons (item_real params (by omega)) ?_
    rw [shfQNew_next]
    by_cases last : count = 0
    · subst last
      rw [if_pos (by omega)]
      exact .nil
    · rw [if_neg last] at next
      rw [if_neg (by omega), here]
      exact next

theorem shfQNew_linked : Linked qiidNone (nextOf (shfQNew params).qiids) (params.qItems - 1) 0
    params.qItems (List.range params.qItems) := by
  have positive := params.qItems_gt
  have chain := shfQNew_chain params params.qItems (Nat.le_refl _)
  rw [if_neg (by omega), Nat.sub_self, ← List.range_eq_range'] at chain
  refine ⟨chain, ?_, List.length_range.symm⟩
  obtain ⟨n, same⟩ := Nat.exists_eq_add_of_lt params.qItems_gt
  rw [same, List.range_succ, lastOr_concat, Nat.add_sub_cancel]

theorem initial_owned : Owned params (QState.initial params) (initialLists params) := by
  refine ⟨⟨fun {place queue} found => ?_, fun _ => rfl⟩, ⟨fun place => ?_, ?_, ?_⟩, ?_⟩
  · cases place with
    | shared qid =>
      cases found
      by_cases first : qid = 0
      · subst first
        exact shfQNew_linked params
      · simp only [QState.initial, shfQNew, initialLists, initialContent, Function.update_of_ne first,
          if_neg first]
        exact Linked.empty _ _
    | push _ _ => cases found; exact Linked.empty _ _
    | pull _ _ => cases found; exact Linked.empty _ _
    | held _ => cases found
  · cases place with
    | shared qid =>
      simp only [initialLists, initialContent]
      split
      · exact List.nodup_range
      · exact List.nodup_nil
    | _ => exact List.nodup_nil
  · intro item place other member also
    cases place with
    | shared qid =>
      cases other with
      | shared qid' =>
        simp only [initialLists, initialContent] at member also
        split at member <;> split at also <;> simp_all
      | _ => cases also
    | _ => cases member
  · intro item
    constructor
    · intro valid
      exact ⟨.shared 0, by simpa [initialLists, initialContent] using valid⟩
    · rintro ⟨place, member⟩
      cases place with
      | shared qid =>
        simp only [initialLists, initialContent] at member
        split at member
        · exact List.mem_range.mp member
        · cases member
      | _ => cases member
  · intro place some_
    cases place with
    | shared qid =>
      have more := params.qs_gt
      simp only [initialLists, initialContent] at some_
      split at some_
      · simp only [Place.Exists]; omega
      · exact absurd rfl some_
    | _ => exact absurd rfl some_

end Initial

section Exist

variable {params : Params} {lists : Lists} {p qid : Nat}

theorem pushed_exist (exist : ∀ place, lists place ≠ [] → place.Exists params) (queue : qid < params.qs)
    (qiid : Nat) (place : Place) (some_ : pushed p qid qiid lists place ≠ []) : place.Exists params := by
  cases place with
  | held => trivial
  | shared other => rw [pushed_shared] at some_; exact exist _ some_
  | pull q other => rw [pushed_pull] at some_; exact exist _ some_
  | push q other =>
    rw [pushed_push] at some_
    split at some_
    · rename_i same
      exact same.2 ▸ queue
    · exact exist _ some_

theorem pulled_exist (exist : ∀ place, lists place ≠ [] → place.Exists params) (place : Place)
    (some_ : pulled p qid lists place ≠ []) : place.Exists params := by
  cases place with
  | held => trivial
  | shared other => rw [pulled_shared] at some_; exact exist _ some_
  | push q other => rw [pulled_push] at some_; exact exist _ some_
  | pull q other =>
    rw [pulled_pull] at some_
    split at some_
    · rename_i same
      obtain ⟨rfl, rfl⟩ := same
      exact exist (.pull q other) fun none => some_ (by rw [none]; rfl)
    · exact exist _ some_

theorem emptied_exist (exist : ∀ place, lists place ≠ [] → place.Exists params) (queue : qid < params.qs)
    (place : Place) (some_ : emptied p lists qid place ≠ []) : place.Exists params := by
  cases place with
  | held => trivial
  | shared other =>
    rw [emptied_shared] at some_
    split at some_
    · rename_i same
      exact same ▸ queue
    · exact exist _ some_
  | push q other =>
    rw [emptied_push] at some_
    split at some_
    · exact absurd rfl some_
    · exact exist _ some_
  | pull q other => rw [emptied_pull] at some_; exact exist _ some_

theorem filled_exist (exist : ∀ place, lists place ≠ [] → place.Exists params) (place : Place)
    (some_ : filled params p qid lists place ≠ []) : place.Exists params := by
  cases place with
  | held => trivial
  | shared other =>
    rw [filled_shared] at some_
    split at some_
    · rename_i same
      exact same ▸ exist (.shared qid) fun none => some_ (by rw [none, List.drop_nil])
    · exact exist _ some_
  | push q other => rw [filled_push] at some_; exact exist _ some_
  | pull q other =>
    rw [filled_pull] at some_
    split at some_
    · rename_i same
      obtain ⟨rfl, rfl⟩ := same
      by_cases mine : lists (.pull q other) = []
      · exact exist (.shared other) fun none => some_ (by rw [mine, none, List.take_nil]; rfl)
      · exact exist (.pull q other) mine
    · exact exist _ some_

theorem flushed_exist (exist : ∀ place, lists place ≠ [] → place.Exists params) (place : Place)
    (some_ : flushed params p qid lists place ≠ []) : place.Exists params := by
  have emptiedAll : ∀ n ≤ params.qs, ∀ place, (List.range n).foldl (emptied p) lists place ≠ [] →
      place.Exists params := by
    intro n bound
    induction n with
    | zero => exact exist
    | succ n ih =>
      simp only [List.range_succ, List.foldl_append, List.foldl_cons, List.foldl_nil]
      exact emptied_exist (ih (by omega)) (by omega)
  unfold flushed at some_
  split at some_
  · exact emptiedAll _ (Nat.le_refl _) place some_
  · exact filled_exist (emptiedAll _ (Nat.le_refl _)) place some_

end Exist

section Steps

variable {params : Params} {s t : QState} {lists : Lists} {event : Event}

theorem Owned.push (owned : Owned params s lists) {p pushQid qiid : Nat} (mine : qiid ∈ (s.process p).held)
    (queue : pushQid < params.qs) (pc : Pc) :
    Owned params (s.push p pushQid qiid pc) (pushed p pushQid qiid lists) := by
  have here : qiid ∈ lists (.held p) := owned.holds.held p ▸ mine
  have holds := owned.holds
  rw [← s.update_view p] at holds
  have after : (s.push p pushQid qiid pc).Holds (pushed p pushQid qiid lists) :=
    holds.push owned.partition mine (item_real params (owned.partition.valid here)) pc
  exact ⟨after, pushed_partition owned.partition here, pushed_exist owned.exist queue qiid⟩

theorem Owned.goto (owned : Owned params s lists) (p : Nat) (pc : Pc) :
    Owned params (s.goto p pc) lists := ⟨owned.holds.goto p pc, owned.partition, owned.exist⟩

/-- Each step moves items between lists as its event says. -/
theorem Owned.step (owned : Owned params s lists) (step : Step params s event t) :
    Owned params t (event.moves params lists) := by
  cases step with
  | pushHead idle queue mine => exact owned.push mine queue _
  | pullTail idle queue => exact owned.goto _ _
  | pushHeadPullTail idle pushQueue pullQueue mine => exact owned.push mine pushQueue _
  | pushNonePullTail idle pushQueue pullQueue => exact owned.goto _ _
  | callFlush idle queue => exact owned.goto _ _
  | @flush p pullQid pulls position =>
    have holds := owned.holds
    rw [← s.update_view p] at holds
    exact ⟨holds.flush owned.partition pullQid _, flushed_partition owned.partition, flushed_exist owned.exist⟩
  | @pull p pullQid position some_ =>
    have holds := owned.holds
    rw [← s.update_view p] at holds
    exact ⟨(holds.pull owned.partition some_ .idle).2.setQiid _ _ _ _, pulled_partition owned.partition, pulled_exist owned.exist⟩
  | pullNone position none_ =>
    exact ⟨(owned.holds.goto _ _).setQiid _ _ _ _, owned.partition, owned.exist⟩

theorem run_owned {events : List Event} (run : Run params events s) :
    Owned params s (listsAfter params events) := by
  induction run with
  | start => exact initial_owned params
  | next _ step ih =>
    rw [listsAfter_concat]
    exact ih.step step

end Steps

namespace QState

def Contains (s : QState) (place : Place) (qiid : Nat) : Prop :=
  match s.queueAt place with
  | some queue => ∃ items, Chain qiidNone (nextOf s.qiids) queue.tail items ∧ qiid ∈ items
  | none => ∃ p, place = .held p ∧ qiid ∈ (s.process p).held

theorem Holds.contains_iff {s : QState} {lists : Lists} (holds : s.Holds lists) (place : Place)
    (qiid : Nat) : s.Contains place qiid ↔ qiid ∈ lists place := by
  have onChain (queue : Qid) (found : s.queueAt place = some queue) :
      s.Contains place qiid ↔ qiid ∈ lists place := by
    simp only [Contains, found]
    constructor
    · rintro ⟨items, chain, member⟩
      rwa [(holds.linked found).chain.unique chain]
    · exact fun member => ⟨_, (holds.linked found).chain, member⟩
  cases place with
  | held p => simp only [Contains, queueAt, Place.held.injEq, exists_eq_left', holds.held p, heldAt]
  | shared qid => exact onChain _ rfl
  | push p qid => exact onChain _ rfl
  | pull p qid => exact onChain _ rfl

end QState

theorem Owned.unique {params : Params} {s : QState} {lists : Lists} (owned : Owned params s lists)
    {qiid : Nat} (valid : qiid < params.qItems) :
    ∃! place : Place, place.Exists params ∧ s.Contains place qiid := by
  obtain ⟨place, member, only⟩ := owned.partition.unique valid
  refine ⟨place, ⟨owned.exist place (List.ne_nil_of_mem member), ?_⟩, fun other also => only other ?_⟩
  · exact (owned.holds.contains_iff place qiid).mpr member
  · exact (owned.holds.contains_iff other qiid).mp also.2

def smallParams : Params where
  qs := 3
  qItems := 2
  qItemSize := 9
  qidsNolockMax := 1
  qs_gt := by decide
  qItems_gt := by decide
  qidsNolockMax_pos := by decide
  qidsNolockMax_lt := by decide
  qItemSize_ge := by decide
  qs_lt := by decide
  qItems_lt := by decide
  qItemSize_lt := by decide

def smallEvents : List Event :=
  [.called 0 0, .flushed 0 0, .pulled 0 0 0, .pushed 0 1 0 qidNone, .flushed 0 qidNone,
    .called 0 1, .flushed 0 1, .pulled 0 1 0, .called 0 1, .flushed 0 1, .pulledNone 0 1]

theorem small_run : ∃ s, Run smallParams smallEvents s := by
  have called := Run.start.next (@Step.pullTail smallParams _ 0 0 rfl (by decide))
  have flushed := called.next (@Step.flush smallParams _ 0 0 true rfl)
  have pulled := flushed.next (@Step.pull smallParams _ 0 0 rfl (by decide))
  have pushed := pulled.next (@Step.pushHead smallParams _ 0 1 0 rfl (by decide) (by decide))
  have shared := pushed.next (@Step.flush smallParams _ 0 qidNone false rfl)
  have calledAgain := shared.next (@Step.pullTail smallParams _ 0 1 rfl (by decide))
  have refilled := calledAgain.next (@Step.flush smallParams _ 0 1 true rfl)
  have pulledAgain := refilled.next (@Step.pull smallParams _ 0 1 rfl (by decide))
  have calledLast := pulledAgain.next (@Step.pullTail smallParams _ 0 1 rfl (by decide))
  have flushedLast := calledLast.next (@Step.flush smallParams _ 0 1 true rfl)
  exact ⟨_, flushedLast.next (@Step.pullNone smallParams _ 0 1 rfl rfl)⟩

/-- No item is lost or duplicated, and every queue is a finite list of as many items as it says. -/
theorem queue_items_owned_once {params : Params} {events : List Event} {s : QState}
    (run : Run params events s) :
    (∀ qiid < params.qItems, ∃! place : Place, place.Exists params ∧ s.Contains place qiid) ∧
    ∀ place queue, s.queueAt place = some queue →
      ∃ items : List Nat, Linked qiidNone (nextOf s.qiids) queue.head queue.tail queue.size items ∧
        items.Nodup ∧ ∀ qiid ∈ items, qiid < params.qItems := by
  have owned := run_owned run
  refine ⟨fun qiid valid => owned.unique valid, fun place queue found => ?_⟩
  exact ⟨_, owned.holds.linked found, owned.partition.nodup place,
    fun qiid member => owned.partition.valid member⟩

theorem small_run_owned_once : ∃ s, Run smallParams smallEvents s ∧
    (∀ qiid < smallParams.qItems, ∃! place : Place, place.Exists smallParams ∧ s.Contains place qiid) ∧
    ∀ place queue, s.queueAt place = some queue →
      ∃ items : List Nat, Linked qiidNone (nextOf s.qiids) queue.head queue.tail queue.size items ∧
        items.Nodup ∧ ∀ qiid ∈ items, qiid < smallParams.qItems := by
  obtain ⟨s, run⟩ := small_run
  exact ⟨s, run, queue_items_owned_once run⟩

end SharedHashFile.Queue
