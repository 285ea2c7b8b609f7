import SharedHashFile.Queue.Ownership

namespace SharedHashFile.Queue

open LinkedList LinkedList.Partition

namespace Event

def PushesOn (qid p : Nat) : Event → Prop
  | .pushed q other _ _ => q = p ∧ other = qid
  | _ => False

def PullsFrom (qid p : Nat) : Event → Prop
  | .pushed q _ _ pullQid => q = p ∧ pullQid = qid
  | .called q pullQid => q = p ∧ pullQid = qid
  | .flushed q pullQid => q = p ∧ pullQid = qid
  | .pulled q other _ => q = p ∧ other = qid
  | .pulledNone q other => q = p ∧ other = qid

def itemPushed (qid : Nat) : Event → Option Nat
  | .pushed _ other qiid _ => if other = qid then some qiid else none
  | _ => none

def itemPulled (qid : Nat) : Event → Option Nat
  | .pulled _ other qiid => if other = qid then some qiid else none
  | _ => none

/-- One event on a plain FIFO: what is pulled is its first item, and none only when empty. -/
def onFifo (qid : Nat) (content : List Nat) : Event → Option (List Nat)
  | .pushed _ other qiid _ => if other = qid then some (content ++ [qiid]) else some content
  | .pulled _ other qiid =>
    if other = qid then if content.head? = some qiid then some content.tail else none else some content
  | .pulledNone _ other => if other = qid ∧ content ≠ [] then none else some content
  | .called _ _ => some content
  | .flushed _ _ => some content

end Event

def itemsPushed (qid : Nat) (events : List Event) : List Nat := events.filterMap (Event.itemPushed qid)
def itemsPulled (qid : Nat) (events : List Event) : List Nat := events.filterMap (Event.itemPulled qid)

section Fifo

variable {qid : Nat}

theorem itemsPushed_cons (event : Event) (events : List Event) :
    itemsPushed qid (event :: events) = (event.itemPushed qid).toList ++ itemsPushed qid events := by
  cases found : event.itemPushed qid <;> simp [itemsPushed, found]

theorem itemsPulled_cons (event : Event) (events : List Event) :
    itemsPulled qid (event :: events) = (event.itemPulled qid).toList ++ itemsPulled qid events := by
  cases found : event.itemPulled qid <;> simp [itemsPulled, found]

@[simp] theorem itemsPushed_concat (events : List Event) (event : Event) :
    itemsPushed qid (events ++ [event]) = itemsPushed qid events ++ (event.itemPushed qid).toList := by
  rw [itemsPushed, List.filterMap_append, ← itemsPushed, ← itemsPushed, itemsPushed_cons]
  exact congrArg _ (List.append_nil _)

@[simp] theorem itemsPulled_concat (events : List Event) (event : Event) :
    itemsPulled qid (events ++ [event]) = itemsPulled qid events ++ (event.itemPulled qid).toList := by
  rw [itemsPulled, List.filterMap_append, ← itemsPulled, ← itemsPulled, itemsPulled_cons]
  exact congrArg _ (List.append_nil _)

theorem onFifo_conserves {event : Event} {content rest : List Nat} (done : event.onFifo qid content = some rest) :
    content ++ (event.itemPushed qid).toList = (event.itemPulled qid).toList ++ rest := by
  cases event with
  | pushed p other qiid pullQid =>
    simp only [Event.onFifo] at done
    split at done <;> rename_i same <;> cases done <;> simp [Event.itemPushed, Event.itemPulled, same]
  | pulled p other qiid =>
    simp only [Event.onFifo] at done
    split at done
    · rename_i same
      split at done
      · rename_i first
        cases done
        obtain ⟨more, rfl⟩ := List.head?_eq_some_iff.mp first
        simp [Event.itemPushed, Event.itemPulled, same]
      · cases done
    · rename_i other
      cases done
      simp [Event.itemPushed, Event.itemPulled, other]
  | pulledNone p other =>
    simp only [Event.onFifo] at done
    split at done <;> cases done
    simp [Event.itemPushed, Event.itemPulled]
  | called => cases done; simp [Event.itemPushed, Event.itemPulled]
  | flushed => cases done; simp [Event.itemPushed, Event.itemPulled]

/-- A plain FIFO yields its items in the order they came. -/
theorem fifo_conserves {events : List Event} {content rest : List Nat}
    (done : events.foldlM (Event.onFifo qid) content = some rest) :
    content ++ itemsPushed qid events = itemsPulled qid events ++ rest := by
  induction events generalizing content with
  | nil => cases done; simp [itemsPushed, itemsPulled]
  | cons event events ih =>
    rw [List.foldlM_cons, Option.bind_eq_bind, Option.bind_eq_some_iff] at done
    obtain ⟨middle, first, others⟩ := done
    calc content ++ itemsPushed qid (event :: events)
        = content ++ (event.itemPushed qid).toList ++ itemsPushed qid events := by
          rw [itemsPushed_cons, List.append_assoc]
      _ = (event.itemPulled qid).toList ++ (middle ++ itemsPushed qid events) := by
          rw [onFifo_conserves first, List.append_assoc]
      _ = itemsPulled qid (event :: events) ++ rest := by
          rw [ih others, itemsPulled_cons, List.append_assoc]

end Fifo

section Flush

variable {params : Params} {lists : Lists} {p qid q : Nat}

theorem emptiedAll_pull (n : Nat) :
    (List.range n).foldl (emptied p) lists (.pull q qid) = lists (.pull q qid) := by
  induction n with
  | zero => rfl
  | succ n ih =>
    rw [List.range_succ, List.foldl_append, List.foldl_cons, List.foldl_nil, emptied_pull, ih]

theorem emptiedAll_push (n : Nat) : (List.range n).foldl (emptied p) lists (.push q qid) =
    if q = p ∧ qid < n then [] else lists (.push q qid) := by
  induction n with
  | zero => simp
  | succ n ih =>
    rw [List.range_succ, List.foldl_append, List.foldl_cons, List.foldl_nil, emptied_push, ih]
    by_cases here : qid = n
    · subst here
      simp
    · simp only [here, and_false, if_false, show qid < n + 1 ↔ qid < n by omega]

theorem emptiedAll_shared (n : Nat) : (List.range n).foldl (emptied p) lists (.shared qid) =
    if qid < n then lists (.shared qid) ++ lists (.push p qid) else lists (.shared qid) := by
  induction n with
  | zero => simp
  | succ n ih =>
    rw [List.range_succ, List.foldl_append, List.foldl_cons, List.foldl_nil, emptied_shared, ih]
    by_cases here : qid = n
    · subst here
      rw [ih, emptiedAll_push]
      simp
    · simp only [here, if_false, show qid < n + 1 ↔ qid < n by omega]

theorem flushed_pull_process {pullQid : Nat} (other : q ≠ p) :
    flushed params p pullQid lists (.pull q qid) = lists (.pull q qid) := by
  unfold flushed
  split
  · exact emptiedAll_pull _
  · rw [filled_pull, if_neg fun same => other same.1, emptiedAll_pull]

theorem flushed_pull_other {pullQid : Nat} (other : pullQid ≠ qid) :
    flushed params p pullQid lists (.pull q qid) = lists (.pull q qid) := by
  unfold flushed
  split
  · exact emptiedAll_pull _
  · rw [filled_pull, if_neg fun same => other same.2.symm, emptiedAll_pull]

variable (queue : qid < params.qs)

include queue

theorem flushed_push (pullQid : Nat) : flushed params p pullQid lists (.push q qid) =
    if q = p then [] else lists (.push q qid) := by
  unfold flushed
  split
  · rw [emptiedAll_push]
    simp [queue]
  · rw [filled_push, emptiedAll_push]
    simp [queue]

theorem flushed_shared_other {pullQid : Nat} (other : pullQid ≠ qid) :
    flushed params p pullQid lists (.shared qid) = lists (.shared qid) ++ lists (.push p qid) := by
  unfold flushed
  split
  · rw [emptiedAll_shared, if_pos queue]
  · rw [filled_shared, if_neg other.symm, emptiedAll_shared, if_pos queue]

theorem qid_real : qid ≠ qidNone := by
  have bound := params.qs_lt
  unfold qidNone
  omega

/-- A flush refills the pull list from the front of all that was shared or pushed. -/
theorem flushed_refill (lists : Lists) (p : Nat) : ∃ count,
    flushed params p qid lists (.pull p qid) =
      lists (.pull p qid) ++ (lists (.shared qid) ++ lists (.push p qid)).take count ∧
    flushed params p qid lists (.shared qid) = (lists (.shared qid) ++ lists (.push p qid)).drop count ∧
    (flushed params p qid lists (.pull p qid) = [] → flushed params p qid lists (.shared qid) = []) := by
  refine ⟨fillCount params p qid ((List.range params.qs).foldl (emptied p) lists), ?_⟩
  have shared : (List.range params.qs).foldl (emptied p) lists (.shared qid) =
      lists (.shared qid) ++ lists (.push p qid) := by rw [emptiedAll_shared, if_pos queue]
  rw [flushed, if_neg (qid_real queue), filled_shared, filled_pull, if_pos rfl, if_pos ⟨rfl, rfl⟩,
    emptiedAll_pull, shared]
  refine ⟨rfl, rfl, fun none => ?_⟩
  have positive := params.qidsNolockMax_pos
  obtain ⟨nolock, taken⟩ := List.append_eq_nil_iff.mp none
  rw [fillCount, shared, emptiedAll_pull, nolock, List.length_nil, Nat.sub_zero] at taken ⊢
  rcases List.take_eq_nil_iff.mp taken with zero | empty
  · have short : (lists (.shared qid) ++ lists (.push p qid)).length = 0 := by omega
    rw [List.length_eq_zero_iff.mp short, List.drop_nil]
  · rw [empty, List.drop_nil]

end Flush

structure Single (pusher puller qid : Nat) (lists : Lists) : Prop where
  push : ∀ p, p ≠ pusher → lists (.push p qid) = []
  pull : ∀ p, p ≠ puller → lists (.pull p qid) = []

def content (pusher puller qid : Nat) (lists : Lists) : List Nat :=
  lists (.pull puller qid) ++ (lists (.shared qid) ++ lists (.push pusher qid))

section Content

variable {params : Params} {lists : Lists} {pusher puller qid : Nat} {event : Event}

theorem Single.flushed (single : Single pusher puller qid lists) (queue : qid < params.qs) {p pullQid : Nat}
    (pulls : pullQid = qid → p = puller) : Single pusher puller qid (flushed params p pullQid lists) := by
  refine ⟨fun q other => ?_, fun q other => ?_⟩
  · rw [flushed_push queue]
    split
    · rfl
    · exact single.push q other
  · by_cases here : pullQid = qid
    · rw [flushed_pull_process (pulls here ▸ other)]
      exact single.pull q other
    · rw [flushed_pull_other here]
      exact single.pull q other

theorem Single.flushed_content (single : Single pusher puller qid lists) (queue : qid < params.qs)
    {p pullQid : Nat} (pulls : pullQid = qid → p = puller) :
    content pusher puller qid (Queue.flushed params p pullQid lists) = content pusher puller qid lists := by
  have shared : (lists (.shared qid) ++ lists (.push p qid)) ++
      Queue.flushed params p pullQid lists (.push pusher qid) =
        lists (.shared qid) ++ lists (.push pusher qid) := by
    rw [flushed_push queue]
    by_cases mine : pusher = p
    · rw [if_pos mine, mine, List.append_nil]
    · rw [if_neg mine, single.push p (Ne.symm mine), List.append_nil]
  by_cases here : pullQid = qid
  · obtain rfl := pulls here
    subst here
    obtain ⟨count, pull, rest, _⟩ := flushed_refill queue lists p
    rw [content, pull, rest, List.append_assoc, ← List.append_assoc (List.take _ _),
      List.take_append_drop, shared, content]
  · rw [content, flushed_pull_other here, flushed_shared_other queue here, shared, content]

theorem Single.pushed (single : Single pusher puller qid lists) {p other : Nat}
    (pushes : other = qid → p = pusher) (qiid : Nat) :
    Single pusher puller qid (pushed p other qiid lists) := by
  refine ⟨fun q away => ?_, fun q away => ?_⟩
  · rw [pushed_push, if_neg, single.push q away]
    rintro ⟨rfl, rfl⟩
    exact away (pushes rfl)
  · rw [pushed_pull, single.pull q away]

theorem Single.pushed_content (single : Single pusher puller qid lists) {p other : Nat}
    (pushes : other = qid → p = pusher) (qiid : Nat) :
    content pusher puller qid (Queue.pushed p other qiid lists) =
      content pusher puller qid lists ++ if other = qid then [qiid] else [] := by
  rw [content, pushed_pull, pushed_shared, pushed_push, content]
  by_cases here : other = qid
  · obtain rfl := pushes here
    subst here
    rw [if_pos ⟨rfl, rfl⟩, if_pos rfl, List.append_assoc, List.append_assoc]
  · rw [if_neg fun same => here same.2.symm, if_neg here, List.append_nil]

theorem Single.pulled (single : Single pusher puller qid lists) {p other : Nat} :
    Single pusher puller qid (pulled p other lists) := by
  refine ⟨fun q away => ?_, fun q away => ?_⟩
  · rw [pulled_push, single.push q away]
  · rw [pulled_pull]
    split
    · rename_i same
      obtain ⟨rfl, rfl⟩ := same
      rw [single.pull q away, List.tail_nil]
    · exact single.pull q away

theorem Single.pulled_content {p other : Nat} (pulls : other = qid → p = puller) {qiid : Nat}
    (first : lists (.pull p other) = qiid :: (lists (.pull p other)).tail) :
    content pusher puller qid lists =
      (if other = qid then [qiid] else []) ++ content pusher puller qid (Queue.pulled p other lists) := by
  simp only [content, pulled_push, pulled_shared, pulled_pull]
  by_cases here : other = qid
  · obtain rfl := pulls here
    subst here
    rw [if_pos rfl, if_pos ⟨rfl, rfl⟩, first]
    rfl
  · rw [if_neg here, if_neg fun same => here same.2.symm, List.nil_append]

end Content

/-- What holds of a queue with one pusher and one puller after a run. -/
structure Batched (params : Params) (pusher puller qid : Nat) (events : List Event) (s : QState) : Prop where
  single : Single pusher puller qid (listsAfter params events)
  order : initialContent params qid ++ itemsPushed qid events =
    itemsPulled qid events ++ content pusher puller qid (listsAfter params events)
  /-- having flushed, an only user of the queue has an item in hand unless there is none -/
  ready : pusher = puller → (s.process puller).pc = .pulling qid →
    listsAfter params events (.pull puller qid) ≠ [] ∨ content pusher puller qid (listsAfter params events) = []
  fifo : pusher = puller → events.foldlM (Event.onFifo qid) (initialContent params qid) =
    some (content pusher puller qid (listsAfter params events))

section Runs

variable {params : Params} {pusher puller qid : Nat} {events : List Event} {event : Event} {s t : QState}

theorem initial_batched : Batched params pusher puller qid [] (QState.initial params) := by
  refine ⟨⟨fun _ _ => rfl, fun _ _ => rfl⟩, ?_, fun _ position => (nomatch position), fun _ => ?_⟩
  · simp [itemsPushed, itemsPulled, content, initialLists]
  · simp [content, initialLists]

theorem onFifo_pulled {p other qiid : Nat} (rest : List Nat) :
    (Event.pulled p other qiid).onFifo qid ((if other = qid then [qiid] else []) ++ rest) = some rest := by
  by_cases same : other = qid <;> simp [Event.onFifo, same]

theorem onFifo_pushed {p other qiid pullQid : Nat} (items : List Nat) :
    (Event.pushed p other qiid pullQid).onFifo qid items =
      some (items ++ if other = qid then [qiid] else []) := by
  by_cases same : other = qid <;> simp [Event.onFifo, same]

/-- What a pull returns is the front of the list it pulls from. -/
def Event.Honest (lists : Lists) : Event → Prop
  | .pulled p qid qiid => lists (.pull p qid) = qiid :: (lists (.pull p qid)).tail
  | .pulledNone p qid => lists (.pull p qid) = []
  | _ => True

theorem Owned.pull_nil_iff {lists : Lists} (owned : Owned params s lists) (p pullQid : Nat) :
    ((s.view p).qidsNolockPull pullQid).size = 0 ↔ lists (.pull p pullQid) = [] :=
  (owned.holds.linked (show s.queueAt (.pull p pullQid) = some _ from rfl)).size_zero_iff

theorem Owned.honest {lists : Lists} (owned : Owned params s lists) (step : Step params s event t) :
    event.Honest lists := by
  cases step with
  | @pull p pullQid position some_ =>
    have holds := owned.holds
    rw [← s.update_view p] at holds
    exact (holds.pull owned.partition some_ .idle).1
  | @pullNone p pullQid position none_ =>
    exact (owned.pull_nil_iff p pullQid).mp none_
  | _ => trivial

section Moves

variable {lists : Lists} (queue : qid < params.qs) (single : Single pusher puller qid lists)
  (pushes : ∀ p, event.PushesOn qid p → p = pusher) (pulls : ∀ p, event.PullsFrom qid p → p = puller)

include single pushes pulls

theorem moves_single (queue : qid < params.qs) :
    Single pusher puller qid (event.moves params lists) := by
  cases event with
  | pushed p other qiid pullQid => exact single.pushed (fun same => pushes p ⟨rfl, same⟩) qiid
  | called => exact single
  | flushed p pullQid => exact single.flushed queue fun same => pulls p ⟨rfl, same⟩
  | pulled p other qiid => exact single.pulled
  | pulledNone => exact single

theorem moves_onFifo (queue : qid < params.qs) (honest : event.Honest lists)
    (empty : ∀ p, event = .pulledNone p qid → content pusher puller qid lists = []) :
    event.onFifo qid (content pusher puller qid lists) =
      some (content pusher puller qid (event.moves params lists)) := by
  cases event with
  | pushed p other qiid pullQid =>
    rw [onFifo_pushed, Event.moves, single.pushed_content fun same => pushes p ⟨rfl, same⟩]
  | called => rfl
  | flushed p pullQid =>
    rw [Event.moves, single.flushed_content queue fun same => pulls p ⟨rfl, same⟩]
    rfl
  | pulled p other qiid =>
    rw [Single.pulled_content (fun same => pulls p ⟨rfl, same⟩) honest, onFifo_pulled]
    rfl
  | pulledNone p other =>
    refine if_neg ?_
    rintro ⟨rfl, some_⟩
    exact some_ (empty p rfl)

theorem moves_conserves (queue : qid < params.qs) (honest : event.Honest lists) :
    content pusher puller qid lists ++ (event.itemPushed qid).toList =
      (event.itemPulled qid).toList ++ content pusher puller qid (event.moves params lists) := by
  by_cases none : ∃ p, event = .pulledNone p qid
  · obtain ⟨p, rfl⟩ := none
    exact List.append_nil _
  · exact onFifo_conserves (moves_onFifo single pushes pulls queue honest fun p same =>
      absurd ⟨p, same⟩ none)

theorem moves_empty (queue : qid < params.qs) (honest : event.Honest lists)
    (nothing : event.itemPushed qid = none) (empty : content pusher puller qid lists = []) :
    content pusher puller qid (event.moves params lists) = [] := by
  have conserves := moves_conserves single pushes pulls queue honest
  rw [empty, nothing] at conserves
  exact (List.append_eq_nil_iff.mp conserves.symm).2

end Moves

def Event.by_ : Event → Nat
  | .pushed p _ _ _ => p
  | .called p _ => p
  | .flushed p _ => p
  | .pulled p _ _ => p
  | .pulledNone p _ => p

theorem Step.pc_other (step : Step params s event t) {p : Nat} (other : p ≠ event.by_) :
    (t.process p).pc = (s.process p).pc := by
  cases step <;> simp [QState.push, QState.goto] <;> exact fun same => absurd same other

theorem moves_pull_other {lists : Lists} {p : Nat} (other : p ≠ event.by_) :
    event.moves params lists (.pull p qid) = lists (.pull p qid) := by
  cases event with
  | pushed => exact pushed_pull _ _ _ _ _ _
  | called => rfl
  | flushed => exact flushed_pull_process other
  | pulled q qid' qiid =>
    rw [Event.moves, pulled_pull, if_neg fun same => other same.1]
  | pulledNone => rfl

section Ready

variable {lists : Lists} {p : Nat} (owned : Owned params s lists) (step : Step params s event t)
  (position : (t.process event.by_).pc = .pulling qid) (queue : qid < params.qs)

include owned step position queue

/-- A process comes to a pull with an item in hand, or has just found none. -/
theorem ready_own : event.moves params lists (.pull event.by_ qid) ≠ [] ∨
    event.moves params lists (.pull event.by_ qid) = [] ∧
      event.moves params lists (.shared qid) = [] ∧ event.moves params lists (.push event.by_ qid) = [] := by
  cases step with
  | @pushHead p pushQid qiid idle _ mine =>
    simp only [QState.push, QState.pc_update, Event.by_, if_true, QState.afterPush] at position
    split at position <;> cases position
  | @pullTail p pullQid idle _ =>
    simp only [QState.goto, QState.pc_update, Event.by_, if_true, QState.beforePull] at position
    split at position
    · cases position
    · rename_i some_
      cases position
      exact .inl (mt (owned.pull_nil_iff p qid).mpr some_)
  | @pushHeadPullTail p pushQid qiid pullQid idle pushQueue pullQueue mine =>
    simp only [QState.push, QState.pc_update, Event.by_, if_true, QState.betweenPushPull]
      at position
    split at position
    · cases position
    · rename_i some_
      cases position
      rw [Event.moves, pushed_pull]
      exact .inl (mt (owned.pull_nil_iff p qid).mpr (not_or.mp some_).2)
  | @pushNonePullTail p pushQid pullQid idle pushQueue pullQueue =>
    simp only [QState.goto, QState.pc_update, Event.by_, if_true, QState.betweenPushPull] at position
    split at position
    · cases position
    · rename_i some_
      cases position
      exact .inl (mt (owned.pull_nil_iff p qid).mpr (not_or.mp some_).2)
  | callFlush idle _ =>
    simp [QState.goto, Event.by_] at position
  | @flush p pullQid pulls before =>
    simp only [QState.pc_update, Event.by_, if_true] at position
    split at position
    · cases position
      obtain ⟨_, _, _, nothing⟩ := flushed_refill queue lists p
      by_cases none : flushed params p qid lists (.pull p qid) = []
      · exact .inr ⟨none, nothing none, by rw [Event.moves, flushed_push queue, Event.by_, if_pos rfl]⟩
      · exact .inl none
    · cases position
  | pull before some_ => simp [Event.by_] at position
  | pullNone before none_ => simp [QState.goto, Event.by_] at position

end Ready

theorem Step.pulledNone_position {p : Nat} (step : Step params s (.pulledNone p qid) t) :
    (s.process p).pc = .pulling qid := by
  cases step with
  | pullNone position _ => exact position

theorem itemPushed_none (pushes : ∀ p, event.PushesOn qid p → p = pusher) (other : pusher ≠ event.by_) :
    event.itemPushed qid = none := by
  cases event with
  | pushed p qid' qiid pullQid => exact if_neg fun same => other (pushes p ⟨rfl, same⟩).symm
  | _ => rfl

theorem Batched.step (batched : Batched params pusher puller qid events s) (run : Run params events s)
    (queue : qid < params.qs) (step : Step params s event t)
    (pushes : ∀ p, event.PushesOn qid p → p = pusher) (pulls : ∀ p, event.PullsFrom qid p → p = puller) :
    Batched params pusher puller qid (events ++ [event]) t := by
  have owned := run_owned run
  have honest := owned.honest step
  have conserves := moves_conserves batched.single pushes pulls queue honest
  refine ⟨?_, ?_, fun alone position => ?_, fun alone => ?_⟩
  · rw [listsAfter_concat]
    exact moves_single batched.single pushes pulls queue
  · rw [itemsPushed_concat, itemsPulled_concat, listsAfter_concat, List.append_assoc, ← conserves,
      ← List.append_assoc, batched.order, List.append_assoc]
  · rw [listsAfter_concat]
    by_cases own : puller = event.by_
    · subst own
      rcases ready_own owned step position queue with some_ | ⟨none, shared, push⟩
      · exact .inl some_
      · exact .inr (by rw [content, none, shared, alone, push, List.nil_append, List.nil_append])
    · rw [moves_pull_other own]
      rcases batched.ready alone (step.pc_other own ▸ position) with some_ | empty
      · exact .inl some_
      · exact .inr (moves_empty batched.single pushes pulls queue honest
          (itemPushed_none pushes (alone ▸ own)) empty)
  · have empty : ∀ p, event = .pulledNone p qid →
        content pusher puller qid (listsAfter params events) = [] := by
      rintro p rfl
      obtain rfl := pulls p ⟨rfl, rfl⟩
      exact (batched.ready alone step.pulledNone_position).resolve_left fun some_ => some_ honest
    rw [List.foldlM_append, batched.fifo alone, listsAfter_concat]
    simp only [Option.bind_eq_bind, Option.bind_some, List.foldlM_cons, List.foldlM_nil,
      moves_onFifo batched.single pushes pulls queue honest empty, Option.pure_def]

theorem run_batched (queue : qid < params.qs) (run : Run params events s)
    (pushes : ∀ event ∈ events, ∀ p, event.PushesOn qid p → p = pusher)
    (pulls : ∀ event ∈ events, ∀ p, event.PullsFrom qid p → p = puller) :
    Batched params pusher puller qid events s := by
  induction run with
  | start => exact initial_batched
  | next run step ih =>
    have before := ih (fun event member => pushes event (List.mem_append_left _ member))
      fun event member => pulls event (List.mem_append_left _ member)
    exact before.step run queue step (pushes _ (by simp)) (pulls _ (by simp))

/-- With one pusher and one puller a queue is a FIFO, whatever is batched; when they are the same
    process it is never found empty early. -/
theorem queue_batching_transparent (queue : qid < params.qs) (run : Run params events s)
    (pushes : ∀ event ∈ events, ∀ p, event.PushesOn qid p → p = pusher)
    (pulls : ∀ event ∈ events, ∀ p, event.PullsFrom qid p → p = puller) :
    itemsPulled qid events <+: initialContent params qid ++ itemsPushed qid events ∧
    (pusher = puller →
      (∃ rest, events.foldlM (Event.onFifo qid) (initialContent params qid) = some rest) ∧
      ∀ before after, events = before ++ .pulledNone puller qid :: after →
        itemsPulled qid before = initialContent params qid ++ itemsPushed qid before) := by
  have batched := run_batched queue run pushes pulls
  refine ⟨?_, fun alone => ⟨⟨_, batched.fifo alone⟩, fun before after split => ?_⟩⟩
  · rw [batched.order]
    exact List.prefix_append _ _
  · have done := batched.fifo alone
    rw [split, List.foldlM_append, Option.bind_eq_bind, Option.bind_eq_some_iff] at done
    obtain ⟨middle, first, others⟩ := done
    have empty : middle = [] := by
      by_contra some_
      simp [Event.onFifo, some_] at others
    rw [fifo_conserves first, empty, List.append_nil]

end Runs

theorem small_run_transparent :
    itemsPulled 1 smallEvents <+: initialContent smallParams 1 ++ itemsPushed 1 smallEvents ∧
    (0 = 0 →
      (∃ rest, smallEvents.foldlM (Event.onFifo 1) (initialContent smallParams 1) = some rest) ∧
      ∀ before after, smallEvents = before ++ .pulledNone 0 1 :: after →
        itemsPulled 1 before = initialContent smallParams 1 ++ itemsPushed 1 before) := by
  obtain ⟨s, run⟩ := small_run
  refine queue_batching_transparent (by decide) run ?_ ?_
  · simp [smallEvents, Event.PushesOn]
  · simp [smallEvents, Event.PullsFrom, qidNone]

end SharedHashFile.Queue
