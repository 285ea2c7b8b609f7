import SharedHashFile.Store.Balance
import SharedHashFile.Store.Entries

namespace SharedHashFile.Store

open Program

def State.Balanced {μ : Type} (s : State μ) : Prop :=
  ∀ win, Store.Balanced (s.shared.wins win).tabs (s.shared.wins win).tabsUsed

section Put

variable {cfg : Config} {t t' : State Tables} {b : Bindings} {val : PutVal} {ref : Fin 16}

theorem Frame.balanced {touched : Ptr → Prop} (frame : Frame touched t t') (balanced : t.Balanced) : t'.Balanced := by
  intro win
  rw [frame.tabs, frame.used]
  exact balanced win

/-- A row which is full although the key's triple has a ref left is shared with another logical table. -/
theorem RowFull.shared (full : RowFull t b) (free : b (t.shared.tls.hash.slot ref) = none) :
    2 ≤ redirections (t.shared.wins (t.shared.tls.hash.slot 0).win).tabs t.home := by
  rcases full ref with ⟨i, binding, here, bound⟩
  apply two_le_redirections _ here rfl
  rintro rfl
  have none_ : b ⟨(t.shared.tls.hash.slot 0).win, (t.shared.tls.hash.slot 0).tab, (t.shared.tls.hash.slot 0).row, ref⟩ =
    none := free
  rw [bound] at none_
  cases none_

theorem Split.balanced {exponent : Nat} (ok : StoreOk cfg t b) (balanced : t.Balanced) (split : Split cfg t b t')
    (count : redirections (t.shared.wins (t.shared.tls.hash.slot 0).win).tabs t.home = 2^(exponent + 1)) :
    t'.Balanced ∧ redirections (t'.shared.wins (t'.shared.tls.hash.slot 0).win).tabs t'.home = 2^exponent := by
  have inUse := ok.tabs_lt (t.shared.tls.hash.slot 0).win (t.shared.tls.hash.slot 0).tab
  rcases (balanced _).halved inUse count with ⟨after, old, new⟩
  constructor
  · intro win
    by_cases here : win = (t.shared.tls.hash.slot 0).win
    · rw [here, split.tabs_eq, split.used_eq]
      exact after
    · rcases split.others win here with ⟨tabs, used, _⟩
      rw [tabs, used]
      exact balanced win
  · unfold State.home
    rw [split.tls, split.tabs_eq]
    rcases @repointed_cases t.home (t.shared.wins (t.shared.tls.hash.slot 0).win).tabsUsed (List.finRange 2048) false
      (t.shared.wins (t.shared.tls.hash.slot 0).win).tabs (t.shared.tls.hash.slot 0).tab with same | moved
    · rw [halved, same]
      exact old
    · rw [halved, moved.2]
      exact new

/-- A put parts no more tables than its key's table can be halved. -/
theorem putLoop_halves (linkable : cfg.Linkable) (exponent fuel : Nat) (ok : StoreOk cfg t b)
    (accepts : cfg.Accepts t.shared.tls.hashKey val) (balanced : t.Balanced)
    (free : b (t.shared.tls.hash.slot ref) = none)
    (count : redirections (t.shared.wins (t.shared.tls.hash.slot 0).win).tabs t.home = 2^exponent)
    (enough : exponent < fuel) : Ends sizeLimit (putLoop direct cfg val fuel)
      (fun _ t' => t'.Balanced ∧ (t'.shared.wins (t.shared.tls.hash.slot 0).win).tabsParted ≤
        (t.shared.wins (t.shared.tls.hash.slot 0).win).tabsParted + exponent) (fun e t' => Refused cfg t'.shared.vfs e) t := by
  induction fuel generalizing t exponent with
  | zero => omega
  | succ fuel ih =>
    have inUse := ok.tabs_lt (t.shared.tls.hash.slot 0).win (t.shared.tls.hash.slot 0).tab
    refine ends_step (putSection_ends linkable ok accepts) ?_ ?_
    · rintro e _ (⟨_, full, two⟩ | refused)
      · have room := (balanced _).room inUse (full.shared free)
        omega
      · exact refused
    · rintro done t' (⟨rfl, _, placed⟩ | ⟨rfl, split⟩)
      · refine ends_pure ⟨placed.frame.balanced balanced, ?_⟩
        rw [placed.frame.parted]
        exact Nat.le_add_right _ _
      · cases exponent with
        | zero =>
          have shared := split.full.shared free
          omega
        | succ exponent =>
          rcases split.balanced ok balanced count with ⟨balanced', count'⟩
          have again := @ih t' exponent split.ok
          rw [split.tls] at again count'
          refine (again accepts balanced' free count' (by omega)).mono ?_ fun _ _ refused => refused
          rintro _ t2 ⟨balanced2, parted2⟩
          rw [split.parted_eq] at parted2
          exact ⟨balanced2, by omega⟩

theorem putKeyVal_halves (linkable : cfg.Linkable) (ok : StoreOk cfg t b)
    (accepts : cfg.Accepts t.shared.tls.hashKey val) (balanced : t.Balanced)
    (free : b (t.shared.tls.hash.slot ref) = none) : Ends sizeLimit (putKeyVal direct cfg val)
      (fun _ t' => t'.Balanced ∧ (t'.shared.wins (t.shared.tls.hash.slot 0).win).tabsParted ≤
        (t.shared.wins (t.shared.tls.hash.slot 0).win).tabsParted + 11) (fun e t' => Refused cfg t'.shared.vfs e) t := by
  have inUse := ok.tabs_lt (t.shared.tls.hash.slot 0).win (t.shared.tls.hash.slot 0).tab
  rcases (balanced _).power t.home inUse with ⟨exponent, count⟩
  have all : redirections (t.shared.wins (t.shared.tls.hash.slot 0).win).tabs t.home ≤ 2048 := by
    unfold redirections
    exact List.countP_le_length.trans (Nat.le_of_eq List.length_finRange)
  have few : exponent ≤ 11 := by
    by_contra more
    have large := Nat.pow_le_pow_right Nat.two_pos (show 12 ≤ exponent by omega)
    omega
  refine (putLoop_halves linkable exponent 2049 ok accepts balanced free count (by omega)).mono ?_
    fun _ _ refused => refused
  rintro _ t' ⟨balanced', parted⟩
  exact ⟨balanced', by omega⟩

end Put

end SharedHashFile.Store
