import Mathlib.Algebra.Group.Nat.Defs
import Mathlib.Logic.Basic
import Mathlib.Order.Defs.LinearOrder
import Mathlib.Order.Lattice

/-- How a program ends: with a value or stopped, in which state, and the largest size it asked for. -/
structure Outcome (ε σ α : Type) where
  value : Except ε α
  state : σ
  peak : Nat

/-- Programs over a state which can stop. -/
def Program (ε σ α : Type) : Type := σ → Outcome ε σ α

namespace Program

variable {ε σ τ α β : Type}

protected def pure (a : α) : Program ε σ α := fun s => ⟨.ok a, s, 0⟩

protected def bind (x : Program ε σ α) (f : α → Program ε σ β) : Program ε σ β := fun s =>
  match (x s).value with
  | .ok a => ⟨(f a (x s).state).value, (f a (x s).state).state, max (x s).peak (f a (x s).state).peak⟩
  | .error e => ⟨.error e, (x s).state, (x s).peak⟩

instance : Monad (Program ε σ) where
  pure := Program.pure
  bind := Program.bind

def stop (e : ε) : Program ε σ α := fun s => ⟨.error e, s, 0⟩

def get : Program ε σ σ := fun s => ⟨.ok s, s, 0⟩

def modify (f : σ → σ) : Program ε σ Unit := fun s => ⟨.ok (), f s, 0⟩

/-- Ask for a size; all that happens is that the outcome tells. -/
def ask (size : Nat) : Program ε σ Unit := fun s => ⟨.ok (), s, size⟩

def check (condition : Prop) [Decidable condition] (e : ε) : Program ε σ Unit :=
  if condition then Pure.pure () else stop e

def when (condition : Prop) [Decidable condition] (x : Program ε σ Unit) : Program ε σ Unit :=
  if condition then x else Pure.pure ()

/-- Run a program on a part of the state. -/
def zoom (part : σ → τ) (replace : σ → τ → σ) (x : Program ε τ α) : Program ε σ α := fun s =>
  ⟨(x (part s)).value, replace s (x (part s)).state, (x (part s)).peak⟩

theorem bind_ok {x : Program ε σ α} {f : α → Program ε σ β} {s t : σ} {a : α} (first : x s = ⟨.ok a, t, 0⟩) :
    (x >>= f) s = f a t := by
  change Program.bind x f s = f a t
  simp only [Program.bind, first, Nat.zero_max]

theorem bind_run {x : Program ε σ α} {f : α → Program ε σ β} {s t u : σ} {a : α} {b : β} {n k : Nat}
    (first : x s = ⟨.ok a, t, n⟩) (next : f a t = ⟨.ok b, u, k⟩) : (x >>= f) s = ⟨.ok b, u, max n k⟩ := by
  change Program.bind x f s = _
  simp only [Program.bind, first, next]

theorem bind_error {x : Program ε σ α} {f : α → Program ε σ β} {s t : σ} {e : ε} {n : Nat}
    (first : x s = ⟨.error e, t, n⟩) : (x >>= f) s = ⟨.error e, t, n⟩ := by
  change Program.bind x f s = _
  simp only [Program.bind, first]

theorem bind_same {x : Program ε σ α} {f g : α → Program ε σ β} {s : σ}
    (same : ∀ a, (x s).value = .ok a → f a (x s).state = g a (x s).state) : (x >>= f) s = (x >>= g) s := by
  change Program.bind x f s = Program.bind x g s
  unfold Program.bind
  cases value : (x s).value with
  | ok a =>
    dsimp only
    rw [same a value]
  | error e => rfl

theorem bind_first {x y : Program ε σ α} {f : α → Program ε σ β} {s : σ} (same : x s = y s) : (x >>= f) s = (y >>= f) s := by
  change Program.bind x f s = Program.bind y f s
  unfold Program.bind
  rw [same]

theorem peak_first_le (x : Program ε σ α) (f : α → Program ε σ β) (s : σ) : (x s).peak ≤ ((x >>= f) s).peak := by
  change (x s).peak ≤ (Program.bind x f s).peak
  unfold Program.bind
  split
  · exact le_max_left _ _
  · exact le_refl _

theorem peak_next_le {x : Program ε σ α} {f : α → Program ε σ β} {s : σ} {a : α} (ended : (x s).value = .ok a) :
    ((f a) (x s).state).peak ≤ ((x >>= f) s).peak := by
  change _ ≤ (Program.bind x f s).peak
  unfold Program.bind
  rw [ended]
  exact le_max_right _ _

theorem bind_peak {x : Program ε σ α} {f : α → Program ε σ β} {s : σ} {a : α} (ended : (x s).value = .ok a) :
    ((x >>= f) s).peak = max (x s).peak ((f a) (x s).state).peak := by
  change (Program.bind x f s).peak = _
  unfold Program.bind
  rw [ended]

theorem bind_peak_stopped {x : Program ε σ α} {f : α → Program ε σ β} {s : σ} {e : ε} (stopped : (x s).value = .error e) :
    ((x >>= f) s).peak = (x s).peak := by
  change (Program.bind x f s).peak = _
  unfold Program.bind
  rw [stopped]

theorem bind_stopped {x : Program ε σ α} {f : α → Program ε σ β} {s : σ} {e : ε} (stopped : (x s).value = .error e) :
    ((x >>= f) s).value = .error e := by
  change (Program.bind x f s).value = _
  unfold Program.bind
  rw [stopped]

/-- A program whose first step ends goes on from where that ends. -/
theorem bind_ended {x : Program ε σ α} {f : α → Program ε σ β} {s : σ} {a : α} (ended : (x s).value = .ok a) :
    ((x >>= f) s).value = (f a (x s).state).value ∧ ((x >>= f) s).state = (f a (x s).state).state := by
  change (Program.bind x f s).value = _ ∧ (Program.bind x f s).state = _
  unfold Program.bind
  rw [ended]
  exact ⟨rfl, rfl⟩

theorem first_ended {x : Program ε σ α} {f : α → Program ε σ β} {s : σ} (ended : ((x >>= f) s).value.isOk = true) :
    ∃ a, (x s).value = .ok a := by
  cases value : (x s).value with
  | ok a => exact ⟨a, rfl⟩
  | error e =>
    change (Program.bind x f s).value.isOk = true at ended
    unfold Program.bind at ended
    rw [value] at ended
    cases ended

theorem bind_assoc {γ : Type} (x : Program ε σ α) (f : α → Program ε σ β) (g : β → Program ε σ γ) :
    x >>= f >>= g = x >>= fun a => f a >>= g := by
  funext s
  change Program.bind (Program.bind x f) g s = Program.bind x (fun a => Program.bind (f a) g) s
  unfold Program.bind
  cases (x s).value with
  | error e => rfl
  | ok a =>
    dsimp only
    cases (f a (x s).state).value with
    | error e => rfl
    | ok b => simp only [max_assoc]

theorem get_run (s : σ) : (get : Program ε σ σ) s = ⟨.ok s, s, 0⟩ := rfl

theorem modify_run (f : σ → σ) (s : σ) : (modify f : Program ε σ Unit) s = ⟨.ok (), f s, 0⟩ := rfl

theorem check_false {condition : Prop} [Decidable condition] (fails : ¬ condition) (e : ε) (s : σ) :
    (check condition e : Program ε σ Unit) s = ⟨.error e, s, 0⟩ := by
  rw [check, if_neg fails]
  rfl

theorem check_true {condition : Prop} [Decidable condition] (holds : condition) (e : ε) (s : σ) :
    check condition e s = ⟨.ok (), s, 0⟩ := by
  rw [check, if_pos holds]
  rfl

theorem when_true {condition : Prop} [Decidable condition] (holds : condition) (x : Program ε σ Unit) :
    when condition x = x := if_pos holds

theorem when_false {condition : Prop} [Decidable condition] (fails : ¬ condition) (x : Program ε σ Unit)
    (s : σ) : when condition x s = ⟨.ok (), s, 0⟩ := by
  rw [when, if_neg fails]
  rfl

/-- If `x` asks for sizes below `limit` only, it ends in `Q` or stops in `E`. -/
def Ends (limit : Nat) (x : Program ε σ α) (Q : α → σ → Prop) (E : ε → σ → Prop) (s : σ) : Prop :=
  (x s).peak < limit →
    match (x s).value with
    | .ok a => Q a (x s).state
    | .error e => E e (x s).state

section Rules

variable {limit : Nat} {Q : α → σ → Prop} {E : ε → σ → Prop} {s : σ}

theorem Ends.mono {Q' : α → σ → Prop} {E' : ε → σ → Prop} {x : Program ε σ α} (ends : Ends limit x Q E s)
    (post : ∀ a t, Q a t → Q' a t) (stops : ∀ e t, E e t → E' e t) : Ends limit x Q' E' s := by
  intro below
  have done := ends below
  cases value : (x s).value with
  | ok a => rw [value] at done; exact post _ _ done
  | error e => rw [value] at done; exact stops _ _ done

theorem ends_pure {a : α} (post : Q a s) : Ends limit (Pure.pure a : Program ε σ α) Q E s := fun _ => post

theorem ends_bind {x : Program ε σ β} {f : β → Program ε σ α}
    (ends : Ends limit x (fun b t => Ends limit (f b) Q E t) E s) : Ends limit (x >>= f) Q E s := by
  intro below
  change (Program.bind x f s).peak < limit at below
  change match (Program.bind x f s).value with
    | .ok a => Q a (Program.bind x f s).state
    | .error e => E e (Program.bind x f s).state
  unfold Program.bind at below ⊢
  cases value : (x s).value with
  | ok b =>
    simp only [value] at below ⊢
    have done := ends (lt_of_le_of_lt (le_max_left _ _) below)
    rw [value] at done
    exact done (lt_of_le_of_lt (le_max_right _ _) below)
  | error e =>
    simp only [value] at below ⊢
    have done := ends below
    rw [value] at done
    exact done

/-- The rule for a first step with a known specification. -/
theorem ends_step {x : Program ε σ β} {f : β → Program ε σ α} {P : β → σ → Prop} {E' : ε → σ → Prop}
    (first : Ends limit x P E' s) (stops : ∀ e t, E' e t → E e t)
    (next : ∀ b t, P b t → Ends limit (f b) Q E t) : Ends limit (x >>= f) Q E s :=
  ends_bind (first.mono next stops)

theorem ends_stop {e : ε} (stops : E e s) : Ends limit (stop e : Program ε σ α) Q E s := fun _ => stops

theorem ends_get {Q : σ → σ → Prop} (post : Q s s) : Ends limit (get : Program ε σ σ) Q E s := fun _ => post

theorem ends_modify {Q : Unit → σ → Prop} {f : σ → σ} (post : Q () (f s)) :
    Ends limit (modify f : Program ε σ Unit) Q E s := fun _ => post

theorem ends_ask {Q : Unit → σ → Prop} {size : Nat} (post : size < limit → Q () s) :
    Ends limit (ask size : Program ε σ Unit) Q E s := fun below => post below

theorem ends_check {Q : Unit → σ → Prop} {condition : Prop} [Decidable condition] {e : ε}
    (post : condition → Q () s) (stops : ¬ condition → E e s) :
    Ends limit (check condition e : Program ε σ Unit) Q E s := by
  unfold check
  split
  · rename_i holds
    exact ends_pure (post holds)
  · rename_i fails
    exact ends_stop (stops fails)

theorem ends_ite {condition : Prop} [Decidable condition] {x y : Program ε σ α}
    (yes : condition → Ends limit x Q E s) (no : ¬ condition → Ends limit y Q E s) :
    Ends limit (if condition then x else y) Q E s := by
  split
  · rename_i holds
    exact yes holds
  · rename_i fails
    exact no fails

theorem ends_when {Q : Unit → σ → Prop} {condition : Prop} [Decidable condition] {x : Program ε σ Unit}
    (yes : condition → Ends limit x Q E s) (no : ¬ condition → Q () s) :
    Ends limit (when condition x) Q E s := ends_ite yes fun fails => ends_pure (no fails)

theorem ends_run {x : Program ε σ α} {a : α} {t : σ} {n : Nat} (run : x s = ⟨.ok a, t, n⟩)
    (post : n < limit → Q a t) : Ends limit x Q E s := by
  intro below
  rw [run] at below ⊢
  exact post below

theorem ends_congr {x y : Program ε σ α} {t : σ} (same : x s = y t) (ends : Ends limit y Q E t) : Ends limit x Q E s := by
  intro below
  rw [same] at below ⊢
  exact ends below

theorem Ends.and {Q' : α → σ → Prop} {E' : ε → σ → Prop} {x : Program ε σ α} (first : Ends limit x Q E s)
    (second : Ends limit x Q' E' s) : Ends limit x (fun a t => Q a t ∧ Q' a t) (fun e t => E e t ∧ E' e t) s := by
  intro below
  have one := first below
  have two := second below
  cases value : (x s).value with
  | ok a =>
    rw [value] at one two
    exact ⟨one, two⟩
  | error e =>
    rw [value] at one two
    exact ⟨one, two⟩

theorem Ends.ran {x : Program ε σ α} {a : α} (ends : Ends limit x Q E s) (value : (x s).value = .ok a)
    (below : (x s).peak < limit) : Q a (x s).state := by
  have done := ends below
  rw [value] at done
  exact done

/-- The rule for a first step whose run is known. -/
theorem ends_after {x : Program ε σ β} {f : β → Program ε σ α} {b : β} {t : σ} (run : x s = ⟨.ok b, t, 0⟩)
    (next : Ends limit (f b) Q E t) : Ends limit (x >>= f) Q E s := by
  intro below
  rw [bind_ok run] at below ⊢
  exact next below

theorem ends_zoom {part : σ → τ} {replace : σ → τ → σ} {x : Program ε τ α}
    (ends : Ends limit x (fun a t => Q a (replace s t)) (fun e t => E e (replace s t)) (part s)) :
    Ends limit (zoom part replace x) Q E s := ends

/-- A loop keeps an invariant of the items it has gone through. -/
theorem ends_forM {Item : Type} {f : Item → Program ε σ Unit} (I : List Item → σ → Prop)
    {items : List Item} (body : ∀ done next rest t, done ++ next :: rest = items → I done t →
      Ends limit (f next) (fun _ => I (done ++ [next])) E t) (start : I [] s) :
    Ends limit (items.forM f) (fun _ => I items) E s := by
  suffices ∀ rest done t, done ++ rest = items → I done t →
      Ends limit (rest.forM f) (fun _ => I items) E t from this items [] s rfl start
  intro rest
  induction rest with
  | nil =>
    intro done t whole holds
    rw [List.append_nil] at whole
    exact ends_pure (whole ▸ holds)
  | cons next rest ih =>
    intro done t whole holds
    refine ends_step (body done next rest t whole holds) (fun _ _ stops => stops) fun _ u after => ?_
    exact ih (done ++ [next]) u (by rw [List.append_assoc]; exact whole) after

end Rules

/-- A run ends, and asks for sizes below `limit` only. -/
def Completes (limit : Nat) (x : Program ε σ α) (s : σ) : Prop := (x s).value.isOk = true ∧ (x s).peak < limit

instance (limit : Nat) (x : Program ε σ α) (s : σ) : Decidable (Completes limit x s) :=
  inferInstanceAs (Decidable (_ ∧ _))

section Completion

variable {limit : Nat} {s : σ}

theorem completes_pure {a : α} (positive : 0 < limit) : Completes limit (Pure.pure a : Program ε σ α) s := ⟨rfl, positive⟩

theorem Completes.ended {x : Program ε σ α} (completes : Completes limit x s) : ∃ a, (x s).value = .ok a := by
  rcases completes with ⟨ok, _⟩
  cases value : (x s).value with
  | ok a => exact ⟨a, rfl⟩
  | error e =>
    rw [value] at ok
    cases ok

theorem completes_bind {x : Program ε σ β} {f : β → Program ε σ α} (first : Completes limit x s)
    (next : ∀ b, (x s).value = .ok b → Completes limit (f b) (x s).state) : Completes limit (x >>= f) s := by
  rcases first.ended with ⟨b, value⟩
  rcases next b value with ⟨ok, below⟩
  constructor
  · rw [(bind_ended value).1]
    exact ok
  · rw [bind_peak value]
    exact max_lt first.2 below

/-- A loop over items none of which does anything. -/
theorem forM_skips {Item : Type} {f : Item → Program ε σ Unit} {items : List Item}
    (skips : ∀ item ∈ items, f item s = ⟨.ok (), s, 0⟩) : items.forM f s = ⟨.ok (), s, 0⟩ := by
  induction items with
  | nil => rfl
  | cons item rest ih =>
    change (f item >>= fun _ => rest.forM f) s = _
    rw [bind_ok (skips item List.mem_cons_self)]
    exact ih fun other member => skips other (List.mem_cons_of_mem _ member)

theorem forM_append {Item : Type} {f : Item → Program ε σ Unit} (first last : List Item) :
    (first ++ last).forM f = (first.forM f >>= fun _ => last.forM f) := by
  induction first with
  | nil =>
    funext s
    exact (bind_ok (x := pure ()) (f := fun _ => last.forM f) rfl).symm
  | cons item rest ih =>
    change (f item >>= fun _ => (rest ++ last).forM f) = ((f item >>= fun _ => rest.forM f) >>= fun _ => last.forM f)
    rw [ih, bind_assoc]

end Completion

/-- If one of the two asks for sizes below `limit` only, then both ask for the same, and end or stop
    alike; ending, they leave related states. -/
def Simulates (limit : Nat) (x : Program ε σ α) (y : Program ε τ α) (R : α → σ → τ → Prop) (s : σ)
    (t : τ) : Prop :=
  (x s).peak < limit ∨ (y t).peak < limit → (x s).peak = (y t).peak ∧ (x s).value = (y t).value ∧
    ∀ a, (x s).value = .ok a → R a (x s).state (y t).state

section Simulation

variable {limit : Nat} {R : α → σ → τ → Prop} {s : σ} {t : τ}

theorem Simulates.mono {R' : α → σ → τ → Prop} {x : Program ε σ α} {y : Program ε τ α}
    (simulates : Simulates limit x y R s t) (post : ∀ a s t, R a s t → R' a s t) :
    Simulates limit x y R' s t := by
  intro below
  obtain ⟨peak, value, related⟩ := simulates below
  exact ⟨peak, value, fun a ok => post _ _ _ (related a ok)⟩

theorem simulates_pure {a : α} (post : R a s t) :
    Simulates limit (Pure.pure a : Program ε σ α) (Pure.pure a) R s t :=
  fun _ => ⟨rfl, rfl, fun _ ok => by cases ok; exact post⟩

theorem simulates_bind {x : Program ε σ β} {y : Program ε τ β} {f : β → Program ε σ α}
    {g : β → Program ε τ α} {P : β → σ → τ → Prop} (first : Simulates limit x y P s t)
    (next : ∀ b s t, P b s t → Simulates limit (f b) (g b) R s t) :
    Simulates limit (x >>= f) (y >>= g) R s t := by
  intro below
  change (Program.bind x f s).peak < limit ∨ (Program.bind y g t).peak < limit at below
  change (Program.bind x f s).peak = (Program.bind y g t).peak ∧
    (Program.bind x f s).value = (Program.bind y g t).value ∧
    ∀ a, (Program.bind x f s).value = .ok a → R a (Program.bind x f s).state (Program.bind y g t).state
  have smaller : (x s).peak < limit ∨ (y t).peak < limit := by
    refine below.imp (fun below => ?_) fun below => ?_
    · unfold Program.bind at below
      split at below
      · exact lt_of_le_of_lt (le_max_left _ _) below
      · exact below
    · unfold Program.bind at below
      split at below
      · exact lt_of_le_of_lt (le_max_left _ _) below
      · exact below
  obtain ⟨peak, same, related⟩ := first smaller
  unfold Program.bind at below ⊢
  cases value : (x s).value with
  | ok b =>
    have value' : (y t).value = .ok b := same.symm.trans value
    simp only [value, value'] at below ⊢
    obtain ⟨peaks, values, after⟩ := next b _ _ (related b value)
      (below.imp (lt_of_le_of_lt (le_max_right _ _)) (lt_of_le_of_lt (le_max_right _ _)))
    simp only [peak, peaks]
    exact ⟨trivial, values, after⟩
  | error e =>
    have value' : (y t).value = .error e := same.symm.trans value
    simp only [value', peak]
    exact ⟨trivial, trivial, nofun⟩

theorem simulates_run {x : Program ε σ α} {y : Program ε τ α} {a : α} {s' : σ} {t' : τ} {n : Nat}
    (run : x s = ⟨.ok a, s', n⟩) (run' : y t = ⟨.ok a, t', n⟩) (post : R a s' t') :
    Simulates limit x y R s t := by
  intro _
  rw [run, run']
  exact ⟨rfl, rfl, fun _ ok => by cases ok; exact post⟩

theorem simulates_stopped {x : Program ε σ α} {y : Program ε τ α} {e : ε} {s' : σ} {t' : τ} {n : Nat}
    (run : x s = ⟨.error e, s', n⟩) (run' : y t = ⟨.error e, t', n⟩) : Simulates limit x y R s t := by
  intro _
  rw [run, run']
  exact ⟨rfl, rfl, nofun⟩

theorem simulates_stop {e : ε} : Simulates limit (stop e : Program ε σ α) (stop e) R s t :=
  fun _ => ⟨rfl, rfl, nofun⟩

theorem simulates_modify {R : Unit → σ → τ → Prop} {f : σ → σ} {g : τ → τ} (post : R () (f s) (g t)) :
    Simulates limit (modify f : Program ε σ Unit) (modify g) R s t :=
  fun _ => ⟨rfl, rfl, fun _ _ => post⟩

theorem simulates_ask {R : Unit → σ → τ → Prop} {size : Nat} (post : size < limit → R () s t) :
    Simulates limit (ask size : Program ε σ Unit) (ask size) R s t :=
  fun below => ⟨rfl, rfl, fun _ _ => post (below.elim id id)⟩

theorem simulates_check {R : Unit → σ → τ → Prop} {condition : Prop} [Decidable condition] {e : ε}
    (post : condition → R () s t) :
    Simulates limit (check condition e : Program ε σ Unit) (check condition e) R s t := by
  unfold check
  split
  · rename_i holds
    exact simulates_pure (post holds)
  · exact simulates_stop

theorem simulates_ite {condition : Prop} [Decidable condition] {x x' : Program ε σ α}
    {y y' : Program ε τ α} (yes : condition → Simulates limit x y R s t)
    (no : ¬ condition → Simulates limit x' y' R s t) :
    Simulates limit (if condition then x else x') (if condition then y else y') R s t := by
  split
  · rename_i holds
    exact yes holds
  · rename_i fails
    exact no fails

theorem simulates_when {R : Unit → σ → τ → Prop} {condition : Prop} [Decidable condition]
    {x : Program ε σ Unit} {y : Program ε τ Unit} (yes : condition → Simulates limit x y R s t)
    (no : ¬ condition → R () s t) : Simulates limit (when condition x) (when condition y) R s t :=
  simulates_ite yes fun fails => simulates_pure (no fails)

theorem simulates_forM {Item : Type} {f : Item → Program ε σ Unit} {g : Item → Program ε τ Unit}
    (I : σ → τ → Prop) {items : List Item}
    (body : ∀ item s t, I s t → Simulates limit (f item) (g item) (fun _ => I) s t) (start : I s t) :
    Simulates limit (items.forM f) (items.forM g) (fun _ => I) s t := by
  induction items generalizing s t with
  | nil => exact simulates_pure start
  | cons item items ih => exact simulates_bind (body item s t start) fun _ _ _ after => ih after

/-- What is known of how the simulating program ends is known of the simulated one. -/
theorem Simulates.ends {x : Program ε σ α} {y : Program ε τ α} {Q : α → τ → Prop} {E : ε → τ → Prop}
    (simulates : Simulates limit x y R s t) (ends : Ends limit y Q E t) :
    Ends limit x (fun a s' => ∃ t', R a s' t' ∧ Q a t') (fun e _ => ∃ t', E e t') s := by
  intro below
  obtain ⟨peak, same, related⟩ := simulates (.inl below)
  have done := ends (peak ▸ below)
  rw [← same] at done
  cases value : (x s).value with
  | ok a => rw [value] at done; exact ⟨_, related a value, done⟩
  | error e => rw [value] at done; exact ⟨_, done⟩

/-- Where the run of the simulated program is known, the other one ends alike. -/
theorem Simulates.run {x : Program ε σ α} {y : Program ε τ α} {a : α} {t' : τ} (simulates : Simulates limit x y R s t)
    (run : y t = ⟨.ok a, t', 0⟩) (positive : 0 < limit) : ∃ s', x s = ⟨.ok a, s', 0⟩ ∧ R a s' t' := by
  have below : (y t).peak < limit := by
    rw [run]
    exact positive
  rcases simulates (.inr below) with ⟨peak, value, related⟩
  rw [run] at peak value related
  refine ⟨(x s).state, ?_, related a value⟩
  calc x s = ⟨(x s).value, (x s).state, (x s).peak⟩ := rfl
    _ = ⟨.ok a, (x s).state, 0⟩ := by rw [peak, value]

theorem Simulates.stopped {x : Program ε σ α} {y : Program ε τ α} {e : ε} {t' : τ} (simulates : Simulates limit x y R s t)
    (run : y t = ⟨.error e, t', 0⟩) (positive : 0 < limit) : (x s).value = .error e := by
  have below : (y t).peak < limit := by
    rw [run]
    exact positive
  rw [(simulates (.inr below)).2.1, run]

end Simulation

/-- However `x` ends, it leaves what it was given. -/
def Keeps (I : σ → Prop) (x : Program ε σ α) : Prop := ∀ s, I s → I (x s).state

section Keeping

variable {I : σ → Prop}

theorem keeps_pure (a : α) : Keeps I (Pure.pure a : Program ε σ α) := fun _ holds => holds

theorem keeps_stop (e : ε) : Keeps I (stop e : Program ε σ α) := fun _ holds => holds

theorem keeps_get : Keeps I (get : Program ε σ σ) := fun _ holds => holds

theorem keeps_ask (size : Nat) : Keeps I (ask size : Program ε σ Unit) := fun _ holds => holds

theorem keeps_modify {f : σ → σ} (step : ∀ s, I s → I (f s)) : Keeps I (modify f : Program ε σ Unit) := step

theorem keeps_bind {x : Program ε σ β} {f : β → Program ε σ α} (first : Keeps I x) (next : ∀ b, Keeps I (f b)) :
    Keeps I (x >>= f) := by
  intro s holds
  change I (Program.bind x f s).state
  have after := first s holds
  unfold Program.bind
  cases (x s).value with
  | ok b => exact next b _ after
  | error e => exact after

theorem keeps_ite {condition : Prop} [Decidable condition] {x y : Program ε σ α} (yes : condition → Keeps I x)
    (no : ¬ condition → Keeps I y) : Keeps I (if condition then x else y) := by
  split
  · rename_i holds
    exact yes holds
  · rename_i fails
    exact no fails

theorem keeps_check (condition : Prop) [Decidable condition] (e : ε) :
    Keeps I (check condition e : Program ε σ Unit) := keeps_ite (fun _ => keeps_pure ()) fun _ => keeps_stop e

theorem keeps_when {condition : Prop} [Decidable condition] {x : Program ε σ Unit} (yes : condition → Keeps I x) :
    Keeps I (when condition x) := keeps_ite yes fun _ => keeps_pure ()

theorem keeps_forM {Item : Type} {f : Item → Program ε σ Unit} (body : ∀ item, Keeps I (f item)) (items : List Item) :
    Keeps I (items.forM f) := by
  induction items with
  | nil => exact keeps_pure ()
  | cons item rest ih => exact keeps_bind (body item) fun _ => ih

theorem Ends.keeping {limit : Nat} {x : Program ε σ α} {Q : α → σ → Prop} {E : ε → σ → Prop} {s : σ}
    (ends : Ends limit x Q E s) (keeps : Keeps I x) (holds : I s) :
    Ends limit x (fun a t => Q a t ∧ I t) (fun e t => E e t ∧ I t) s := by
  intro below
  have done := ends below
  have kept := keeps s holds
  cases value : (x s).value with
  | ok a =>
    rw [value] at done
    exact ⟨done, kept⟩
  | error e =>
    rw [value] at done
    exact ⟨done, kept⟩

theorem keeps_zoom {J : τ → Prop} {part : σ → τ} {replace : σ → τ → σ} {x : Program ε τ α} (inside : Keeps J x)
    (into : ∀ s, I s → J (part s)) (out : ∀ s t, I s → J t → I (replace s t)) : Keeps I (zoom part replace x) :=
  fun s holds => out s _ holds (inside _ (into s holds))

/-- However `x` ends, it leads from `I` to `J`. -/
def Leads (I J : σ → Prop) (x : Program ε σ α) : Prop := ∀ s, I s → J (x s).state

theorem Keeps.leads {J : σ → Prop} {x : Program ε σ α} (keeps : Keeps I x) (weaker : ∀ s, I s → J s) : Leads I J x :=
  fun s holds => weaker _ (keeps s holds)

theorem leads_bind {I' J : σ → Prop} {x : Program ε σ β} {f : β → Program ε σ α} (first : Leads I I' x)
    (next : ∀ b, Leads I' J (f b)) (weaker : ∀ s, I' s → J s) : Leads I J (x >>= f) := by
  intro s holds
  change J (Program.bind x f s).state
  have after := first s holds
  unfold Program.bind
  cases (x s).value with
  | ok b => exact next b _ after
  | error e => exact weaker _ after

theorem state_after {x : Program ε σ β} {f : β → Program ε σ α} {s t : σ} {b : β} (run : x s = ⟨.ok b, t, 0⟩) :
    ((x >>= f) s).state = (f b t).state := by
  rw [bind_ok run]

theorem state_before {x : Program ε σ β} {f : β → Program ε σ α} {s : σ} (same : ∀ b t, (f b t).state = t) :
    ((x >>= f) s).state = (x s).state := by
  change (Program.bind x f s).state = _
  unfold Program.bind
  cases (x s).value with
  | ok b => exact same b _
  | error e => rfl

end Keeping

/-- If `x` asks for sizes below `limit` only, `y` does what it does. -/
def RunsAs (limit : Nat) (x y : Program ε σ α) (s : σ) : Prop := (x s).peak < limit → x s = y s

section Likeness

variable {limit : Nat} {s : σ}

theorem runsAs_refl (x : Program ε σ α) (s : σ) : RunsAs limit x x s := fun _ => rfl

theorem runsAs_bind {x y : Program ε σ β} {f g : β → Program ε σ α} (first : RunsAs limit x y s)
    (next : Ends limit x (fun b t => RunsAs limit (f b) (g b) t) (fun _ _ => True) s) : RunsAs limit (x >>= f) (y >>= g) s := by
  intro below
  have small := lt_of_le_of_lt (peak_first_le x f s) below
  have same := first small
  have after := next small
  change Program.bind x f s = Program.bind y g s
  unfold Program.bind
  rw [← same]
  cases value : (x s).value with
  | ok b =>
    rw [value] at after
    have rest := after (lt_of_le_of_lt (peak_next_le value) below)
    simp only [rest]
  | error e => rfl

theorem runsAs_check {condition : Prop} [Decidable condition] (holds : condition) (e e' : ε) :
    RunsAs limit (check condition e) (check condition e') s := by
  intro _
  rw [check_true holds, check_true holds]

theorem runsAs_ite {condition : Prop} [Decidable condition] {x x' y y' : Program ε σ α}
    (yes : condition → RunsAs limit x x' s) (no : ¬ condition → RunsAs limit y y' s) :
    RunsAs limit (if condition then x else y) (if condition then x' else y') s := by
  split
  · rename_i holds
    exact yes holds
  · rename_i fails
    exact no fails

theorem runsAs_when {condition : Prop} [Decidable condition] {x y : Program ε σ Unit}
    (yes : condition → RunsAs limit x y s) : RunsAs limit (when condition x) (when condition y) s :=
  runsAs_ite yes fun _ => runsAs_refl _ _

theorem runsAs_forM {Item : Type} {f g : Item → Program ε σ Unit} (I : List Item → σ → Prop) {items : List Item}
    (body : ∀ done next rest t, done ++ next :: rest = items → I done t → RunsAs limit (f next) (g next) t ∧
      Ends limit (f next) (fun _ => I (done ++ [next])) (fun _ _ => True) t) (start : I [] s) :
    RunsAs limit (items.forM f) (items.forM g) s := by
  suffices ∀ rest done t, done ++ rest = items → I done t → RunsAs limit (rest.forM f) (rest.forM g) t from
    this items [] s rfl start
  intro rest
  induction rest with
  | nil => exact fun _ t _ _ => runsAs_refl _ t
  | cons next rest ih =>
    intro done t whole holds
    rcases body done next rest t whole holds with ⟨same, after⟩
    apply runsAs_bind same
    apply after.mono _ fun _ _ stops => stops
    intro _ u holds'
    exact ih (done ++ [next]) u (by rw [List.append_assoc]; exact whole) holds'

end Likeness

/-- `x` does what `y` does, unless that stops with `bad`. -/
def Follows (bad : ε) (x y : Program ε σ α) : Prop :=
  ∀ s, x s = y s ∨ (y s).value = .error bad ∧ (y s).peak ≤ (x s).peak

section Following

variable {bad : ε} {x y : Program ε σ α} {s : σ}

theorem follows_refl (x : Program ε σ α) : Follows bad x x := fun _ => .inl rfl

theorem follows_bind {x y : Program ε σ β} {f g : β → Program ε σ α} (first : Follows bad x y)
    (next : ∀ b, Follows bad (f b) (g b)) : Follows bad (x >>= f) (y >>= g) := by
  intro s
  rcases first s with same | ⟨stopped, below⟩
  · cases value : (y s).value with
    | ok b =>
      have value' : (x s).value = .ok b := same ▸ value
      rcases next b (y s).state with same' | ⟨stopped, below⟩
      · left
        change Program.bind x f s = Program.bind y g s
        unfold Program.bind
        rw [same, value]
        simp only [same']
      · right
        rw [(bind_ended value).1, bind_peak value, bind_peak value', same]
        exact ⟨stopped, max_le (le_max_left _ _) (le_trans below (le_max_right _ _))⟩
    | error e =>
      left
      change Program.bind x f s = Program.bind y g s
      unfold Program.bind
      rw [same, value]
  · right
    rw [bind_peak_stopped stopped]
    exact ⟨bind_stopped stopped, le_trans below (peak_first_le x f s)⟩

theorem follows_check {condition stronger : Prop} [Decidable condition] [Decidable stronger] (weaker : stronger → condition) :
    Follows bad (check condition bad : Program ε σ Unit) (check stronger bad) := by
  intro s
  by_cases holds : stronger
  · left
    rw [check_true holds, check_true (weaker holds)]
  · right
    rw [check_false holds]
    exact ⟨rfl, Nat.zero_le _⟩

theorem follows_ite {condition : Prop} [Decidable condition] {x' y' : Program ε σ α} (yes : Follows bad x y)
    (no : Follows bad x' y') : Follows bad (if condition then x else x') (if condition then y else y') := by
  split
  · exact yes
  · exact no

theorem follows_when {condition : Prop} [Decidable condition] {x y : Program ε σ Unit} (yes : Follows bad x y) :
    Follows bad (when condition x) (when condition y) := follows_ite yes (follows_refl _)

theorem follows_forM {Item : Type} {f g : Item → Program ε σ Unit} (body : ∀ item, Follows bad (f item) (g item))
    (items : List Item) : Follows bad (items.forM f) (items.forM g) := by
  induction items with
  | nil => exact follows_refl _
  | cons item rest ih => exact follows_bind (body item) fun _ => ih

theorem Follows.run {a : α} {t : σ} {n : Nat} (follows : Follows bad x y) (run : y s = ⟨.ok a, t, n⟩) :
    x s = ⟨.ok a, t, n⟩ := by
  rcases follows s with same | ⟨stopped, _⟩
  · exact same.trans run
  · rw [run] at stopped
    cases stopped

theorem Follows.stopped {e : ε} (follows : Follows bad x y) (value : (y s).value = .error e) (differ : e ≠ bad) :
    (x s).value = .error e := by
  rcases follows s with same | ⟨stopped, _⟩
  · rw [same, value]
  · rw [value] at stopped
    exact absurd (Except.error.inj stopped) differ

theorem Follows.same {limit : Nat} {Q : α → σ → Prop} {E : ε → σ → Prop} (follows : Follows bad x y)
    (ends : Ends limit y Q E s) (never : ∀ t, ¬ E bad t) (below : (x s).peak < limit) : x s = y s := by
  rcases follows s with same | ⟨stopped, least⟩
  · exact same
  · have done := ends (lt_of_le_of_lt least below)
    rw [stopped] at done
    exact absurd done (never _)

theorem Follows.completes {limit : Nat} (follows : Follows bad x y) (completes : Completes limit y s) : x s = y s := by
  rcases follows s with same | ⟨stopped, _⟩
  · exact same
  · rw [Completes, stopped] at completes
    cases completes.1

theorem Follows.same_simulated {limit : Nat} {z : Program ε τ α} {t : τ} {R : α → σ → τ → Prop} (follows : Follows bad x y)
    (simulates : Simulates limit y z R s t) (below : (z t).peak < limit) (never : (z t).value ≠ .error bad) : x s = y s := by
  rcases follows s with same | ⟨stopped, _⟩
  · exact same
  · exact absurd ((simulates (.inr below)).2.1.symm.trans stopped) never

theorem Follows.ends {limit : Nat} {Q : α → σ → Prop} {E : ε → σ → Prop} (follows : Follows bad x y)
    (ends : Ends limit y Q E s) (never : ∀ t, ¬ E bad t) : Ends limit x Q E s := by
  intro below
  have same := follows.same ends never below
  rw [same] at below ⊢
  exact ends below

/-- What is known of a program which simulates the followed one. -/
theorem Follows.ends_simulated {limit : Nat} {z : Program ε τ α} {t : τ} {R : α → σ → τ → Prop} {Q : α → τ → Prop}
    {E : ε → τ → Prop} (follows : Follows bad x y) (simulates : Simulates limit y z R s t) (ends : Ends limit z Q E t)
    (never : ∀ t', ¬ E bad t') : Ends limit x (fun a s' => ∃ t', R a s' t' ∧ Q a t') (fun e _ => ∃ t', E e t') s :=
  follows.ends (simulates.ends ends) fun _ ⟨t', stops⟩ => never t' stops

end Following

end Program
