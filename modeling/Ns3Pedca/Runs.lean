import Mathlib

/-!
# Runs of a step function

A system is a step function `step : σ → α → σ` : a state and an input give the next
state. `run` feeds it a list of inputs. `Each ok` says that `ok` holds at every step of a
run, of the state before the step and its input. `Always P` says that `P` holds in every
state of a run, the first and the last included.

An invariant kept by the steps that satisfy `ok` holds along every run whose steps all
satisfy `ok` (`Each.invariant`, `Each.always`). If `ok` is exactly what a step from a
`P`-state needs to end in a `P`-state, then `Always P` and `Each ok` are the same
(`always_iff_each`). `count` counts the steps of a run that satisfy a test, and is bounded
by a potential that every counted step raises (`count_add_le`). `Reaches` relates a state
to the states its runs end in; a second system whose steps are runs of the first, seen
through a projection, reaches no more (`Reaches.of_projection`). `Reached ok` are the states that
a step function which may fail reaches by steps that satisfy `ok`; a run of such steps is matched by
a run of another function that matches each step (`foldlM_simulates`). `Since` says that one step
started something that no later one ended (`since_append_singleton`).
-/

namespace Runs

variable {σ τ α β : Type*}

/-- The state after the inputs `as`, one step each. -/
def run (step : σ → α → σ) (s : σ) (as : List α) : σ :=
  as.foldl step s

@[simp] theorem run_nil (step : σ → α → σ) (s : σ) : run step s [] = s :=
  rfl

@[simp] theorem run_cons (step : σ → α → σ) (s : σ) (a : α) (as : List α) :
    run step s (a :: as) = run step (step s a) as :=
  rfl

theorem run_append (step : σ → α → σ) (s : σ) (as bs : List α) :
    run step s (as ++ bs) = run step (run step s as) bs :=
  List.foldl_append

/-- `ok` holds at every step of the run of `as` from `s`. -/
def Each (step : σ → α → σ) (ok : σ → α → Prop) : σ → List α → Prop
  | _, [] => True
  | s, a :: as => ok s a ∧ Each step ok (step s a) as

instance Each.decidable (step : σ → α → σ) (ok : σ → α → Prop) [∀ s a, Decidable (ok s a)] :
    ∀ (s : σ) (as : List α), Decidable (Each step ok s as)
  | _, [] => inferInstanceAs (Decidable True)
  | s, a :: as =>
    have := Each.decidable step ok (step s a) as
    inferInstanceAs (Decidable (ok s a ∧ Each step ok (step s a) as))

/-- `P` holds in every state of the run of `as` from `s`. -/
def Always (step : σ → α → σ) (P : σ → Prop) (s : σ) (as : List α) : Prop :=
  ∀ n ≤ as.length, P (run step s (as.take n))

variable {step : σ → α → σ} {ok : σ → α → Prop} {P : σ → Prop}

theorem always_nil {s : σ} : Always step P s [] ↔ P s := by
  simp [Always]

theorem always_cons {s : σ} {a : α} {as : List α} :
    Always step P s (a :: as) ↔ P s ∧ Always step P (step s a) as := by
  constructor
  · intro h
    refine ⟨by simpa using h 0 (by simp), fun n hn => ?_⟩
    simpa using h (n + 1) (by simpa using hn)
  · rintro ⟨hs, h⟩ n hn
    rcases n with _ | n
    · simpa using hs
    · simpa using h n (by simpa using hn)

theorem Always.first {s : σ} {as : List α} (h : Always step P s as) : P s := by
  simpa using h 0 (Nat.zero_le _)

theorem Always.last {s : σ} {as : List α} (h : Always step P s as) : P (run step s as) := by
  simpa using h as.length le_rfl

theorem Always.mono {Q : σ → Prop} {s : σ} {as : List α} (h : Always step P s as)
    (hPQ : ∀ s, P s → Q s) : Always step Q s as :=
  fun n hn => hPQ _ (h n hn)

theorem Each.mono {ok' : σ → α → Prop} (himp : ∀ s a, ok s a → ok' s a) :
    ∀ {s : σ} {as : List α}, Each step ok s as → Each step ok' s as
  | _, [], _ => trivial
  | _, _ :: _, h => ⟨himp _ _ h.1, Each.mono himp h.2⟩

theorem Each.of_forall (h : ∀ s a, ok s a) : ∀ (s : σ) (as : List α), Each step ok s as
  | _, [] => trivial
  | s, a :: as => ⟨h s a, Each.of_forall h (step s a) as⟩

theorem Each.and {ok' : σ → α → Prop} :
    ∀ {s : σ} {as : List α}, Each step ok s as → Each step ok' s as →
      Each step (fun s a => ok s a ∧ ok' s a) s as
  | _, [], _, _ => trivial
  | _, _ :: _, h, h' => ⟨⟨h.1, h'.1⟩, h.2.and h'.2⟩

theorem Each.and_of_mem {D : α → Prop} :
    ∀ {s : σ} {as : List α}, Each step ok s as → (∀ a ∈ as, D a) →
      Each step (fun s a => ok s a ∧ D a) s as
  | _, [], _, _ => trivial
  | _, _ :: _, h, hD => by
    obtain ⟨hDa, hDas⟩ := List.forall_mem_cons.1 hD
    exact ⟨⟨h.1, hDa⟩, h.2.and_of_mem hDas⟩

/-- What holds of every step from a `P`-state holds along a run that stays in `P`. -/
theorem Always.each (hok : ∀ s a, P s → ok s a) :
    ∀ {s : σ} {as : List α}, Always step P s as → Each step ok s as
  | _, [], _ => trivial
  | _, _ :: _, h => ⟨hok _ _ h.first, Always.each hok (always_cons.1 h).2⟩

/-- An invariant kept by the steps that satisfy `ok` holds in every state of a run whose
steps all satisfy `ok`. -/
theorem Each.always (hstep : ∀ s a, P s → ok s a → P (step s a)) :
    ∀ {s : σ} {as : List α}, Each step ok s as → P s → Always step P s as
  | _, [], _, hs => always_nil.2 hs
  | _, _ :: _, h, hs => always_cons.2 ⟨hs, Each.always hstep h.2 (hstep _ _ hs h.1)⟩

/-- What a step that satisfies `ok` does from a `P`-state, each step of a run does whose steps all
satisfy `ok`. -/
theorem Each.imp {ok' : σ → α → Prop} (hstep : ∀ s a, P s → ok s a → P (step s a))
    (himp : ∀ s a, P s → ok s a → ok' s a) :
    ∀ {s : σ} {as : List α}, Each step ok s as → P s → Each step ok' s as
  | _, [], _, _ => trivial
  | _, _ :: _, h, hs => ⟨himp _ _ hs h.1, Each.imp hstep himp h.2 (hstep _ _ hs h.1)⟩

theorem Each.invariant (hstep : ∀ s a, P s → ok s a → P (step s a)) {s : σ} {as : List α}
    (h : Each step ok s as) (hs : P s) : P (run step s as) :=
  (h.always hstep hs).last

/-- An invariant kept by every step holds in every state of every run. -/
theorem always_of_step (hstep : ∀ s a, P s → P (step s a)) {s : σ} (hs : P s) (as : List α) :
    Always step P s as := by
  have heach : Each step (fun _ _ => True) s as := Each.of_forall (fun _ _ => trivial) s as
  exact heach.always (fun s a h _ => hstep s a h) hs

theorem run_of_step (hstep : ∀ s a, P s → P (step s a)) {s : σ} (hs : P s) (as : List α) :
    P (run step s as) :=
  (always_of_step hstep hs as).last

/-- If `ok` is what a step with an input in `D`, from a state with the invariant `I` and with
`P`, needs to end in a state with `P`, a run with inputs in `D` stays in `P` exactly when
all its steps satisfy `ok`. -/
theorem always_iff_each {I : σ → Prop} {D : α → Prop} (hI : ∀ s a, I s → I (step s a))
    (hok : ∀ s a, D a → I s → P s → (P (step s a) ↔ ok s a)) :
    ∀ {s : σ} {as : List α}, (∀ a ∈ as, D a) → I s → P s →
      (Always step P s as ↔ Each step ok s as)
  | _, [], _, _, hs => by simp [always_nil, hs, Each]
  | s, a :: as, hD, hi, hs => by
    obtain ⟨hDa, hDas⟩ := List.forall_mem_cons.1 hD
    rw [always_cons, Each, ← hok s a hDa hi hs]
    constructor
    · rintro ⟨-, h⟩
      have ha : P (step s a) := h.first
      exact ⟨ha, (always_iff_each hI hok hDas (hI s a hi) ha).1 h⟩
    · rintro ⟨ha, h⟩
      exact ⟨hs, (always_iff_each hI hok hDas (hI s a hi) ha).2 h⟩

/-- Two conditions on a step that are the same under an invariant are the same of a run. -/
theorem each_congr {ok' : σ → α → Prop} {I : σ → Prop} {D : α → Prop}
    (hI : ∀ s a, I s → D a → I (step s a)) (hok : ∀ s a, I s → D a → (ok s a ↔ ok' s a)) :
    ∀ {s : σ} {as : List α}, I s → (∀ a ∈ as, D a) → (Each step ok s as ↔ Each step ok' s as)
  | _, [], _, _ => Iff.rfl
  | s, a :: as, hs, hD => by
    obtain ⟨hDa, hDas⟩ := List.forall_mem_cons.1 hD
    exact and_congr (hok s a hs hDa) (each_congr hI hok (hI s a hs hDa) hDas)

/-! ## Counting steps -/

/-- Number of steps of the run of `as` from `s` that satisfy `test`. -/
def count (step : σ → α → σ) (test : σ → α → Bool) : σ → List α → ℕ
  | _, [] => 0
  | s, a :: as => (test s a).toNat + count step test (step s a) as

/-- A potential that no step lowers, and that every counted step raises, bounds the count
of a run of steps that satisfy `ok`. -/
theorem count_add_le {test : σ → α → Bool} {m : σ → ℕ}
    (hm : ∀ s a, P s → ok s a → P (step s a) ∧ (test s a).toNat + m s ≤ m (step s a)) :
    ∀ {s : σ} {as : List α}, P s → Each step ok s as →
      count step test s as + m s ≤ m (run step s as)
  | _, [], _, _ => by simp [count]
  | s, a :: as, hs, h => by
    obtain ⟨hs', hle⟩ := hm s a hs h.1
    have ih := count_add_le hm hs' h.2
    simp only [count, run_cons]
    omega

/-! ## Reachability through a projection -/

/-- Some run from `s` ends in `t`. -/
def Reaches (step : σ → α → σ) (s t : σ) : Prop :=
  ∃ as, run step s as = t

theorem Reaches.refl (s : σ) : Reaches step s s :=
  ⟨[], rfl⟩

theorem Reaches.trans {s t u : σ} (h : Reaches step s t) (h' : Reaches step t u) :
    Reaches step s u := by
  obtain ⟨as, rfl⟩ := h
  obtain ⟨bs, rfl⟩ := h'
  exact ⟨as ++ bs, run_append step s as bs⟩

theorem Reaches.single (s : σ) (a : α) : Reaches step s (step s a) :=
  ⟨[a], rfl⟩

theorem Reaches.invariant (hstep : ∀ s a, P s → P (step s a)) {s t : σ}
    (h : Reaches step s t) (hs : P s) : P t := by
  obtain ⟨as, rfl⟩ := h
  exact run_of_step hstep hs as

/-- A system whose steps, seen through `f`, are runs of `step` reaches through `f` no more
than `step` does. -/
theorem Reaches.of_projection {step' : τ → β → τ} (f : τ → σ)
    (hf : ∀ t b, Reaches step (f t) (f (step' t b))) (t : τ) (bs : List β) :
    Reaches step (f t) (f (run step' t bs)) := by
  induction bs generalizing t with
  | nil => exact Reaches.refl _
  | cons b bs ih => exact (hf t b).trans (ih (step' t b))

/-! ## What lasts since a step -/

theorem each_append {s : σ} {as bs : List α} :
    Each step ok s (as ++ bs) ↔ Each step ok s as ∧ Each step ok (run step s as) bs := by
  induction as generalizing s with
  | nil => exact (iff_of_eq (true_and _)).symm
  | cons a as ih =>
    rw [List.cons_append, Each, Each, ih, and_assoc]
    rfl

/-- A step of the run starts something that no later step ends. -/
def Since (step : σ → α → σ) (starts ends : σ → α → Prop) (s : σ) (as : List α) : Prop :=
  ∃ before a after, as = before ++ a :: after ∧ starts (run step s before) a ∧
    Each step (fun t b => ¬ ends t b) (run step s (before ++ [a])) after

variable {starts ends : σ → α → Prop}

theorem not_since_nil (s : σ) : ¬ Since step starts ends s [] := by
  rintro ⟨before, a, after, h, -⟩
  exact absurd h.symm (List.append_ne_nil_of_right_ne_nil before (List.cons_ne_nil a after))

/-- The last step starts it, or does not end it. -/
theorem since_append_singleton {s : σ} {as : List α} {a : α} :
    Since step starts ends s (as ++ [a]) ↔
      starts (run step s as) a ∨ Since step starts ends s as ∧ ¬ ends (run step s as) a := by
  constructor
  · rintro ⟨before, b, after, h, hstarts, hlast⟩
    rcases List.eq_nil_or_concat after with rfl | ⟨after, c, rfl⟩
    · obtain ⟨rfl, hlist⟩ := List.append_inj' h rfl
      obtain rfl := List.singleton_inj.1 hlist
      exact .inl hstarts
    · have hsplit : as ++ [a] = (before ++ b :: after) ++ [c] := by
        rw [h, List.concat_eq_append, List.append_assoc, List.cons_append]
      obtain ⟨rfl, hlist⟩ := List.append_inj' hsplit rfl
      obtain rfl := List.singleton_inj.1 hlist
      rw [List.concat_eq_append, each_append, ← run_append, List.append_assoc,
        List.singleton_append] at hlast
      exact .inr ⟨⟨before, b, after, rfl, hstarts, hlast.1⟩, hlast.2.1⟩
  · rintro (hstarts | ⟨⟨before, b, after, rfl, hstarts, hlast⟩, hends⟩)
    · exact ⟨as, a, [], rfl, hstarts, trivial⟩
    · refine ⟨before, b, after ++ [a], by rw [List.append_assoc, List.cons_append], hstarts, ?_⟩
      rw [each_append, ← run_append, List.append_assoc, List.singleton_append]
      exact ⟨hlast, hends, trivial⟩

/-! ## Steps that may fail -/

/-- The states that are reached from `s` by steps that satisfy `ok` and do not fail. -/
inductive Reached (step : σ → α → Option σ) (ok : σ → α → Prop) (s : σ) : σ → Prop
  | start : Reached step ok s s
  | step {t u : σ} {a : α} : Reached step ok s t → ok t a → step t a = some u →
      Reached step ok s u

theorem Reached.invariant {step : σ → α → Option σ} {s t : σ} (h : Reached step ok s t)
    (hstep : ∀ t a u, P t → ok t a → step t a = some u → P u) (hs : P s) : P t := by
  induction h with
  | start => exact hs
  | step _ hok heq ih => exact hstep _ _ _ ih hok heq

/-- A run that does not fail reaches its last state. -/
theorem Reached.of_foldlM {step : σ → α → Option σ} {as : List α} {s t u : σ}
    (hs : Reached step (fun _ _ => True) s t) (h : as.foldlM step t = some u) :
    Reached step (fun _ _ => True) s u := by
  induction as generalizing t with
  | nil =>
    cases h
    exact hs
  | cons a as ih =>
    rw [List.foldlM_cons] at h
    obtain ⟨v, hv, hrest⟩ := Option.bind_eq_some_iff.1 h
    exact ih (hs.step trivial hv) hrest

end Runs
