import Mathlib.Data.List.Basic
import Mathlib.Tactic.Common

/-!
# Runs of a system of actions

A system is a partial step function `step : σ → α → Option σ`: an action that is not enabled in a
state has no successor. A run is a list of actions (`run`), so a schedule of several parties is
just the order in which their actions stand in the list. `Meets ok` says that every step of a run
meets a condition on its action and the state it is taken from.

`run_invariant` is the one induction over runs: a property kept by every step that meets the
condition holds wherever a run of such steps leads. `Along P` says that `P` holds of every state a
run goes through; `meets_iff_along` is the exact form of the rule, for a condition that a step
cannot miss without breaking `P`. `run_length_le` and `exists_run_to_end` are for actions that lower a
measure. `Simulates` relates two systems; what one keeps, the other shows.
-/

namespace TiraRdp.Lib.Lts

variable {σ α : Type} (step : σ → α → Option σ)

/-- The state a list of actions leads to; `none` when one of them is not enabled. -/
def run : σ → List α → Option σ
  | s, [] => some s
  | s, a :: as =>
    match step s a with
    | none => none
    | some t => run t as

/-- Every step of the run meets `ok`. -/
def Meets (ok : σ → α → Prop) : σ → List α → Prop
  | _, [] => True
  | s, a :: as => ok s a ∧ ∀ t, step s a = some t → Meets ok t as

instance decidableMeets (ok : σ → α → Prop) [∀ s a, Decidable (ok s a)] :
    (s : σ) → (as : List α) → Decidable (Meets step ok s as)
  | _, [] => .isTrue trivial
  | s, a :: as =>
    match h : step s a with
    | none => decidable_of_iff (ok s a) ⟨fun ha => ⟨ha, fun _ ht => by simp [h] at ht⟩, And.left⟩
    | some t =>
      haveI := decidableMeets ok t as
      decidable_of_iff (ok s a ∧ Meets step ok t as)
        (and_congr_right' ⟨fun ht _ hu => Option.some.inj (h.symm.trans hu) ▸ ht, fun ht => ht t h⟩)

/-- `P` holds of every state the run goes through, the first and the last included. -/
def Along (P : σ → Prop) : σ → List α → Prop
  | s, [] => P s
  | s, a :: as => P s ∧ ∀ t, step s a = some t → Along P t as

variable {step}

theorem run_cons {s u : σ} {a : α} {as : List α} :
    run step s (a :: as) = some u ↔ ∃ t, step s a = some t ∧ run step t as = some u := by
  simp only [run]
  cases step s a with
  | none => simp
  | some t => simp

@[simp] theorem run_singleton {s : σ} {a : α} : run step s [a] = step s a := by
  simp only [run]
  cases step s a with
  | none => rfl
  | some t => rfl

theorem run_append {s u : σ} {as bs : List α} :
    run step s (as ++ bs) = some u ↔ ∃ t, run step s as = some t ∧ run step t bs = some u := by
  induction as generalizing s with
  | nil => simp [run]
  | cons a as ih =>
    rw [List.cons_append, run_cons]
    simp only [run_cons, ih]
    constructor
    · rintro ⟨t, ht, v, hv, hu⟩
      exact ⟨v, ⟨t, ht, hv⟩, hu⟩
    · rintro ⟨v, ⟨t, ht, hv⟩, hu⟩
      exact ⟨t, ht, v, hv, hu⟩

/-- Where every action is enabled in the states of an invariant, and keeps it, every list of actions
is a run. -/
theorem run_of_kept {I : σ → Prop} (h : ∀ s a, I s → ∃ t, step s a = some t ∧ I t) (as : List α) :
    ∀ {s : σ}, I s → ∃ t, run step s as = some t := by
  induction as with
  | nil => exact fun {s} _ => ⟨s, rfl⟩
  | cons a as ih =>
    intro s hs
    obtain ⟨t, ht, hinv⟩ := h s a hs
    obtain ⟨u, hu⟩ := ih hinv
    exact ⟨u, run_cons.mpr ⟨t, ht, hu⟩⟩

/-- Where every action is enabled, every list of actions is a run. -/
theorem run_of_enabled (h : ∀ s a, ∃ t, step s a = some t) (s : σ) (as : List α) :
    ∃ t, run step s as = some t := by
  refine run_of_kept (I := fun _ => True) (fun s a _ => ?_) as trivial
  obtain ⟨t, ht⟩ := h s a
  exact ⟨t, ht, trivial⟩

/-- What an evaluation of a run says about the state it leads to. -/
theorem run_of_any {P : σ → Prop} [DecidablePred P] {s : σ} {as : List α}
    (h : (run step s as).any (fun t => P t) = true) : ∃ t, run step s as = some t ∧ P t := by
  obtain ⟨t, ht, hP⟩ := (Option.any_eq_true _ _).mp h
  exact ⟨t, ht, of_decide_eq_true hP⟩

/-- **The run rule.** What every step meeting `C` keeps, every run of such steps keeps. -/
theorem run_invariant {C : σ → α → Prop} {I : σ → Prop}
    (hstep : ∀ s a t, I s → C s a → step s a = some t → I t) {as : List α} :
    ∀ {s t : σ}, I s → Meets step C s as → run step s as = some t → I t := by
  induction as with
  | nil =>
    intro s t hs _ h
    exact Option.some.inj h ▸ hs
  | cons a as ih =>
    rintro s t hs ⟨hok, hrest⟩ h
    obtain ⟨u, hu, hrun⟩ := run_cons.mp h
    exact ih (hstep s a u hs hok hu) (hrest u hu) hrun

theorem Along.head {P : σ → Prop} {s : σ} : ∀ {as : List α}, Along step P s as → P s
  | [], h => h
  | _ :: _, h => h.1

/-- The last state of the run. -/
theorem Along.last {P : σ → Prop} {s t : σ} {as : List α} (h : Along step P s as)
    (hrun : run step s as = some t) : P t := by
  induction as generalizing s with
  | nil => exact Option.some.inj hrun ▸ h
  | cons a as ih =>
    obtain ⟨u, hu, hrest⟩ := run_cons.mp hrun
    exact ih (h.2 u hu) hrest

/-- **The exact run rule.** When every step that meets `C` keeps the invariant `I` and every step
that misses it breaks `P`, a run meets `C` throughout iff `P` holds throughout. -/
theorem meets_iff_along {C : σ → α → Prop} {I P : σ → Prop} {p : α → Prop}
    (hP : ∀ s, I s → P s)
    (hkeep : ∀ s a t, I s → p a → C s a → step s a = some t → I t)
    (hbreak : ∀ s a t, I s → p a → ¬ C s a → step s a = some t → ¬ P t)
    {as : List α} {s u : σ} (hs : I s) (hp : ∀ a ∈ as, p a) (h : run step s as = some u) :
    Meets step C s as ↔ Along step P s as := by
  induction as generalizing s with
  | nil => exact ⟨fun _ => hP s hs, fun _ => trivial⟩
  | cons a as ih =>
    obtain ⟨t, ht, hrun⟩ := run_cons.mp h
    have hpa := hp a List.mem_cons_self
    have hrest : I t → (Meets step C t as ↔ Along step P t as) := fun hinv =>
      ih hinv (fun b hb => hp b (List.mem_cons_of_mem a hb)) hrun
    constructor
    · rintro ⟨hok, hmeets⟩
      refine ⟨hP s hs, ?_⟩
      intro t' ht'
      obtain rfl : t = t' := Option.some.inj (ht.symm.trans ht')
      exact (hrest (hkeep s a t hs hpa hok ht)).mp (hmeets t ht)
    · rintro ⟨-, halong⟩
      by_cases hok : C s a
      · refine ⟨hok, fun t' ht' => ?_⟩
        obtain rfl : t = t' := Option.some.inj (ht.symm.trans ht')
        exact (hrest (hkeep s a t hs hpa hok ht)).mpr (halong t ht)
      · exact absurd (halong t ht).head (hbreak s a t hs hpa hok ht)

/-- What the steps that meet `C` keep holds of every state that a run of such steps goes through. -/
theorem along_of_meets {C : σ → α → Prop} {I P : σ → Prop} (hP : ∀ s, I s → P s)
    (hkeep : ∀ s a t, I s → C s a → step s a = some t → I t) {as : List α} :
    ∀ {s : σ}, I s → Meets step C s as → Along step P s as := by
  induction as with
  | nil =>
    intro s hs _
    exact hP s hs
  | cons a as ih =>
    rintro s hs ⟨hok, hmeets⟩
    refine ⟨hP s hs, ?_⟩
    intro t ht
    exact ih (hkeep s a t hs hok ht) (hmeets t ht)

/-- What every step of the allowed actions keeps holds of every state a run goes through. -/
theorem along_of_invariant {I P : σ → Prop} {p : α → Prop} (hP : ∀ s, I s → P s)
    (hkeep : ∀ s a t, I s → p a → step s a = some t → I t) {as : List α} :
    ∀ {s : σ}, I s → (∀ a ∈ as, p a) → Along step P s as := by
  induction as with
  | nil =>
    intro s hs _
    exact hP s hs
  | cons a as ih =>
    intro s hs hp
    refine ⟨hP s hs, ?_⟩
    intro t ht
    have hkept := hkeep s a t hs (hp a List.mem_cons_self) ht
    exact ih hkept fun b hb => hp b (List.mem_cons_of_mem a hb)

/-- A condition that every action of the run meets by itself. -/
theorem meets_of_forall {ok : σ → α → Prop} {p : α → Prop} (h : ∀ s a, p a → ok s a)
    {as : List α} : ∀ {s : σ}, (∀ a ∈ as, p a) → Meets step ok s as := by
  induction as with
  | nil =>
    intro _ _
    trivial
  | cons a as ih =>
    intro s hp
    refine ⟨h s a (hp a List.mem_cons_self), fun _ _ => ?_⟩
    exact ih fun b hb => hp b (List.mem_cons_of_mem a hb)

/-- Where the steps that meet `C` keep an invariant that says `D` of every step, a run of such steps
meets `D`. -/
theorem meets_of_kept {C D : σ → α → Prop} {I : σ → Prop} {p : α → Prop}
    (hkeep : ∀ s a t, I s → p a → C s a → step s a = some t → I t)
    (hD : ∀ s a, I s → D s a) {as : List α} :
    ∀ {s : σ}, I s → (∀ a ∈ as, p a) → Meets step C s as → Meets step D s as := by
  induction as with
  | nil =>
    intro _ _ _ _
    trivial
  | cons a as ih =>
    rintro s hs hp ⟨hC, hCs⟩
    refine ⟨hD s a hs, fun t ht => ?_⟩
    have hkept := hkeep s a t hs (hp a List.mem_cons_self) hC ht
    exact ih hkept (fun b hb => hp b (List.mem_cons_of_mem a hb)) (hCs t ht)

/-- The run rule for an invariant that every step keeps. -/
theorem run_invariant_all {I : σ → Prop} (hstep : ∀ s a t, I s → step s a = some t → I t)
    {as : List α} {s t : σ} (hs : I s) (h : run step s as = some t) : I t := by
  have hmeets : Meets step (fun _ _ => True) s as :=
    meets_of_forall (fun _ _ h => h) fun _ _ => trivial
  exact run_invariant (fun s a t hI _ ht => hstep s a t hI ht) hs hmeets h

/-! ## Runs that end -/

section Ends

variable {I : σ → Prop} {p : α → Prop} {work : σ → Nat}

/-- **Bounded runs.** Where each of some actions lowers a measure, a run of them is no longer than
what it lowers the measure by. -/
theorem run_length_le (hkeep : ∀ s a t, I s → p a → step s a = some t → I t)
    (hlt : ∀ s a t, I s → p a → step s a = some t → work t < work s) {as : List α} :
    ∀ {s t : σ}, I s → (∀ a ∈ as, p a) → run step s as = some t → as.length + work t ≤ work s := by
  induction as with
  | nil =>
    intro s t _ _ h
    obtain rfl : s = t := Option.some.inj h
    exact Nat.le_of_eq (Nat.zero_add _)
  | cons a as ih =>
    intro s t hs hp h
    obtain ⟨u, hu, hrun⟩ := run_cons.mp h
    have hpa := hp a List.mem_cons_self
    have hstep := hlt s a u hs hpa hu
    have hrest := ih (hkeep s a u hs hpa hu) (fun b hb => hp b (List.mem_cons_of_mem a hb)) hrun
    rw [List.length_cons]
    omega

/-- Such a run can go on until none of the actions is enabled. -/
theorem exists_run_to_end (hkeep : ∀ s a t, I s → p a → step s a = some t → I t)
    (hlt : ∀ s a t, I s → p a → step s a = some t → work t < work s) {s : σ} (hs : I s) :
    ∃ as t, (∀ a ∈ as, p a) ∧ run step s as = some t ∧ ∀ a, p a → step t a = none := by
  induction hn : work s using Nat.strongRecOn generalizing s with
  | ind n ih =>
    by_cases hend : ∀ a, p a → step s a = none
    · exact ⟨[], s, fun _ h => absurd h List.not_mem_nil, rfl, hend⟩
    · push Not at hend
      obtain ⟨a, hpa, hne⟩ := hend
      obtain ⟨u, hu⟩ := Option.ne_none_iff_exists'.mp hne
      obtain ⟨as, t, has, hrun, hstuck⟩ :=
        ih (work u) (hn ▸ hlt s a u hs hpa hu) (hkeep s a u hs hpa hu) rfl
      refine ⟨a :: as, t, ?_, run_cons.mpr ⟨u, hu, hrun⟩, hstuck⟩
      intro b hb
      rcases List.mem_cons.mp hb with rfl | hmem
      · exact hpa
      · exact has b hmem

end Ends

/-! ## Simulation -/

section Simulation

variable {τ β : Type}

/-- The second system matches every step of the first by some of its own, possibly none, from one
state of the relation to the next. -/
def Simulates (step₁ : σ → α → Option σ) (step₂ : τ → β → Option τ) (R : σ → τ → Prop) : Prop :=
  ∀ s u a s', R s u → step₁ s a = some s' → ∃ bs u', run step₂ u bs = some u' ∧ R s' u'

variable {step₁ : σ → α → Option σ} {step₂ : τ → β → Option τ} {R : σ → τ → Prop}

/-- **The simulation rule.** Where the second system keeps `I`, and `I` says `P` of the states of
the first that it shows, `P` holds of every state a run of the first goes through. -/
theorem Simulates.along {P : σ → Prop} {I : τ → Prop} (h : Simulates step₁ step₂ R)
    (hkeep : ∀ u b u', I u → step₂ u b = some u' → I u') (hP : ∀ s u, R s u → I u → P s)
    {as : List α} :
    ∀ {s : σ} {u : τ}, R s u → I u → Along step₁ P s as := by
  induction as with
  | nil =>
    intro s u hR hI
    exact hP s u hR hI
  | cons a as ih =>
    intro s u hR hI
    refine ⟨hP s u hR hI, ?_⟩
    intro s' hs
    obtain ⟨bs, u', hrun, hR'⟩ := h s u a s' hR hs
    exact ih hR' (run_invariant_all hkeep hI hrun)

end Simulation

end TiraRdp.Lib.Lts
