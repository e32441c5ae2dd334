import ConfigUpdate.Patch.Move
import ConfigUpdate.Plan.Oracle

/-!
# Runs of moves

A run makes moves one after another, each on the tree that the one before it left, and an oracle has
to accept every tree on the way. `Move.Run` says this without positions and errors. A replay succeeds
exactly where there is a run under the oracle that accepts all trees: `Move.runAll_eq_ok_iff`.
-/

namespace ConfigUpdate

namespace Move

theorem step_eq_ok_iff {m : Move} {tree after : Value} :
    m.step tree = .ok after ↔ m.check tree = .ok () ∧ m.run tree = .ok after := by
  unfold step
  cases hc : m.check tree with
  | error e => simp [bind, Except.bind]
  | ok u =>
    cases hr : m.run tree with
    | error e => simp [bind, Except.bind, throw, throwThe, MonadExceptOf.throw]
    | ok t => simp [bind, Except.bind, pure, Except.pure]

theorem step_of_check_error {m : Move} {tree : Value} {e : PreconditionError}
    (h : m.check tree = .error e) : m.step tree = .error e := by
  rw [step, h]
  rfl

theorem step_of_run_error {m : Move} {tree : Value} {e : ResolveError} (hcheck : m.check tree = .ok ())
    (hrun : m.run tree = .error e) : m.step tree = .error (.unresolvable e) := by
  rw [step, hcheck, hrun]
  rfl

/-- Moves made one after another: each finds what it expects on the tree just before it and can be
made there, and the oracle accepts the tree after it. -/
inductive Run (oracle : Oracle) : Value → List Move → Value → Prop
  | nil (tree : Value) : Run oracle tree [] tree
  | cons {tree after last : Value} {m : Move} {ms : List Move} :
    m.check tree = .ok () → m.run tree = .ok after → oracle after = .ok () →
      Run oracle after ms last → Run oracle tree (m :: ms) last

/-- A run from an accepted tree ends in one. -/
theorem Run.accepted {oracle : Oracle} {tree last : Value} {ms : List Move}
    (h : Run oracle tree ms last) (haccepted : oracle tree = .ok ()) : oracle last = .ok () := by
  induction h with
  | nil tree => exact haccepted
  | cons _ _ ho _ ih => exact ih ho

/-- Where a run ends does not depend on who judges it. -/
theorem Run.unique {oracle oracle' : Oracle} {tree last last' : Value} {ms : List Move}
    (h : Run oracle tree ms last) (h' : Run oracle' tree ms last') : last = last' := by
  induction h with
  | nil tree =>
    cases h'
    rfl
  | cons _ hr _ _ ih =>
    cases h' with
    | cons _ hr' _ hrest =>
      rw [hr] at hr'
      cases hr'
      exact ih hrest

theorem runAll_eq_ok_iff {tree last : Value} {ms : List Move} :
    runAll tree ms = .ok last ↔ Run Oracle.acceptAll tree ms last := by
  suffices h : ∀ index, runAll.go index tree ms = .ok last ↔ Run Oracle.acceptAll tree ms last from h 0
  induction ms generalizing tree with
  | nil =>
    intro index
    simp only [runAll.go, Except.ok.injEq]
    exact ⟨fun h => h ▸ .nil tree, fun h => by cases h; rfl⟩
  | cons m ms ih =>
    intro index
    simp only [runAll.go]
    cases hs : m.step tree with
    | error e =>
      refine ⟨fun h => by simp at h, fun h => ?_⟩
      cases h with
      | cons hc hr _ _ =>
        rw [step_eq_ok_iff.2 ⟨hc, hr⟩] at hs
        cases hs
    | ok after =>
      obtain ⟨hc, hr⟩ := step_eq_ok_iff.1 hs
      refine (ih (index + 1)).trans ⟨fun h => .cons hc hr rfl h, fun h => ?_⟩
      cases h with
      | cons _ hr' _ hrest =>
        rw [hr] at hr'
        cases hr'
        exact hrest

end Move

end ConfigUpdate
