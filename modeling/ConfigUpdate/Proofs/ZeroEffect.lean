import ConfigUpdate.Proofs.Replacement
import ConfigUpdate.Proofs.SecondWriter

/-!
# Errors that promise no effect

The error of an update counts the moves that were made in the scope that fails. So an error without any
says that this scope is untouched, as are those that come after it, but not the scopes before it: the switch
is left as their plans leave it, and only if none of them has moves nothing has changed
(`Request.zero_effect`). An update that fails in its second scope keeps what it did in the first one
(`exists_zero_effect_after_write`).
-/

namespace ConfigUpdate

/-- An update that a switch is asked for. -/
inductive Request where
  | patch (ops : List Operation)
  | replace (target : Value)
  | rollback (directory name : String)
  deriving Repr

namespace Request

/-- What is planned for the request. -/
def plans (u : Updater) (s : Switch) : Request → Except UpdateError (List ScopePlan)
  | patch ops => u.planPatch s ops
  | replace target => u.planReplace s target
  | rollback directory name => do u.planReplace s (← Checkpoint.load directory name s.disk)

/-- Carries out the request. -/
def run (u : Updater) (s : Switch) : Request → Except UpdateError UpdateReport × Switch
  | patch ops => u.applyPatch ops s
  | replace target => u.replace target s
  | rollback directory name => u.rollback directory name s

theorem run_eq (u : Updater) (s : Switch) (r : Request) : r.run u s = u.run (r.plans u s) s := by
  cases r with
  | patch ops => rfl
  | replace target => rfl
  | rollback directory name =>
    simp only [run, plans, Updater.rollback]
    cases Checkpoint.load directory name s.disk <;> rfl

end Request

/-! ## The moves of a scope -/

/-- In a faulty store a move below the root changes nothing or is one write. -/
theorem makeMove_faulty_below {m : Move} (hpath : m.path ≠ []) (c : FaultyContent) :
    (∃ fault, Store.faulty.makeMove m c = (.error fault, c)) ∨
      ∃ w, Store.faulty.makeMove m c = (.ok (), c.accept w) := by
  obtain ⟨s, p, hp⟩ := List.exists_cons_of_ne_nil hpath
  obtain hfault | ⟨w, hmove⟩ := Store.faulty.makeMove_below hp c
  · exact .inl hfault
  · rw [hmove]
    by_cases hfail : c.failAt = some c.writes
    · exact .inl ⟨.store .injected, by simp [Store.faulty, hfail, Store.ofWrite]⟩
    · exact .inr ⟨w, by simp [Store.faulty, hfail, Store.ofWrite]⟩

theorem committed_toError (fault : MoveFault) (index : Nat) (path : Pointer) :
    (fault.toError index path).committed = index := by
  cases fault <;> rfl

/-- A plan that is made takes as many writes as it has moves. A plan that fails counts the writes in its
error, and without any it has changed nothing. -/
theorem writes_makeMoves {moves : List Move} (index : Nat) (hpaths : ∀ m ∈ moves, m.path ≠ [])
    (c : FaultyContent) :
    ((Store.faulty.makeMoves index moves c).1 = .ok () →
        (Store.faulty.makeMoves index moves c).2.writes = c.writes + moves.length) ∧
      ∀ e, (Store.faulty.makeMoves index moves c).1 = .error e → ∃ made, e.committed = index + made ∧
        (Store.faulty.makeMoves index moves c).2.writes = c.writes + made ∧
        (made = 0 → (Store.faulty.makeMoves index moves c).2 = c) := by
  induction moves generalizing index c with
  | nil => exact ⟨fun _ => rfl, fun e he => by cases he⟩
  | cons m ms ih =>
    obtain ⟨hpath, hpaths⟩ := List.forall_mem_cons.1 hpaths
    obtain ⟨fault, hmove⟩ | ⟨w, hmove⟩ := makeMove_faulty_below hpath c
    · simp only [Store.makeMoves, hmove]
      refine ⟨fun h => (by cases h), fun e he => ⟨0, ?_, rfl, fun _ => trivial⟩⟩
      cases he
      exact committed_toError fault index m.path
    · obtain ⟨hok, herror⟩ := ih (index + 1) hpaths (c.accept w)
      rw [FaultyContent.accept_writes] at hok herror
      simp only [Store.makeMoves, hmove]
      refine ⟨fun h => ?_, fun e he => ?_⟩
      · rw [hok h, List.length_cons]
        omega
      · obtain ⟨made, hcommitted, hwrites, -⟩ := herror e he
        exact ⟨made + 1, by omega, by omega, fun h => (by cases h)⟩

/-! ## The plans of scopes -/

namespace Switch

/-- All databases are faulty stores. -/
def Faulty (s : Switch) : Prop :=
  s.All fun db => ∃ c, db = .faulty c

/-- How many writes the database of a scope has seen. -/
def writes (s : Switch) (scope : Scope) : Nat :=
  match Dictionary.get? s.databases scope with
  | some (.faulty c) => c.writes
  | _ => 0

/-- The plan of a scope, made: its writes are counted there, and no other database has changed. -/
theorem apply_faulty {s : Switch} {scope : Scope} {moves : List Move} (hfaulty : s.Faulty)
    (hpaths : ∀ m ∈ moves, m.path ≠ []) :
    (s.apply scope moves).2.Faulty ∧
      (∀ scope', scope' ≠ scope → Dictionary.get? (s.apply scope moves).2.databases scope'
        = Dictionary.get? s.databases scope') ∧
      (∀ report, (s.apply scope moves).1 = .ok report →
        (s.apply scope moves).2.writes scope = s.writes scope + moves.length) ∧
      ∀ e, (s.apply scope moves).1 = .error e → e.committed = 0 →
        Dictionary.get? (s.apply scope moves).2.databases scope = Dictionary.get? s.databases scope := by
  cases hdb : Dictionary.get? s.databases scope with
  | none =>
    have happly : s.apply scope moves = (.error (noDatabase scope), s) := by simp [apply, hdb]
    rw [happly]
    exact ⟨hfaulty, fun _ _ => rfl, fun report h => (by cases h), fun e _ _ => hdb⟩
  | some db =>
    obtain ⟨c, rfl⟩ := hfaulty scope db hdb
    obtain ⟨hok, herror⟩ := writes_makeMoves 0 hpaths c
    rw [apply_within (Database.within_faulty s.disk) hdb]
    simp only [Store.apply]
    have hothers : ∀ c' scope', scope' ≠ scope →
        Dictionary.get? (Dictionary.insert s.databases scope (Database.faulty c')) scope'
          = Dictionary.get? s.databases scope' := fun c' scope' hne => by
      rw [Dictionary.get?_insert, if_neg (Ne.symm hne)]
    rcases hmoves : Store.faulty.makeMoves 0 moves c with ⟨_ | _, c'⟩
    · rw [hmoves] at herror
      refine ⟨hfaulty.insert scope ⟨c', rfl⟩, hothers c', fun report h => (by cases h), fun e he hzero => ?_⟩
      cases he
      obtain ⟨made, hcommitted, -, hsame⟩ := herror _ rfl
      obtain rfl : c' = c := hsame (by omega)
      rw [Dictionary.get?_insert, if_pos rfl]
    · rw [hmoves] at hok
      refine ⟨hfaulty.insert scope ⟨c', rfl⟩, hothers c', fun report h => ?_, fun e he => (by cases he)⟩
      have hwrites : c'.writes = c.writes + moves.length := hok rfl
      simp [writes, Dictionary.get?_insert, hdb, hwrites]

end Switch

namespace Updater

variable {u : Updater} {s s' : Switch} {plans : List ScopePlan}

/-- A plan that is made never takes writes back, and if it has moves it adds some in its scope. -/
theorem Makes.writes {plan : ScopePlan} {committed : Nat} (h : Makes plan s committed s') (hfaulty : s.Faulty)
    (hpaths : ∀ m ∈ plan.moves, m.path ≠ []) :
    s'.Faulty ∧ (∀ scope, s.writes scope ≤ s'.writes scope) ∧
      (plan.moves ≠ [] → s.writes plan.scope < s'.writes plan.scope) := by
  cases h with
  | skipped hidle => exact ⟨hfaulty, fun _ => Nat.le_refl _, fun hmoves => absurd hidle hmoves⟩
  | made hmoves happly =>
    obtain ⟨hfaulty', hothers, hok, -⟩ := Switch.apply_faulty hfaulty hpaths
    rw [happly] at hfaulty' hothers hok
    have hwrites : s'.writes plan.scope = s.writes plan.scope + plan.moves.length := hok _ rfl
    have hpos := List.length_pos_iff.2 hmoves
    refine ⟨hfaulty', fun scope => ?_, fun _ => by omega⟩
    by_cases hscope : scope = plan.scope
    · rw [hscope]
      omega
    · rw [Switch.writes, Switch.writes, hothers scope hscope]

section Execute

variable (hdry : u.dryRun = false) (hfaulty : s.Faulty)
  (hpaths : ∀ plan ∈ plans, ∀ m ∈ plan.moves, m.path ≠ [])

include hdry hfaulty hpaths

/-- Plans that are made never take writes back, and each one with moves adds some in its scope. -/
theorem writes_execute {reports : List ScopeReport} (h : u.execute plans s = (.ok reports, s')) :
    (∀ scope, s.writes scope ≤ s'.writes scope) ∧
      ∀ plan ∈ plans, plan.moves ≠ [] → s.writes plan.scope < s'.writes plan.scope := by
  induction plans generalizing s reports with
  | nil =>
    cases h
    exact ⟨fun _ => Nat.le_refl _, by simp⟩
  | cons plan plans ih =>
    obtain ⟨hpath, hpaths⟩ := List.forall_mem_cons.1 hpaths
    obtain ⟨committed, s₁, hmakes⟩ | ⟨hmoves, e, s₁, happly⟩ := makes_or_fails plan s
    · obtain ⟨hfaulty₁, hle, hlt⟩ := hmakes.writes hfaulty hpath
      rw [execute_makes hdry hmakes] at h
      rcases hrest : u.execute plans s₁ with ⟨_ | rest, s₂⟩
      · rw [hrest] at h
        cases h
      · rw [hrest] at h
        cases h
        obtain ⟨hle', hlt'⟩ := ih hfaulty₁ hpaths hrest
        refine ⟨fun scope => (hle scope).trans (hle' scope), List.forall_mem_cons.2 ⟨fun hmoves => ?_, ?_⟩⟩
        · exact (hlt hmoves).trans_le (hle' plan.scope)
        · intro plan' hplan' hmoves
          exact (hle plan'.scope).trans_lt (hlt' plan' hplan' hmoves)
    · rw [execute_fails hdry hmoves happly] at h
      cases h

/-- Plans that are made change nothing exactly if none of them has moves. -/
theorem execute_unchanged_iff {reports : List ScopeReport} (h : u.execute plans s = (.ok reports, s')) :
    (∀ scope, Dictionary.get? s'.databases scope = Dictionary.get? s.databases scope) ↔
      ∀ plan ∈ plans, plan.moves = [] := by
  constructor
  · intro hsame plan hplan
    by_contra hmoves
    have hlt := (writes_execute hdry hfaulty hpaths h).2 plan hplan hmoves
    rw [Switch.writes, Switch.writes, hsame plan.scope] at hlt
    exact Nat.lt_irrefl _ hlt
  · intro hidle scope
    rw [execute_idle hidle] at h
    cases h
    rfl

/-- An error without any moves made leaves the switch as the plans before the one that fails leave it. -/
theorem execute_zero_effect {e : UpdateError} (h : u.execute plans s = (.error e, s'))
    (hzero : e.committed = 0) :
    ∃ before plan rest reports made, plans = before ++ plan :: rest ∧
      u.execute before s = (.ok reports, made) ∧
      ∀ scope, Dictionary.get? s'.databases scope = Dictionary.get? made.databases scope := by
  induction plans generalizing s with
  | nil => cases h
  | cons plan plans ih =>
    obtain ⟨hpath, hpaths⟩ := List.forall_mem_cons.1 hpaths
    obtain ⟨committed, s₁, hmakes⟩ | ⟨hmoves, e', s₁, happly⟩ := makes_or_fails plan s
    · obtain ⟨hfaulty₁, -, -⟩ := hmakes.writes hfaulty hpath
      rw [execute_makes hdry hmakes] at h
      rcases hrest : u.execute plans s₁ with ⟨e₂ | rest, s₂⟩
      · rw [hrest] at h
        cases h
        obtain ⟨before, failing, rest, reports, made, rfl, hbefore, hlast⟩ := ih hfaulty₁ hpaths hrest
        refine ⟨plan :: before, failing, rest, plan.report committed :: reports, made, rfl, ?_, hlast⟩
        rw [execute_makes hdry hmakes, hbefore]
        rfl
      · rw [hrest] at h
        cases h
    · rw [execute_fails hdry hmoves happly] at h
      cases h
      obtain ⟨-, hothers, -, herror⟩ := Switch.apply_faulty hfaulty hpath
      rw [happly] at hothers herror
      refine ⟨[], plan, plans, [], s, rfl, rfl, fun scope => ?_⟩
      by_cases hscope : scope = plan.scope
      · rw [hscope]
        exact herror e rfl hzero
      · exact hothers scope hscope

end Execute

end Updater

/-! ## Requests -/

/-- A request that fails with an error that promises no effect has written nothing while it was planned, and
otherwise leaves the switch as the plans before the one that fails leave it. So the promise holds exactly if
these have no moves. -/
theorem Request.zero_effect (u : Updater) (r : Request) (s s' : Switch) (e : UpdateError)
    (hfaulty : s.Faulty)
    (hpaths : ∀ plans, r.plans u s = .ok plans → ∀ plan ∈ plans, ∀ m ∈ plan.moves, m.path ≠ [])
    (h : r.run u s = (.error e, s')) (hzero : e.isZeroEffect = true) :
    (r.plans u s = .error e ∧ s' = s) ∨
      ∃ before plan rest reports made, r.plans u s = .ok (before ++ plan :: rest) ∧
        u.execute before s = (.ok reports, made) ∧
        (∀ scope, Dictionary.get? s'.databases scope = Dictionary.get? made.databases scope) ∧
        ((∀ scope, Dictionary.get? s'.databases scope = Dictionary.get? s.databases scope) ↔
          ∀ plan ∈ before, plan.moves = []) := by
  rw [run_eq] at h
  cases hplans : r.plans u s with
  | error e' =>
    rw [hplans] at h
    cases h
    exact .inl ⟨rfl, rfl⟩
  | ok plans =>
    have hpaths := hpaths plans hplans
    rw [hplans] at h
    simp only [Updater.run] at h
    rcases hexecute : u.execute plans s with ⟨e' | reports, s₁⟩
    · rw [hexecute] at h
      cases h
      have hdry : u.dryRun = false := by
        by_contra hdry
        rw [Updater.execute_dryRun (by simpa using hdry)] at hexecute
        cases hexecute
      obtain ⟨before, plan, rest, reports, made, rfl, hbefore, hlast⟩ :=
        Updater.execute_zero_effect hdry hfaulty hpaths hexecute
          (by simpa [UpdateError.isZeroEffect] using hzero)
      refine .inr ⟨before, plan, rest, reports, made, rfl, hbefore, hlast, ?_⟩
      simp only [hlast]
      exact Updater.execute_unchanged_iff hdry hfaulty
        (fun plan hplan => hpaths plan (List.mem_append_left _ hplan)) hbefore
    · rw [hexecute] at h
      cases h

/-! ## A scope that fails after another one -/

namespace Request

/-- A switch on which the store of a chip refuses its first write. -/
def chipRefuses : Switch where
  databases := [(.host, .faulty { tables := [] }), (.asic 0, .faulty { tables := [], failAt := some 0 })]
  disk := .blank []

/-- The switch with a table on the host. -/
def hostWritten : Switch where
  databases := [(.host, .faulty { tables := [("VLAN", .empty)], writes := 1 }),
    (.asic 0, .faulty { tables := [], failAt := some 0 })]
  disk := .blank []

/-- The configuration of a scope that has an empty table. -/
def emptyTable : Value := .object [("VLAN", .empty)]

/-- The addition of the table. -/
def addTable : Move := .add (.ofNames ["VLAN"]) .empty

/-- The request for the table in both scopes. -/
def tables : Request := .replace (.object [("asic0", emptyTable), ("localhost", emptyTable)])

/-- The error of the chip, which counts no moves. -/
def refusal : UpdateError := .applyFailed 0 "/VLAN" 0 .injected

open Updater

theorem planScope_emptyTable (scope : Scope) :
    chipUpdater.planScope scope .empty emptyTable [] = .ok [addTable] := by
  have hdiff : diff .empty emptyTable = [addTable] := rfl
  have hsort : (Problem.mk chipUpdater.oracle [addTable] chipUpdater.budget
      chipUpdater.fingerprint).sort .empty = .ok [addTable] :=
    sort_single rfl rfl rfl Nat.one_pos (by decide)
  simp only [planScope, hdiff, hsort]
  rfl

theorem plans_tables :
    tables.plans chipUpdater chipRefuses = .ok [⟨.host, [addTable]⟩, ⟨.asic 0, [addTable]⟩] := by
  have hsplit : Scope.splitConfig chipUpdater.multiAsic
      (.object [("asic0", emptyTable), ("localhost", emptyTable)])
        = .ok [(.host, emptyTable), (.asic 0, emptyTable)] := rfl
  have hhost : chipRefuses.config .host = .ok .empty := rfl
  have hchip : chipRefuses.config (.asic 0) = .ok .empty := rfl
  have hobject : emptyTable.isObject = true := rfl
  simp [tables, plans, planReplace, hsplit, planTargets, hobject, hhost, hchip, planScope_emptyTable, bind,
    Except.bind, pure, Except.pure]

theorem run_tables : tables.run chipUpdater chipRefuses = (.error refusal, hostWritten) := by
  rw [run_eq, plans_tables]
  rfl

theorem faulty_chipRefuses : chipRefuses.All fun db => ∃ c, db = .faulty c ∧ c.drift = none := by
  refine Switch.all_of_forall_mem ?_
  simp only [chipRefuses, List.forall_mem_cons]
  exact ⟨⟨_, rfl, rfl⟩, ⟨_, rfl, rfl⟩, by simp⟩

theorem paths_tables : ∀ plans, tables.plans chipUpdater chipRefuses = .ok plans →
    ∀ plan ∈ plans, ∀ m ∈ plan.moves, m.path ≠ [] := by
  intro plans hplans
  rw [plans_tables] at hplans
  cases hplans
  decide

/-- The chip refuses the first move that it is to make, so the error promises no effect; but the host has its
table already. -/
theorem exists_zero_effect_after_write :
    ¬ ∀ (u : Updater) (r : Request) (s s' : Switch) (e : UpdateError), u.multiAsic = true →
      (s.All fun db => ∃ c, db = .faulty c ∧ c.drift = none) →
      (∀ plans, r.plans u s = .ok plans → ∀ plan ∈ plans, ∀ m ∈ plan.moves, m.path ≠ []) →
      r.run u s = (.error e, s') → e.isZeroEffect = true → ∀ scope, s'.config scope = s.config scope := by
  intro hall
  have hsame := hall chipUpdater tables chipRefuses hostWritten refusal rfl faulty_chipRefuses paths_tables
    run_tables rfl .host
  have hhost : hostWritten.config .host = .ok emptyTable := rfl
  have hbefore : chipRefuses.config .host = .ok .empty := rfl
  rw [hhost, hbefore] at hsame
  simp [emptyTable, Value.empty] at hsame

theorem zero_effect_tables :
    chipRefuses.Faulty ∧ (∀ plans, tables.plans chipUpdater chipRefuses = .ok plans →
        ∀ plan ∈ plans, ∀ m ∈ plan.moves, m.path ≠ []) ∧
      tables.run chipUpdater chipRefuses = (.error refusal, hostWritten) ∧ refusal.isZeroEffect = true ∧
      ((tables.plans chipUpdater chipRefuses = .error refusal ∧ hostWritten = chipRefuses) ∨
        ∃ before plan rest reports made,
          tables.plans chipUpdater chipRefuses = .ok (before ++ plan :: rest) ∧
          chipUpdater.execute before chipRefuses = (.ok reports, made) ∧
          (∀ scope, Dictionary.get? hostWritten.databases scope = Dictionary.get? made.databases scope) ∧
          ((∀ scope, Dictionary.get? hostWritten.databases scope
              = Dictionary.get? chipRefuses.databases scope) ↔
            ∀ plan ∈ before, plan.moves = [])) := by
  have hfaulty : chipRefuses.Faulty := fun scope db hdb =>
    (faulty_chipRefuses scope db hdb).imp fun c hc => hc.1
  exact ⟨hfaulty, paths_tables, run_tables, rfl,
    zero_effect chipUpdater tables chipRefuses hostWritten refusal hfaulty paths_tables run_tables rfl⟩

end Request

end ConfigUpdate
