import Mathlib
import LangCore.Dump.Steps

/-!
# Printers after failures

A printer comes back to the depth it had before a step, however the step ended,
so what was printed or failed before shows in no later text. A run therefore does
what its steps come to without a printer that is handed on: every print, those
inside of failed attempts included, gives what a fresh printer gives which is as
deep as guards are held around the print.
-/

namespace LangCore

theorem Printer.iterate_pushed_ofWidth (width n : ℕ) : pushed^[n] (ofWidth width) = ⟨width, n⟩ := by
  induction n with
  | zero => rfl
  | succ n ih => rw [Function.iterate_succ_apply', ih, pushed]

mutual

/-- What is done for a step under a number of guards when every print is made by a fresh printer
under as many of them. -/
def Step.expected (width depth : ℕ) : Step → Event × Option Fault
  | .print tree =>
    match ((Printer.pushed^[depth] (Printer.ofWidth width)).print tree.sexpr).1 with
    | .ok text => (.printed (.ok text) depth, none)
    | .error fault => (.printed (.error fault) depth, some fault)
  | .indented steps =>
    match Step.expectedAll width (depth + 1) steps with
    | (events, fault?) => (.indented (depth + 1) events depth, fault?)
  | .attempt steps =>
    match Step.expectedAll width depth steps with
    | (events, fault?) =>
      (.attempted events fault? depth, fault?.filter fun fault => !fault.recoverable)
  | .fail fault => (.failed depth, some fault)

/-- What is done for steps up to the first that fails. -/
def Step.expectedAll (width depth : ℕ) : List Step → List Event × Option Fault
  | [] => ([], none)
  | step :: rest =>
    match Step.expected width depth step with
    | (event, some fault) => ([event], some fault)
    | (event, none) =>
      match Step.expectedAll width depth rest with
      | (events, fault?) => (event :: events, fault?)

end

mutual

/-- A step does what is expected of it and leaves the printer as it was, also when it fails. -/
theorem Step.perform_eq (width : ℕ) : ∀ (step : Step) (depth : ℕ),
    step.perform ⟨width, depth⟩ = (step.expected width depth, ⟨width, depth⟩)
  | .print tree, depth => by
    rw [perform, expected, Printer.iterate_pushed_ofWidth, Printer.print_eq]
    cases tree.sexpr.fits width depth <;> rfl
  | .indented steps, depth => by
    have hinner := Step.performAll_eq width steps (depth + 1)
    rw [perform, expected, Printer.pushed, hinner]
    rfl
  | .attempt steps, depth => by
    rw [perform, expected, Step.performAll_eq width steps depth]
  | .fail fault, depth => by rw [perform, expected]

theorem Step.performAll_eq (width : ℕ) : ∀ (steps : List Step) (depth : ℕ),
    Step.performAll steps ⟨width, depth⟩ = (Step.expectedAll width depth steps, ⟨width, depth⟩)
  | [], depth => by rw [performAll, expectedAll]
  | step :: rest, depth => by
    rw [performAll, expectedAll, Step.perform_eq width step depth]
    cases step.expected width depth with
    | mk event fault? =>
      cases fault? with
      | some fault => rfl
      | none => simp only [Step.performAll_eq width rest depth]

end

theorem mapM_ite {α β ε : Type} (p : α → Bool) (f : α → β) (e : ε) (xs : List α) :
    (xs.mapM fun x => if p x then Except.ok (f x) else .error e) =
      if xs.all p then .ok (xs.map f) else .error e := by
  induction xs with
  | nil => rfl
  | cons x xs ih =>
    rw [List.mapM_cons, ih]
    cases hx : p x with
    | false => simp [hx, bind, Except.bind]
    | true => cases hxs : xs.all p <;> simp [hx, hxs, bind, Except.bind, pure, Except.pure]

/-- The text of a program is that of its statements, each printed by a printer of its own and
followed by a line break. -/
theorem dumpProgram_eq (stmts : List Stmt) :
    dumpProgram stmts = (stmts.mapM fun s => (Tree.stmt s).dump).map fun texts =>
      String.join (texts.map (· ++ "\n")) := by
  have hdump : (fun s => (Tree.stmt s).dump) = fun s =>
      if s.sexpr.fits Printer.defaultWidth 0 then .ok (s.sexpr.text Printer.defaultWidth 0)
      else .error .indentTooWide := by
    funext s
    rw [Tree.dump, Printer.print_eq]
    rfl
  have hprogram := (default : Printer).printProgram_eq stmts
  change dumpProgram stmts = if stmts.all fun s => s.sexpr.fits Printer.defaultWidth 0 then _
    else _ at hprogram
  rw [hprogram, hdump, mapM_ite]
  cases stmts.all fun s => s.sexpr.fits Printer.defaultWidth 0 with
  | false => rfl
  | true =>
    simp only [if_true, Except.map, List.map_map]
    rfl

/-- A run does and reports what its steps come to when each print is made by a fresh printer under
as many guards, whatever was printed or failed before, and it leaves the printer as it was. -/
theorem Step.prints_as_fresh_and_restores_depth (width depth : ℕ) :
    (∀ steps, Step.performAll steps ⟨width, depth⟩ =
      (Step.expectedAll width depth steps, ⟨width, depth⟩)) ∧
    (∀ steps, Step.runAll steps ⟨width, depth⟩ =
      (Step.answer (Step.expectedAll width depth steps), ⟨width, depth⟩)) ∧
    ∀ stmts, dumpProgram stmts = (stmts.mapM fun s => (Tree.stmt s).dump).map fun texts =>
      String.join (texts.map (· ++ "\n")) := by
  refine ⟨fun steps => Step.performAll_eq width steps depth, fun steps => ?_, dumpProgram_eq⟩
  rw [Step.runAll, Step.performAll_eq]

/-- A print under one guard, behind an attempt that printed under one and failed under two. -/
theorem prints_as_fresh_behind_failed_attempt :
    let print := Step.print (.expr (.block ⟨.absent, [], .symbol (.synthetic "a")⟩))
    let steps := [.attempt [.indented [print, .indented [.fail .childFailed]]], .indented [print]]
    let text := "(Expr::Block (\n          a))"
    (Step.performAll steps ⟨2, 3⟩).1.1 =
      [.attempted [.indented 4 [.printed (.ok text) 4, .indented 5 [.failed 5] 4] 3]
        (some .childFailed) 3, .indented 4 [.printed (.ok text) 4] 3] ∧
    Step.runAll steps ⟨2, 3⟩ =
      (.ok [.attempted none 3, .indented 4 [.printed text 4] 3], ⟨2, 3⟩) := by
  intro print steps text
  obtain ⟨hperform, hrun, -⟩ := Step.prints_as_fresh_and_restores_depth 2 3
  rw [hperform, hrun]
  exact ⟨rfl, rfl⟩

end LangCore
