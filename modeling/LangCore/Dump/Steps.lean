import LangCore.Dump.Tree
import LangCore.Fault

/-!
# Runs of a printer

One printer carries out a list of steps: it prints trees, works on inner steps
one level deeper, and tries inner steps whose failure it survives. A failure
gives up the steps that follow it up to the try that recovers from it, and every
level that was entered is left again on the way. A run keeps a record of all that
was done, of which only what was carried out to its end is reported.
-/

namespace LangCore

inductive Step
  | print (tree : Tree)
  | indented (steps : List Step)
  | attempt (steps : List Step)
  | fail (fault : Fault)

/-- What was done for a step, with the depth of the printer after it. Inner events end with the
step that failed, if one did. -/
inductive Event
  | printed (outcome : Except Fault String) (depth : Nat)
  | indented (inside : Nat) (events : List Event) (depth : Nat)
  | attempted (events : List Event) (fault? : Option Fault) (depth : Nat)
  | failed (depth : Nat)

/-- What a step that was carried out reports, with the depth of the printer after it. A failed
attempt reports none of its inner steps. -/
inductive Report
  | printed (text : String) (depth : Nat)
  | indented (inside : Nat) (reports : List Report) (depth : Nat)
  | attempted (reports? : Option (List Report)) (depth : Nat)

mutual

/-- Carries out one step: what was done, the fault if it failed, and the printer, which is there
after a failure as well. -/
def Step.perform : Step → Printer → (Event × Option Fault) × Printer
  | .print tree, p =>
    match p.print tree.sexpr with
    | (.ok text, q) => ((.printed (.ok text) q.depth, none), q)
    | (.error fault, q) => ((.printed (.error fault) q.depth, some fault), q)
  | .indented steps, p =>
    match Step.performAll steps p.pushed with
    | ((events, fault?), q) =>
      ((.indented p.pushed.depth events q.popped.depth, fault?), q.popped)
  | .attempt steps, p =>
    match Step.performAll steps p with
    | ((events, fault?), q) =>
      ((.attempted events fault? q.depth, fault?.filter fun fault => !fault.recoverable), q)
  | .fail fault, p => ((.failed p.depth, some fault), p)

/-- Carries out steps in order until one fails. -/
def Step.performAll : List Step → Printer → (List Event × Option Fault) × Printer
  | [], p => (([], none), p)
  | step :: rest, p =>
    match Step.perform step p with
    | ((event, some fault), q) => (([event], some fault), q)
    | ((event, none), q) =>
      match Step.performAll rest q with
      | ((events, fault?), r) => ((event :: events, fault?), r)

end

mutual

def Event.report? : Event → Option Report
  | .printed (.ok text) depth => some (.printed text depth)
  | .printed (.error _) _ | .failed _ => none
  | .indented inside events depth => some (.indented inside (Event.reports events) depth)
  | .attempted events none depth => some (.attempted (some (Event.reports events)) depth)
  | .attempted _ (some _) depth => some (.attempted none depth)

def Event.reports : List Event → List Report
  | [] => []
  | event :: rest => event.report?.toList ++ Event.reports rest

end

/-- The reports of what was done, or the fault that nothing recovered from. -/
def Step.answer : List Event × Option Fault → Except Fault (List Report)
  | (events, none) => .ok (Event.reports events)
  | (_, some fault) => .error fault

/-- Carries out steps in order. The printer that results is there after a failure as well. -/
def Step.runAll (steps : List Step) (p : Printer) : Except Fault (List Report) × Printer :=
  match Step.performAll steps p with
  | (done, q) => (Step.answer done, q)

end LangCore
