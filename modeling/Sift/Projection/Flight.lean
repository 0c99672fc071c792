import Sift.Projection

/-!
# Calls at once

The calls that look keys up may be made at once. They are handed over one after another, the store answers each of them
whenever it gets to it, and the answers are collected in the order in which the calls were handed over, up to the first
failure. What happens when is up to a schedule.
-/

namespace Sift

/-- What happens while calls are made at once. -/
inductive Flight.Event where
  /-- The next call is handed over. -/
  | submit
  /-- The call at a position is answered. -/
  | finish (i : Nat)
  /-- The next answer is collected. -/
  | collect
deriving DecidableEq

/-- The position of the call that is answered. -/
def Flight.Event.finished? : Event → Option Nat
  | .finish i => some i
  | _ => none

/-- Calls that are made at once. -/
structure Flight where
  /-- The calls that are not handed over yet. -/
  waiting : List Lookup
  /-- The calls that were handed over, with the answers that are there. -/
  sent : List (Lookup × Option (Except Fault Row))
  /-- What was collected. -/
  collected : Except Fault (Table Value Row)

namespace Flight

/-- Calls that are about to be made. -/
def start (ls : List Lookup) : Flight := ⟨ls, [], .ok []⟩

/-- One step, if the event can happen. Answers are collected when all calls are handed over, up to a failure. -/
def step (store : LookupStore) (f : Flight) : Event → Option Flight
  | .submit =>
    match f.waiting with
    | l :: ls => some { f with waiting := ls, sent := f.sent ++ [(l, none)] }
    | [] => none
  | .finish i =>
    match f.sent[i]? with
    | some (l, none) => some { f with sent := f.sent.set i (l, some (Projector.look store l)) }
    | _ => none
  | .collect =>
    match f.waiting, f.collected with
    | [], .ok found =>
      match f.sent[found.length]? with
      | some (l, some answer) => some { f with collected := do return found ++ [(l.entity, ← answer)] }
      | _ => none
    | _, _ => none

def run (store : LookupStore) (schedule : List Event) (f : Flight) : Option Flight :=
  schedule.foldlM (step store) f

/-- What comes out, once everything is collected or something has failed. -/
def outcome? (f : Flight) : Option (Except Fault (Table Value Row)) :=
  match f.collected with
  | .error fault => some (.error fault)
  | .ok found => if f.waiting.isEmpty && found.length == f.sent.length then some (.ok found) else none

end Flight

namespace Projector

/-- Makes calls at once, if a schedule brings them to an end. A single call is made as it is. -/
def lookAtOnce (store : LookupStore) (schedule : List Flight.Event) (ls : List Lookup) :
    Option (Except Fault (Table Value Row)) :=
  if 1 < ls.length then ((Flight.start ls).run store schedule).bind Flight.outcome? else some (lookAll store ls)

def projectAtOnce (p : Projector) (store : LookupStore) (schedule : List Flight.Event) (rows : List Value) :
    Option (Except Fault (List Row)) :=
  match p.lookups rows with
  | .ok ls => (lookAtOnce store schedule ls).map fun answer => do rows.mapM (p.expose (← answer))
  | .error fault => some (.error fault)

end Projector

end Sift
