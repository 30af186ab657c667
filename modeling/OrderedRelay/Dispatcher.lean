import OrderedRelay.Text.Quoted

/-!
# Serialised execution

A dispatcher runs jobs one at a time in the order they were posted. Posting never waits and is always
accepted; a job that fails takes nothing away from the others.
-/

namespace OrderedRelay

/-- Jobs that wait and jobs that have run, both in the order they were posted. -/
structure Dispatcher (α : Type) where
  name : String
  waiting : List α := []
  ran : List α := []
deriving DecidableEq

namespace Dispatcher

variable {α : Type}

def post (d : Dispatcher α) (job : α) : Dispatcher α := { d with waiting := d.waiting ++ [job] }

def step (d : Dispatcher α) : Dispatcher α :=
  match d.waiting with
  | [] => d
  | job :: rest => { d with waiting := rest, ran := d.ran ++ [job] }

def flush (d : Dispatcher α) : Dispatcher α := { d with waiting := [], ran := d.ran ++ d.waiting }

def describe (d : Dispatcher α) : String :=
  "Dispatcher \x7b name: " ++ Text.quoted d.name ++ " \x7d"

end Dispatcher

end OrderedRelay
