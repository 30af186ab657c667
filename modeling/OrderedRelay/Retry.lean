/-!
# Retries

An operation is repeated after a failure that may pass, until a budget of delays is used up. The state
it works on is carried from attempt to attempt.
-/

namespace OrderedRelay.Retry

def connectionDelays : Nat := 30
def publishDelays : Nat := 5

/-- Attempts until one succeeds, one fails for good, or one fails with no delay left. -/
def run {σ ε α : Type} (mayPass : ε → Bool) (attempt : σ → σ × Except ε α) :
    Nat → σ → σ × Except ε α
  | 0, s => attempt s
  | delays + 1, s =>
    match attempt s with
    | (s', .error e) => if mayPass e then run mayPass attempt delays s' else (s', .error e)
    | done => done

/-- Attempts to connect, counted from 1; gives the number of attempts and how the last one ended. -/
def connect {ε α : Type} (attempt : Nat → Except ε α) : Nat × Except ε α :=
  run (fun _ => true) (fun n => (n + 1, attempt (n + 1))) connectionDelays 0

end OrderedRelay.Retry
