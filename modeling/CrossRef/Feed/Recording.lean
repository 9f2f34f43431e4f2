import CrossRef.Feed.Call

namespace CrossRef.Feed

inductive Entry
  | begin (artifact : String)
  | call (c : Call)
  | commit
  | rollback
  deriving DecidableEq, Repr

/-- A transaction that only writes down what is asked of it: the log, the number of calls seen, and
what is to fail. A call that fails is not written down. -/
structure Recording where
  log : List Entry := []
  seen : Nat := 0
  failAt : Option Nat := none
  failBegin : Bool := false
  failCommit : Bool := false
  deriving DecidableEq, Repr

namespace Recording

def injected (what : String) : Fault := .queryFailed ("injected " ++ what)

def write (entry : Entry) (r : Recording) : Recording := { r with log := r.log ++ [entry] }

def begin (artifact : String) (r : Recording) : Except Fault Recording :=
  if r.failBegin then .error (injected "begin failure") else .ok (r.write (.begin artifact))

def apply (c : Call) (r : Recording) : Except Fault Unit × Recording :=
  let next := { r with seen := r.seen + 1 }
  if r.failAt = some r.seen then (.error (injected s!"failure at call {r.seen}"), next)
  else (.ok (), next.write (.call c))

def commit (r : Recording) : Except Fault Unit × Recording :=
  if r.failCommit then (.error (injected "commit failure"), r.write .rollback)
  else (.ok (), r.write .commit)

def provider : Provider Recording Recording := ⟨begin, apply, commit, write .rollback⟩

end Recording

end CrossRef.Feed
