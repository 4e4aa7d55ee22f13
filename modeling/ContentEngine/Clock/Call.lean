import ContentEngine.Clock.Token

/-!
# Calls on a clock

A call started at some time has a log, an end and an outcome. Calls are put one after the other, or
run side by side. A small group fails with its earliest failure, the first of several at the same
time. A large group is taken in its order: a failure counts only once all calls before it have ended.
What a member would have done after the end of its group does not happen.

`CancelToken.run` cuts a call off at the time its token fires.
-/

namespace ContentEngine

structure Stamped (ι : Type) where
  time : Nat
  entry : ι
deriving Repr

structure Progress (ι ε α : Type) where
  log : List (Stamped ι)
  finish : Nat
  outcome : Except ε α

def Call (ι ε α : Type) := Nat → Progress ι ε α

variable {ι ε α β : Type}

namespace Progress

def mapError {ε' : Type} (f : ε → ε') (p : Progress ι ε α) : Progress ι ε' α :=
  ⟨p.log, p.finish, p.outcome.mapError f⟩

/-- What happened up to a time; `strict` leaves out that time itself. -/
def logUntil (p : Progress ι ε α) (time : Nat) (strict : Bool) : List (Stamped ι) :=
  p.log.filter fun s => s.time < time || (!strict && s.time == time)

/-- Two calls side by side; at one time the left one comes first. -/
def both (p : Progress ι ε α) (q : Progress ι ε β) : Progress ι ε (α × β) :=
  match p.outcome, q.outcome with
  | .ok a, .ok b => ⟨p.log ++ q.log, max p.finish q.finish, .ok (a, b)⟩
  | .error e, .ok _ => ⟨p.log ++ q.logUntil p.finish true, p.finish, .error e⟩
  | .ok _, .error e => ⟨p.logUntil q.finish false ++ q.log, q.finish, .error e⟩
  | .error e, .error e' =>
    if p.finish ≤ q.finish then ⟨p.log ++ q.logUntil p.finish true, p.finish, .error e⟩
    else ⟨p.logUntil q.finish false ++ q.log, q.finish, .error e'⟩

def failed (p : Progress ι ε α) : Bool :=
  match p.outcome with
  | .ok _ => false
  | .error _ => true

/-- When calls that are taken in order have ended, up to the first failure among them. -/
def endInOrder (start : Nat) : List (Progress ι ε α) → Nat
  | [] => start
  | p :: ps => if p.failed then p.finish else max p.finish (endInOrder start ps)

/-- Whether one of these calls, up to the first failure among them, ends at a time. -/
def endsAt (time : Nat) : List (Progress ι ε α) → Bool
  | [] => false
  | p :: ps => p.finish == time || (!p.failed && endsAt time ps)

/-- What happens in calls that are taken in order, if they end at a time. In that last moment only
the calls up to the last one that was waited for go on. -/
def logInOrder (time : Nat) : List (Progress ι ε α) → List (Stamped ι)
  | [] => []
  | p :: ps =>
    p.logUntil time (!endsAt time (p :: ps)) ++
      if p.failed then ps.flatMap (·.logUntil time true) else logInOrder time ps

/-- Calls side by side, taken in order. -/
def inOrder (start : Nat) (ps : List (Progress ι ε α)) : Progress ι ε (List α) :=
  let time := endInOrder start ps
  ⟨logInOrder time ps, time, ps.mapM (·.outcome)⟩

end Progress

namespace Call

def succeed (a : α) : Call ι ε α := fun t => ⟨[], t, .ok a⟩

def fail (e : ε) : Call ι ε α := fun t => ⟨[], t, .error e⟩

def ofExcept : Except ε α → Call ι ε α
  | .ok a => succeed a
  | .error e => fail e

def record (entry : ι) : Call ι ε Unit := fun t => ⟨[⟨t, entry⟩], t, .ok ()⟩

def recordAll (entries : List ι) : Call ι ε Unit :=
  fun t => ⟨entries.map fun e => ⟨t, e⟩, t, .ok ()⟩

def wait (ms : Nat) : Call ι ε Unit := fun t => ⟨[], t + ms, .ok ()⟩

def andThen (c : Call ι ε α) (f : α → Call ι ε β) : Call ι ε β := fun t =>
  let p := c t
  match p.outcome with
  | .error e => ⟨p.log, p.finish, .error e⟩
  | .ok a =>
    let q := f a p.finish
    ⟨p.log ++ q.log, q.finish, q.outcome⟩

instance : Monad (Call ι ε) where
  pure := succeed
  bind := andThen

def mapError {ε' : Type} (f : ε → ε') (c : Call ι ε α) : Call ι ε' α := fun t => (c t).mapError f

/-- Runs `f` on the outcome, whichever it is, for what it logs. -/
def afterwards (c : Call ι ε α) (f : Except ε α → List ι) : Call ι ε α := fun t =>
  let p := c t
  { p with log := p.log ++ (f p.outcome).map fun e => ⟨p.finish, e⟩ }

def both (c : Call ι ε α) (d : Call ι ε β) : Call ι ε (α × β) := fun t => (c t).both (d t)

/-- A small group of calls side by side. -/
def together : List (Call ι ε α) → Call ι ε (List α)
  | [] => succeed []
  | c :: cs => (c.both (together cs)).andThen fun p => succeed (p.1 :: p.2)

/-- The size up to which a group is small. -/
def smallGroup : Nat := 30

/-- Calls side by side. -/
def all (cs : List (Call ι ε α)) : Call ι ε (List α) :=
  if cs.length ≤ smallGroup then together cs
  else fun t => Progress.inOrder t (cs.map (· t))

end Call

/-- Races a call against a token: it does not start if the token has fired, and it is cut off if the
token fires by its end. -/
def CancelToken.run (token : CancelToken) (cancelled : Cancelled → ε) (c : Call ι ε α) :
    Call ι ε α := fun t =>
  match token.check t with
  | .error reason => ⟨[], t, .error (cancelled reason)⟩
  | .ok () =>
    let p := c t
    match token.firesBy p.finish with
    | some (time, reason) => ⟨p.logUntil time true, time, .error (cancelled reason)⟩
    | none => p

end ContentEngine
