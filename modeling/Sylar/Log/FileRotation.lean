import Sylar.Log.FileAppenderStatements

set_option autoImplicit false

namespace Sylar.Log.FileRotation

open Function (update)
open Lib (run)
open Lib.Sections (wholeStep)
open FileAppenderRace (Request success)
open FileAppenderStatements

-- Files are numbered: renaming the file that m_filename stands for leaves the
-- name to the next one, and a stream that is open keeps the file it has opened.
structure Rotating where
  state : Appending
  name : Nat
  target : Nat
  clock : Nat
  renames : List Nat
  lines : List (Nat × Record)

inductive Action where
  | pass (seconds : Nat)
  | rename
  | move (thread : Nat)

section Rotation

variable (strftime : String → Nat → String)

-- Whether reopen gets the file that the name stands for.
def opensNow (os : Outcome) (stream : Ofstream) : Bool :=
  !(if !stream.fails then stream.close os else stream).isOpen && os.opens

def reopening (own : Caller) : Option Outcome :=
  match own.phase, own.calls with
  | .reopening _ os, _ => some os
  | .idle, .reopen os :: _ => some os
  | _, _ => none

-- An event has its time before it is logged.
def stamped (clock : Nat) (own : Caller) : Bool :=
  match own.phase, own.calls with
  | .idle, .log request _ :: _ => request.event.getTime.toNat ≤ clock
  | _, _ => true

def follow (rotating : Rotating) (own : Caller) (next : Appending) : Rotating :=
  let target := match reopening own with
    | some os => if opensNow os (rotating.state.data ()).filestream then rotating.name else rotating.target
    | none => rotating.target
  { rotating with
    state := next
    target := target
    lines := rotating.lines ++
      ((next.data ()).logged.drop (rotating.state.data ()).logged.length).map fun record => (target, record) }

def step (rotating : Rotating) : Action → Option Rotating
  | .pass seconds => some { rotating with clock := rotating.clock + seconds }
  | .rename => some { rotating with name := rotating.name + 1, renames := rotating.renames ++ [rotating.clock] }
  | .move thread =>
      if stamped rotating.clock (rotating.state.locals thread) then
        (wholeStep (moves strftime) rotating.state thread).map (follow rotating (rotating.state.locals thread))
      else none

def start (base : LogAppender LogFormatter) (programs : Nat → List Call) : Rotating :=
  ⟨FileAppenderStatements.start base programs, 0, 0, 0, [], []⟩

end Rotation

-- A thread past reopen knows the stream to be as new as its event; one that
-- found m_lastTime recent, as new as three seconds before it.
def moments : Phase → List Nat
  | .stamping request _ => [request.event.getTime.toNat]
  | .writing request _ => [request.event.getTime.toNat - 2]
  | _ => []

section Steps

variable (strftime : String → Nat → String) (rotating : Rotating) (thread : Nat)

end Steps

end Sylar.Log.FileRotation
