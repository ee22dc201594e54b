import Sylar.Lib.Runs
import Sylar.Log.LogFormatter

set_option autoImplicit false

namespace Sylar.Log

open Lib (run)

-- std::ofstream on one file: whether it has the file open, its two error bits,
-- the texts that it has taken, what it has not passed on of them, and the file.
structure Ofstream where
  isOpen : Bool
  failbit : Bool
  badbit : Bool
  taken : List String
  buffer : List Char
  file : List Char
deriving DecidableEq, Repr

-- What the system answers in one call: to the open, to the close with what is
-- written there, and to what is written while the text is inserted; and how much
-- it takes in a close that fails and during the insertion. A stream that only
-- puts the text into its buffer asks the system nothing.
structure Outcome where
  opens : Bool
  closes : Bool
  writes : Bool
  atClose : Nat
  atWrite : Nat
deriving DecidableEq, Repr

def Outcome.Succeeds (os : Outcome) : Prop := os.opens = true ∧ os.closes = true ∧ os.writes = true

-- What is written is taken as a whole, if the file can be opened or not.
def Outcome.Flushes (os : Outcome) : Prop := os.closes = true ∧ os.writes = true

namespace Ofstream

def new : Ofstream := ⟨false, false, false, [], [], []⟩

-- operator!; the stream tests true iff neither bit is set.
def fails (stream : Ofstream) : Bool := stream.failbit || stream.badbit

-- The file is released also when closing it reports an error.
def close (os : Outcome) (stream : Ofstream) : Ofstream :=
  if stream.isOpen then
    { stream with
      isOpen := false
      failbit := stream.failbit || !os.closes
      buffer := []
      file := stream.file ++ if os.closes then stream.buffer else stream.buffer.take os.atClose }
  else { stream with failbit := true }

def openFile (os : Outcome) (stream : Ofstream) : Ofstream :=
  if !stream.isOpen && os.opens then { stream with isOpen := true, failbit := false, badbit := false }
  else { stream with failbit := true }

-- operator<<: a stream that tests false takes nothing, and of an empty text
-- there is nothing to write.
def write (os : Outcome) (text : String) (stream : Ofstream) : Ofstream :=
  if stream.fails then stream
  else if text.isEmpty then if stream.isOpen then { stream with taken := stream.taken ++ [text] } else stream
  else if !stream.isOpen then { stream with badbit := true }
  else
    let pending := stream.buffer ++ text.toList
    let passed := { stream with buffer := pending.drop os.atWrite, file := stream.file ++ pending.take os.atWrite }
    if os.writes then { passed with taken := stream.taken ++ [text] } else { passed with badbit := true }

def Healthy (stream : Ofstream) : Prop := stream.isOpen ∧ ¬ stream.fails

-- Open, and of no use until someone closes it.
def Stuck (stream : Ofstream) : Prop := stream.isOpen ∧ stream.fails

instance (stream : Ofstream) : Decidable stream.Healthy := inferInstanceAs (Decidable (_ ∧ _))

instance (stream : Ofstream) : Decidable stream.Stuck := inferInstanceAs (Decidable (_ ∧ _))

def Takes (os : Outcome) (text : String) (stream : Ofstream) : Prop := stream.Healthy ∧ (os.writes ∨ text.isEmpty)

instance (os : Outcome) (text : String) (stream : Ofstream) : Decidable (stream.Takes os text) :=
  inferInstanceAs (Decidable (_ ∧ _))

-- The file, when the rest of what has been taken will have been written.
def content (stream : Ofstream) : List Char := stream.file ++ stream.buffer

-- FileLogAppender::reopen on its stream.
def reopen (os : Outcome) (stream : Ofstream) : Ofstream :=
  let closed := if !stream.fails then stream.close os else stream
  closed.openFile os

theorem open_healthy (os : Outcome) (stream : Ofstream) (allowed : os.opens = true) (closed : stream.isOpen = false) :
    (stream.openFile os).Healthy := by
  simp [openFile, allowed, closed, Healthy, fails]

theorem open_closed_not_stuck (os : Outcome) (stream : Ofstream) (closed : stream.isOpen = false) :
    ¬ (stream.openFile os).Stuck := by
  cases allowed : os.opens <;> simp [openFile, allowed, closed, Stuck, fails]

theorem open_content (os : Outcome) (stream : Ofstream) :
    (stream.openFile os).taken = stream.taken ∧ (stream.openFile os).content = stream.content := by
  rw [openFile]
  split <;> exact ⟨rfl, rfl⟩

theorem close_closed (os : Outcome) (stream : Ofstream) : (stream.close os).isOpen = false := by
  cases opened : stream.isOpen <;> simp [close, opened]

theorem close_taken (os : Outcome) (stream : Ofstream) : (stream.close os).taken = stream.taken := by
  rw [close]
  split <;> rfl

theorem close_content (os : Outcome) (stream : Ofstream) (flushes : os.Flushes) :
    (stream.close os).content = stream.content := by
  rw [close]
  split
  · simp [content, flushes.1]
  · rfl

theorem reopen_stuck (os : Outcome) (stream : Ofstream) (stuck : stream.Stuck) :
    (stream.reopen os).fails ∧ (stream.reopen os).Stuck := by
  obtain ⟨opened, failing⟩ := stuck
  simp only [reopen, failing, Bool.not_true, Bool.false_eq_true, if_false]
  simp [openFile, opened, Stuck, fails]

theorem reopen_closes (os : Outcome) (stream : Ofstream) (free : ¬ stream.Stuck) :
    ∃ closed : Ofstream, closed.isOpen = false ∧ stream.reopen os = closed.openFile os := by
  by_cases failing : stream.fails
  · have unopened : stream.isOpen = false := by
      by_contra opened
      exact free ⟨by simpa using opened, failing⟩
    exact ⟨stream, unopened, by simp [reopen, failing]⟩
  · exact ⟨stream.close os, close_closed os stream, by simp [reopen, failing]⟩

theorem reopen_not_stuck_iff (os : Outcome) (stream : Ofstream) : (stream.reopen os).Stuck ↔ stream.Stuck := by
  refine ⟨fun after => ?_, fun stuck => (reopen_stuck os stream stuck).2⟩
  by_contra free
  obtain ⟨closed, unopened, same⟩ := reopen_closes os stream free
  rw [same] at after
  exact open_closed_not_stuck os closed unopened after

theorem reopen_healthy (os : Outcome) (stream : Ofstream) (allowed : os.opens = true) (free : ¬ stream.Stuck) :
    (stream.reopen os).Healthy := by
  obtain ⟨closed, unopened, same⟩ := reopen_closes os stream free
  rw [same]
  exact open_healthy os closed allowed unopened

theorem reopen_taken (os : Outcome) (stream : Ofstream) : (stream.reopen os).taken = stream.taken := by
  rw [reopen, (open_content os _).1]
  split
  · exact close_taken os stream
  · rfl

theorem reopen_content (os : Outcome) (stream : Ofstream) (flushes : os.Flushes) :
    (stream.reopen os).content = stream.content := by
  rw [reopen, (open_content os _).2]
  split
  · exact close_content os stream flushes
  · rfl

theorem write_stuck_iff (os : Outcome) (text : String) (stream : Ofstream) :
    (stream.write os text).Stuck ↔ stream.Stuck ∨ stream.Healthy ∧ text.isEmpty = false ∧ os.writes = false := by
  obtain ⟨isOpen, failbit, badbit, taken, buffer, file⟩ := stream
  cases isOpen <;> cases failbit <;> cases badbit <;> cases answer : os.writes <;> cases empty : text.isEmpty <;>
    simp [write, Stuck, Healthy, fails, answer, empty]

theorem write_healthy (os : Outcome) (text : String) (stream : Ofstream) (healthy : stream.Healthy)
    (answers : os.writes = true) : (stream.write os text).Healthy := by
  obtain ⟨isOpen, failbit, badbit, taken, buffer, file⟩ := stream
  obtain ⟨rfl, good⟩ := healthy
  cases empty : text.isEmpty <;> simp [write, Healthy, fails, answers, empty] at good ⊢ <;> simp [good]

theorem write_taken (os : Outcome) (text : String) (stream : Ofstream) :
    (stream.write os text).taken = stream.taken ++ if stream.Takes os text then [text] else [] := by
  obtain ⟨isOpen, failbit, badbit, taken, buffer, file⟩ := stream
  cases isOpen <;> cases failbit <;> cases badbit <;> cases answer : os.writes <;> cases empty : text.isEmpty <;>
    simp [write, Takes, Healthy, fails, answer, empty]

theorem write_content (os : Outcome) (text : String) (stream : Ofstream) (flushes : os.Flushes) :
    (stream.write os text).content = stream.content ++ if stream.Takes os text then text.toList else [] := by
  obtain ⟨isOpen, failbit, badbit, taken, buffer, file⟩ := stream
  have answer := flushes.2
  cases empty : text.isEmpty with
  | true =>
      obtain rfl : text = "" := by simpa using empty
      cases isOpen <;> cases failbit <;> cases badbit <;> simp [write, Takes, Healthy, fails, content]
  | false =>
      cases isOpen <;> cases failbit <;> cases badbit <;> simp [write, Takes, Healthy, fails, content, answer, empty]

end Ofstream

-- uint64_t, as m_time is.
def LogEvent.getTime (event : LogEvent) : UInt64 := event.time.toUInt64

structure FileLogAppender extends LogAppender LogFormatter where
  filestream : Ofstream
  lastTime : UInt64
deriving DecidableEq, Repr

namespace FileLogAppender

def new (base : LogAppender LogFormatter) : FileLogAppender := { base with filestream := .new, lastTime := 0 }

def reopen (os : Outcome) (appender : FileLogAppender) : FileLogAppender × Bool :=
  let stream := appender.filestream.reopen os
  ({ appender with filestream := stream }, !stream.fails)

def due (appender : FileLogAppender) (now : UInt64) : Bool := appender.lastTime + 3 ≤ now

def passes (appender : FileLogAppender) (level : Level) : Bool := appender.level.toNat ≤ level.toNat

-- Without a formatter the call goes through a null pointer.
def log (strftime : String → Nat → String) (bufs : Nat → String) (logger : Logger LogFormatter) (level : Level)
    (event : LogEvent) (os : Outcome) (appender : FileLogAppender) : Option FileLogAppender :=
  if appender.passes level then
    let now := event.getTime
    let ready := if appender.due now then { (appender.reopen os).1 with lastTime := now } else appender
    ready.formatter.map fun formatter =>
      { ready with filestream := ready.filestream.write os (formatter.format strftime bufs logger level event) }
  else some appender

inductive Call where
  | log (bufs : Nat → String) (logger : Logger LogFormatter) (level : Level) (event : LogEvent) (os : Outcome)
  | reopen (os : Outcome)

section Recovery

variable (strftime : String → Nat → String)

def perform (appender : FileLogAppender) : Call → Option FileLogAppender
  | .log bufs logger level event os => appender.log strftime bufs logger level event os
  | .reopen os => some (appender.reopen os).1

-- The answers that the reopen of a call gets, if the call makes one.
def reopening (appender : FileLogAppender) : Call → Option Outcome
  | .log _ _ level event os => if appender.passes level && appender.due event.getTime then some os else none
  | .reopen os => some os

-- The system refuses what the stream writes while a text is put into it.
def BreaksWrite (appender : FileLogAppender) : Call → Prop
  | .log bufs logger level event os =>
      appender.passes level ∧
        (if appender.due event.getTime then appender.filestream.reopen os else appender.filestream).Healthy ∧
        (∃ formatter, appender.formatter = some formatter ∧ formatter.format strftime bufs logger level event ≠ "") ∧
        os.writes = false
  | .reopen _ => False

def WriteFailed : FileLogAppender → List Call → Prop
  | _, [] => False
  | appender, call :: rest =>
      BreaksWrite strftime appender call ∨
        match perform strftime appender call with
        | some next => WriteFailed next rest
        | none => False

-- Every reopen for which the system would open the file returns true and
-- leaves the stream open and not failed.
def Recovers (start : FileLogAppender) (calls : List Call) : Prop :=
  ∀ before call after appender os, calls = before ++ call :: after → run (perform strftime) start before = some appender →
    reopening appender call = some os → os.opens = true →
      (appender.reopen os).2 = true ∧ (appender.reopen os).1.filestream.Healthy

def NoReopenAfterFailedWrite (start : FileLogAppender) (calls : List Call) : Prop :=
  ∀ before call after appender os, calls = before ++ call :: after → run (perform strftime) start before = some appender →
    reopening appender call = some os → os.opens = true → ¬ WriteFailed strftime start before

theorem reopen_recovers (os : Outcome) (appender : FileLogAppender) (allowed : os.opens = true) :
    ((appender.reopen os).2 = true ∧ (appender.reopen os).1.filestream.Healthy) ↔ ¬ appender.filestream.Stuck := by
  constructor
  · rintro ⟨-, -, good⟩ stuck
    exact good (Ofstream.reopen_stuck os appender.filestream stuck).1
  · intro free
    have healthy := Ofstream.reopen_healthy os appender.filestream allowed free
    exact ⟨by simpa [reopen] using healthy.2, healthy⟩

theorem perform_stuck_iff (appender next : FileLogAppender) (call : Call)
    (performed : perform strftime appender call = some next) :
    next.filestream.Stuck ↔ appender.filestream.Stuck ∨ BreaksWrite strftime appender call := by
  cases call with
  | reopen os =>
      cases performed
      simp [BreaksWrite, reopen, Ofstream.reopen_not_stuck_iff]
  | log bufs logger level event os =>
      simp only [perform, log] at performed
      by_cases passing : appender.passes level
      · rw [if_pos passing, Option.map_eq_some_iff] at performed
        obtain ⟨formatter, given, rfl⟩ := performed
        have own : appender.formatter = some formatter := by
          split at given
          · exact given
          · exact given
        simp only [Ofstream.write_stuck_iff, BreaksWrite, passing, own, true_and, Option.some.injEq, exists_eq_left']
        by_cases old : appender.due event.getTime
        · simp [old, reopen, Ofstream.reopen_not_stuck_iff]
        · simp [old]
      · rw [if_neg passing] at performed
        cases performed
        simp [BreaksWrite, passing]

theorem run_stuck_iff (calls : List Call) (appender final : FileLogAppender)
    (completed : run (perform strftime) appender calls = some final) :
    final.filestream.Stuck ↔ appender.filestream.Stuck ∨ WriteFailed strftime appender calls := by
  induction calls generalizing appender with
  | nil =>
      cases completed
      simp [WriteFailed]
  | cons call rest ih =>
      obtain ⟨next, performed, remaining⟩ := Lib.run_cons_some _ appender final call rest completed
      rw [ih next remaining, perform_stuck_iff strftime appender next call performed, WriteFailed]
      simp only [performed, or_assoc]

theorem reopen_recovers_iff (base : LogAppender LogFormatter) (calls : List Call) :
    Recovers strftime (new base) calls ↔ NoReopenAfterFailedWrite strftime (new base) calls := by
  have fresh : ¬ (new base).filestream.Stuck := by simp [new, Ofstream.new, Ofstream.Stuck]
  have stuck (before : List Call) (appender : FileLogAppender)
      (reached : run (perform strftime) (new base) before = some appender) :
      appender.filestream.Stuck ↔ WriteFailed strftime (new base) before := by
    rw [run_stuck_iff strftime before (new base) appender reached]
    simp only [fresh, false_or]
  constructor
  · intro recovers before call after appender os split reached reopens allowed
    rw [← stuck before appender reached, ← reopen_recovers os appender allowed]
    exact recovers before call after appender os split reached reopens allowed
  · intro unbroken before call after appender os split reached reopens allowed
    rw [reopen_recovers os appender allowed, stuck before appender reached]
    exact unbroken before call after appender os split reached reopens allowed

end Recovery

-- A record that is longer than any stream's buffer.
def longEvent : LogEvent := ⟨"main.cc", 1, 0, 0, 0, 100, 0, .info, String.ofList (List.replicate 100000 'x')⟩

def systemLogger : Logger LogFormatter := ⟨"system", .debug, [], none, none⟩

def diskFull : List Call :=
  [.log (fun _ => "") systemLogger .info longEvent ⟨true, true, false, 0, 0⟩, .reopen ⟨true, true, true, 0, 0⟩]

def diskBase : LogAppender LogFormatter := ⟨.file "log.txt", .debug, some (LogFormatter.new "%m%n"), true, false⟩

theorem full_disk_not_reopened : ¬ Recovers (fun _ _ => "") (new diskBase) diskFull := by
  intro recovers
  have failed := recovers [diskFull[0]] diskFull[1] [] _ ⟨true, true, true, 0, 0⟩ rfl rfl rfl rfl
  rw [reopen_recovers _ _ rfl] at failed
  have items : (LogFormatter.new "%m%n").items = [.message, .cLine] := by decide
  have printed : (LogFormatter.new "%m%n").format (fun _ _ => "") (fun _ => "") systemLogger .info longEvent ≠ "" := by
    simp [LogFormatter.format, items, FormatItem.format, String.join_cons]
  exact failed ((perform_stuck_iff (fun _ _ => "") (new diskBase) _ diskFull[0] rfl).mpr
    (.inr ⟨rfl, by decide, ⟨_, rfl, printed⟩, rfl⟩))

end FileLogAppender

end Sylar.Log
