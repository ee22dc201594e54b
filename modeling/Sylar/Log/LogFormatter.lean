import Sylar.Log.Logger

set_option autoImplicit false

namespace Sylar.Log

inductive FormatItem where
  | message
  | level
  | eplase
  | loggerName
  | threadId
  | cLine
  | dateTime (format : String)
  | line
  | fiberId
  | tab
  | fileName
  | string (text : String)
deriving DecidableEq, Repr

namespace FormatItem

-- DateTimeFormatItem replaces an empty format by its own.
def newDateTime (fmt : String) : FormatItem :=
  .dateTime (if fmt.isEmpty then "%Y-%m-%d %H:%M:%S" else fmt)

-- strftime(buf, sizeof(buf), ..). What localtime_r and strftime make of a time
-- depends on the time zone and the locale and enters as a function; a text that
-- does not fit with its null character is not written.
def dateFits (strftime : String → Nat → String) (fmt : String) (time : Nat) : Bool :=
  (strftime fmt time).utf8ByteSize + 1 ≤ 64

-- strftime's 0 is not looked at: buf, which nothing has set before, is printed
-- with whatever stands in it.
def dateText (strftime : String → Nat → String) (buf fmt : String) (time : Nat) : String :=
  if dateFits strftime fmt time then strftime fmt time else buf

def format {Formatter : Type} (strftime : String → Nat → String) (buf : String) (logger : Logger Formatter) (level : Level)
    (event : LogEvent) : FormatItem → String
  | .message => event.content
  | .level => level.toString
  | .eplase => toString event.eplase
  | .loggerName => logger.name
  | .threadId => toString event.threadId
  | .cLine => "\n"
  | .dateTime fmt => dateText strftime buf fmt event.time
  | .line => toString event.line
  | .fiberId => toString event.fiberId
  | .tab => "\t"
  | .fileName => event.file
  | .string text => text

-- Whether what an item prints is its own text, whatever stands in its buffer.
def fits (strftime : String → Nat → String) (event : LogEvent) : FormatItem → Bool
  | .dateTime fmt => dateFits strftime fmt event.time
  | _ => true

theorem format_fits {Formatter : Type} (strftime : String → Nat → String) (logger : Logger Formatter) (level : Level)
    (event : LogEvent) (item : FormatItem) (fitting : item.fits strftime event = true) (buf other : String) :
    item.format strftime buf logger level event = item.format strftime other logger level event := by
  cases item with
  | dateTime fmt =>
      have inside : dateFits strftime fmt event.time = true := fitting
      simp only [format, dateText, inside, if_true]
  | _ => rfl

end FormatItem

-- s_format_items: the constructor behind each of the eleven names.
def formatItems (name : List Char) : Option (String → FormatItem) :=
  match name with
  | ['m'] => some fun _ => .message
  | ['p'] => some fun _ => .level
  | ['r'] => some fun _ => .eplase
  | ['c'] => some fun _ => .loggerName
  | ['t'] => some fun _ => .threadId
  | ['n'] => some fun _ => .cLine
  | ['d'] => some FormatItem.newDateTime
  | ['l'] => some fun _ => .line
  | ['F'] => some fun _ => .fiberId
  | ['T'] => some fun _ => .tab
  | ['f'] => some fun _ => .fileName
  | _ => none

-- One std::tuple<std::string, std::string, int> of vec: the type is 0 for text
-- and 1 for a directive.
structure Piece where
  str : List Char
  fmt : List Char
  type : Nat
deriving DecidableEq, Repr

section Scanner

variable (pattern : List Char)

-- std::string::operator[], which reads a null character at the end.
def charAt (n : Nat) : Char := pattern.getD n '\x00'

def substr (first length : Nat) : List Char := (pattern.drop first).take length

-- while(n < m_pattern.size() && m_pattern[n] != '}') ++n;
def skipFmt : Nat → Nat → Nat
  | 0, n => n
  | fuel + 1, n => if n < pattern.length ∧ charAt pattern n ≠ '}' then skipFmt fuel (n + 1) else n

structure Directive where
  n : Nat
  fmtStatus : Nat
  str : List Char
  fmt : List Char
  fmtBegin : Nat
deriving DecidableEq, Repr

-- One round of the inner while loop; true stands for its break statements.
def directiveStep (i : Nat) (d : Directive) : Directive × Bool :=
  if !(charAt pattern d.n).isAlpha && charAt pattern d.n != '{' then
    ({ d with str := substr pattern (i + 1) (d.n - i - 1) }, true)
  else
    let opened :=
      if d.fmtStatus = 0 ∧ charAt pattern d.n = '{' then
        { d with str := substr pattern (i + 1) (d.n - i - 1), fmtStatus := 1, fmtBegin := d.n, n := d.n + 1 }
      else d
    let skipped :=
      if opened.fmtStatus = 1 then { opened with n := skipFmt pattern pattern.length opened.n } else opened
    if opened.fmtStatus = 1 ∧ charAt pattern skipped.n = '}' then
      ({ skipped with
          fmt := substr pattern (skipped.fmtBegin + 1) (skipped.n - skipped.fmtBegin - 1)
          fmtStatus := 0
          n := skipped.n + 1 }, true)
    else
      let next := { skipped with n := skipped.n + 1 }
      if next.n = pattern.length ∧ next.str.isEmpty then ({ next with str := pattern.drop (i + 1) }, false)
      else (next, false)

def directiveLoop (i : Nat) : Nat → Directive → Directive
  | 0, d => d
  | fuel + 1, d =>
      if d.n < pattern.length then
        match directiveStep pattern i d with
        | (next, true) => next
        | (next, false) => directiveLoop i fuel next
      else d

structure Scan where
  i : Nat
  nstr : List Char
  vec : List Piece
  error : Bool
deriving DecidableEq, Repr

def flush (nstr : List Char) : List Piece := if nstr.isEmpty then [] else [⟨nstr, [], 0⟩]

-- One round of the outer for loop with its ++i. The flush at the end of the
-- body belongs to the round, not to the end of the pattern, and keeps nstr.
def initStep (scan : Scan) : Scan :=
  let i := scan.i
  if charAt pattern i ≠ '%' then { scan with nstr := scan.nstr ++ [charAt pattern i], i := i + 1 }
  else if i + 1 < pattern.length ∧ charAt pattern (i + 1) = '%' then
    { scan with nstr := scan.nstr ++ ['%'], i := i + 1 }
  else
    let d := directiveLoop pattern i pattern.length ⟨i + 1, 0, [], [], 0⟩
    if d.fmtStatus = 0 then
      { scan with nstr := [], vec := scan.vec ++ flush scan.nstr ++ [⟨d.str, d.fmt, 1⟩], i := d.n - 1 + 1 }
    else
      { scan with vec := scan.vec ++ [⟨"<parse_error>".toList, d.fmt, 0⟩] ++ flush scan.nstr, error := true, i := i + 1 }

def initLoop : Nat → Scan → Scan
  | 0, scan => scan
  | fuel + 1, scan => if scan.i < pattern.length then initLoop fuel (initStep pattern scan) else scan

end Scanner

-- The last loop of init: one item for each piece, and whether the piece is an
-- unknown directive.
def pieceItem (piece : Piece) : FormatItem × Bool :=
  if piece.type = 0 then (.string (String.ofList piece.str), false)
  else
    match formatItems piece.str with
    | none => (.string ("<<error_format %" ++ String.ofList piece.str ++ ">>"), true)
    | some create => (create (String.ofList piece.fmt), false)

structure LogFormatter where
  pattern : String
  items : List FormatItem
  error : Bool
deriving DecidableEq, Repr

namespace LogFormatter

def init (pattern : List Char) : List FormatItem × Bool :=
  let scan := initLoop pattern pattern.length ⟨0, [], [], false⟩
  let built := scan.vec.map pieceItem
  (built.map Prod.fst, scan.error || built.any Prod.snd)

def new (pattern : String) : LogFormatter :=
  let result := init pattern.toList
  ⟨pattern, result.1, result.2⟩

def isError (formatter : LogFormatter) : Bool := formatter.error

-- Each call of an item's format has a buffer of its own.
def format {Formatter : Type} (strftime : String → Nat → String) (bufs : Nat → String) (formatter : LogFormatter)
    (logger : Logger Formatter) (level : Level) (event : LogEvent) : String :=
  String.join (formatter.items.mapIdx fun place item => item.format strftime (bufs place) logger level event)

theorem map_idx_const {α β : Type} (f : α → β) (list : List α) : (list.mapIdx fun _ entry => f entry) = list.map f := by
  apply List.ext_getElem?
  simp

theorem format_const {Formatter : Type} (strftime : String → Nat → String) (buf : String) (formatter : LogFormatter)
    (logger : Logger Formatter) (level : Level) (event : LogEvent) :
    formatter.format strftime (fun _ => buf) logger level event =
      String.join (formatter.items.map (FormatItem.format strftime buf logger level event)) := by
  rw [format, map_idx_const]

theorem format_any {Formatter : Type} (strftime : String → Nat → String) (formatter : LogFormatter) (logger : Logger Formatter)
    (level : Level) (event : LogEvent) (fitting : ∀ item ∈ formatter.items, item.fits strftime event = true)
    (bufs other : Nat → String) :
    formatter.format strftime bufs logger level event = formatter.format strftime other logger level event := by
  rw [format, format]
  congr 1
  rw [List.mapIdx_eq_mapIdx_iff]
  intro place bound
  exact FormatItem.format_fits strftime logger level event _ (fitting _ (List.getElem_mem bound)) _ _

end LogFormatter

end Sylar.Log
