import Mathlib.Data.List.Chain
import Sylar.Log.PatternScan

set_option autoImplicit false

namespace Sylar.Log

-- What a pattern is written from: text, and directives %name or %name{fmt}.
inductive Token where
  | literal (text : List Char)
  | directive (name : List Char) (fmt : Option (List Char))
deriving DecidableEq, Repr

namespace Token

def print : Token → List Char
  | .literal text => text
  | .directive name none => '%' :: name
  | .directive name (some fmt) => '%' :: (name ++ '{' :: (fmt ++ ['}']))

def WellFormed : Token → Prop
  | .literal text => text ≠ []
  | .directive name fmt => name ≠ [] ∧ (∀ c ∈ name, c.isAlpha) ∧ ∀ body, fmt = some body → '}' ∉ body

def Plain : Token → Prop
  | .literal text => '%' ∉ text
  | .directive _ _ => True

def Known : Token → Prop
  | .literal _ => True
  | .directive name _ => (formatItems name).isSome

def item : Token → FormatItem
  | .literal text => .string (String.ofList text)
  | .directive name fmt =>
      match formatItems name with
      | none => .string ("<<error_format %" ++ String.ofList name ++ ">>")
      | some create => create (String.ofList (fmt.getD []))

def output {Formatter : Type} (strftime : String → Nat → String) (buf : String) (logger : Logger Formatter) (level : Level)
    (event : LogEvent) (token : Token) : String := token.item.format strftime buf logger level event

-- Which token may stand right behind which.
def Follows : Token → Token → Prop
  | .literal _, .literal _ => False
  | .directive _ none, .literal text => Stops text
  | _, _ => True

end Token

def printTokens (tokens : List Token) : List Char := tokens.flatMap Token.print

def EndsInDirective (tokens : List Token) : Prop := ∀ text, tokens.getLast? ≠ some (.literal text)

-- A name without a format at the end has to stop where the rest begins.
def Meets (tokens : List Token) (rest : List Char) : Prop :=
  ∀ name, tokens.getLast? = some (.directive name none) → Stops rest

-- The pieces the scanner puts out for a list of tokens, and the text it keeps.
def compile : List Char → List Token → List Piece
  | _, [] => []
  | nstr, .literal text :: rest => compile (nstr ++ text) rest
  | nstr, .directive name fmt :: rest => flush nstr ++ [⟨name, fmt.getD [], 1⟩] ++ compile [] rest

def pending : List Char → List Token → List Char
  | nstr, [] => nstr
  | nstr, .literal text :: rest => pending (nstr ++ text) rest
  | _, .directive _ _ :: rest => pending [] rest

section Compiling

theorem print_tokens_cons (token : Token) (rest : List Token) :
    printTokens (token :: rest) = token.print ++ printTokens rest := List.flatMap_cons

theorem print_tokens_nil : printTokens [] = [] := rfl

theorem meets_end (tokens : List Token) : Meets tokens [] := by
  intro name last c first
  cases first

theorem compile_append (nstr : List Char) (front rest : List Token) :
    compile nstr (front ++ rest) = compile nstr front ++ compile (pending nstr front) rest := by
  induction front generalizing nstr with
  | nil => rfl
  | cons token more ih =>
      cases token with
      | literal text => exact ih (nstr ++ text)
      | directive name fmt => simp only [List.cons_append, compile, pending, ih [], List.append_assoc]

theorem ends_in_directive_tail (token : Token) (rest : List Token) (ended : EndsInDirective (token :: rest)) :
    EndsInDirective rest := by
  intro text last
  apply ended text
  rw [List.getLast?_cons, last]
  rfl

theorem pending_append (nstr : List Char) (front rest : List Token) :
    pending nstr (front ++ rest) = pending (pending nstr front) rest := by
  induction front generalizing nstr with
  | nil => rfl
  | cons token more ih =>
      cases token with
      | literal text => exact ih (nstr ++ text)
      | directive name fmt => exact ih []

theorem pending_nil_iff (tokens : List Token) (wellFormed : ∀ token ∈ tokens, token.WellFormed) :
    pending [] tokens = [] ↔ EndsInDirective tokens := by
  rcases List.eq_nil_or_concat tokens with empty | ⟨front, last, split⟩
  · subst empty
    simp [pending, EndsInDirective]
  · rw [List.concat_eq_append] at split
    subst split
    have shape := wellFormed last (by simp)
    rw [pending_append]
    cases last with
    | literal text =>
        have nonempty : text ≠ [] := shape
        simp [pending, EndsInDirective, nonempty]
    | directive name fmt => simp [pending, EndsInDirective]

theorem scan_plain (nstr text rest : List Char) (plain : '%' ∉ text) :
    scan nstr (text ++ rest) = scan (nstr ++ text) rest := by
  induction text generalizing nstr with
  | nil => rw [List.nil_append, List.append_nil]
  | cons c more ih =>
      rw [List.mem_cons, not_or] at plain
      rw [List.cons_append, scan_text nstr c _ (Ne.symm plain.1), ih (nstr ++ [c]) plain.2, List.append_assoc]
      rfl

theorem stops_after (name : List Char) (tokens : List Token) (rest : List Char)
    (wellFormed : ∀ token ∈ tokens, token.WellFormed)
    (boundaries : (Token.directive name none :: tokens).IsChain Token.Follows)
    (meets : Meets (.directive name none :: tokens) rest) : Stops (printTokens tokens ++ rest) := by
  cases tokens with
  | nil => exact meets name rfl
  | cons token more =>
      have adjacent := (List.isChain_cons_cons.mp boundaries).1
      have shape := wellFormed token List.mem_cons_self
      rw [print_tokens_cons, List.append_assoc]
      intro c first
      cases token with
      | literal text =>
          cases text with
          | nil => exact absurd rfl shape
          | cons head tail => exact adjacent c first
      | directive other fmt =>
          obtain rfl : '%' = c := by
            cases fmt <;> exact Option.some.inj first
          decide

theorem meets_tail (token : Token) (tokens : List Token) (rest : List Char) (meets : Meets (token :: tokens) rest) :
    Meets tokens rest := by
  intro name last
  apply meets name
  rw [List.getLast?_cons, last]
  rfl

-- Printed tokens are put out one by one, whatever comes behind them. The
-- induction carries the text that is still pending.
theorem scan_tokens (nstr : List Char) (tokens : List Token) (rest : List Char)
    (wellFormed : ∀ token ∈ tokens, token.WellFormed) (plain : ∀ token ∈ tokens, token.Plain)
    (boundaries : tokens.IsChain Token.Follows) (meets : Meets tokens rest) :
    scan nstr (printTokens tokens ++ rest) =
      (compile nstr tokens ++ (scan (pending nstr tokens) rest).1, (scan (pending nstr tokens) rest).2) := by
  induction tokens generalizing nstr with
  | nil => rfl
  | cons token more ih =>
      have moreWellFormed := fun other member => wellFormed other (List.mem_cons_of_mem token member)
      have later := fun start => ih start moreWellFormed (fun other member => plain other (List.mem_cons_of_mem _ member))
        boundaries.tail (meets_tail token more rest meets)
      have shape := wellFormed token List.mem_cons_self
      rw [print_tokens_cons, List.append_assoc]
      cases token with
      | literal text =>
          rw [Token.print, scan_plain nstr text _ (plain _ List.mem_cons_self), later (nstr ++ text)]
          rfl
      | directive name fmt =>
          obtain ⟨nonempty, alpha, inside⟩ := shape
          cases fmt with
          | none =>
              have stop := stops_after name more rest moreWellFormed boundaries meets
              have single : (name ++ (printTokens more ++ rest)).head? ≠ some '%' := by
                obtain ⟨c, tail, rfl⟩ := List.exists_cons_of_ne_nil nonempty
                intro percent
                obtain rfl : c = '%' := Option.some.inj percent
                exact absurd (alpha '%' List.mem_cons_self) (by decide)
              rw [Token.print, List.cons_append, scan_directive nstr name _ alpha stop single, later []]
              simp only [compile, pending, Option.getD_none, List.append_assoc]
          | some body =>
              have printed : (Token.directive name (some body)).print ++ (printTokens more ++ rest) =
                  '%' :: (name ++ '{' :: (body ++ '}' :: (printTokens more ++ rest))) := by
                simp only [Token.print, List.cons_append, List.append_assoc, List.nil_append]
              rw [printed, scan_closed nstr name body _ alpha (inside body rfl), later []]
              simp only [compile, pending, Option.getD_some, List.append_assoc]

end Compiling

section Items

@[simp] theorem piece_item_text (text : List Char) : pieceItem ⟨text, [], 0⟩ = ((Token.literal text).item, false) := rfl

@[simp] theorem piece_item_directive (name : List Char) (fmt : Option (List Char)) :
    pieceItem ⟨name, fmt.getD [], 1⟩ = ((Token.directive name fmt).item, (formatItems name).isNone) := by
  cases known : formatItems name <;> simp [pieceItem, Token.item, known]

-- No token is lost when a directive closes every literal; a pending text is
-- the token in front of the rest.
theorem compile_items (nstr : List Char) (tokens : List Token) (wellFormed : ∀ token ∈ tokens, token.WellFormed)
    (boundaries : tokens.IsChain Token.Follows) (ended : EndsInDirective tokens)
    (ready : nstr = [] ∨ ∃ name fmt rest, tokens = .directive name fmt :: rest) :
    ((compile nstr tokens).map pieceItem).map Prod.fst =
      ((flush nstr).map pieceItem).map Prod.fst ++ tokens.map Token.item := by
  induction tokens generalizing nstr with
  | nil =>
      rcases ready with empty | ⟨name, fmt, rest, absurdity⟩
      · subst empty
        rfl
      · cases absurdity
  | cons token more ih =>
      have later := fun start => ih start (fun other member => wellFormed other (List.mem_cons_of_mem token member))
        boundaries.tail (ends_in_directive_tail token more ended)
      cases token with
      | literal text =>
          obtain rfl : nstr = [] := by
            rcases ready with empty | ⟨name, fmt, rest, absurdity⟩
            · exact empty
            · cases absurdity
          have nonempty : text ≠ [] := wellFormed _ List.mem_cons_self
          have next : ∃ name fmt rest, more = .directive name fmt :: rest := by
            cases more with
            | nil => exact absurd rfl (ended text)
            | cons second rest =>
                cases second with
                | literal other => exact absurd (List.isChain_cons_cons.mp boundaries).1 id
                | directive name fmt => exact ⟨name, fmt, rest, rfl⟩
          rw [compile, List.nil_append, later text (.inr next)]
          simp [flush, nonempty]
      | directive name fmt =>
          have rest := later [] (.inl rfl)
          simp only [compile, List.map_append, List.map_cons, List.map_nil, piece_item_directive, rest]
          simp [flush]

theorem compile_errors (nstr : List Char) (tokens : List Token) :
    ((compile nstr tokens).map pieceItem).any Prod.snd = true ↔ ∃ token ∈ tokens, ¬ token.Known := by
  induction tokens generalizing nstr with
  | nil => simp [compile]
  | cons token more ih =>
      cases token with
      | literal text => simpa [compile, Token.Known] using ih (nstr ++ text)
      | directive name fmt =>
          have quiet : ((flush nstr).map pieceItem).any Prod.snd = false := by
            rw [flush]
            split <;> simp
          simp only [compile, List.map_append, List.any_append, quiet, List.map_cons, List.map_nil,
            piece_item_directive, List.any_cons, List.any_nil, Bool.or_false, Bool.false_or, Bool.or_eq_true, ih []]
          simp [Token.Known]

theorem init_tokens (front rest : List Token) (wellFormed : ∀ token ∈ front ++ rest, token.WellFormed)
    (plain : ∀ token ∈ front ++ rest, token.Plain) (frontBoundaries : front.IsChain Token.Follows)
    (restBoundaries : rest.IsChain Token.Follows) (meets : Meets front (printTokens rest)) :
    LogFormatter.init (printTokens front ++ printTokens rest) =
      (((compile [] (front ++ rest)).map pieceItem).map Prod.fst,
        ((compile [] (front ++ rest)).map pieceItem).any Prod.snd) := by
  have first := scan_tokens [] front (printTokens rest) (fun token member => wellFormed token (List.mem_append_left _ member))
    (fun token member => plain token (List.mem_append_left _ member)) frontBoundaries meets
  have second := scan_tokens (pending [] front) rest [] (fun token member => wellFormed token (List.mem_append_right _ member))
    (fun token member => plain token (List.mem_append_right _ member)) restBoundaries (meets_end rest)
  rw [List.append_nil, scan_nil, List.append_nil] at second
  rw [init_refines, first, second, compile_append, Bool.false_or]

theorem init_print (tokens : List Token) (wellFormed : ∀ token ∈ tokens, token.WellFormed)
    (plain : ∀ token ∈ tokens, token.Plain) (boundaries : tokens.IsChain Token.Follows) :
    LogFormatter.init (printTokens tokens) =
      (((compile [] tokens).map pieceItem).map Prod.fst, ((compile [] tokens).map pieceItem).any Prod.snd) := by
  have built := init_tokens tokens [] (by simpa using wellFormed) (by simpa using plain) boundaries .nil (meets_end tokens)
  rwa [List.append_nil, print_tokens_nil, List.append_nil] at built

theorem compile_undoes_print (tokens : List Token) (wellFormed : ∀ token ∈ tokens, token.WellFormed)
    (plain : ∀ token ∈ tokens, token.Plain) (boundaries : tokens.IsChain Token.Follows)
    (ended : EndsInDirective tokens) :
    (LogFormatter.new (String.ofList (printTokens tokens))).items = tokens.map Token.item ∧
      ((LogFormatter.new (String.ofList (printTokens tokens))).isError = true ↔ ∃ token ∈ tokens, ¬ token.Known) := by
  have built := init_print tokens wellFormed plain boundaries
  simp only [LogFormatter.new, LogFormatter.isError, String.toList_ofList, built]
  exact ⟨compile_items [] tokens wellFormed boundaries ended (.inl rfl), compile_errors [] tokens⟩

theorem compile_undoes_print_dated :
    (LogFormatter.new "[%p] at %d{%H:%M}%q%n").items =
        [.string "[", .level, .string "] at ", .dateTime "%H:%M", .string "<<error_format %q>>", .cLine] ∧
      (LogFormatter.new "[%p] at %d{%H:%M}%q%n").isError = true := by
  have compiled := compile_undoes_print
    [.literal ['['], .directive ['p'] none, .literal "] at ".toList, .directive ['d'] (some "%H:%M".toList),
      .directive ['q'] none, .directive ['n'] none]
    (by simp [Token.WellFormed]) (by simp [Token.Plain]) (by simp [Token.Follows, Stops]) (by simp [EndsInDirective])
  exact ⟨compiled.1, compiled.2.mpr ⟨.directive ['q'] none, by simp, by simp [Token.Known, formatItems]⟩⟩

end Items

section Outputs

variable {Formatter : Type} (strftime : String → Nat → String) (logger : Logger Formatter) (level : Level)
  (event : LogEvent)

-- What the tokens stand for in one run of format, which gives each its buffer.
def outputs (bufs : Nat → String) (tokens : List Token) : String :=
  String.join (tokens.mapIdx fun place token => token.output strftime (bufs place) logger level event)

def renderPieces (buf : String) (pieces : List Piece) : String :=
  String.join (pieces.map fun piece => (pieceItem piece).1.format strftime buf logger level event)

theorem map_idx_map {α β γ : Type} (f : Nat → β → γ) (g : α → β) (list : List α) :
    (list.map g).mapIdx f = list.mapIdx fun place entry => f place (g entry) := by
  apply List.ext_getElem?
  intro place
  simp only [List.getElem?_mapIdx, List.getElem?_map, Option.map_map]
  rfl

theorem outputs_const (buf : String) (tokens : List Token) : outputs strftime logger level event (fun _ => buf) tokens =
    String.join (tokens.map (Token.output strftime buf logger level event)) := by
  rw [outputs, LogFormatter.map_idx_const]

theorem outputs_concat (bufs : Nat → String) (tokens : List Token) (token : Token) :
    outputs strftime logger level event bufs (tokens ++ [token]) = outputs strftime logger level event bufs tokens ++
      token.output strftime (bufs tokens.length) logger level event := by
  simp [outputs, String.join_append, String.join_cons]

section Constant

variable (buf : String)

theorem render_pieces_append (front rest : List Piece) :
    renderPieces strftime logger level event buf (front ++ rest) =
      renderPieces strftime logger level event buf front ++ renderPieces strftime logger level event buf rest := by
  rw [renderPieces, List.map_append, String.join_append]
  rfl

theorem render_flush (nstr : List Char) : renderPieces strftime logger level event buf (flush nstr) = String.ofList nstr := by
  rw [flush]
  split
  · rename_i empty
    obtain rfl := List.isEmpty_iff.mp empty
    rfl
  · simp [renderPieces, Token.item, FormatItem.format]

theorem render_directive (name : List Char) (fmt : Option (List Char)) :
    renderPieces strftime logger level event buf [⟨name, fmt.getD [], 1⟩] =
      (Token.directive name fmt).output strftime buf logger level event := by
  simp [renderPieces, Token.output]

theorem render_compile (nstr : List Char) (tokens : List Token) :
    renderPieces strftime logger level event buf (compile nstr tokens) ++ String.ofList (pending nstr tokens) =
      String.ofList nstr ++ outputs strftime logger level event (fun _ => buf) tokens := by
  rw [outputs_const]
  induction tokens generalizing nstr with
  | nil => simp [compile, pending, renderPieces]
  | cons token more ih =>
      rw [List.map_cons, String.join_cons]
      cases token with
      | literal text =>
          rw [compile, pending, ih (nstr ++ text), String.ofList_append, String.append_assoc]
          rfl
      | directive name fmt =>
          have remaining := ih []
          rw [String.ofList_nil, String.empty_append] at remaining
          rw [compile, pending, render_pieces_append, render_pieces_append, render_flush, render_directive,
            String.append_assoc, remaining, String.append_assoc]

theorem compile_literals (nstr : List Char) (tokens : List Token)
    (none : ∀ name fmt, Token.directive name fmt ∉ tokens) : compile nstr tokens = [] := by
  induction tokens generalizing nstr with
  | nil => rfl
  | cons token more ih =>
      cases token with
      | literal text => exact ih _ fun name fmt member => none name fmt (List.mem_cons_of_mem _ member)
      | directive name fmt => exact absurd List.mem_cons_self (none name fmt)

theorem render_pending (nstr : List Char) (tokens : List Token) (some : ∃ name fmt, Token.directive name fmt ∈ tokens) :
    renderPieces strftime logger level event buf (compile nstr tokens) =
      String.ofList nstr ++ renderPieces strftime logger level event buf (compile [] tokens) := by
  induction tokens generalizing nstr with
  | nil => simp at some
  | cons token more ih =>
      cases token with
      | literal text =>
          have later : ∃ name fmt, Token.directive name fmt ∈ more := by simpa using some
          rw [compile, compile, ih (nstr ++ text) later, ih ([] ++ text) later, String.ofList_append, List.nil_append,
            String.append_assoc]
      | directive name fmt =>
          simp only [compile, render_pieces_append, render_flush, String.append_assoc, String.ofList_nil,
            String.empty_append]

theorem format_new (pattern : List Char) (pieces : List Piece) (error : Bool)
    (built : LogFormatter.init pattern = ((pieces.map pieceItem).map Prod.fst, error)) :
    (LogFormatter.new (String.ofList pattern)).format strftime (fun _ => buf) logger level event =
      renderPieces strftime logger level event buf pieces := by
  rw [LogFormatter.format_const]
  simp only [LogFormatter.new, String.toList_ofList, built, renderPieces, List.map_map]
  rfl

end Constant

-- Tokens that end in a directive are all printed, each from its own buffer.
theorem format_ended (bufs : Nat → String) (pattern : List Char) (tokens : List Token) (error : Bool)
    (built : LogFormatter.init pattern = (((compile [] tokens).map pieceItem).map Prod.fst, error))
    (wellFormed : ∀ token ∈ tokens, token.WellFormed) (boundaries : tokens.IsChain Token.Follows)
    (ended : EndsInDirective tokens) :
    (LogFormatter.new (String.ofList pattern)).format strftime bufs logger level event =
      outputs strftime logger level event bufs tokens := by
  have items := compile_items [] tokens wellFormed boundaries ended (.inl rfl)
  simp only [LogFormatter.new, LogFormatter.format, String.toList_ofList, built, items, flush, List.isEmpty_nil, if_true,
    List.map_nil, List.nil_append, map_idx_map]
  rfl

theorem compile_fits_iff (nstr : List Char) (tokens : List Token) :
    (∀ piece ∈ compile nstr tokens, (pieceItem piece).1.fits strftime event = true) ↔
      ∀ token ∈ tokens, token.item.fits strftime event = true := by
  induction tokens generalizing nstr with
  | nil => simp [compile]
  | cons token more ih =>
      cases token with
      | literal text => simpa [compile, Token.item, FormatItem.fits] using ih (nstr ++ text)
      | directive name fmt =>
          have texts : ∀ piece ∈ flush nstr, (pieceItem piece).1.fits strftime event = true := by
            intro piece member
            rw [flush] at member
            split at member
            · cases member
            · cases List.mem_singleton.mp member
              rfl
          simp only [compile, List.mem_append, or_imp, forall_and, forall_eq, piece_item_directive, ih [],
            List.mem_cons]
          tauto

-- Each item that does not fit prints one character more from the one buffer
-- than from the other.
theorem render_overflow (pieces : List Piece) :
    (renderPieces strftime logger level event "x" pieces).length =
      (renderPieces strftime logger level event "" pieces).length +
        pieces.countP fun piece => !(pieceItem piece).1.fits strftime event := by
  have item (item : FormatItem) : (item.format strftime "x" logger level event).length =
      (item.format strftime "" logger level event).length + if !item.fits strftime event then 1 else 0 := by
    cases fitting : item.fits strftime event with
    | true => rw [FormatItem.format_fits strftime logger level event item fitting "x" ""]; rfl
    | false =>
        cases item with
        | dateTime fmt =>
            have outside : FormatItem.dateFits strftime fmt event.time = false := fitting
            simp only [FormatItem.format, FormatItem.dateText, outside, Bool.false_eq_true, if_false]
            rfl
        | _ => cases fitting
  induction pieces with
  | nil => rfl
  | cons piece rest ih =>
      rw [renderPieces, renderPieces] at ih ⊢
      rw [List.map_cons, List.map_cons, String.join_cons, String.join_cons, String.length_append, String.length_append, ih, item,
        List.countP_cons]
      omega

theorem format_fitting (tokens : List Token) (fitting : ∀ token ∈ tokens, token.item.fits strftime event = true)
    (pattern : List Char) (error : Bool)
    (built : LogFormatter.init pattern = (((compile [] tokens).map pieceItem).map Prod.fst, error)) (bufs : Nat → String) :
    (LogFormatter.new (String.ofList pattern)).format strftime bufs logger level event =
      renderPieces strftime logger level event "" (compile [] tokens) := by
  rw [← format_new strftime logger level event "" _ _ _ built]
  apply LogFormatter.format_any
  have inside := (compile_fits_iff strftime event [] tokens).mpr fitting
  simpa [LogFormatter.new, built] using inside

-- With one buffer for all, only the literal between the two patterns can be lost.
theorem render_joined_iff (buf : String) (front rest : List Token) (wellFormed : ∀ token ∈ front, token.WellFormed) :
    renderPieces strftime logger level event buf (compile [] (front ++ rest)) =
        renderPieces strftime logger level event buf (compile [] front) ++
          renderPieces strftime logger level event buf (compile [] rest) ↔
      EndsInDirective front ∨ ∀ name fmt, Token.directive name fmt ∉ rest := by
  rw [compile_append, render_pieces_append, String.append_right_inj]
  by_cases none : ∀ name fmt, Token.directive name fmt ∉ rest
  · rw [compile_literals _ rest none, compile_literals _ rest none]
    exact iff_of_true rfl (.inr none)
  · have some : ∃ name fmt, Token.directive name fmt ∈ rest := by
      push Not at none
      exact none
    rw [render_pending strftime logger level event buf _ rest some, String.append_eq_right_iff, or_iff_left none,
      ← pending_nil_iff front wellFormed, String.ofList_eq_empty_iff]

theorem ends_before_literal (front : List Token) (text : List Char)
    (boundaries : (front ++ [Token.literal text]).IsChain Token.Follows) : EndsInDirective front := by
  intro other last
  exact (List.isChain_append.mp boundaries).2.2 (.literal other) last (.literal text) rfl

-- A literal behind the last directive is dropped, unless later text brings a
-- directive that puts it out: this is where splitting a pattern goes wrong. A
-- date too long for its buffer differs from run to run.
theorem format_append_iff (front rest : List Token)
    (wellFormed : ∀ token ∈ front ++ rest, token.WellFormed) (plain : ∀ token ∈ front ++ rest, token.Plain)
    (frontBoundaries : front.IsChain Token.Follows) (restBoundaries : rest.IsChain Token.Follows)
    (meets : Meets front (printTokens rest)) :
    ((∀ whole first second : Nat → String,
        (LogFormatter.new (String.ofList (printTokens front ++ printTokens rest))).format strftime whole logger level event =
          (LogFormatter.new (String.ofList (printTokens front))).format strftime first logger level event ++
            (LogFormatter.new (String.ofList (printTokens rest))).format strftime second logger level event) ↔
      (EndsInDirective front ∨ ∀ name fmt, Token.directive name fmt ∉ rest) ∧
        ∀ token ∈ front ++ rest, token.item.fits strftime event = true) ∧
    ∀ bufs : Nat → String, (LogFormatter.new (String.ofList (printTokens front))).format strftime bufs logger level event =
        outputs strftime logger level event bufs front ↔ EndsInDirective front := by
  have frontWellFormed := fun token member => wellFormed token (List.mem_append_left rest member)
  have restWellFormed := fun token member => wellFormed token (List.mem_append_right front member)
  have frontPlain := fun token member => plain token (List.mem_append_left rest member)
  have restPlain := fun token member => plain token (List.mem_append_right front member)
  have built := init_tokens front rest wellFormed plain frontBoundaries restBoundaries meets
  have frontBuilt := init_print front frontWellFormed frontPlain frontBoundaries
  have restBuilt := init_print rest restWellFormed restPlain restBoundaries
  refine ⟨⟨fun composes => ⟨?_, ?_⟩, ?_⟩, fun bufs => ⟨fun whole => ?_, ?_⟩⟩
  · have same := composes (fun _ => "") (fun _ => "") (fun _ => "")
    rw [format_new strftime logger level event "" _ _ _ built, format_new strftime logger level event "" _ _ _ frontBuilt,
      format_new strftime logger level event "" _ _ _ restBuilt] at same
    exact (render_joined_iff strftime logger level event "" front rest frontWellFormed).mp same
  · have same := (composes (fun _ => "x") (fun _ => "") (fun _ => "")).trans
      (composes (fun _ => "") (fun _ => "") (fun _ => "")).symm
    rw [format_new strftime logger level event "x" _ _ _ built, format_new strftime logger level event "" _ _ _ built] at same
    have lengths := render_overflow strftime logger level event (compile [] (front ++ rest))
    rw [same, Nat.left_eq_add, List.countP_eq_zero] at lengths
    rw [← compile_fits_iff strftime event [] (front ++ rest)]
    simpa using lengths
  · rintro ⟨apart, fitting⟩ whole first second
    have fits (tokens : List Token) (part : tokens ⊆ front ++ rest) := format_fitting strftime logger level event tokens
      fun token member => fitting token (part member)
    rw [fits _ (List.Subset.refl _) _ _ built, fits front (List.subset_append_left _ _) _ _ frontBuilt,
      fits rest (List.subset_append_right _ _) _ _ restBuilt]
    exact (render_joined_iff strftime logger level event "" front rest frontWellFormed).mpr apart
  · intro text last
    obtain ⟨before, rfl⟩ := List.getLast?_eq_some_iff.mp last
    have items : compile [] (before ++ [.literal text]) = compile [] before := by
      rw [compile_append]
      exact List.append_nil _
    rw [items] at frontBuilt
    have printed := format_ended strftime logger level event bufs _ before _ frontBuilt
      (fun token member => frontWellFormed token (List.mem_append_left _ member)) (List.isChain_append.mp frontBoundaries).1
      (ends_before_literal before text frontBoundaries)
    rw [printed, outputs_concat, eq_comm, String.append_eq_left_iff, Token.output, Token.item, FormatItem.format,
      String.ofList_eq_empty_iff] at whole
    exact frontWellFormed (.literal text) (by simp) whole
  · intro ended
    exact format_ended strftime logger level event bufs _ front _ frontBuilt frontWellFormed frontBoundaries ended

end Outputs

-- A record in which no directive prints its own name or a percent sign.
def sampleLogger : Logger LogFormatter := ⟨"x", .debug, [], none, none⟩

def sampleEvent : LogEvent := ⟨"x", 0, 0, 0, 0, 0, 0, .debug, "x"⟩

def sampleFormat (formatter : LogFormatter) : String :=
  formatter.format (fun _ _ => "x") (fun _ => "") sampleLogger .debug sampleEvent

-- Ninety-nine characters and a null do not fit.
def longDate (_ : String) (_ : Nat) : String := String.ofList (List.replicate 99 'x')

theorem format_append_iff_lines :
    (∀ whole first second : Nat → String,
      (LogFormatter.new "a%m b%n").format longDate whole sampleLogger .debug sampleEvent =
        (LogFormatter.new "a%m").format longDate first sampleLogger .debug sampleEvent ++
          (LogFormatter.new " b%n").format longDate second sampleLogger .debug sampleEvent) ∧
    ¬ ∀ whole first second : Nat → String,
      (LogFormatter.new "%m%d").format longDate whole sampleLogger .debug sampleEvent =
        (LogFormatter.new "%m").format longDate first sampleLogger .debug sampleEvent ++
          (LogFormatter.new "%d").format longDate second sampleLogger .debug sampleEvent := by
  have lines := (format_append_iff longDate sampleLogger .debug sampleEvent
    [.literal ['a'], .directive ['m'] none] [.literal [' ', 'b'], .directive ['n'] none]
    (by simp [Token.WellFormed]) (by simp [Token.Plain]) (by simp [Token.Follows]) (by simp [Token.Follows])
    (by intro name last; simp [printTokens, Token.print, Stops])).1.mpr
  have dated := (format_append_iff longDate sampleLogger .debug sampleEvent
    [.directive ['m'] none] [.directive ['d'] none]
    (by simp [Token.WellFormed]) (by simp [Token.Plain]) (by simp) (by simp)
    (by intro name last; simp [printTokens, Token.print, Stops])).1.mp
  refine ⟨lines ⟨.inl (by simp [EndsInDirective]), ?_⟩, fun composes => ?_⟩
  · simp [Token.item, formatItems, FormatItem.fits]
  · have fits := (dated composes).2 (.directive ['d'] none) (by simp)
    exact absurd fits (by decide)

theorem trailing_literal_dropped :
    sampleFormat (LogFormatter.new ("a" ++ "%m")) = "ax" ∧
      sampleFormat (LogFormatter.new "a") ++ sampleFormat (LogFormatter.new "%m") = "x" ∧
      sampleFormat (LogFormatter.new ("a" ++ "%m")) ≠
        sampleFormat (LogFormatter.new "a") ++ sampleFormat (LogFormatter.new "%m") := by
  decide

end Sylar.Log
