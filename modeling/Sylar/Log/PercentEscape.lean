import Sylar.Log.PatternTokens

set_option autoImplicit false

namespace Sylar.Log

def escape (text : List Char) : List Char := text.flatMap fun c => if c = '%' then ['%', '%'] else [c]

def Token.escaped : Token → Token
  | .literal text => .literal (escape text)
  | .directive name fmt => .directive name fmt

section Escaping

theorem escape_append (front rest : List Char) : escape (front ++ rest) = escape front ++ escape rest :=
  List.flatMap_append

theorem escape_plain (text : List Char) (plain : '%' ∉ text) : escape text = text := by
  induction text with
  | nil => rfl
  | cons c more ih =>
      rw [List.mem_cons, not_or] at plain
      have rest : escape (c :: more) = [c] ++ escape more := by
        rw [escape, List.flatMap_cons, if_neg (Ne.symm plain.1)]
        rfl
      rw [rest, ih plain.2]
      rfl

theorem escape_percents (count : Nat) :
    escape (List.replicate count '%') = List.replicate (count + count) '%' := by
  induction count with
  | zero => rfl
  | succ count ih =>
      have split : escape (List.replicate (count + 1) '%') = '%' :: '%' :: escape (List.replicate count '%') := rfl
      have counted : count + 1 + (count + 1) = count + count + 1 + 1 := by omega
      rw [split, ih, counted]
      rfl

theorem escape_head (text rest : List Char) (nonempty : text ≠ []) : (escape text ++ rest).head? = text.head? := by
  cases text with
  | nil => exact absurd rfl nonempty
  | cons c more =>
      by_cases percent : c = '%'
      · subst percent
        rfl
      · have split : escape (c :: more) = c :: escape more := by
          rw [escape, List.flatMap_cons, if_neg percent]
          rfl
        rw [split]
        rfl

theorem escaped_plain (tokens : List Token) (plain : ∀ token ∈ tokens, token.Plain) :
    tokens.map Token.escaped = tokens := by
  have same : ∀ token ∈ tokens, token.escaped = token := by
    intro token member
    cases token with
    | literal text => exact congrArg Token.literal (escape_plain text (plain _ member))
    | directive name fmt => rfl
  rw [List.map_congr_left same, List.map_id']

theorem first_percent (tokens : List Token) (found : ¬ ∀ token ∈ tokens, token.Plain) :
    ∃ front text rest, tokens = front ++ .literal text :: rest ∧ (∀ token ∈ front, token.Plain) ∧ '%' ∈ text := by
  induction tokens with
  | nil => simp at found
  | cons token more ih =>
      by_cases plain : token.Plain
      · have later : ¬ ∀ other ∈ more, other.Plain := by
          intro all
          exact found (by simpa [plain] using all)
        obtain ⟨front, text, rest, split, clean, percent⟩ := ih later
        refine ⟨token :: front, text, rest, by rw [split, List.cons_append], ?_, percent⟩
        simpa [plain] using clean
      · cases token with
        | literal text => exact ⟨[], text, more, rfl, by simp, by simpa [Token.Plain] using plain⟩
        | directive name fmt => exact absurd trivial plain

theorem percent_run (text : List Char) :
    ∃ count rest, text = List.replicate count '%' ++ rest ∧ rest.head? ≠ some '%' := by
  induction text with
  | nil => exact ⟨0, [], rfl, by simp⟩
  | cons c more ih =>
      by_cases percent : c = '%'
      · obtain ⟨count, rest, split, stop⟩ := ih
        exact ⟨count + 1, rest, by rw [split, percent]; rfl, stop⟩
      · exact ⟨0, c :: more, rfl, by simpa using percent⟩

-- Every sign of a run but the last counts as text: the second sign of an
-- escape is looked at again.
theorem scan_percents (nstr rest : List Char) (count : Nat) :
    scan nstr (List.replicate (count + 1) '%' ++ rest) = scan (nstr ++ List.replicate count '%') ('%' :: rest) := by
  induction count generalizing nstr with
  | zero => rw [List.replicate_zero, List.append_nil]; rfl
  | succ count ih =>
      have next := ih (nstr ++ ['%'])
      rw [List.append_assoc] at next
      exact (scan_escape nstr (List.replicate count '%' ++ rest)).trans next

theorem scan_single (nstr rest : List Char) (single : rest.head? ≠ some '%') :
    (scan nstr ('%' :: rest)).2 = true ∨
      ∃ name fmt after later, rest = name ++ after ∧
        (scan nstr ('%' :: rest)).1 = flush nstr ++ [⟨name, fmt, 1⟩] ++ later := by
  obtain ⟨name, after, rfl, alpha, stop | ⟨fmt, tail, rfl, inside⟩ | ⟨body, rfl, inside⟩⟩ := directive_shapes rest
  · exact .inr ⟨name, [], after, (scan [] after).1, rfl, by rw [scan_directive nstr name after alpha stop single]⟩
  · exact .inr ⟨name, fmt, _, (scan [] tail).1, rfl, by rw [scan_closed nstr name fmt tail alpha inside]⟩
  · exact .inl (by rw [scan_open nstr name body alpha inside])

end Escaping

section Mismatch

def sampleOutput (item : FormatItem) : List Char := (item.format (fun _ _ => "x") "" sampleLogger .debug sampleEvent).toList

def sampleText (pieces : List Piece) : List Char :=
  (renderPieces (fun _ _ => "x") sampleLogger .debug sampleEvent "" pieces).toList

theorem sample_text_append (front rest : List Piece) : sampleText (front ++ rest) = sampleText front ++ sampleText rest := by
  simp only [sampleText, render_pieces_append, String.toList_append]

theorem sample_text_flush (nstr : List Char) : sampleText (flush nstr) = nstr := by
  rw [sampleText, render_flush, String.toList_ofList]

theorem sample_text_piece (piece : Piece) : sampleText [piece] = sampleOutput (pieceItem piece).1 := by
  simp [sampleText, renderPieces, sampleOutput]

theorem known_constant (name : List Char) (create : String → FormatItem) (known : formatItems name = some create)
    (fmt : String) : sampleOutput (create fmt) = sampleOutput (create "") := by
  unfold formatItems at known
  split at known <;> cases known <;> rfl

theorem known_first (name : List Char) (create : String → FormatItem) (known : formatItems name = some create)
    (fmt : String) : ∃ letter first more, name = [letter] ∧ sampleOutput (create fmt) = first :: more ∧
      first ≠ letter ∧ first ≠ '%' := by
  have closed : ∃ letter, name = [letter] ∧ (sampleOutput (create "")).head? ∉ [none, some letter, some '%'] := by
    unfold formatItems at known
    split at known <;> cases known <;> exact ⟨_, rfl, by decide⟩
  obtain ⟨letter, single, head⟩ := closed
  rw [known_constant name create known fmt]
  cases printed : sampleOutput (create "") with
  | nil => simp [printed] at head
  | cons first more =>
      rw [printed] at head
      simp only [List.head?_cons, List.mem_cons, List.not_mem_nil, Option.some.injEq, not_or] at head
      exact ⟨letter, first, more, single, rfl, head.2.1, head.2.2.1⟩

theorem directive_first (name : List Char) (fmt : Option (List Char)) :
    ∃ first more, sampleOutput (Token.directive name fmt).item = first :: more ∧ first ≠ '%' := by
  cases known : formatItems name with
  | none =>
      have item : (Token.directive name fmt).item = .string ("<<error_format %" ++ String.ofList name ++ ">>") := by
        simp only [Token.item, known]
      rw [item]
      refine ⟨'<', "<error_format %".toList ++ (name ++ ">>".toList), ?_, by decide⟩
      simp [sampleOutput, FormatItem.format]
  | some create =>
      obtain ⟨letter, first, more, -, printed, -, notPercent⟩ := known_first name create known (String.ofList (fmt.getD []))
      refine ⟨first, more, ?_, notPercent⟩
      simpa only [Token.item, known] using printed

theorem differ_after (common front rest : List Char) (heads : front.head? ≠ rest.head?) : common ++ front ≠ common ++ rest := by
  intro same
  exact heads (congrArg List.head? (List.append_cancel_left same))

theorem percents_head (count : Nat) (rest : List Char) (first : rest.head? = some '%') :
    (List.replicate count '%' ++ rest).head? = some '%' := by
  cases count with
  | zero => exact first
  | succ count => rfl

-- The scanner goes wrong at the first literal with a percent sign, on each of
-- the ways a run of signs can go on.
theorem percent_mismatch (nstr text printed expected : List Char) (percent : '%' ∈ text)
    (next : ∃ first more, expected = first :: more ∧ first ≠ '%')
    (directive : ∃ rest, printed = '%' :: rest ∧ rest.head? ≠ some '%') :
    (scan nstr (escape text ++ printed)).2 = true ∨
      (∃ piece ∈ (scan nstr (escape text ++ printed)).1, (pieceItem piece).2 = true) ∨
      sampleText (scan nstr (escape text ++ printed)).1 ≠ nstr ++ (text ++ expected) := by
  obtain ⟨front, behind, rfl, plain⟩ := List.eq_append_cons_of_mem percent
  obtain ⟨count, tail, rfl, stop⟩ := percent_run behind
  have run : '%' :: (List.replicate count '%' ++ tail) = List.replicate (count + 1) '%' ++ tail := rfl
  have scanned : scan nstr (escape (front ++ '%' :: (List.replicate count '%' ++ tail)) ++ printed) =
      scan (nstr ++ front ++ List.replicate (count + 1) '%' ++ List.replicate count '%') ('%' :: (escape tail ++ printed)) := by
    have counted : count + 1 + (count + 1) = (count + 1 + count) + 1 := by omega
    rw [run, escape_append, escape_append, escape_plain front plain, escape_percents, counted, List.append_assoc,
      List.append_assoc, scan_plain nstr front _ plain, scan_percents, List.replicate_add, List.append_assoc (nstr ++ front)]
  have wanted : nstr ++ (front ++ '%' :: (List.replicate count '%' ++ tail) ++ expected) =
      nstr ++ front ++ List.replicate (count + 1) '%' ++ (tail ++ expected) := by
    rw [run]
    simp only [List.append_assoc]
  rw [scanned, wanted]
  generalize nstr ++ front ++ List.replicate (count + 1) '%' = common
  cases tail with
  | nil =>
      obtain ⟨rest, rfl, single⟩ := directive
      obtain ⟨first, more, rfl, notPercent⟩ := next
      have escaped : escape [] ++ '%' :: rest = '%' :: rest := rfl
      rw [escaped, scan_escape]
      rcases scan_single (common ++ List.replicate count '%' ++ ['%']) rest single with
        notClosed | ⟨name, fmt, after, later, -, pieces⟩
      · exact .inl notClosed
      · refine .inr (.inr ?_)
        rw [pieces, sample_text_append, sample_text_append, sample_text_flush, List.append_assoc, List.append_assoc,
          List.append_assoc]
        apply differ_after common _ _
        rw [percents_head count _ rfl]
        exact fun same => notPercent (Option.some.inj same).symm
  | cons c tail =>
      have notPercent : c ≠ '%' := by simpa using stop
      have escaped : (escape (c :: tail) ++ printed).head? = some c := escape_head (c :: tail) printed (by simp)
      rcases scan_single (common ++ List.replicate count '%') (escape (c :: tail) ++ printed)
        (by rw [escaped]; simpa using notPercent) with notClosed | ⟨name, fmt, after, later, split, pieces⟩
      · exact .inl notClosed
      · rw [pieces]
        cases known : formatItems name with
        | none =>
            refine .inr (.inl ⟨⟨name, fmt, 1⟩, by simp, ?_⟩)
            simp [pieceItem, known]
        | some create =>
            obtain ⟨letter, first, more, rfl, prints, notLetter, -⟩ := known_first name create known (String.ofList fmt)
            obtain rfl : c = letter := by
              rw [split] at escaped
              exact (Option.some.inj escaped).symm
            have item : (pieceItem ⟨[c], fmt, 1⟩).1 = create (String.ofList fmt) := by
              simp [pieceItem, known]
            refine .inr (.inr ?_)
            rw [sample_text_append, sample_text_append, sample_text_flush, sample_text_piece, item, prints,
              List.append_assoc, List.append_assoc]
            apply differ_after common _ _
            cases count with
            | zero => exact fun same => notLetter (Option.some.inj same)
            | succ count => exact fun same => notPercent (Option.some.inj same).symm

theorem print_directive (name : List Char) (fmt : Option (List Char)) (rest : List Token)
    (wellFormed : (Token.directive name fmt).WellFormed) :
    ∃ after, printTokens (.directive name fmt :: rest) = '%' :: after ∧ after.head? ≠ some '%' := by
  obtain ⟨nonempty, alpha, -⟩ := wellFormed
  obtain ⟨c, more, rfl⟩ := List.exists_cons_of_ne_nil nonempty
  have letter := alpha c List.mem_cons_self
  have notPercent : some c ≠ some '%' := by
    intro same
    rw [Option.some.inj same] at letter
    exact absurd letter (by decide)
  cases fmt with
  | none => exact ⟨_, rfl, notPercent⟩
  | some body => exact ⟨_, rfl, notPercent⟩

theorem outputs_directive (name : List Char) (fmt : Option (List Char)) (rest : List Token) :
    ∃ first more, (outputs (fun _ _ => "x") sampleLogger .debug sampleEvent (fun _ => "") (.directive name fmt :: rest)).toList =
      first :: more ∧ first ≠ '%' := by
  obtain ⟨first, more, printed, notPercent⟩ := directive_first name fmt
  refine ⟨first, more ++ (outputs (fun _ _ => "x") sampleLogger .debug sampleEvent (fun _ => "") rest).toList, ?_, notPercent⟩
  rw [outputs_const, outputs_const, List.map_cons, String.join_cons, String.toList_append]
  exact congrArg (· ++ _) printed

theorem meets_literal (front rest : List Token) (text behind : List Char) (nonempty : text ≠ [])
    (boundaries : (front ++ .literal text :: rest).IsChain Token.Follows) : Meets front (escape text ++ behind) := by
  intro name last c first
  rw [escape_head text behind nonempty] at first
  exact (List.isChain_append.mp boundaries).2.2 _ last _ rfl c first

theorem directive_behind (front rest : List Token) (text : List Char)
    (boundaries : (front ++ .literal text :: rest).IsChain Token.Follows)
    (ended : EndsInDirective (front ++ .literal text :: rest)) :
    ∃ name fmt more, rest = .directive name fmt :: more := by
  cases rest with
  | nil => exact absurd (by simp) (ended text)
  | cons second more =>
      cases second with
      | literal other =>
          have chain := (List.isChain_append.mp boundaries).2.1
          exact absurd (List.isChain_cons_cons.mp chain).1 id
      | directive name fmt => exact ⟨name, fmt, more, rfl⟩

theorem percent_fails (tokens : List Token) (wellFormed : ∀ token ∈ tokens, token.WellFormed)
    (boundaries : tokens.IsChain Token.Follows) (ended : EndsInDirective tokens)
    (percent : ¬ ∀ token ∈ tokens, token.Plain) :
    (LogFormatter.new (String.ofList (printTokens (tokens.map Token.escaped)))).isError = true ∨
      sampleFormat (LogFormatter.new (String.ofList (printTokens (tokens.map Token.escaped)))) ≠
        outputs (fun _ _ => "x") sampleLogger .debug sampleEvent (fun _ => "") tokens := by
  obtain ⟨front, text, rest, rfl, plain, inText⟩ := first_percent tokens percent
  obtain ⟨name, fmt, more, rfl⟩ := directive_behind front rest text boundaries ended
  have frontWellFormed := fun token member => wellFormed token (List.mem_append_left _ member)
  have nonempty : text ≠ [] := wellFormed (.literal text) (by simp)
  have next : (Token.directive name fmt).WellFormed := wellFormed _ (by simp)
  have mismatch := percent_mismatch (pending [] front) text _ _ inText (outputs_directive name fmt more)
    (print_directive name fmt (more.map Token.escaped) next)
  have meets := meets_literal front (.directive name fmt :: more) text
    (printTokens (.directive name fmt :: more.map Token.escaped)) nonempty boundaries
  have scanned := scan_tokens [] front _ frontWellFormed plain (List.isChain_append.mp boundaries).1 meets
  have printed : printTokens ((front ++ .literal text :: .directive name fmt :: more).map Token.escaped) =
      printTokens front ++ (escape text ++ printTokens (.directive name fmt :: more.map Token.escaped)) := by
    rw [List.map_append, escaped_plain front plain, printTokens, List.flatMap_append]
    rfl
  have built := init_refines (printTokens ((front ++ .literal text :: .directive name fmt :: more).map Token.escaped))
  rw [printed, scanned] at built
  rw [printed]
  generalize scan (pending [] front) (escape text ++ _) = result at mismatch built
  rcases mismatch with notClosed | unknown | different
  · left
    simp [LogFormatter.isError, LogFormatter.new, built, notClosed]
  · left
    simp [LogFormatter.isError, LogFormatter.new, built, unknown]
  · right
    rw [sampleFormat, format_new _ _ _ _ "" _ _ _ built, render_pieces_append]
    have total := render_compile (fun _ _ => "x") sampleLogger .debug sampleEvent "" [] front
    rw [String.ofList_nil, String.empty_append] at total
    have split : outputs (fun _ _ => "x") sampleLogger .debug sampleEvent (fun _ => "")
        (front ++ .literal text :: .directive name fmt :: more) =
          outputs (fun _ _ => "x") sampleLogger .debug sampleEvent (fun _ => "") front ++ (String.ofList text ++
            outputs (fun _ _ => "x") sampleLogger .debug sampleEvent (fun _ => "") (.directive name fmt :: more)) := by
      rw [outputs_const, outputs_const, outputs_const, List.map_append, String.join_append, List.map_cons, String.join_cons]
      rfl
    rw [split, ← total, String.append_assoc, Ne, String.append_right_inj, ← String.toList_inj]
    simpa only [sampleText, ne_eq, String.toList_append, String.toList_ofList] using different

theorem escaped_percent_iff (tokens : List Token) (wellFormed : ∀ token ∈ tokens, token.WellFormed)
    (boundaries : tokens.IsChain Token.Follows) (ended : EndsInDirective tokens) :
    ((LogFormatter.new (String.ofList (printTokens (tokens.map Token.escaped)))).isError = false ∧
        ∀ (strftime : String → Nat → String) (bufs : Nat → String) (logger : Logger LogFormatter) (level : Level)
          (event : LogEvent),
          (LogFormatter.new (String.ofList (printTokens (tokens.map Token.escaped)))).format strftime bufs logger level event =
            outputs strftime logger level event bufs tokens) ↔
      (∀ token ∈ tokens, token.Plain) ∧ ∀ token ∈ tokens, token.Known := by
  by_cases plain : ∀ token ∈ tokens, token.Plain
  · have built := init_print tokens wellFormed plain boundaries
    have known := compile_errors [] tokens
    rw [escaped_plain tokens plain]
    refine ⟨?_, ?_⟩
    · rintro ⟨quiet, -⟩
      simp only [LogFormatter.new, LogFormatter.isError, String.toList_ofList, built] at quiet
      rw [quiet] at known
      refine ⟨plain, ?_⟩
      simpa using known
    · rintro ⟨-, allKnown⟩
      refine ⟨?_, ?_⟩
      · simp only [LogFormatter.new, LogFormatter.isError, String.toList_ofList, built]
        rw [← Bool.not_eq_true, known]
        simpa using allKnown
      · intro strftime bufs logger level event
        exact format_ended strftime logger level event bufs _ tokens _ built wellFormed boundaries ended
  · refine iff_of_false ?_ (fun both => plain both.1)
    rintro ⟨quiet, prints⟩
    rcases percent_fails tokens wellFormed boundaries ended plain with error | different
    · rw [quiet] at error
      cases error
    · exact different (prints (fun _ _ => "x") (fun _ => "") sampleLogger .debug sampleEvent)

theorem escaped_percent_iff_text :
    (LogFormatter.new "load: %m%n").isError = false ∧
      ∀ (strftime : String → Nat → String) (bufs : Nat → String) (logger : Logger LogFormatter) (level : Level)
        (event : LogEvent),
          (LogFormatter.new "load: %m%n").format strftime bufs logger level event = "load: " ++ event.content ++ "\n" := by
  have settled := (escaped_percent_iff [.literal "load: ".toList, .directive ['m'] none, .directive ['n'] none]
    (by simp [Token.WellFormed]) (by simp [Token.Follows]) (by simp [EndsInDirective])).mpr
    ⟨by simp [Token.Plain], by simp [Token.Known, formatItems]⟩
  refine ⟨settled.1, fun strftime bufs logger level event => (settled.2 strftime bufs logger level event).trans ?_⟩
  simp [outputs, Token.output, Token.item, formatItems, FormatItem.format, String.join_cons, String.append_assoc]

theorem percent_escape_lost :
    printTokens ([.literal "100% done ".toList, .directive ['m'] none].map Token.escaped) = "100%% done %m".toList ∧
      (LogFormatter.new "100%% done %m").isError = true ∧
      (LogFormatter.new "100%% done %m").items = [.string "100%", .string "<<error_format %>>", .string " done ", .message] ∧
      sampleFormat (LogFormatter.new "%%%m") = "%%x" ∧
      outputs (fun _ _ => "x") sampleLogger .debug sampleEvent (fun _ => "") [.literal ['%'], .directive ['m'] none] = "%x" := by
  decide

end Mismatch

end Sylar.Log
