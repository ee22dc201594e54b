import Mathlib.Data.List.TakeWhile
import Sylar.Log.LogFormatter

set_option autoImplicit false

namespace Sylar.Log

-- The same scanner on the characters that are left instead of on indices: the
-- pieces it puts out and whether it met an unclosed format. Text that is still
-- pending at the end of the pattern is not put out.
def scan (nstr : List Char) (rest : List Char) : List Piece × Bool :=
  match rest with
  | [] => ([], false)
  | c :: rest =>
      if c ≠ '%' then scan (nstr ++ [c]) rest
      else if rest.head? = some '%' then scan (nstr ++ ['%']) rest
      else
        match _after : rest.dropWhile Char.isAlpha with
        | '{' :: body =>
            match _closed : body.dropWhile (· != '}') with
            | _ :: tail =>
                let later := scan [] tail
                (flush nstr ++ [⟨rest.takeWhile Char.isAlpha, body.takeWhile (· != '}'), 1⟩] ++ later.1, later.2)
            | [] =>
                let later := scan nstr rest
                ([⟨"<parse_error>".toList, [], 0⟩] ++ flush nstr ++ later.1, true)
        | tail =>
            let later := scan [] tail
            (flush nstr ++ [⟨rest.takeWhile Char.isAlpha, [], 1⟩] ++ later.1, later.2)
termination_by rest.length
decreasing_by
  · simp
  · simp
  · have shorter := (List.dropWhile_suffix (p := Char.isAlpha) (l := rest)).length_le
    have within := (List.dropWhile_suffix (p := (· != '}')) (l := body)).length_le
    simp only [_after, _closed, List.length_cons] at shorter within ⊢
    omega
  · simp
  · have shorter := (List.dropWhile_suffix (p := Char.isAlpha) (l := rest)).length_le
    simp only [_after, List.length_cons] at shorter ⊢
    omega

section Positions

variable (pattern : List Char)

theorem char_at_drop (n : Nat) (c : Char) (rest : List Char) (here : pattern.drop n = c :: rest) :
    n < pattern.length ∧ charAt pattern n = c ∧ pattern.drop (n + 1) = rest := by
  have bound : n < pattern.length := by
    apply Nat.lt_of_not_le
    intro beyond
    rw [List.drop_eq_nil_of_le beyond] at here
    cases here
  rw [List.drop_eq_getElem_cons bound] at here
  obtain ⟨value, remaining⟩ := List.cons.inj here
  exact ⟨bound, by simp [charAt, bound, value], remaining⟩

theorem drop_nil_length (n : Nat) (done : pattern.drop n = []) : pattern.length ≤ n := List.drop_eq_nil_iff.mp done

theorem substr_name (i : Nat) (name after : List Char) (here : pattern.drop (i + 1) = name ++ after) :
    substr pattern (i + 1) (i + 1 + name.length - i - 1) = name := by
  have width : i + 1 + name.length - i - 1 = name.length := by omega
  rw [substr, here, width, List.take_left]

theorem drop_advance (n : Nat) (front after : List Char) (here : pattern.drop n = front ++ after) :
    pattern.drop (n + front.length) = after := by
  rw [← List.drop_drop, here, List.drop_left]

theorem drop_length_le (n : Nat) (front after : List Char) (here : pattern.drop n = front ++ after) :
    front.length + after.length ≤ pattern.length := by
  have lengths := congrArg List.length here
  rw [List.length_drop, List.length_append] at lengths
  omega

theorem skip_fmt_closed (fuel n : Nat) (fmt tail : List Char) (here : pattern.drop n = fmt ++ '}' :: tail)
    (inside : '}' ∉ fmt) (enough : fmt.length ≤ fuel) : skipFmt pattern fuel n = n + fmt.length := by
  induction fmt generalizing n fuel with
  | nil =>
      obtain ⟨-, value, -⟩ := char_at_drop pattern n '}' tail here
      cases fuel with
      | zero => rfl
      | succ fuel => simp [skipFmt, value]
  | cons c rest ih =>
      rw [List.mem_cons, not_or] at inside
      obtain ⟨bound, value, remaining⟩ := char_at_drop pattern n c (rest ++ '}' :: tail) here
      cases fuel with
      | zero => simp at enough
      | succ fuel =>
          have next := ih fuel (n + 1) remaining inside.2 (by simpa using enough)
          rw [skipFmt, if_pos ⟨bound, by rw [value]; exact Ne.symm inside.1⟩, next, List.length_cons]
          omega

theorem skip_fmt_open (fuel n : Nat) (body : List Char) (here : pattern.drop n = body) (inside : '}' ∉ body)
    (enough : body.length ≤ fuel) (within : n ≤ pattern.length) : skipFmt pattern fuel n = pattern.length := by
  induction body generalizing n fuel with
  | nil =>
      have done := Nat.le_antisymm within (drop_nil_length pattern n here)
      subst done
      cases fuel <;> simp [skipFmt]
  | cons c rest ih =>
      rw [List.mem_cons, not_or] at inside
      obtain ⟨bound, value, remaining⟩ := char_at_drop pattern n c rest here
      cases fuel with
      | zero => simp at enough
      | succ fuel =>
          rw [skipFmt, if_pos ⟨bound, by rw [value]; exact Ne.symm inside.1⟩]
          exact ih fuel (n + 1) remaining inside.2 (by simpa using enough) bound

end Positions

section Directives

variable (pattern : List Char) (i : Nat)

theorem alpha_not_brace (c : Char) (alpha : c.isAlpha) : c ≠ '{' := by
  rintro rfl
  exact absurd alpha (by decide)

theorem directive_letter (fuel n : Nat) (c next : Char) (rest : List Char) (here : pattern.drop n = c :: next :: rest)
    (alpha : c.isAlpha) :
    directiveLoop pattern i (fuel + 1) ⟨n, 0, [], [], 0⟩ = directiveLoop pattern i fuel ⟨n + 1, 0, [], [], 0⟩ := by
  obtain ⟨bound, value, remaining⟩ := char_at_drop pattern n c (next :: rest) here
  obtain ⟨more, -, -⟩ := char_at_drop pattern (n + 1) next rest remaining
  have notBrace := alpha_not_brace c alpha
  have notEnd : n + 1 ≠ pattern.length := Nat.ne_of_lt more
  simp [directiveLoop, bound, directiveStep, value, alpha, notBrace, notEnd]

theorem directive_last_letter (fuel n : Nat) (c : Char) (here : pattern.drop n = [c]) (alpha : c.isAlpha) :
    directiveLoop pattern i (fuel + 1) ⟨n, 0, [], [], 0⟩ = ⟨n + 1, 0, pattern.drop (i + 1), [], 0⟩ := by
  obtain ⟨bound, value, remaining⟩ := char_at_drop pattern n c [] here
  have atEnd : n + 1 = pattern.length := Nat.le_antisymm bound (drop_nil_length pattern (n + 1) remaining)
  have notBrace := alpha_not_brace c alpha
  cases fuel <;> simp [directiveLoop, bound, directiveStep, value, alpha, notBrace, atEnd]

theorem directive_letters (fuel n : Nat) (letters : List Char) (c : Char) (rest : List Char)
    (here : pattern.drop n = letters ++ c :: rest) (alpha : ∀ letter ∈ letters, letter.isAlpha) :
    directiveLoop pattern i (letters.length + fuel) ⟨n, 0, [], [], 0⟩ =
      directiveLoop pattern i fuel ⟨n + letters.length, 0, [], [], 0⟩ := by
  induction letters generalizing n with
  | nil => simp
  | cons letter more ih =>
      have first := alpha letter List.mem_cons_self
      obtain ⟨-, -, remaining⟩ := char_at_drop pattern n letter (more ++ c :: rest) here
      have later := ih (n + 1) remaining fun other member => alpha other (List.mem_cons_of_mem _ member)
      have counted : (letter :: more).length + fuel = (more.length + fuel) + 1 := by
        rw [List.length_cons]
        omega
      have landed : n + (letter :: more).length = n + 1 + more.length := by
        rw [List.length_cons]
        omega
      rw [counted, landed, ← later]
      cases more with
      | nil => exact directive_letter pattern i _ n letter c rest here first
      | cons next others => exact directive_letter pattern i _ n letter next (others ++ c :: rest) here first

theorem directive_stop (fuel n : Nat) (c : Char) (rest : List Char) (here : pattern.drop n = c :: rest)
    (notAlpha : c.isAlpha = false) (notBrace : c ≠ '{') :
    directiveLoop pattern i (fuel + 1) ⟨n, 0, [], [], 0⟩ = ⟨n, 0, substr pattern (i + 1) (n - i - 1), [], 0⟩ := by
  obtain ⟨bound, value, -⟩ := char_at_drop pattern n c rest here
  simp [directiveLoop, bound, directiveStep, value, notAlpha, notBrace]

theorem directive_closed (fuel n : Nat) (fmt tail : List Char) (here : pattern.drop n = '{' :: (fmt ++ '}' :: tail))
    (inside : '}' ∉ fmt) :
    directiveLoop pattern i (fuel + 1) ⟨n, 0, [], [], 0⟩ =
      ⟨n + 1 + fmt.length + 1, 0, substr pattern (i + 1) (n - i - 1), fmt, n⟩ := by
  obtain ⟨bound, value, remaining⟩ := char_at_drop pattern n '{' (fmt ++ '}' :: tail) here
  have width := drop_length_le pattern (n + 1) fmt ('}' :: tail) remaining
  have skipped := skip_fmt_closed pattern pattern.length (n + 1) fmt tail remaining inside (by omega)
  obtain ⟨-, close, -⟩ := char_at_drop pattern (n + 1 + fmt.length) '}' tail
    (drop_advance pattern (n + 1) fmt ('}' :: tail) remaining)
  have taken : substr pattern (n + 1) (n + 1 + fmt.length - n - 1) = fmt := substr_name pattern n fmt _ remaining
  simp [directiveLoop, bound, directiveStep, value, skipped, close, taken]

theorem directive_open (fuel n : Nat) (body : List Char) (here : pattern.drop n = '{' :: body) (inside : '}' ∉ body) :
    (directiveLoop pattern i (fuel + 1) ⟨n, 0, [], [], 0⟩).fmtStatus = 1 ∧
      (directiveLoop pattern i (fuel + 1) ⟨n, 0, [], [], 0⟩).fmt = [] := by
  obtain ⟨bound, value, remaining⟩ := char_at_drop pattern n '{' body here
  have width := drop_length_le pattern (n + 1) body [] (by simpa using remaining)
  have skipped := skip_fmt_open pattern pattern.length (n + 1) body remaining inside (by simpa using width) bound
  have beyond : charAt pattern pattern.length = '\x00' := by simp [charAt]
  have past : ¬ pattern.length + 1 < pattern.length := by omega
  cases fuel <;> simp [directiveLoop, bound, directiveStep, value, skipped, beyond, past]

end Directives

-- A directive name ends before these characters: at the end of the pattern or
-- at a character that is neither a letter nor an opening brace.
def Stops (after : List Char) : Prop := ∀ c, after.head? = some c → c.isAlpha = false ∧ c ≠ '{'

section Scanning

theorem take_while_letters (name after : List Char) (alpha : ∀ c ∈ name, c.isAlpha)
    (stop : ∀ c, after.head? = some c → c.isAlpha = false) :
    (name ++ after).takeWhile Char.isAlpha = name ∧ (name ++ after).dropWhile Char.isAlpha = after := by
  have ended : after.takeWhile Char.isAlpha = [] ∧ after.dropWhile Char.isAlpha = after := by
    cases after with
    | nil => exact ⟨rfl, rfl⟩
    | cons c rest => simp [stop c rfl]
  rw [List.takeWhile_append_of_pos alpha, List.dropWhile_append_of_pos alpha, ended.1, ended.2]
  exact ⟨List.append_nil name, rfl⟩

theorem before_brace (fmt tail : List Char) (inside : '}' ∉ fmt) :
    (fmt ++ '}' :: tail).takeWhile (· != '}') = fmt ∧ (fmt ++ '}' :: tail).dropWhile (· != '}') = '}' :: tail := by
  have passed : ∀ c ∈ fmt, (c != '}') = true := by
    intro c member
    have different : c ≠ '}' := fun same => inside (same ▸ member)
    simpa using different
  rw [List.takeWhile_append_of_pos passed, List.dropWhile_append_of_pos passed]
  simp

theorem no_brace (body : List Char) (inside : '}' ∉ body) : body.dropWhile (· != '}') = [] := by
  rw [List.dropWhile_eq_nil_iff]
  intro c member
  have different : c ≠ '}' := fun same => inside (same ▸ member)
  simpa using different

theorem scan_nil (nstr : List Char) : scan nstr [] = ([], false) := by rw [scan]

theorem scan_text (nstr : List Char) (c : Char) (rest : List Char) (text : c ≠ '%') :
    scan nstr (c :: rest) = scan (nstr ++ [c]) rest := by
  rw [scan, if_pos text]

theorem scan_escape (nstr rest : List Char) : scan nstr ('%' :: '%' :: rest) = scan (nstr ++ ['%']) ('%' :: rest) := by
  rw [scan]
  simp

theorem not_escape (name after : List Char) (alpha : ∀ c ∈ name, c.isAlpha) (first : after.head? ≠ some '%') :
    (name ++ after).head? ≠ some '%' := by
  cases name with
  | nil => exact first
  | cons c rest =>
      intro same
      have letter := alpha c List.mem_cons_self
      cases same
      exact absurd letter (by decide)

theorem scan_directive (nstr name after : List Char) (alpha : ∀ c ∈ name, c.isAlpha) (stop : Stops after)
    (single : (name ++ after).head? ≠ some '%') :
    scan nstr ('%' :: (name ++ after)) =
      (flush nstr ++ [⟨name, [], 1⟩] ++ (scan [] after).1, (scan [] after).2) := by
  obtain ⟨taken, dropped⟩ := take_while_letters name after alpha fun c first => (stop c first).1
  rw [scan, if_neg (by simp), if_neg single]
  split
  · rename_i body brace
    rw [dropped] at brace
    rw [brace] at stop
    exact absurd rfl (stop '{' rfl).2
  · simp only [taken, dropped]

theorem scan_closed (nstr name fmt tail : List Char) (alpha : ∀ c ∈ name, c.isAlpha) (inside : '}' ∉ fmt) :
    scan nstr ('%' :: (name ++ '{' :: (fmt ++ '}' :: tail))) =
      (flush nstr ++ [⟨name, fmt, 1⟩] ++ (scan [] tail).1, (scan [] tail).2) := by
  obtain ⟨taken, dropped⟩ := take_while_letters name ('{' :: (fmt ++ '}' :: tail)) alpha
    (by intro c first; cases first; decide)
  have single := not_escape name ('{' :: (fmt ++ '}' :: tail)) alpha (by simp)
  obtain ⟨before, from_brace⟩ := before_brace fmt tail inside
  rw [scan, if_neg (by simp), if_neg single]
  split
  · rename_i body brace
    rw [dropped] at brace
    cases brace
    split
    · rename_i head rest closed
      rw [from_brace] at closed
      cases closed
      simp only [taken, before]
    · rename_i closed
      rw [from_brace] at closed
      cases closed
  · rename_i other
    exact absurd dropped (other _)

theorem scan_open (nstr name body : List Char) (alpha : ∀ c ∈ name, c.isAlpha) (inside : '}' ∉ body) :
    scan nstr ('%' :: (name ++ '{' :: body)) =
      ([⟨"<parse_error>".toList, [], 0⟩] ++ flush nstr ++ (scan nstr (name ++ '{' :: body)).1, true) := by
  obtain ⟨taken, dropped⟩ := take_while_letters name ('{' :: body) alpha (by intro c first; cases first; decide)
  have single := not_escape name ('{' :: body) alpha (by simp)
  rw [scan, if_neg (by simp), if_neg single]
  split
  · rename_i found brace
    rw [dropped] at brace
    cases brace
    split
    · rename_i head rest closed
      rw [no_brace body inside] at closed
      cases closed
    · rfl
  · rename_i other
    exact absurd dropped (other _)

theorem directive_shapes (rest : List Char) :
    ∃ name after, rest = name ++ after ∧ (∀ c ∈ name, c.isAlpha) ∧
      (Stops after ∨
        (∃ fmt tail, after = '{' :: (fmt ++ '}' :: tail) ∧ '}' ∉ fmt) ∨
        (∃ body, after = '{' :: body ∧ '}' ∉ body)) := by
  refine ⟨rest.takeWhile Char.isAlpha, rest.dropWhile Char.isAlpha, List.takeWhile_append_dropWhile.symm,
    fun c member => List.mem_takeWhile_imp member, ?_⟩
  cases after : rest.dropWhile Char.isAlpha with
  | nil => exact .inl (by simp [Stops])
  | cons c tail =>
      have notAlpha : c.isAlpha = false := by
        have head := List.head?_dropWhile_not Char.isAlpha rest
        simpa [after] using head
      by_cases brace : c = '{'
      · subst brace
        by_cases closed : '}' ∈ tail
        · obtain ⟨fmt, remaining, split, inside⟩ := List.eq_append_cons_of_mem closed
          exact .inr (.inl ⟨fmt, remaining, by rw [split], inside⟩)
        · exact .inr (.inr ⟨tail, rfl, closed⟩)
      · refine .inl ?_
        intro first same
        cases same
        exact ⟨notAlpha, brace⟩

end Scanning

section Refinement

variable (pattern : List Char)

theorem directive_stops (i : Nat) (name after : List Char) (here : pattern.drop (i + 1) = name ++ after)
    (alpha : ∀ c ∈ name, c.isAlpha) (stop : Stops after) :
    directiveLoop pattern i pattern.length ⟨i + 1, 0, [], [], 0⟩ = ⟨i + 1 + name.length, 0, name, [], 0⟩ := by
  cases after with
  | nil =>
      rw [List.append_nil] at here
      rcases List.eq_nil_or_concat name with empty | ⟨front, last, split⟩
      · subst empty
        have done : ¬ i + 1 < pattern.length := Nat.not_lt_of_le (drop_nil_length pattern (i + 1) here)
        cases pattern.length <;> simp [directiveLoop, done]
      · rw [List.concat_eq_append] at split
        subst split
        have width := drop_length_le pattern (i + 1) front [last] here
        rw [List.length_singleton] at width
        obtain ⟨fuel, enough⟩ : ∃ fuel, pattern.length = front.length + (fuel + 1) :=
          ⟨pattern.length - front.length - 1, by omega⟩
        have letters := directive_letters pattern i (fuel + 1) (i + 1) front last [] here
          fun c member => alpha c (List.mem_append_left _ member)
        have ended := directive_last_letter pattern i fuel (i + 1 + front.length) last
          (drop_advance pattern (i + 1) front [last] here) (alpha last (by simp))
        rw [enough, letters, ended, here, List.length_append, List.length_singleton, Nat.add_assoc]
  | cons c rest =>
      have width := drop_length_le pattern (i + 1) name (c :: rest) here
      rw [List.length_cons] at width
      obtain ⟨fuel, enough⟩ : ∃ fuel, pattern.length = name.length + (fuel + 1) :=
        ⟨pattern.length - name.length - 1, by omega⟩
      obtain ⟨notAlpha, notBrace⟩ := stop c rfl
      rw [enough, directive_letters pattern i (fuel + 1) (i + 1) name c rest here alpha,
        directive_stop pattern i fuel (i + 1 + name.length) c rest (drop_advance pattern (i + 1) name _ here)
          notAlpha notBrace,
        substr_name pattern i name (c :: rest) here]

theorem directive_formats (i : Nat) (name fmt tail : List Char)
    (here : pattern.drop (i + 1) = name ++ '{' :: (fmt ++ '}' :: tail)) (alpha : ∀ c ∈ name, c.isAlpha)
    (inside : '}' ∉ fmt) :
    directiveLoop pattern i pattern.length ⟨i + 1, 0, [], [], 0⟩ =
      ⟨i + 1 + name.length + 1 + fmt.length + 1, 0, name, fmt, i + 1 + name.length⟩ := by
  have width := drop_length_le pattern (i + 1) name _ here
  rw [List.length_cons] at width
  obtain ⟨fuel, enough⟩ : ∃ fuel, pattern.length = name.length + (fuel + 1) :=
    ⟨pattern.length - name.length - 1, by omega⟩
  rw [enough, directive_letters pattern i (fuel + 1) (i + 1) name _ _ here alpha,
    directive_closed pattern i fuel (i + 1 + name.length) fmt tail (drop_advance pattern (i + 1) name _ here) inside,
    substr_name pattern i name _ here]

theorem directive_unclosed (i : Nat) (name body : List Char) (here : pattern.drop (i + 1) = name ++ '{' :: body)
    (alpha : ∀ c ∈ name, c.isAlpha) (inside : '}' ∉ body) :
    (directiveLoop pattern i pattern.length ⟨i + 1, 0, [], [], 0⟩).fmtStatus = 1 ∧
      (directiveLoop pattern i pattern.length ⟨i + 1, 0, [], [], 0⟩).fmt = [] := by
  have width := drop_length_le pattern (i + 1) name _ here
  rw [List.length_cons] at width
  obtain ⟨fuel, enough⟩ : ∃ fuel, pattern.length = name.length + (fuel + 1) :=
    ⟨pattern.length - name.length - 1, by omega⟩
  rw [enough, directive_letters pattern i (fuel + 1) (i + 1) name _ _ here alpha]
  exact directive_open pattern i fuel (i + 1 + name.length) body (drop_advance pattern (i + 1) name _ here) inside

theorem init_step_text (i : Nat) (nstr : List Char) (vec : List Piece) (error : Bool) (c : Char) (rest : List Char)
    (here : pattern.drop i = c :: rest) (text : c ≠ '%') :
    initStep pattern ⟨i, nstr, vec, error⟩ = ⟨i + 1, nstr ++ [c], vec, error⟩ := by
  obtain ⟨-, value, -⟩ := char_at_drop pattern i c rest here
  simp [initStep, value, text]

theorem init_step_escape (i : Nat) (nstr : List Char) (vec : List Piece) (error : Bool) (rest : List Char)
    (here : pattern.drop i = '%' :: '%' :: rest) :
    initStep pattern ⟨i, nstr, vec, error⟩ = ⟨i + 1, nstr ++ ['%'], vec, error⟩ := by
  obtain ⟨-, value, remaining⟩ := char_at_drop pattern i '%' ('%' :: rest) here
  obtain ⟨more, second, -⟩ := char_at_drop pattern (i + 1) '%' rest remaining
  simp [initStep, value, more, second]

theorem init_step_directive (i : Nat) (nstr : List Char) (vec : List Piece) (error : Bool) (rest : List Char)
    (here : pattern.drop i = '%' :: rest) (single : rest.head? ≠ some '%') :
    initStep pattern ⟨i, nstr, vec, error⟩ =
      let d := directiveLoop pattern i pattern.length ⟨i + 1, 0, [], [], 0⟩
      if d.fmtStatus = 0 then ⟨d.n - 1 + 1, [], vec ++ flush nstr ++ [⟨d.str, d.fmt, 1⟩], error⟩
      else ⟨i + 1, nstr, vec ++ [⟨"<parse_error>".toList, d.fmt, 0⟩] ++ flush nstr, true⟩ := by
  obtain ⟨-, value, remaining⟩ := char_at_drop pattern i '%' rest here
  have notEscape : ¬ (i + 1 < pattern.length ∧ charAt pattern (i + 1) = '%') := by
    rintro ⟨more, second⟩
    cases rest with
    | nil => exact absurd (drop_nil_length pattern (i + 1) remaining) (Nat.not_le_of_lt more)
    | cons c tail =>
        obtain ⟨-, first, -⟩ := char_at_drop pattern (i + 1) c tail remaining
        exact single (congrArg some (first.symm.trans second))
  simp only [initStep, value, ne_eq, not_true_eq_false, if_false, if_neg notEscape]

theorem init_loop_refines (fuel i : Nat) (nstr rest : List Char) (vec : List Piece) (error : Bool)
    (here : pattern.drop i = rest) (enough : rest.length ≤ fuel) :
    (initLoop pattern fuel ⟨i, nstr, vec, error⟩).vec = vec ++ (scan nstr rest).1 ∧
      (initLoop pattern fuel ⟨i, nstr, vec, error⟩).error = (error || (scan nstr rest).2) := by
  induction fuel generalizing i nstr rest vec error with
  | zero =>
      obtain rfl := List.length_eq_zero_iff.mp (Nat.le_zero.mp enough)
      simp [initLoop, scan_nil]
  | succ fuel ih =>
      cases rest with
      | nil =>
          have done : ¬ i < pattern.length := Nat.not_lt_of_le (drop_nil_length pattern i here)
          simp [initLoop, done, scan_nil]
      | cons c rest =>
          obtain ⟨bound, -, remaining⟩ := char_at_drop pattern i c rest here
          rw [List.length_cons] at enough
          simp only [initLoop, if_pos bound]
          by_cases text : c ≠ '%'
          · rw [init_step_text pattern i nstr vec error c rest here text, scan_text nstr c rest text]
            exact ih (i + 1) _ rest _ _ remaining (by omega)
          · obtain rfl : c = '%' := not_not.mp text
            by_cases single : rest.head? ≠ some '%'
            · rw [init_step_directive pattern i nstr vec error rest here single]
              obtain ⟨name, after, rfl, alpha, shape⟩ := directive_shapes rest
              rw [List.length_append] at enough
              rcases shape with stop | ⟨fmt, tail, rfl, inside⟩ | ⟨body, rfl, inside⟩
              · rw [scan_directive nstr name after alpha stop single,
                  directive_stops pattern i name after remaining alpha stop]
                have next := ih (i + 1 + name.length) [] after (vec ++ flush nstr ++ [⟨name, [], 1⟩]) error
                  (drop_advance pattern (i + 1) name after remaining) (by omega)
                have landed : i + 1 + name.length - 1 + 1 = i + 1 + name.length := by omega
                simp only [if_true, landed]
                exact ⟨next.1.trans (by simp only [List.append_assoc]), next.2⟩
              · rw [scan_closed nstr name fmt tail alpha inside,
                  directive_formats pattern i name fmt tail remaining alpha inside]
                have behind : pattern.drop (i + 1 + name.length + 1 + fmt.length + 1) = tail := by
                  have opened := drop_advance pattern (i + 1) name _ remaining
                  obtain ⟨-, -, inner⟩ := char_at_drop pattern _ '{' _ opened
                  obtain ⟨-, -, outer⟩ := char_at_drop pattern _ '}' tail (drop_advance pattern _ fmt _ inner)
                  exact outer
                have shorter : tail.length ≤ fuel := by
                  simp only [List.length_cons, List.length_append] at enough
                  omega
                have next := ih (i + 1 + name.length + 1 + fmt.length + 1) [] tail
                  (vec ++ flush nstr ++ [⟨name, fmt, 1⟩]) error behind shorter
                have landed : i + 1 + name.length + 1 + fmt.length + 1 - 1 + 1 =
                    i + 1 + name.length + 1 + fmt.length + 1 := by omega
                simp only [if_true, landed]
                exact ⟨next.1.trans (by simp only [List.append_assoc]), next.2⟩
              · obtain ⟨status, noFmt⟩ := directive_unclosed pattern i name body remaining alpha inside
                rw [scan_open nstr name body alpha inside]
                have next := ih (i + 1) nstr (name ++ '{' :: body)
                  (vec ++ [⟨"<parse_error>".toList, [], 0⟩] ++ flush nstr) true remaining
                  (by rw [List.length_append]; omega)
                simp only [status, noFmt, Nat.one_ne_zero, if_false]
                exact ⟨next.1.trans (by simp only [List.append_assoc]), next.2.trans (by simp)⟩
            · obtain ⟨tail, rfl⟩ : ∃ tail, rest = '%' :: tail := by
                cases rest with
                | nil => simp at single
                | cons c tail => exact ⟨tail, by simpa using single⟩
              rw [init_step_escape pattern i nstr vec error tail here, scan_escape nstr tail]
              exact ih (i + 1) _ ('%' :: tail) _ _ remaining (by omega)

theorem init_refines :
    LogFormatter.init pattern =
      (((scan [] pattern).1.map pieceItem).map Prod.fst,
        (scan [] pattern).2 || ((scan [] pattern).1.map pieceItem).any Prod.snd) := by
  obtain ⟨pieces, flag⟩ := init_loop_refines pattern pattern.length 0 [] pattern [] false rfl (Nat.le_refl _)
  simp only [LogFormatter.init, pieces, flag, List.nil_append, Bool.false_or]

end Refinement

end Sylar.Log
