import Sylar.Log.PatternScan

set_option autoImplicit false

namespace Sylar.Log.Bounds

-- What C++ leaves undefined, throws or wraps in LogFormatter::init, and a loop
-- that is still running when its fuel is spent.
inductive Fault where
  | readPastEnd (index : Nat)
  | outOfRange (start : Nat)
  | underflow (left right : Nat)
  | unfinished
deriving DecidableEq, Repr

abbrev Checked := Except Fault

-- a - b on size_t.
def minus (a b : Nat) : Checked Nat := if b ≤ a then .ok (a - b) else .error (.underflow a b)

section Scanner

variable (pattern : List Char)

-- m_pattern[k], where k = size() reads the null character.
def readAt (k : Nat) : Checked Char :=
  if k ≤ pattern.length then .ok (charAt pattern k) else .error (.readPastEnd k)

def substrAt (first length : Nat) : Checked (List Char) :=
  if first ≤ pattern.length then .ok (substr pattern first length) else .error (.outOfRange first)

def substrFrom (first : Nat) : Checked (List Char) :=
  if first ≤ pattern.length then .ok (pattern.drop first) else .error (.outOfRange first)

-- substr(first, n - before - 1).
def substrBetween (first n before : Nat) : Checked (List Char) := do
  let distance ← minus n before
  let length ← minus distance 1
  substrAt pattern first length

def skipFmt : Nat → Nat → Checked Nat
  | fuel, n =>
      if n < pattern.length then do
        let c ← readAt pattern n
        if c ≠ '}' then
          match fuel with
          | 0 => .error .unfinished
          | fuel + 1 => skipFmt fuel (n + 1)
        else pure n
      else pure n

def openFmt (i : Nat) (c : Char) (d : Directive) : Checked Directive :=
  if d.fmtStatus = 0 ∧ c = '{' then do
    let str ← substrBetween pattern (i + 1) d.n i
    pure { d with str := str, fmtStatus := 1, fmtBegin := d.n, n := d.n + 1 }
  else pure d

def searchEnd (opened : Directive) : Checked Directive :=
  if opened.fmtStatus = 1 then do
    let n ← skipFmt pattern pattern.length opened.n
    pure { opened with n := n }
  else pure opened

def foundEnd (opened skipped : Directive) : Checked Bool :=
  if opened.fmtStatus = 1 then do
    let c ← readAt pattern skipped.n
    pure (c == '}')
  else pure false

def closeFmt (skipped : Directive) : Checked Directive := do
  let fmt ← substrBetween pattern (skipped.fmtBegin + 1) skipped.n skipped.fmtBegin
  pure { skipped with fmt := fmt, fmtStatus := 0, n := skipped.n + 1 }

def goOn (i : Nat) (skipped : Directive) : Checked Directive :=
  if skipped.n + 1 = pattern.length ∧ skipped.str.isEmpty = true then do
    let str ← substrFrom pattern (i + 1)
    pure { skipped with n := skipped.n + 1, str := str }
  else pure { skipped with n := skipped.n + 1 }

-- One round of the inner while loop, with its reads and substr calls checked.
def directiveStep (i : Nat) (d : Directive) : Checked (Directive × Bool) := do
  let c ← readAt pattern d.n
  if !c.isAlpha && c != '{' then
    let str ← substrBetween pattern (i + 1) d.n i
    pure ({ d with str := str }, true)
  else
    let opened ← openFmt pattern i c d
    let skipped ← searchEnd pattern opened
    let found ← foundEnd pattern opened skipped
    if found then
      let closed ← closeFmt pattern skipped
      pure (closed, true)
    else
      let next ← goOn pattern i skipped
      pure (next, false)

def directiveLoop (i : Nat) : Nat → Directive → Checked Directive
  | fuel, d =>
      if d.n < pattern.length then do
        let (next, stops) ← directiveStep pattern i d
        if stops then pure next
        else
          match fuel with
          | 0 => .error .unfinished
          | fuel + 1 => directiveLoop i fuel next
      else pure d

-- if((i+1) < m_pattern.size()) if(m_pattern[i+1] == '%').
def escaped (i : Nat) : Checked Bool :=
  if i + 1 < pattern.length then do
    let c ← readAt pattern (i + 1)
    pure (c == '%')
  else pure false

-- One round of the outer for loop. The branch for an unclosed format prints
-- m_pattern.substr(i).
def initStep (scan : Scan) : Checked Scan := do
  let i := scan.i
  let c ← readAt pattern i
  if c ≠ '%' then pure { scan with nstr := scan.nstr ++ [c], i := i + 1 }
  else
    let double ← escaped pattern i
    if double then pure { scan with nstr := scan.nstr ++ ['%'], i := i + 1 }
    else
      let d ← directiveLoop pattern i pattern.length ⟨i + 1, 0, [], [], 0⟩
      if d.fmtStatus = 0 then
        let back ← minus d.n 1
        pure { scan with nstr := [], vec := scan.vec ++ flush scan.nstr ++ [⟨d.str, d.fmt, 1⟩], i := back + 1 }
      else
        let _ ← substrFrom pattern i
        pure { scan with
          vec := scan.vec ++ [⟨"<parse_error>".toList, d.fmt, 0⟩] ++ flush scan.nstr, error := true, i := i + 1 }

def initLoop : Nat → Scan → Checked Scan
  | fuel, scan =>
      if scan.i < pattern.length then do
        let next ← initStep pattern scan
        match fuel with
        | 0 => .error .unfinished
        | fuel + 1 => initLoop fuel next
      else pure scan

end Scanner

-- LogFormatter::init with every access checked.
def init (pattern : List Char) : Checked (List FormatItem × Bool) := do
  let scan ← initLoop pattern pattern.length ⟨0, [], [], false⟩
  let built := scan.vec.map pieceItem
  pure (built.map Prod.fst, scan.error || built.any Prod.snd)

section Accesses

variable (pattern : List Char)

theorem ok_bind {α β : Type} (value : α) (next : α → Checked β) : (Except.ok value >>= next) = next value := rfl

theorem read_at_ok (k : Nat) (within : k ≤ pattern.length) : readAt pattern k = .ok (charAt pattern k) := if_pos within

theorem substr_from_ok (first : Nat) (within : first ≤ pattern.length) :
    substrFrom pattern first = .ok (pattern.drop first) := if_pos within

theorem substr_between_ok (first n before : Nat) (within : first ≤ pattern.length) (behind : before < n) :
    substrBetween pattern first n before = .ok (substr pattern first (n - before - 1)) := by
  have distance : minus n before = .ok (n - before) := if_pos (Nat.le_of_lt behind)
  have length : minus (n - before) 1 = .ok (n - before - 1) := if_pos (Nat.sub_pos_of_lt behind)
  rw [substrBetween, distance, ok_bind, length, ok_bind]
  exact if_pos within

-- The search for the closing brace stays inside the pattern and stops early
-- only at a brace.
theorem skip_fmt_ok (fuel n : Nat) (within : n ≤ pattern.length) (enough : pattern.length ≤ n + fuel) :
    skipFmt pattern fuel n = .ok (Log.skipFmt pattern fuel n) ∧ n ≤ Log.skipFmt pattern fuel n ∧
      Log.skipFmt pattern fuel n ≤ pattern.length ∧
      (Log.skipFmt pattern fuel n < pattern.length → charAt pattern (Log.skipFmt pattern fuel n) = '}') := by
  induction fuel generalizing n with
  | zero =>
      have done : ¬ n < pattern.length := Nat.not_lt_of_le enough
      rw [skipFmt, if_neg done, Log.skipFmt]
      exact ⟨rfl, Nat.le_refl _, within, fun more => absurd more done⟩
  | succ fuel ih =>
      rw [skipFmt, Log.skipFmt]
      by_cases more : n < pattern.length
      · rw [if_pos more, read_at_ok pattern n within, ok_bind]
        by_cases close : charAt pattern n = '}'
        · rw [if_neg (not_not.mpr close), if_neg (fun both => both.2 close)]
          exact ⟨rfl, Nat.le_refl _, within, fun _ => close⟩
        · rw [if_pos close, if_pos ⟨more, close⟩]
          obtain ⟨same, later, inside, found⟩ := ih (n + 1) more (by omega)
          exact ⟨same, Nat.le_of_succ_le later, inside, found⟩
      · rw [if_neg more, if_neg (fun both => more both.1)]
        exact ⟨rfl, Nat.le_refl _, within, fun still => absurd still more⟩

end Accesses

section Loops

variable (pattern : List Char) (i : Nat)

-- The inner loop is outside a format, or has run past the end in one.
structure AtHead (d : Directive) : Prop where
  after : i < d.n
  status : d.fmtStatus = 0 ∧ d.n ≤ pattern.length ∨ d.fmtStatus = 1 ∧ d.n = pattern.length + 1

-- A round is checked, is the round of the scanner, keeps the invariant, and goes
-- on unless it breaks.
structure Round (d : Directive) : Prop where
  checked : directiveStep pattern i d = .ok (Log.directiveStep pattern i d)
  head : AtHead pattern i (Log.directiveStep pattern i d).1
  later : (Log.directiveStep pattern i d).2 = false → d.n < (Log.directiveStep pattern i d).1.n

theorem stop_round (d : Directive) (after : i < d.n) (more : d.n < pattern.length) (outside : d.fmtStatus = 0)
    (notAlpha : (charAt pattern d.n).isAlpha = false) (notBrace : charAt pattern d.n ≠ '{') : Round pattern i d := by
  have name := substr_between_ok pattern (i + 1) d.n i (by omega) after
  have stops : Log.directiveStep pattern i d = ({ d with str := substr pattern (i + 1) (d.n - i - 1) }, true) := by
    simp [Log.directiveStep, notAlpha, notBrace]
  constructor
  · rw [stops, directiveStep, read_at_ok pattern d.n (Nat.le_of_lt more), ok_bind]
    simp [notAlpha, notBrace, name]
  · rw [stops]
    exact ⟨after, .inl ⟨outside, Nat.le_of_lt more⟩⟩
  · rw [stops]
    intro goes
    cases goes

-- Where n lands when a round does not break.
def wentOn (d : Directive) : Directive :=
  if d.n + 1 = pattern.length ∧ d.str.isEmpty = true then { d with n := d.n + 1, str := pattern.drop (i + 1) }
  else { d with n := d.n + 1 }

theorem went_on_next (d : Directive) :
    (wentOn pattern i d).n = d.n + 1 ∧ (wentOn pattern i d).fmtStatus = d.fmtStatus := by
  rw [wentOn]
  split <;> exact ⟨rfl, rfl⟩

theorem go_on_ok (d : Directive) (more : i < pattern.length) : goOn pattern i d = .ok (wentOn pattern i d) := by
  rw [goOn, wentOn]
  split
  · rw [substr_from_ok pattern (i + 1) more, ok_bind]
    rfl
  · rfl

theorem letter_round (d : Directive) (after : i < d.n) (more : d.n < pattern.length) (outside : d.fmtStatus = 0)
    (alpha : (charAt pattern d.n).isAlpha = true) : Round pattern i d := by
  have notBrace := alpha_not_brace _ alpha
  have goes : Log.directiveStep pattern i d = (wentOn pattern i d, false) := by
    simp only [Log.directiveStep, alpha, notBrace, outside, wentOn, Bool.not_true, Bool.false_and, Bool.false_eq_true,
      if_false, and_false, false_and, Nat.zero_ne_one]
    split <;> rfl
  obtain ⟨next, status⟩ := went_on_next pattern i d
  constructor
  · have opened : openFmt pattern i (charAt pattern d.n) d = .ok d := if_neg fun both => notBrace both.2
    have searched : searchEnd pattern d = .ok d := if_neg (by rw [outside]; decide)
    have found : foundEnd pattern d d = .ok false := if_neg (by rw [outside]; decide)
    rw [goes, directiveStep, read_at_ok pattern d.n (Nat.le_of_lt more), ok_bind]
    simp only [alpha, opened, searched, found, ok_bind, go_on_ok pattern i d (Nat.lt_trans after more), Bool.not_true,
      Bool.false_and, Bool.false_eq_true, if_false]
    rfl
  · rw [goes]
    exact ⟨by rw [next]; exact Nat.lt_succ_of_lt after, .inl ⟨status.trans outside, by rw [next]; exact more⟩⟩
  · rw [goes]
    intro _
    rw [next]
    exact Nat.lt_succ_self _

-- The directive behind its opening brace, and the place where the search for
-- the closing brace ends.
def opening (d : Directive) : Directive :=
  { d with str := substr pattern (i + 1) (d.n - i - 1), fmtStatus := 1, fmtBegin := d.n, n := d.n + 1 }

def searched (d : Directive) : Directive :=
  { opening pattern i d with n := Log.skipFmt pattern pattern.length (d.n + 1) }

def closed (d : Directive) : Directive :=
  { searched pattern i d with
    fmt := substr pattern (d.n + 1) ((searched pattern i d).n - d.n - 1)
    fmtStatus := 0
    n := (searched pattern i d).n + 1 }

theorem brace_step (d : Directive) (outside : d.fmtStatus = 0) (brace : charAt pattern d.n = '{') :
    Log.directiveStep pattern i d =
      if charAt pattern (searched pattern i d).n = '}' then (closed pattern i d, true)
      else (wentOn pattern i (searched pattern i d), false) := by
  have letter : ¬ (!(charAt pattern d.n).isAlpha && charAt pattern d.n != '{') = true := by simp [brace]
  rw [Log.directiveStep, if_neg letter]
  simp only [brace, outside, and_self, if_true, true_and]
  by_cases found : charAt pattern (searched pattern i d).n = '}'
  · rw [if_pos found]
    exact if_pos found
  · rw [if_neg found, wentOn]
    apply (if_neg found).trans
    by_cases last : (searched pattern i d).n + 1 = pattern.length ∧ (searched pattern i d).str.isEmpty = true
    · rw [if_pos last]
      exact if_pos last
    · rw [if_neg last]
      exact if_neg last

theorem brace_checked (d : Directive) (after : i < d.n) (more : d.n < pattern.length) (outside : d.fmtStatus = 0)
    (brace : charAt pattern d.n = '{') : directiveStep pattern i d = .ok (Log.directiveStep pattern i d) := by
  have letter : (!(charAt pattern d.n).isAlpha && charAt pattern d.n != '{') = false := by simp [brace]
  obtain ⟨skips, behind, inside, -⟩ := skip_fmt_ok pattern pattern.length (d.n + 1) more (by omega)
  have opens : openFmt pattern i (charAt pattern d.n) d = .ok (opening pattern i d) := by
    rw [openFmt, if_pos ⟨outside, brace⟩, substr_between_ok pattern (i + 1) d.n i (by omega) after, ok_bind]
    rfl
  have inFmt : (opening pattern i d).fmtStatus = 1 := rfl
  have searches : searchEnd pattern (opening pattern i d) = .ok (searched pattern i d) := by
    have skips : skipFmt pattern pattern.length (opening pattern i d).n = .ok (searched pattern i d).n := skips
    rw [searchEnd, if_pos inFmt, skips, ok_bind]
    rfl
  have place : (searched pattern i d).n = Log.skipFmt pattern pattern.length (d.n + 1) := rfl
  rw [← place] at behind inside
  have reads : foundEnd pattern (opening pattern i d) (searched pattern i d) =
      .ok (charAt pattern (searched pattern i d).n == '}') := by
    rw [foundEnd, if_pos inFmt, read_at_ok pattern _ inside, ok_bind]
    rfl
  have closes : closeFmt pattern (searched pattern i d) = .ok (closed pattern i d) := by
    have fmt := substr_between_ok pattern ((searched pattern i d).fmtBegin + 1) (searched pattern i d).n
      (searched pattern i d).fmtBegin more behind
    rw [closeFmt, fmt, ok_bind]
    rfl
  have goes := go_on_ok pattern i (searched pattern i d) (Nat.lt_trans after more)
  rw [brace_step pattern i d outside brace, directiveStep, read_at_ok pattern d.n (Nat.le_of_lt more), ok_bind,
    if_neg (by rw [letter]; decide), opens, ok_bind, searches, ok_bind, reads, ok_bind]
  by_cases found : charAt pattern (searched pattern i d).n = '}'
  · rw [if_pos found, if_pos (beq_iff_eq.mpr found), closes, ok_bind]
    rfl
  · rw [if_neg found, if_neg (fun same => found (beq_iff_eq.mp same)), goes, ok_bind]
    rfl

theorem brace_round (d : Directive) (after : i < d.n) (more : d.n < pattern.length) (outside : d.fmtStatus = 0)
    (brace : charAt pattern d.n = '{') : Round pattern i d := by
  obtain ⟨-, behind, inside, found⟩ := skip_fmt_ok pattern pattern.length (d.n + 1) more (by omega)
  have place : (searched pattern i d).n = Log.skipFmt pattern pattern.length (d.n + 1) := rfl
  rw [← place] at behind inside found
  have step := brace_step pattern i d outside brace
  refine ⟨brace_checked pattern i d after more outside brace, ?_, ?_⟩
  · rw [step]
    split
    · rename_i close
      have within : (searched pattern i d).n < pattern.length := by
        apply Nat.lt_of_le_of_ne inside
        intro atEnd
        rw [atEnd] at close
        simp [charAt] at close
      exact ⟨Nat.lt_succ_of_lt (by omega), .inl ⟨rfl, within⟩⟩
    · rename_i unclosed
      obtain ⟨next, status⟩ := went_on_next pattern i (searched pattern i d)
      have atEnd : (searched pattern i d).n = pattern.length :=
        Nat.le_antisymm inside (Nat.le_of_not_lt fun within => unclosed (found within))
      exact ⟨by rw [next]; omega, .inr ⟨status, by rw [next, atEnd]⟩⟩
  · rw [step]
    split
    · intro goes
      cases goes
    · intro _
      rw [(went_on_next pattern i (searched pattern i d)).1]
      omega

theorem round_ok (d : Directive) (head : AtHead pattern i d) (more : d.n < pattern.length) : Round pattern i d := by
  obtain ⟨after, status⟩ := head
  have outside : d.fmtStatus = 0 := by
    rcases status with ⟨outside, -⟩ | ⟨-, past⟩
    · exact outside
    · omega
  by_cases alpha : (charAt pattern d.n).isAlpha = true
  · exact letter_round pattern i d after more outside alpha
  · by_cases brace : charAt pattern d.n = '{'
    · exact brace_round pattern i d after more outside brace
    · exact stop_round pattern i d after more outside (Bool.eq_false_iff.mpr alpha) brace

theorem directive_loop_ok (fuel : Nat) (d : Directive) (head : AtHead pattern i d) (enough : pattern.length ≤ d.n + fuel) :
    directiveLoop pattern i fuel d = .ok (Log.directiveLoop pattern i fuel d) ∧
      AtHead pattern i (Log.directiveLoop pattern i fuel d) := by
  induction fuel generalizing d with
  | zero =>
      have done : ¬ d.n < pattern.length := Nat.not_lt_of_le enough
      rw [directiveLoop, if_neg done, Log.directiveLoop]
      exact ⟨rfl, head⟩
  | succ fuel ih =>
      rw [directiveLoop, Log.directiveLoop]
      by_cases more : d.n < pattern.length
      · obtain ⟨checked, headNext, later⟩ := round_ok pattern i d head more
        rw [if_pos more, if_pos more, checked, ok_bind]
        cases step : Log.directiveStep pattern i d with
        | mk next stops =>
            rw [step] at headNext later
            cases stops with
            | true => exact ⟨rfl, headNext⟩
            | false =>
                have moved : d.n < next.n := later rfl
                exact ih next headNext (by omega)
      · rw [if_neg more, if_neg more]
        exact ⟨rfl, head⟩

theorem escaped_ok : escaped pattern i = .ok (decide (i + 1 < pattern.length ∧ charAt pattern (i + 1) = '%')) := by
  rw [escaped]
  by_cases more : i + 1 < pattern.length
  · rw [if_pos more, read_at_ok pattern (i + 1) (Nat.le_of_lt more), ok_bind]
    apply congrArg Except.ok
    rw [Bool.eq_iff_iff, beq_iff_eq, decide_eq_true_iff, and_iff_right more]
  · rw [if_neg more]
    apply congrArg Except.ok
    rw [eq_comm, decide_eq_false_iff_not]
    exact fun both => more both.1

end Loops

section Scans

variable (pattern : List Char)

theorem init_step_ok (scan : Scan) (more : scan.i < pattern.length) :
    initStep pattern scan = .ok (Log.initStep pattern scan) ∧ scan.i < (Log.initStep pattern scan).i := by
  have head : AtHead pattern scan.i ⟨scan.i + 1, 0, [], [], 0⟩ := ⟨Nat.lt_succ_self _, .inl ⟨rfl, more⟩⟩
  obtain ⟨loops, landed⟩ := directive_loop_ok pattern scan.i pattern.length _ head (by simp)
  simp only [initStep, Log.initStep, read_at_ok pattern scan.i (Nat.le_of_lt more), ok_bind, escaped_ok]
  split
  · exact ⟨rfl, Nat.lt_succ_self _⟩
  · by_cases double : scan.i + 1 < pattern.length ∧ charAt pattern (scan.i + 1) = '%'
    · rw [if_pos (decide_eq_true double), if_pos double]
      exact ⟨rfl, Nat.lt_succ_self _⟩
    · rw [if_neg (fun same => double (of_decide_eq_true same)), if_neg double, loops, ok_bind]
      split
      · have back : minus (Log.directiveLoop pattern scan.i pattern.length ⟨scan.i + 1, 0, [], [], 0⟩).n 1 = .ok _ :=
          if_pos (Nat.succ_le_of_lt (Nat.zero_lt_of_lt landed.after))
        rw [back, ok_bind]
        have after := landed.after
        exact ⟨rfl, by simp only; omega⟩
      · rw [substr_from_ok pattern scan.i (Nat.le_of_lt more), ok_bind]
        exact ⟨rfl, Nat.lt_succ_self _⟩

theorem init_loop_ok (fuel : Nat) (scan : Scan) (enough : pattern.length ≤ scan.i + fuel) :
    initLoop pattern fuel scan = .ok (Log.initLoop pattern fuel scan) := by
  induction fuel generalizing scan with
  | zero =>
      have done : ¬ scan.i < pattern.length := Nat.not_lt_of_le enough
      rw [initLoop, if_neg done, Log.initLoop]
      rfl
  | succ fuel ih =>
      rw [initLoop, Log.initLoop]
      by_cases more : scan.i < pattern.length
      · obtain ⟨checked, later⟩ := init_step_ok pattern scan more
        rw [if_pos more, if_pos more, checked, ok_bind]
        exact ih (Log.initStep pattern scan) (by omega)
      · rw [if_neg more, if_neg more]
        rfl

end Scans

theorem flush_length (nstr : List Char) : (flush nstr).length ≤ 1 := by
  rw [flush]
  split
  · exact Nat.zero_le _
  · exact Nat.le_refl _

theorem round_pieces (nstr : List Char) (piece : Piece) :
    (flush nstr ++ [piece]).length ≤ 2 ∧ ([piece] ++ flush nstr).length ≤ 2 := by
  have pending := flush_length nstr
  rw [List.length_append, List.length_append, List.length_singleton]
  omega

-- One round at a percent sign puts out two pieces at most and goes on behind it.
theorem round_length (later rest : List Char) (front pieces : List Piece) (two : front.length ≤ 2)
    (behind : List.Sublist later rest) (bound : pieces.length ≤ 2 * later.count '%') :
    (front ++ pieces).length ≤ 2 * ('%' :: rest).count '%' := by
  have counted := behind.count_le '%'
  rw [List.count_cons_self, List.length_append]
  omega

theorem scan_length (nstr rest : List Char) : (scan nstr rest).1.length ≤ 2 * rest.count '%' := by
  fun_induction scan nstr rest with
  | case1 nstr => exact Nat.zero_le _
  | case2 nstr c rest text ih => exact Nat.le_trans ih (Nat.mul_le_mul_left 2 List.count_le_count_cons)
  | case3 nstr c rest _ double ih => exact Nat.le_trans ih (Nat.mul_le_mul_left 2 List.count_le_count_cons)
  | case4 nstr c rest sign _ body after head tail ends _ ih =>
      obtain rfl : c = '%' := not_not.mp sign
      have inBody := List.dropWhile_sublist (l := body) (· != '}')
      have inRest := List.dropWhile_sublist (l := rest) Char.isAlpha
      rw [ends] at inBody
      rw [after] at inRest
      have behind : List.Sublist tail rest :=
        ((List.sublist_cons_self head tail).trans inBody).trans ((List.sublist_cons_self '{' body).trans inRest)
      exact round_length tail rest _ _ (round_pieces nstr _).1 behind ih
  | case5 nstr c rest sign _ body _ _ _ ih =>
      obtain rfl : c = '%' := not_not.mp sign
      exact round_length rest rest _ _ (round_pieces nstr _).2 (List.Sublist.refl rest) ih
  | case6 nstr c rest sign _ _ _ ih =>
      obtain rfl : c = '%' := not_not.mp sign
      exact round_length _ rest _ _ (round_pieces nstr _).1 (List.dropWhile_sublist (l := rest) Char.isAlpha) ih

theorem init_in_bounds (pattern : List Char) :
    init pattern = .ok (LogFormatter.init pattern) ∧ (LogFormatter.init pattern).1.length ≤ 2 * pattern.count '%' := by
  constructor
  · rw [init, init_loop_ok pattern pattern.length ⟨0, [], [], false⟩ (by simp), ok_bind]
    rfl
  · rw [init_refines, List.length_map, List.length_map]
    exact scan_length [] pattern

end Sylar.Log.Bounds
