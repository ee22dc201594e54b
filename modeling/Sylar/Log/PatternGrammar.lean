import Mathlib.Data.List.Chain
import Sylar.Log.PatternScan

set_option autoImplicit false

namespace Sylar.Log

-- What a reader meets in a pattern from left to right, in words of its own: a
-- '%' takes the longest run of letters with it and, if a '{' follows, everything
-- up to the first '}'. Where there is no such '}', only the '%' is consumed.
inductive Segment where
  | text (c : Char)
  | directive (name : List Char) (fmt : Option (List Char))
  | unclosed
deriving DecidableEq, Repr

def segments (pattern : List Char) : List Segment :=
  match pattern with
  | [] => []
  | c :: rest =>
      if c ≠ '%' then .text c :: segments rest
      else
        match _after : rest.dropWhile Char.isAlpha with
        | '{' :: body =>
            match _closed : body.dropWhile (· != '}') with
            | _ :: tail => .directive (rest.takeWhile Char.isAlpha) (some (body.takeWhile (· != '}'))) :: segments tail
            | [] => .unclosed :: segments rest
        | tail => .directive (rest.takeWhile Char.isAlpha) none :: segments tail
termination_by pattern.length
decreasing_by
  · simp
  · have shorter := (List.dropWhile_suffix (p := Char.isAlpha) (l := rest)).length_le
    have within := (List.dropWhile_suffix (p := (· != '}')) (l := body)).length_le
    simp only [_after, _closed, List.length_cons] at shorter within ⊢
    omega
  · simp
  · have shorter := (List.dropWhile_suffix (p := Char.isAlpha) (l := rest)).length_le
    simp only [_after, List.length_cons] at shorter ⊢
    omega

def SinglePercents (pattern : List Char) : Prop := ¬ ['%', '%'] <:+: pattern

instance decidableSinglePercents (pattern : List Char) : Decidable (SinglePercents pattern) :=
  inferInstanceAs (Decidable (¬ ['%', '%'] <:+: pattern))

def knownNames : List (List Char) :=
  [['m'], ['p'], ['r'], ['c'], ['t'], ['n'], ['d'], ['l'], ['F'], ['T'], ['f']]

namespace Segment

def Proper : Segment → Prop
  | .text _ => True
  | .directive name _ => name ∈ knownNames
  | .unclosed => False

def IsText : Segment → Prop
  | .text _ => True
  | _ => False

-- How many characters of the pattern the segment consumes.
def width : Segment → Nat
  | .text _ => 1
  | .directive name none => 1 + name.length
  | .directive name (some fmt) => 1 + name.length + 1 + fmt.length + 1
  | .unclosed => 1

end Segment

def Accepted (pattern : List Char) : Prop := ∀ segment ∈ segments pattern, segment.Proper

section Segments

theorem segments_nil : segments [] = [] := by rw [segments]

theorem segments_text (c : Char) (rest : List Char) (text : c ≠ '%') : segments (c :: rest) = .text c :: segments rest := by
  rw [segments, if_pos text]

theorem segments_directive (name after : List Char) (alpha : ∀ c ∈ name, c.isAlpha) (stop : Stops after) :
    segments ('%' :: (name ++ after)) = .directive name none :: segments after := by
  obtain ⟨taken, dropped⟩ := take_while_letters name after alpha fun c first => (stop c first).1
  rw [segments, if_neg (by simp)]
  split
  · rename_i body brace
    rw [dropped] at brace
    rw [brace] at stop
    exact absurd rfl (stop '{' rfl).2
  · simp only [taken, dropped]

theorem segments_closed (name fmt tail : List Char) (alpha : ∀ c ∈ name, c.isAlpha) (inside : '}' ∉ fmt) :
    segments ('%' :: (name ++ '{' :: (fmt ++ '}' :: tail))) = .directive name (some fmt) :: segments tail := by
  obtain ⟨taken, dropped⟩ := take_while_letters name ('{' :: (fmt ++ '}' :: tail)) alpha
    (by intro c first; cases first; decide)
  obtain ⟨before, from_brace⟩ := before_brace fmt tail inside
  rw [segments, if_neg (by simp)]
  split
  · rename_i body brace
    rw [dropped] at brace
    cases brace
    split
    · rename_i head rest closed
      rw [from_brace] at closed
      cases closed
      simp only [taken, before]
    · rename_i closed
      rw [from_brace] at closed
      cases closed
  · rename_i other
    exact absurd dropped (other _)

theorem segments_open (name body : List Char) (alpha : ∀ c ∈ name, c.isAlpha) (inside : '}' ∉ body) :
    segments ('%' :: (name ++ '{' :: body)) = .unclosed :: segments (name ++ '{' :: body) := by
  obtain ⟨-, dropped⟩ := take_while_letters name ('{' :: body) alpha (by intro c first; cases first; decide)
  rw [segments, if_neg (by simp)]
  split
  · rename_i found brace
    rw [dropped] at brace
    cases brace
    split
    · rename_i head rest closed
      rw [no_brace body inside] at closed
      cases closed
    · rfl
  · rename_i other
    exact absurd dropped (other _)

theorem format_items_known (name : List Char) : (formatItems name).isSome ↔ name ∈ knownNames := by
  unfold formatItems
  split <;> simp_all [knownNames]

-- A pattern without "%%", by the four ways in which it can start.
theorem single_percents_induction {motive : ∀ pattern, SinglePercents pattern → Prop} (nil : ∀ single, motive [] single)
    (text : ∀ c rest single inner, c ≠ '%' → motive rest inner → motive (c :: rest) single)
    (directive : ∀ name after single inner, (∀ c ∈ name, c.isAlpha) → Stops after → (name ++ after).head? ≠ some '%' →
      motive after inner → motive ('%' :: (name ++ after)) single)
    (closed : ∀ name fmt tail single inner, (∀ c ∈ name, c.isAlpha) → '}' ∉ fmt → motive tail inner →
      motive ('%' :: (name ++ '{' :: (fmt ++ '}' :: tail))) single)
    (opened : ∀ name body single inner, (∀ c ∈ name, c.isAlpha) → '}' ∉ body → motive (name ++ '{' :: body) inner →
      motive ('%' :: (name ++ '{' :: body)) single)
    (pattern : List Char) (single : SinglePercents pattern) : motive pattern single := by
  obtain ⟨bound, within⟩ : ∃ bound, pattern.length ≤ bound := ⟨_, Nat.le_refl _⟩
  induction bound generalizing pattern with
  | zero =>
      obtain rfl := List.length_eq_zero_iff.mp (Nat.le_zero.mp within)
      exact nil single
  | succ bound ih =>
      have shorter (tail : List Char) (suffix : tail <:+ pattern) (less : tail.length < pattern.length) :
          ∃ inner, motive tail inner :=
        ⟨fun inside => single (inside.trans suffix.isInfix), ih tail _ (by omega)⟩
      cases pattern with
      | nil => exact nil single
      | cons c rest =>
          by_cases percent : c = '%'
          · subst percent
            have notEscape : rest.head? ≠ some '%' := by
              intro second
              obtain ⟨tail, rfl⟩ := List.head?_eq_some_iff.mp second
              exact single ⟨[], tail, rfl⟩
            obtain ⟨name, after, rfl, alpha, shape⟩ := directive_shapes rest
            rcases shape with stop | ⟨fmt, tail, rfl, inside⟩ | ⟨body, rfl, inside⟩
            · obtain ⟨inner, later⟩ := shorter after ⟨'%' :: name, rfl⟩
                (by simp only [List.length_cons, List.length_append]; omega)
              exact directive name after single inner alpha stop notEscape later
            · obtain ⟨inner, later⟩ := shorter tail ⟨'%' :: (name ++ '{' :: (fmt ++ ['}'])), by simp⟩
                (by simp only [List.length_cons, List.length_append]; omega)
              exact closed name fmt tail single inner alpha inside later
            · obtain ⟨inner, later⟩ := shorter (name ++ '{' :: body) (List.suffix_cons _ _) (by simp)
              exact opened name body single inner alpha inside later
          · obtain ⟨inner, later⟩ := shorter rest (List.suffix_cons _ _) (by simp)
            exact text c rest single inner percent later

end Segments

-- A piece with the places in the pattern that it comes from.
inductive Placed where
  | literal (text : List (Nat × Char))
  | directive (start : Nat) (name fmt : List Char)
  | parseError (start : Nat)
deriving DecidableEq, Repr

def parseErrorPiece : Piece := ⟨"<parse_error>".toList, [], 0⟩

namespace Placed

def piece : Placed → Piece
  | .literal text => ⟨text.map Prod.snd, [], 0⟩
  | .directive _ name fmt => ⟨name, fmt, 1⟩
  | .parseError _ => parseErrorPiece

def letters : Placed → List (Nat × Char)
  | .literal text => text
  | _ => []

-- Where the malformed directive starts that the item stands for.
def placeholder : Placed → Option Nat
  | .literal _ => none
  | .directive start name _ => if name ∈ knownNames then none else some start
  | .parseError start => some start

end Placed

def flushPlaced (nstr : List (Nat × Char)) : List Placed := if nstr.isEmpty then [] else [.literal nstr]

-- The pieces of init from the segments on: an unclosed directive puts its
-- placeholder out before the pending text, and the text stays pending.
def place (nstr : List (Nat × Char)) (i : Nat) : List Segment → List Placed
  | [] => []
  | .text c :: rest => place (nstr ++ [(i, c)]) (i + 1) rest
  | .directive name fmt :: rest =>
      flushPlaced nstr ++ .directive i name (fmt.getD []) :: place [] (i + (Segment.directive name fmt).width) rest
  | .unclosed :: rest => .parseError i :: (flushPlaced nstr ++ place nstr (i + 1) rest)

def placed (pattern : List Char) : List Placed := place [] 0 (segments pattern)

-- The literal text of the pattern itself.
def texts (i : Nat) : List Segment → List (Nat × Char)
  | [] => []
  | .text c :: rest => (i, c) :: texts (i + 1) rest
  | segment :: rest => texts (i + segment.width) rest

-- The items from the left: where the placeholder of a malformed directive
-- stands, all literal text from before the directive has come by.
def Leads (text seen : List (Nat × Char)) : List Placed → Prop
  | [] => True
  | item :: rest =>
      (∀ start, item.placeholder = some start → ∀ entry ∈ text, entry.1 < start → entry ∈ seen) ∧
        Leads text (seen ++ item.letters) rest

structure InOrder (pattern : List Char) : Prop where
  once : (((placed pattern).flatMap Placed.letters).map Prod.snd).Sublist pattern
  first : Leads (texts 0 (segments pattern)) [] (placed pattern)

-- An unclosed directive right behind literal text.
def Apart (first second : Segment) : Prop := first.IsText → second ≠ .unclosed

section Placing

theorem flush_placed (nstr : List (Nat × Char)) :
    (flushPlaced nstr).map Placed.piece = flush (nstr.map Prod.snd) := by
  cases nstr <;> rfl

@[simp] theorem flush_placed_letters (nstr : List (Nat × Char)) : (flushPlaced nstr).flatMap Placed.letters = nstr := by
  cases nstr <;> simp [flushPlaced, Placed.letters]

theorem scan_place (pattern : List Char) (single : SinglePercents pattern) (nstr : List (Nat × Char)) (i : Nat) :
    (scan (nstr.map Prod.snd) pattern).1 = (place nstr i (segments pattern)).map Placed.piece := by
  induction pattern, single using single_percents_induction generalizing nstr i with
  | nil => rw [scan_nil, segments_nil, place, List.map_nil]
  | text c rest _ _ text ih =>
      have later := ih (nstr ++ [(i, c)]) (i + 1)
      rw [List.map_append] at later
      rw [scan_text _ c rest text, segments_text c rest text, place]
      exact later
  | directive name after _ _ alpha stop notEscape ih =>
      rw [scan_directive _ name after alpha stop notEscape, segments_directive name after alpha stop, place,
        List.map_append, flush_placed, List.map_cons, ← ih []]
      simp [Placed.piece]
  | closed name fmt tail _ _ alpha inside ih =>
      rw [scan_closed _ name fmt tail alpha inside, segments_closed name fmt tail alpha inside, place, List.map_append,
        flush_placed, List.map_cons, ← ih []]
      simp [Placed.piece]
  | opened name body _ _ alpha inside ih =>
      rw [scan_open _ name body alpha inside, segments_open name body alpha inside, place, List.map_cons,
        List.map_append, flush_placed, ← ih nstr]
      rfl

theorem scan_flag (pattern : List Char) (single : SinglePercents pattern) (nstr : List Char) :
    (scan nstr pattern).2 = true ↔ Segment.unclosed ∈ segments pattern := by
  induction pattern, single using single_percents_induction generalizing nstr with
  | nil => simp [scan_nil, segments_nil]
  | text c rest _ _ text ih =>
      rw [scan_text nstr c rest text, segments_text c rest text, ih]
      simp
  | directive name after _ _ alpha stop notEscape ih =>
      rw [scan_directive nstr name after alpha stop notEscape, segments_directive name after alpha stop, ih]
      simp
  | closed name fmt tail _ _ alpha inside ih =>
      rw [scan_closed nstr name fmt tail alpha inside, segments_closed name fmt tail alpha inside, ih]
      simp
  | opened name body _ _ alpha inside _ =>
      rw [scan_open nstr name body alpha inside, segments_open name body alpha inside]
      simp

theorem literal_known (text : List (Nat × Char)) : (pieceItem (Placed.literal text).piece).2 = false := rfl

theorem parse_error_known (start : Nat) : (pieceItem (Placed.parseError start).piece).2 = false := by
  have type : parseErrorPiece.type = 0 := rfl
  simp only [Placed.piece, pieceItem, type, if_true]

theorem directive_known (start : Nat) (name fmt : List Char) :
    (pieceItem (Placed.directive start name fmt).piece).2 = true ↔ name ∉ knownNames := by
  rw [← format_items_known]
  cases created : formatItems name <;> simp [pieceItem, Placed.piece, created]

theorem flush_known (nstr : List (Nat × Char)) :
    (flushPlaced nstr).any (fun item => (pieceItem item.piece).2) = false := by
  cases nstr <;> simp [flushPlaced, literal_known]

theorem place_known (list : List Segment) (nstr : List (Nat × Char)) (i : Nat) :
    (place nstr i list).any (fun item => (pieceItem item.piece).2) = true ↔
      ∃ name fmt, Segment.directive name fmt ∈ list ∧ name ∉ knownNames := by
  induction list generalizing nstr i with
  | nil => simp [place]
  | cons segment rest ih =>
      cases segment with
      | text c =>
          rw [place, ih]
          simp
      | directive name fmt =>
          rw [place, List.any_append, flush_known, Bool.false_or, List.any_cons, Bool.or_eq_true, ih, directive_known]
          constructor
          · intro either
            rcases either with unknown | ⟨other, otherFmt, member, unknown⟩
            · exact ⟨name, fmt, List.mem_cons_self, unknown⟩
            · exact ⟨other, otherFmt, List.mem_cons_of_mem _ member, unknown⟩
          · intro later
            obtain ⟨other, otherFmt, member, unknown⟩ := later
            rcases List.mem_cons.mp member with same | later
            · cases same
              exact .inl unknown
            · exact .inr ⟨other, otherFmt, later, unknown⟩
      | unclosed =>
          rw [place, List.any_cons, parse_error_known, Bool.false_or, List.any_append, flush_known, Bool.false_or, ih]
          simp

theorem init_placed (pattern : List Char) (single : SinglePercents pattern) :
    (LogFormatter.init pattern).1 = (placed pattern).map fun item => (pieceItem item.piece).1 := by
  have pieces := scan_place pattern single [] 0
  rw [List.map_nil] at pieces
  simp only [init_refines, pieces, List.map_map, placed]
  rfl

-- isError accepts the patterns in which every '%' starts one of the eleven
-- directives and every '{' behind one is closed.
theorem is_error_iff_grammar (pattern : String) (single : SinglePercents pattern.toList) :
    (LogFormatter.new pattern).isError = false ↔ Accepted pattern.toList := by
  have pieces := scan_place pattern.toList single [] 0
  have flag := scan_flag pattern.toList single []
  have known := place_known (segments pattern.toList) [] 0
  rw [List.map_nil] at pieces
  rw [LogFormatter.isError, LogFormatter.new, init_refines, ← Bool.not_eq_true, Bool.or_eq_true, flag, pieces,
    List.map_map, List.any_map]
  rw [show (Prod.snd ∘ pieceItem ∘ Placed.piece) = fun item : Placed => (pieceItem item.piece).2 from rfl, known, not_or,
    Accepted]
  constructor
  · intro both segment member
    obtain ⟨closed, allKnown⟩ := both
    cases segment with
    | text c => trivial
    | directive name fmt => exact not_not.mp fun unknown => allKnown ⟨name, fmt, member, unknown⟩
    | unclosed => exact absurd member closed
  · intro proper
    refine ⟨fun member => proper _ member, ?_⟩
    intro directive
    obtain ⟨name, fmt, member, unknown⟩ := directive
    exact unknown (proper _ member)

theorem is_error_iff_grammar_line : (LogFormatter.new "%m%n").isError = false ↔ Accepted "%m%n".toList :=
  is_error_iff_grammar "%m%n" (by decide)

end Placing

section Order

theorem width_positive (segment : Segment) : 0 < segment.width := by
  cases segment with
  | text c => exact Nat.one_pos
  | directive name fmt => cases fmt <;> (simp only [Segment.width]; omega)
  | unclosed => exact Nat.one_pos

theorem texts_from (list : List Segment) (i : Nat) : ∀ entry ∈ texts i list, i ≤ entry.1 := by
  induction list generalizing i with
  | nil => simp [texts]
  | cons segment rest ih =>
      intro entry member
      cases segment with
      | text c =>
          rcases List.mem_cons.mp member with same | later
          · rw [same]
          · exact Nat.le_of_succ_le (ih (i + 1) entry later)
      | directive name fmt => exact Nat.le_trans (Nat.le_add_right _ _) (ih _ entry member)
      | unclosed => exact Nat.le_trans (Nat.le_add_right _ _) (ih _ entry member)

theorem texts_sublist (pattern : List Char) (single : SinglePercents pattern) (i : Nat) :
    ((texts i (segments pattern)).map Prod.snd).Sublist pattern := by
  induction pattern, single using single_percents_induction generalizing i with
  | nil =>
      rw [segments_nil]
      exact List.Sublist.refl _
  | text c rest _ _ text ih =>
      rw [segments_text c rest text]
      exact (ih (i + 1)).cons_cons c
  | directive name after _ _ alpha stop _ ih =>
      rw [segments_directive name after alpha stop]
      exact ((ih _).trans (List.sublist_append_right name after)).cons _
  | closed name fmt tail _ _ alpha inside ih =>
      rw [segments_closed name fmt tail alpha inside]
      have within : tail.Sublist ('%' :: (name ++ '{' :: (fmt ++ '}' :: tail))) :=
        List.IsSuffix.sublist ⟨'%' :: (name ++ '{' :: (fmt ++ ['}'])), by simp⟩
      exact (ih _).trans within
  | opened name body _ _ alpha inside ih =>
      rw [segments_open name body alpha inside]
      exact (ih (i + 1)).cons _

theorem leads_flush (text seen nstr : List (Nat × Char)) (rest : List Placed) :
    Leads text seen (flushPlaced nstr ++ rest) ↔ Leads text (seen ++ nstr) rest := by
  cases nstr with
  | nil => simp [flushPlaced]
  | cons entry more => simp [flushPlaced, Leads, Placed.placeholder, Placed.letters]

-- With nothing pending where a directive is unclosed, every piece of text is
-- put out once and ahead of what comes behind it.
theorem place_letters (list : List Segment) (nstr : List (Nat × Char)) (i : Nat) (apart : list.IsChain Apart)
    (ready : nstr ≠ [] → list.head? ≠ some .unclosed) :
    ((place nstr i list).flatMap Placed.letters).Sublist (nstr ++ texts i list) := by
  induction list generalizing nstr i with
  | nil => simp [place]
  | cons segment rest ih =>
      obtain ⟨next, later⟩ := List.isChain_cons.mp apart
      cases segment with
      | text c =>
          have step := ih (nstr ++ [(i, c)]) (i + 1) later fun _ first => next _ first trivial rfl
          simpa [place, texts] using step
      | directive name fmt =>
          have step := ih [] (i + (Segment.directive name fmt).width) later (by simp)
          rw [place, List.flatMap_append, flush_placed_letters, texts]
          · exact (List.Sublist.refl nstr).append step
          · simp
      | unclosed =>
          have empty : nstr = [] := by
            by_contra pending
            exact ready pending rfl
          subst empty
          exact ih [] (i + 1) later (by simp)

-- Literal text from before a position has come by or is pending there.
theorem text_before (list : List Segment) (text seen nstr : List (Nat × Char)) (i : Nat)
    (known : ∀ entry ∈ text, entry ∈ seen ∨ entry ∈ nstr ∨ entry ∈ texts i list) :
    ∀ entry ∈ text, entry.1 < i → entry ∈ seen ++ nstr := by
  intro entry member before
  rcases known entry member with old | pending | ahead
  · exact List.mem_append_left _ old
  · exact List.mem_append_right _ pending
  · exact absurd before (Nat.not_lt_of_le (texts_from list i entry ahead))

theorem text_flushed (list : List Segment) (text seen nstr : List (Nat × Char)) (i next : Nat)
    (known : ∀ entry ∈ text, entry ∈ seen ∨ entry ∈ nstr ∨ entry ∈ texts i list) (same : texts i list ⊆ texts next list.tail) :
    ∀ entry ∈ text, entry ∈ (seen ++ nstr) ++ [] ∨ entry ∈ [] ∨ entry ∈ texts next list.tail := by
  intro entry member
  rcases known entry member with old | pending | ahead
  · exact .inl (by simp [old])
  · exact .inl (by simp [pending])
  · exact .inr (.inr (same ahead))

theorem place_leads (list : List Segment) (text seen nstr : List (Nat × Char)) (i : Nat) (apart : list.IsChain Apart)
    (ready : nstr ≠ [] → list.head? ≠ some .unclosed)
    (known : ∀ entry ∈ text, entry ∈ seen ∨ entry ∈ nstr ∨ entry ∈ texts i list) :
    Leads text seen (place nstr i list) := by
  induction list generalizing seen nstr i with
  | nil => trivial
  | cons segment rest ih =>
      obtain ⟨next, later⟩ := List.isChain_cons.mp apart
      have before := text_before (segment :: rest) text seen nstr i known
      cases segment with
      | text c =>
          apply ih seen (nstr ++ [(i, c)]) (i + 1) later (fun _ first => next _ first trivial rfl)
          intro entry member
          have place := known entry member
          simp only [texts, List.mem_cons, List.mem_append, List.not_mem_nil, or_false] at place ⊢
          tauto
      | directive name fmt =>
          rw [place, leads_flush]
          constructor
          · intro start malformed
            have here : i = start := by
              simp only [Placed.placeholder] at malformed
              split at malformed
              · cases malformed
              · exact Option.some.inj malformed
            rw [← here]
            exact before
          · exact ih _ [] _ later (by simp) (text_flushed _ text seen nstr i _ known (List.Subset.refl _))
      | unclosed =>
          have empty : nstr = [] := by
            by_contra pending
            exact ready pending rfl
          subst empty
          constructor
          · intro start malformed
            cases malformed
            simpa using before
          · have behind := ih _ [] (i + 1) later (by simp) (text_flushed _ text seen [] i _ known (List.Subset.refl _))
            rw [List.append_nil] at behind
            exact behind

theorem leads_apart (list : List Segment) (text seen nstr : List (Nat × Char)) (i : Nat)
    (leads : Leads text seen (place nstr i list)) (ahead : ∀ entry ∈ texts i list, entry ∈ text)
    (pending : ∀ entry ∈ nstr, entry ∈ text ∧ entry.1 < i ∧ entry ∉ seen) (passed : ∀ entry ∈ seen, entry.1 < i) :
    list.IsChain Apart ∧ (nstr ≠ [] → list.head? ≠ some .unclosed) := by
  induction list generalizing seen nstr i with
  | nil => simp
  | cons segment rest ih =>
      cases segment with
      | text c =>
          have fresh : (i, c) ∉ seen := fun old => Nat.lt_irrefl _ (passed _ old)
          obtain ⟨chain, first⟩ := ih seen (nstr ++ [(i, c)]) (i + 1) leads
            (fun entry member => ahead entry (List.mem_cons_of_mem _ member))
            (fun entry member => by
              rcases List.mem_append.mp member with old | new
              · obtain ⟨known, before, absent⟩ := pending entry old
                exact ⟨known, Nat.lt_succ_of_lt before, absent⟩
              · rw [List.mem_singleton.mp new]
                exact ⟨ahead _ List.mem_cons_self, Nat.lt_succ_self i, fresh⟩)
            (fun entry old => Nat.lt_succ_of_lt (passed entry old))
          refine ⟨List.isChain_cons.mpr ⟨fun second head _ same => ?_, chain⟩, by simp⟩
          rw [same] at head
          exact first (by simp) head
      | directive name fmt =>
          rw [place, leads_flush] at leads
          have wide := width_positive (.directive name fmt)
          obtain ⟨chain, -⟩ := ih _ [] _ leads.2 ahead (by simp) (fun entry old => by
            simp only [Placed.letters, List.append_nil] at old
            rcases List.mem_append.mp old with seenBefore | flushed
            · have before := passed entry seenBefore
              omega
            · have before := (pending entry flushed).2.1
              omega)
          exact ⟨List.isChain_cons.mpr ⟨fun _ _ isText => isText.elim, chain⟩, by simp⟩
      | unclosed =>
          have empty : nstr = [] := by
            by_contra nonempty
            obtain ⟨entry, member⟩ := List.exists_mem_of_ne_nil nstr nonempty
            obtain ⟨known, before, absent⟩ := pending entry member
            exact absent (leads.1 i rfl entry known before)
          subst empty
          obtain ⟨chain, -⟩ := ih _ [] (i + 1) leads.2 ahead (by simp) (fun entry old => by
            simp only [Placed.letters, List.append_nil] at old
            exact Nat.lt_succ_of_lt (passed entry old))
          exact ⟨List.isChain_cons.mpr ⟨fun _ _ isText => isText.elim, chain⟩, by simp⟩

-- The placed pieces are what init makes its items from.
theorem literal_text_in_order_iff (pattern : List Char) (single : SinglePercents pattern) :
    (LogFormatter.init pattern).1 = (placed pattern).map (fun item => (pieceItem item.piece).1) ∧
      (InOrder pattern ↔ (segments pattern).IsChain Apart) := by
  refine ⟨init_placed pattern single, ?_, ?_⟩
  · intro inOrder
    exact (leads_apart (segments pattern) _ [] [] 0 inOrder.first (fun _ member => member) (by simp) (by simp)).1
  · intro apart
    refine ⟨?_, place_leads (segments pattern) _ [] [] 0 apart (by simp) fun _ member => .inr (.inr member)⟩
    have letters := place_letters (segments pattern) [] 0 apart (by simp)
    exact (letters.map Prod.snd).trans (texts_sublist pattern single 0)

theorem literal_text_in_order_iff_line :
    (LogFormatter.init ['a', '%', 'm']).1 = (placed ['a', '%', 'm']).map (fun item => (pieceItem item.piece).1) ∧
      (InOrder ['a', '%', 'm'] ↔ (segments ['a', '%', 'm']).IsChain Apart) :=
  literal_text_in_order_iff ['a', '%', 'm'] (by decide)

theorem unclosed_repeats_text : ¬ ∀ pattern, SinglePercents pattern → InOrder pattern := by
  intro claimed
  have single : SinglePercents ['a', '%', 'd', '{', '%', 'm'] := by decide
  have parsed : segments ['a', '%', 'd', '{', '%', 'm'] =
      [.text 'a', .unclosed, .text 'd', .text '{', .directive ['m'] none] := by
    have opened : segments ['%', 'd', '{', '%', 'm'] = .unclosed :: segments ['d', '{', '%', 'm'] :=
      segments_open ['d'] ['%', 'm'] (List.forall_mem_singleton.mpr rfl) (by decide)
    have last : segments ['%', 'm'] = .directive ['m'] none :: segments [] :=
      segments_directive ['m'] [] (List.forall_mem_singleton.mpr rfl) (by simp [Stops])
    rw [segments_text 'a' _ (by decide), opened, segments_text 'd' _ (by decide), segments_text '{' _ (by decide), last,
      segments_nil]
  have letters : ((placed ['a', '%', 'd', '{', '%', 'm']).flatMap Placed.letters).map Prod.snd = ['a', 'a', 'd', '{'] := by
    rw [placed, parsed]
    rfl
  have once := (claimed _ single).once
  rw [letters] at once
  exact absurd once (by decide)

end Order

end Sylar.Log
