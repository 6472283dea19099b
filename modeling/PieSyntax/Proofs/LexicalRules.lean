/-
# The rules of lexing

What the next token is can be said without the lexer: the longest beginning made of blanks and comments
is passed, and then one character decides which rule applies and how far it reaches (`Lexes`).  Main
statements: the rules give each text exactly one answer, which is that of the lexer (`lexes_iff`), and
only the spellings of keywords are read differently in another mode or at another place
(`next_follows_rules`).
-/
import PieSyntax.Proofs.Exchange

namespace PieSyntax

open Text

/-! ## Classes of characters -/

namespace Text

/-- The ranges share no code point: one ends before the other begins, or they alternate, or one of
them is a single code point that the other leaves out. -/
def CodeRange.apart (r s : CodeRange) : Bool :=
  r.last < s.first || s.last < r.first ||
    (r.step == 2 && s.step == 2 && (r.first + s.first) % 2 == 1) ||
    (r.first == r.last && !s.covers r.first) || (s.first == s.last && !r.covers s.first)

/-- A range that is apart from another covers none of its numbers. -/
theorem CodeRange.not_covers_of_apart {r s : CodeRange} {n : Nat} (h : r.apart s = true)
    (hr : r.covers n = true) : s.covers n = false := by
  rw [Bool.eq_false_iff]
  intro hs
  have hrange := hr
  have hrange' := hs
  simp only [covers, Bool.and_eq_true, decide_eq_true_eq, beq_iff_eq] at hrange hrange'
  simp only [apart, Bool.or_eq_true, Bool.and_eq_true, decide_eq_true_eq, beq_iff_eq,
    Bool.not_eq_true'] at h
  obtain (((h | h) | ⟨⟨hr2, hs2⟩, hodd⟩) | ⟨hsingle, hout⟩) | ⟨hsingle, hout⟩ := h
  · omega
  · omega
  · rw [hr2] at hrange
    rw [hs2] at hrange'
    omega
  · obtain rfl : n = r.first := by omega
    rw [hout] at hs
    cases hs
  · obtain rfl : n = s.first := by omega
    rw [hout] at hr
    cases hr

/-- The range `s` has code points, all of them above those of `r`. -/
def CodeRange.below (r s : CodeRange) : Bool := r.last < s.first && s.first ≤ s.last

/-- Whether two tables in ascending order have no code point in common.  Each range of the one is
compared with those of the other that do not end before it, up to the first that begins behind it. -/
def tablesApart : List CodeRange → List CodeRange → Bool
  | [], _ => true
  | r :: rs, table =>
    let later := table.dropWhile fun s => s.last < r.first
    r.first ≤ r.last && (later.takeWhile fun s => !r.below s).all r.apart && tablesApart rs later

/-- Ranges that end before a number do not cover it. -/
theorem covered_dropWhile {m n : Nat} (h : m ≤ n) (table : List CodeRange) :
    covered n (table.dropWhile fun s => s.last < m) = covered n table := by
  induction table with
  | nil => rfl
  | cons s table ih =>
    by_cases hs : s.last < m
    · rw [List.dropWhile_cons_of_pos (by simpa using hs), ih, covered, if_pos (by omega)]
    · rw [List.dropWhile_cons_of_neg (by simpa using hs)]

/-- A number in a range that is apart from a table is not in the table. -/
theorem covered_eq_false_of_apart {r : CodeRange} {n : Nat} {table : List CodeRange}
    (hr : r.covers n = true)
    (h : (table.takeWhile fun s => !r.below s).all r.apart = true) :
    covered n table = false := by
  have hrange := hr
  simp only [CodeRange.covers, Bool.and_eq_true, decide_eq_true_eq] at hrange
  induction table with
  | nil => rfl
  | cons s table ih =>
    cases hs : r.below s with
    | true =>
      simp only [CodeRange.below, Bool.and_eq_true, decide_eq_true_eq] at hs
      rw [covered, if_neg (by omega)]
      have hout : ¬ s.first ≤ n := by omega
      simp [CodeRange.covers, hout]
    | false =>
      rw [List.takeWhile_cons_of_pos (by simp [hs]), List.all_cons, Bool.and_eq_true] at h
      rw [covered]
      split
      · exact ih h.2
      · exact CodeRange.not_covers_of_apart h.1 hr

/-- No number is in both of two tables that are apart. -/
theorem covered_eq_false_of_tablesApart {n : Nat} {rs table : List CodeRange}
    (h : tablesApart rs table = true) (hn : covered n rs = true) : covered n table = false := by
  induction rs generalizing table with
  | nil => cases hn
  | cons r rs ih =>
    simp only [tablesApart, Bool.and_eq_true, decide_eq_true_eq] at h
    obtain ⟨⟨hle, hall⟩, hrest⟩ := h
    rw [covered] at hn
    split at hn
    · next hlt => rw [← covered_dropWhile (m := r.first) (by omega), ih hrest hn]
    · have hrange := hn
      simp only [CodeRange.covers, Bool.and_eq_true, decide_eq_true_eq] at hrange
      rw [← covered_dropWhile hrange.1.1, covered_eq_false_of_apart hn hall]

/-- The upper case letters are apart from whatever begins a variable. -/
theorem tablesApart_uppercase : ∀ table ∈ [lowercaseRanges, decimalDigitRanges, symbolRanges],
    tablesApart uppercaseRanges table = true := by
  decide +kernel

/-- No character begins both a variable and the name of a type. -/
theorem isVariableStart_of_isTypeStart {c : Char} (h : isTypeStart c = true) :
    isVariableStart c = false := by
  have hnone : ∀ table ∈ [lowercaseRanges, decimalDigitRanges, symbolRanges],
      inTable table c = false := fun table ht =>
    covered_eq_false_of_tablesApart (tablesApart_uppercase table ht) h
  simp only [List.forall_mem_cons, List.not_mem_nil, false_implies, implies_true, and_true] at hnone
  simp [isVariableStart, isLowercase, isDecimalDigit, isSymbol, hnone]

end Text

/-! ## Longest beginnings -/

/-- `IsLongest P u text`: of the beginnings of `text` with the property `P`, `u` is the longest. -/
structure IsLongest (P : List Char → Prop) (u text : List Char) : Prop where
  begins : u <+: text
  holds : P u
  length_le : ∀ v, v <+: text → P v → v.length ≤ u.length

/-- There is only one longest beginning. -/
theorem IsLongest.unique {P : List Char → Prop} {u v text : List Char} (hu : IsLongest P u text)
    (hv : IsLongest P v text) : u = v := by
  have hle := hv.length_le u hu.begins hu.holds
  have hge := hu.length_le v hv.begins hv.holds
  exact (List.prefix_of_prefix_length_le hu.begins hv.begins hle).eq_of_length_le hge

/-- `IsRun run text`: of the beginnings of `text` that could stand in a name, `run` is the longest. -/
def IsRun (run text : List Char) : Prop := IsLongest (fun u => ∀ c ∈ u, isNameBody c = true) run text

theorem isRun_takeWhile (text : List Char) : IsRun (text.takeWhile isNameBody) text where
  begins := List.takeWhile_prefix _
  holds := List.all_eq_true.1 List.all_takeWhile
  length_le := by
    rintro v ⟨w, rfl⟩ hv
    rw [List.takeWhile_append_of_pos hv, List.length_append]
    omega

/-- A text has exactly one run. -/
theorem isRun_iff {run text : List Char} : IsRun run text ↔ run = text.takeWhile isNameBody := by
  constructor
  · exact fun h => h.unique (isRun_takeWhile text)
  · rintro rfl
    exact isRun_takeWhile text

/-- The trivia that the lexer takes are the longest beginning made of blanks and comments. -/
theorem isLongest_of_triviaRun {xs : List Trivia} {rest : List Char} {o m : Nat}
    (h : TriviaRun xs rest) (ht : Tiles o (xs.map Trivia.piece) m) :
    IsLongest IsLastGap (xs.flatMap Trivia.text) (xs.flatMap Trivia.text ++ rest) where
  begins := List.prefix_append _ _
  holds := h.isLastGap
  length_le := by
    intro v hv hgap
    by_contra hlt
    obtain ⟨u, rfl⟩ := List.prefix_of_prefix_length_le (List.prefix_append _ rest) hv (by omega)
    obtain ⟨w, hw⟩ := hv
    rw [List.append_assoc, List.append_cancel_left_eq] at hw
    -- A longer gap would begin with all that is taken, but there the lexer would stop as well.
    cases u with
    | nil =>
      rw [List.append_nil] at hlt
      exact hlt (Nat.le_refl _)
    | cons c u =>
      rw [← hw] at h
      have hskip := (h.exchange u).skipTrivia_eq ht
      have hend := Cursor.rest_skipTrivia_lastGap hgap o
      rw [hskip] at hend
      cases hend

/-! ## The rules -/

/-- `Lexes arrows mode text r`: at the beginning of `text`, where no trivia stand, the rules find `r`:
the class and the characters of a token, or why there is none. -/
inductive Lexes (arrows : Bool) (mode : LexMode) :
    List Char → Except LexFault (TokenKind × List Char) → Prop
  | endOfInput : Lexes arrows mode [] (.ok (.endOfInput, []))
  | leftParen {rest} : Lexes arrows mode ('(' :: rest) (.ok (.leftParen, ['(']))
  | rightParen {rest} : Lexes arrows mode (')' :: rest) (.ok (.rightParen, [')']))
  | atom {rest run} (hrun : IsRun run rest) (hne : run ≠ []) :
      Lexes arrows mode ('\'' :: rest) (.ok (.atom, '\'' :: run))
  | incompleteAtom {rest} (hrun : IsRun [] rest) :
      Lexes arrows mode ('\'' :: rest) (.error .incompleteAtom)
  | keyword {c rest run word} (hc : isVariableStart c = true) (hrun : IsRun run (c :: rest))
      (hword : run ∈ word.spellings) (hmode : mode.allows arrows word = true) :
      Lexes arrows mode (c :: rest) (.ok (.keyword word, run))
  | identifier {c rest run} (hc : isVariableStart c = true) (hrun : IsRun run (c :: rest))
      (hword : ∀ word : Keyword, run ∈ word.spellings → mode.allows arrows word = false) :
      Lexes arrows mode (c :: rest) (.ok (.identifier, run))
  | typeIdentifier {c rest run} (hc : isTypeStart c = true) (hrun : IsRun run (c :: rest)) :
      Lexes arrows mode (c :: rest) (.ok (.typeIdentifier, run))
  | backslash {rest} (hmode : mode ≠ .plain) :
      Lexes arrows mode ('\\' :: rest) (.ok (.keyword .lambda, ['\\']))
  | unrecognized {c rest} (hmark : c ∉ ['(', ')', '\'']) (hvariable : isVariableStart c = false)
      (htype : isTypeStart c = false) (hlambda : c = '\\' → mode = .plain) :
      Lexes arrows mode (c :: rest) (.error (.unrecognized c))

section Rules

variable {arrows : Bool} {mode : LexMode} {text : List Char}

/-- Only in plain mode is lambda a name. -/
theorem allows_lambda_iff : mode.allows arrows .lambda = true ↔ mode ≠ .plain := by
  cases mode <;> simp [LexMode.allows]

/-- Where a character of names stands, its run is classified by the character. -/
theorem lexeme_of_isNameBody {c : Char} {rest run : List Char} (hc : isNameBody c = true)
    (hrun : IsRun run (c :: rest)) : lexeme arrows mode (c :: rest) =
      if isVariableStart c then .ok (classifyName arrows mode run, run.length)
      else if isTypeStart c then .ok (.typeIdentifier, run.length)
      else .error (.unrecognized c) := by
  have hmark : c ∉ ['(', ')', '\'', ';', '\\'] := by
    intro hmem
    rw [isNameBody_mark hmem] at hc
    cases hc
  simp only [List.mem_cons, List.not_mem_nil, or_false, not_or] at hmark
  rw [isRun_iff.1 hrun, List.takeWhile_cons_of_pos hc, lexeme, if_neg hmark.1, if_neg hmark.2.1,
    if_neg hmark.2.2.1, if_neg (by simp [hmark.2.2.2.2])]

/-- The spelling of a keyword is that keyword wherever the mode allows it. -/
theorem classifyName_of_spelling {word : Keyword} {run : List Char} (hword : run ∈ word.spellings)
    (hmode : mode.allows arrows word = true) : classifyName arrows mode run = .keyword word := by
  rw [classifyName, Keyword.ofSpelling?_eq_some_iff.2 hword]
  exact if_pos hmode

/-- A run that spells no keyword of the mode is a name. -/
theorem classifyName_of_not_allows {run : List Char}
    (hword : ∀ word : Keyword, run ∈ word.spellings → mode.allows arrows word = false) :
    classifyName arrows mode run = .identifier := by
  rw [classifyName]
  split
  · next word hfound => rw [if_neg (by simp [hword word (Keyword.ofSpelling?_eq_some_iff.1 hfound)])]
  · rfl

theorem take_of_isRun {run : List Char} (h : IsRun run text) : text.take run.length = run :=
  (List.prefix_iff_eq_take.1 h.begins).symm

/-- What the rules find is what the lexer finds. -/
theorem lexeme_of_lexes {r : Except LexFault (TokenKind × List Char)}
    (h : Lexes arrows mode text r) :
    (lexeme arrows mode text).map (fun x => (x.1, text.take x.2)) = r := by
  cases h with
  | endOfInput | leftParen | rightParen => rfl
  | @atom rest run hrun hne =>
    rw [lexeme, if_neg (by decide), if_neg (by decide), if_pos rfl, ← isRun_iff.1 hrun]
    split
    · next hnil => exact absurd rfl hne
    · simp [Except.map, take_of_isRun hrun]
  | incompleteAtom hrun =>
    rw [lexeme, if_neg (by decide), if_neg (by decide), if_pos rfl, ← isRun_iff.1 hrun]
    rfl
  | keyword hc hrun hword hmode =>
    rw [lexeme_of_isNameBody (isNameBody_of_isVariableStart hc) hrun, if_pos hc,
      classifyName_of_spelling hword hmode]
    simp [Except.map, take_of_isRun hrun]
  | identifier hc hrun hword =>
    rw [lexeme_of_isNameBody (isNameBody_of_isVariableStart hc) hrun, if_pos hc,
      classifyName_of_not_allows hword]
    simp [Except.map, take_of_isRun hrun]
  | typeIdentifier hc hrun =>
    -- The test for variables comes first, and fails because the tables are apart.
    rw [lexeme_of_isNameBody (isNameBody_of_isTypeStart hc) hrun,
      if_neg (by simp [isVariableStart_of_isTypeStart hc]), if_pos hc]
    simp [Except.map, take_of_isRun hrun]
  | backslash hmode =>
    rw [lexeme, if_neg (by decide), if_neg (by decide), if_neg (by decide),
      if_pos (by simp [allows_lambda_iff, hmode])]
    rfl
  | unrecognized hmark hvariable htype hlambda =>
    simp only [List.mem_cons, List.not_mem_nil, or_false, not_or] at hmark
    rw [lexeme, if_neg hmark.1, if_neg hmark.2.1, if_neg hmark.2.2,
      if_neg (by simpa [allows_lambda_iff] using hlambda), if_neg (by simp [hvariable]),
      if_neg (by simp [htype])]
    rfl

/-- The rules leave no text out. -/
theorem exists_lexes (arrows : Bool) (mode : LexMode) (text : List Char) :
    ∃ r, Lexes arrows mode text r := by
  cases text with
  | nil => exact ⟨_, .endOfInput⟩
  | cons c rest =>
    have hrun := isRun_takeWhile (c :: rest)
    by_cases hleft : c = '('
    · exact hleft ▸ ⟨_, .leftParen⟩
    by_cases hright : c = ')'
    · exact hright ▸ ⟨_, .rightParen⟩
    by_cases hquote : c = '\''
    · subst hquote
      have hname := isRun_takeWhile rest
      by_cases hne : rest.takeWhile isNameBody = []
      · rw [hne] at hname
        exact ⟨_, .incompleteAtom hname⟩
      · exact ⟨_, .atom hname hne⟩
    by_cases hvariable : isVariableStart c = true
    · by_cases hword : ∃ word : Keyword, (c :: rest).takeWhile isNameBody ∈ word.spellings ∧
          mode.allows arrows word = true
      · obtain ⟨word, hspelling, hmode⟩ := hword
        exact ⟨_, .keyword hvariable hrun hspelling hmode⟩
      · refine ⟨_, .identifier hvariable hrun fun word hspelling => ?_⟩
        rw [Bool.eq_false_iff]
        exact fun hmode => hword ⟨word, hspelling, hmode⟩
    by_cases htype : isTypeStart c = true
    · exact ⟨_, .typeIdentifier htype hrun⟩
    by_cases hlambda : c = '\\' ∧ mode ≠ .plain
    · obtain ⟨rfl, hmode⟩ := hlambda
      exact ⟨_, .backslash hmode⟩
    · refine ⟨_, .unrecognized (by simp [hleft, hright, hquote]) ?_ ?_ ?_⟩
      · simpa using hvariable
      · simpa using htype
      · exact fun hc => by_contra fun hmode => hlambda ⟨hc, hmode⟩

/-- **The rules.**  They find exactly one answer at the beginning of every text, that of the lexer. -/
theorem lexes_iff {r : Except LexFault (TokenKind × List Char)} :
    Lexes arrows mode text r ↔
      (lexeme arrows mode text).map (fun x => (x.1, text.take x.2)) = r := by
  constructor
  · exact lexeme_of_lexes
  · rintro rfl
    obtain ⟨r, hr⟩ := exists_lexes arrows mode text
    rwa [lexeme_of_lexes hr]

/-! ## Other modes -/

/-- The characters of the token at the beginning of a text, whatever its class. -/
def tokenText : List Char → List Char
  | [] => []
  | c :: rest => if c ∈ ['(', ')', '\\'] then [c] else c :: rest.takeWhile isNameBody

/-- A token that begins like a name is the whole run. -/
theorem tokenText_of_isRun {c : Char} {rest run : List Char} (hc : isNameBody c = true)
    (hrun : IsRun run (c :: rest)) : tokenText (c :: rest) = run := by
  have hmark : c ∉ ['(', ')', '\\'] := by
    intro hmem
    have hnone := isNameBody_mark (c := c) (by simp at hmem ⊢; tauto)
    rw [hc] at hnone
    cases hnone
  rw [tokenText, if_neg hmark, isRun_iff.1 hrun, List.takeWhile_cons_of_pos hc]

/-- The rules say which text a token has. -/
theorem Lexes.text_eq {kind : TokenKind} {u : List Char} (h : Lexes arrows mode text (.ok (kind, u))) :
    u = tokenText text := by
  cases h with
  | endOfInput | leftParen | rightParen | backslash => rfl
  | atom hrun => rw [isRun_iff.1 hrun]; rfl
  | keyword hc hrun | identifier hc hrun =>
    exact (tokenText_of_isRun (isNameBody_of_isVariableStart hc) hrun).symm
  | typeIdentifier hc hrun => exact (tokenText_of_isRun (isNameBody_of_isTypeStart hc) hrun).symm

/-- What is not spelled like a keyword has one class in all modes. -/
theorem Lexes.any_mode {kind : TokenKind} {u : List Char} (h : Lexes arrows mode text (.ok (kind, u)))
    (hu : ∀ word : Keyword, u ∉ word.spellings) (arrows' : Bool) (mode' : LexMode) :
    Lexes arrows' mode' text (.ok (kind, u)) := by
  cases h with
  | endOfInput => exact .endOfInput
  | leftParen => exact .leftParen
  | rightParen => exact .rightParen
  | atom hrun hne => exact .atom hrun hne
  | keyword hc hrun hword => exact absurd hword (hu _)
  | identifier hc hrun => exact .identifier hc hrun fun word hword => absurd hword (hu word)
  | typeIdentifier hc hrun => exact .typeIdentifier hc hrun
  | backslash => exact absurd (by decide) (hu .lambda)

/-- What is no token in one mode is none in another, but for the backslash. -/
theorem Lexes.any_mode_error {fault : LexFault} (h : Lexes arrows mode text (.error fault))
    (arrows' : Bool) (mode' : LexMode) : Lexes arrows' mode' text (.error fault) ∨
      fault = .unrecognized '\\' ∧ mode = .plain ∧ mode' ≠ .plain := by
  cases h with
  | incompleteAtom hrun => exact Or.inl (.incompleteAtom hrun)
  | @unrecognized c rest hmark hvariable htype hlambda =>
    by_cases hother : c = '\\' ∧ mode' ≠ .plain
    · obtain ⟨rfl, hmode⟩ := hother
      exact Or.inr ⟨rfl, hlambda rfl, hmode⟩
    · refine Or.inl (.unrecognized hmark hvariable htype fun hc => ?_)
      exact by_contra fun hmode => hother ⟨hc, hmode⟩

end Rules

/-! ## The next token -/

namespace Lexer

section Next

variable {lx : Lexer} {mode : LexMode} {xs : List Trivia}

/-- What the rules find behind the trivia is the next token. -/
theorem next_of_lexes {o : Nat} {behind u : List Char} {kind : TokenKind}
    (hskip : lx.cursor.skipTrivia = (xs, ⟨o, behind⟩))
    (h : Lexes lx.arrows mode behind (.ok (kind, u))) :
    ∃ rest, behind = u ++ rest ∧ lx.next mode =
      (.ok ⟨kind, u, ⟨o, o + byteLength u⟩, xs⟩, ⟨lx.arrows, ⟨o + byteLength u, rest⟩⟩) := by
  have hlexeme := lexes_iff.1 h
  cases hl : lexeme lx.arrows mode behind with
  | error fault => rw [hl] at hlexeme; cases hlexeme
  | ok result =>
    obtain ⟨kind', n⟩ := result
    rw [hl] at hlexeme
    cases hlexeme
    have hcut := List.take_append_drop n behind
    refine ⟨behind.drop n, hcut.symm, next_of_lexeme (by rw [hskip, hcut]) ?_⟩
    rw [hcut, hl, List.length_take_of_le (lexeme_le hl)]

/-- Why the rules find no token behind the trivia is the error. -/
theorem next_of_lexes_error {here : Cursor} {fault : LexFault}
    (hskip : lx.cursor.skipTrivia = (xs, here)) (h : Lexes lx.arrows mode here.rest (.error fault)) :
    lx.next mode = (.error (fault.at here), ⟨lx.arrows, here⟩) := by
  have hlexeme := lexes_iff.1 h
  cases hl : lexeme lx.arrows mode here.rest with
  | ok result => rw [hl] at hlexeme; cases hlexeme
  | error fault' =>
    rw [hl] at hlexeme
    cases hlexeme
    simp only [next, hskip, hl]

end Next

/-- The lexer in the source `before ++ text`, at the boundary between the two. -/
def between (arrows : Bool) (before text : List Char) : Lexer := ⟨arrows, ⟨byteLength before, text⟩⟩

/-- `Answers arrows before gap behind r answer`: between `before` and `gap`, which `behind` follows, the
lexer gives `answer` if the rules find `r` at the beginning of `behind`.  It passes the gap in any case,
and then the token if there is one; an error covers one character. -/
inductive Answers (arrows : Bool) (before gap behind : List Char) :
    Except LexFault (TokenKind × List Char) → Except LexError Token × Lexer → Prop
  | token {kind u rest leading} (hbehind : behind = u ++ rest)
      (hleading : leading.flatMap Trivia.text = gap)
      (htiles : Tiles (byteLength before) (leading.map Trivia.piece) (byteLength (before ++ gap))) :
      Answers arrows before gap behind (.ok (kind, u))
        (.ok ⟨kind, u, ⟨byteLength (before ++ gap), byteLength (before ++ gap ++ u)⟩, leading⟩,
          between arrows (before ++ gap ++ u) rest)
  | unrecognized {c rest} (hbehind : behind = c :: rest) :
      Answers arrows before gap behind (.error (.unrecognized c))
        (.error (.unrecognizedCharacter c
          ⟨byteLength (before ++ gap), byteLength (before ++ gap ++ [c])⟩),
          between arrows (before ++ gap) behind)
  | incompleteAtom {rest} (hbehind : behind = '\'' :: rest) :
      Answers arrows before gap behind (.error .incompleteAtom)
        (.error (.incompleteAtom
          ⟨byteLength (before ++ gap), byteLength (before ++ gap ++ ['\''])⟩),
          between arrows (before ++ gap) behind)

/-- Behind the longest gap the lexer answers as the rules say. -/
theorem exists_answers (arrows : Bool) (mode : LexMode) (before text : List Char) :
    ∃ gap behind r, text = gap ++ behind ∧ IsLongest IsLastGap gap text ∧
      Lexes arrows mode behind r ∧
      Answers arrows before gap behind r ((between arrows before text).next mode) := by
  obtain ⟨hrest, htiles, hrun⟩ := Cursor.skipTrivia_run (between arrows before text).cursor
  generalize hskip : (between arrows before text).cursor.skipTrivia = skipped at hrest htiles hrun
  obtain ⟨xs, o, behind⟩ := skipped
  -- What the lexer skips is the longest gap, and `behind` is the text that the rules are about.
  have htext : text = xs.flatMap Trivia.text ++ behind := hrest
  have hplace : o = byteLength (before ++ xs.flatMap Trivia.text) := by
    have hstop : o = _ := htiles.stop_eq
    rw [hstop, Trivia.flatMap_piece, byteLength_append]
    rfl
  obtain ⟨r, hr⟩ := exists_lexes arrows mode behind
  refine ⟨_, behind, r, htext, ?_, hr, ?_⟩
  · rw [htext]
    exact isLongest_of_triviaRun hrun htiles
  have hspan : ∀ u, o + byteLength u = byteLength (before ++ xs.flatMap Trivia.text ++ u) := by
    intro u
    rw [byteLength_append (before ++ _), hplace]
  cases r with
  | ok result =>
    obtain ⟨kind, u⟩ := result
    obtain ⟨rest, hbehind, hnext⟩ := next_of_lexes hskip hr
    rw [hnext, hspan, hplace]
    rw [hplace] at htiles
    exact .token hbehind rfl htiles
  | error fault =>
    rw [next_of_lexes_error hskip hr]
    have hone : ∀ c rest, Cursor.spanOf ⟨o, c :: rest⟩ 1 = ⟨o, o + byteLength [c]⟩ :=
      fun c rest => rfl
    cases hr with
    | incompleteAtom =>
      rw [LexFault.at, hone, hspan, hplace]
      exact .incompleteAtom rfl
    | unrecognized =>
      rw [LexFault.at, hone, hspan, hplace]
      exact .unrecognized rfl

/-! ## Other modes and places -/

section Modes

variable {lx last last' : Lexer} {mode mode' : LexMode} {t u : Token}

/-- A token that is taken follows the rules. -/
theorem Took.lexes (h : Took lx mode t last) :
    Lexes lx.arrows mode (t.text ++ last.cursor.rest) (.ok (t.kind, t.text)) := by
  rw [lexes_iff, h.lexeme_eq]
  simp [Except.map]

/-- Before a token that is taken its trivia are skipped. -/
theorem Took.skipTrivia_eq (h : Took lx mode t last) :
    lx.cursor.skipTrivia = (t.leading, ⟨t.span.start, t.text ++ last.cursor.rest⟩) := by
  have hrest := h.rest_eq
  rw [Token.source, List.append_assoc] at hrest
  rw [← h.leading_run.skipTrivia_eq h.leading_tiles, ← hrest]

/-- The mode decides on the class of a token and on nothing else. -/
theorem next_eq_of_next (h : lx.next mode = (.ok t, last)) (h' : lx.next mode' = (.ok u, last')) :
    u = { t with kind := u.kind } ∧ last' = last := by
  have took := took_of_next h
  have took' := took_of_next h'
  obtain ⟨hleading, hplace⟩ := Prod.mk.inj (took'.skipTrivia_eq.symm.trans took.skipTrivia_eq)
  obtain ⟨hstart, hbehind⟩ := Cursor.mk.inj hplace
  have htext : u.text = t.text := by
    rw [took'.lexes.text_eq, took.lexes.text_eq, hbehind]
  have hspan : u.span = t.span := by
    rw [took'.span_eq, took.span_eq, hstart, htext]
  rw [htext, List.append_cancel_left_eq] at hbehind
  constructor
  · rw [← htext, ← hspan, ← hleading]
  · have harrows : last'.arrows = last.arrows := (arrows_of_next h').trans (arrows_of_next h).symm
    have hoffset : last'.cursor.offset = last.cursor.offset := by
      rw [took'.offset_eq, took.offset_eq, hspan]
    calc last' = ⟨last'.arrows, ⟨last'.cursor.offset, last'.cursor.rest⟩⟩ := rfl
      _ = last := by rw [harrows, hoffset, hbehind]

/-- After an error the lexer stands behind the trivia, where the rules find no token. -/
theorem exists_lexes_of_error {e : LexError} (h : lx.next mode = (.error e, last)) :
    ∃ xs fault, lx.cursor.skipTrivia = (xs, last.cursor) ∧
      Lexes lx.arrows mode last.cursor.rest (.error fault) ∧ e = fault.at last.cursor := by
  generalize hskip : lx.cursor.skipTrivia = skipped
  obtain ⟨xs, here⟩ := skipped
  obtain ⟨r, hr⟩ := exists_lexes lx.arrows mode here.rest
  cases r with
  | ok result =>
    obtain ⟨rest, -, hnext⟩ := next_of_lexes hskip hr
    rw [h] at hnext
    cases hnext
  | error fault =>
    rw [next_of_lexes_error hskip hr] at h
    cases h
    exact ⟨xs, fault, rfl, hr, rfl⟩

/-- An error of lexing is one in all modes, but that of a backslash. -/
theorem next_eq_of_error {e : LexError} (h : lx.next mode = (.error e, last)) :
    lx.next mode' = (.error e, last) ∨
      (∃ span, e = .unrecognizedCharacter '\\' span) ∧ mode = .plain ∧ mode' ≠ .plain := by
  obtain ⟨xs, fault, hskip, hr, rfl⟩ := exists_lexes_of_error h
  rcases hr.any_mode_error lx.arrows mode' with hsame | ⟨rfl, hplain, hother⟩
  · have harrows : last.arrows = lx.arrows := arrows_of_next h
    left
    rw [next_of_lexes_error hskip hsame, ← harrows]
  · exact Or.inr ⟨⟨_, rfl⟩, hplain, hother⟩

/-- A text that spells no keyword is a token of one class, in every mode and wherever it stands. -/
theorem Took.kind_eq_of_text {lx' : Lexer} (h : Took lx mode t last) (h' : Took lx' mode' u last')
    (htext : u.text = t.text) (hword : ∀ word : Keyword, t.text ∉ word.spellings) :
    u.kind = t.kind := by
  by_cases hnil : t.text = []
  · have hend : t.kind = .endOfInput := by_contra fun hk => h.text_ne_nil hk hnil
    have hend' : u.kind = .endOfInput :=
      by_contra fun hk => h'.text_ne_nil hk (htext.trans hnil)
    rw [hend, hend']
  · have hown := lexeme_of_append hnil h.lexeme_eq
    have hown' := lexeme_of_append (htext ▸ hnil) h'.lexeme_eq
    have hlexes : Lexes lx.arrows mode t.text (.ok (t.kind, t.text)) := by
      rw [lexes_iff, hown]
      simp [Except.map]
    have hother := lexes_iff.1 (hlexes.any_mode hword lx'.arrows mode')
    rw [← htext, hown'] at hother
    simpa [Except.map] using hother

end Modes

/-- **The next token.**  Between `before` and `text` the lexer passes the longest beginning of `text`
that is made of blanks and comments, and answers as the one rule says that applies there.  Two modes
that both give a token give the same trivia, text and span and go on at the same place; an error is
that of every mode, unless it is a backslash, which only a mode of names refuses.  The class of a text
that spells no keyword is the same wherever and in whatever mode it is read. -/
theorem next_follows_rules (arrows : Bool) (before text : List Char) (mode : LexMode) :
    (∃ gap behind r, text = gap ++ behind ∧ IsLongest IsLastGap gap text ∧
      (∀ r', Lexes arrows mode behind r' ↔ r' = r) ∧
      Answers arrows before gap behind r ((between arrows before text).next mode)) ∧
    (∀ t last, (between arrows before text).next mode = (.ok t, last) →
      (∀ mode' u last', (between arrows before text).next mode' = (.ok u, last') →
        u = { t with kind := u.kind } ∧ last' = last) ∧
      ((∀ word : Keyword, t.text ∉ word.spellings) →
        ∀ (lx last' : Lexer) (mode' : LexMode) (u : Token), lx.next mode' = (.ok u, last') →
          u.text = t.text → u.kind = t.kind)) ∧
    (∀ e last, (between arrows before text).next mode = (.error e, last) →
      ∀ mode', (between arrows before text).next mode' = (.error e, last) ∨
        (∃ span, e = .unrecognizedCharacter '\\' span) ∧ mode = .plain ∧ mode' ≠ .plain) := by
  refine ⟨?_, fun t last ht => ⟨?_, ?_⟩, ?_⟩
  · obtain ⟨gap, behind, r, htext, hgap, hr, hanswer⟩ := exists_answers arrows mode before text
    refine ⟨gap, behind, r, htext, hgap, fun r' => ?_, hanswer⟩
    rw [lexes_iff, lexes_iff.1 hr, eq_comm]
  · exact fun mode' u last' hu => next_eq_of_next ht hu
  · exact fun hword lx last' mode' u hu htext =>
      (took_of_next ht).kind_eq_of_text (took_of_next hu) htext hword
  · exact fun e last he mode' => next_eq_of_error he

/-- After a comment, `lambda` is a keyword behind a parenthesis and a name elsewhere, with the same
trivia and the same place. -/
theorem next_follows_rules_lambda :
    let here := between false ['('] ";λ\nlambda(".toList
    ∃ t u last last', here.next .head = (.ok t, last) ∧ here.next .plain = (.ok u, last') ∧
      t.kind = .keyword .lambda ∧ u.kind = .identifier ∧
      u = { t with kind := u.kind } ∧ last' = last := by
  intro here
  let xs : List Trivia := [⟨.comment, ";λ".toList, ⟨1, 4⟩⟩, ⟨.blank, ['\n'], ⟨4, 5⟩⟩]
  have hrun : TriviaRun xs "lambda(".toList := .cons rfl (.cons rfl (.nil rfl))
  have htiles : Tiles 1 (xs.map Trivia.piece) 5 := ⟨rfl, by decide, rfl, by decide, rfl⟩
  have hskip : here.cursor.skipTrivia = (xs, ⟨5, "lambda".toList ++ ['(']⟩) :=
    hrun.skipTrivia_eq htiles
  have hkeyword := next_of_lexeme hskip
    (show lexeme false .head _ = .ok (.keyword .lambda, _) by decide)
  have hname := next_of_lexeme hskip
    (show lexeme false .plain _ = .ok (.identifier, _) by decide)
  have hrules := next_follows_rules false ['('] ";λ\nlambda(".toList .head
  exact ⟨_, _, _, _, hkeyword, hname, rfl, rfl, (hrules.2.1 _ _ hkeyword).1 _ _ _ hname⟩

end Lexer

end PieSyntax
