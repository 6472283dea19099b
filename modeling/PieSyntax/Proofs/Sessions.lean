/-
# Sessions and parsing

A session reads a program line by line and sees only the lines so far.  It still makes no mistake:
what it holds back ends inside a form, what it takes as an entry can be read by itself, and what it
turns away no further line would have saved.  Main statements: a session reads from the lines of a
program the forms of the program (`session_agrees_with_parse`), and an entry that is rejected could
never have been completed (`rejection_is_final`).
-/
import PieSyntax.Session
import PieSyntax.Proofs.Concatenation
import PieSyntax.Proofs.Trimming

namespace PieSyntax

open Text

/-! ## Lines -/

namespace Text

/-- A stretch without the mark goes into the piece that follows. -/
theorem cutAfter_append_of_not_mem {α : Type} [DecidableEq α] {mark : α} {u : List α} (hu : u ≠ [])
    (h : mark ∉ u) (v : List α) :
    cutAfter mark (u ++ v) =
      match cutAfter mark v with
      | [] => [u]
      | piece :: pieces => (u ++ piece) :: pieces := by
  induction u with
  | nil => exact absurd rfl hu
  | cons a u ih =>
    obtain ⟨ha, hrest⟩ := not_or.1 (mt List.mem_cons.2 h)
    rw [List.cons_append, cutAfter, if_neg (Ne.symm ha)]
    cases u with
    | nil =>
      rw [List.nil_append]
      cases cutAfter mark v <;> rfl
    | cons b u =>
      rw [ih (List.cons_ne_nil b u) hrest]
      cases cutAfter mark v <;> rfl

/-- Only a line feed is encoded with the byte of a line feed. -/
theorem lineFeed_not_mem_utf8EncodeChar {c : Char} (hc : c ≠ '\n') :
    (10 : UInt8) ∉ String.utf8EncodeChar c := by
  have hval : c.val.toNat ≠ 10 := fun h => hc (Char.toNat_inj.1 h)
  have hbyte : ∀ n, n < 256 → n ≠ 10 → (10 : UInt8) ≠ UInt8.ofNat n := by
    intro n hn hne heq
    have htoNat : 10 = n % 256 := congrArg UInt8.toNat heq
    omega
  rw [String.utf8EncodeChar]
  intro hmem
  split_ifs at hmem
  all_goals simp only [List.mem_cons, List.not_mem_nil, or_false] at hmem
  · exact hbyte _ (by omega) hval hmem
  · rcases hmem with h | h <;> exact hbyte _ (by omega) (by omega) h
  · rcases hmem with h | h | h <;> exact hbyte _ (by omega) (by omega) h
  · rcases hmem with h | h | h | h <;> exact hbyte _ (by omega) (by omega) h

/-- Encoding a text and cutting it into lines can be done in either order. -/
theorem cutAfter_encode (text : List Char) : cutAfter 10 (encode text) = (lines text).map encode := by
  induction text with
  | nil => rfl
  | cons c rest ih =>
    rw [encode, List.flatMap_cons, ← encode, lines, cutAfter, ← lines]
    split
    · next hc =>
      rw [hc, List.map_cons, ← ih]
      rfl
    · next hc =>
      have hne : String.utf8EncodeChar c ≠ [] := by simp
      rw [cutAfter_append_of_not_mem hne (lineFeed_not_mem_utf8EncodeChar hc), ih]
      cases lines rest with
      | nil => simp [encode]
      | cons => simp [encode]

/-- The lines of an encoded text are the lines of the text. -/
theorem byteLines_encode (text : List Char) : byteLines (encode text) = (lines text).map some := by
  rw [byteLines, cutAfter_encode, List.map_map]
  refine List.map_congr_left fun line _ => ?_
  exact decode?_encode line

end Text

/-! ## Commands are no programs -/

/-- A colon begins no token. -/
theorem lexeme_colon (arrows : Bool) (mode : LexMode) (rest : List Char) :
    lexeme arrows mode (':' :: rest) = .error (.unrecognized ':') := by
  have hlambda : ¬ (decide (':' = '\\') && mode.allows arrows .lambda) = true := by simp
  rw [lexeme, if_neg (by decide), if_neg (by decide), if_neg (by decide), if_neg hlambda,
    if_neg (by decide), if_neg (by decide)]

/-- A line that is a command begins no program, and no more text would make it one. -/
theorem exists_error_of_isCommand (settings : Settings) {line : List Char}
    (h : isCommand (trim line) = true) (more : List Char) :
    ∃ e, parse settings (line ++ more) = .error e ∧ e.isIncomplete = false := by
  rw [isCommand_trim] at h
  obtain ⟨blanks, rest, rfl, hblanks⟩ := exists_blanks_of_isCommand h
  have hcolon : Cursor.trivia? (':' :: (rest ++ more)) = none := by
    rw [Cursor.trivia?_eq_none_iff]
    rintro c hc
    cases hc
    decide
  have hcursor : (Cursor.skipTrivia ⟨0, blanks ++ ':' :: (rest ++ more)⟩).2 =
      ⟨0 + byteLength blanks, ':' :: (rest ++ more)⟩ := by
    rw [Cursor.skipTrivia_gap (.of_blanks hblanks), Cursor.skipTrivia_of_none hcolon]
  rw [List.append_assoc, List.cons_append]
  have hnext : ∃ e last, (Lexer.ofSource settings.arrows
      (blanks ++ ':' :: (rest ++ more))).next .plain = (.error e, last) := by
    simp only [Lexer.next, Lexer.ofSource, Cursor.start, hcursor, lexeme_colon]
    exact ⟨_, _, rfl⟩
  obtain ⟨e, last, he⟩ := hnext
  exact ⟨_, Parser.run_of_ending (.lexical he), rfl⟩

/-! ## One line -/

namespace Session

/-- What is held back ends inside an open form. -/
def HoldsOpenForm (s : Session) : Prop :=
  s.held = [] ∨ ∃ e, parse s.settings s.held = .error e ∧ e.isIncomplete = true

/-- What one line may amount to: `Feeding s line reply next` says that `s` answers `line` with
`reply` and goes on as `next`. -/
inductive Feeding (s : Session) (line : List Char) : SessionReply → Session → Prop
  | command (hs : s.held = []) (hl : isCommand (trim line) = true) :
      Feeding s line (.command (.ofText (trim line))) s
  | parsed {tree} (hl : s.held = [] → isCommand (trim line) = false)
      (h : parse s.settings (s.held ++ withLineFeed line) = .ok tree) :
      Feeding s line (.parsed tree) s.finishEntry
  | incomplete {e} (hl : s.held = [] → isCommand (trim line) = false)
      (h : parse s.settings (s.held ++ withLineFeed line) = .error e) (he : e.isIncomplete = true) :
      Feeding s line .incomplete { s with held := s.held ++ withLineFeed line }
  | failed {e} (hl : s.held = [] → isCommand (trim line) = false)
      (h : parse s.settings (s.held ++ withLineFeed line) = .error e) (he : e.isIncomplete = false) :
      Feeding s line (.failed (.malformed e s.entryName (s.held ++ withLineFeed line)))
        s.finishEntry

theorem isContinuing_eq_false_iff {s : Session} : s.isContinuing = false ↔ s.held = [] := by
  rw [isContinuing, Bool.not_eq_false', List.isEmpty_iff]

/-- **One line.**  Feeding a line is one of the ways listed. -/
theorem feeding (s : Session) (line : List Char) : Feeding s line (s.feed line).1 (s.feed line).2 := by
  rw [feed]
  simp only
  split
  · next h =>
    rw [Bool.and_eq_true, Bool.not_eq_true', isContinuing_eq_false_iff] at h
    exact .command h.1 h.2
  · next h =>
    have hl : s.held = [] → isCommand (trim line) = false := by
      intro hs
      rw [isContinuing_eq_false_iff.2 hs] at h
      simpa using h
    split
    · next tree hparse => exact .parsed hl hparse
    · next e hparse =>
      split
      · next he => exact .incomplete hl hparse he
      · next he => exact .failed hl hparse (Bool.eq_false_iff.2 he)

variable {s next : Session} {line : List Char} {reply : SessionReply}

theorem holdsOpenForm_of_feeding (h : Feeding s line reply next) (hs : s.HoldsOpenForm) :
    next.HoldsOpenForm := by
  cases h with
  | command => exact hs
  | parsed | failed => exact Or.inl rfl
  | incomplete hl h he => exact Or.inr ⟨_, h, he⟩

/-- Each line is read with a line feed at its end. -/
theorem exists_withLineFeed (line : List Char) : ∃ body, withLineFeed line = body ++ ['\n'] := by
  rw [withLineFeed]
  split
  · next h => exact (List.getLast?_eq_some_iff.1 h).imp fun _ => id
  · exact ⟨line, rfl⟩

/-- The line of a command is rejected as the beginning of a program. -/
theorem exists_error_of_command (hs : s.held = []) (hl : isCommand (trim line) = true)
    (more : List Char) : ∃ e, parse s.settings (s.held ++ (withLineFeed line ++ more)) = .error e := by
  have htail : ∃ tail, withLineFeed line = line ++ tail := by
    rw [withLineFeed]
    split
    · exact ⟨[], (List.append_nil line).symm⟩
    · exact ⟨_, rfl⟩
  obtain ⟨tail, htail⟩ := htail
  rw [hs, htail, List.nil_append, List.append_assoc]
  exact (exists_error_of_isCommand s.settings hl _).imp fun _ => And.left

/-- The text read with a line ends with its line feed, behind which the next line follows. -/
theorem exists_lineFeed (s : Session) (line : List Char) :
    ∃ source, s.held ++ withLineFeed line = source ++ ['\n'] ∧
      ∀ more, s.held ++ (withLineFeed line ++ more) = source ++ '\n' :: more := by
  obtain ⟨body, hbody⟩ := exists_withLineFeed line
  refine ⟨s.held ++ body, ?_, fun more => ?_⟩
  · rw [hbody, List.append_assoc]
  · rw [hbody, List.append_assoc, List.append_assoc]
    rfl

/-- A text that is turned away is turned away whatever follows. -/
theorem exists_error_of_failed {failure : Failure}
    (h : Feeding s line (.failed failure) next) (more : List Char) :
    ∃ e, parse s.settings (s.held ++ (withLineFeed line ++ more)) = .error e ∧
      e.isIncomplete = false := by
  obtain ⟨source, htext, hmore⟩ := s.exists_lineFeed line
  cases h with
  | failed hl h he =>
    rw [htext] at h
    rw [hmore]
    exact exists_error_of_parse_lineFeed h he more

/-! ## Line by line -/

/-- The replies to lines that are fed one after the other. -/
def replies (s : Session) : List (List Char) → List SessionReply
  | [] => []
  | line :: rest => (s.feed line).1 :: (s.feed line).2.replies rest

/-- The session after lines have been fed one after the other. -/
def afterAll (s : Session) (lines : List (List Char)) : Session :=
  lines.foldl (fun s line => (s.feed line).2) s

end Session

namespace SessionReply

/-- Whether the line was taken as part of a program. -/
def isProgram : SessionReply → Bool
  | incomplete | parsed _ => true
  | command _ | failed _ => false

/-- The forms that have been completed. -/
def forms : SessionReply → List Node
  | parsed tree => tree.forms
  | _ => []

end SessionReply

namespace Session

variable {s : Session} {lines : List (List Char)}

/-- **Programs.**  The lines of a program are taken as entries, and the forms of the entries are
those of the program. -/
theorem replies_of_parse {tree : SyntaxTree} (hs : s.HoldsOpenForm)
    (h : parse s.settings (s.held ++ lines.flatMap withLineFeed) = .ok tree) :
    (∀ reply ∈ s.replies lines, reply.isProgram = true) ∧ (s.afterAll lines).held = [] ∧
      ((s.replies lines).flatMap SessionReply.forms).map Node.sexp = tree.forms.map Node.sexp := by
  induction lines generalizing s tree with
  | nil =>
    rw [List.flatMap_nil, List.append_nil] at h
    rcases hs with hheld | ⟨e, he, -⟩
    · obtain ⟨gap, hgap, hforms, -⟩ := exists_tree_of_lastGap s.settings .nil
      rw [hheld, hgap] at h
      cases h
      refine ⟨fun _ hr => absurd hr List.not_mem_nil, hheld, ?_⟩
      rw [hforms]
      rfl
    · rw [h] at he
      cases he
  | cons line rest ih =>
    have hfeed := s.feeding line
    have hnext := holdsOpenForm_of_feeding hfeed hs
    obtain ⟨source, htext, hmore⟩ := s.exists_lineFeed line
    rw [List.flatMap_cons] at h
    rw [replies, afterAll, List.foldl_cons, ← afterAll, List.flatMap_cons, List.map_append]
    generalize (s.feed line).1 = reply at hfeed ⊢
    generalize (s.feed line).2 = next at hfeed hnext ⊢
    cases hfeed with
    | command hheld hl =>
      obtain ⟨e, he⟩ := exists_error_of_command hheld hl (rest.flatMap withLineFeed)
      rw [h] at he
      cases he
    | @parsed first hl hfirst =>
      -- The entry is read by itself, and so are the lines that follow.
      rw [htext] at hfirst
      have hon := continues_of_parse_lineFeed hfirst (rest.flatMap withLineFeed)
      rw [← hmore, h] at hon
      generalize hsecond : parse s.settings (rest.flatMap withLineFeed) = r at hon
      cases hon with
      | tree hforms hkinds =>
        obtain ⟨hprogram, hheld, hsexps⟩ := ih hnext hsecond
        refine ⟨List.forall_mem_cons.2 ⟨rfl, hprogram⟩, hheld, ?_⟩
        rw [hsexps, hforms, List.map_append, List.map_map]
        congr 1
        exact List.map_congr_left fun n _ => (Node.sexp_relocate _ n).symm
    | incomplete hl herr he =>
      rw [← List.append_assoc] at h
      obtain ⟨hprogram, hheld, hsexps⟩ := ih hnext h
      exact ⟨List.forall_mem_cons.2 ⟨rfl, hprogram⟩, hheld, hsexps⟩
    | failed hl herr he =>
      obtain ⟨e', he', -⟩ := exists_error_of_failed (.failed hl herr he) (rest.flatMap withLineFeed)
      rw [h] at he'
      cases he'

/-- Lines that are all taken as entries, with no form open at the end, are a program. -/
theorem exists_tree_of_replies (h : ∀ reply ∈ s.replies lines, reply.isProgram = true)
    (hend : (s.afterAll lines).held = []) :
    ∃ tree, parse s.settings (s.held ++ lines.flatMap withLineFeed) = .ok tree := by
  induction lines generalizing s with
  | nil =>
    obtain ⟨gap, hgap, -⟩ := exists_tree_of_lastGap s.settings .nil
    have hheld : s.held = [] := hend
    rw [hheld]
    exact ⟨gap, hgap⟩
  | cons line rest ih =>
    have hfeed := s.feeding line
    obtain ⟨source, htext, hmore⟩ := s.exists_lineFeed line
    rw [replies] at h
    obtain ⟨hreply, hrest⟩ := List.forall_mem_cons.1 h
    have hafter : ((s.feed line).2.afterAll rest).held = [] := hend
    rw [List.flatMap_cons]
    have htail := ih hrest hafter
    generalize (s.feed line).1 = reply at hfeed hreply
    generalize (s.feed line).2 = next at hfeed htail
    cases hfeed with
    | command | failed => cases hreply
    | parsed hl hfirst =>
      -- The entry is a text of its own, and so are the lines behind it.
      obtain ⟨second, hsecond⟩ := htail
      rw [htext] at hfirst
      have hon := continues_of_parse_lineFeed hfirst (rest.flatMap withLineFeed)
      have hsecond' : parse s.settings (rest.flatMap withLineFeed) = .ok second := hsecond
      rw [hsecond', ← hmore] at hon
      generalize parse s.settings (s.held ++ _) = r at hon
      cases hon with
      | @tree _ tree => exact ⟨tree, rfl⟩
    | incomplete =>
      obtain ⟨tree, htree⟩ := htail
      rw [← List.append_assoc]
      exact ⟨tree, htree⟩

/-- The lines of a text are read as the text itself, but for a line feed at its end. -/
theorem flatMap_withLineFeed_lines (text : List Char) :
    (Text.lines text).flatMap withLineFeed = text ∨
      (Text.lines text).flatMap withLineFeed = text ++ ['\n'] := by
  induction text with
  | nil => exact Or.inl rfl
  | cons c rest ih =>
    rw [lines, cutAfter, ← lines]
    split
    · next hc =>
      subst hc
      exact ih.imp (congrArg (['\n'] ++ ·)) (congrArg (['\n'] ++ ·))
    · next hc =>
      have hflat := flatten_lines rest
      have hne : ∀ piece ∈ lines rest, piece ≠ [] := fun _ h => ne_nil_of_mem_cutAfter h
      cases hlines : lines rest with
      | nil =>
        rw [hlines] at hflat
        obtain rfl : [] = rest := hflat
        right
        simp [withLineFeed, hc]
      | cons piece pieces =>
        rw [hlines] at ih hne
        have hpiece := hne piece List.mem_cons_self
        have hline : withLineFeed (c :: piece) = c :: withLineFeed piece := by
          rw [withLineFeed, withLineFeed, List.getLast?_cons_of_ne_nil hpiece]
          split <;> rfl
        rw [List.flatMap_cons] at ih
        rw [List.flatMap_cons, hline]
        exact ih.imp (congrArg (c :: ·)) (congrArg (c :: ·))

end Session

/-! ## What is written -/

/-- Whether a prompt is written. -/
def Effect.isPrompt : Effect → Bool
  | .write [.text text] => text == Session.entryPrompt || text == Session.continuationPrompt
  | _ => false

/-- A line is no prompt. -/
theorem Effect.isPrompt_printLine (text : List Char) : (printLine text).isPrompt = false := by
  have hlast : ∀ prompt : List Char, prompt.getLast? = some ' ' →
      (text ++ ['\n'] == prompt) = false := by
    intro prompt hprompt
    rw [beq_eq_false_iff_ne]
    rintro rfl
    rw [List.getLast?_concat] at hprompt
    cases hprompt
  rw [printLine, print, isPrompt, hlast _ (by decide), hlast _ (by decide)]
  rfl

namespace SessionReply

/-- No reply looks like a prompt. -/
theorem isPrompt_of_mem_effects {reply : SessionReply} {effect : Effect} (h : effect ∈ reply.effects) :
    effect.isPrompt = false := by
  cases reply with
  | command word =>
    cases word with
    | help =>
      obtain ⟨line, -, rfl⟩ := List.mem_map.1 h
      exact Effect.isPrompt_printLine _
    | quit => cases h
    | unknown text =>
      rw [List.mem_singleton.1 h]
      exact Effect.isPrompt_printLine _
  | incomplete => cases h
  | parsed tree =>
    obtain ⟨form, -, rfl⟩ := List.mem_map.1 h
    exact Effect.isPrompt_printLine _
  | failed failure =>
    rw [List.mem_singleton.1 h]
    rfl

theorem filter_effects (reply : SessionReply) :
    reply.effects.filter (fun effect => !effect.isPrompt) = reply.effects := by
  rw [List.filter_eq_self]
  intro effect heffect
  rw [isPrompt_of_mem_effects heffect]
  rfl

/-- A line of a program is answered with the forms that it completes. -/
theorem effects_of_isProgram {reply : SessionReply} (h : reply.isProgram = true) :
    reply.effects = reply.forms.map fun form => .printLine form.sexp := by
  cases reply with
  | incomplete | parsed => rfl
  | command | failed => cases h

theorem flatMap_effects_of_isProgram {replies : List SessionReply}
    (h : ∀ reply ∈ replies, reply.isProgram = true) :
    replies.flatMap effects = ((replies.flatMap forms).map Node.sexp).map Effect.printLine := by
  rw [List.map_map, List.map_flatMap]
  exact List.flatMap_congr fun reply hreply => effects_of_isProgram (h reply hreply)

theorem ends_of_isProgram {reply : SessionReply} (h : reply.isProgram = true) :
    reply.ends = false := by
  cases reply with
  | incomplete | parsed => rfl
  | command | failed => cases h

end SessionReply

namespace Session

theorem isPrompt_print_prompt (s : Session) : (Effect.print s.prompt).isPrompt = true := by
  rw [prompt]
  split <;> rfl

/-- A line that does not end the session is answered before the lines behind it. -/
theorem run_cons {s : Session} {line : List Char} {rest : List (Option (List Char))}
    (h : (s.feed line).1.ends = false) :
    (s.run (some line :: rest)).readable = ((s.feed line).2.run rest).readable ∧
      (s.run (some line :: rest)).effects.filter (fun effect => !effect.isPrompt) =
        (s.feed line).1.effects ++
          ((s.feed line).2.run rest).effects.filter (fun effect => !effect.isPrompt) := by
  rw [run]
  simp only [h, Bool.false_eq_true, if_false, Transcript.after, true_and]
  rw [List.cons_append, List.filter_cons_of_neg (by simp [isPrompt_print_prompt]),
    List.filter_append, SessionReply.filter_effects]

/-- **Piped input.**  Besides prompts and a last empty line, a session that is not ended writes its
replies. -/
theorem run_of_replies {s : Session} {lines : List (List Char)}
    (h : ∀ reply ∈ s.replies lines, reply.ends = false) :
    (s.run (lines.map some)).readable = true ∧
      (s.run (lines.map some)).effects.filter (fun effect => !effect.isPrompt) =
        (s.replies lines).flatMap SessionReply.effects ++ [.printLine []] := by
  induction lines generalizing s with
  | nil =>
    refine ⟨rfl, ?_⟩
    simp [run, replies, isPrompt_print_prompt, Effect.isPrompt_printLine]
  | cons line rest ih =>
    rw [replies] at h ⊢
    obtain ⟨hreply, hrest⟩ := List.forall_mem_cons.1 h
    obtain ⟨hreadable, heffects⟩ := ih hrest
    rw [List.map_cons]
    refine ⟨(run_cons hreply).1.trans hreadable, ?_⟩
    rw [(run_cons hreply).2, heffects, List.flatMap_cons, List.append_assoc]

end Session

/-! ## The whole -/

/-- The lines of a text are complete if the text is, and hold the same forms. -/
theorem parse_lines_cases (settings : Settings) (source : List Char) :
    (∃ tree tree', parse settings source = .ok tree ∧
        parse settings ((Text.lines source).flatMap Session.withLineFeed) = .ok tree' ∧
        tree'.forms = tree.forms) ∨
      ∃ e e', parse settings source = .error e ∧
        parse settings ((Text.lines source).flatMap Session.withLineFeed) = .error e' := by
  rcases Session.flatMap_withLineFeed_lines source with htext | htext
  · rw [htext]
    cases parse settings source with
    | ok tree => exact Or.inl ⟨tree, tree, rfl, rfl, rfl⟩
    | error e => exact Or.inr ⟨e, e, rfl, rfl⟩
  · rw [htext]
    rcases parse_lineFeed_cases settings source with ⟨tree, tree', h, h', hf, -⟩ | ⟨e, e', h, h', -⟩
    · exact Or.inl ⟨tree, tree', h, h', hf⟩
    · exact Or.inr ⟨e, e', h, h'⟩

/-- **Line by line.**  A text is a program if and only if a new session takes all of its lines as
entries and has no form open at the end; then it reads the forms of the program and, when they are
piped into it, writes them line by line. -/
theorem session_agrees_with_parse (settings : Settings) (source : List Char) :
    ((∃ tree, parse settings source = .ok tree) ↔
      (∀ reply ∈ Session.replies { settings } (Text.lines source), reply.isProgram = true) ∧
        (Session.afterAll { settings } (Text.lines source)).isContinuing = false) ∧
    ∀ tree, parse settings source = .ok tree →
      ((Session.replies { settings } (Text.lines source)).flatMap SessionReply.forms).map Node.sexp =
          tree.forms.map Node.sexp ∧
        (Session.run { settings } (Text.byteLines (Text.encode source))).readable = true ∧
        (Session.run { settings } (Text.byteLines (Text.encode source))).effects.filter
            (fun effect => !effect.isPrompt) =
          (tree.forms.map fun form => .printLine form.sexp) ++ [.printLine []] := by
  have hstart : Session.HoldsOpenForm { settings } := Or.inl rfl
  rw [Session.isContinuing_eq_false_iff]
  rcases parse_lines_cases settings source with ⟨tree, tree', h, h', hforms⟩ | ⟨e, e', h, h'⟩
  · obtain ⟨hprogram, hheld, hsexps⟩ := Session.replies_of_parse hstart h'
    rw [hforms] at hsexps
    refine ⟨iff_of_true ⟨tree, h⟩ ⟨hprogram, hheld⟩, fun u hu => ?_⟩
    rw [h] at hu
    cases hu
    have hends : ∀ reply ∈ Session.replies { settings } (Text.lines source), reply.ends = false := by
      intro reply hreply
      exact SessionReply.ends_of_isProgram (hprogram reply hreply)
    obtain ⟨hreadable, heffects⟩ := Session.run_of_replies hends
    rw [Text.byteLines_encode]
    refine ⟨hsexps, hreadable, ?_⟩
    rw [heffects, SessionReply.flatMap_effects_of_isProgram hprogram, hsexps, List.map_map]
    rfl
  · constructor
    · refine iff_of_false ?_ ?_
      · rintro ⟨tree, htree⟩
        rw [h] at htree
        cases htree
      · rintro ⟨hprogram, hheld⟩
        obtain ⟨tree, htree⟩ := Session.exists_tree_of_replies hprogram hheld
        rw [List.nil_append, h'] at htree
        cases htree
    · intro tree htree
      rw [h] at htree
      cases htree

/-- A definition over two lines, a comment behind it and a name on a line without an end. -/
theorem session_agrees_with_parse_definition :
    ∃ tree, parse {} "(define f\n  (λ (x) x)) ; f\ny".toList = .ok tree ∧
      ((Session.replies ⟨{}, [], 1⟩ (Text.lines "(define f\n  (λ (x) x)) ; f\ny".toList)).flatMap
        SessionReply.forms).map Node.sexp = tree.forms.map Node.sexp := by
  have hsome : (parse {} "(define f\n  (λ (x) x)) ; f\ny".toList).toOption.isSome = true := by
    decide +kernel
  obtain ⟨tree, h⟩ := exists_tree_of_isSome hsome
  exact ⟨tree, h, ((session_agrees_with_parse {} _).2 tree h).1⟩

/-- **Rejection.**  A text that is rejected, but not for want of input, is rejected whatever lines
follow it; and so a session that turns an entry away gives up nothing that more lines would have
made a program. -/
theorem rejection_is_final (settings : Settings) :
    (∀ source more e, parse settings source = .error e → e.isIncomplete = false →
      ∃ e', parse settings (source ++ '\n' :: more) = .error e' ∧ e'.isIncomplete = false) ∧
    ∀ (s next : Session) (line : List Char) (failure : Failure), s.settings = settings →
      s.feed line = (.failed failure, next) → ∀ more,
        ∃ e, parse settings (s.held ++ (Session.withLineFeed line ++ more)) = .error e ∧
          e.isIncomplete = false := by
  constructor
  · intro source more e h he
    exact exists_error_of_parse_append h he Text.isNameBody_lineFeed
  · intro s next line failure hsettings hfeed more
    have hfeeding := s.feeding line
    rw [hfeed] at hfeeding
    rw [← hsettings]
    exact Session.exists_error_of_failed hfeeding more

/-- A definition without a name, and one with two values that a session was about to read. -/
theorem rejection_is_final_define :
    (∃ e, parse {} "(define (f) x)\n(g)".toList = .error e ∧ e.isIncomplete = false) ∧
      ∃ failure next, Session.feed ⟨{}, "(define f\n".toList, 1⟩ "x y".toList =
          (.failed failure, next) ∧
        ∃ e, parse {} "(define f\nx y\n)".toList = .error e ∧ e.isIncomplete = false := by
  constructor
  · have hnone : (parse {} "(define (f) x)".toList).toOption.isSome = false := by decide +kernel
    have hfinal : needsMoreInput {} "(define (f) x)".toList = false := by decide +kernel
    cases h : parse {} "(define (f) x)".toList with
    | ok tree => rw [h] at hnone; cases hnone
    | error e =>
      rw [needsMoreInput, h] at hfinal
      exact (rejection_is_final {}).1 _ "(g)".toList e h hfinal
  · have hturned : (Session.feed ⟨{}, "(define f\n".toList, 1⟩ "x y".toList).1.isProgram = false := by
      decide +kernel
    have hfeeding := Session.feeding ⟨{}, "(define f\n".toList, 1⟩ "x y".toList
    cases h : Session.feed ⟨{}, "(define f\n".toList, 1⟩ "x y".toList with
    | mk reply next =>
      rw [h] at hturned hfeeding
      cases hfeeding with
      | command hs => cases hs
      | failed => exact ⟨_, _, rfl, (rejection_is_final {}).2 _ _ _ _ rfl h [')']⟩
      | parsed | incomplete => cases hturned

end PieSyntax
