/-
# The state of a session

Between two lines a session knows the lines of the entry that is not finished yet and the number of
that entry, and nothing else.  Both can be told from the lines that it has been fed and its replies to
them (`Session.Follows`): one more line keeps this so (`Session.follows_of_turn`), and therefore any
number of them does.  Main statements: in every state that a session can reach, what it holds, its
prompt and its counter follow from the lines before, commands change nothing, and a rejected entry is
reported under its number with all of its lines (`session_state`); a command is not among them, even
if it comes after the last entry that was finished (`session_state_drops_command`).
-/
import Mathlib.Data.List.DropRight
import PieSyntax.Proofs.Sessions
import PieSyntax.Proofs.ErrorPlaces

namespace PieSyntax

namespace SessionReply

/-- Whether the reply finishes an entry. -/
def finishes : SessionReply → Bool
  | parsed _ | failed _ => true
  | command _ | incomplete => false

/-- Whether the line was a command. -/
def isCommand : SessionReply → Bool
  | command _ => true
  | _ => false

end SessionReply

/-! ## Turns -/

/-- A line that a session is fed, and the session before it. -/
structure Turn where
  before : Session
  line : List Char

namespace Turn

/-- What the session answers. -/
def reply (t : Turn) : SessionReply := (t.before.feed t.line).1

/-- The session behind the line. -/
def after (t : Turn) : Session := (t.before.feed t.line).2

/-- A turn is one of those that one line may amount to. -/
theorem feeding (t : Turn) : Session.Feeding t.before t.line t.reply t.after :=
  t.before.feeding t.line

end Turn

/-- The turns in which lines are fed one after the other. -/
def Session.turns (s : Session) : List (List Char) → List Turn
  | [] => []
  | line :: rest => ⟨s, line⟩ :: (s.feed line).2.turns rest

/-! ## Unfinished entries -/

/-- The turns since the last entry was finished. -/
def turnsSinceEntry (turns : List Turn) : List Turn := turns.rtakeWhile fun t => !t.reply.finishes

/-- The lines of the entry that is not finished yet: those fed since the last entry was finished,
but for the commands. -/
def openLines (turns : List Turn) : List (List Char) :=
  ((turnsSinceEntry turns).filter fun t => !t.reply.isCommand).map Turn.line

section OpenLines

variable {turns : List Turn} {t : Turn}

/-- A turn that finishes no entry is one of those since the last that did. -/
theorem turnsSinceEntry_concat (h : t.reply.finishes = false) :
    turnsSinceEntry (turns ++ [t]) = turnsSinceEntry turns ++ [t] :=
  List.rtakeWhile_concat_pos _ _ _ (by rw [h]; rfl)

/-- A line that finishes an entry leaves none open. -/
theorem openLines_concat_of_finishes (h : t.reply.finishes = true) :
    openLines (turns ++ [t]) = [] := by
  rw [openLines, turnsSinceEntry, List.rtakeWhile_concat_neg _ _ _ (by simp [h])]
  rfl

/-- A command adds nothing to the entry behind it. -/
theorem openLines_concat_of_command {word : SessionCommand} (h : t.reply = .command word) :
    openLines (turns ++ [t]) = openLines turns := by
  rw [openLines, turnsSinceEntry_concat (by rw [h]; rfl), List.filter_append,
    List.filter_cons_of_neg (by simp [h, SessionReply.isCommand]), List.filter_nil, List.append_nil]
  rfl

/-- A line that leaves a form open is the last of the entry so far. -/
theorem openLines_concat_of_incomplete (h : t.reply = .incomplete) :
    openLines (turns ++ [t]) = openLines turns ++ [t.line] := by
  rw [openLines, turnsSinceEntry_concat (by rw [h]; rfl), List.filter_append,
    List.filter_cons_of_pos (by simp [h, SessionReply.isCommand]), List.filter_nil, List.map_append]
  rfl

end OpenLines

/-! ## What a session knows -/

namespace Session

/-- `Follows settings s turns`: a session that was new before `turns` and is `s` behind them knows
the lines of the entry that is not finished yet and the number of that entry. -/
structure Follows (settings : Settings) (s : Session) (turns : List Turn) : Prop where
  settings_eq : s.settings = settings
  held_eq : s.held = (openLines turns).flatMap withLineFeed
  needs : s.held = [] ∨ needsMoreInput settings s.held = true
  prompt_iff : s.prompt = continuationPrompt ↔ ∃ t ∈ turns.getLast?, t.reply = .incomplete
  entry_eq : s.entry = 1 + turns.countP fun t => t.reply.finishes

/-- The prompt tells whether anything is held. -/
theorem prompt_eq_continuationPrompt_iff (s : Session) :
    s.prompt = continuationPrompt ↔ s.held ≠ [] := by
  rw [prompt]
  split
  · next h => simpa [isContinuing] using h
  · next h =>
    have hne : entryPrompt ≠ continuationPrompt := by decide
    simpa [isContinuing, hne] using h

/-- A new session knows that it has been fed nothing. -/
theorem follows_new (settings : Settings) : Follows settings { settings } [] where
  settings_eq := rfl
  held_eq := rfl
  needs := Or.inl rfl
  prompt_iff := by simp [prompt_eq_continuationPrompt_iff]
  entry_eq := rfl

variable {settings : Settings} {s : Session} {turns : List Turn}

/-- **One line.**  Every line leaves a session that knows the lines so far. -/
theorem follows_of_turn {t : Turn} (h : t.before.Follows settings turns) :
    t.after.Follows settings (turns ++ [t]) := by
  have hfeeding := t.feeding
  generalize hreply : t.reply = reply at hfeeding
  generalize t.after = next at hfeeding ⊢
  have hlast : (∃ u ∈ (turns ++ [t]).getLast?, u.reply = .incomplete) ↔ reply = .incomplete := by
    simp [hreply]
  have hcount : ((turns ++ [t]).countP fun u => u.reply.finishes) =
      (turns.countP fun u => u.reply.finishes) + if reply.finishes then 1 else 0 := by
    rw [List.countP_append, List.countP_singleton, hreply]
  cases hfeeding with
  | command hheld =>
    refine ⟨h.settings_eq, ?_, h.needs, ?_, ?_⟩
    · rw [openLines_concat_of_command hreply, h.held_eq]
    · rw [hlast, prompt_eq_continuationPrompt_iff, hheld]
      simp
    · rw [hcount, h.entry_eq]
      rfl
  | parsed | failed =>
    refine ⟨h.settings_eq, ?_, Or.inl rfl, ?_, ?_⟩
    · rw [openLines_concat_of_finishes (by rw [hreply]; rfl)]
      rfl
    · rw [hlast, prompt_eq_continuationPrompt_iff]
      simp [finishEntry]
    · rw [hcount, finishEntry, h.entry_eq, Nat.add_assoc]
      rfl
  | incomplete hl hparse he =>
    -- What is held now ends with a line feed, so that something is.
    have hne : t.before.held ++ withLineFeed t.line ≠ [] := by
      obtain ⟨body, hbody⟩ := exists_withLineFeed t.line
      simp [hbody]
    refine ⟨h.settings_eq, ?_, Or.inr ?_, ?_, ?_⟩
    · rw [openLines_concat_of_incomplete hreply, List.flatMap_append, ← h.held_eq,
        List.flatMap_singleton]
    · rw [needsMoreInput, ← h.settings_eq, hparse]
      exact he
    · rw [hlast, prompt_eq_continuationPrompt_iff]
      exact iff_of_true hne rfl
    · rw [hcount]
      exact h.entry_eq

/-- **Many lines.**  A session knows the lines that it has been fed. -/
theorem follows_afterAll (h : s.Follows settings turns) (lines : List (List Char)) :
    (s.afterAll lines).Follows settings (turns ++ s.turns lines) := by
  induction lines generalizing s turns with
  | nil =>
    rw [Session.turns, List.append_nil]
    exact h
  | cons line rest ih =>
    rw [Session.turns, List.append_cons]
    exact ih (follows_of_turn (t := ⟨s, line⟩) h)

/-- A command is only taken where no form is open, and changes nothing. -/
theorem eq_of_command {t : Turn} {word : SessionCommand} (h : t.reply = .command word) :
    t.after = t.before ∧ t.before.held = [] := by
  have hfeeding := t.feeding
  rw [h] at hfeeding
  generalize t.after = next at hfeeding ⊢
  cases hfeeding with
  | command hheld => exact ⟨rfl, hheld⟩

/-- A rejected entry is reported under its number, with its text and what is wrong with it there. -/
theorem exists_error_of_turn {t : Turn} {failure : Failure} (h : t.reply = .failed failure) :
    ∃ e, failure = .malformed e t.before.entryName (t.before.held ++ withLineFeed t.line) ∧
      ∀ label ∈ e.diagnostic.labels,
        label.span.InBounds (t.before.held ++ withLineFeed t.line) := by
  have hfeeding := t.feeding
  rw [h] at hfeeding
  generalize t.after = next at hfeeding
  cases hfeeding with
  | failed hl hparse he => exact ⟨_, rfl, (explains_of_parse hparse).inBounds⟩

end Session

/-- **The state of a session.**  After any lines a session holds the lines of the entry that is not
finished yet, commands not counted, which need more input, and shows the prompt for more of them; its
counter is one more than the number of entries before.  A command is taken between two entries only
and changes nothing, and a rejected entry is reported under the number that it had, with all of its
lines as the text that the error points into. -/
theorem session_state (settings : Settings) (lines : List (List Char)) :
    (Session.afterAll { settings } lines).Follows settings (Session.turns { settings } lines) ∧
      ∀ t : Turn, t.before = Session.afterAll { settings } lines →
        (∀ word, t.reply = .command word → t.after = t.before ∧ t.before.held = []) ∧
        ∀ failure, t.reply = .failed failure → ∃ e source,
          failure = .malformed e ("<repl:" ++ toString t.before.entry ++ ">") source ∧
          source = (openLines (Session.turns { settings } lines) ++ [t.line]).flatMap
            Session.withLineFeed ∧
          ∀ label ∈ e.diagnostic.labels, label.span.InBounds source := by
  have hfollows := Session.follows_afterAll (Session.follows_new settings) lines
  rw [List.nil_append] at hfollows
  refine ⟨hfollows, fun t ht => ⟨fun word hword => Session.eq_of_command hword, ?_⟩⟩
  intro failure hfailure
  obtain ⟨e, hmalformed, hlabels⟩ := Session.exists_error_of_turn hfailure
  refine ⟨e, _, hmalformed, ?_, hlabels⟩
  rw [List.flatMap_append, List.flatMap_singleton, ht, hfollows.held_eq]

/-- Behind a name and a command, two lines are rejected as the second entry. -/
theorem session_state_rejected :
    ∃ (t : Turn) (e : SyntaxError),
      t = ⟨Session.afterAll ⟨{}, [], 1⟩ ["x".toList, ":help".toList, "(f".toList], "]".toList⟩ ∧
      t.reply = .failed (.malformed e "<repl:2>" "(f\n]\n".toList) ∧
      ∀ label ∈ e.diagnostic.labels, label.span.InBounds "(f\n]\n".toList := by
  obtain ⟨t, ht⟩ : ∃ t : Turn, t = ⟨Session.afterAll ⟨{}, [], 1⟩
    ["x".toList, ":help".toList, "(f".toList], "]".toList⟩ := ⟨_, rfl⟩
  have hreply : t.reply.finishes = true ∧ t.reply.isProgram = false := by rw [ht]; decide +kernel
  have hentry : t.before.entry = 2 := by rw [ht]; decide +kernel
  have hlines : (openLines (Session.turns ⟨{}, [], 1⟩ ["x".toList, ":help".toList, "(f".toList]) ++
      [t.line]).flatMap Session.withLineFeed = "(f\n]\n".toList := by rw [ht]; decide +kernel
  have hstate := (session_state {} _).2 t (by rw [ht])
  refine ⟨t, ?_⟩
  cases h : t.reply with
  | failed failure =>
    obtain ⟨e, source, hfailure, hsource, hlabels⟩ := hstate.2 failure h
    rw [hsource, hlines, hentry] at hfailure
    rw [hsource, hlines] at hlabels
    exact ⟨e, ht, congrArg SessionReply.failed hfailure, hlabels⟩
  | command | incomplete | parsed => simp [h, SessionReply.finishes, SessionReply.isProgram] at hreply

/-- No entry has been finished before a command and an open form, and yet the session does not hold
both lines. -/
theorem session_state_drops_command :
    let lines := [":help".toList, "(f".toList]
    let held := (Session.afterAll ⟨{}, [], 1⟩ lines).held
    let since := (turnsSinceEntry (Session.turns ⟨{}, [], 1⟩ lines)).map Turn.line
    since = lines ∧ held = "(f\n".toList ∧
      ¬(held = [] ∨ held = since.flatMap Session.withLineFeed) := by
  intro lines held since
  have hsince : since = lines := by decide +kernel
  have hheld : held = "(f\n".toList := by decide +kernel
  refine ⟨hsince, hheld, ?_⟩
  rw [hheld, hsince]
  decide

end PieSyntax
