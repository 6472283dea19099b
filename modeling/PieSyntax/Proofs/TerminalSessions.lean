/-
# Terminal sessions and piped input

A session that reads lines decides after each of them whether the entry is finished; on a terminal this
is decided before the session sees the entry, on a text without the end of its last line.  Both decide
alike: one line is what `TypedLine` lists, and the conversations that follow are the same but for blank
entries and for lines that only ask for more.  Main statement: a session on a terminal gets the same
commands, forms and errors from the same lines (`terminal_agrees_with_piped`).
-/
import PieSyntax.Proofs.Entries
import PieSyntax.Proofs.LineEnds

namespace PieSyntax

open Text

/-! ## Replies -/

namespace SessionReply

/-- Whether the reply asks for another line. -/
def isIncomplete : SessionReply → Bool
  | incomplete => true
  | command _ | parsed _ | failed _ => false

/-- `Agrees r r'`: the replies are the same command, hold the same forms or report the same error,
which may go by another name and be shown in a text that ends otherwise. -/
inductive Agrees : SessionReply → SessionReply → Prop
  | command {word} : Agrees (.command word) (.command word)
  | parsed {tree tree'} (hforms : tree.forms = tree'.forms) : Agrees (.parsed tree) (.parsed tree')
  | failed {e name name' source source'} :
      Agrees (.failed (.malformed e name source)) (.failed (.malformed e name' source'))

namespace Agrees

variable {r r' : SessionReply}

/-- A reply in agreement with another does not ask for more. -/
theorem isIncomplete_eq (h : Agrees r r') : r'.isIncomplete = false := by
  cases h <;> rfl

/-- Replies in agreement end the session together. -/
theorem ends_eq (h : Agrees r r') : r.ends = r'.ends := by
  cases h <;> rfl

end Agrees

end SessionReply

/-! ## Conversations -/

/-- Whether a line between two entries is blank. -/
def Turn.isBlank (t : Turn) : Bool := !t.before.isContinuing && (trim t.line).isEmpty

/-- Whether the turn is more than a blank line or the want of another line. -/
def Turn.counts (t : Turn) : Bool := !t.isBlank && !t.reply.isIncomplete

/-- The turns of a session up to the one that ends it. -/
def Session.conversation (s : Session) : List (List Char) → List Turn
  | [] => []
  | line :: rest =>
    ⟨s, line⟩ :: if (s.feed line).1.ends then [] else (s.feed line).2.conversation rest

/-- The text of an entry that is not blank. -/
def Typed.text? : Typed → Option (List Char)
  | .entry text => if trim text = [] then none else some text
  | .interrupt => none

theorem Typed.text?_of_blank {text : List Char} (h : trim text = []) :
    (Typed.entry text).text? = none :=
  if_pos h

theorem Typed.text?_of_not_blank {text : List Char} (h : trim text ≠ []) :
    (Typed.entry text).text? = some text :=
  if_neg h

/-- The entries that are not blank. -/
def Typing.entries (t : Typing) : List (List Char) := t.items.filterMap Typed.text?

/-- A blank entry in front adds nothing to the entries. -/
theorem Typing.entries_cons_of_blank {text : List Char} (h : trim text = []) (t : Typing) :
    (t.cons (.entry text)).entries = t.entries :=
  List.filterMap_cons_none (Typed.text?_of_blank h)

/-- An entry in front is the first of the entries. -/
theorem Typing.entries_cons {text : List Char} (h : trim text ≠ []) (t : Typing) :
    (t.cons (.entry text)).entries = text :: t.entries :=
  List.filterMap_cons_some (Typed.text?_of_not_blank h)

namespace Session

variable {s : Session} {line : List Char} {rest : List (List Char)}

/-- A conversation stops at a reply that ends the session. -/
theorem conversation_of_ends (h : (s.feed line).1.ends = true) :
    s.conversation (line :: rest) = [⟨s, line⟩] := by
  rw [conversation, if_pos h]

/-- A conversation goes on after any other reply. -/
theorem conversation_of_not_ends (h : (s.feed line).1.ends = false) :
    s.conversation (line :: rest) = ⟨s, line⟩ :: (s.feed line).2.conversation rest := by
  rw [conversation, if_neg (by simp [h])]

/-- A line that ends the session is the last that is answered. -/
theorem run_of_ends {more : List (Option (List Char))} (h : (s.feed line).1.ends = true) :
    (s.run (some line :: more)).effects.filter (fun effect => !effect.isPrompt) =
      (s.feed line).1.effects := by
  rw [run]
  simp only [h, if_true]
  rw [List.filter_cons_of_neg (by simp [isPrompt_print_prompt]), SessionReply.filter_effects]

/-- **Piped input.**  Besides prompts, a session writes its part of the conversation, and an empty line
unless it has been ended. -/
theorem run_conversation (s : Session) (lines : List (List Char)) :
    (s.run (lines.map some)).effects.filter (fun effect => !effect.isPrompt) =
      (s.conversation lines).flatMap (fun t => t.reply.effects) ++
        if (s.conversation lines).any (fun t => t.reply.ends) then [] else [.printLine []] := by
  induction lines generalizing s with
  | nil => simp [run, conversation, isPrompt_print_prompt, Effect.isPrompt_printLine]
  | cons line rest ih =>
    have hreply : (⟨s, line⟩ : Turn).reply = (s.feed line).1 := rfl
    rw [List.map_cons]
    cases hends : (s.feed line).1.ends with
    | true =>
      rw [run_of_ends hends, conversation_of_ends hends, List.flatMap_singleton, List.any_cons,
        hreply, hends, Bool.true_or, if_pos rfl, List.append_nil]
    | false =>
      rw [(run_cons hends).2, ih, conversation_of_not_ends hends, List.flatMap_cons, List.any_cons,
        hreply, hends, Bool.false_or, List.append_assoc]

section Typed

variable {text : List Char} {items : List Typed} {readable : Bool} {history : History}

/-- A blank entry shows nothing but a prompt. -/
theorem runTyped_of_blank (h : trim text = []) :
    (s.runTyped history readable (.entry text :: items)).effects.filter
        (fun effect => !effect.isPrompt) =
      (s.runTyped history readable items).effects.filter (fun effect => !effect.isPrompt) := by
  rw [runTyped, take, if_pos h]
  exact List.filter_cons_of_neg (by decide)

/-- An entry that ends the session shows its reply and nothing after it. -/
theorem runTyped_of_ends (h : trim text ≠ []) (hends : (s.feed text).1.ends = true) :
    (s.runTyped history readable (.entry text :: items)).effects.filter
        (fun effect => !effect.isPrompt) = (s.feed text).1.effects := by
  rw [runTyped, take, if_neg h]
  simp only [hends, if_true]
  rw [List.filter_cons_of_neg (by decide), SessionReply.filter_effects]

/-- Any other entry shows its reply, and the session goes on with the next. -/
theorem runTyped_of_not_ends (h : trim text ≠ []) (hends : (s.feed text).1.ends = false) :
    (s.runTyped history readable (.entry text :: items)).effects.filter
        (fun effect => !effect.isPrompt) =
      (s.feed text).1.effects ++
        ((s.feed text).2.runTyped (history.add text) readable items).effects.filter
          (fun effect => !effect.isPrompt) := by
  rw [runTyped, take, if_neg h]
  simp only [hends, Bool.false_eq_true, if_false]
  rw [List.cons_append, List.filter_cons_of_neg (by decide), List.filter_append,
    SessionReply.filter_effects]

end Typed

/-- **Terminals.**  Besides prompts, a session writes its part of the conversation that it has with the
entries that are not blank, if none is discarded. -/
theorem runTyped_conversation (s : Session) (history : History) (readable : Bool)
    {items : List Typed} (h : .interrupt ∉ items) :
    (s.runTyped history readable items).effects.filter (fun effect => !effect.isPrompt) =
      (s.conversation (items.filterMap Typed.text?)).flatMap (fun t => t.reply.effects) := by
  induction items generalizing s history with
  | nil => rfl
  | cons item rest ih =>
    have hrest : .interrupt ∉ rest := mt (List.mem_cons_of_mem _) h
    cases item with
    | interrupt => exact absurd List.mem_cons_self h
    | entry text =>
      by_cases hblank : trim text = []
      · rw [runTyped_of_blank hblank, List.filterMap_cons_none (Typed.text?_of_blank hblank)]
        exact ih s history hrest
      rw [List.filterMap_cons_some (Typed.text?_of_not_blank hblank)]
      cases hends : (s.feed text).1.ends with
      | true =>
        rw [runTyped_of_ends hblank hends, conversation_of_ends hends, List.flatMap_singleton]
        rfl
      | false =>
        rw [runTyped_of_not_ends hblank hends, conversation_of_not_ends hends, List.flatMap_cons,
          ih _ _ hrest]
        rfl

end Session

/-! ## Entries on a terminal -/

section Entries

variable {settings : Settings} {held line : List Char} {lines : List (Option (List Char))}

/-- A line that completes the entry hands it over. -/
theorem Typing.ofLines_of_completes
    (h : completesEntry settings (held ++ (splitTerminator line).1) = true) :
    Typing.ofLines settings held (some line :: lines) =
      (Typing.ofLines settings [] lines).cons (.entry (held ++ (splitTerminator line).1)) := by
  simp only [ofLines, EntryProgress.ofLine, h, if_true]

/-- A line that leaves the entry open becomes part of it, with its terminator. -/
theorem Typing.ofLines_of_not_completes
    (h : completesEntry settings (held ++ (splitTerminator line).1) = false) :
    Typing.ofLines settings held (some line :: lines) =
      Typing.ofLines settings (held ++ (splitTerminator line).1 ++ (splitTerminator line).2)
        lines := by
  simp only [ofLines, EntryProgress.ofLine, h, Bool.false_eq_true, if_false]

/-- What lines hand over are entries, each of which is complete. -/
theorem Typing.exists_entry_of_mem {item : Typed}
    (h : item ∈ (Typing.ofLines settings held lines).items) :
    ∃ text, item = .entry text ∧ completesEntry settings text = true := by
  induction lines generalizing held with
  | nil => cases h
  | cons line rest ih =>
    cases line with
    | none => cases h
    | some line =>
      cases hdone : completesEntry settings (held ++ (splitTerminator line).1) with
      | true =>
        rw [ofLines_of_completes hdone] at h
        rcases List.mem_cons.1 h with rfl | h
        · exact ⟨_, rfl, hdone⟩
        · exact ih h
      | false =>
        rw [ofLines_of_not_completes hdone] at h
        exact ih h

/-- Lines alone never interrupt a session. -/
theorem Typing.interrupt_not_mem : .interrupt ∉ (Typing.ofLines settings held lines).items := by
  intro h
  obtain ⟨text, htext, -⟩ := exists_entry_of_mem h
  cases htext

/-- Every entry that reaches the session was found complete. -/
theorem Typing.completesEntry_of_mem {text : List Char}
    (h : text ∈ (Typing.ofLines settings held lines).entries) :
    completesEntry settings text = true := by
  obtain ⟨item, hitem, htext⟩ := List.mem_filterMap.1 h
  obtain ⟨text', rfl, hdone⟩ := exists_entry_of_mem hitem
  rw [Typed.text?] at htext
  split at htext
  · cases htext
  · cases htext
    exact hdone

end Entries

/-! ## One line -/

namespace Session

variable {s s' next next' : Session} {line line' : List Char} {reply reply' : SessionReply}
  {v : Verdict}

/-- What a session answers to a line that is no command, by what is said of the text that it reads
with it. -/
inductive Responds (s : Session) (line : List Char) : Verdict → SessionReply → Session → Prop
  | program {tree forms tokens} (hforms : tree.forms = forms) :
      Responds s line (.program forms tokens) (.parsed tree) s.finishEntry
  | incomplete : Responds s line .incomplete .incomplete { s with held := s.held ++ withLineFeed line }
  | rejected {e} : Responds s line (.rejected e)
      (.failed (.malformed e s.entryName (s.held ++ withLineFeed line))) s.finishEntry

/-- The answer to a line that is no command follows from the text that is read with it. -/
theorem responds_of_feeding (h : Feeding s line reply next)
    (hl : s.held = [] → isCommand (trim line) = false) :
    Responds s line (verdict s.settings (s.held ++ withLineFeed line)) reply next := by
  cases h with
  | command hs hcommand =>
    rw [hl hs] at hcommand
    cases hcommand
  | parsed _ hparse =>
    rw [verdict, hparse]
    exact .program rfl
  | incomplete _ hparse he =>
    rw [verdict, hparse, Verdict.ofParse, if_pos he]
    exact .incomplete
  | failed _ hparse he =>
    rw [verdict, hparse, Verdict.ofParse, if_neg (by simp [he])]
    exact .rejected

/-- Unless the text is incomplete, nothing is held afterwards and the session goes on. -/
theorem Responds.held_eq (h : Responds s line v reply next) (hv : v ≠ .incomplete) :
    next.held = [] ∧ reply.ends = false := by
  cases h with
  | incomplete => exact absurd rfl hv
  | program | rejected => exact ⟨rfl, rfl⟩

/-- Equal verdicts give replies in agreement, unless more is asked for. -/
theorem Responds.agrees (h : Responds s line v reply next) (h' : Responds s' line' v reply' next')
    (hv : v ≠ .incomplete) : reply.Agrees reply' := by
  cases h with
  | incomplete => exact absurd rfl hv
  | program hforms =>
    cases h' with
    | program hforms' => exact .parsed (hforms.trans hforms'.symm)
  | rejected =>
    cases h' with
    | rejected => exact .failed

/-- A command between two entries is answered and changes nothing. -/
theorem feed_of_command (hs : s.held = []) (hl : isCommand (trim line) = true) :
    s.feed line = (.command (.ofText (trim line)), s) := by
  rw [feed]
  simp only
  rw [if_pos]
  rw [isContinuing_eq_false_iff.2 hs, hl]
  rfl

/-- A session keeps its settings. -/
theorem settings_feed (s : Session) (line : List Char) : (s.feed line).2.settings = s.settings := by
  have hfeeding := s.feeding line
  generalize (s.feed line).1 = reply at hfeeding
  generalize (s.feed line).2 = next at hfeeding ⊢
  cases hfeeding <;> rfl

/-- The entry on a terminal when the content of `line` follows what `s` holds. -/
def draft (s : Session) (line : List Char) : List Char := s.held ++ (splitTerminator line).1

/-- Between two entries the draft is the line, but for blanks around it. -/
theorem trim_draft (hs : s.held = []) : trim (s.draft line) = trim line := by
  rw [draft, hs, List.nil_append, trim_splitTerminator]

/-- What a line amounts to for the entry that is put together on a terminal, when `s` reads lines. -/
inductive TypedLine (s : Session) (line : List Char) : Prop
  /-- The entry goes on, and the session asks for another line. -/
  | more (hopen : completesEntry s.settings (s.draft line) = false)
      (hreply : (s.feed line).1 = .incomplete)
      (hnext : (s.feed line).2 = { s with held := s.held ++ withLineFeed line })
  /-- The entry is blank, and so is the line. -/
  | blank (hdone : completesEntry s.settings (s.draft line) = true)
      (htrim : trim (s.draft line) = [])
      (hblank : (⟨s, line⟩ : Turn).isBlank = true) (hends : (s.feed line).1.ends = false)
      (hnext : (s.feed line).2.held = [])
  /-- The entry is handed over, and a session that holds nothing answers it as `s` does the line. -/
  | entry (hdone : completesEntry s.settings (s.draft line) = true)
      (htrim : trim (s.draft line) ≠ [])
      (hblank : (⟨s, line⟩ : Turn).isBlank = false) (hnext : (s.feed line).2.held = [])
      (hsame : ∀ s' : Session, s'.settings = s.settings → s'.held = [] →
        (s'.feed (s.draft line)).1.Agrees (s.feed line).1 ∧
          (s'.feed (s.draft line)).2.held = [])

/-- A session holds nothing or a text that is incomplete. -/
theorem HoldsOpenForm.verdict_eq (hs : s.HoldsOpenForm) :
    s.held = [] ∨ verdict s.settings s.held = .incomplete := by
  rcases hs with hheld | ⟨e, he, hincomplete⟩
  · exact Or.inl hheld
  · rw [verdict, he, Verdict.ofParse_error_eq_incomplete_iff]
    exact Or.inr hincomplete

/-- An entry is blank where a blank line stands between two entries. -/
theorem HoldsOpenForm.isBlank_eq (hs : s.HoldsOpenForm) :
    (⟨s, line⟩ : Turn).isBlank = (trim (s.draft line)).isEmpty := by
  rw [Turn.isBlank]
  rcases hs.verdict_eq with hheld | hopen
  · rw [isContinuing_eq_false_iff.2 hheld, trim_draft hheld]
    rfl
  · have hheld : s.isContinuing ≠ false := by
      rw [ne_eq, isContinuing_eq_false_iff]
      intro hheld
      rw [hheld, verdict_blanks s.settings (fun c hc => by cases hc)] at hopen
      cases hopen
    rw [draft, List.isEmpty_eq_false_iff.2 (not_command_of_incomplete hopen _).2,
      eq_true_of_ne_false hheld]
    rfl

/-- A command is handed over as it is, and taken by every session that holds nothing. -/
theorem typedLine_of_command (hs : s.held = []) (hl : isCommand (trim line) = true) :
    TypedLine s line := by
  have htext : trim (s.draft line) = trim line := trim_draft hs
  have hne : trim line ≠ [] := by
    intro hnil
    rw [hnil] at hl
    cases hl
  have hcommand : isCommand (trim (s.draft line)) = true := by
    rw [htext]
    exact hl
  refine .entry ?_ ?_ ?_ ?_ ?_
  · rw [completesEntry, ← isCommand_trim, hcommand]
    rfl
  · rwa [htext]
  · rw [Turn.isBlank, List.isEmpty_eq_false_iff.2 hne, Bool.and_false]
  · rw [feed_of_command hs hl]
    exact hs
  · intro s' _ hs'
    rw [feed_of_command hs hl, feed_of_command hs' hcommand, htext]
    exact ⟨.command, hs'⟩

/-- **One line.**  Terminal and session decide alike. -/
theorem typedLine (hs : s.HoldsOpenForm) (line : List Char) : TypedLine s line := by
  by_cases hcommand : s.held = [] ∧ isCommand (trim line) = true
  · exact typedLine_of_command hcommand.1 hcommand.2
  have hl : s.held = [] → isCommand (trim line) = false := by
    intro hheld
    rw [Bool.eq_false_iff]
    exact fun h => hcommand ⟨hheld, h⟩
  have hresponds := responds_of_feeding (s.feeding line) hl
  rw [verdict_append_withLineFeed, ← draft] at hresponds
  -- An open form makes no command of the text, and leaves no entry blank.
  have hnot : isCommand (s.draft line) = false := by
    rcases hs.verdict_eq with hheld | hopen
    · rw [← isCommand_trim, trim_draft hheld]
      exact hl hheld
    · exact (not_command_of_incomplete hopen _).1
  have hdone : completesEntry s.settings (s.draft line) =
      !needsMoreInput s.settings (s.draft line) := by
    rw [completesEntry, hnot, Bool.false_or]
  by_cases hverdict : verdict s.settings (s.draft line) = .incomplete
  · refine .more ?_ ?_ ?_
    · rw [hdone, needsMoreInput_iff.2 hverdict]
      rfl
    all_goals
      rw [hverdict] at hresponds
      generalize (s.feed line).1 = reply at hresponds ⊢
      generalize (s.feed line).2 = next at hresponds ⊢
      cases hresponds
      rfl
  have hcomplete : completesEntry s.settings (s.draft line) = true := by
    rw [hdone, Bool.not_eq_true', Bool.eq_false_iff]
    exact mt needsMoreInput_iff.1 hverdict
  obtain ⟨hnext, hends⟩ := hresponds.held_eq hverdict
  by_cases htrim : trim (s.draft line) = []
  · exact .blank hcomplete htrim (by rw [hs.isBlank_eq, htrim]; rfl) hends hnext
  · refine .entry hcomplete htrim ?_ hnext fun s' hsettings hs' => ?_
    · rw [hs.isBlank_eq]
      exact List.isEmpty_eq_false_iff.2 htrim
    · have hresponds' := responds_of_feeding (s'.feeding (s.draft line))
        fun _ => by rw [isCommand_trim, hnot]
      rw [hs', List.nil_append, hsettings, verdict_withLineFeed] at hresponds'
      exact ⟨hresponds'.agrees hresponds hverdict, (hresponds'.held_eq hverdict).1⟩

/-! ## Many lines -/

/-- **Many lines.**  A session that holds nothing gets from the entries what a session gets from the
lines, but for blank lines and for lines that ask for more. -/
theorem forall₂_conversation {lines : List (List Char)} (hs : s.HoldsOpenForm) (hs' : s'.held = [])
    (hsettings : s'.settings = s.settings)
    (hlines : lines.IsChain fun line _ => line.getLast? = some '\n') :
    List.Forall₂ SessionReply.Agrees
      ((s'.conversation (Typing.ofLines s.settings s.held (lines.map some)).entries).map Turn.reply)
      (((s.conversation lines).filter Turn.counts).map Turn.reply) := by
  induction lines generalizing s s' with
  | nil => exact .nil
  | cons line rest ih =>
    -- Between two lines the terminal has kept exactly what `s` holds, and `s'` holds nothing.
    have hnext := holdsOpenForm_of_feeding (s.feeding line) hs
    have hkeeps := s.settings_feed line
    rw [List.isChain_cons] at hlines
    obtain ⟨hend, hrest⟩ := hlines
    rw [List.map_cons]
    cases s.typedLine hs line with
    | more hopen hreply hfeed =>
      have hends : (s.feed line).1.ends = false := by rw [hreply]; rfl
      have hcounts : (⟨s, line⟩ : Turn).counts = false := by
        rw [Turn.counts, Turn.reply, hreply]
        exact Bool.and_false _
      rw [conversation_of_not_ends hends, List.filter_cons_of_neg (by simp [hcounts])]
      rw [Typing.ofLines_of_not_completes hopen]
      cases rest with
      | nil => exact .nil
      | cons line' rest =>
        -- Another line follows, so that this one ends with a line feed and is held as it is.
        have hheld : (s.feed line).2.held =
            s.held ++ (splitTerminator line).1 ++ (splitTerminator line).2 := by
          rw [hfeed, List.append_assoc, append_splitTerminator, withLineFeed, if_pos (hend line' rfl)]
        have hmore := ih hnext hs' (hsettings.trans hkeeps.symm) hrest
        rwa [hkeeps, hheld] at hmore
    | blank hdone htrim hblank hends hheld =>
      have hmore := ih hnext hs' (hsettings.trans hkeeps.symm) hrest
      rw [hkeeps, hheld] at hmore
      rw [conversation_of_not_ends hends, List.filter_cons_of_neg (by simp [Turn.counts, hblank])]
      rw [Typing.ofLines_of_completes hdone, ← draft, Typing.entries_cons_of_blank htrim]
      exact hmore
    | entry hdone htrim hblank hheld hsame =>
      obtain ⟨hagrees, hheld'⟩ := hsame s' hsettings hs'
      have hcounts : (⟨s, line⟩ : Turn).counts = true := by
        rw [Turn.counts, hblank, Turn.reply, hagrees.isIncomplete_eq]
        rfl
      rw [Typing.ofLines_of_completes hdone, ← draft, Typing.entries_cons htrim]
      cases hends : (s.feed line).1.ends with
      | true =>
        rw [conversation_of_ends hends, conversation_of_ends (hagrees.ends_eq.trans hends),
          List.filter_cons_of_pos hcounts]
        exact .cons hagrees .nil
      | false =>
        rw [conversation_of_not_ends hends,
          conversation_of_not_ends (hagrees.ends_eq.trans hends),
          List.filter_cons_of_pos hcounts]
        refine .cons hagrees ?_
        have hmore := ih hnext hheld' ((s'.settings_feed _).trans (hsettings.trans hkeeps.symm)) hrest
        rwa [hkeeps, hheld] at hmore

/-- An entry that is handed over is never found to lack more lines. -/
theorem isIncomplete_feed {entry : List Char} (hs : s.held = [])
    (h : completesEntry s.settings entry = true) :
    (s.feed entry).1.isIncomplete = false ∧ (s.feed entry).2.held = [] := by
  have hfeeding := s.feeding entry
  generalize (s.feed entry).1 = reply at hfeeding ⊢
  generalize (s.feed entry).2 = next at hfeeding ⊢
  cases hfeeding with
  | command => exact ⟨rfl, hs⟩
  | parsed | failed => exact ⟨rfl, rfl⟩
  | incomplete hl hparse he =>
    have hverdict : verdict s.settings (s.held ++ withLineFeed entry) = .incomplete := by
      rw [verdict, hparse, Verdict.ofParse_error_eq_incomplete_iff]
      exact he
    rw [hs, List.nil_append, verdict_withLineFeed] at hverdict
    rw [completesEntry, ← isCommand_trim, hl hs, needsMoreInput_iff.2 hverdict] at h
    cases h

/-- Fed with entries that are handed over, a session never holds anything between two of them. -/
theorem held_eq_of_conversation {entries : List (List Char)} (hs : s.held = [])
    (h : ∀ entry ∈ entries, completesEntry s.settings entry = true) :
    ∀ t ∈ s.conversation entries, t.before.held = [] ∧ t.after.held = [] := by
  induction entries generalizing s with
  | nil => exact fun t ht => absurd ht List.not_mem_nil
  | cons entry rest ih =>
    obtain ⟨hentry, hrest⟩ := List.forall_mem_cons.1 h
    have hnext := (isIncomplete_feed hs hentry).2
    intro t ht
    rcases List.mem_cons.1 ht with rfl | ht
    · exact ⟨hs, hnext⟩
    · split at ht
      · cases ht
      · refine ih hnext ?_ t ht
        rw [settings_feed]
        exact hrest

end Session

/-- **Terminals and pipes.**  From the same lines a session on a terminal gets the commands, the forms
and the errors that a session gets into which they are piped, but for blank entries and lines that ask
for more, and it ends at the same command; it holds nothing whenever it reads.  What is written, besides
prompts, are the replies in both conversations.  No entry that a terminal hands over is found to lack
more lines. -/
theorem terminal_agrees_with_piped (settings : Settings) (history : History) (text : List Char) :
    let typing := Typing.ofLines settings [] (byteLines (encode text))
    let typed := Session.conversation { settings } typing.entries
    let piped := Session.conversation { settings } (lines text)
    List.Forall₂ SessionReply.Agrees (typed.map Turn.reply)
        ((piped.filter Turn.counts).map Turn.reply) ∧
      (∀ t ∈ typed, t.before.held = [] ∧ t.after.held = []) ∧
      (Session.runTerminal { settings } history typing).effects.filter
          (fun effect => !effect.isPrompt) = typed.flatMap (fun t => t.reply.effects) ∧
      (Session.run { settings } (byteLines (encode text))).effects.filter
          (fun effect => !effect.isPrompt) =
        piped.flatMap (fun t => t.reply.effects) ++
          (if piped.any (fun t => t.reply.ends) then [] else [.printLine []]) ∧
      ∀ (s : Session) (entry : List Char), s.settings = settings → s.held = [] →
        completesEntry settings entry = true →
        (s.feed entry).1.isIncomplete = false ∧ (s.feed entry).2.held = [] := by
  intro typing typed piped
  refine ⟨?_, ?_, ?_, ?_, ?_⟩
  · have hstart : Session.HoldsOpenForm { settings } := Or.inl rfl
    show List.Forall₂ _ ((Session.conversation { settings }
      (Typing.ofLines settings [] (byteLines (encode text))).entries).map _) _
    rw [byteLines_encode]
    exact Session.forall₂_conversation hstart rfl rfl (isChain_cutAfter '\n' text)
  · exact Session.held_eq_of_conversation rfl fun entry hentry =>
      Typing.completesEntry_of_mem hentry
  · exact Session.runTyped_conversation _ history _ Typing.interrupt_not_mem
  · rw [byteLines_encode]
    exact Session.run_conversation _ _
  · rintro s entry rfl hs h
    exact Session.isIncomplete_feed hs h

/-- A comment, a blank line, a form over two lines, a command, a command inside a form, and what
follows the command that ends the session. -/
theorem terminal_agrees_with_piped_commands :
    let text := "; c\r\n\r\n(f\r\n  x)\n:h\n(g\n:q\n:q\nz".toList
    let entries := ["; c", "(f\r\n  x)", ":h", "(g\n:q", ":q", "z"].map String.toList
    (Typing.ofLines {} [] (byteLines (encode text))).entries = entries ∧
      List.Forall₂ SessionReply.Agrees ((Session.conversation ⟨{}, [], 1⟩ entries).map Turn.reply)
        (((Session.conversation ⟨{}, [], 1⟩ (lines text)).filter Turn.counts).map Turn.reply) := by
  intro text entries
  have hentries : (Typing.ofLines {} [] (byteLines (encode text))).entries = entries := by
    rw [byteLines_encode]
    decide +kernel
  refine ⟨hentries, ?_⟩
  rw [← hentries]
  exact (terminal_agrees_with_piped {} {} text).1

end PieSyntax
