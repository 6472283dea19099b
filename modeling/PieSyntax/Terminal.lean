/-
# Terminal sessions

On a terminal, an entry is put together before the session sees it: as long as a form is open, the
end of a line becomes part of the entry.  A terminal without editing hands over lines; one with
editing hands over keys, of which some have a meaning of their own.  One line
(`EntryProgress.ofLine`) and one item (`Session.take`) are answered by themselves, so that a terminal
can be served as it is read.
-/
import PieSyntax.Session
import PieSyntax.History

namespace PieSyntax

/-! ## What is typed -/

/-- Something that the terminal hands over. -/
inductive Typed where
  | entry (text : List Char)
  /-- The entry is discarded. -/
  | interrupt
deriving DecidableEq

/-- All that the terminal hands over. -/
structure Typing where
  items : List Typed
  /-- Whether it ends with the end of the input, not with a line that is no text. -/
  readable : Bool
deriving DecidableEq

/-- One more item in front. -/
def Typing.cons (item : Typed) (t : Typing) : Typing := { t with items := item :: t.items }

/-- Whether the end of a line completes the entry. -/
def completesEntry (settings : Settings) (text : List Char) : Bool :=
  isCommand text || !needsMoreInput settings text

/-! ## Without editing -/

/-- An entry behind one of its lines. -/
inductive EntryProgress where
  | complete (entry : List Char)
  /-- More lines are to be added to the text so far. -/
  | unfinished (held : List Char)

/-- Adds a line to the lines in `held`.  The terminator of the line is dropped, and put back if the
entry goes on. -/
def EntryProgress.ofLine (settings : Settings) (held line : List Char) : EntryProgress :=
  let (content, terminator) := Text.splitTerminator line
  let text := held ++ content
  if completesEntry settings text then complete text else unfinished (text ++ terminator)

/-- The entries made of lines, after the lines in `held`. -/
def Typing.ofLines (settings : Settings) (held : List Char) : List (Option (List Char)) → Typing
  | [] => ⟨[], true⟩
  | none :: _ => ⟨[], false⟩
  | some line :: rest =>
    match EntryProgress.ofLine settings held line with
    | .complete entry => .cons (.entry entry) (ofLines settings [] rest)
    | .unfinished held => ofLines settings held rest

/-! ## With editing -/

/-- The longest text that `s` and `t` both start with. -/
def commonStart : List Char → List Char → List Char
  | a :: s, b :: t => if a = b then a :: commonStart s t else []
  | _, _ => []

/-- The commands that `text` is the start of. -/
def completions (text : List Char) : List (List Char) :=
  if text.head? = some ':' && !text.any Text.isBlank then
    SessionCommand.spellings.filter (text.isPrefixOf ·)
  else []

/-- `text` drawn out as far as all its completions agree. -/
def complete (text : List Char) : List Char :=
  match completions text with
  | [] => text
  | first :: others =>
    let shared := others.foldl commonStart first
    if text.length < shared.length then shared else text

/-- The entries made of keys, after the keys in `held`.  Enter completes the entry or becomes a line
feed; Tab draws a command out; Ctrl-C discards the entry, and Ctrl-D ends the input where no entry has
been begun. -/
def Typing.ofKeys (settings : Settings) (held : List Char) : List Char → Typing
  | [] => ⟨[], true⟩
  | key :: rest =>
    if key = '\r' then
      if completesEntry settings held then .cons (.entry held) (ofKeys settings [] rest)
      else ofKeys settings (held ++ ['\n']) rest
    else if key = '\t' then ofKeys settings (complete held) rest
    else if key = '\x03' then .cons .interrupt (ofKeys settings [] rest)
    else if key = '\x04' then if held = [] then ⟨[], true⟩ else ofKeys settings held rest
    else ofKeys settings (held ++ [key]) rest

/-! ## The session -/

/-- What a terminal session did, and the history it leaves. -/
structure TerminalTranscript extends Transcript where
  history : History

/-- What a terminal session makes of one item. -/
structure TypedReply where
  effects : List Effect
  history : History
  /-- The session that goes on, unless it has ended. -/
  next : Option Session

namespace Session

/-- Takes one item.  Blank entries are passed over. -/
def take (s : Session) (history : History) : Typed → TypedReply
  | .interrupt => ⟨[.printLine "CTRL-C".toList], history, some s⟩
  | .entry text =>
    if Text.trim text = [] then ⟨[], history, some s⟩
    else
      let (reply, next) := s.feed text
      ⟨reply.effects, history.add text, if reply.ends then none else some next⟩

/-- Runs the session over what is typed.  Each item is asked for with a prompt. -/
def runTyped (s : Session) (history : History) (readable : Bool) :
    List Typed → TerminalTranscript
  | [] => ⟨⟨[.print entryPrompt], readable⟩, history⟩
  | item :: rest =>
    let reply := s.take history item
    let effects := .print entryPrompt :: reply.effects
    match reply.next with
    | none => ⟨⟨effects, true⟩, reply.history⟩
    | some next =>
      let t := next.runTyped reply.history readable rest
      { t with effects := effects ++ t.effects }

/-- Runs the session on a terminal. -/
def runTerminal (s : Session) (history : History) (typing : Typing) : TerminalTranscript :=
  s.runTyped history typing.readable typing.items

end Session

end PieSyntax
