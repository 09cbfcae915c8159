/-
ContainerFlow.Proofs.CommandLine.Debug — the flag for finding faults is
seen on standard error only.

Put in front of a command line, the flag is the first of the options of
the program, and what is asked for stays the same but for the flag
itself (`read_debug`).  What is done does not depend on it
(`answer_debug`), and of the messages that come of it only those for
finding faults are written in another way (`stdoutText_debug`,
`stderrText_debug`).  So whoever does not read these messages cannot tell
one run from the other: `debug_only_observes`.
-/
import Mathlib
import ContainerFlow.Proofs.CommandLine

namespace ContainerFlow

/-! ## Messages -/

namespace Message

/-- Whether a message is for finding faults. -/
def isForFaults : Message → Bool
  | .trace | .debug _ => true
  | _ => false

variable {debug : Bool} {usagePage tracePage : String}

/-- No message is written to standard output in another way. -/
theorem stdout_debug (m : Message) (other : Bool) :
    m.stdout ⟨debug, usagePage, tracePage⟩ = m.stdout ⟨other, usagePage, tracePage⟩ := by
  cases m with
  | usage askedFor => cases askedFor <;> rfl
  | _ => rfl

theorem stderr_of_isForFaults {m : Message} (h : m.isForFaults = true) :
    m.stderr ⟨false, usagePage, tracePage⟩ = "" := by
  cases m with
  | trace => rfl
  | debug text => rfl
  | _ => cases h

theorem stderr_debug {m : Message} (h : m.isForFaults = false) (other : Bool) :
    m.stderr ⟨debug, usagePage, tracePage⟩ = m.stderr ⟨other, usagePage, tracePage⟩ := by
  cases m with
  | trace => cases h
  | debug text => cases h
  | usage askedFor => cases askedFor <;> rfl
  | _ => rfl

end Message

variable {usagePage tracePage : String}

/-- What is on standard output says nothing about the flag. -/
theorem stdoutText_debug (debug other : Bool) (messages : List Message) :
    stdoutText ⟨debug, usagePage, tracePage⟩ messages =
      stdoutText ⟨other, usagePage, tracePage⟩ messages := by
  induction messages with
  | nil => rfl
  | cons m later ih =>
    unfold stdoutText at ih ⊢
    rw [List.foldr_cons, List.foldr_cons, ih, m.stdout_debug other]

/-- Without the messages for finding faults, standard error is what it is when these are silent. -/
theorem stderrText_debug (debug : Bool) (messages : List Message) :
    stderrText ⟨debug, usagePage, tracePage⟩ (messages.filter (!·.isForFaults)) =
      stderrText ⟨false, usagePage, tracePage⟩ messages := by
  induction messages with
  | nil => rfl
  | cons m later ih =>
    unfold stderrText at ih ⊢
    rw [List.filter_cons, List.foldr_cons]
    cases hm : m.isForFaults with
    | true =>
      rw [Message.stderr_of_isForFaults hm, String.empty_append]
      exact ih
    | false =>
      rw [← ih]
      simp only [Bool.not_false, if_true, List.foldr_cons, Message.stderr_debug hm false]

namespace CommandLine

/-! ## Reading -/

/-- What is asked for, with the flag for finding faults. -/
def Asked.withDebug : Asked → Asked
  | .request r => .request { r with debug := true }
  | asked => asked

/-- In front of all other words the flag is the first option of the program. -/
theorem readParts_debug (words : List String) :
    readParts programOptions false ("--debug" :: words) =
      (readParts programOptions false words).map (·.withOptions [(.debug, "")]) := by
  have hkind : wordKind programOptions "--debug" = .flags [.debug] := by cbv
  rw [readParts, hkind]
  rfl

theorem requestFor_debug (env : Environment) (debug : Bool) (command : Command) (p : Parts)
    (path : String) (more : List String) :
    requestFor env true command p path more =
      (requestFor env debug command p path more).withDebug := by
  unfold requestFor
  split
  · rfl
  · cases more <;> rfl

theorem readCommand_debug (env : Environment) (debug : Bool) (command : Command)
    (words : List String) :
    readCommand env true command words = (readCommand env debug command words).withDebug := by
  unfold readCommand
  cases readParts command.options true words with
  | error why => rfl
  | ok p =>
    simp only
    split
    · rfl
    · split <;> exact requestFor_debug env debug command p _ _

/-- Words of which the first names no command are no request. -/
theorem withDebug_readStray (name : String) (rest : List String) :
    (readStray name rest).withDebug = readStray name rest := by
  unfold readStray
  cases readParts programOptions false (name :: rest) with
  | error why => rfl
  | ok p =>
    simp only
    split <;> rfl

/-- With the flag in front, the same is asked for with the flag. -/
theorem read_debug (env : Environment) (words : List String) :
    read env ("--debug" :: words) = (read env words).withDebug := by
  unfold read
  rw [readParts_debug]
  cases readParts programOptions false words with
  | error why => rfl
  | ok p =>
    have hhelp : (p.withOptions [(.debug, "")]).has .help = p.has .help := rfl
    have hdebug : (p.withOptions [(.debug, "")]).has .debug = true := rfl
    have hwords : (p.withOptions [(.debug, "")]).words = p.words := rfl
    simp only [Except.map, hhelp, hdebug, hwords]
    split
    · rfl
    · cases p.words with
      | nil => rfl
      | cons name rest =>
        simp only
        cases Command.ofName? name with
        | none => exact (withDebug_readStray name rest).symm
        | some command => exact readCommand_debug env (p.has .debug) command rest

/-! ## Doing -/

/-- What a request does is the same with the flag, for no step asks for it: messages for finding
faults are always made, and only the style keeps them silent. -/
theorem answer_debug (host : Host) (r : Request) (debug : Bool) :
    answer host { r with debug } = answer host r := rfl

theorem execute_debug (host : Host) (env : Environment) (words : List String) :
    (execute host env ("--debug" :: words)).1 = (execute host env words).1 := by
  unfold execute
  rw [read_debug]
  cases read env words with
  | request r => exact answer_debug _ r true
  | _ => rfl

/-! ## Command lines without the flag -/

theorem debug_of_requestFor {env : Environment} {debug : Bool} {command : Command} {p : Parts}
    {path : String} {more : List String} {r : Request}
    (h : requestFor env debug command p path more = .request r) : r.debug = debug := by
  unfold requestFor at h
  split at h
  · cases h
  · cases more with
    | nil =>
      cases h
      rfl
    | cons word more => cases h

theorem debug_of_readCommand {env : Environment} {debug : Bool} {command : Command}
    {words : List String} {r : Request} (h : readCommand env debug command words = .request r) :
    r.debug = debug := by
  unfold readCommand at h
  split at h
  · cases h
  · split at h
    · cases h
    · split at h <;> exact debug_of_requestFor h

/-- The flag is an option of the program, and behind the name of a command there are none. -/
theorem debug_eq_false_of_read {env : Environment} {name : String} {words : List String}
    {command : Command} {r : Request} (hname : Command.ofName? name = some command)
    (hread : read env (name :: words) = .request r) : r.debug = false := by
  have hplain : wordKind programOptions name = .plain := by
    unfold Command.ofName? at hname
    split at hname
    · cbv
    · cbv
    · cbv
    · cases hname
  have hparts : readParts programOptions false (name :: words) = .ok ⟨[], name :: words⟩ := by
    rw [readParts, hplain]
    rfl
  unfold read at hread
  rw [hparts] at hread
  simp only [hname] at hread
  exact debug_of_readCommand hread

/-! ## Main result -/

/-- **The flag observes without interfering**: in front of a command line that does without it, it
changes neither how this ends nor what is on standard output, what is started with which arguments
and files, and what is left; and standard error is as it was, but for the messages for finding
faults.  These are shown when there is a request to be answered. -/
theorem debug_only_observes (host : Host) (env : Environment) (words : List String)
    (usagePage tracePage : String)
    (hwords : ∀ r, read env words = .request r → r.debug = false) :
    let quiet := execute host env words
    let loud := execute host env ("--debug" :: words)
    (loud.1.exit = quiet.1.exit ∧
      stdoutText ⟨loud.2, usagePage, tracePage⟩ loud.1.messages =
        stdoutText ⟨quiet.2, usagePage, tracePage⟩ quiet.1.messages ∧
      loud.1.calls = quiet.1.calls ∧ loud.1.tree = quiet.1.tree) ∧
    stderrText ⟨loud.2, usagePage, tracePage⟩ (loud.1.messages.filter (!·.isForFaults)) =
      stderrText ⟨quiet.2, usagePage, tracePage⟩ quiet.1.messages ∧
    ∀ r, read env words = .request r → loud.2 = true := by
  intro quiet loud
  have hsame : loud.1 = quiet.1 := execute_debug host env words
  have hquiet : quiet.2 = false := by
    simp only [quiet, execute]
    cases hread : read env words with
    | request r => exact hwords r hread
    | _ => rfl
  rw [hsame, hquiet]
  refine ⟨⟨rfl, stdoutText_debug _ _ _, rfl, rfl⟩, stderrText_debug _ _, fun r hread => ?_⟩
  simp only [loud, execute, read_debug, hread, Asked.withDebug]

/-- A run of three actions the last of which fails, with the flag and without it. -/
theorem debug_only_observes_pipeline :
    let host := hostWith pipelineText.toUTF8 [.exited 0, .exited 0, .exited 3]
    let quiet := execute host [] runWords
    let loud := execute host [] ("--debug" :: runWords)
    (∀ r, read [] runWords = .request r → r.debug = false) ∧ loud.2 = true ∧
      (loud.1.exit = quiet.1.exit ∧
        stdoutText ⟨loud.2, "usage\n", "trace\n"⟩ loud.1.messages =
          stdoutText ⟨quiet.2, "usage\n", "trace\n"⟩ quiet.1.messages ∧
        loud.1.calls = quiet.1.calls ∧ loud.1.tree = quiet.1.tree) ∧
      stderrText ⟨loud.2, "usage\n", "trace\n"⟩ (loud.1.messages.filter (!·.isForFaults)) =
        stderrText ⟨quiet.2, "usage\n", "trace\n"⟩ quiet.1.messages := by
  intro host quiet loud
  have hname : Command.ofName? "run" = some .run := by rfl
  have hwords : ∀ r, read [] runWords = .request r → r.debug = false :=
    fun r hread => debug_eq_false_of_read hname hread
  obtain ⟨hsame, hstderr, hshows⟩ :=
    debug_only_observes host [] runWords "usage\n" "trace\n" hwords
  exact ⟨hwords, hshows runRequest read_runWords, hsame, hstderr⟩

end CommandLine

end ContainerFlow
