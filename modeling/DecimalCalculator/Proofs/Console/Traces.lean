import DecimalCalculator.Console.Command
import DecimalCalculator.Proofs.Expression.Draws

/-!
Lines that leave no trace in a run.

* `Console.sessionAfter_congr`: what a command does to the session depends on the session alone.
  `Console.reply_failed`: **a line that fails** leaves the console as it was.
* `Console.reply_congr`: **one line** does the same to two consoles with the same session, however
  results are shown.
* `Console.IsTraceless`: blank lines, commands that concern the display, and lines that fail.
  `Console.IsTraceless.session_eq`: they leave the session as it was.
* `Console.answers`, `Console.after`: the answers to a run of lines, and the console after it.
  `Console.answers_kept`: **a run without its traceless lines** answers the other expressions as
  before, and ends in the same session.
-/

namespace DecimalCalculator

/-! ### Draws of a line -/

/-- What a line that never draws comes to in a session, whatever is drawn. -/
lemma Session.evaluateLine_congr {s : Session} {draws draws' : Draws} {line : Text}
    (h : draws' = draws ∨ NeverDraws s (preprocess line)) :
    s.evaluateLine draws' line = s.evaluateLine draws line := by
  rcases h with rfl | hnever
  · rfl
  · have hcompute : s.compute draws' (preprocess line) = s.compute draws (preprocess line) :=
      congrArg Outcome.toExcept (hnever.evaluateWithin_eq _)
    rw [evaluateLine, evaluateLine, evaluate, evaluate, hcompute]

namespace Console

variable {c c' : Console} {draws draws' : Draws} {line rest argument : Text}

/-! ### Commands -/

/-- The causes for which a command fails. -/
def commandFailures : List Failure := [.invalidMode, .missingArgument, .unknownName]

/-- A command that fails does so for one of three causes. -/
lemma mem_commandFailures {name : Command} {f : Failure}
    (h : c.command name argument = .error f) : f ∈ commandFailures := by
  -- the readers of the arguments know but one cause
  have hread : ∀ {α β : Type} {r : Except Failure α} {next : α → β},
      (∀ f, r = .error f → f = .invalidMode) →
      (r >>= fun a => (.ok (next a) : Except Failure β)) = .error f → f ∈ commandFailures := by
    intro α β r next hr h
    cases r with
    | ok a => exact absurd h (by simp [bind, Except.bind])
    | error g =>
      obtain rfl : g = f := by simpa [bind, Except.bind] using h
      simp [commandFailures, hr g rfl]
  cases name with
  | mode => exact hread (fun f hf => by unfold AngleMode.ofName at hf; split at hf <;> simp_all) h
  | integral =>
    exact hread (fun f hf => by unfold QuadratureRule.ofName at hf; split at hf <;> simp_all) h
  | divisions =>
    exact hread (fun f hf => by unfold Divisions.ofText at hf; split at hf <;> simp_all) h
  | digits =>
    refine hread (fun f hf => ?_) h
    unfold Display.readDigits at hf
    split at hf
    · split at hf <;> simp_all
    · simp_all
  | form =>
    exact hread (fun f hf => by unfold ExponentForm.ofName at hf; split at hf <;> simp_all) h
  | store | showAll => exact absurd h (by simp [command])
  | storeFunction | answerFunction =>
    simp only [command] at h
    split at h
    · obtain rfl : Failure.missingArgument = f := by simpa using h
      simp [commandFailures]
    · exact absurd h (by simp)

/-- No command breaks the program off. -/
lemma runCommand_breaksOff {f : Failure} (h : c.runCommand rest = .error f) :
    f.breaksOff = false := by
  have hmem : f ∈ commandFailures := by
    unfold runCommand at h
    dsimp only at h
    split at h
    · exact mem_commandFailures h
    · obtain rfl : Failure.unknownName = f := by simpa using h
      simp [commandFailures]
  have hall : ∀ g ∈ commandFailures, g.breaksOff = false := by decide
  exact hall f hmem

/-- What a command leaves of the session, or why it fails. -/
def sessionAfter (c : Console) (rest : Text) : Except Failure Session :=
  (c.runCommand rest).map fun done => done.1.session

/-- **What a command does to the session** depends on the session alone, and not on the display. -/
theorem sessionAfter_congr (h : c'.session = c.session) :
    c'.sessionAfter rest = c.sessionAfter rest := by
  have hread : ∀ {α : Type} (r : Except Failure α) (next next' : α → Console × List Setting),
      (∀ a, (next' a).1.session = (next a).1.session) →
      ((r >>= fun a => (.ok (next' a) : Except Failure _)).map fun done => done.1.session) =
        (r >>= fun a => (.ok (next a) : Except Failure _)).map fun done => done.1.session := by
    intro α r next next' hnext
    cases r with
    | error f => rfl
    | ok a => exact congrArg Except.ok (hnext a)
  unfold sessionAfter runCommand
  dsimp only
  cases Command.ofName? (rest.takeWhile fun ch => !isBlank ch) with
  | none => rfl
  | some name =>
    cases name with
    | mode | integral | divisions | digits | form =>
      exact hread _ _ _ fun _ => by simp only [h]
    | store | showAll => simp only [command, h, Except.map]
    | storeFunction | answerFunction =>
      simp only [command, h]
      split <;> rfl

/-- The commands that concern the display alone. -/
def displayCommands : List Command := [.showAll, .digits, .form]

/-- A command that concerns the display leaves the session as it was. -/
lemma command_session {name : Command} (hname : name ∈ displayCommands)
    {done : Console × List Setting} (h : c.command name argument = .ok done) :
    done.1.session = c.session := by
  have hread : ∀ {α : Type} {r : Except Failure α} {next : α → Console × List Setting},
      (∀ a, (next a).1.session = c.session) →
      (r >>= fun a => (.ok (next a) : Except Failure _)) = .ok done →
        done.1.session = c.session := by
    intro α r next hnext h
    cases r with
    | error f => exact absurd h (by simp [bind, Except.bind])
    | ok a =>
      obtain rfl : next a = done := by simpa [bind, Except.bind] using h
      exact hnext a
  simp only [displayCommands, List.mem_cons, List.not_mem_nil, or_false] at hname
  rcases hname with rfl | rfl | rfl
  · obtain rfl : (c, Setting.all) = done := by simpa [command] using h
    rfl
  · exact hread (fun _ => rfl) h
  · exact hread (fun _ => rfl) h

/-! ### Lines -/

/-- Whether a line is an expression, and neither blank nor a command. -/
def isExpression (line : Text) : Bool :=
  match trim line with
  | [] => false
  | c :: _ => c != ':'

/-- The command that a line names. -/
def namedCommand? (line : Text) : Option Command :=
  match trim line with
  | ':' :: rest => Command.ofName? (rest.takeWhile fun ch => !isBlank ch)
  | _ => none

/-- **A line that fails** leaves the console as it was. -/
theorem reply_failed {f : Failure} (h : (c.reply draws line).1 = .failed f) :
    (c.reply draws line).2 = c := by
  unfold reply at h ⊢
  split
  · rfl
  · next hline =>
    simp only [hline] at h
    split
    · next hrun => simp [hrun] at h
    · rfl
  · next hblank hcommand =>
    split
    · next x s hvalue =>
      split at h
      · next hline => exact absurd hline hblank
      · next hline => exact absurd hline (hcommand _)
      · simp [hvalue] at h
    · rfl

/-- Lines are blank, commands or expressions. -/
lemma line_cases (line : Text) :
    trim line = [] ∨ (∃ rest, trim line = ':' :: rest) ∨ isExpression line = true := by
  cases hline : trim line with
  | nil => exact Or.inl rfl
  | cons ch rest =>
    by_cases hch : ch = ':'
    · exact Or.inr (Or.inl ⟨rest, by rw [hch]⟩)
    · exact Or.inr (Or.inr (by simpa [isExpression, hline] using hch))

/-- A blank line comes to nothing. -/
lemma reply_of_blank (h : trim line = []) : c.reply draws line = (.nothing, c) := by
  rw [reply, h]

/-- What a command leaves of the session, and that it does not break the program off. -/
lemma reply_of_command (c : Console) (draws : Draws) (h : trim line = ':' :: rest) :
    (c.reply draws line).2.session = ((c.sessionAfter rest).toOption.getD c.session) ∧
      (c.reply draws line).1.isAbort = false := by
  rw [reply, h]
  simp only [sessionAfter]
  cases hrun : c.runCommand rest with
  | ok done => exact ⟨rfl, rfl⟩
  | error f => exact ⟨rfl, runCommand_breaksOff hrun⟩

/-- An expression is evaluated in the session. -/
lemma reply_of_expression (h : isExpression line = true) :
    c.reply draws line =
      match c.session.evaluateLine draws (trim line) with
      | (.ok x, session) => (.value x, { c with session := session })
      | (.error f, _) => (.failed f, c) := by
  unfold isExpression at h
  unfold reply
  split
  · next hline => simp [hline] at h
  · next hline => simp [hline] at h
  · rfl

/-- **One line** does the same to two consoles with the same session, and an expression comes to
the same, if it draws the same or nothing at all. -/
theorem reply_congr (hsession : c'.session = c.session)
    (hdraws : draws' = draws ∨ NeverDraws c.session (preprocess (trim line))) :
    (c'.reply draws' line).2.session = (c.reply draws line).2.session ∧
      (c'.reply draws' line).1.isAbort = (c.reply draws line).1.isAbort ∧
      (isExpression line = true → (c'.reply draws' line).1 = (c.reply draws line).1) := by
  rcases line_cases line with hblank | ⟨rest, hcommand⟩ | hexpression
  · rw [reply_of_blank hblank, reply_of_blank hblank]
    exact ⟨hsession, rfl, fun _ => rfl⟩
  · obtain ⟨hafter, habort⟩ := c.reply_of_command draws hcommand
    obtain ⟨hafter', habort'⟩ := c'.reply_of_command draws' hcommand
    refine ⟨by rw [hafter, hafter', sessionAfter_congr hsession, hsession],
      by rw [habort, habort'], fun hexpression => ?_⟩
    simp [isExpression, hcommand] at hexpression
  · rw [reply_of_expression hexpression, reply_of_expression hexpression, hsession,
      Session.evaluateLine_congr hdraws]
    cases c.session.evaluateLine draws (trim line) with
    | mk r s =>
      cases r with
      | ok x => exact ⟨rfl, rfl, fun _ => rfl⟩
      | error f => exact ⟨hsession, rfl, fun _ => rfl⟩

/-! ### Traceless lines -/

/-- A line with a reply leaves no trace: it is blank, or it concerns the display alone, or it fails
without breaking the program off. -/
def IsTraceless (line : Text) (r : Reply) : Prop :=
  trim line = [] ∨ (∃ name ∈ displayCommands, namedCommand? line = some name) ∨
    r.isFailure = true ∧ r.isAbort = false

instance (line : Text) (r : Reply) : Decidable (IsTraceless line r) :=
  inferInstanceAs (Decidable (_ ∨ _))

/-- A reply that is a failure has a cause. -/
lemma exists_failure {r : Reply} (h : r.isFailure = true) : ∃ f, r = .failed f := by
  cases r with
  | failed f => exact ⟨f, rfl⟩
  | value x | settings shown | nothing => exact absurd h (by simp [Reply.isFailure])

/-- A command that concerns the display alone has the session that it was given. -/
lemma sessionAfter_of_display {name : Command}
    (hnamed : Command.ofName? (rest.takeWhile fun ch => !isBlank ch) = some name)
    (hname : name ∈ displayCommands) :
    (c.sessionAfter rest).toOption.getD c.session = c.session := by
  cases hrun : c.runCommand rest with
  | error f => simp [sessionAfter, hrun, Except.map, Except.toOption]
  | ok done =>
    have hcommand : c.command name (trim (rest.dropWhile fun ch => !isBlank ch)) = .ok done := by
      simpa only [runCommand, hnamed] using hrun
    simp [sessionAfter, hrun, Except.map, Except.toOption, command_session hname hcommand]

/-- **Traceless lines** leave the session as it was, and do not break the program off. -/
theorem IsTraceless.session_eq (h : IsTraceless line (c.reply draws line).1) :
    (c.reply draws line).2.session = c.session ∧ (c.reply draws line).1.isAbort = false := by
  rcases h with hblank | ⟨name, hname, hnamed⟩ | ⟨hfails, hreported⟩
  · rw [reply_of_blank hblank]
    exact ⟨rfl, rfl⟩
  · unfold namedCommand? at hnamed
    split at hnamed
    · next rest hline =>
      obtain ⟨hafter, habort⟩ := c.reply_of_command draws hline
      exact ⟨hafter.trans (sessionAfter_of_display hnamed hname), habort⟩
    · exact absurd hnamed (by simp)
  · obtain ⟨f, hf⟩ := exists_failure hfails
    exact ⟨by rw [reply_failed hf], hreported⟩

/-! ### Runs -/

/-- A line that is entered, what it draws, and whether it is among those to leave out. -/
structure Entry where
  line : Text
  draws : Draws
  isLeftOut : Bool

/-- An entry, the session that it meets, and what it comes to. -/
structure Answer where
  entry : Entry
  session : Session
  reply : Reply

/-- Whether the entry is an expression. -/
def Answer.isExpression (a : Answer) : Bool := Console.isExpression a.entry.line

/-- The answers to entries, up to one that breaks the program off. -/
def answers (c : Console) : List Entry → List Answer
  | [] => []
  | e :: later =>
    let (r, next) := c.reply e.draws e.line
    ⟨e, c.session, r⟩ :: if r.isAbort then [] else answers next later

/-- The console after entries, up to one that breaks the program off. -/
def after (c : Console) : List Entry → Console
  | [] => c
  | e :: later =>
    let (r, next) := c.reply e.draws e.line
    if r.isAbort then next else after next later

/-- The entries that are not left out. They may draw something else. -/
def kept (redraw : Entry → Draws) (entries : List Entry) : List Entry :=
  (entries.filter fun e => !e.isLeftOut).map fun e => { e with draws := redraw e }

/-- The expressions among the answers, with what they come to. -/
def expressionReplies (answers : List Answer) : List (Text × Reply) :=
  (answers.filter Answer.isExpression).map fun a => (a.entry.line, a.reply)

/-- The answers to entries that are not left out. -/
def keptAnswers (answers : List Answer) : List Answer :=
  answers.filter fun a => !a.entry.isLeftOut

/-- The answers begin with that to the first entry. -/
lemma answers_cons (e : Entry) (later : List Entry) :
    c.answers (e :: later) = ⟨e, c.session, (c.reply e.draws e.line).1⟩ ::
      if (c.reply e.draws e.line).1.isAbort then []
      else (c.reply e.draws e.line).2.answers later := rfl

/-- The console after entries is that after the later ones. -/
lemma after_cons (e : Entry) (later : List Entry) :
    c.after (e :: later) =
      if (c.reply e.draws e.line).1.isAbort then (c.reply e.draws e.line).2
      else (c.reply e.draws e.line).2.after later := rfl

/-- Answers to the same line, which are the same for an expression, add the same. -/
lemma expressionReplies_cons_congr {a a' : Answer} {as as' : List Answer}
    (hline : a'.entry.line = a.entry.line)
    (hreply : isExpression a.entry.line = true → a'.reply = a.reply)
    (h : expressionReplies as' = expressionReplies as) :
    expressionReplies (a' :: as') = expressionReplies (a :: as) := by
  have hboth : a'.isExpression = a.isExpression := by rw [Answer.isExpression, hline]; rfl
  unfold expressionReplies at h ⊢
  by_cases hexpression : a.isExpression = true
  · rw [List.filter_cons_of_pos (hboth.trans hexpression), List.filter_cons_of_pos hexpression,
      List.map_cons, List.map_cons, h, hline, hreply hexpression]
  · rwa [List.filter_cons_of_neg (by rwa [hboth]), List.filter_cons_of_neg hexpression]

variable {redraw : Entry → Draws}

/-- What the answers of a run have to be for entries to be left out: an entry that is to be left out
leaves no trace, and another draws the same as before, or nothing at all. -/
structure Answer.IsSettled (redraw : Entry → Draws) (a : Answer) : Prop where
  traceless : a.entry.isLeftOut = true → IsTraceless a.entry.line a.reply
  draws : a.entry.isLeftOut = false → redraw a.entry = a.entry.draws ∨
    NeverDraws a.session (preprocess (trim a.entry.line))

/-- Consoles with the same session answer the entries that are not left out alike. -/
lemma answers_kept_congr {entries : List Entry} (hsession : c'.session = c.session)
    (h : ∀ a ∈ c.answers entries, a.IsSettled redraw) :
    expressionReplies (c'.answers (kept redraw entries)) =
        expressionReplies (keptAnswers (c.answers entries)) ∧
      (c'.after (kept redraw entries)).session = (c.after entries).session := by
  -- along the run, with the two consoles in step
  induction entries generalizing c c' with
  | nil => exact ⟨rfl, hsession⟩
  | cons e later ih =>
    rw [answers_cons] at h
    obtain ⟨hfirst, hlater⟩ := List.forall_mem_cons.mp h
    cases hleft : e.isLeftOut with
    | true =>
      obtain ⟨hsame, hreported⟩ := (hfirst.traceless hleft).session_eq
      simp only [hreported, Bool.false_eq_true, if_false] at hlater
      simpa [answers_cons, after_cons, kept, keptAnswers, hleft, hreported] using
        ih (hsession.trans hsame.symm) hlater
    | false =>
      obtain ⟨hsame, habort, hreply⟩ := reply_congr hsession (hfirst.draws hleft)
      have hkept : kept redraw (e :: later) =
          { e with draws := redraw e } :: kept redraw later := by simp [kept, hleft]
      have hanswers : ∀ a as, a.entry.isLeftOut = false →
          keptAnswers (a :: as) = a :: keptAnswers as := fun a as ha => by simp [keptAnswers, ha]
      rw [hkept, answers_cons, answers_cons, after_cons, after_cons, hanswers _ _ hleft, habort]
      cases hbreaks : (c.reply e.draws e.line).1.isAbort with
      | true => exact ⟨expressionReplies_cons_congr rfl hreply rfl, hsame⟩
      | false =>
        simp only [hbreaks, Bool.false_eq_true, if_false] at hlater ⊢
        obtain ⟨hreplies, hsessions⟩ := ih hsame hlater
        exact ⟨expressionReplies_cons_congr rfl hreply hreplies, hsessions⟩

end Console

end DecimalCalculator
