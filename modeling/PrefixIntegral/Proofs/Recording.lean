import PrefixIntegral.Journal.Session

namespace PrefixIntegral

namespace Verbosity

variable {v : Verbosity}

theorem admits_iff {required : Verbosity} : v.admits required ↔ required.rank ≤ v.rank :=
  decide_eq_true_iff

theorem admits_minimal_iff : v.admits .minimal ↔ ¬v = .silent := by cases v <;> decide

theorem admits_detailed_iff : v.admits .detailed ↔ v = .detailed ∨ v = .verbose := by
  cases v <;> decide

theorem admits_verbose_iff : v.admits .verbose ↔ v = .verbose := by cases v <;> decide

end Verbosity

namespace Recorder

variable {r : Recorder} {remark : Remark}

def after (r : Recorder) : List Remark → Recorder
  | [] => r
  | remark :: rest => (r.note remark).1.after rest

def hear (r : Recorder) : List Remark → List (Remark × List Entry)
  | [] => []
  | remark :: rest => (remark, (r.note remark).2) :: (r.note remark).1.hear rest

theorem exists_note_eq (r : Recorder) (remark : Remark) :
    ∃ lastProgress, (r.note remark).1 = { r with lastProgress } := by
  unfold note
  split
  · split
    · split
      · exact ⟨_, rfl⟩
      · exact ⟨r.lastProgress, rfl⟩
    · exact ⟨r.lastProgress, rfl⟩
  · exact ⟨r.lastProgress, rfl⟩

@[simp] theorem level_note (r : Recorder) (remark : Remark) :
    (r.note remark).1.level = r.level := by
  obtain ⟨_, hnote⟩ := r.exists_note_eq remark
  rw [hnote]

@[simp] theorem sinks_note (r : Recorder) (remark : Remark) :
    (r.note remark).1.sinks = r.sinks := by
  obtain ⟨_, hnote⟩ := r.exists_note_eq remark
  rw [hnote]
  rfl

/-- Whether a recorder writes a remark down: it is to say as much, and progress is due or forced. -/
def enables (r : Recorder) (remark : Remark) : Bool :=
  r.level.admits remark.required &&
    match remark with
    | .progress now _ forced => forced || r.isDue now
    | _ => true

theorem entries_note (r : Recorder) (remark : Remark) :
    (r.note remark).2 = if r.enables remark then remark.entries else [] := by
  unfold note enables
  cases r.level.admits remark.required with
  | false => rfl
  | true =>
      cases remark with
      | progress now message forced =>
          dsimp only
          rw [Bool.true_and, if_pos rfl]
          split <;> rfl
      | info | milestone | warning | debug | critical | summary => rfl

/-- What is to be received of the remarks to a recorder: one entry with the message of each, and all
lines of a summary, but nothing of what the recorder is not to say. -/
structure Tells (r : Recorder) (received : Remark → List Entry) : Prop where
  info : ∀ message required, received (.info message required) =
    if required.rank ≤ r.level.rank then [⟨.info, message⟩] else []
  progress : ∀ now message forced, received (.progress now message forced) =
    if 2 ≤ r.level.rank ∧ (forced ∨ now - r.lastProgress ≥ 2) then
      [⟨.info, "PROGRESS: " ++ message⟩]
    else []
  milestone : ∀ message, received (.milestone message) =
    if r.level = .silent then [] else [⟨.info, "MILESTONE: " ++ message⟩]
  warning : ∀ message, received (.warning message) =
    if r.level = .silent then [] else [⟨.warning, message⟩]
  debug : ∀ message, received (.debug message) =
    if r.level = .verbose then [⟨.debug, "DEBUG: " ++ message⟩] else []
  critical : ∀ message, received (.critical message) =
    if r.level = .silent then [] else [⟨.error, "CRITICAL: " ++ message⟩]
  summary : ∀ figures : Summary, received (.summary figures) =
    if r.level = .detailed ∨ r.level = .verbose then
      let rule := String.ofList (List.replicate 60 '=')
      ⟨.info, rule⟩ :: ⟨.info, "INTEGRATION RESULT:"⟩ :: ⟨.info, rule⟩ ::
        figures.map fun line => ⟨.info, String.ofList
          (line.1 ++ List.replicate (30 - line.1.length) '.' ++ ' ' :: line.2.write)⟩
    else []

theorem tells_note (r : Recorder) : r.Tells fun remark => (r.note remark).2 where
  info message required := by
    simp only [entries_note, enables, Remark.required, Bool.and_true, Verbosity.admits_iff,
      Remark.entries]
  progress now message forced := by
    simp only [entries_note, enables, Remark.required, Bool.and_eq_true, Verbosity.admits_iff,
      Bool.or_eq_true, isDue, decide_eq_true_iff, Remark.entries]
    rfl
  milestone message := by
    simp only [entries_note, enables, Remark.required, Bool.and_true, Verbosity.admits_minimal_iff,
      ite_not, Remark.entries]
  warning message := by
    simp only [entries_note, enables, Remark.required, Bool.and_true, Verbosity.admits_minimal_iff,
      ite_not, Remark.entries]
  debug message := by
    simp only [entries_note, enables, Remark.required, Bool.and_true, Verbosity.admits_verbose_iff,
      Remark.entries]
  critical message := by
    simp only [entries_note, enables, Remark.required, Bool.and_true, Verbosity.admits_minimal_iff,
      ite_not, Remark.entries]
  summary figures := by
    simp only [entries_note, enables, Remark.required, Bool.and_true, Verbosity.admits_detailed_iff,
      Remark.entries]
    rfl

@[simp] theorem sinks_after (r : Recorder) (remarks : List Remark) :
    (r.after remarks).sinks = r.sinks := by
  induction remarks generalizing r with
  | nil => rfl
  | cons remark rest ih => rw [after, ih, sinks_note]

theorem hear_append (r : Recorder) (first second : List Remark) :
    r.hear (first ++ second) = r.hear first ++ (r.after first).hear second := by
  induction first generalizing r with
  | nil => rfl
  | cons remark rest ih => exact congrArg _ (ih _)

end Recorder

/-- What a sink receives of what is written. -/
def receivedBy (sink : Sink) (written : List (Sink × Entry)) : List Entry :=
  written.filterMap fun line => if line.1 = sink then some line.2 else none

namespace Board

theorem deliver_append {ε : Type} (b : Board) (first second : List ε) :
    b.deliver (first ++ second) = b.deliver first ++ b.deliver second := List.flatMap_append

theorem sinks_numbered (number : Nat) (sinks : List Sink) :
    (numbered number sinks).map Outlet.sink = sinks := by
  rw [numbered, List.map_map]
  exact List.zipIdx_map_fst number sinks

end Board

namespace Journal

variable {j : Journal} {i : Nat} {r : Recorder}

/-- A recorder is in general use, and it is the one made in a certain place. -/
structure Uses (j : Journal) (i : Nat) (r : Recorder) : Prop where
  current : j.current = some i
  found : j.recorders[i]? = some r

def withRecorder (j : Journal) (i : Nat) (r : Recorder) : Journal :=
  { j with recorders := j.recorders.set i r }

theorem configure_uses (j : Journal) (r : Recorder) :
    (j.configure r).Uses j.recorders.length r := by
  constructor
  · rfl
  · exact List.getElem?_concat_length

theorem Uses.withRecorder (h : j.Uses i r) (changed : Recorder) :
    (j.withRecorder i changed).Uses i changed := by
  obtain ⟨hlt, -⟩ := List.getElem?_eq_some_iff.1 h.found
  constructor
  · exact h.current
  · exact List.getElem?_set_self hlt

theorem withRecorder_self (h : j.recorders[i]? = some r) : j.withRecorder i r = j := by
  obtain ⟨hlt, rfl⟩ := List.getElem?_eq_some_iff.1 h
  rw [Journal.withRecorder, List.set_getElem_self]

theorem withRecorder_withRecorder (j : Journal) (i : Nat) (r changed : Recorder) :
    (j.withRecorder i r).withRecorder i changed = j.withRecorder i changed := by
  simp only [Journal.withRecorder, List.set_set]

theorem noteBy_eq (h : j.recorders[i]? = some r) (remark : Remark) : j.noteBy i remark =
    (j.withRecorder i (r.note remark).1, j.board.deliver (r.note remark).2) := by
  rw [noteBy, h]
  rfl

theorem Uses.recorder (h : j.Uses i r) : j.recorder? = some r := by
  rw [recorder?, h.current, Option.bind_some, h.found]

theorem Uses.ensured (h : j.Uses i r) : j.ensured = j := by
  rw [Journal.ensured, h.recorder]
  rfl

theorem exists_uses_ensured (j : Journal) : ∃ i r, j.ensured.Uses i r := by
  unfold ensured
  split
  · rename_i hsome
    obtain ⟨r, hr⟩ := Option.isSome_iff_exists.1 hsome
    obtain ⟨i, hcurrent, hfound⟩ := Option.bind_eq_some_iff.1 hr
    exact ⟨i, r, hcurrent, hfound⟩
  · exact ⟨_, _, j.configure_uses .default⟩

theorem note_ensured (j : Journal) (remark : Remark) : j.ensured.note remark = j.note remark := by
  obtain ⟨i, r, huses⟩ := j.exists_uses_ensured
  rw [note, note, huses.ensured]

theorem Uses.note (h : j.Uses i r) (remark : Remark) : j.note remark =
    (j.withRecorder i (r.note remark).1, j.board.deliver (r.note remark).2) := by
  rw [Journal.note, h.ensured]
  simp only [h.current]
  exact noteBy_eq h.found remark

theorem Uses.noteAll (h : j.Uses i r) (remarks : List Remark) : j.noteAll remarks =
    (j.withRecorder i (r.after remarks),
      j.board.deliver ((r.hear remarks).flatMap Prod.snd)) := by
  induction remarks generalizing j r with
  | nil =>
      rw [Journal.noteAll, Recorder.after, withRecorder_self h.found]
      rfl
  | cons remark rest ih =>
      rw [Journal.noteAll, h.note]
      simp only [ih (h.withRecorder _), withRecorder_withRecorder]
      rw [Recorder.hear, List.flatMap_cons, Board.deliver_append]
      rfl

theorem noteAll_cons (j : Journal) (remark : Remark) (rest : List Remark) :
    j.noteAll (remark :: rest) = j.ensured.noteAll (remark :: rest) := by
  rw [noteAll, noteAll, note_ensured]

end Journal

def TimedRequest.work? (timed : TimedRequest) : Option Work :=
  match timed.request with
  | .info message required => some (.saying (.info message required))
  | .progress message forced => some (.saying (.progress (timed.clock 0) message forced))
  | .milestone message => some (.saying (.milestone message))
  | .warning message => some (.saying (.warning message))
  | .debug message => some (.saying (.debug message))
  | .critical message => some (.saying (.critical message))
  | .summary figures => some (.saying (.summary figures))
  | .read formula symbol => some (.reading formula symbol)
  | .integrate formula symbol lower upper settings passes =>
    some (.integratingFormula timed.clock formula symbol lower upper settings passes)
  | .integrateTree tree lower upper settings passes =>
    some (.integrating timed.clock tree lower upper settings passes)
  | .configure _ | .make _ | .forget | .setLevel _ | .setLevelOf .. | .level | .isEnabled _
  | .attach .. | .detach .. | .tick _ => none

def Remark.asked : Remark → TimedRequest
  | .info message required => ⟨.info message required, fun _ => 0⟩
  | .progress now message forced => ⟨.progress message forced, fun _ => now⟩
  | .milestone message => ⟨.milestone message, fun _ => 0⟩
  | .warning message => ⟨.warning message, fun _ => 0⟩
  | .debug message => ⟨.debug message, fun _ => 0⟩
  | .critical message => ⟨.critical message, fun _ => 0⟩
  | .summary figures => ⟨.summary figures, fun _ => 0⟩

theorem Remark.work_asked (remark : Remark) : remark.asked.work? = some (.saying remark) := by
  cases remark <;> rfl

def TimedRequest.remarks (timed : TimedRequest) : List Remark :=
  (timed.work?.map Work.remarks).getD []

theorem TimedRequest.remarks_of_work {timed : TimedRequest} {work : Work}
    (h : timed.work? = some work) : timed.remarks = work.remarks := by
  rw [remarks, h]
  rfl

namespace Session

variable {s : Session} {i : Nat} {r : Recorder} {timed : TimedRequest} {work : Work}

theorem answerAt_of_work (h : timed.work? = some work) :
    s.answerAt timed.clock timed.request = s.perform work := by
  obtain ⟨request, clock⟩ := timed
  cases request with
  | info | progress | milestone | warning | debug | critical | summary | read | integrate
  | integrateTree =>
      cases h
      rfl
  | configure | make | forget | setLevel | setLevelOf | level | isEnabled | attach | detach
  | tick => cases h

/-- The recorder in general use hears what is said in the course of work, and what it writes down of
it is delivered; nothing else changes. -/
theorem answerAt_eq (h : s.journal.Uses i r) (hwork : timed.work? = some work) :
    s.answerAt timed.clock timed.request =
      ⟨{ s with journal := s.journal.withRecorder i (r.after timed.remarks) }, work.reply,
        work.warnings, s.journal.board.deliver ((r.hear timed.remarks).flatMap Prod.snd)⟩ := by
  rw [answerAt_of_work hwork, TimedRequest.remarks_of_work hwork, perform, h.noteAll]

theorem written_asked (s : Session) (remark : Remark) :
    (s.answerAt remark.asked.clock remark.asked.request).written = (s.journal.note remark).2 := by
  rw [answerAt_of_work remark.work_asked]
  exact List.append_nil _

end Session

end PrefixIntegral
