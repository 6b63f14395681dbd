import Mathlib.Data.List.Flatten
import PrefixIntegral.Proofs.Recording

namespace PrefixIntegral

/-! ## Recorders -/

theorem Verbosity.admits_of_rank_le {quiet loud required : Verbosity}
    (hrank : quiet.rank ≤ loud.rank) (h : quiet.admits required) : loud.admits required := by
  unfold admits at *
  rw [decide_eq_true_iff] at *
  omega

def Remark.isProgress : Remark → Bool
  | progress .. => true
  | _ => false

/-- What is left of the entries written down of a remark if a recorder of a verbosity keeps to what
it is to say. -/
def Verbosity.mute (level : Verbosity) (heard : Remark × List Entry) : Remark × List Entry :=
  (heard.1, if level.admits heard.1.required then heard.2 else [])

namespace Recorder

variable {quiet loud : Recorder}

theorem note_progress (r : Recorder) (now : Float) (message : String) (forced : Bool) :
    r.note (.progress now message forced) =
      if r.level.admits .moderate ∧ (forced || r.isDue now) then
        ({ r with lastProgress := now }, Remark.entries (.progress now message forced))
      else (r, []) := by
  rw [note, Remark.required]
  by_cases hadmits : r.level.admits .moderate
  · simp [hadmits]
  · simp [hadmits]

theorem note_of_not_isProgress (r : Recorder) {remark : Remark} (h : remark.isProgress = false) :
    r.note remark = (r, if r.level.admits remark.required then remark.entries else []) := by
  cases remark with
  | progress => cases h
  | info | milestone | warning | debug | critical | summary =>
      unfold note
      split <;> rfl

/-- A recorder is to say no more than another, and if it writes down progress, both did so last at
the same time. -/
structure Quieter (quiet loud : Recorder) : Prop where
  rank : quiet.level.rank ≤ loud.level.rank
  lastProgress : quiet.level.admits .moderate → quiet.lastProgress = loud.lastProgress

theorem Quieter.note_progress (h : Quieter quiet loud) (now : Float) (message : String)
    (forced : Bool) :
    Quieter (quiet.note (.progress now message forced)).1
      (loud.note (.progress now message forced)).1 ∧
    (quiet.note (.progress now message forced)).2 =
      if quiet.level.admits .moderate then (loud.note (.progress now message forced)).2
      else [] := by
  by_cases hmoderate : quiet.level.admits .moderate
  · have hloud := Verbosity.admits_of_rank_le h.rank hmoderate
    have hdue : quiet.isDue now = loud.isDue now := by
      rw [isDue, isDue, h.lastProgress hmoderate]
    rw [Recorder.note_progress, Recorder.note_progress, if_pos hmoderate, hdue]
    by_cases hwritten : forced || loud.isDue now
    · rw [if_pos ⟨hmoderate, hwritten⟩, if_pos ⟨hloud, hwritten⟩]
      exact ⟨⟨h.rank, fun _ => rfl⟩, rfl⟩
    · rw [if_neg fun hboth => hwritten hboth.2, if_neg fun hboth => hwritten hboth.2]
      exact ⟨h, rfl⟩
  · -- The last times may differ from now on, but the quieter recorder writes no progress down.
    have hquiet : quiet.note (.progress now message forced) = (quiet, []) := by
      rw [Recorder.note_progress, if_neg fun hboth => hmoderate hboth.1]
    rw [hquiet, if_neg hmoderate]
    constructor
    · constructor
      · rw [level_note]
        exact h.rank
      · intro hadmits
        exact absurd hadmits hmoderate
    · rfl

/-- A remark keeps a recorder quieter than another, and of what the other writes down of it the
recorder writes down what it is to say. -/
theorem Quieter.note (h : Quieter quiet loud) (remark : Remark) :
    Quieter (quiet.note remark).1 (loud.note remark).1 ∧
      (quiet.note remark).2 =
        if quiet.level.admits remark.required then (loud.note remark).2 else [] := by
  cases hprogress : remark.isProgress with
  | true =>
      cases remark with
      | progress now message forced => exact h.note_progress now message forced
      | info | milestone | warning | debug | critical | summary => cases hprogress
  | false =>
      rw [note_of_not_isProgress quiet hprogress, note_of_not_isProgress loud hprogress]
      constructor
      · exact h
      · by_cases hadmits : quiet.level.admits remark.required
        · rw [if_pos hadmits, if_pos hadmits, if_pos (Verbosity.admits_of_rank_le h.rank hadmits)]
        · rw [if_neg hadmits, if_neg hadmits]

/-- A quieter recorder hears what the louder does, up to what it is not to say. -/
theorem Quieter.hear (h : Quieter quiet loud) (remarks : List Remark) :
    quiet.hear remarks = (loud.hear remarks).map quiet.level.mute := by
  induction remarks generalizing quiet loud with
  | nil => rfl
  | cons remark rest ih =>
      obtain ⟨hnext, hentries⟩ := h.note remark
      rw [Recorder.hear, Recorder.hear, List.map_cons, ih hnext, level_note, hentries]
      rfl

theorem sinks_sublist (h : quiet.level.rank ≤ loud.level.rank)
    (hstream : quiet.toStream = loud.toStream) (hfile : quiet.file = loud.file) :
    quiet.sinks.Sublist loud.sinks := by
  unfold sinks
  rw [hstream, hfile]
  apply List.Sublist.append_right
  by_cases hquiet : quiet.level = .silent
  · rw [if_pos hquiet]
    exact List.nil_sublist _
  · have hloud : loud.level ≠ .silent := by
      intro hsilent
      rw [hsilent] at h
      revert h hquiet
      cases quiet.level <;> decide
    simp only [if_neg hquiet, if_neg hloud, List.Sublist.refl]

end Recorder

theorem Verbosity.sublist_flatMap_mute (level : Verbosity) (heard : List (Remark × List Entry)) :
    ((heard.map level.mute).flatMap Prod.snd).Sublist (heard.flatMap Prod.snd) := by
  induction heard with
  | nil => exact List.Sublist.refl _
  | cons first rest ih =>
      rw [List.map_cons, List.flatMap_cons, List.flatMap_cons]
      apply List.Sublist.append _ ih
      unfold mute
      dsimp only
      split
      · exact List.Sublist.refl _
      · exact List.nil_sublist _

theorem Verbosity.filter_map_mute {level : Verbosity} (h : level.admits .moderate)
    (heard : List (Remark × List Entry)) :
    (heard.map level.mute).filter (fun line => line.1.isProgress) =
      heard.filter fun line => line.1.isProgress := by
  induction heard with
  | nil => rfl
  | cons first rest ih =>
      obtain ⟨remark, entries⟩ := first
      rw [List.map_cons, List.filter_cons, List.filter_cons, ih]
      cases remark with
      | progress now message forced =>
          rw [mute, Remark.required, if_pos h]
      | info | milestone | warning | debug | critical | summary => rfl

/-! ## Boards -/

namespace Board

theorem deliver_eq {ε : Type} (b : Board) (entries : List ε) : b.deliver entries =
    entries.flatMap fun entry => (b.attached.map Outlet.sink).map (·, entry) := by
  simp only [deliver, List.map_map]
  rfl

theorem sublist_deliver {ε : Type} {b b' : Board} {entries entries' : List ε}
    (hsinks : (b.attached.map Outlet.sink).Sublist (b'.attached.map Outlet.sink))
    (hentries : entries.Sublist entries') : (b.deliver entries).Sublist (b'.deliver entries') := by
  rw [deliver_eq, deliver_eq]
  apply (hentries.flatMap _).trans
  apply List.Sublist.flatMap_right
  intro entry _
  exact hsinks.map _

theorem sinks_install (b : Board) (sinks : List Sink) : (b.install sinks).attached.map Outlet.sink =
    (b.attached.filter (· ∉ b.installed)).map Outlet.sink ++ sinks := by
  rw [install, List.map_append, sinks_numbered]

end Board

/-! ## Sessions -/

namespace Session

variable {s : Session} {i : Nat} {r : Recorder} {requests : List TimedRequest}

/-- Everything said in the course of requests, each remark with the entries that are written down
of it. -/
def heard (s : Session) : List TimedRequest → List (Remark × List Entry)
  | [] => []
  | timed :: rest =>
    (s.journal.recorder?.getD .default).hear timed.remarks ++
      (s.answerAt timed.clock timed.request).session.heard rest

/-- What a sink receives in the course of steps. -/
def received (sink : Sink) (steps : List SessionStep) : List Entry :=
  receivedBy sink (steps.flatMap SessionStep.written)

theorem answerAll_replies (hwork : ∀ timed ∈ requests, timed.work?.isSome) (s s' : Session) :
    (s.answerAll requests).map (fun step => (step.reply, step.warnings)) =
      (s'.answerAll requests).map fun step => (step.reply, step.warnings) := by
  induction requests generalizing s s' with
  | nil => rfl
  | cons timed rest ih =>
      obtain ⟨work, hwork'⟩ := Option.isSome_iff_exists.1 (hwork timed (by simp))
      rw [answerAll, answerAll, List.map_cons, List.map_cons,
        ih fun other hmem => hwork other (by simp [hmem])]
      rw [answerAt_of_work hwork', answerAt_of_work hwork']
      rfl

theorem heard_eq (h : s.journal.Uses i r) (hwork : ∀ timed ∈ requests, timed.work?.isSome) :
    s.heard requests = r.hear (requests.flatMap TimedRequest.remarks) := by
  induction requests generalizing s r with
  | nil => rfl
  | cons timed rest ih =>
      obtain ⟨work, hwork'⟩ := Option.isSome_iff_exists.1 (hwork timed (by simp))
      rw [heard, answerAt_eq h hwork', h.recorder,
        ih (h.withRecorder _) fun other hmem => hwork other (by simp [hmem]), List.flatMap_cons,
        Recorder.hear_append]
      rfl

/-- What is written in the course of work is what is heard, delivered to every outlet. -/
theorem written_eq (h : s.journal.Uses i r) (hwork : ∀ timed ∈ requests, timed.work?.isSome) :
    (s.answerAll requests).flatMap SessionStep.written =
      s.journal.board.deliver ((s.heard requests).flatMap Prod.snd) := by
  rw [heard_eq h hwork]
  induction requests generalizing s r with
  | nil => rfl
  | cons timed rest ih =>
      obtain ⟨work, hwork'⟩ := Option.isSome_iff_exists.1 (hwork timed (by simp))
      rw [answerAll, answerAt_eq h hwork', List.flatMap_cons,
        ih (h.withRecorder _) fun other hmem => hwork other (by simp [hmem]), List.flatMap_cons,
        Recorder.hear_append, List.flatMap_append, Board.deliver_append]
      rfl

def configured (s : Session) (clock : Nat → Float) (setup : RecorderSetup) (level : Verbosity) :
    Session :=
  (s.answerAt clock (.configure { setup with level })).session

theorem configured_uses (s : Session) (clock : Nat → Float) (setup : RecorderSetup)
    (level : Verbosity) : (s.configured clock setup level).journal.Uses s.journal.recorders.length
      (RecorderSetup.recorder { setup with level } (clock 0)) :=
  s.journal.configure_uses _

theorem configured_sinks_sublist (s : Session) (clock : Nat → Float) (setup : RecorderSetup)
    {quiet loud : Verbosity} (hrank : quiet.rank ≤ loud.rank) :
    ((s.configured clock setup quiet).journal.board.attached.map Outlet.sink).Sublist
      ((s.configured clock setup loud).journal.board.attached.map Outlet.sink) := by
  show ((s.journal.board.install _).attached.map Outlet.sink).Sublist
    ((s.journal.board.install _).attached.map Outlet.sink)
  rw [Board.sinks_install, Board.sinks_install]
  apply List.Sublist.append_left
  exact Recorder.sinks_sublist hrank rfl rfl

/-- The same requests for work, at the same times, under two recorders that differ only in their
verbosity. They give the same and warn of the same. Of all that is said, the quieter journal writes
down what the louder one does, as far as it is to say it; so every sink receives a part of what it
receives from the louder journal. If both are to say how far work has come, exactly the same
progress is written down. -/
theorem runs_by_verbosity (s : Session) (clock : Nat → Float) (setup : RecorderSetup)
    {quiet loud : Verbosity} (hrank : quiet.rank ≤ loud.rank) {requests : List TimedRequest}
    (hwork : ∀ timed ∈ requests, timed.work?.isSome) :
    let under (level : Verbosity) := s.configured clock setup level
    let steps (level : Verbosity) := (under level).answerAll requests
    let heard (level : Verbosity) := (under level).heard requests
    (steps quiet).map (fun step => (step.reply, step.warnings)) =
      (steps loud).map (fun step => (step.reply, step.warnings)) ∧
    (∀ sink, (received sink (steps quiet)).Sublist (received sink (steps loud))) ∧
    (∀ level, (steps level).flatMap SessionStep.written =
      (under level).journal.board.deliver ((heard level).flatMap Prod.snd)) ∧
    heard quiet = (heard loud).map quiet.mute ∧
    (quiet.admits .moderate →
      (heard quiet).filter (fun line => line.1.isProgress) =
        (heard loud).filter fun line => line.1.isProgress) := by
  intro under steps heard
  have huses (level : Verbosity) := s.configured_uses clock setup level
  have hwritten (level : Verbosity) : (steps level).flatMap SessionStep.written =
      (under level).journal.board.deliver ((heard level).flatMap Prod.snd) :=
    written_eq (huses level) hwork
  have hheard : heard quiet = (heard loud).map quiet.mute := by
    show (s.configured clock setup quiet).heard requests =
      ((s.configured clock setup loud).heard requests).map quiet.mute
    rw [heard_eq (huses quiet) hwork, heard_eq (huses loud) hwork]
    apply Recorder.Quieter.hear
    exact ⟨hrank, fun _ => rfl⟩
  refine ⟨answerAll_replies hwork _ _, ?_, hwritten, hheard, ?_⟩
  · intro sink
    apply List.Sublist.filterMap
    rw [hwritten, hwritten, hheard]
    exact Board.sublist_deliver (s.configured_sinks_sublist clock setup hrank)
      (quiet.sublist_flatMap_mute _)
  · intro hmoderate
    rw [hheard]
    exact Verbosity.filter_map_mute hmoderate _

def talk : List TimedRequest :=
  [⟨.progress "half way" false, fun _ => 5⟩, ⟨.progress "a bit more" false, fun _ => 6⟩,
    ⟨.debug "a detail", fun _ => 6⟩]

def talkUnder (level : Verbosity) : List SessionStep :=
  ((start 0).configured (fun _ => 0) ⟨.minimal, true, .none⟩ level).answerAll talk

theorem runs_by_verbosity_talk :
    Verbosity.moderate.rank ≤ Verbosity.verbose.rank ∧
    (∀ timed ∈ talk, timed.work?.isSome) ∧
    received .stream (talkUnder .moderate) = [⟨.info, "PROGRESS: half way"⟩] ∧
    (received .stream (talkUnder .moderate)).Sublist (received .stream (talkUnder .verbose)) := by
  refine ⟨by decide, by decide, by decide, ?_⟩
  exact (runs_by_verbosity (start 0) (fun _ => 0) ⟨.minimal, true, .none⟩ (by decide)
    (by decide)).2.1 .stream

end Session

end PrefixIntegral
